import Munch.Cli.Command
import Munch.Config
import Munch.Files
import Munch.Noise.ChaCha
import Munch.Parser

namespace Munch.Cli

/-- A piece of output. Only the time that a run took is not known in advance. -/
inductive Piece
  | text (s : String)
  | elapsed
  deriving DecidableEq

structure Transcript where
  output : List Piece
  complaint : Option String := none
  exitCode : Nat := 0

namespace Transcript

def failed (output : String) (message : String) : Transcript :=
  { output := [.text output], complaint := some ("Error: " ++ message ++ "\n"), exitCode := 1 }

end Transcript

def grammar (w : World) : Option String → Except GrammarError (Grammar String)
  | none => Config.standard.toGrammar
  | some path => do (← Config.load w.find path).toGrammar

def withGrammar (w : World) (path : Option String) (run : Grammar String → Transcript) :
    Transcript :=
  match grammar w path with
  | .error e => .failed "" e.message
  | .ok g => run g

def line (s : String) : String := s ++ "\n"

def Format.lines (f : Format) (tokens : List (Token String)) (stop : Except StreamError Unit) :
    String :=
  match f with
  | .text => String.join (tokens.map fun t => line (t.alternative ++ "\t" ++ t.text))
  | .json =>
    let results := tokens.map Result.matched ++ match stop with
      | .ok () => [.endOfStream]
      | .error _ => []
    String.join (results.map fun r => line (.ofList r.json))
  | .summary => ""

def summary (s : Stats) : String :=
  line s!"tokens: {s.tokens}" ++ line s!"matched characters: {s.matchedUnits}"
    ++ line s!"skipped characters: {s.skippedUnits}"

def Transcript.ofParse (g : Grammar String) (format : Format) (feed : Utf8.Feed) : Transcript :=
  let p : Parser Utf8.Reader String := .create g ⟨some feed⟩
  let (tokens, stop, p) := p.collect
  let lines := format.lines tokens stop
  match stop with
  | .error e => .failed lines e.message
  | .ok () => { output := [.text (if format = .summary then summary p.stats else lines)] }

section

variable {γ : Type} [Generator γ]

def Transcript.ofGenerate (n : Noise γ) : Transcript :=
  let (letters, _) := Source.drain n
  { output := [.text (.ofList letters)] }

def Transcript.ofCounts (length : Nat) (s : Stats) (peak capacity : Nat) : Transcript :=
  let counts := s!"parsed {s.tokens} tokens totaling {s.matchedUnits} characters"
  let rest := s!" out of {length} in stream ({s.skippedUnits} skipped) in "
  { output := [
      .text (counts ++ rest),
      .elapsed,
      .text (line " ms" ++ line s!"pushback buffer peak: {peak} of {capacity}")] }

def Transcript.ofBench (g : Grammar String) (n : Noise γ) : Transcript :=
  let p : Parser (Noise γ) String := .create g n
  let (stop, p) := p.finish
  let c := p.lexer.channel
  match stop with
  | .error e => .failed "" e.message
  | .ok () => .ofCounts n.remaining p.stats c.highWater c.capacity

end

def padded (width : Nat) (s : String) : String :=
  s ++ .ofList (List.replicate (width - s.length) ' ')

def Transcript.ofAlternatives (g : Grammar String) : Transcript :=
  let rows := g.trialOrder.map fun a => line ("  " ++ padded 16 a.id ++ " " ++ a.text)
  { output := [
      .text (line (line s!"Alternatives in trial order (K = {g.maxLength}):")
        ++ String.join rows)] }

/-- A grammar is looked at before the input is opened. There is no text of help. -/
def Command.run (w : World) : Command → Transcript
  | .version => { output := [.text (line "pushlex 0.1.0")] }
  | .help => { output := [] }
  | .parse path grammarPath format => withGrammar w grammarPath fun g =>
    if path = "-" then .ofParse g format w.input
    else
      match w.find path with
      | .error e => .failed "" e.message
      | .ok place => .ofParse g format place.feed
  | .generate length seed => .ofGenerate (.ofSeed length seed)
  | .bench length seed grammarPath => withGrammar w grammarPath fun g =>
    .ofBench g (.ofSeed length seed)
  | .alternatives grammarPath => withGrammar w grammarPath .ofAlternatives

def run (w : World) (args : List String) : Transcript :=
  match Command.ofArgs args with
  | some c => c.run w
  | none => { output := [], exitCode := 2 }

end Munch.Cli
