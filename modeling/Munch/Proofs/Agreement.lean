import Munch.Proofs.Bounds
import Munch.Proofs.Noise
import Munch.Proofs.Output

namespace Munch.Cli

/-- What is generated is a text of `length` characters, which are lexed into `n` outcomes. Benching
names the numbers of the tokens, of their characters and of the characters between them, and a peak
that the lookahead of the grammar bounds. Any feed of the bytes of the text is summed up by the same
numbers. -/
def Agree (g : Grammar String) (length : Nat) (generated benched : Transcript)
    (summed : Utf8.Feed → Transcript) : Prop :=
  ∃ (letters : List Char) (n skipped peak : Nat),
    let ts := (g.lexing n letters).filterMap Outcome.token?
    let matched := (ts.map Token.length).sum
    letters.length = length ∧ (∀ m < n, g.rest^[m] letters ≠ []) ∧ g.rest^[n] letters = [] ∧
      matched + skipped = length ∧ peak ≤ g.maxLength - 1 ∧
      generated = { output := [.text (.ofList letters)] } ∧
      benched = { output := [
        .text (s!"parsed {ts.length} tokens totaling {matched} characters"
          ++ s!" out of {length} in stream ({skipped} skipped) in "),
        .elapsed,
        .text (" ms\n" ++ s!"pushback buffer peak: {peak} of {g.maxLength - 1}\n")] } ∧
      ∀ f : Utf8.Feed, f.Serves (Utf8.encode letters) → summed f = { output := [
        .text (s!"tokens: {ts.length}\n" ++ s!"matched characters: {matched}\n"
          ++ s!"skipped characters: {skipped}\n")] }

section

variable {γ : Type} [Generator γ] {g : Grammar String} {n : Noise γ} {letters : List Char} {k : Nat}

theorem ofGenerate_of_delivers (h : Delivers n letters .ended) :
    Transcript.ofGenerate n = { output := [.text (.ofList letters)] } := by
  obtain ⟨m, hm⟩ := Source.drain_of_delivers h
  rw [Transcript.ofGenerate, hm]

theorem ofBench_of_drains {os : List (Outcome String)} {l : Lexer (Noise γ) String}
    (h : (Lexer.create g n).Drains os (.ok ()) l) :
    Transcript.ofBench g n = .ofCounts n.remaining (os.foldl Stats.note {}) l.channel.highWater
      l.channel.capacity := by
  obtain ⟨p, hcollect, rfl, hstats⟩ := Parser.collect_of_drains (p := .create g n) h rfl
  have hfinish : (Parser.create g n).finish = (.ok (), p) := by
    rw [Parser.finish_eq_collectFrom _ [], ← Parser.collect, hcollect]
  simp only [Transcript.ofBench, hfinish, hstats]
  rfl

theorem ofBench_of_delivers (hk : ∀ m < k, g.rest^[m] letters ≠ [])
    (hlast : g.rest^[k] letters = []) (h : Delivers n letters .ended) :
    ∃ peak ≤ g.maxLength - 1, Transcript.ofBench g n =
      .ofCounts n.remaining (g.count k letters) peak (g.maxLength - 1) := by
  obtain ⟨l, hdrains⟩ := Lexer.drains_of_ended hk hlast h
  have hreach := hdrains.reachable .create
  obtain ⟨hfits, -⟩ := hreach.fits
  rw [hreach.valid.1] at hfits
  refine ⟨l.channel.highWater, hfits.highWater_le, ?_⟩
  rw [ofBench_of_drains hdrains, hfits.capacity_eq]
  rfl

theorem ofParse_of_serves {f : Utf8.Feed} (hk : ∀ m < k, g.rest^[m] letters ≠ [])
    (hlast : g.rest^[k] letters = []) (hf : f.Serves (Utf8.encode letters)) :
    Transcript.ofParse g .summary f = { output := [.text (summary (g.count k letters))] } := by
  rw [← List.append_nil (Utf8.encode letters)] at hf
  have h : Delivers (Utf8.Reader.mk (some f)) letters .ended :=
    Utf8.Reader.delivers_of_serves hf fun f hf => by
      obtain ⟨f', hnext, -⟩ := hf.next_ended
      exact .ended (by rw [Utf8.Reader.next_eq, hnext])
  obtain ⟨p, hcollect, hstats⟩ := Parser.collect_of_ended hk hlast h
  simp only [Transcript.ofParse, hcollect, hstats, if_pos]

theorem agree_of_open (g : Grammar String) (n : Noise γ) (ho : n.closed = false) :
    Agree g n.remaining (.ofGenerate n) (.ofBench g n) (.ofParse g .summary) := by
  obtain ⟨letters, hlength, hnoise⟩ := n.exists_delivers ho
  obtain ⟨k, hk, hlast⟩ := g.exists_rest (P := (· = [])) rfl letters
  obtain ⟨peak, hpeak, hbench⟩ := ofBench_of_delivers hk hlast hnoise
  have htokens := g.tokens_count k letters
  have hmatched := g.matchedUnits_count k letters
  have htotal : (g.count k letters).consumedUnits = n.remaining :=
    (Grammar.consumedUnits_count hlast).trans hlength
  rw [Stats.consumedUnits, hmatched] at htotal
  refine ⟨letters, k, (g.count k letters).skippedUnits, peak, hlength, hk, hlast, htotal, hpeak,
    ofGenerate_of_delivers hnoise, ?_, fun f hf => ?_⟩
  · rw [hbench, ← htokens, ← hmatched]
    rfl
  · rw [ofParse_of_serves hk hlast hf, ← htokens, ← hmatched]
    rfl

end

theorem grammar_input (w : World) (f : Utf8.Feed) (path : Option String) :
    grammar { w with input := f } path = grammar w path := by
  cases path with
  | none => rfl
  | some path => rfl

/-- Noise that is generated and then parsed gives the counts of the same noise benched, whatever
chunks it comes in on the way. They cover all of it, and the peak is within the capacity. This holds
of any generator, and of the commands with theirs. -/
theorem bench_agrees (g : Grammar String) :
    (∀ {γ : Type} [Generator γ] (length : Nat) (start : γ),
      Agree g length (.ofGenerate (Noise.create length start))
        (.ofBench g (Noise.create length start)) (.ofParse g .summary)) ∧
    ∀ (w : World) (benchPath parsePath : Option String) (length : Nat) (seed : UInt64)
      (generateArgs benchArgs parseArgs : List String),
      grammar w benchPath = .ok g → grammar w parsePath = .ok g →
      Command.ofArgs generateArgs = some (.generate length seed) →
      Command.ofArgs benchArgs = some (.bench length seed benchPath) →
      Command.ofArgs parseArgs = some (.parse "-" parsePath .summary) →
      Agree g length (run w generateArgs) (run w benchArgs)
        fun f => run { w with input := f } parseArgs := by
  refine ⟨fun length start => agree_of_open g (.create length start) rfl, ?_⟩
  intro w benchPath parsePath length seed generateArgs benchArgs parseArgs hg hg' hgenerate hbench
    hparse
  have hgenerated : run w generateArgs = .ofGenerate (.ofSeed length seed) := by
    rw [run, hgenerate]
    rfl
  have hbenched : run w benchArgs = .ofBench g (.ofSeed length seed) := by
    rw [run, hbench]
    simp only [Command.run, withGrammar, hg]
  have hparsed (f : Utf8.Feed) : run { w with input := f } parseArgs = .ofParse g .summary f := by
    rw [run, hparse]
    simp only [Command.run, withGrammar, grammar_input, hg', if_pos]
  rw [hgenerated, hbenched, funext hparsed]
  exact agree_of_open g (.ofSeed length seed) rfl

/-- Both units behind `ab` are read before it is clear that no `abcd` comes. -/
theorem ofBench_abcy : (Transcript.ofBench abAndAbcd (.ofSeed 4 2)).output = [
    .text "parsed 1 tokens totaling 2 characters out of 4 in stream (2 skipped) in ", .elapsed,
    .text " ms\npushback buffer peak: 2 of 3\n"] := by
  obtain ⟨l, hl⟩ : ∃ l : Lexer (Noise ChaCha) String, l = .create abAndAbcd (.ofSeed 4 2) :=
    ⟨_, rfl⟩
  have hcalls : (l.nextToken.1, l.nextToken.2.nextToken.1, l.nextToken.2.nextToken.2.nextToken.1,
      l.nextToken.2.nextToken.2.nextToken.2.nextToken.1,
      l.nextToken.2.nextToken.2.nextToken.2.nextToken.2.channel.highWater,
      l.nextToken.2.nextToken.2.nextToken.2.nextToken.2.channel.capacity) =
    (.ok (.matched ⟨"ab", "ab"⟩), .ok (.skipped 'c'), .ok (.skipped 'y'), .ok .ended, 2, 3) := by
    rw [hl]
    cbv
  simp only [Prod.mk.injEq] at hcalls
  obtain ⟨hab, hc, hy, hended, hpeak, hroom⟩ := hcalls
  have hdrains : l.Drains _ (.ok ()) _ :=
    .step (Prod.ext hab rfl) (by simp) <| .step (Prod.ext hc rfl) (by simp) <|
      .step (Prod.ext hy rfl) (by simp) <| .ended (Prod.ext hended rfl)
  rw [hl] at hdrains
  rw [ofBench_of_drains hdrains, ← hl, hpeak, hroom]
  decide

theorem bench_agrees_abcy :
    Command.ofArgs ["generate", "--length", "4", "--seed", "2"] = some (.generate 4 2) ∧
      Command.ofArgs ["bench", "-n4", "-s", "2"] = some (.bench 4 2 none) ∧
      Command.ofArgs ["parse", "-", "--format=summary"] = some (.parse "-" none .summary) ∧
      grammar World.empty none = .ok abAndAbcd ∧
      (run World.empty ["generate", "--length", "4", "--seed", "2"]).output = [.text "abcy"] ∧
      (run World.empty ["bench", "-n4", "-s", "2"]).output = [
        .text "parsed 1 tokens totaling 2 characters out of 4 in stream (2 skipped) in ", .elapsed,
        .text " ms\npushback buffer peak: 2 of 3\n"] ∧
      ∀ f : Utf8.Feed, f.Serves (Utf8.encode ['a', 'b', 'c', 'y']) →
        (run { World.empty with input := f } ["parse", "-", "--format=summary"]).output =
          [.text "tokens: 1\nmatched characters: 2\nskipped characters: 2\n"] := by
  have hgenerate : Command.ofArgs ["generate", "--length", "4", "--seed", "2"] =
      some (.generate 4 2) := rfl
  have hbench : Command.ofArgs ["bench", "-n4", "-s", "2"] = some (.bench 4 2 none) := rfl
  have hparse : Command.ofArgs ["parse", "-", "--format=summary"] =
      some (.parse "-" none .summary) := rfl
  have hgrammar : grammar World.empty none = .ok abAndAbcd := rfl
  have hwritten : (run World.empty ["generate", "--length", "4", "--seed", "2"]).output =
      [.text "abcy"] := by decide +kernel
  have hbenched : run World.empty ["bench", "-n4", "-s", "2"] =
      .ofBench abAndAbcd (.ofSeed 4 2) := rfl
  refine ⟨hgenerate, hbench, hparse, hgrammar, hwritten, by rw [hbenched, ofBench_abcy], ?_⟩
  intro f hf
  obtain ⟨letters, n, skipped, peak, -, hrests, hlast, htotal, -, hgenerated, -, hsummed⟩ :=
    (bench_agrees abAndAbcd).2 World.empty none none 4 2 _ _ _ hgrammar hgrammar hgenerate hbench
      hparse
  obtain rfl : letters = ['a', 'b', 'c', 'y'] := by
    rw [hgenerated] at hwritten
    exact String.ofList_injective (Piece.text.inj (List.cons.inj hwritten).1)
  obtain rfl : n = 3 := by
    rcases Nat.lt_trichotomy n 3 with hlt | heq | hgt
    · have hnonempty : ∀ m < 3, abAndAbcd.rest^[m] ['a', 'b', 'c', 'y'] ≠ [] := by decide
      exact absurd hlast (hnonempty n hlt)
    · exact heq
    · exact absurd (by decide) (hrests 3 hgt)
  have htokens : (abAndAbcd.lexing 3 ['a', 'b', 'c', 'y']).filterMap Outcome.token? =
      [⟨"ab", "ab"⟩] := by decide
  rw [htokens] at htotal hsummed
  obtain rfl : skipped = 2 := Nat.add_left_cancel htotal
  exact congrArg Transcript.output (hsummed f hf)

end Munch.Cli
