import Munch.Cli.Run
import Munch.Proofs.Decoding
import Munch.Proofs.Draining
import Munch.Proofs.Json

namespace Munch.Cli

def Brings (w : World) (path : String) (b : List UInt8) : Prop :=
  if path = "-" then w.input.Serves b else w.find path = .ok (.file b)

def feed (w : World) (path : String) : Except IoError Utf8.Feed :=
  if path = "-" then .ok w.input else (w.find path).map Place.feed

def row (t : Token String) : String := t.alternative ++ "\t" ++ t.text ++ "\n"

namespace Format

def whole (ts : List (Token String)) (skipped : Nat) : Format → String
  | .text => String.join (ts.map row)
  | .json => shown (ts.map .matched ++ [.endOfStream])
  | .summary => line s!"tokens: {ts.length}"
    ++ line s!"matched characters: {(ts.map Token.length).sum}"
    ++ line s!"skipped characters: {skipped}"

def cutShort (ts : List (Token String)) : Format → String
  | .text => String.join (ts.map row)
  | .json => shown (ts.map .matched)
  | .summary => ""

theorem lines_failed (f : Format) (ts : List (Token String)) (e : StreamError) :
    f.lines ts (.error e) = f.cutShort ts := by
  cases f with
  | text => rfl
  | json => rw [lines, List.append_nil]; rfl
  | summary => rfl

theorem lines_ended (f : Format) (ts : List (Token String)) {s : Stats}
    (ht : s.tokens = ts.length) (hm : s.matchedUnits = (ts.map Token.length).sum) :
    (if f = .summary then Cli.summary s else f.lines ts (.ok ())) = f.whole ts s.skippedUnits := by
  cases f with
  | text => rfl
  | json => exact if_neg nofun
  | summary =>
    rw [if_pos rfl, Cli.summary, ht, hm]
    rfl

end Format

def ReadsAs (output : String) (rs : List (Result String)) : Prop :=
  (output.toList.splitOn '\n').dropLast.map Result.ofJson = rs.map some

variable {w : World} {args : List String} {path : String} {grammarPath : Option String}
  {format : Format} {g : Grammar String} {f : Utf8.Feed} {b : List UInt8}

theorem run_cases (hargs : Command.ofArgs args = some (.parse path grammarPath format)) :
    (∃ g f, grammar w grammarPath = .ok g ∧ feed w path = .ok f ∧
      run w args = .ofParse g format f) ∨
    ((∀ g f, grammar w grammarPath = .ok g → feed w path ≠ .ok f) ∧
      ∃ message, run w args = .failed "" message) := by
  rw [run, hargs]
  simp only [Command.run, withGrammar]
  cases hg : grammar w grammarPath with
  | error e => exact .inr ⟨nofun, e.message, rfl⟩
  | ok g =>
    by_cases hp : path = "-"
    · exact .inl ⟨g, w.input, rfl, if_pos hp, if_pos hp⟩
    · have hfeed : feed w path = (w.find path).map Place.feed := if_neg hp
      simp only [if_neg hp, hfeed]
      cases w.find path with
      | error e => exact .inr ⟨nofun, e.message, rfl⟩
      | ok place => exact .inl ⟨g, place.feed, rfl, rfl, rfl⟩

theorem exists_feed (hb : Brings w path b) : ∃ f, f.Serves b ∧ feed w path = .ok f := by
  by_cases hp : path = "-"
  · rw [Brings, if_pos hp] at hb
    exact ⟨w.input, hb, if_pos hp⟩
  · rw [Brings, if_neg hp] at hb
    rw [feed, if_neg hp, hb]
    exact ⟨_, Utf8.Feed.serves_bytes b, rfl⟩

theorem run_eq_ofParse (hargs : Command.ofArgs args = some (.parse path grammarPath format))
    (hg : grammar w grammarPath = .ok g) (hb : Brings w path b) :
    ∃ f : Utf8.Feed, f.Serves b ∧ run w args = .ofParse g format f := by
  obtain ⟨f, hf, hfeed⟩ := exists_feed hb
  rcases run_cases (w := w) hargs with ⟨g', f', hg', hf', hrun⟩ | ⟨hnone, -⟩
  · cases hg.symm.trans hg'
    cases hfeed.symm.trans hf'
    exact ⟨f, hf, hrun⟩
  · exact absurd hfeed (hnone g f hg)

theorem ofParse_of_ended {v : List Char} (g : Grammar String) (format : Format)
    (h : Delivers (Utf8.Reader.mk (some f)) v .ended) :
    ∃ n, (∀ m < n, g.rest^[m] v ≠ []) ∧ g.rest^[n] v = [] ∧
      let ts := (g.lexing n v).filterMap Outcome.token?
      ∃ skipped, (ts.map Token.length).sum + skipped = v.length ∧
        Transcript.ofParse g format f = { output := [.text (format.whole ts skipped)] } := by
  obtain ⟨n, hn, hlast⟩ := g.exists_rest (P := (· = [])) rfl v
  obtain ⟨p, hcollect, hstats⟩ := Parser.collect_of_ended hn hlast h
  refine ⟨n, hn, hlast, (g.count n v).skippedUnits, ?_, ?_⟩
  · rw [← Grammar.matchedUnits_count]
    exact Grammar.consumedUnits_count hlast
  · simp only [Transcript.ofParse, hcollect, hstats]
    rw [Format.lines_ended format _ (g.tokens_count n v) (g.matchedUnits_count n v)]

theorem ofParse_of_failed {v : List Char} {e : IoError} (g : Grammar String) (format : Format)
    (h : Delivers (Utf8.Reader.mk (some f)) v (.failed e)) :
    ∃ n, (∀ m < n, ¬ g.Undecided (g.rest^[m] v)) ∧ g.Undecided (g.rest^[n] v) ∧
      Transcript.ofParse g format f = {
        output := [.text (format.cutShort ((g.lexing n v).filterMap Outcome.token?))]
        complaint := some ("Error: " ++ (StreamError.failed e).message ++ "\n")
        exitCode := 1 } := by
  obtain ⟨n, l, hd, hu, hdrains⟩ := Lexer.drains_of_failed g h
  obtain ⟨p, hcollect, -⟩ := Parser.collect_of_drains (p := .create g _) hdrains rfl
  refine ⟨n, hd, hu, ?_⟩
  simp only [Transcript.ofParse, hcollect, Transcript.failed, Format.lines_failed]

/-- The parse command decodes the longest beginning `v` of its input that is UTF-8. If that is all
of the input, it shows the tokens of `v`, up to its end. If not, it shows those that come before the
first place where more text could complete a literal, complains and fails. JSON is read back as what
is shown. -/
theorem run_parse (hargs : Command.ofArgs args = some (.parse path grammarPath format))
    (hg : grammar w grammarPath = .ok g) (hb : Brings w path b) :
    ∃ (v : List Char) (n : Nat), Utf8.encode v <+: b ∧ (∀ u, Utf8.encode u <+: b → u <+: v) ∧
      let ts := (g.lexing n v).filterMap Outcome.token?
      (b.toByteArray.IsValidUTF8 → Utf8.encode v = b ∧
        (∀ m < n, g.rest^[m] v ≠ []) ∧ g.rest^[n] v = [] ∧
          ∃ skipped, (ts.map Token.length).sum + skipped = v.length ∧
            run w args = { output := [.text (format.whole ts skipped)] } ∧
            (format = .json →
              ReadsAs (format.whole ts skipped) (ts.map .matched ++ [.endOfStream]))) ∧
      (¬ b.toByteArray.IsValidUTF8 →
        (∀ m < n, ¬ g.Undecided (g.rest^[m] v)) ∧ g.Undecided (g.rest^[n] v) ∧
          (∃ e : IoError, run w args = {
            output := [.text (format.cutShort ts)]
            complaint := some ("Error: " ++ (StreamError.failed e).message ++ "\n")
            exitCode := 1 }) ∧
          (format = .json → ReadsAs (format.cutShort ts) (ts.map .matched))) := by
  obtain ⟨v, r, rfl, hs⟩ := Utf8.exists_stuck b
  obtain ⟨stop, hcases, hstop⟩ := Utf8.Reader.exists_stop hs
  obtain ⟨f, hf, hrun⟩ := run_eq_ofParse hargs hg hb
  have hdelivers := Utf8.Reader.delivers_of_serves hf hstop
  rw [hrun, Utf8.isValidUTF8_append_iff hs]
  rcases hcases with ⟨rfl, rfl⟩ | ⟨hr, e, rfl⟩
  · obtain ⟨n, hn, hlast, skipped, htotal, hrun⟩ := ofParse_of_ended g format hdelivers
    refine ⟨v, n, List.prefix_append _ _, fun u => Utf8.isPrefix_of_encode hs,
      fun _ => ⟨(List.append_nil _).symm, hn, hlast, skipped, htotal, hrun, ?_⟩,
      fun h => absurd rfl h⟩
    rintro rfl
    exact map_ofJson_shown _
  · obtain ⟨n, hd, hu, hrun⟩ := ofParse_of_failed g format hdelivers
    refine ⟨v, n, List.prefix_append _ _, fun u => Utf8.isPrefix_of_encode hs,
      fun h => absurd h hr, fun _ => ⟨hd, hu, ⟨e, hrun⟩, ?_⟩⟩
    rintro rfl
    exact map_ofJson_shown _

def abAndAbcd : Grammar String where
  alternatives := [⟨"ab", ['a', 'b']⟩, ⟨"abcd", ['a', 'b', 'c', 'd']⟩]
  alternatives_ne_nil := List.cons_ne_nil _ _
  literal_ne_nil := by decide

def spoilt : World := { World.empty with
  input := ⟨[],
    [.chunk [0x61], .failure ⟨.interrupted, "again"⟩, .chunk [0x62, 0x61, 0x62, 0xff]]⟩ }

/-- Behind the second `ab` a `cd` could follow, so only the first is shown. -/
theorem run_parse_spoilt :
    Brings spoilt "-" (Utf8.encode ['a', 'b', 'a', 'b'] ++ [0xff]) ∧
      ∃ e : IoError, run spoilt ["parse", "-"] = {
        output := [.text "ab\tab\n"]
        complaint := some ("Error: " ++ (StreamError.failed e).message ++ "\n")
        exitCode := 1 } := by
  have hserves : spoilt.input.Serves (Utf8.encode ['a', 'b', 'a', 'b'] ++ [0xff]) :=
    ⟨by decide, by decide⟩
  have hbrings : Brings spoilt "-" (Utf8.encode ['a', 'b', 'a', 'b'] ++ [0xff]) := by
    rw [Brings, if_pos rfl]
    exact hserves
  have hstuck : Utf8.Stuck [0xff] := by
    rintro c ⟨r, hr⟩
    obtain ⟨n, hw, -⟩ := Utf8.cons_eq_append_iff.1 hr.symm
    cases hw
  have hargs : Command.ofArgs ["parse", "-"] = some (.parse "-" none .text) := rfl
  have hgrammar : grammar spoilt none = .ok abAndAbcd := rfl
  obtain ⟨v, n, hv, hlongest, -, hfail⟩ := run_parse hargs hgrammar hbrings
  obtain rfl : v = ['a', 'b', 'a', 'b'] :=
    (Utf8.isPrefix_of_encode hstuck hv).eq_of_length_le
      (hlongest _ (List.prefix_append _ _)).length_le
  obtain ⟨hd, hu, ⟨e, hrun⟩, -⟩ := hfail (mt (Utf8.isValidUTF8_append_iff hstuck).1 nofun)
  obtain rfl : n = 1 := by
    rcases Nat.lt_trichotomy n 1 with hlt | heq | hgt
    · obtain rfl := Nat.lt_one_iff.1 hlt
      exact absurd hu (by decide)
    · exact heq
    · exact absurd (by decide) (hd 1 hgt)
  have hshown : Format.text.cutShort
      ((abAndAbcd.lexing 1 ['a', 'b', 'a', 'b']).filterMap Outcome.token?) = "ab\tab\n" := by decide
  rw [hshown] at hrun
  exact ⟨hbrings, e, hrun⟩

end Munch.Cli
