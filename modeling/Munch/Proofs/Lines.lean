import Munch.Proofs.Json
import Munch.Proofs.Output
import Munch.Proofs.Walks

namespace Munch

namespace Parser

variable {σ ι : Type} [Source σ Char]

inductive Tells : Parser σ ι → List (Result ι) → Prop
  | matched {p q : Parser σ ι} {t : Token ι} {rs : List (Result ι)} :
      p.Parses (.ok (.matched t), q) → Tells q rs → Tells p (.matched t :: rs)
  | ended {p q : Parser σ ι} : p.Parses (.ok .endOfStream, q) → Tells p [.endOfStream]
  | failed {p q : Parser σ ι} {e : StreamError} : p.Parses (.error e, q) → Tells p []

theorem Tells.unique {p : Parser σ ι} {rs rs' : List (Result ι)} (h : p.Tells rs)
    (h' : p.Tells rs') : rs' = rs := by
  induction h generalizing rs' with
  | matched hp _ ih =>
    cases h' with
    | matched hp' hrest => cases hp.unique hp'; rw [ih hrest]
    | ended hp' => cases hp.unique hp'
    | failed hp' => cases hp.unique hp'
  | ended hp =>
    cases h' with
    | matched hp' _ => cases hp.unique hp'
    | ended _ => rfl
    | failed hp' => cases hp.unique hp'
  | failed hp =>
    cases h' with
    | matched hp' _ => cases hp.unique hp'
    | ended hp' => cases hp.unique hp'
    | failed _ => rfl

end Parser

namespace Cli

section

variable {σ : Type} [FiniteSource σ Char]

theorem exists_tells (ts : List (Token String)) (p : Parser σ String) :
    ∃ rs, p.Tells rs ∧ Format.json.lines (p.collectFrom ts).1 (p.collectFrom ts).2.1 =
      shown (ts.reverse.map .matched ++ rs) := by
  fun_induction Parser.collectFrom ts p with
  | case1 ts p t p' h ih =>
    -- the token of this call moves from what is collected to what is told
    obtain ⟨rs, htells, hlines⟩ := ih
    refine ⟨.matched t :: rs, .matched (Parser.parses_iff.2 h) htells, ?_⟩
    rw [hlines, List.reverse_cons, List.map_append, List.append_assoc]
    rfl
  | case2 ts p p' h => exact ⟨[.endOfStream], .ended (Parser.parses_iff.2 h), rfl⟩
  | case3 ts p e p' h => exact ⟨[], .failed (Parser.parses_iff.2 h), rfl⟩

end

theorem output_ofParse (g : Grammar String) (f : Utf8.Feed) :
    ∃ rs, (Parser.create g (Utf8.Reader.mk (some f))).Tells rs ∧
      (Transcript.ofParse g .json f).output = [.text (shown rs)] := by
  obtain ⟨rs, htells, hlines⟩ := exists_tells [] (Parser.create g (Utf8.Reader.mk (some f)))
  refine ⟨rs, htells, ?_⟩
  rw [List.reverse_nil, List.map_nil, List.nil_append] at hlines
  rw [← hlines]
  simp only [Transcript.ofParse, Parser.collect]
  cases (Parser.collectFrom [] (Parser.create g (Utf8.Reader.mk (some f)))).2.1 with
  | ok _ => rfl
  | error e => rfl

/-- In JSON the parse command writes one line for each result of its calls. Whatever the results,
cutting the output at the line feeds gives exactly the lines, none of them has a control character,
and each is read back as its result. So other results never give the same output. -/
theorem run_parse_json :
    (∀ rs : List (Result String),
      let lines := (shown rs).toList.splitOn '\n'
      lines = rs.map Result.json ++ [[]] ∧ (∀ l ∈ lines, Text.Json.Plain l) ∧
        lines.dropLast.map Result.ofJson = rs.map some) ∧
    Function.Injective shown ∧
    ∀ (w : World) (args : List String) (path : String) (grammarPath : Option String),
      Command.ofArgs args = some (.parse path grammarPath .json) →
        ∃ rs, (run w args).output = [.text (shown rs)] ∧
          (∀ g f, grammar w grammarPath = .ok g → feed w path = .ok f →
            ∀ rs', (Parser.create g (Utf8.Reader.mk (some f))).Tells rs' ↔ rs' = rs) ∧
          ((∀ g f, grammar w grammarPath = .ok g → feed w path ≠ .ok f) → rs = []) := by
  refine ⟨fun rs => ⟨splitOn_shown rs, ?_, map_ofJson_shown rs⟩, shown_injective, ?_⟩
  · rw [splitOn_shown]
    exact fun l => plain_of_mem_lines
  · intro w args path grammarPath hargs
    rcases run_cases (w := w) hargs with ⟨g, f, hg, hf, hrun⟩ | ⟨hnone, message, hrun⟩
    · obtain ⟨rs, htells, houtput⟩ := output_ofParse g f
      refine ⟨rs, by rw [hrun, houtput], fun g' f' hg' hf' => ?_, fun h => absurd hf (h g f hg)⟩
      cases hg.symm.trans hg'
      cases hf.symm.trans hf'
      exact fun rs' => ⟨htells.unique, fun heq => heq ▸ htells⟩
    · refine ⟨[], by rw [hrun]; rfl, fun g f hg hf => absurd hf (hnone g f hg), fun _ => rfl⟩

/-- The text and the name hold what is escaped, what looks like an escape, and what looks like the
end of a string. -/
def awkward : List (Result String) := [.matched ⟨"\\n\n\x01", "\",\"é"⟩, .endOfStream]

def brief : World := { World.empty with input := ⟨[0x61, 0x62, 0x0a], []⟩ }

theorem run_parse_json_awkward :
    (shown awkward).toList.splitOn '\n' = [
      ("\x7b\"kind\":\"matched\",\"text\":\"\\\\n\\n\\u0001\","
        ++ "\"alternative\":\"\\\",\\\"é\"\x7d").toList,
      "\x7b\"kind\":\"end_of_stream\"\x7d".toList, []] ∧
    Command.ofArgs ["parse", "-", "--format", "json"] = some (.parse "-" none .json) ∧
    (run brief ["parse", "-", "--format", "json"]).output =
      [.text (shown [.matched ⟨"ab", "ab"⟩, .endOfStream])] := by
  obtain ⟨hlines, -, hrun⟩ := run_parse_json
  obtain ⟨rs, houtput, htells, -⟩ := hrun brief ["parse", "-", "--format", "json"] "-" none rfl
  let l : Lexer Utf8.Reader String := .create abAndAbcd ⟨some brief.input⟩
  have hfirst : l.nextToken.1 = .ok (.matched ⟨"ab", "ab"⟩) := by cbv
  have hsecond : l.nextToken.2.nextToken.1 = .ok (.skipped '\n') := by cbv
  have hlast : l.nextToken.2.nextToken.2.nextToken.1 = .ok .ended := by cbv
  have hcalls : (Parser.create abAndAbcd (Utf8.Reader.mk (some brief.input))).Tells
      [.matched ⟨"ab", "ab"⟩, .endOfStream] :=
    .matched (.running rfl (.matched (Prod.ext hfirst rfl))) <|
      .ended (.running rfl (.skipped (Prod.ext hsecond rfl) (.ended (Prod.ext hlast rfl))))
  have hrs := (htells abAndAbcd brief.input rfl rfl _).1 hcalls
  exact ⟨(hlines awkward).1.trans (by decide), rfl, by rw [houtput, hrs]⟩

end Cli

end Munch
