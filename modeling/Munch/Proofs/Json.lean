import Mathlib.Data.List.Basic
import Mathlib.Data.Option.Basic
import Munch.Token
import Munch.Yaml.Scalar.Quoted

/-! A reader of objects whose values are texts, in every form that JSON allows for them: with blanks
between the lexemes, any escapes, and the members in any order. It gives back what is written. -/

namespace Munch.Text.Json

inductive Lexeme
  | opening
  | closing
  | colon
  | comma
  | text (s : List Char)
  deriving DecidableEq

def isBlank (c : Char) : Bool := c = ' ' || c = '\t' || c = '\n' || c = '\r'

def mark? : Char → Option Lexeme
  | '\x7b' => some .opening
  | '\x7d' => some .closing
  | ':' => some .colon
  | ',' => some .comma
  | _ => none

def number? (digits : List Char) : Option Nat :=
  digits.foldlM (fun n c => do return 16 * n + (← Yaml.Quoted.hexValue? c)) 0

def short? : Char → Option Char
  | '"' => some '"'
  | '\\' => some '\\'
  | '/' => some '/'
  | 'b' => some '\x08'
  | 'f' => some '\x0c'
  | 'n' => some '\n'
  | 'r' => some '\r'
  | 't' => some '\t'
  | _ => none

/-- The characters of code points. Two surrogates, a high and a low one, make up one character. -/
def characters : List Nat → Option (List Char)
  | [] => some []
  | n :: ns =>
    if n.isValidChar then do return .ofNat n :: (← characters ns)
    else
      match ns with
      | [] => none
      | m :: ns =>
        if 0xd800 ≤ n ∧ n < 0xdc00 ∧ 0xdc00 ≤ m ∧ m < 0xe000 then do
          return .ofNat (0x10000 + 0x400 * (n - 0xd800) + (m - 0xdc00)) :: (← characters ns)
        else none

def prepend (n : Nat) (text : Option (List Nat × List Lexeme)) : Option (List Nat × List Lexeme) :=
  text.map fun (ns, ls) => (n :: ns, ls)

mutual

def lexemes : List Char → Option (List Lexeme)
  | [] => some []
  | '"' :: cs => do
    let (ns, ls) ← body cs
    return .text (← characters ns) :: ls
  | c :: cs =>
    if isBlank c then lexemes cs
    else do return (← mark? c) :: (← lexemes cs)

def body : List Char → Option (List Nat × List Lexeme)
  | [] => none
  | '"' :: cs => (lexemes cs).map ([], ·)
  | '\\' :: 'u' :: a :: b :: c :: d :: cs => do prepend (← number? [a, b, c, d]) (body cs)
  -- a `u` before fewer than four characters comes here too, and is refused
  | '\\' :: c :: cs => do prepend (← short? c).toNat (body cs)
  | c :: cs => if c = '\\' ∨ c.toNat < 0x20 then none else prepend c.toNat (body cs)

end

def members : List Lexeme → Option (List (String × String))
  | [.text key, .colon, .text value, .closing] => some [(.ofList key, .ofList value)]
  | .text key :: .colon :: .text value :: .comma :: ls => do
    return (.ofList key, .ofList value) :: (← members ls)
  | _ => none

def read (cs : List Char) : Option (List (String × String)) := do
  match ← lexemes cs with
  | .opening :: ls => if ls = [.closing] then return [] else members ls
  | _ => none

theorem characters_map_toNat (s : List Char) : characters (s.map Char.toNat) = some s := by
  induction s with
  | nil => rfl
  | cons c s ih =>
    have hvalid : c.toNat.isValidChar := c.valid
    rw [List.map_cons, characters.eq_def]
    simp only [if_pos hvalid, ih, Char.ofNat_toNat]
    rfl

theorem number?_control : ∀ n < 0x20, number? ('0' :: '0' :: twoDigits n) = some n := by
  decide

theorem body_short {e c : Char} (h : short? e = some c) (cs : List Char) :
    body ('\\' :: e :: cs) = prepend c.toNat (body cs) := by
  have hne : e ≠ 'u' := by
    rintro rfl
    cases h
  rw [body, h]
  · rfl
  · intros
    exact hne ‹_›

theorem body_plain {c : Char} (hquote : c ≠ '"') (hslash : c ≠ '\\') (h : ¬ c.toNat < 0x20)
    (cs : List Char) : body (c :: cs) = prepend c.toNat (body cs) := by
  rw [body, if_neg (not_or.2 ⟨hslash, h⟩)]
  · exact hquote
  · intros
    exact hslash ‹_›
  · intros
    exact hslash ‹_›

theorem body_escape (c : Char) (cs : List Char) :
    body (escape c ++ cs) = prepend c.toNat (body cs) := by
  fun_cases escape c with
  | case1 | case2 | case3 | case4 | case5 | case6 | case7 => exact body_short rfl cs
  -- the other control characters, by their numbers
  | case8 c _ _ _ _ _ _ _ hcontrol =>
    have h := number?_control c.toNat hcontrol
    rw [twoDigits] at h ⊢
    simp only [List.cons_append, List.nil_append]
    rw [body, h]
    rfl
  | case9 c hquote hslash _ _ _ _ _ hplain => exact body_plain hquote hslash hplain cs

theorem body_string (s cs : List Char) :
    body (s.flatMap escape ++ '"' :: cs) = (lexemes cs).map (s.map Char.toNat, ·) := by
  induction s with
  | nil => rw [List.flatMap_nil, List.nil_append, body]; rfl
  | cons c s ih =>
    rw [List.flatMap_cons, List.append_assoc, body_escape, ih, prepend, Option.map_map]
    rfl

theorem lexemes_string (s cs : List Char) :
    lexemes (string s ++ cs) = (lexemes cs).map (.text s :: ·) := by
  rw [string, List.append_assoc, List.cons_append, List.singleton_append, lexemes, body_string]
  cases lexemes cs with
  | none => rfl
  | some ls =>
    simp only [Option.map_some, Option.bind_eq_bind, Option.bind_some, characters_map_toNat]
    rfl

theorem lexemes_mark {c : Char} {l : Lexeme} (h : mark? c = some l) (cs : List Char) :
    lexemes (c :: cs) = (lexemes cs).map (l :: ·) := by
  have hquote : c ≠ '"' := by
    rintro rfl
    cases h
  have hblank : ¬ isBlank c := by
    intro hc
    simp only [isBlank, Bool.or_eq_true, decide_eq_true_eq] at hc
    rcases hc with ((rfl | rfl) | rfl) | rfl <;> cases h
  rw [lexemes, if_neg hblank, h]
  · cases lexemes cs <;> rfl
  · exact hquote

def field (m : String × String) : List Char := string m.1.toList ++ ':' :: string m.2.toList

theorem lexemes_field (m : String × String) (cs : List Char) :
    lexemes (field m ++ cs) =
      (lexemes cs).map fun ls => .text m.1.toList :: .colon :: .text m.2.toList :: ls := by
  rw [field, List.append_assoc, lexemes_string, List.cons_append, lexemes_mark rfl, lexemes_string,
    Option.map_map, Option.map_map]
  rfl

theorem exists_members {ms : List (String × String)} (h : ms ≠ []) :
    ∃ ls, lexemes ([','].intercalate (ms.map field) ++ ['\x7d']) = some ls ∧
      members ls = some ms := by
  induction ms with
  | nil => exact absurd rfl h
  | cons m ms ih =>
    cases ms with
    | nil =>
      rw [List.map_singleton, List.intercalate_singleton, lexemes_field]
      exact ⟨_, rfl, by simp only [members, String.ofList_toList]⟩
    | cons m' ms =>
      -- behind the comma stands an object without its opening brace again
      obtain ⟨ls, hls, hms⟩ := ih (List.cons_ne_nil _ _)
      rw [List.map_cons, List.map_cons, List.intercalate_cons_cons, List.append_assoc,
        List.append_assoc, lexemes_field, List.singleton_append, lexemes_mark rfl]
      rw [List.map_cons] at hls
      rw [hls]
      refine ⟨_, rfl, ?_⟩
      simp only [members, hms, String.ofList_toList]
      rfl

theorem read_object (ms : List (String × String)) :
    read (object (ms.map fun (key, value) => (key, string value.toList))) = some ms := by
  have hobject : object (ms.map fun (key, value) => (key, string value.toList)) =
      '\x7b' :: ([','].intercalate (ms.map field) ++ ['\x7d']) := by
    rw [object, List.map_map]
    rfl
  rw [hobject, read, lexemes_mark rfl]
  by_cases hne : ms = []
  · subst hne
    rfl
  · obtain ⟨ls, hls, hms⟩ := exists_members hne
    have hclosing : ls ≠ [.closing] := by
      rintro rfl
      cases hms
    rw [hls]
    exact (if_neg hclosing).trans hms

example : read "\x7b \"\\u00E4\" :\t\"\\/\\ud83d\\ude00\" \x7d".toList = some [("ä", "/😀")] := by
  cbv

def Plain (cs : List Char) : Prop := ∀ c ∈ cs, 0x20 ≤ c.toNat

instance (cs : List Char) : Decidable (Plain cs) :=
  List.decidableBAll (fun c : Char => 0x20 ≤ c.toNat) cs

theorem plain_twoDigits : ∀ n < 0x20, Plain (twoDigits n) := by
  decide

theorem plain_escape (c : Char) : Plain (escape c) := by
  fun_cases escape c with
  | case1 | case2 | case3 | case4 | case5 | case6 | case7 => decide
  | case8 c _ _ _ _ _ _ _ hcontrol =>
    have hzeros : Plain ['\\', 'u', '0', '0'] := by decide
    exact List.forall_mem_append.2 ⟨hzeros, plain_twoDigits _ hcontrol⟩
  | case9 c _ _ _ _ _ _ _ hplain => exact List.forall_mem_singleton.2 (Nat.not_lt.1 hplain)

theorem plain_string (s : List Char) : Plain (string s) := by
  have hbody : Plain (s.flatMap escape) := List.forall_mem_flatMap.2 fun c _ => plain_escape c
  have hquote : Plain ['"'] := by decide
  exact List.forall_mem_append.2 ⟨List.forall_mem_cons.2 ⟨by decide, hbody⟩, hquote⟩

theorem plain_intercalate {sep : List Char} {ls : List (List Char)} (hsep : Plain sep)
    (h : ∀ l ∈ ls, Plain l) : Plain (sep.intercalate ls) := by
  induction ls with
  | nil => nofun
  | cons l ls ih =>
    obtain ⟨hl, hls⟩ := List.forall_mem_cons.1 h
    cases ls with
    | nil => rw [List.intercalate_singleton]; exact hl
    | cons l' ls =>
      rw [List.intercalate_cons_cons]
      exact List.forall_mem_append.2 ⟨List.forall_mem_append.2 ⟨hl, hsep⟩, ih hls⟩

theorem plain_object {fields : List (String × List Char)} (h : ∀ f ∈ fields, Plain f.2) :
    Plain (object fields) := by
  have hfields : ∀ cs ∈ fields.map fun f => string f.1.toList ++ ':' :: f.2, Plain cs := by
    intro cs hcs
    obtain ⟨f, hf, rfl⟩ := List.mem_map.1 hcs
    exact List.forall_mem_append.2 ⟨plain_string _, List.forall_mem_cons.2 ⟨by decide, h f hf⟩⟩
  have hcomma : Plain [','] := by decide
  have hclosing : Plain ['\x7d'] := by decide
  have hbetween := plain_intercalate hcomma hfields
  exact List.forall_mem_append.2 ⟨List.forall_mem_cons.2 ⟨by decide, hbetween⟩, hclosing⟩

end Munch.Text.Json

namespace Munch.Result

def members : Result String → List (String × String)
  | .matched t => [("kind", "matched"), ("text", t.text), ("alternative", t.alternative)]
  | .endOfStream => [("kind", "end_of_stream")]

def ofMembers (ms : List (String × String)) : Option (Result String) := do
  match ← ms.lookup "kind" with
  | "matched" => return .matched ⟨← ms.lookup "text", ← ms.lookup "alternative"⟩
  | "end_of_stream" => return .endOfStream
  | _ => none

def ofJson (line : List Char) : Option (Result String) := do ofMembers (← Text.Json.read line)

theorem ofMembers_members (r : Result String) : ofMembers r.members = some r := by
  cases r with
  | matched t => rfl
  | endOfStream => rfl

theorem json_eq_object (r : Result String) :
    r.json = Text.Json.object (r.members.map fun (key, value) =>
      (key, Text.Json.string value.toList)) := by
  cases r with
  | matched t => rfl
  | endOfStream => rfl

theorem ofJson_json (r : Result String) : ofJson r.json = some r := by
  rw [json_eq_object, ofJson, Text.Json.read_object]
  exact ofMembers_members r

theorem plain_json (r : Result String) : Text.Json.Plain r.json := by
  rw [json_eq_object]
  refine Text.Json.plain_object fun f hf => ?_
  obtain ⟨m, -, rfl⟩ := List.mem_map.1 hf
  exact Text.Json.plain_string _

end Munch.Result

namespace Munch.Cli

def record (r : Result String) : String := .ofList r.json ++ "\n"

def shown (rs : List (Result String)) : String := String.join (rs.map record)

theorem toList_record (r : Result String) : (record r).toList = r.json ++ ['\n'] := by
  rw [record, String.toList_append, String.toList_ofList]
  rfl

theorem toList_shown (rs : List (Result String)) :
    (shown rs).toList = ['\n'].intercalate (rs.map Result.json ++ [[]]) := by
  induction rs with
  | nil => rfl
  | cons r rs ih =>
    have hcons : (shown (r :: rs)).toList = r.json ++ ['\n'] ++ (shown rs).toList := by
      rw [shown, List.map_cons, String.join_cons, String.toList_append, toList_record]
      rfl
    rw [hcons, ih, List.map_cons, List.cons_append, List.intercalate_cons_of_ne_nil]
    exact List.concat_ne_nil _ _

theorem plain_of_mem_lines {rs : List (Result String)} {l : List Char}
    (h : l ∈ rs.map Result.json ++ [[]]) : Text.Json.Plain l := by
  rcases List.mem_append.1 h with hl | hl
  · obtain ⟨r, -, rfl⟩ := List.mem_map.1 hl
    exact r.plain_json
  · rw [List.mem_singleton.1 hl]
    nofun

theorem splitOn_shown (rs : List (Result String)) :
    (shown rs).toList.splitOn '\n' = rs.map Result.json ++ [[]] := by
  have hfeed : ∀ l ∈ rs.map Result.json ++ [[]], '\n' ∉ l := fun l hl hmem =>
    absurd (plain_of_mem_lines hl _ hmem) (by decide)
  rw [toList_shown]
  exact List.splitOn_intercalate '\n' hfeed (List.concat_ne_nil _ _)

theorem map_ofJson_shown (rs : List (Result String)) :
    ((shown rs).toList.splitOn '\n').dropLast.map Result.ofJson = rs.map some := by
  rw [splitOn_shown, List.dropLast_concat, List.map_map]
  exact List.map_congr_left fun r _ => r.ofJson_json

theorem shown_injective : Function.Injective shown := by
  intro rs rs' h
  have hread : rs.map some = rs'.map some := by
    rw [← map_ofJson_shown, h, map_ofJson_shown]
  exact List.map_injective_iff.2 (Option.some_injective _) hread

end Munch.Cli
