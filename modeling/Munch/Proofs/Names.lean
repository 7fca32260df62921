import Munch.Config
import Munch.Proofs.Building
import Munch.Proofs.Duplicates

namespace Munch.Config

def Begins (c : Char) : Prop := ('A' ≤ c ∧ c ≤ 'Z') ∨ ('a' ≤ c ∧ c ≤ 'z') ∨ c = '_'

def Continues (c : Char) : Prop := Begins c ∨ ('0' ≤ c ∧ c ≤ '9') ∨ c = '-'

def IsName (s : String) : Prop := ∃ c cs, s.toList = c :: cs ∧ Begins c ∧ ∀ d ∈ cs, Continues d

inductive Fault (seen : List String) (name : String) : GrammarError → Prop
  | invalid : ¬ IsName name → Fault seen name (.invalidName name)
  | duplicate : IsName name → name ∈ seen → Fault seen name (.duplicateName name)

structure Sound (as : List NamedLiteral) : Prop where
  isName : ∀ a ∈ as, IsName a.name
  nodup : (as.map (·.name)).Nodup

theorem inRanges_nil {c : Char} : inRanges [] c = false := rfl

theorem inRanges_cons {low high c : Char} {ranges : List (Char × Char)} :
    inRanges ((low, high) :: ranges) c = true ↔
      (low ≤ c ∧ c ≤ high) ∨ inRanges ranges c = true := by
  simp [inRanges]

theorem inRanges_first_iff {c : Char} : inRanges namePattern.first c = true ↔ Begins c := by
  simp only [namePattern, inRanges_cons, inRanges_nil, Begins, ← ge_antisymm_iff,
    Bool.false_eq_true, or_false]

theorem inRanges_rest_iff {c : Char} : inRanges namePattern.rest c = true ↔ Continues c := by
  simp only [namePattern, inRanges_cons, inRanges_nil, Continues, Begins, ← ge_antisymm_iff,
    Bool.false_eq_true, or_false]
  tauto

theorem isName_iff {s : String} : isName s = true ↔ IsName s := by
  rw [isName, Pattern.accepts, IsName]
  cases s.toList with
  | nil => simp
  | cons c cs => simp [inRanges_first_iff, inRanges_rest_iff]

instance (s : String) : Decidable (IsName s) := decidable_of_iff _ isName_iff

variable {seen names : List String} {name : String} {e : GrammarError} {c : Config}

theorem checkNames_of_fault (h : Fault seen name e) (names : List String) :
    checkNames seen (name :: names) = .error e := by
  cases h with
  | invalid hname =>
    have hmalformed : (!isName name) = true := by simpa using mt isName_iff.1 hname
    rw [checkNames, if_pos hmalformed]
  | duplicate hname hseen =>
    rw [checkNames, isName_iff.2 hname, Bool.not_true, if_neg Bool.false_ne_true,
      if_pos (List.contains_iff_mem.2 hseen)]

theorem checkNames_of_new (hname : IsName name) (hseen : name ∉ seen) (names : List String) :
    checkNames seen (name :: names) = checkNames (name :: seen) names := by
  rw [checkNames, isName_iff.2 hname, Bool.not_true, if_neg Bool.false_ne_true,
    if_neg (mt List.contains_iff_mem.1 hseen)]

theorem exists_fault_or_new (seen : List String) (name : String) :
    (∃ e, Fault seen name e) ∨ (IsName name ∧ name ∉ seen) := by
  by_cases hname : IsName name
  · by_cases hseen : name ∈ seen
    · exact .inl ⟨_, .duplicate hname hseen⟩
    · exact .inr ⟨hname, hseen⟩
  · exact .inl ⟨_, .invalid hname⟩

theorem Fault.not_new (h : Fault seen name e) : ¬ (IsName name ∧ name ∉ seen) := by
  rintro ⟨hname, hseen⟩
  cases h with
  | invalid hnot => exact hnot hname
  | duplicate _ hmem => exact hseen hmem

theorem checkNames_eq_ok_iff :
    checkNames seen names = .ok () ↔
      (∀ name ∈ names, IsName name) ∧ names.Nodup ∧ ∀ name ∈ names, name ∉ seen := by
  induction names generalizing seen with
  | nil => simp [checkNames]
  | cons name names ih =>
    rw [List.forall_mem_cons, List.forall_mem_cons, List.nodup_cons]
    rcases exists_fault_or_new seen name with ⟨e, hfault⟩ | ⟨hname, hseen⟩
    · rw [checkNames_of_fault hfault]
      refine iff_of_false nofun ?_
      rintro ⟨⟨hname, -⟩, -, hseen, -⟩
      exact hfault.not_new ⟨hname, hseen⟩
    · rw [checkNames_of_new hname hseen, ih]
      simp only [List.mem_cons, not_or]
      constructor
      · rintro ⟨hnames, hnodup, hnew⟩
        exact ⟨⟨hname, hnames⟩, ⟨fun hmem => (hnew name hmem).1 rfl, hnodup⟩, hseen,
          fun other hother => (hnew other hother).2⟩
      · rintro ⟨⟨-, hnames⟩, ⟨hnot, hnodup⟩, -, hnew⟩
        exact ⟨hnames, hnodup, fun other hother => ⟨ne_of_mem_of_not_mem hother hnot,
          hnew other hother⟩⟩

theorem checkNames_eq_error_iff :
    checkNames seen names = .error e ↔ ∃ before name after, names = before ++ name :: after ∧
      checkNames seen before = .ok () ∧ Fault (before.reverse ++ seen) name e := by
  -- both ways the names before the fault move over to those seen, so the last one comes first
  constructor
  · intro he
    induction names generalizing seen with
    | nil => cases he
    | cons name names ih =>
      rcases exists_fault_or_new seen name with ⟨e', hfault⟩ | ⟨hname, hseen⟩
      · rw [checkNames_of_fault hfault] at he
        cases he
        exact ⟨[], name, names, rfl, rfl, hfault⟩
      · rw [checkNames_of_new hname hseen] at he
        obtain ⟨before, name', after, rfl, hok, hfault⟩ := ih he
        refine ⟨name :: before, name', after, rfl, ?_, ?_⟩
        · rw [checkNames_of_new hname hseen, hok]
        · rwa [List.reverse_cons, List.append_assoc]
  · rintro ⟨before, name, after, rfl, hok, hfault⟩
    induction before generalizing seen with
    | nil => exact checkNames_of_fault hfault after
    | cons first before ih =>
      rcases exists_fault_or_new seen first with ⟨e', hfirst⟩ | ⟨hname, hseen⟩
      · rw [checkNames_of_fault hfirst] at hok
        cases hok
      · rw [checkNames_of_new hname hseen] at hok
        rw [List.cons_append, checkNames_of_new hname hseen]
        refine ih hok ?_
        rwa [List.reverse_cons, List.append_assoc] at hfault

theorem Fault.congr {seen' : List String} (h : Fault seen name e)
    (hseen : ∀ other, other ∈ seen ↔ other ∈ seen') : Fault seen' name e := by
  cases h with
  | invalid hname => exact .invalid hname
  | duplicate hname hmem => exact .duplicate hname ((hseen name).1 hmem)

theorem check_eq_ok_iff : c.check = .ok () ↔ Sound c.alternatives := by
  rw [check, checkNames_eq_ok_iff, List.forall_mem_map]
  constructor
  · rintro ⟨hname, hnodup, -⟩
    exact ⟨hname, hnodup⟩
  · rintro ⟨hname, hnodup⟩
    exact ⟨hname, hnodup, fun _ _ => List.not_mem_nil⟩

theorem check_eq_error_iff :
    c.check = .error e ↔ ∃ before a after, c.alternatives = before ++ a :: after ∧
      Sound before ∧ Fault (before.map (·.name)) a.name e := by
  have hseen (names : List String) (name : String) : name ∈ names.reverse ++ [] ↔ name ∈ names := by
    rw [List.append_nil, List.mem_reverse]
  rw [check, checkNames_eq_error_iff]
  constructor
  · rintro ⟨_, _, _, hnames, hok, hfault⟩
    obtain ⟨before, rest, hsplit, rfl, hrest⟩ := List.map_eq_append_iff.1 hnames
    obtain ⟨a, after, rfl, rfl, rfl⟩ := List.map_eq_cons_iff.1 hrest
    exact ⟨before, a, after, hsplit, check_eq_ok_iff.1 hok, hfault.congr (hseen _)⟩
  · rintro ⟨before, a, after, hsplit, hsound, hfault⟩
    refine ⟨_, _, after.map (·.name), ?_, check_eq_ok_iff (c := ⟨before⟩).2 hsound,
      hfault.congr fun other => (hseen _ other).symm⟩
    rw [hsplit, List.map_append, List.map_cons]

theorem Sound.eq_of_name_eq {as : List NamedLiteral} (h : Sound as) {a b : NamedLiteral}
    (ha : a ∈ as) (hb : b ∈ as) (hname : b.name = a.name) : b = a :=
  List.inj_on_of_nodup_map h.nodup hb ha hname

theorem ofYaml_of_parse {text : String} (h : parse text = .ok c) :
    ofYaml text = c.check.map fun _ => c := by
  rw [ofYaml, h]
  cases hc : c.check with
  | error e => simp [hc, Except.map, bind, Except.bind]
  | ok _ => simp [hc, Except.map, bind, Except.bind]; rfl

theorem matched_of_toGrammar {σ : Type} [Source σ Char] {s : σ} {g : Grammar String}
    {l : Lexer σ String} {t : Token String} (hg : c.toGrammar = .ok g) (hl : l.Reachable g s)
    (hp : l.pending = []) (ht : l.nextToken.1 = .ok (.matched t)) :
    ∃ a ∈ c.alternatives, t = ⟨a.literal, a.name⟩ := by
  obtain ⟨i, b, -, hb, rfl⟩ := Lexer.winner?_of_matched hp ht
  have hmem := List.mem_of_getElem? hb
  rw [hl.valid.1, Grammar.alternatives_of_ofList hg, alternativeList] at hmem
  obtain ⟨a, ha, rfl⟩ := List.mem_map.1 hmem
  refine ⟨a, ha, ?_⟩
  rw [Alternative.text, String.ofList_toList]

/-- A configuration passes just if every name is well formed and no two are equal. Else it is
refused for the first name that is not, or that an earlier alternative has. What is read from a
document is checked so. Where a lexer over the grammar of a configuration that passes finds a token
in its stream, the text is the literal of the one alternative that has the token's name. -/
theorem check_cases (c : Config) :
    (c.check = .ok () ↔ Sound c.alternatives) ∧
      (∀ e, c.check = .error e ↔ ∃ before a after, c.alternatives = before ++ a :: after ∧
        Sound before ∧ Fault (before.map (·.name)) a.name e) ∧
      (∀ text, parse text = .ok c → ofYaml text = c.check.map fun _ => c) ∧
      (c.check = .ok () → ∀ g, c.toGrammar = .ok g →
        ∀ {σ : Type} [Source σ Char] (s : σ) (l : Lexer σ String) (t : Token String),
          l.Reachable g s → l.pending = [] → l.nextToken.1 = .ok (.matched t) →
            ∃ a ∈ c.alternatives, t.alternative = a.name ∧ t.text = a.literal ∧
              ∀ b ∈ c.alternatives, b.name = t.alternative → b = a) := by
  refine ⟨check_eq_ok_iff, fun e => check_eq_error_iff, fun text => ofYaml_of_parse, ?_⟩
  intro hc g hg σ _ s l t hl hp ht
  obtain ⟨a, ha, rfl⟩ := matched_of_toGrammar hg hl hp ht
  exact ⟨a, ha, rfl, rfl, fun b hb => (check_eq_ok_iff.1 hc).eq_of_name_eq ha hb⟩

def twins : List NamedLiteral := [⟨"_", "ab"⟩, ⟨"b-1", "ab"⟩]

theorem check_cases_twins :
    Config.check ⟨twins ++ [⟨"_", "c"⟩, ⟨"d\n", "d"⟩]⟩ = .error (.duplicateName "_") ∧
      Config.check ⟨twins ++ [⟨"d\n", "d"⟩]⟩ = .error (.invalidName "d\n") ∧
      Config.check ⟨twins⟩ = .ok () ∧ ∃ g, Config.toGrammar ⟨twins⟩ = .ok g ∧
        (Lexer.create g ['a', 'b', 'c']).nextToken.1 = .ok (.matched ⟨"ab", "_"⟩) ∧
        ∃ a ∈ twins, "_" = a.name ∧ "ab" = a.literal ∧ ∀ b ∈ twins, b.name = "_" → b = a := by
  have hsound : Sound twins := ⟨by decide, by decide⟩
  have hok : Config.check ⟨twins⟩ = .ok () := (check_cases ⟨twins⟩).1.2 hsound
  refine ⟨((check_cases _).2.1 _).2 ⟨twins, ⟨"_", "c"⟩, [⟨"d\n", "d"⟩], rfl, hsound,
      .duplicate (by decide) (by decide)⟩,
    ((check_cases _).2.1 _).2 ⟨twins, ⟨"d\n", "d"⟩, [], rfl, hsound, .invalid (by decide)⟩,
    hok, _, rfl, ?_⟩
  have ht : (Lexer.create (ι := String) ⟨alternativeList ⟨twins⟩, _, rfl, by decide, by decide⟩
      ['a', 'b', 'c']).nextToken.1 = .ok (.matched ⟨"ab", "_"⟩) := by cbv
  exact ⟨ht, (check_cases ⟨twins⟩).2.2.2 hok _ rfl _ _ _ .create rfl ht⟩

end Munch.Config
