import Munch.Error
import Munch.Journal.Entry
import Munch.Text.Quoted

/-! A grammar is a list of literals, each tagged with the identity of its alternative. Longer
literals are tried first; among equally long ones the order of declaration decides. -/

namespace Munch

structure Alternative (ι : Type) where
  id : ι
  literal : List Char
  deriving DecidableEq

namespace Alternative

variable {ι : Type}

def length (a : Alternative ι) : Nat := a.literal.length

def isEmpty (a : Alternative ι) : Bool := a.literal.isEmpty

def text (a : Alternative ι) : String := .ofList a.literal

end Alternative

structure Candidate (ι : Type) where
  index : Nat
  alternative : Alternative ι
  rest : List Char

namespace Candidate

variable {ι : Type}

def advance? (c : Char) (k : Candidate ι) : Option (Candidate ι) :=
  match k.rest with
  | [] => none
  | d :: rest => if d = c then some { k with rest } else none

def isComplete (k : Candidate ι) : Bool := k.rest.isEmpty

theorem length_of_advance? {c : Char} {k k' : Candidate ι} (h : k.advance? c = some k') :
    k'.rest.length < k.rest.length := by
  unfold advance? at h
  split at h
  · simp at h
  · next hk =>
    split at h <;> simp at h
    subst h
    simp [hk]

end Candidate

def candidates {ι : Type} (as : List (Alternative ι)) : List (Candidate ι) :=
  (as.zipIdx.map fun (a, i) => ⟨i, a, a.literal⟩).mergeSort
    fun j k => k.alternative.length ≤ j.alternative.length

/-- A grammar that can be used for lexing. It keeps the candidates with which every match starts. -/
structure Grammar (ι : Type) where
  alternatives : List (Alternative ι)
  initial : List (Candidate ι) := candidates alternatives
  initial_eq : initial = candidates alternatives := by rfl
  alternatives_ne_nil : alternatives ≠ []
  literal_ne_nil : ∀ a ∈ alternatives, a.literal ≠ []

namespace Grammar

variable {ι : Type}

def earlier? (as : List (Alternative ι)) (a : Alternative ι) (i : Nat) : Option (Alternative ι) :=
  (as.take i).find? (·.literal = a.literal)

section

variable [Quoted ι]

def shadowed (a first : Alternative ι) : Journal.Entry :=
  let first := quoted first.id
  ⟨.warn, .grammar, s!"alternative {quoted a.id} duplicates the literal of {first}; {first} wins"⟩

def warn (as : List (Alternative ι)) : Journal.Noting GrammarError Unit := do
  for (a, i) in as.zipIdx do
    if let some first := earlier? as a i then
      Journal.note (shadowed a first)

def build (as : List (Alternative ι)) : Journal.Noting GrammarError (Grammar ι) :=
  if h : as = [] then throw .empty
  else
    match h' : as.find? (·.isEmpty) with
    | some a => throw (.emptyAlternative (quoted a.id))
    | none => do
      warn as
      return {
        alternatives := as
        alternatives_ne_nil := h
        literal_ne_nil := fun a ha => by
          have := List.find?_eq_none.1 h' a ha
          simpa [Alternative.isEmpty] using this }

def ofList (as : List (Alternative ι)) : Except GrammarError (Grammar ι) := (build as).result

end

def size (g : Grammar ι) : Nat := g.alternatives.length

def isEmpty (g : Grammar ι) : Bool := g.alternatives.isEmpty

def trialOrder (g : Grammar ι) : List (Alternative ι) := g.initial.map (·.alternative)

def maxLength (g : Grammar ι) : Nat :=
  match g.initial with
  | [] => 0
  | k :: _ => k.alternative.length

def duplicates (g : Grammar ι) : List (Alternative ι × Alternative ι) :=
  g.alternatives.zipIdx.filterMap fun (a, i) =>
    (earlier? g.alternatives a i).map fun first => (a, first)

end Grammar

end Munch
