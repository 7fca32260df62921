import Munch.Proofs.Step

namespace Munch

variable {σ ι : Type}

namespace Lexer

variable [Source σ Char]

/-- Step by step a new lexer yields the lexing of the text that its source delivers. -/
theorem answers_eq_lexing (g : Grammar ι) {s : σ} {w : List Char} (h : Delivers s w .ended)
    (n : Nat) : (series nextToken n (create g s)).1 = (g.lexing n w).map .ok := by
  have hclear : ∀ m < n, g.Clear (g.rest^[m] w) 1 none := by
    intro m _
    exact .inr ⟨rfl, Nat.one_pos⟩
  calc
    (series nextToken n (create g s)).1 = (series g.answer n (.ofSource s)).1 :=
      ((Refines.create g s).series n).1
    _ = (g.lexing n w).map .ok :=
      (Grammar.series_answer_of_clear n (Stack.shows_of_delivers h) hclear).1

end Lexer

/-- Behind `ab` the longest literal cannot be completed, and the lexer falls back to the first. -/
theorem answers_overlapping :
    Delivers ['a', 'b', 'd', 'x', 'a', 'b'] ['a', 'b', 'd', 'x', 'a', 'b'] .ended ∧
      (series Lexer.nextToken 6
        (Lexer.create overlapping ['a', 'b', 'd', 'x', 'a', 'b'])).1 =
        [.ok (.matched ⟨"a", 0⟩), .ok (.matched ⟨"bd", 2⟩), .ok (.skipped 'x'),
          .ok (.matched ⟨"a", 0⟩), .ok (.skipped 'b'), .ok .ended] :=
  ⟨delivers_list _, (Lexer.answers_eq_lexing overlapping (delivers_list _) 6).trans (by rfl)⟩

end Munch
