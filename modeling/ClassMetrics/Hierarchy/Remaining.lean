/-!
Walks over finitely many names that visit none of them twice. Such a walk ends because the number
of names it has not yet seen goes down.
-/

namespace ClassMetrics

/-- How many of the given names have not been seen. -/
def remaining (names seen : List String) : Nat :=
  names.countP fun name => decide (name ∉ seen)

theorem remaining_cons_le (names seen : List String) (name : String) :
    remaining names (name :: seen) ≤ remaining names seen := by
  apply List.countP_mono_left
  intro other _ hother
  simp only [List.mem_cons, not_or, decide_eq_true_eq] at hother ⊢
  exact hother.2

theorem remaining_cons_lt {names seen : List String} {name : String} (hname : name ∈ names)
    (hseen : name ∉ seen) : remaining names (name :: seen) < remaining names seen := by
  induction names with
  | nil => cases hname
  | cons first rest ih =>
      have hle := remaining_cons_le rest seen name
      unfold remaining at hle ih ⊢
      simp only [List.countP_cons]
      by_cases hfirst : first = name
      · subst hfirst
        have hold : decide (first ∉ seen) = true := by simp [hseen]
        have hnew : decide (first ∉ first :: seen) = false := by simp
        rw [hold, hnew]
        simp only [Bool.false_eq_true, ↓reduceIte]
        omega
      · have hrest : name ∈ rest := by
          rcases List.mem_cons.1 hname with hsame | hrest
          · exact absurd hsame.symm hfirst
          · exact hrest
        have hlt := ih hrest
        have hsame : decide (first ∉ name :: seen) = decide (first ∉ seen) := by
          simp [hfirst]
        rw [hsame]
        omega

end ClassMetrics
