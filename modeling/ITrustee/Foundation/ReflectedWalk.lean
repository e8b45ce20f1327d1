import Mathlib.Tactic

/-!
# Walks with a floor

A walk on the integers that cannot fall below a floor: a step that would is cut off there. It reaches a
level exactly when the plain walk does, or when the steps of some last stretch lead there from the floor.
-/

namespace ReflectedWalk

variable (floor : ℤ)

/-- Where the walk ends. -/
def reach : ℤ → List ℤ → ℤ
  | x, [] => x
  | x, d :: steps => reach (max (x + d) floor) steps

variable {floor}

theorem le_reach_iff {x m : ℤ} (hx : floor ≤ x) (steps : List ℤ) :
    m ≤ reach floor x steps ↔
      m ≤ x + steps.sum ∨ ∃ before last, steps = before ++ last ∧ m ≤ floor + last.sum := by
  induction steps generalizing x with
  | nil =>
      rw [reach, List.sum_nil, add_zero]
      constructor
      · exact Or.inl
      · rintro (h | ⟨before, last, heq, h⟩)
        · exact h
        · obtain ⟨-, rfl⟩ := List.append_eq_nil_iff.mp heq.symm
          rw [List.sum_nil, add_zero] at h
          exact h.trans hx
  | cons d steps ih =>
      rw [reach, ih (le_max_right ..), List.sum_cons, max_add, le_max_iff, ← add_assoc]
      constructor
      · rintro ((h | h) | ⟨before, last, rfl, h⟩)
        · exact Or.inl h
        · exact Or.inr ⟨[d], steps, rfl, h⟩
        · exact Or.inr ⟨d :: before, last, rfl, h⟩
      · rintro (h | ⟨before, last, heq, h⟩)
        · exact Or.inl (Or.inl h)
        · cases before with
          | nil =>
              -- the stretch is the whole walk, which starts above the floor
              obtain rfl : d :: steps = last := heq
              rw [List.sum_cons] at h
              exact Or.inl (Or.inl (by omega))
          | cons e before =>
              obtain ⟨rfl, rfl⟩ := List.cons.inj heq
              exact Or.inr ⟨before, last, rfl, h⟩

end ReflectedWalk
