import Mathlib.Tactic

/-!
# Items laid out one after another

A decoder that reads items in sequence from a buffer covers an interval of it without gaps: each item
starts where the one before it stopped. What that gives about the items as a set of intervals (they
lie in the interval covered, in order, and do not overlap) is collected here.
-/

namespace Layout

variable {α : Type*} (start stop : α → Nat)

/-- The items cover the positions from `p` to `q`, each starting where the one before it stopped. -/
def Consecutive (p : Nat) : List α → Nat → Prop
  | [], q => p = q
  | x :: xs, q => start x = p ∧ start x ≤ stop x ∧ Consecutive (stop x) xs q

variable {start stop}

theorem Consecutive.le {p q : Nat} {xs : List α} (h : Consecutive start stop p xs q) : p ≤ q := by
  induction xs generalizing p with
  | nil => exact Nat.le_of_eq h
  | cons x xs ih =>
      obtain ⟨rfl, hle, hrest⟩ := h
      exact hle.trans (ih hrest)

/-- One more item at the end. -/
theorem Consecutive.snoc {p : Nat} {xs : List α} {x : α}
    (h : Consecutive start stop p xs (start x)) (hx : start x ≤ stop x) :
    Consecutive start stop p (xs ++ [x]) (stop x) := by
  induction xs generalizing p with
  | nil => exact ⟨h.symm, hx, rfl⟩
  | cons y ys ih =>
      obtain ⟨hstart, hle, hrest⟩ := h
      exact ⟨hstart, hle, ih hrest⟩

theorem Consecutive.bounds {p q : Nat} {xs : List α} (h : Consecutive start stop p xs q) {x : α}
    (hx : x ∈ xs) : p ≤ start x ∧ start x ≤ stop x ∧ stop x ≤ q := by
  induction xs generalizing p with
  | nil => simp at hx
  | cons y ys ih =>
      obtain ⟨rfl, hle, hrest⟩ := h
      rcases List.mem_cons.mp hx with rfl | hx
      · exact ⟨le_rfl, hle, hrest.le⟩
      · obtain ⟨hlow, hmid, hhigh⟩ := ih hrest hx
        exact ⟨hle.trans hlow, hmid, hhigh⟩

/-- Every item stops before any later item starts. -/
theorem Consecutive.pairwise {p q : Nat} {xs : List α} (h : Consecutive start stop p xs q) :
    xs.Pairwise fun x y => stop x ≤ start y := by
  induction xs generalizing p with
  | nil => exact List.Pairwise.nil
  | cons x xs ih =>
      obtain ⟨rfl, _, hrest⟩ := h
      exact List.pairwise_cons.mpr ⟨fun y hy => (hrest.bounds hy).1, ih hrest⟩

/-- Of two items, one stops before the other starts, unless they are the same. -/
theorem Consecutive.ordered {p q : Nat} {xs : List α} (h : Consecutive start stop p xs q) {x y : α}
    (hx : x ∈ xs) (hy : y ∈ xs) : x = y ∨ stop x ≤ start y ∨ stop y ≤ start x := by
  induction xs generalizing p with
  | nil => simp at hx
  | cons z zs ih =>
      obtain ⟨rfl, _, hrest⟩ := h
      rcases List.mem_cons.mp hx with rfl | hxs <;> rcases List.mem_cons.mp hy with rfl | hys
      · exact Or.inl rfl
      · exact Or.inr (Or.inl (hrest.bounds hys).1)
      · exact Or.inr (Or.inr (hrest.bounds hxs).1)
      · exact ih hrest hxs hys

end Layout
