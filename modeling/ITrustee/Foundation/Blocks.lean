import Mathlib.Tactic

/-!
# Blocks

A sequence cut into blocks of one size, of which the last may be shorter. With the rounded-up number of
blocks they make up the sequence, and none of them is empty.
-/

namespace Blocks

variable {α : Type*} (bs : Nat)

def cut : Nat → List α → List (List α)
  | 0, _ => []
  | k + 1, s => s.take bs :: cut k (s.drop bs)

/-- The number of blocks that a length takes. -/
def count (n : Nat) : Nat := (n + bs - 1) / bs

variable {bs}

/-- So many blocks hold the length, and one less does not. -/
structure Fills (bs k n : Nat) : Prop where
  holds : n ≤ k * bs
  tight : 0 < k → (k - 1) * bs < n

theorem count_fills (hbs : 0 < bs) (n : Nat) : Fills bs (count bs n) n := by
  have hdivided := Nat.div_add_mod (n + bs - 1) bs
  have hrest := Nat.mod_lt (n + bs - 1) hbs
  rw [count]
  generalize (n + bs - 1) / bs = k at *
  rw [Nat.mul_comm] at hdivided
  refine ⟨by omega, fun hk => ?_⟩
  rw [Nat.sub_mul, Nat.one_mul]
  have : bs ≤ k * bs := Nat.le_mul_of_pos_left bs hk
  omega

theorem count_eq (hbs : 0 < bs) (n : Nat) :
    count bs n = if n % bs = 0 then n / bs else n / bs + 1 := by
  have hdivided := Nat.div_add_mod n bs
  have hrest := Nat.mod_lt n hbs
  rw [count]
  split_ifs with hzero
  · apply Nat.div_eq_of_lt_le
    · rw [Nat.mul_comm]
      omega
    · rw [Nat.succ_mul, Nat.mul_comm]
      omega
  · apply Nat.div_eq_of_lt_le
    · rw [Nat.succ_mul, Nat.mul_comm]
      omega
    · rw [Nat.succ_mul, Nat.succ_mul, Nat.mul_comm]
      omega

/-- What is behind the first block. -/
theorem Fills.drop {k : Nat} {s : List α} (h : Fills bs (k + 1) s.length) :
    Fills bs k (s.drop bs).length := by
  obtain ⟨hholds, htight⟩ := h
  rw [List.length_drop]
  rw [Nat.succ_mul] at hholds
  refine ⟨by omega, fun hk => ?_⟩
  have hmore := htight (Nat.succ_pos k)
  rw [Nat.add_sub_cancel] at hmore
  have hsplit : k * bs = (k - 1) * bs + bs := by
    rw [← Nat.succ_mul, Nat.succ_eq_add_one, Nat.sub_add_cancel hk]
  omega

theorem cut_flatten {k : Nat} {s : List α} (h : Fills bs k s.length) : (cut bs k s).flatten = s := by
  induction k generalizing s with
  | zero =>
      have := h.holds
      rw [Nat.zero_mul] at this
      exact (List.eq_nil_of_length_eq_zero (Nat.eq_zero_of_le_zero this)).symm
  | succ k ih => rw [cut, List.flatten_cons, ih h.drop, List.take_append_drop]

theorem cut_lengths (hbs : 0 < bs) {k : Nat} {s : List α} (h : Fills bs k s.length) :
    ∀ b ∈ cut bs k s, 0 < b.length ∧ b.length ≤ bs := by
  induction k generalizing s with
  | zero => exact fun b hb => absurd hb List.not_mem_nil
  | succ k ih =>
      intro b hb
      obtain rfl | hb := List.mem_cons.mp hb
      · have := h.tight (Nat.succ_pos k)
        rw [List.length_take]
        omega
      · exact ih h.drop b hb

end Blocks
