import Mathlib.Tactic

/-!
# Rings with flip bits

Counters that only grow, kept by their residue modulo the number `n` of slots and one flip bit, the
parity of the laps. Two counters at most one lap apart are compared exactly through what is kept of
them: `empty_iff`, `full_iff` and `occupied_iff` say so for the usual tests of a ring buffer.

`Filled R n slots start bs` says that the slots from counter `start` on represent the list `bs`. A
writer extends the list at its end, a reader drops its head, and a slot outside it may be overwritten
freely.
-/

namespace FlipRing

/-- The parity of the laps a counter has made. -/
def lapFlip (n k : Nat) : Bool := decide (k / n % 2 = 1)

/-- The slots from the tail up to the head, which is one lap ahead when the flips differ. -/
def Occupied (n head : Nat) (headFlip : Bool) (tail : Nat) (tailFlip : Bool) (i : Nat) : Prop :=
  if headFlip = tailFlip then tail ≤ i ∧ i < head else i < n ∧ (tail ≤ i ∨ i < head)

/-! ### Counters -/

section Counters

variable {n : Nat}

/-- Moving on by at most one lap passes the end of the ring once or not at all. -/
theorem add_cases (hn : 0 < n) (k t : Nat) (ht : t ≤ n) :
    (k % n + t < n ∧ (k + t) % n = k % n + t ∧ (k + t) / n = k / n) ∨
      (n ≤ k % n + t ∧ (k + t) % n + n = k % n + t ∧ (k + t) / n = k / n + 1) := by
  have hk := Nat.div_add_mod k n
  have hlt := Nat.mod_lt k hn
  generalize k / n = q at hk ⊢
  generalize k % n = r at hk hlt ⊢
  subst hk
  by_cases hwrap : r + t < n
  · refine Or.inl ⟨hwrap, ?_, ?_⟩
    · rw [Nat.add_assoc, Nat.mul_add_mod, Nat.mod_eq_of_lt hwrap]
    · rw [Nat.add_assoc, Nat.mul_add_div hn, Nat.div_eq_of_lt hwrap, Nat.add_zero]
  · refine Or.inr ⟨Nat.le_of_not_lt hwrap, ?_, ?_⟩
    · have hsplit : n * q + r + t = n * (q + 1) + (r + t - n) := by
        rw [Nat.mul_succ]
        omega
      rw [hsplit, Nat.mul_add_mod, Nat.mod_eq_of_lt (by omega)]
      omega
    · have hsplit : n * q + r + t = n * (q + 1) + (r + t - n) := by
        rw [Nat.mul_succ]
        omega
      rw [hsplit, Nat.mul_add_div hn, Nat.div_eq_of_lt (by omega), Nat.add_zero]

theorem flip_add (hn : 0 < n) (k t : Nat) (ht : t ≤ n) :
    lapFlip n (k + t) = (decide (n ≤ k % n + t) ^^ lapFlip n k) := by
  obtain ⟨hlt, -, hdiv⟩ | ⟨hle, -, hdiv⟩ := add_cases hn k t ht
  · have hnot : ¬ n ≤ k % n + t := by omega
    rw [lapFlip, lapFlip, hdiv, decide_eq_false hnot, Bool.false_xor]
  · rw [lapFlip, lapFlip, hdiv, decide_eq_true hle, Bool.true_xor, ← decide_not]
    exact decide_eq_decide.mpr (by omega)

theorem flip_succ_lap {k l : Nat} (h : k / n = l / n + 1) : lapFlip n k ≠ lapFlip n l := by
  intro heq
  have hiff := decide_eq_decide.mp heq
  rw [h] at hiff
  omega

theorem flip_same_lap {k l : Nat} (h : k / n = l / n) : lapFlip n k = lapFlip n l := by
  rw [lapFlip, lapFlip, h]

/-- Counters less than a lap apart and in the same slot are equal. -/
theorem add_mod_inj (hn : 0 < n) {k i j : Nat} (hi : i < n) (hj : j < n)
    (h : (k + i) % n = (k + j) % n) : i = j := by
  obtain ⟨_, hi', _⟩ | ⟨_, hi', _⟩ := add_cases hn k i hi.le <;>
    obtain ⟨_, hj', _⟩ | ⟨_, hj', _⟩ := add_cases hn k j hj.le <;> omega

/-- The slots and flips agree exactly when the counters do. -/
theorem empty_iff (hn : 0 < n) (tail : Nat) {d : Nat} (hd : d < n) :
    (lapFlip n (tail + d) = lapFlip n tail ∧ (tail + d) % n = tail % n) ↔ d = 0 := by
  have htail := Nat.mod_lt tail hn
  obtain ⟨_, hmod, _⟩ | ⟨_, hmod, hdiv⟩ := add_cases hn tail d hd.le
  · constructor
    · intro h
      omega
    · intro h
      rw [h]
      exact ⟨rfl, rfl⟩
  · constructor
    · intro h
      exact absurd h.1 (flip_succ_lap hdiv)
    · intro h
      omega

/-- With `d` slots taken, a reservation of `t` more is refused exactly when it would leave none. -/
theorem full_iff (hn : 0 < n) (tail : Nat) {d t : Nat} (hd : d < n) (ht : t ≤ n) :
    ((lapFlip n (tail + d + t) ≠ lapFlip n tail ∧ tail % n ≤ (tail + d + t) % n) ∨
        (lapFlip n (tail + d) ≠ lapFlip n tail ∧ lapFlip n (tail + d + t) = lapFlip n tail)) ↔
      n ≤ d + t := by
  have htail := Nat.mod_lt tail hn
  obtain ⟨_, hmod, hdiv⟩ | ⟨_, hmod, hdiv⟩ := add_cases hn tail d hd.le <;>
    obtain ⟨_, hmod', hdiv'⟩ | ⟨_, hmod', hdiv'⟩ := add_cases hn (tail + d) t ht
  · have hflip := flip_same_lap (hdiv'.trans hdiv)
    have hflip' := flip_same_lap hdiv
    simp only [hflip, hflip', ne_eq, not_true, false_and, or_false, false_iff]
    omega
  · have hflip := flip_succ_lap (hdiv'.trans (congrArg (· + 1) hdiv))
    have hflip' := flip_same_lap hdiv
    simp only [hflip, hflip', ne_eq, not_false_iff, true_and, not_true, false_and, or_false]
    omega
  · have hflip := flip_succ_lap (hdiv'.trans hdiv)
    simp only [hflip, ne_eq, not_false_iff, true_and, and_false, or_false]
    omega
  · have hflip := flip_succ_lap hdiv
    have hflip' := flip_succ_lap hdiv'
    have hback : lapFlip n (tail + d + t) = lapFlip n tail := by
      revert hflip hflip'
      cases lapFlip n (tail + d + t) <;> cases lapFlip n (tail + d) <;> cases lapFlip n tail <;> simp
    simp only [hflip, hback, ne_eq, not_true, false_and, not_false_iff, and_self, or_true, true_iff]
    omega

/-- The occupied slots are those of the counters from the tail up to the head. -/
theorem occupied_iff (hn : 0 < n) {tail d i : Nat} (hd : d < n) :
    Occupied n ((tail + d) % n) (lapFlip n (tail + d)) (tail % n) (lapFlip n tail) i ↔
      ∃ j < d, (tail + j) % n = i := by
  have htail := Nat.mod_lt tail hn
  constructor
  · intro hocc
    obtain ⟨hlt, hmod, hdiv⟩ | ⟨hlt, hmod, hdiv⟩ := add_cases hn tail d hd.le
    · rw [Occupied, if_pos (flip_same_lap hdiv)] at hocc
      refine ⟨i - tail % n, by omega, ?_⟩
      obtain ⟨_, hj, _⟩ | ⟨_, hj, _⟩ := add_cases hn tail (i - tail % n) (by omega) <;> omega
    · rw [Occupied, if_neg (flip_succ_lap hdiv)] at hocc
      by_cases hi : tail % n ≤ i
      · refine ⟨i - tail % n, by omega, ?_⟩
        obtain ⟨_, hj, _⟩ | ⟨_, hj, _⟩ := add_cases hn tail (i - tail % n) (by omega) <;> omega
      · refine ⟨i + n - tail % n, by omega, ?_⟩
        obtain ⟨_, hj, _⟩ | ⟨_, hj, _⟩ := add_cases hn tail (i + n - tail % n) (by omega) <;> omega
  · intro hex
    obtain ⟨j, hj, rfl⟩ := hex
    have hslot := Nat.mod_lt (tail + j) hn
    obtain ⟨_, hmod, hdiv⟩ | ⟨_, hmod, hdiv⟩ := add_cases hn tail d hd.le
    · rw [Occupied, if_pos (flip_same_lap hdiv)]
      obtain ⟨_, hj', _⟩ | ⟨_, hj', _⟩ := add_cases hn tail j (by omega) <;> omega
    · rw [Occupied, if_neg (flip_succ_lap hdiv)]
      obtain ⟨_, hj', _⟩ | ⟨_, hj', _⟩ := add_cases hn tail j (by omega) <;> omega

end Counters

/-! ### Contents -/

section Contents

variable {α β : Type*} {R : α → β → Prop} {n : Nat} {slots slots' : Nat → α} {start : Nat}

/-- The slots from a counter on represent the elements of a list. -/
def Filled (R : α → β → Prop) (n : Nat) (slots : Nat → α) (start : Nat) (bs : List β) : Prop :=
  ∀ (j : Nat) (b : β), bs[j]? = some b → R (slots ((start + j) % n)) b

theorem filled_nil : Filled R n slots start [] := by
  intro j b h
  cases h

theorem filled_append {bs cs : List β} :
    Filled R n slots start (bs ++ cs) ↔
      Filled R n slots start bs ∧ Filled R n slots (start + bs.length) cs := by
  constructor
  · intro h
    refine ⟨fun j b hb => h j b ?_, fun j b hb => ?_⟩
    · rw [List.getElem?_append_left (List.getElem?_eq_some_iff.mp hb).1, hb]
    · have hb' : (bs ++ cs)[bs.length + j]? = some b := by
        rw [List.getElem?_append_right (by omega), Nat.add_sub_cancel_left, hb]
      have hslot := h _ b hb'
      rwa [← Nat.add_assoc] at hslot
  · intro h j b hb
    by_cases hj : j < bs.length
    · rw [List.getElem?_append_left hj] at hb
      exact h.1 j b hb
    · rw [List.getElem?_append_right (by omega)] at hb
      have hslot := h.2 _ b hb
      rwa [Nat.add_assoc, Nat.add_sub_cancel' (Nat.le_of_not_lt hj)] at hslot

/-- Only the slots of the list count. -/
theorem Filled.congr {bs : List β} (h : Filled R n slots start bs)
    (heq : ∀ j < bs.length, slots' ((start + j) % n) = slots ((start + j) % n)) :
    Filled R n slots' start bs := by
  intro j b hb
  rw [heq j (List.getElem?_eq_some_iff.mp hb).1]
  exact h j b hb

/-- The slot behind a list of less than `n` elements is none of its slots. -/
theorem Filled.update {bs : List β} {c : α} (hn : 0 < n) (h : Filled R n slots start bs)
    {j : Nat} (hlen : bs.length ≤ j) (hj : j < n) :
    Filled R n (Function.update slots ((start + j) % n) c) start bs := by
  apply h.congr
  intro i hi
  apply Function.update_of_ne
  intro heq
  have := add_mod_inj hn (by omega) hj heq
  omega

/-- Writing the slot behind a list of less than `n` elements extends the list. -/
theorem Filled.snoc {bs : List β} {b : β} {c : α} (hn : 0 < n) (h : Filled R n slots start bs)
    (hlen : bs.length < n) (hc : R c b) :
    Filled R n (Function.update slots ((start + bs.length) % n) c) start (bs ++ [b]) := by
  refine filled_append.mpr ⟨h.update hn le_rfl hlen, fun j b' hb => ?_⟩
  obtain ⟨rfl, rfl⟩ : j = 0 ∧ b = b' := by
    cases j with
    | zero => exact ⟨rfl, by simpa using hb⟩
    | succ j => simp at hb
  rw [Nat.add_zero, Function.update_self]
  exact hc

end Contents

end FlipRing
