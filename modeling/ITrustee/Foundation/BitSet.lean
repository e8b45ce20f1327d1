import Mathlib.Tactic

/-!
# Byte arrays as sets of bit numbers

Bit `i` of a byte array is bit `i % 8` of byte `i / 8`. An array is read as the set of the bits that
are set in it; setting a bit inserts into the set, clearing one deletes from it.
-/

namespace BitSet

/-- The byte with the one bit that holds bit number `i`. -/
def mask (i : Nat) : UInt8 := UInt8.ofNat (1 <<< (i % 8))

/-- The bits set in a byte array. -/
def toSet (bytes : List UInt8) : Set Nat :=
  {i | ∃ b, bytes[i / 8]? = some b ∧ b.toBitVec.getLsbD (i % 8) = true}

theorem mem_toSet {bytes : List UInt8} {i : Nat} :
    i ∈ toSet bytes ↔ ∃ b, bytes[i / 8]? = some b ∧ b.toBitVec.getLsbD (i % 8) = true := Iff.rfl

theorem lt_of_mem {bytes : List UInt8} {i : Nat} (h : i ∈ toSet bytes) : i < 8 * bytes.length := by
  obtain ⟨b, hb, _⟩ := h
  have hlt := (List.getElem?_eq_some_iff.mp hb).1
  omega

theorem mask_getLsbD (i k : Nat) : (mask i).toBitVec.getLsbD k = decide (k = i % 8) := by
  have hlt : i % 8 < 8 := Nat.mod_lt _ (by decide)
  rw [mask, UInt8.toBitVec_ofNat', BitVec.getLsbD_ofNat, Nat.one_shiftLeft, Nat.testBit_two_pow]
  by_cases h : k = i % 8
  · simp [h, hlt]
  · simp [h, Ne.symm h]

/-- A byte and the mask of a bit have a common bit exactly when the bit is set. -/
theorem and_mask_ne_zero (b : UInt8) (i : Nat) :
    b &&& mask i ≠ 0 ↔ b.toBitVec.getLsbD (i % 8) = true := by
  have hlt : i % 8 < 8 := Nat.mod_lt _ (by decide)
  constructor
  · intro h
    by_contra hbit
    apply h
    apply UInt8.toBitVec_inj.mp
    apply BitVec.eq_of_getLsbD_eq
    intro k hk
    rw [UInt8.toBitVec_and, BitVec.getLsbD_and, mask_getLsbD]
    by_cases hki : k = i % 8
    · simp [hki, Bool.eq_false_iff.mpr hbit]
    · simp [hki]
  · intro hbit hzero
    have h := congrArg (fun x : UInt8 => x.toBitVec.getLsbD (i % 8)) hzero
    simp only [UInt8.toBitVec_and, BitVec.getLsbD_and, mask_getLsbD, hbit, decide_true,
      Bool.and_self] at h
    simp at h

theorem or_mask_getLsbD (b : UInt8) (i k : Nat) :
    (b ||| mask i).toBitVec.getLsbD k = (b.toBitVec.getLsbD k || decide (k = i % 8)) := by
  rw [UInt8.toBitVec_or, BitVec.getLsbD_or, mask_getLsbD]

theorem andNot_mask_getLsbD (b : UInt8) (i : Nat) {k : Nat} (hk : k < 8) :
    (b &&& ~~~mask i).toBitVec.getLsbD k = (b.toBitVec.getLsbD k && !decide (k = i % 8)) := by
  rw [UInt8.toBitVec_and, BitVec.getLsbD_and, UInt8.toBitVec_not, BitVec.getLsbD_not,
    mask_getLsbD]
  simp [hk]

/-- Membership after one byte was changed. -/
private theorem mem_modify {bytes : List UInt8} {i j : Nat} {f : UInt8 → UInt8} :
    j ∈ toSet (bytes.modify (i / 8) f) ↔ ∃ b, bytes[j / 8]? = some b ∧
      (if i / 8 = j / 8 then f b else b).toBitVec.getLsbD (j % 8) = true := by
  rw [mem_toSet, List.getElem?_modify]
  cases hbyte : bytes[j / 8]? with
  | none => simp
  | some b => simp

/-- Setting a bit of the array inserts it. -/
theorem mem_setBit {bytes : List UInt8} {i : Nat} (hi : i / 8 < bytes.length) (j : Nat) :
    j ∈ toSet (bytes.modify (i / 8) fun b => b ||| mask i) ↔ j = i ∨ j ∈ toSet bytes := by
  rw [mem_modify, mem_toSet]
  by_cases hbyte : i / 8 = j / 8
  · have hget : bytes[j / 8]? = some (bytes.get ⟨i / 8, hi⟩) := by
      rw [← hbyte]
      exact List.getElem?_eq_getElem hi
    have hsame : j % 8 = i % 8 ↔ j = i := by omega
    simp only [hget, Option.some.injEq, if_pos hbyte, or_mask_getLsbD, Bool.or_eq_true,
      decide_eq_true_eq, exists_eq_left', hsame]
    exact or_comm
  · have hne : j ≠ i := fun h => hbyte (by rw [h])
    simp only [if_neg hbyte, hne, false_or]

/-- Clearing a bit of the array deletes it. -/
theorem mem_clearBit {bytes : List UInt8} {i : Nat} (j : Nat) :
    j ∈ toSet (bytes.modify (i / 8) fun b => b &&& ~~~mask i) ↔ j ≠ i ∧ j ∈ toSet bytes := by
  rw [mem_modify, mem_toSet]
  by_cases hbyte : i / 8 = j / 8
  · have hsame : j % 8 = i % 8 ↔ j = i := by omega
    simp only [if_pos hbyte, andNot_mask_getLsbD _ _ (Nat.mod_lt j (by decide)), Bool.and_eq_true,
      Bool.not_eq_true', decide_eq_false_iff_not, hsame]
    constructor
    · rintro ⟨b, hb, hset, hne⟩
      exact ⟨hne, b, hb, hset⟩
    · rintro ⟨hne, b, hb, hset⟩
      exact ⟨b, hb, hset, hne⟩
  · have hne : j ≠ i := fun h => hbyte (by rw [h])
    simp only [if_neg hbyte, ne_eq, hne, not_false_eq_true, true_and]

/-- Arrays of the same length with the same bits are equal. -/
theorem eq_of_toSet_eq {bytes bytes' : List UInt8} (hlength : bytes.length = bytes'.length)
    (h : toSet bytes = toSet bytes') : bytes = bytes' := by
  apply List.ext_getElem hlength
  intro n hn hn'
  apply UInt8.toBitVec_inj.mp
  apply BitVec.eq_of_getLsbD_eq
  intro k hk
  have hdiv : (8 * n + k) / 8 = n := by omega
  have hmod : (8 * n + k) % 8 = k := by omega
  have hbit := Set.ext_iff.mp h (8 * n + k)
  simp only [mem_toSet, hdiv, hmod, List.getElem?_eq_getElem hn, List.getElem?_eq_getElem hn',
    Option.some.injEq, exists_eq_left'] at hbit
  exact Bool.eq_iff_iff.mpr hbit

end BitSet
