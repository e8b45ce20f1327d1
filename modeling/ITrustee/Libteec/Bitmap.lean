import Mathlib.Tactic
import ITrustee.Foundation.CInt
import ITrustee.Foundation.BitSet

/-!
# Bitmaps

The bitmap functions of `tee_client_api.c`. A bitmap is a byte array; as a set of bit numbers,
`CheckBit` is membership, `SetBit` insertion and `ClearBit` deletion. `GetAndSetBit` inserts the
smallest number that is missing, `GetAndCleartBit` deletes the smallest number that is there.
-/

namespace ITrustee.Libteec

open CInt BitSet

def setBit (i byteMax : Nat) (bitMap : List UInt8) : List UInt8 :=
  if byteMax ≤ i >>> 3 then bitMap
  else bitMap.modify (i >>> 3) fun b => b ||| UInt8.ofNat (1 <<< (i &&& 0x7))

def checkBit (i byteMax : Nat) (bitMap : List UInt8) : Bool :=
  if byteMax ≤ i >>> 3 then false
  else bitMap.getD (i >>> 3) 0 &&& UInt8.ofNat (1 <<< (i &&& 0x7)) != 0

def clearBit (i byteMax : Nat) (bitMap : List UInt8) : List UInt8 :=
  if byteMax ≤ i >>> 3 then bitMap
  else bitMap.modify (i >>> 3) fun b => b &&& ~~~UInt8.ofNat (1 <<< (i &&& 0x7))

inductive BitmapOps where
  | set
  | clear
  deriving DecidableEq

def BitmapOps.refByte : BitmapOps → UInt8
  | set => 0xff
  | clear => 0

def BitmapOps.refBit : BitmapOps → Bool
  | set => true
  | clear => false

/-- The inner loop of `IterateBitmap`. -/
def iterateByte (ops : BitmapOps) (byte : UInt8) : Option Nat :=
  (List.range 8).find? fun j => (byte &&& UInt8.ofNat (1 <<< j) == 0) == ops.refBit

/-- The outer loop of `IterateBitmap` from byte `i` on. -/
def iterateLoop (ops : BitmapOps) : List UInt8 → Nat → Int
  | [], _ => -1
  | byte :: bytes, i =>
      if byte = ops.refByte then iterateLoop ops bytes (i + 1)
      else
        let validBit :=
          match iterateByte ops byte with
          | some j => i32 (i32 i * 8 + j)
          | none => -1
        if validBit ≠ -1 then validBit else iterateLoop ops bytes (i + 1)

def iterateBitmap (bitMap : List UInt8) (byteMax : Nat) (ops : BitmapOps) : Int × List UInt8 :=
  let validBit := iterateLoop ops (bitMap.take byteMax) 0
  if validBit = -1 then (validBit, bitMap)
  else
    let i := (validBit % 2 ^ 32).toNat
    match ops with
    | .set => (validBit, setBit i byteMax bitMap)
    | .clear => (validBit, clearBit i byteMax bitMap)

def getAndSetBit (bitMap : List UInt8) (byteMax : Nat) : Int × List UInt8 :=
  iterateBitmap bitMap byteMax .set

def getAndCleartBit (bitMap : List UInt8) (byteMax : Nat) : Int × List UInt8 :=
  iterateBitmap bitMap byteMax .clear

/-! ### The bitmap as a set -/

variable {bitMap : List UInt8} {i : Nat}

theorem shiftRight_three (i : Nat) : i >>> 3 = i / 8 := Nat.shiftRight_eq_div_pow i 3

theorem maskByte_eq (i : Nat) : UInt8.ofNat (1 <<< (i &&& 0x7)) = mask i := by
  rw [mask, show i &&& 0x7 = i % 8 from Nat.and_two_pow_sub_one_eq_mod i 3]

theorem setBit_eq (hi : i < 8 * bitMap.length) :
    setBit i bitMap.length bitMap = bitMap.modify (i / 8) fun b => b ||| mask i := by
  rw [setBit, shiftRight_three, maskByte_eq, if_neg (by omega)]

theorem clearBit_eq (hi : i < 8 * bitMap.length) :
    clearBit i bitMap.length bitMap = bitMap.modify (i / 8) fun b => b &&& ~~~mask i := by
  rw [clearBit, shiftRight_three, maskByte_eq, if_neg (by omega)]

@[simp] theorem setBit_length (byteMax : Nat) :
    (setBit i byteMax bitMap).length = bitMap.length := by
  rw [setBit]
  split_ifs <;> simp

@[simp] theorem clearBit_length (byteMax : Nat) :
    (clearBit i byteMax bitMap).length = bitMap.length := by
  rw [clearBit]
  split_ifs <;> simp

theorem checkBit_iff : checkBit i bitMap.length bitMap = true ↔ i ∈ toSet bitMap := by
  rw [checkBit, shiftRight_three, maskByte_eq]
  by_cases hi : bitMap.length ≤ i / 8
  · rw [if_pos hi]
    constructor
    · intro h
      exact absurd h (by decide)
    · intro h
      have := lt_of_mem h
      omega
  · have hget := List.getElem?_eq_getElem (not_le.mp hi)
    rw [if_neg hi, bne_iff_ne, and_mask_ne_zero, mem_toSet, List.getD_eq_getElem?_getD, hget]
    simp

theorem toSet_setBit (hi : i < 8 * bitMap.length) :
    toSet (setBit i bitMap.length bitMap) = insert i (toSet bitMap) := by
  ext j
  rw [setBit_eq hi, mem_setBit (by omega), Set.mem_insert_iff]

theorem toSet_clearBit (hi : i < 8 * bitMap.length) :
    toSet (clearBit i bitMap.length bitMap) = toSet bitMap \ {i} := by
  ext j
  rw [clearBit_eq hi, mem_clearBit, Set.mem_sdiff, Set.mem_singleton_iff, and_comm]

/-- Clearing a bit that was set for the purpose gives the bitmap back. -/
theorem clearBit_setBit (hi : i < 8 * bitMap.length) (hfree : i ∉ toSet bitMap) :
    clearBit i bitMap.length (setBit i bitMap.length bitMap) = bitMap := by
  apply eq_of_toSet_eq (by simp)
  have hlength : (setBit i bitMap.length bitMap).length = bitMap.length := setBit_length _
  have hclear := toSet_clearBit (show i < 8 * (setBit i bitMap.length bitMap).length by omega)
  rw [hlength] at hclear
  rw [hclear, toSet_setBit hi]
  exact Set.insert_sdiff_self_of_notMem hfree

/-! ### The search -/

/-- The bit that `IterateBitmap` looks for. -/
def BitmapOps.Wanted (ops : BitmapOps) (bitMap : List UInt8) (i : Nat) : Prop :=
  match ops with
  | set => i < 8 * bitMap.length ∧ i ∉ toSet bitMap
  | clear => i ∈ toSet bitMap

/-- The test of the inner loop. -/
theorem iterateByte_test (ops : BitmapOps) (byte : UInt8) {j : Nat} (hj : j < 8) :
    ((byte &&& UInt8.ofNat (1 <<< j) == 0) == ops.refBit) = true ↔
      (byte.toBitVec.getLsbD j = true ↔ ops = .clear) := by
  have hmask : UInt8.ofNat (1 <<< j) = mask j := by rw [mask, Nat.mod_eq_of_lt hj]
  have hbit := and_mask_ne_zero byte j
  rw [Nat.mod_eq_of_lt hj] at hbit
  rw [hmask, ← hbit]
  cases ops <;> by_cases hzero : byte &&& mask j = 0 <;> simp [hzero, BitmapOps.refBit]

theorem wanted_cons_low (ops : BitmapOps) (byte : UInt8) (bytes : List UInt8) {j : Nat}
    (hj : j < 8) :
    ops.Wanted (byte :: bytes) j ↔ (byte.toBitVec.getLsbD j = true ↔ ops = .clear) := by
  have hmem : j ∈ toSet (byte :: bytes) ↔ byte.toBitVec.getLsbD j = true := by
    rw [mem_toSet, Nat.div_eq_of_lt hj, Nat.mod_eq_of_lt hj]
    simp
  cases ops with
  | set =>
      simp only [BitmapOps.Wanted, hmem, List.length_cons, reduceCtorEq, iff_false]
      exact and_iff_right (by omega)
  | clear => simp only [BitmapOps.Wanted, hmem, iff_true]

theorem wanted_cons_high (ops : BitmapOps) (byte : UInt8) (bytes : List UInt8) (j : Nat) :
    ops.Wanted (byte :: bytes) (8 + j) ↔ ops.Wanted bytes j := by
  have hmem : 8 + j ∈ toSet (byte :: bytes) ↔ j ∈ toSet bytes := by
    have hdiv : (8 + j) / 8 = j / 8 + 1 := by omega
    rw [mem_toSet, mem_toSet, hdiv, Nat.add_mod_left, List.getElem?_cons_succ]
  cases ops with
  | set =>
      simp only [BitmapOps.Wanted, hmem, List.length_cons]
      rw [show 8 + j < 8 * (bytes.length + 1) ↔ j < 8 * bytes.length by omega]
  | clear => exact hmem

theorem iterateByte_refByte (ops : BitmapOps) : iterateByte ops ops.refByte = none := by
  cases ops <;> decide

theorem wanted_lt {ops : BitmapOps} (h : ops.Wanted bitMap i) : i < 8 * bitMap.length := by
  cases ops with
  | set => exact h.1
  | clear => exact lt_of_mem h

/-- The smallest wanted bit, if there is one, has a number that `int32_t` holds. -/
def BitmapOps.Representable (ops : BitmapOps) (bitMap : List UInt8) (start : Nat) : Prop :=
  ∀ i, ops.Wanted bitMap i → (∀ j < i, ¬ ops.Wanted bitMap j) → 8 * start + i < 2 ^ 31

theorem representable_of_length {ops : BitmapOps} {start : Nat}
    (h : start + bitMap.length ≤ 2 ^ 28) : ops.Representable bitMap start := by
  intro i hwanted _
  have hlt := wanted_lt hwanted
  omega

/-- The search finds the smallest wanted bit, or reports that there is none. -/
theorem iterateLoop_spec (ops : BitmapOps) (bytes : List UInt8) (i : Nat)
    (hfound : ops.Representable bytes i) :
    (iterateLoop ops bytes i = -1 ∧ ∀ j, ¬ ops.Wanted bytes j) ∨
      ∃ j, iterateLoop ops bytes i = (8 * i + j : Nat) ∧ j < 8 * bytes.length ∧
        ops.Wanted bytes j ∧ ∀ k < j, ¬ ops.Wanted bytes k := by
  induction bytes generalizing i with
  | nil =>
      refine Or.inl ⟨rfl, fun j hj => ?_⟩
      cases ops <;> simp [BitmapOps.Wanted, toSet] at hj
  | cons byte bytes ih =>
      cases hbyte : iterateByte ops byte with
      | none =>
          have hlow : ∀ j < 8, ¬ ops.Wanted (byte :: bytes) j := by
            intro j hj hwanted
            have hnone := List.find?_eq_none.mp hbyte j (List.mem_range.mpr hj)
            rw [iterateByte_test ops byte hj, ← wanted_cons_low ops byte bytes hj] at hnone
            exact hnone hwanted
          have hskip : iterateLoop ops (byte :: bytes) i = iterateLoop ops bytes (i + 1) := by
            rw [iterateLoop]
            simp [hbyte]
          have hleastHigh (j : Nat) (hleast : ∀ k < j, ¬ ops.Wanted bytes k) :
              ∀ k < 8 + j, ¬ ops.Wanted (byte :: bytes) k := by
            intro k hk hkw
            by_cases hlt : k < 8
            · exact hlow k hlt hkw
            · obtain ⟨k, rfl⟩ := Nat.exists_eq_add_of_le (not_lt.mp hlt)
              exact hleast k (by omega) ((wanted_cons_high ops byte bytes k).mp hkw)
          have hrest : ops.Representable bytes (i + 1) := by
            intro j hj hleast
            have hlt := hfound (8 + j) ((wanted_cons_high ops byte bytes j).mpr hj)
              (hleastHigh j hleast)
            omega
          rw [hskip]
          rcases ih (i + 1) hrest with ⟨hret, hnone⟩ | ⟨j, hret, hj, hwanted, hleast⟩
          · refine Or.inl ⟨hret, fun j hj => ?_⟩
            by_cases hlt : j < 8
            · exact hlow j hlt hj
            · obtain ⟨k, rfl⟩ := Nat.exists_eq_add_of_le (not_lt.mp hlt)
              exact hnone k ((wanted_cons_high ops byte bytes k).mp hj)
          · refine Or.inr ⟨8 + j, ?_, ?_, (wanted_cons_high ops byte bytes j).mpr hwanted,
              hleastHigh j hleast⟩
            · rw [hret]
              congr 1
              omega
            · rw [List.length_cons]
              omega
      | some j =>
          have hne : byte ≠ ops.refByte := by
            rintro rfl
            rw [iterateByte_refByte] at hbyte
            exact absurd hbyte (by simp)
          obtain ⟨htest, hmem, hleast⟩ := List.find?_range_eq_some.mp hbyte
          have hj : j < 8 := List.mem_range.mp hmem
          have hwanted : ops.Wanted (byte :: bytes) j := by
            rw [wanted_cons_low ops byte bytes hj, ← iterateByte_test ops byte hj]
            exact htest
          have hfirst : ∀ k < j, ¬ ops.Wanted (byte :: bytes) k := by
            intro k hk hkw
            rw [wanted_cons_low ops byte bytes (by omega),
              ← iterateByte_test ops byte (by omega)] at hkw
            simpa [hkw] using hleast k hk
          have hsmall := hfound j hwanted hfirst
          have hvalid : i32 (i32 i * 8 + j) = (8 * i + j : Nat) := by
            rw [i32_of_range (z := (i : Int)) (by omega) (by omega),
              i32_of_range (by omega) (by omega)]
            push_cast
            ring
          refine Or.inr ⟨j, ?_, by rw [List.length_cons]; omega, hwanted, hfirst⟩
          rw [iterateLoop, if_neg hne, hbyte]
          simp only [hvalid]
          rw [if_pos (by omega)]

/-- `GetAndSetBit` finds no free bit, or sets the first one. -/
theorem getAndSetBit_least (hfound : BitmapOps.set.Representable bitMap 0) :
    (getAndSetBit bitMap bitMap.length = (-1, bitMap) ∧
        ∀ i < 8 * bitMap.length, i ∈ toSet bitMap) ∨
      ∃ i < 8 * bitMap.length, i ∉ toSet bitMap ∧ (∀ j < i, j ∈ toSet bitMap) ∧
        getAndSetBit bitMap bitMap.length = ((i : Int), setBit i bitMap.length bitMap) := by
  rw [getAndSetBit, iterateBitmap, List.take_length]
  rcases iterateLoop_spec .set bitMap 0 hfound with ⟨hret, hnone⟩ | ⟨i, hret, hi, hwanted, hleast⟩
  · refine Or.inl ⟨by simp [hret], fun i hi => ?_⟩
    by_contra hfree
    exact hnone i ⟨hi, hfree⟩
  · refine Or.inr ⟨i, hi, hwanted.2, fun j hj => ?_, ?_⟩
    · by_contra hfree
      exact hleast j hj ⟨by omega, hfree⟩
    · have hsmall := hfound i hwanted hleast
      have hnat : ((i : Int) % 2 ^ 32).toNat = i := by omega
      simp only [Nat.mul_zero, Nat.zero_add] at hret
      simp only [hret, hnat]
      rw [if_neg (by omega)]

/-- `GetAndCleartBit` finds no set bit, or clears the first one. -/
theorem getAndCleartBit_least (hfound : BitmapOps.clear.Representable bitMap 0) :
    (getAndCleartBit bitMap bitMap.length = (-1, bitMap) ∧ ∀ i, i ∉ toSet bitMap) ∨
      ∃ i ∈ toSet bitMap, (∀ j < i, j ∉ toSet bitMap) ∧
        getAndCleartBit bitMap bitMap.length = ((i : Int), clearBit i bitMap.length bitMap) := by
  rw [getAndCleartBit, iterateBitmap, List.take_length]
  rcases iterateLoop_spec .clear bitMap 0 hfound with
    ⟨hret, hnone⟩ | ⟨i, hret, hi, hwanted, hleast⟩
  · exact Or.inl ⟨by simp [hret], hnone⟩
  · refine Or.inr ⟨i, hwanted, hleast, ?_⟩
    have hsmall := hfound i hwanted hleast
    have hnat : ((i : Int) % 2 ^ 32).toNat = i := by omega
    simp only [Nat.mul_zero, Nat.zero_add] at hret
    simp only [hret, hnat]
    rw [if_neg (by omega)]

/-- Arrays of up to 2^28 bytes have no number that `int32_t` does not hold. -/
theorem getAndSetBit_spec (hlength : bitMap.length ≤ 2 ^ 28) :
    (getAndSetBit bitMap bitMap.length = (-1, bitMap) ∧
        ∀ i < 8 * bitMap.length, i ∈ toSet bitMap) ∨
      ∃ i < 8 * bitMap.length, i ∉ toSet bitMap ∧ (∀ j < i, j ∈ toSet bitMap) ∧
        getAndSetBit bitMap bitMap.length = ((i : Int), setBit i bitMap.length bitMap) :=
  getAndSetBit_least (representable_of_length (by omega))

theorem getAndCleartBit_spec (hlength : bitMap.length ≤ 2 ^ 28) :
    (getAndCleartBit bitMap bitMap.length = (-1, bitMap) ∧ ∀ i, i ∉ toSet bitMap) ∨
      ∃ i ∈ toSet bitMap, (∀ j < i, j ∉ toSet bitMap) ∧
        getAndCleartBit bitMap bitMap.length = ((i : Int), clearBit i bitMap.length bitMap) :=
  getAndCleartBit_least (representable_of_length (by omega))

end ITrustee.Libteec
