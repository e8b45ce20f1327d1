import Mathlib.Tactic
import ITrustee.Libteec.Bitmap

/-!
# Bitmaps as finite sets

What the bitmap functions of `tee_client_api.c` mean for the set of the numbers below `8n` of the bits that
are set in an array of `n` bytes. The two searches return the number they find as an `int32_t`, so that a
number from `2 ^ 31` on, which only an array of more than `2 ^ 28` bytes can have, comes back as another
one.
-/

namespace ITrustee.Libteec

open CInt BitSet

/-! ### Specification -/

/-- Membership, insertion and deletion. -/
structure ActsAsSet (bitMap : List UInt8) : Prop where
  check (i : Nat) : checkBit i bitMap.length bitMap = true ↔ i ∈ toSet bitMap
  set (i : Nat) : (setBit i bitMap.length bitMap).length = bitMap.length ∧
    toSet (setBit i bitMap.length bitMap) =
      if i < 8 * bitMap.length then insert i (toSet bitMap) else toSet bitMap
  clear (i : Nat) : (clearBit i bitMap.length bitMap).length = bitMap.length ∧
    toSet (clearBit i bitMap.length bitMap) = toSet bitMap \ {i}
  outside (i : Nat) : 8 * bitMap.length ≤ i → i ∉ toSet bitMap ∧
    setBit i bitMap.length bitMap = bitMap ∧ clearBit i bitMap.length bitMap = bitMap

structure InsertsLeast (bitMap : List UInt8) (result : Int × List UInt8) : Prop where
  full : result = (-1, bitMap) ↔ ∀ i < 8 * bitMap.length, i ∈ toSet bitMap
  least (i : Nat) : i < 8 * bitMap.length → i ∉ toSet bitMap → (∀ j < i, j ∈ toSet bitMap) →
    result.1 = i ∧ result.2.length = bitMap.length ∧ toSet result.2 = insert i (toSet bitMap)

structure DeletesLeast (bitMap : List UInt8) (result : Int × List UInt8) : Prop where
  empty : result = (-1, bitMap) ↔ ∀ i, i ∉ toSet bitMap
  least (i : Nat) : i ∈ toSet bitMap → (∀ j < i, j ∉ toSet bitMap) →
    result.1 = i ∧ result.2.length = bitMap.length ∧ toSet result.2 = toSet bitMap \ {i}

/-! ### Single bits -/

variable {bitMap : List UInt8}

theorem actsAsSet (bitMap : List UInt8) : ActsAsSet bitMap := by
  have houtside (i : Nat) (hi : 8 * bitMap.length ≤ i) :
      i ∉ toSet bitMap ∧ setBit i bitMap.length bitMap = bitMap ∧
        clearBit i bitMap.length bitMap = bitMap := by
    have hbyte : bitMap.length ≤ i >>> 3 := by rw [shiftRight_three]; omega
    refine ⟨fun h => ?_, if_pos hbyte, if_pos hbyte⟩
    have := lt_of_mem h
    omega
  refine ⟨fun i => checkBit_iff, fun i => ⟨setBit_length _, ?_⟩, fun i => ⟨clearBit_length _, ?_⟩,
    houtside⟩
  · split_ifs with hi
    · exact toSet_setBit hi
    · rw [(houtside i (Nat.le_of_not_lt hi)).2.1]
  · by_cases hi : i < 8 * bitMap.length
    · exact toSet_clearBit hi
    · obtain ⟨hnot, -, hclear⟩ := houtside i (Nat.le_of_not_lt hi)
      rw [hclear, Set.sdiff_singleton_eq_self hnot]

/-! ### The searches -/

theorem i32_lt (z : Int) : i32 z < 2 ^ 31 := by
  rw [i32]
  exact Int.bmod_lt (by decide)

/-- Whatever the search returns, it is an `int32_t`. -/
theorem iterateLoop_lt (ops : BitmapOps) (bytes : List UInt8) (i : Nat) :
    iterateLoop ops bytes i < 2 ^ 31 := by
  induction bytes generalizing i with
  | nil => exact (by decide : (-1 : Int) < 2 ^ 31)
  | cons byte bytes ih =>
      rw [iterateLoop]
      split_ifs
      · exact ih (i + 1)
      · cases hbyte : iterateByte ops byte with
        | none => simpa using ih (i + 1)
        | some j =>
            dsimp only
            split_ifs
            · exact i32_lt _
            · exact ih (i + 1)

theorem iterateBitmap_lt (bitMap : List UInt8) (byteMax : Nat) (ops : BitmapOps) :
    (iterateBitmap bitMap byteMax ops).1 < 2 ^ 31 := by
  have hlt := iterateLoop_lt ops (bitMap.take byteMax) 0
  rw [iterateBitmap]
  dsimp only
  split_ifs
  · exact hlt
  · cases ops with
    | set => exact hlt
    | clear => exact hlt

theorem insertsLeast_iff :
    InsertsLeast bitMap (getAndSetBit bitMap bitMap.length) ↔
      BitmapOps.set.Representable bitMap 0 := by
  constructor
  · intro h i hwanted hleast
    obtain ⟨hret, -, -⟩ := h.least i hwanted.1 hwanted.2 fun j hj => by
      by_contra hnot
      exact hleast j hj ⟨hj.trans hwanted.1, hnot⟩
    have hlt := iterateBitmap_lt bitMap bitMap.length .set
    rw [← getAndSetBit, hret] at hlt
    omega
  · intro hfound
    obtain ⟨hrun, hall⟩ | ⟨i, hi, hnot, hbelow, hrun⟩ := getAndSetBit_least hfound
    · exact ⟨iff_of_true hrun hall, fun i hi hnot _ => absurd (hall i hi) hnot⟩
    · rw [hrun]
      refine ⟨iff_of_false ?_ fun hall => hnot (hall i hi), fun k _ hk hkbelow => ?_⟩
      · intro h
        have hret := congrArg Prod.fst h
        dsimp only at hret
        omega
      · obtain rfl : k = i := by
          obtain hlt | heq | hlt := Nat.lt_trichotomy k i
          · exact absurd (hbelow k hlt) hk
          · exact heq
          · exact absurd (hkbelow i hlt) hnot
        exact ⟨rfl, setBit_length _, toSet_setBit hi⟩

theorem deletesLeast_iff :
    DeletesLeast bitMap (getAndCleartBit bitMap bitMap.length) ↔
      BitmapOps.clear.Representable bitMap 0 := by
  constructor
  · intro h i hwanted hleast
    obtain ⟨hret, -, -⟩ := h.least i hwanted hleast
    have hlt := iterateBitmap_lt bitMap bitMap.length .clear
    rw [← getAndCleartBit, hret] at hlt
    omega
  · intro hfound
    obtain ⟨hrun, hnone⟩ | ⟨i, hi, hbelow, hrun⟩ := getAndCleartBit_least hfound
    · exact ⟨iff_of_true hrun hnone, fun i hi _ => absurd hi (hnone i)⟩
    · rw [hrun]
      refine ⟨iff_of_false ?_ fun hnone => hnone i hi, fun k hk hkbelow => ?_⟩
      · intro h
        have hret := congrArg Prod.fst h
        dsimp only at hret
        omega
      · obtain rfl : k = i := by
          obtain hlt | heq | hlt := Nat.lt_trichotomy k i
          · exact absurd hk (hbelow k hlt)
          · exact heq
          · exact absurd hi (hkbelow i hlt)
        exact ⟨rfl, clearBit_length _, toSet_clearBit (lt_of_mem hi)⟩

/-- Single bits are those of a set; each search is that of its least absent, or present, number exactly
where `int32_t` holds that number. -/
theorem bitmap_refines (bitMap : List UInt8) : ActsAsSet bitMap ∧
    (InsertsLeast bitMap (getAndSetBit bitMap bitMap.length) ↔
      BitmapOps.set.Representable bitMap 0) ∧
    (DeletesLeast bitMap (getAndCleartBit bitMap bitMap.length) ↔
      BitmapOps.clear.Representable bitMap 0) ∧
    (bitMap.length ≤ 2 ^ 28 → BitmapOps.set.Representable bitMap 0 ∧
      BitmapOps.clear.Representable bitMap 0) :=
  ⟨actsAsSet bitMap, insertsLeast_iff, deletesLeast_iff, fun hlength =>
    ⟨representable_of_length (by omega), representable_of_length (by omega)⟩⟩

/-! ### A number that is too large -/

theorem iterateLoop_skip (ops : BitmapOps) (n : Nat) (rest : List UInt8) (i : Nat) :
    iterateLoop ops (List.replicate n ops.refByte ++ rest) i = iterateLoop ops rest (i + n) := by
  induction n generalizing i with
  | zero => rfl
  | succ n ih =>
      rw [List.replicate_succ, List.cons_append, iterateLoop, if_pos rfl, ih, Nat.add_right_comm,
        Nat.add_assoc]

/-- In an array of bytes that are all full up to the last, the absent numbers are the last byte's. -/
theorem mem_replicate_append (n : Nat) (byte : UInt8) (i : Nat) :
    i ∈ toSet (List.replicate n 0xff ++ [byte]) ↔
      i < 8 * n ∨ i / 8 = n ∧ byte.toBitVec.getLsbD (i % 8) = true := by
  rw [mem_toSet]
  obtain hlt | rfl | hlt := Nat.lt_trichotomy (i / 8) n
  · have hget : (List.replicate n (0xff : UInt8) ++ [byte])[i / 8]? = some 0xff := by
      rw [List.getElem?_append_left (by simpa using hlt), List.getElem?_replicate, if_pos hlt]
    have hbit : ∀ k < 8, (0xff : UInt8).toBitVec.getLsbD k = true := by decide
    have hleft : i < 8 * n := by omega
    simp only [hget, Option.some.injEq, exists_eq_left', hleft, true_or, iff_true]
    exact hbit _ (Nat.mod_lt _ (by decide))
  · have hnot : ¬ i < 8 * (i / 8) := by omega
    simp [hnot]
  · have hget : (List.replicate n (0xff : UInt8) ++ [byte])[i / 8]? = none := by
      rw [List.getElem?_eq_none_iff, List.length_append, List.length_replicate, List.length_singleton]
      omega
    have hnot : ¬ i < 8 * n := by omega
    have hne : i / 8 ≠ n := by omega
    simp [hget, hnot, hne]

/-- With `2 ^ 28` full bytes in front, the least absent number is `2 ^ 31`, and `-2 ^ 31` comes back. -/
theorem bitmap_refines_not :
    let bitMap : List UInt8 := List.replicate (2 ^ 28) 0xff ++ [0xfe]
    (2 ^ 31 < 8 * bitMap.length ∧ 2 ^ 31 ∉ toSet bitMap ∧ ∀ i < 2 ^ 31, i ∈ toSet bitMap) ∧
      (getAndSetBit bitMap bitMap.length).1 = -2 ^ 31 ∧
      ¬ InsertsLeast bitMap (getAndSetBit bitMap bitMap.length) := by
  intro bitMap
  have hlength : bitMap.length = 2 ^ 28 + 1 := by
    rw [List.length_append, List.length_replicate, List.length_singleton]
  have hleast : 2 ^ 31 < 8 * bitMap.length ∧ 2 ^ 31 ∉ toSet bitMap ∧
      ∀ i < 2 ^ 31, i ∈ toSet bitMap := by
    refine ⟨by omega, fun hmem => ?_, fun i hi => ?_⟩
    · rw [mem_replicate_append] at hmem
      exact absurd hmem (by decide)
    · exact (mem_replicate_append _ _ i).mpr (Or.inl (by omega))
  have hloop : iterateLoop .set bitMap 0 = -2 ^ 31 := by
    show iterateLoop .set (List.replicate (2 ^ 28) BitmapOps.set.refByte ++ [0xfe]) 0 = -2 ^ 31
    rw [iterateLoop_skip]
    decide
  have hret : (getAndSetBit bitMap bitMap.length).1 = -2 ^ 31 := by
    rw [getAndSetBit, iterateBitmap, List.take_length]
    dsimp only
    rw [hloop, if_neg (by decide)]
  refine ⟨hleast, hret, fun h => ?_⟩
  obtain ⟨hfound, -, -⟩ := h.least (2 ^ 31) hleast.1 hleast.2.1 hleast.2.2
  rw [hret] at hfound
  exact absurd hfound (by decide)

end ITrustee.Libteec
