import Mathlib.Tactic
import ITrustee.Xtasklet.BlockingQueue

/-!
# The entries of a message

A buffer of `srcSize` bytes takes `totalEntries srcSize` entries: `blocks` lists what each of them
holds. `EnqueueBlocks` writes these blocks one by one, and `DequeueBlocks` reads the buffer back from
them. The positions are residues of counters that only grow, so what the code computes from a position
is stated here about its counter.
-/

namespace ITrustee.Xtasklet

open CInt FlipRing

/-! ### Positions and words -/

theorem position_eq {pos : Nat} (hpos : pos < 2 ^ 31) (flip : Bool) :
    position pos flip = 2 * pos + flip.toNat := by
  have hshift : pos <<< 1 = 2 * pos := by rw [Nat.shiftLeft_eq, pow_one, mul_comm]
  have hlt : flip.toNat < 2 ^ 1 := by cases flip <;> decide
  have hor := Nat.shiftLeft_add_eq_or_of_lt hlt pos
  have hflip : (if flip then 1 else 0) = flip.toNat := by cases flip <;> rfl
  rw [position, hshift, u32_of_lt (by omega), hflip, Nat.or_comm, ← hshift, ← hor]

theorem position_and_flipMask (pos v : Nat) (flip : Bool) :
    ((2 * pos + flip.toNat + v * 2 ^ 32) &&& flipMask != 0) = flip := by
  have hand : (2 * pos + flip.toNat + v * 2 ^ 32) &&& flipMask = flip.toNat := by
    rw [flipMask, Nat.and_one_is_mod]
    have hlt : flip.toNat < 2 := by cases flip <;> decide
    omega
  rw [hand]
  cases flip <;> rfl

theorem position_and_posMask {pos : Nat} (hpos : pos < 2 ^ 31) (v : Nat) (flip : Bool) :
    ((2 * pos + flip.toNat + v * 2 ^ 32) &&& posMask) >>> 1 = pos := by
  have hmask : posMask >>> 1 = 2 ^ 31 - 1 := rfl
  have hlt : flip.toNat < 2 := by cases flip <;> decide
  rw [Nat.shiftRight_and_distrib, hmask, Nat.and_two_pow_sub_one_eq_mod, Nat.shiftRight_eq_div_pow]
  omega

/-- A snapshot reads both positions as they were stored. -/
theorem getHeadTail_position {head tail : Nat} (hhead : head < 2 ^ 31) (htail : tail < 2 ^ 31)
    (headFlip tailFlip : Bool) :
    getHeadTail ⟨position head headFlip, position tail tailFlip⟩ =
      ⟨head, headFlip, tail, tailFlip⟩ := by
  have hshift : (2 * head + headFlip.toNat + (2 * tail + tailFlip.toNat) * 2 ^ 32) >>> 32 =
      2 * tail + tailFlip.toNat + 0 * 2 ^ 32 := by
    have hlt : headFlip.toNat < 2 := by cases headFlip <;> decide
    rw [Nat.shiftRight_eq_div_pow]
    omega
  simp only [getHeadTail, Ringbuffer.posVal, position_eq hhead, position_eq htail, hshift,
    position_and_flipMask, position_and_posMask hhead, position_and_posMask htail]

section Positions

variable {n k t : Nat} {count : Int}

theorem toU32_add (hn : 0 < n) (hmax : n * entrySize < 2 ^ 31) (hcount : count = t) (ht : t ≤ n) :
    toU32 ((k % n : Nat) + count) = k % n + t := by
  have hk := Nat.mod_lt k hn
  rw [entrySize] at hmax
  exact toU32_of_lt (by rw [hcount, Nat.cast_add]) (by omega)

theorem nextPos_mod (hn : 0 < n) (hmax : n * entrySize < 2 ^ 31) (hcount : count = t) (ht : t ≤ n) :
    nextPos n (k % n) count = (k + t) % n := by
  rw [nextPos, toU32_add hn hmax hcount ht, Nat.mod_add_mod]

theorem nextFlip_flip (hn : 0 < n) (hmax : n * entrySize < 2 ^ 31) (hcount : count = t)
    (ht : t ≤ n) : nextFlip n (k % n) count (lapFlip n k) = lapFlip n (k + t) := by
  rw [nextFlip, toU32_add hn hmax hcount ht, flip_add hn k t ht]

theorem succ_mod (n k : Nat) : (k % n + 1) % n = (k + 1) % n := Nat.mod_add_mod k n 1

/-- `WaitFull` waits exactly when the message would leave no free entry. -/
theorem isFull_iff (hn : 0 < n) (hmax : n * entrySize < 2 ^ 31) {tail d : Nat} (hd : d < n)
    (ht : t ≤ n) :
    isFull n t ⟨(tail + d) % n, lapFlip n (tail + d), tail % n, lapFlip n tail⟩ = true ↔ n ≤ d + t := by
  have hfull := full_iff hn tail hd ht
  simpa [isFull, nextPos_mod hn hmax rfl ht, nextFlip_flip hn hmax rfl ht] using hfull

theorem isEmpty_iff (hn : 0 < n) {tail d : Nat} (hd : d < n) :
    isEmpty ⟨(tail + d) % n, lapFlip n (tail + d), tail % n, lapFlip n tail⟩ = true ↔ d = 0 := by
  have hempty := empty_iff hn tail hd
  simpa [isEmpty] using hempty

end Positions

/-! ### Blocks -/

structure Block where
  size : Int
  remain : Int
  chunk : List UInt8

/-- The entry holds a block, and anything behind its bytes. -/
def Stores (e : Entry) (b : Block) : Prop :=
  e.size = b.size ∧ e.remain = b.remain ∧ b.chunk <+: e.data

def blockAt (src : List UInt8) (j : Nat) : Block where
  size := if j = 0 then src.length else invalidMetaValue
  remain := if j = 0 then totalEntries src.length - 1 else invalidMetaValue
  chunk := (src.drop (j * entrySize)).take entrySize

def blocks (src : List UInt8) : List Block :=
  (List.range (totalEntries src.length)).map (blockAt src)

/-- The number of bytes in the first `j` blocks. -/
def offsetAt (srcSize j : Nat) : Nat := min (j * entrySize) srcSize

theorem lt_totalEntries (srcSize j : Nat) : j < totalEntries srcSize ↔ j * entrySize < srcSize := by
  have hdef : totalEntries srcSize = srcSize / 512 + if srcSize % 512 = 0 then 0 else 1 := rfl
  rw [hdef, entrySize]
  split <;> omega

theorem totalEntries_le {srcSize n : Nat} (h : srcSize ≤ n * entrySize) :
    totalEntries srcSize ≤ n := by
  have hiff := lt_totalEntries srcSize n
  omega

theorem totalEntries_pos {srcSize : Nat} (h : 1 ≤ srcSize) : 0 < totalEntries srcSize := by
  rw [lt_totalEntries, Nat.zero_mul]
  exact h

theorem offsetAt_totalEntries (srcSize : Nat) :
    offsetAt srcSize (totalEntries srcSize) = srcSize := by
  have hiff := lt_totalEntries srcSize (totalEntries srcSize)
  rw [offsetAt]
  omega

theorem offsetAt_of_lt {srcSize j : Nat} (hj : j < totalEntries srcSize) :
    offsetAt srcSize j = j * entrySize :=
  min_eq_left ((lt_totalEntries srcSize j).mp hj).le

@[simp] theorem blocks_length (src : List UInt8) : (blocks src).length = totalEntries src.length := by
  rw [blocks, List.length_map, List.length_range]

theorem blocks_getElem? {src : List UInt8} {j : Nat} (hj : j < totalEntries src.length) :
    (blocks src)[j]? = some (blockAt src j) := by
  rw [blocks, List.getElem?_map, List.getElem?_range hj, Option.map_some]

theorem blocks_take_succ {src : List UInt8} {j : Nat} (hj : j < totalEntries src.length) :
    (blocks src).take (j + 1) = (blocks src).take j ++ [blockAt src j] := by
  rw [List.take_add_one, blocks_getElem? hj, Option.toList_some]

theorem blockAt_chunk_length {src : List UInt8} {j : Nat} (hj : j < totalEntries src.length) :
    (blockAt src j).chunk.length = offsetAt src.length (j + 1) - offsetAt src.length j := by
  rw [lt_totalEntries, entrySize] at hj
  simp only [blockAt, List.length_take, List.length_drop, offsetAt, entrySize]
  omega

theorem take_offsetAt_succ {src : List UInt8} {j : Nat} (hj : j < totalEntries src.length) :
    src.take (offsetAt src.length (j + 1)) =
      src.take (offsetAt src.length j) ++ (blockAt src j).chunk := by
  have hmin : src.take (offsetAt src.length (j + 1)) = src.take (j * entrySize + entrySize) := by
    rw [offsetAt, ← List.take_take, List.take_length, Nat.succ_mul]
  rw [hmin, offsetAt_of_lt hj, List.take_add, blockAt]

/-- The size check of `BlockingEnqueue` refuses what is longer than all entries together. -/
theorem enqueueStart_refuses {q : BlockingQueue} {src : List UInt8}
    (hlong : u32 (q.entriesNr * entrySize) < src.length) (timeoutUs lockRet lockErrno : Int) :
    enqueueStart q src timeoutUs lockRet lockErrno = .returning src 1 := by
  rw [enqueueStart]
  split_ifs <;> rfl

/-! ### Copying -/

/-- The buffers the ring has room for. -/
def Sized (n : Nat) (src : List UInt8) : Prop := 1 ≤ src.length ∧ src.length ≤ n * entrySize

theorem Sized.totalEntries_le {n : Nat} {src : List UInt8} (h : Sized n src) :
    totalEntries src.length ≤ n := Xtasklet.totalEntries_le h.2

theorem Sized.totalEntries_pos {n : Nat} {src : List UInt8} (h : Sized n src) :
    0 < totalEntries src.length := Xtasklet.totalEntries_pos h.1

section Copying

variable {n : Nat} (hmax : n * entrySize < 2 ^ 31) {src : List UInt8} (hsrc : Sized n src) {j : Nat}

include hmax hsrc

theorem i32_length : i32 src.length = src.length := by
  have hle := hsrc.2
  exact i32_of_range (by omega) (by omega)

theorem signed_totalEntries :
    (i32 src.length).tdiv entrySize + (if (i32 src.length).tmod entrySize = 0 then 0 else 1) =
      totalEntries src.length := by
  rw [i32_length hmax hsrc, totalEntries, ← Int.ofNat_tdiv, ← Int.ofNat_tmod]
  split_ifs <;> omega

/-- The bounds of a block whose bytes are copied. -/
theorem offsetAt_bounds (hj : j < totalEntries src.length) :
    j * 512 + 512 < 2 ^ 31 ∧ j * 512 < src.length ∧ src.length < 2 ^ 31 ∧
      offsetAt src.length j = j * 512 ∧
      offsetAt src.length (j + 1) = min (j * 512 + 512) src.length := by
  have hle := hsrc.2
  rw [lt_totalEntries] at hj
  rw [entrySize] at hj hle hmax
  have hjn : j + 1 ≤ n := by omega
  have hlast : j * 512 + 512 < 2 ^ 31 := by
    rw [← Nat.succ_mul]
    exact lt_of_le_of_lt (Nat.mul_le_mul_right 512 hjn) hmax
  have hlen : src.length < 2 ^ 31 := by omega
  have hsucc : offsetAt src.length (j + 1) = min (j * 512 + 512) src.length := by
    rw [offsetAt, entrySize, Nat.succ_mul]
  exact ⟨hlast, hj, hlen, min_eq_left hj.le, hsucc⟩

theorem enqueueCnt_offsetAt (hj : j < totalEntries src.length) :
    enqueueCnt (offsetAt src.length j) src.length =
      offsetAt src.length (j + 1) - offsetAt src.length j := by
  obtain ⟨hlast, hlt, hlen, hoff, hsucc⟩ := offsetAt_bounds hmax hsrc hj
  have hadd : i32 (((j * 512 : Nat) : Int) + (512 : Nat)) = j * 512 + 512 := by
    rw [i32_of_range (by omega) (by omega)]
    omega
  have hsub : i32 ((src.length : Int) - (j * 512 : Nat)) = src.length - j * 512 := by
    rw [i32_of_range (by omega) (by omega)]
    omega
  rw [enqueueCnt, hoff, hsucc, entrySize, hadd, hsub]
  by_cases hfull : j * 512 + 512 < src.length
  · rw [if_pos (by omega), min_eq_left hfull.le]
    exact toU64_of_lt (by omega) (by omega)
  · rw [if_neg (by omega), min_eq_right (Nat.le_of_not_lt hfull)]
    exact toU64_of_lt (by omega) (by omega)

theorem enqueue_offset_succ (hj : j < totalEntries src.length) :
    i32 (offsetAt src.length j + enqueueCnt (offsetAt src.length j) src.length) =
      offsetAt src.length (j + 1) := by
  obtain ⟨hlast, hlt, hlen, hoff, hsucc⟩ := offsetAt_bounds hmax hsrc hj
  rw [enqueueCnt_offsetAt hmax hsrc hj, i32_of_range (by omega) (by omega)]
  omega

theorem dequeueCnt_offsetAt (hj : j < totalEntries src.length) :
    dequeueCnt src.length (offsetAt src.length j) =
      offsetAt src.length (j + 1) - offsetAt src.length j := by
  obtain ⟨hlast, hlt, hlen, hoff, hsucc⟩ := offsetAt_bounds hmax hsrc hj
  have hsub : toU32 ((src.length : Int) - (j * 512 : Nat)) = src.length - j * 512 :=
    toU32_of_lt (by omega) (by omega)
  rw [dequeueCnt, hoff, hsucc, entrySize, hsub]
  split <;> omega

theorem dequeue_offset_succ (hj : j < totalEntries src.length) :
    u32 (offsetAt src.length j + dequeueCnt src.length (offsetAt src.length j)) =
      offsetAt src.length (j + 1) := by
  obtain ⟨hlast, hlt, hlen, hoff, hsucc⟩ := offsetAt_bounds hmax hsrc hj
  rw [dequeueCnt_offsetAt hmax hsrc hj, u32_of_lt (by omega)]
  omega

/-- A turn of the writing loop leaves the block in the entry. -/
theorem writeEntry_stores {lib : Securec} (hlib : lib.CopiesWithinMax) (e : Entry)
    (hj : j < totalEntries src.length) :
    Stores (writeEntry lib e (j = 0) src src.length (totalEntries src.length)
      (offsetAt src.length j)) (blockAt src j) := by
  obtain ⟨hlast, hlt, hlen, hoff, hsucc⟩ := offsetAt_bounds hmax hsrc hj
  have hcnt := enqueueCnt_offsetAt hmax hsrc hj
  refine ⟨?_, ?_, ?_⟩
  · simp only [writeEntry, blockAt, decide_eq_true_eq]
  · simp only [writeEntry, blockAt, decide_eq_true_eq]
  · have hcopy := hlib.copies e.data (offsetAt src.length (j + 1) - offsetAt src.length j)
      (src.drop (offsetAt src.length j)) (offsetAt src.length (j + 1) - offsetAt src.length j)
      (by omega) (by rw [Securec.maxLen]; omega) le_rfl
    have hmin : min (offsetAt src.length (j + 1) - offsetAt src.length j) 512 =
        offsetAt src.length (j + 1) - offsetAt src.length j := min_eq_left (by omega)
    have hchunk : (blockAt src j).chunk = (src.drop (offsetAt src.length j)).take
        (offsetAt src.length (j + 1) - offsetAt src.length j) := by
      rw [← List.take_of_length_le (blockAt_chunk_length hj).le, blockAt, hoff, List.take_take,
        entrySize, ← hoff, hmin]
    rw [writeEntry, hcnt, Int.toNat_natCast, hcopy, hchunk]
    exact List.prefix_append _ _

/-- The reader's buffer once the first `j` blocks are copied. -/
def partlyRead (src : List UInt8) (j : Nat) : List UInt8 :=
  src.take (offsetAt src.length j) ++ List.replicate (src.length - offsetAt src.length j) 0

/-- A turn of the reading loop copies the block's bytes behind those already there. -/
theorem partlyRead_succ {lib : Securec} (hlib : lib.CopiesWithinMax) {e : Entry}
    (he : Stores e (blockAt src j)) (hj : j < totalEntries src.length) :
    (partlyRead src j).take (offsetAt src.length j) ++
        (lib.memcpyS ((partlyRead src j).drop (offsetAt src.length j))
          (dequeueCnt src.length (offsetAt src.length j)) e.data
          (dequeueCnt src.length (offsetAt src.length j))).2 =
      partlyRead src (j + 1) := by
  obtain ⟨hlast, hlt, hlen, hoff, hsucc⟩ := offsetAt_bounds hmax hsrc hj
  have htake : (src.take (offsetAt src.length j)).length = offsetAt src.length j := by
    rw [List.length_take]
    omega
  have hdata : e.data.take (offsetAt src.length (j + 1) - offsetAt src.length j) =
      (blockAt src j).chunk := by
    rw [← blockAt_chunk_length hj]
    exact (List.prefix_iff_eq_take.mp he.2.2).symm
  rw [dequeueCnt_offsetAt hmax hsrc hj,
    hlib.copies _ _ _ _ (by omega) (by rw [Securec.maxLen]; omega) le_rfl, hdata, partlyRead,
    List.take_left' htake, List.drop_left' htake, List.drop_replicate, ← List.append_assoc,
    ← take_offsetAt_succ hj, partlyRead]
  congr 2
  omega

end Copying

theorem partlyRead_zero (src : List UInt8) : partlyRead src 0 = List.replicate src.length 0 := by
  simp [partlyRead, offsetAt]

theorem partlyRead_totalEntries (src : List UInt8) :
    partlyRead src (totalEntries src.length) = src := by
  rw [partlyRead, offsetAt_totalEntries, List.take_length, Nat.sub_self, List.replicate_zero,
    List.append_nil]

end ITrustee.Xtasklet
