import Mathlib.Tactic
import ITrustee.Teleport.Serialize

/-!
# The size of a message

`CalculateBuffSize` checks every addition, but the parameters of the check have 32 bits and a length
has 64. So the function adds up the lengths modulo `2 ^ 32` and checks that sum: it refuses exactly the
argument lists whose sum of reduced lengths does not fit. A length from `2 ^ 32` on is taken for a
shorter one.
-/

namespace ITrustee.Serialize

open CInt

/-- The header of an argument and, for a pointer, the bytes behind it. -/
def Arg.exactSize : Arg → Nat
  | .integer _ => sizeofIntegerStorage
  | .point _ size => sizeofPointStorage + size
  | .unknown => 0

/-- The size that `CalculateBuffSize` sees. -/
def Arg.seenSize : Arg → Nat
  | .integer _ => sizeofIntegerStorage
  | .point _ size => sizeofPointStorage + u32 size
  | .unknown => 0

/-- The count field, the headers and the lengths. -/
def exactSize (args : List Arg) : Nat := 4 + (args.map Arg.exactSize).sum

def seenSize (args : List Arg) : Nat := 4 + (args.map Arg.seenSize).sum

/-- A size is returned exactly when it fits in 32 bits, and it is the exact one. -/
def SizeExact (args : List Arg) : Prop :=
  ((calculateBuffSize args).1 = 0 ↔ exactSize args ≤ 2 ^ 32 - 1) ∧
    ((calculateBuffSize args).1 = 0 → (calculateBuffSize args).2 = exactSize args)

def LengthsShort (args : List Arg) : Prop := ∀ addr size, .point addr size ∈ args → size < 2 ^ 32

/-! ### One argument -/

theorem Arg.seenSize_le (a : Arg) : a.seenSize ≤ a.exactSize := by
  cases a with
  | integer value => exact le_rfl
  | point addr size => exact Nat.add_le_add_left (u32_le size) sizeofPointStorage
  | unknown => exact le_rfl

/-- A check of 32-bit values lets through what fits. -/
theorem overflowCheck_iff {a : Nat} (ha : a < 2 ^ 32) (b : Nat) :
    overflowCheck a b = false ↔ a + u32 b < 2 ^ 32 := by
  have hb : u32 b < 2 ^ 32 := Nat.mod_lt b (by decide)
  rw [overflowCheck, u32_of_lt ha, decide_eq_false_iff_not]
  omega

/-- The 64-bit sum of a header and a length, as the check sees it. -/
theorem u32_header {size : Nat} (h : sizeofPointStorage + u32 size < 2 ^ 32) :
    u32 (u64 (sizeofPointStorage + size)) = sizeofPointStorage + u32 size := by
  rw [sizeofPointStorage, u32] at h ⊢
  rw [u32, u64]
  omega

/-- One round of the loop. -/
theorem calculateLoop_cons {a : Arg} (ha : a ≠ .unknown) (args : List Arg) {buffSize : Nat}
    (hsize : buffSize < 2 ^ 32) :
    calculateLoop (a :: args) buffSize =
      if buffSize + a.seenSize < 2 ^ 32 then calculateLoop args (buffSize + a.seenSize)
      else (-eInval, buffSize) := by
  cases a with
  | integer value =>
      have hheader : u32 sizeofIntegerStorage = sizeofIntegerStorage := by decide
      have hcheck := overflowCheck_iff hsize sizeofIntegerStorage
      rw [hheader] at hcheck
      rw [calculateLoop, Arg.seenSize]
      by_cases hfits : buffSize + sizeofIntegerStorage < 2 ^ 32
      · rw [if_pos hfits, hcheck.mpr hfits, u32_of_lt hfits]
        rfl
      · rw [if_neg hfits, if_pos (Bool.of_not_eq_false (hcheck.not.mpr hfits))]
  | point addr size =>
      have hfirst := overflowCheck_iff (a := sizeofPointStorage) (by decide) size
      have hsecond := overflowCheck_iff hsize (u64 (sizeofPointStorage + size))
      rw [calculateLoop, Arg.seenSize]
      by_cases hheader : sizeofPointStorage + u32 size < 2 ^ 32
      · have hseen := u32_header hheader
        rw [hseen] at hsecond
        by_cases hfits : buffSize + (sizeofPointStorage + u32 size) < 2 ^ 32
        · have hsum : u32 (buffSize + u64 (sizeofPointStorage + size)) =
              buffSize + (sizeofPointStorage + u32 size) := by
            rw [u32] at hseen ⊢
            rw [Nat.add_mod, hseen, Nat.mod_eq_of_lt hsize, Nat.mod_eq_of_lt hfits]
          rw [if_pos hfits, hfirst.mpr hheader, hsecond.mpr hfits, hsum]
          rfl
        · rw [if_neg hfits, Bool.of_not_eq_false (hsecond.not.mpr hfits), Bool.or_true, if_pos rfl]
      · have htoo : ¬buffSize + (sizeofPointStorage + u32 size) < 2 ^ 32 := by omega
        rw [if_neg htoo, Bool.of_not_eq_false (hfirst.not.mpr hheader), Bool.true_or, if_pos rfl]
  | unknown => exact absurd rfl ha

/-! ### All arguments -/

/-- The loop adds up what it sees, and gives up when that does not fit. -/
theorem calculateLoop_seen {args : List Arg} (hknown : .unknown ∉ args) {buffSize : Nat}
    (hsize : buffSize < 2 ^ 32) :
    if buffSize + (args.map Arg.seenSize).sum < 2 ^ 32 then
      calculateLoop args buffSize = (0, buffSize + (args.map Arg.seenSize).sum)
    else (calculateLoop args buffSize).1 ≠ 0 := by
  induction args generalizing buffSize with
  | nil =>
      rw [List.map_nil, List.sum_nil, Nat.add_zero, if_pos hsize]
      rfl
  | cons a args ih =>
      obtain ⟨hne, hrest⟩ := not_or.mp (fun h => hknown (List.mem_cons.mpr h))
      rw [List.map_cons, List.sum_cons, ← Nat.add_assoc,
        calculateLoop_cons (fun h => hne h.symm) args hsize]
      by_cases hfits : buffSize + a.seenSize < 2 ^ 32
      · rw [if_pos hfits]
        exact ih hrest hfits
      · rw [if_neg hfits, if_neg (by omega)]
        show -eInval ≠ 0
        decide

theorem calculateBuffSize_seen {args : List Arg} (hknown : .unknown ∉ args) :
    ((calculateBuffSize args).1 = 0 ↔ seenSize args < 2 ^ 32) ∧
      ((calculateBuffSize args).1 = 0 → (calculateBuffSize args).2 = seenSize args) := by
  have hloop : if seenSize args < 2 ^ 32 then calculateBuffSize args = (0, seenSize args)
      else (calculateBuffSize args).1 ≠ 0 :=
    calculateLoop_seen hknown (show 4 < 2 ^ 32 by decide)
  by_cases hfits : seenSize args < 2 ^ 32
  · rw [if_pos hfits] at hloop
    rw [hloop]
    exact ⟨iff_of_true rfl hfits, fun _ => rfl⟩
  · rw [if_neg hfits] at hloop
    exact ⟨iff_of_false hloop hfits, fun h => absurd h hloop⟩

theorem seenSize_le (args : List Arg) : seenSize args ≤ exactSize args :=
  Nat.add_le_add_left (List.sum_le_sum fun a _ => a.seenSize_le) 4

/-- Nothing is lost exactly when every length fits in 32 bits. -/
theorem seenSize_eq_iff (args : List Arg) : seenSize args = exactSize args ↔ LengthsShort args := by
  rw [seenSize, exactSize, Nat.add_left_cancel_iff]
  induction args with
  | nil => simp [LengthsShort]
  | cons a args ih =>
      have hrest : (args.map Arg.seenSize).sum ≤ (args.map Arg.exactSize).sum :=
        List.sum_le_sum fun a _ => a.seenSize_le
      have hhead := a.seenSize_le
      have hsplit : LengthsShort (a :: args) ↔ a.seenSize = a.exactSize ∧ LengthsShort args := by
        have hshort : a.seenSize = a.exactSize ↔
            ∀ addr size, .point addr size = a → size < 2 ^ 32 := by
          cases a with
          | integer value => exact iff_of_true rfl (by simp)
          | unknown => exact iff_of_true rfl (by simp)
          | point addr size =>
              have hmod : u32 size = size ↔ size < 2 ^ 32 := Nat.mod_eq_iff_lt (by decide)
              simp [Arg.seenSize, Arg.exactSize, hmod]
        rw [hshort]
        constructor
        · intro h
          exact ⟨fun addr size heq => h addr size (List.mem_cons.mpr (Or.inl heq)),
            fun addr size hmem => h addr size (List.mem_cons_of_mem a hmem)⟩
        · rintro ⟨hfirst, hall⟩ addr size hmem
          obtain heq | hmem := List.mem_cons.mp hmem
          · exact hfirst addr size heq
          · exact hall addr size hmem
      rw [hsplit, ← ih, List.map_cons, List.sum_cons, List.map_cons, List.sum_cons]
      omega

/-- For integers and pointers with any lengths, the size is exact exactly when every length fits in 32
bits, or when even the lengths reduced to 32 bits add up to too much. -/
theorem calculateBuffSize_exact_iff (args : List Arg) (hknown : .unknown ∉ args) :
    SizeExact args ↔ LengthsShort args ∨ 2 ^ 32 ≤ seenSize args := by
  obtain ⟨hret, hstored⟩ := calculateBuffSize_seen hknown
  have hle := seenSize_le args
  rw [SizeExact, ← seenSize_eq_iff]
  constructor
  · rintro ⟨-, hsize⟩
    by_cases hfits : seenSize args < 2 ^ 32
    · have hzero := hret.mpr hfits
      exact Or.inl ((hstored hzero).symm.trans (hsize hzero))
    · exact Or.inr (not_lt.mp hfits)
  · rintro (heq | hlarge)
    · rw [← heq]
      exact ⟨hret.trans (by omega), hstored⟩
    · exact ⟨hret.trans (by omega), fun h => absurd (hret.mp h) (not_lt.mpr hlarge)⟩

theorem twoArgs_exact :
    SizeExact [.integer 5, .point (some [1, 2, 3]) 3] := by
  refine (calculateBuffSize_exact_iff _ (by simp)).mpr (Or.inl ?_)
  intro addr size hmem
  simp only [List.mem_cons, reduceCtorEq, Arg.point.injEq, List.not_mem_nil, or_false,
    false_or] at hmem
  omega

/-- A pointer to `2 ^ 32` bytes gets a message of 20 bytes. -/
theorem fourGigabytes_inexact :
    calculateBuffSize [.point (some []) (2 ^ 32)] = (0, 20) ∧
      ¬ SizeExact [.point (some []) (2 ^ 32)] := by
  have hcalc : calculateBuffSize [.point (some []) (2 ^ 32)] = (0, 20) := by decide
  refine ⟨hcalc, fun h => ?_⟩
  have hsize := h.2 (by rw [hcalc])
  rw [hcalc] at hsize
  exact absurd hsize (by decide)

end ITrustee.Serialize
