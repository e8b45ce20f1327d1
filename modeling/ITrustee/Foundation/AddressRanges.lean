import Mathlib

/-!
# Ranges laid out in memory

A buffer is cut into ranges one behind the other by adding lengths to a 64-bit address. The addition
wraps, so the ranges lie in the buffer, and apart from each other, only when the exact sum of the
lengths does not leave it.
-/

/-- A range of addresses, as a pointer and a length. -/
structure AddrRange where
  base : UInt64
  len : UInt64
  deriving DecidableEq

namespace AddrRange

def bytes (r : AddrRange) : Set Nat := Set.Ico r.base.toNat (r.base.toNat + r.len.toNat)

/-- The ranges of these lengths, one behind the other from an address on. -/
def layOut : UInt64 → List UInt64 → List AddrRange
  | _, [] => []
  | base, len :: lens => ⟨base, len⟩ :: layOut (base + len) lens

def total (lens : List UInt64) : Nat := (lens.map UInt64.toNat).sum

theorem layOut_concat (base : UInt64) (lens : List UInt64) (len : UInt64) :
    layOut base (lens ++ [len]) = layOut base lens ++ [⟨base + lens.sum, len⟩] := by
  induction lens generalizing base with
  | nil => rw [List.nil_append, List.sum_nil, UInt64.add_zero]; rfl
  | cons head lens ih =>
      rw [List.cons_append, layOut, ih, List.sum_cons, ← UInt64.add_assoc]
      rfl

theorem map_len_layOut (base : UInt64) (lens : List UInt64) :
    (layOut base lens).map len = lens := by
  induction lens generalizing base with
  | nil => rfl
  | cons head lens ih => rw [layOut, List.map_cons, ih]

theorem toNat_sum (lens : List UInt64) : lens.sum.toNat = total lens % 2 ^ 64 := by
  induction lens with
  | nil => rfl
  | cons head lens ih =>
      rw [List.sum_cons, UInt64.toNat_add, ih, total, total, List.map_cons, List.sum_cons]
      omega

/-- A range that does not end behind the limit, seen from its bytes. -/
theorem bytes_subset_iff {base len : UInt64} {lo hi : Nat} (hlo : lo ≤ base.toNat)
    (hhi : base.toNat ≤ hi) :
    bytes ⟨base, len⟩ ⊆ Set.Ico lo hi ↔ base.toNat + len.toNat ≤ hi := by
  constructor
  · intro h
    by_cases hempty : len.toNat = 0
    · omega
    · have hlast : base.toNat + len.toNat - 1 ∈ bytes ⟨base, len⟩ :=
        Set.mem_Ico.mpr (by dsimp only; omega)
      have hlt := (Set.mem_Ico.mp (h hlast)).2
      omega
  · exact fun h => Set.Ico_subset_Ico hlo h

theorem toNat_add_of_le {base len : UInt64} {hi : Nat} (hmax : hi < 2 ^ 64)
    (h : base.toNat + len.toNat ≤ hi) : (base + len).toNat = base.toNat + len.toNat := by
  rw [UInt64.toNat_add]
  omega

/-- The ranges lie in the buffer exactly when the exact end of the last one does. -/
theorem layOut_inside_iff {base : UInt64} {lens : List UInt64} {lo hi : Nat}
    (hlo : lo ≤ base.toNat) (hhi : base.toNat ≤ hi) (hmax : hi < 2 ^ 64) :
    (∀ r ∈ layOut base lens, r.bytes ⊆ Set.Ico lo hi) ↔ base.toNat + total lens ≤ hi := by
  induction lens generalizing base with
  | nil => exact iff_of_true (fun r h => absurd h List.not_mem_nil) hhi
  | cons len lens ih =>
      rw [layOut, List.forall_mem_cons, bytes_subset_iff hlo hhi, total, List.map_cons,
        List.sum_cons]
      constructor
      · rintro ⟨hfirst, hrest⟩
        have hnext := toNat_add_of_le hmax hfirst
        have hall := (ih (by omega) (by omega)).mp hrest
        rw [hnext, total] at hall
        omega
      · intro h
        have hfirst : base.toNat + len.toNat ≤ hi := by omega
        have hnext := toNat_add_of_le hmax hfirst
        refine ⟨hfirst, (ih (by omega) (by omega)).mpr ?_⟩
        rw [hnext, total]
        omega

theorem layOut_disjoint {base : UInt64} {lens : List UInt64} (h : base.toNat + total lens < 2 ^ 64) :
    (layOut base lens).Pairwise fun r r' => Disjoint r.bytes r'.bytes := by
  induction lens generalizing base with
  | nil => exact List.Pairwise.nil
  | cons len lens ih =>
      rw [total, List.map_cons, List.sum_cons] at h
      have hnext := toNat_add_of_le h (show base.toNat + len.toNat ≤ _ by omega)
      have hrest : (base + len).toNat + total lens < 2 ^ 64 := by
        rw [hnext, total]
        omega
      refine List.pairwise_cons.mpr ⟨fun r hr => ?_, ih hrest⟩
      have hbehind := (layOut_inside_iff le_rfl (Nat.le_add_right _ (total lens)) hrest).mpr
        le_rfl r hr
      refine Set.disjoint_of_subset_right hbehind ?_
      rw [bytes, hnext]
      exact Set.Ico_disjoint_Ico_same

end AddrRange
