import Mathlib
import ITrustee.Libteec.EncodeParam

/-!
# The parents the encoder follows

The check and the encoder sort the sixteen parameter types by cascades of their own. Both look at the
parent of a partial or whole-block reference, and the check refuses one without a buffer. The two types
of shared memory the encoder treats like these, while the check passes over them as it does over an
empty slot. So these slots decide whether the encoder follows a null pointer.
-/

namespace ITrustee.Libteec

/-- The encoder reaches the branch of the references with a parent. -/
def followsParent (paramType : UInt32) : Bool :=
  !isTempMem paramType && (isPartialMem paramType || isSharedMem paramType)

/-- The parents that the loop of `TEEC_EncodeParam` follows in the slots still to encode; with a null
one it comes to its end. -/
def followedParents (operation : Operation) : List (Fin 4) → List (Option SharedMemory)
  | [] => []
  | paramCnt :: rest =>
      if followsParent (operation.paramType paramCnt) then
        match (operation.params paramCnt).memref.parent with
        | none => [none]
        | some parent => some parent :: followedParents operation rest
      else followedParents operation rest

/-- The parent is not null, and neither is its buffer. -/
def HasBuffer (parent : Option SharedMemory) : Prop := ∃ p, parent = some p ∧ p.buffer ≠ 0

def ParentsUsable (operation : Operation) : Prop :=
  ∀ parent ∈ followedParents operation [0, 1, 2, 3], HasBuffer parent

section Followed

variable {operation : Operation}

theorem encodeSlot_eq_none (opAddr : UInt64) (i : Fin 4) :
    encodeSlot opAddr operation i = none ↔
      followsParent (operation.paramType i) = true ∧
        (operation.params i).memref.parent = none := by
  rw [encodeSlot, followsParent]
  cases htemp : isTempMem (operation.paramType i) with
  | true => simp
  | false =>
      by_cases hfollow : isPartialMem (operation.paramType i) ∨ isSharedMem (operation.paramType i)
      · have hor : (isPartialMem (operation.paramType i) || isSharedMem (operation.paramType i)) =
            true := Bool.or_eq_true_iff.mpr hfollow
        rw [if_neg Bool.false_ne_true, if_pos hfollow, hor]
        cases hparent : (operation.params i).memref.parent with
        | none => simp
        | some parent => simp
      · have hor : (isPartialMem (operation.paramType i) || isSharedMem (operation.paramType i)) =
            false := Bool.eq_false_iff.mpr fun h => hfollow (Bool.or_eq_true_iff.mp h)
        rw [if_neg Bool.false_ne_true, if_neg hfollow, hor]
        split_ifs <;> simp

theorem none_mem_followedParents (slots : List (Fin 4)) :
    none ∈ followedParents operation slots ↔
      ∃ i ∈ slots, followsParent (operation.paramType i) = true ∧
        (operation.params i).memref.parent = none := by
  induction slots with
  | nil => simp [followedParents]
  | cons i slots ih =>
      rw [followedParents]
      cases hfollow : followsParent (operation.paramType i) with
      | false => simp [ih, hfollow]
      | true =>
          cases hparent : (operation.params i).memref.parent with
          | none => simp [hfollow, hparent]
          | some parent => simp [ih, hparent]

/-- The encoder comes to grief exactly when one of the parents it follows is null. -/
theorem encodeParam_eq_none (opAddr : UInt64) :
    encodeParam opAddr operation = none ↔ none ∈ followedParents operation [0, 1, 2, 3] := by
  rw [none_mem_followedParents]
  constructor
  · intro hnone
    by_contra hall
    have hslot : ∀ i, ∃ s, encodeSlot opAddr operation i = some s := by
      intro i
      refine Option.ne_none_iff_exists'.mp fun hi => hall ⟨i, ?_, (encodeSlot_eq_none opAddr i).mp hi⟩
      fin_cases i <;> simp
    choose slot hslot using hslot
    rw [encodeParam_of_slots hslot] at hnone
    cases hnone
  · rintro ⟨i, -, hi⟩
    have hslot := (encodeSlot_eq_none opAddr i).mpr hi
    cases hencode : encodeParam opAddr operation with
    | none => rfl
    | some result =>
        obtain ⟨slot, hsome, -⟩ := encodeParam_slots (show encodeParam opAddr operation =
          some (result.1, result.2) from hencode)
        rw [hsome i] at hslot
        cases hslot

/-- Every parent the encoder follows has a buffer exactly when that holds slot by slot. -/
theorem parentsUsable_slots (slots : List (Fin 4)) :
    (∀ parent ∈ followedParents operation slots, HasBuffer parent) ↔
      ∀ i ∈ slots, followsParent (operation.paramType i) = true →
        HasBuffer (operation.params i).memref.parent := by
  induction slots with
  | nil => simp [followedParents]
  | cons i slots ih =>
      rw [followedParents, List.forall_mem_cons, ← ih]
      cases hfollow : followsParent (operation.paramType i) with
      | false => simp
      | true =>
          cases hparent : (operation.params i).memref.parent with
          | none => simp [HasBuffer]
          | some parent => simp

end Followed

/-- For an accepted operation, the encoder follows only parents with a buffer exactly when the slots of
the shared-memory types have such parents. -/
theorem encodeParam_parents_iff (context : Option ContextHidl) (lockRets : Fin 4 → Int)
    (operation : Operation)
    (hcheck : checkOperation context lockRets (some operation) = teecSuccess) :
    ParentsUsable operation ↔
      ∀ i, isSharedMem (operation.paramType i) = true →
        HasBuffer (operation.params i).memref.parent := by
  rw [ParentsUsable, parentsUsable_slots]
  constructor
  · intro h i hshared
    refine h i (by fin_cases i <;> simp) ?_
    have hnotTemp : isTempMem (operation.paramType i) = false := by
      generalize operation.paramType i = t at hshared
      simp only [isSharedMem, Bool.or_eq_true, beq_iff_eq] at hshared
      rcases hshared with rfl | rfl <;> decide
    simp [followsParent, hnotTemp, hshared]
  · intro h i _ hfollow
    rw [followsParent, Bool.and_eq_true, Bool.or_eq_true] at hfollow
    obtain ⟨-, hpartial | hshared⟩ := hfollow
    · obtain ⟨parent, hparent, hbuffer, -⟩ := checkOperation_memRef hcheck hpartial
      exact ⟨parent, hparent, hbuffer⟩
    · exact h i hshared

/-- An operation with one reference to shared memory and no other parameter. -/
def sharedSlotOperation (parent : Option SharedMemory) : Operation where
  started := 1
  paramTypes := Words.packNibbles teecMemrefSharedInout teecNone teecNone teecNone
  params := ![{ memref := ⟨parent, 8, 0⟩ }, {}, {}, {}]

theorem sharedOperation_usable :
    ParentsUsable (sharedSlotOperation (some ⟨0x1000, 16, teecMemSharedInout, true⟩)) := by
  refine (encodeParam_parents_iff none (fun _ => 0) _ (by decide)).mpr fun i hshared => ?_
  have hi : i = 0 := by
    revert hshared
    fin_cases i <;> decide
  rw [hi]
  exact ⟨_, rfl, by decide⟩

/-- A null parent is accepted and followed. -/
theorem sharedOperation_null :
    checkOperation none (fun _ => 0) (some (sharedSlotOperation none)) = teecSuccess ∧
      ¬ ParentsUsable (sharedSlotOperation none) ∧
      encodeParam 0x7000 (sharedSlotOperation none) = none := by
  refine ⟨by decide, fun h => ?_, by rfl⟩
  obtain ⟨p, hp, -⟩ := h none (by decide)
  cases hp

end ITrustee.Libteec
