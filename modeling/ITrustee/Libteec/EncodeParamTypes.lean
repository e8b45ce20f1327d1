import Mathlib.Tactic
import ITrustee.Libteec.EncodeParam

/-!
# The parameter types the driver sees

A type word says of every slot what the slot holds and in which direction it travels. The encoder
rewrites the types of block references: a whole-block reference takes its direction from the block,
and a reference to a block the library did not allocate becomes a temporary one by a subtraction that
is meant for the partial types. Shared and registered slots take part in that subtraction too, where
it lands among the value types, and the check never looks at their parent.
-/

namespace ITrustee.Libteec

open Words

inductive ParamClass where
  | none
  | value
  | memref
  | ion
  deriving DecidableEq

inductive Direction where
  | input
  | output
  | inout
  deriving DecidableEq

/-- What a parameter type says the slot holds. -/
def typeClass (paramType : UInt32) : Option ParamClass :=
  if paramType = teecNone then some .none
  else if isValueMem paramType then some .value
  else if isTempMem paramType ∨ isPartialMem paramType ∨ isSharedMem paramType then some .memref
  else if isIon paramType then some .ion
  else none

/-- The direction a parameter type says; a whole-block reference says none of its own. -/
def typeDirection (paramType : UInt32) : Option Direction :=
  if paramType ∈ [teecValueInput, teecMemrefTempInput, teecIonInput, teecIonSglistInput,
      teecMemrefPartialInput] then some .input
  else if paramType ∈ [teecValueOutput, teecMemrefTempOutput, teecMemrefPartialOutput] then
    some .output
  else if paramType ∈ [teecValueInout, teecMemrefTempInout, teecMemrefSharedInout,
      teecMemrefRegisterInout, teecMemrefPartialInout] then some .inout
  else none

/-- The direction of a block by its flags. -/
def flagsDirection (flags : UInt32) : Option Direction :=
  if flags = teecMemInput then some .input
  else if flags = teecMemOutput then some .output
  else if flags ∈ [teecMemInout, teecMemSharedInout, teecMemRegisterInout] then some .inout
  else none

/-- The direction the client declared for a slot: that of its type, or of the block for a whole-block
reference. -/
def declaredDirection (operation : Operation) (i : Fin 4) : Option Direction :=
  if operation.paramType i = teecMemrefWhole then
    (operation.params i).memref.parent.bind fun parent => flagsDirection parent.flags
  else typeDirection (operation.paramType i)

def ClientParam.class : ClientParam → ParamClass
  | none => .none
  | memref _ => .memref
  | value _ => .value
  | ion _ => .ion

/-- A type for the driver says what a slot was filled with and the direction the client declared. -/
structure TypeAgrees (operation : Operation) (i : Fin 4) (driverType : UInt32)
    (param : ClientParam) : Prop where
  class_eq : typeClass driverType = some param.class
  direction : ∀ d, declaredDirection operation i = some d → typeDirection driverType = some d

/-- The operation is encoded, and every slot of the driver's type word agrees with its slot. -/
def EncodedTypesAgree (opAddr : UInt64) (operation : Operation) : Prop :=
  ∃ cliContext operation', encodeParam opAddr operation = some (cliContext, operation') ∧
    ∀ i, TypeAgrees operation i (nibble cliContext.paramTypes (UInt32.ofNat i))
      (cliContext.params i)

/-- Slot `i`, if it is a shared or registered one, refers to a block the library allocated. -/
def SharedParentAllocated (operation : Operation) (i : Fin 4) : Prop :=
  isSharedMem (operation.paramType i) →
    ∃ parent, (operation.params i).memref.parent = some parent ∧ parent.isAllocated = true

/-- What a reference to a block is encoded as. -/
def driverMemrefType (paramType : UInt32) (parent : SharedMemory) : UInt32 :=
  let driverType :=
    if paramType = teecMemrefWhole then translateParamType parent.flags else paramType
  if !parent.isAllocated then driverType - (teecMemrefPartialInput - teecMemrefTempInput)
  else driverType

/-! ### The types of block references -/

theorem translateParamType_cases (flags : UInt32) :
    (flagsDirection flags = some .input ∧ translateParamType flags = teecMemrefPartialInput) ∨
      (flagsDirection flags = some .output ∧
        translateParamType flags = teecMemrefPartialOutput) ∨
      ((∀ d, flagsDirection flags = some d → d = .inout) ∧
        translateParamType flags = teecMemrefPartialInout) := by
  by_cases hinput : flags = teecMemInput
  · subst hinput
    exact Or.inl (by decide)
  · by_cases houtput : flags = teecMemOutput
    · subst houtput
      exact Or.inr (Or.inl (by decide))
    · refine Or.inr (Or.inr ⟨fun d hd => ?_, ?_⟩)
      · rw [flagsDirection, if_neg hinput, if_neg houtput] at hd
        split_ifs at hd
        exact (Option.some.inj hd).symm
      · rw [translateParamType, if_neg hinput, if_neg houtput, ite_self]

theorem driverMemrefType_of_ne {paramType : UInt32} (h : paramType ≠ teecMemrefWhole)
    (parent : SharedMemory) : driverMemrefType paramType parent =
      if !parent.isAllocated then paramType - (teecMemrefPartialInput - teecMemrefTempInput)
      else paramType := by
  rw [driverMemrefType, if_neg h]

/-- A partial type, or what the subtraction makes of it, is that of a memory reference in the same
direction. -/
theorem partialType_shifted {paramType : UInt32}
    (h : paramType = teecMemrefPartialInput ∨ paramType = teecMemrefPartialOutput ∨
      paramType = teecMemrefPartialInout) (allocated : Bool) :
    typeClass (if !allocated then paramType - (teecMemrefPartialInput - teecMemrefTempInput)
        else paramType) = some .memref ∧
      typeDirection (if !allocated then paramType - (teecMemrefPartialInput - teecMemrefTempInput)
        else paramType) = typeDirection paramType := by
  rcases h with rfl | rfl | rfl <;> cases allocated <;> decide

variable {opAddr : UInt64} {operation : Operation} {i : Fin 4}

theorem driverMemrefType_partial {parent : SharedMemory}
    (htype : isPartialMem (operation.paramType i))
    (hparent : (operation.params i).memref.parent = some parent) (m : ClientMemref) :
    TypeAgrees operation i (driverMemrefType (operation.paramType i) parent) (.memref m) := by
  by_cases hwhole : operation.paramType i = teecMemrefWhole
  · have hdeclared : declaredDirection operation i = flagsDirection parent.flags := by
      rw [declaredDirection, if_pos hwhole, hparent, Option.bind_some]
    rw [driverMemrefType, hwhole]
    simp only [if_true]
    rcases translateParamType_cases parent.flags with ⟨hflags, htrans⟩ | ⟨hflags, htrans⟩ |
      ⟨hflags, htrans⟩
    · obtain ⟨hclass, hdirection⟩ := partialType_shifted (Or.inl rfl) parent.isAllocated
      rw [htrans]
      refine ⟨hclass, fun d hd => ?_⟩
      rw [hdeclared, hflags] at hd
      rw [hdirection, ← hd]
      decide
    · obtain ⟨hclass, hdirection⟩ := partialType_shifted (Or.inr (Or.inl rfl)) parent.isAllocated
      rw [htrans]
      refine ⟨hclass, fun d hd => ?_⟩
      rw [hdeclared, hflags] at hd
      rw [hdirection, ← hd]
      decide
    · obtain ⟨hclass, hdirection⟩ := partialType_shifted (Or.inr (Or.inr rfl)) parent.isAllocated
      rw [htrans]
      refine ⟨hclass, fun d hd => ?_⟩
      rw [hdeclared] at hd
      rw [hdirection, hflags d hd]
      decide
  · have hpart : operation.paramType i = teecMemrefPartialInput ∨
        operation.paramType i = teecMemrefPartialOutput ∨
        operation.paramType i = teecMemrefPartialInout := by
      simpa [isPartialMem, hwhole, or_assoc] using htype
    obtain ⟨hclass, hdirection⟩ := partialType_shifted hpart parent.isAllocated
    rw [driverMemrefType_of_ne hwhole]
    refine ⟨hclass, fun d hd => ?_⟩
    rwa [declaredDirection, if_neg hwhole, ← hdirection] at hd

/-- A shared or registered type stays one for an allocated block and becomes a value type for any
other. -/
theorem driverMemrefType_shared {parent : SharedMemory}
    (htype : isSharedMem (operation.paramType i)) (m : ClientMemref) :
    TypeAgrees operation i (driverMemrefType (operation.paramType i) parent) (.memref m) ↔
      parent.isAllocated = true := by
  have hcases : operation.paramType i = teecMemrefSharedInout ∨
      operation.paramType i = teecMemrefRegisterInout := by
    simpa [isSharedMem] using htype
  have hwhole : operation.paramType i ≠ teecMemrefWhole := by
    rcases hcases with h | h <;> rw [h] <;> decide
  have hdeclared : declaredDirection operation i = some .inout := by
    rw [declaredDirection, if_neg hwhole]
    rcases hcases with h | h <;> rw [h] <;> rfl
  rw [driverMemrefType_of_ne hwhole]
  constructor
  · intro hagrees
    by_contra hallocated
    have hclass := hagrees.class_eq
    have hregistered : parent.isAllocated = false := Bool.eq_false_iff.mpr hallocated
    rw [hregistered] at hclass
    rcases hcases with h | h <;> rw [h] at hclass
    · exact absurd hclass (show typeClass 2 ≠ some .memref by decide)
    · exact absurd hclass (show typeClass 3 ≠ some .memref by decide)
  · intro hallocated
    refine ⟨?_, fun d hd => ?_⟩
    · rw [hallocated]
      rcases hcases with h | h <;> rw [h] <;> rfl
    · rw [hdeclared] at hd
      rw [← hd, hallocated]
      rcases hcases with h | h <;> rw [h] <;> rfl

/-! ### Slots -/

/-- The slots that do not refer to a block keep their type, which fits what they are filled with. -/
theorem encodeSlot_other {context : Option ContextHidl} {lockRet : Int}
    (hcheck : checkParam context lockRet (operation.paramType i) (operation.params i) =
      teecSuccess)
    (hpart : ¬ isPartialMem (operation.paramType i))
    (hshared : ¬ isSharedMem (operation.paramType i)) :
    ∃ slot, encodeSlot opAddr operation i = some slot ∧
      TypeAgrees operation i slot.paramType slot.param := by
  have hwhole : operation.paramType i ≠ teecMemrefWhole := by
    intro h
    exact hpart (by rw [h]; decide)
  have hdirection : ∀ d, declaredDirection operation i = some d →
      typeDirection (operation.paramType i) = some d := by
    intro d hd
    rwa [declaredDirection, if_neg hwhole] at hd
  rw [encodeSlot]
  by_cases htemp : isTempMem (operation.paramType i)
  · refine ⟨_, by simp only [htemp, if_true]; rfl, ?_, hdirection⟩
    have hcases : operation.paramType i = teecMemrefTempInput ∨
        operation.paramType i = teecMemrefTempOutput ∨
        operation.paramType i = teecMemrefTempInout := by
      simpa [isTempMem, or_assoc] using htemp
    rcases hcases with h | h | h <;> rw [h] <;> rfl
  · by_cases hvalue : isValueMem (operation.paramType i)
    · refine ⟨_, by simp only [htemp, hpart, hshared, hvalue, or_self, if_true,
        Bool.false_eq_true, if_false]; rfl, ?_, hdirection⟩
      have hcases : operation.paramType i = teecValueInput ∨
          operation.paramType i = teecValueOutput ∨ operation.paramType i = teecValueInout := by
        simpa [isValueMem, or_assoc] using hvalue
      rcases hcases with h | h | h <;> rw [h] <;> rfl
    · by_cases hion : isIon (operation.paramType i)
      · refine ⟨_, by simp only [htemp, hpart, hshared, hvalue, hion, or_self, if_true,
          Bool.false_eq_true, if_false]; rfl, ?_, hdirection⟩
        have hcases : operation.paramType i = teecIonInput ∨
            operation.paramType i = teecIonSglistInput := by
          simpa [isIon] using hion
        rcases hcases with h | h <;> rw [h] <;> rfl
      · refine ⟨_, by simp only [htemp, hpart, hshared, hvalue, hion, or_self,
          Bool.false_eq_true, if_false]; rfl, ?_, hdirection⟩
        have hnone : operation.paramType i = teecNone := by
          by_contra hnone
          rw [checkParam, if_neg htemp, if_neg hpart, if_neg hvalue, if_neg hion,
            if_neg (by simp [hnone, hshared])] at hcheck
          exact absurd hcheck (by decide)
        rw [hnone]
        rfl

/-- A checked slot is encoded and its type agrees, unless it is a shared or registered one without an
allocated parent. -/
theorem encodeSlot_agrees_iff (opAddr : UInt64) {context : Option ContextHidl} {lockRet : Int}
    (hcheck : checkParam context lockRet (operation.paramType i) (operation.params i) =
      teecSuccess) :
    (∃ slot, encodeSlot opAddr operation i = some slot ∧
      TypeAgrees operation i slot.paramType slot.param) ↔ SharedParentAllocated operation i := by
  by_cases hpart : isPartialMem (operation.paramType i)
  · have hshared : isSharedMem (operation.paramType i) = false := by
      generalize operation.paramType i = t at hpart
      simp only [isPartialMem, Bool.or_eq_true, beq_iff_eq] at hpart
      rcases hpart with (((rfl | rfl) | rfl) | rfl) <;> decide
    have htemp : isTempMem (operation.paramType i) = false := by
      generalize operation.paramType i = t at hpart
      simp only [isPartialMem, Bool.or_eq_true, beq_iff_eq] at hpart
      rcases hpart with (((rfl | rfl) | rfl) | rfl) <;> decide
    rw [checkParam, if_neg (by simp [htemp]), if_pos hpart] at hcheck
    obtain ⟨parent, hparent, _⟩ := checkMemRef_success hcheck
    obtain ⟨parameter, hslot, _⟩ := encodeSlot_memref opAddr (Or.inl hpart) hparent
    constructor
    · intro _ h
      rw [hshared] at h
      exact absurd h (by decide)
    · intro _
      exact ⟨_, hslot, driverMemrefType_partial hpart hparent _⟩
  · by_cases hshared : isSharedMem (operation.paramType i)
    · cases hparent : (operation.params i).memref.parent with
      | none =>
          have htemp : isTempMem (operation.paramType i) = false := by
            generalize operation.paramType i = t at hshared
            simp only [isSharedMem, Bool.or_eq_true, beq_iff_eq] at hshared
            rcases hshared with (rfl | rfl) <;> decide
          constructor
          · rintro ⟨slot, hslot, _⟩
            rw [encodeSlot] at hslot
            simp [htemp, hshared, hparent] at hslot
          · intro h
            obtain ⟨parent, hsome, _⟩ := h hshared
            simp [hparent] at hsome
      | some parent =>
          obtain ⟨parameter, hslot, _⟩ :=
            encodeSlot_memref opAddr (Or.inr hshared) hparent
          constructor
          · rintro ⟨slot, hslot', hagrees⟩ _
            rw [hslot, Option.some.injEq] at hslot'
            subst hslot'
            exact ⟨parent, hparent, (driverMemrefType_shared hshared _).mp hagrees⟩
          · intro h
            obtain ⟨parent', hsome, hallocated⟩ := h hshared
            obtain rfl := Option.some.inj (hparent.symm.trans hsome)
            exact ⟨_, hslot, (driverMemrefType_shared hshared _).mpr hallocated⟩
    · constructor
      · intro _ h
        exact absurd h hshared
      · intro _
        exact encodeSlot_other hcheck hpart hshared

/-! ### The type word -/

theorem driverMemrefType_lt {paramType : UInt32}
    (htype : isPartialMem paramType ∨ isSharedMem paramType) (parent : SharedMemory) :
    (driverMemrefType paramType parent).toNat < 16 := by
  rw [driverMemrefType]
  simp only [isPartialMem, isSharedMem, Bool.or_eq_true, beq_iff_eq] at htype
  rcases htype with ((((rfl | rfl) | rfl) | rfl) | rfl | rfl)
  · rw [if_pos rfl]
    rcases translateParamType_cases parent.flags with ⟨_, h⟩ | ⟨_, h⟩ | ⟨_, h⟩ <;> rw [h] <;>
      cases parent.isAllocated <;> decide
  all_goals
    rw [← driverMemrefType, driverMemrefType_of_ne (by decide)]
    cases parent.isAllocated <;> decide

theorem encodeSlot_paramType_lt {slot : EncodedSlot}
    (h : encodeSlot opAddr operation i = some slot) : slot.paramType.toNat < 16 := by
  have hkept : (operation.paramType i).toNat < 16 := nibble_lt _ _
  by_cases hmemref : isPartialMem (operation.paramType i) ∨ isSharedMem (operation.paramType i)
  · cases hparent : (operation.params i).memref.parent with
    | none =>
        rw [encodeSlot] at h
        simp only [hmemref, if_true, hparent] at h
        split_ifs at h
        obtain rfl := Option.some.inj h
        exact hkept
    | some parent =>
        obtain ⟨parameter, hslot, _⟩ := encodeSlot_memref opAddr hmemref hparent
        obtain rfl := Option.some.inj (hslot.symm.trans h)
        exact driverMemrefType_lt hmemref parent
  · rw [encodeSlot] at h
    simp only [hmemref, if_false] at h
    split_ifs at h <;>
      · obtain rfl := Option.some.inj h
        exact hkept

/-- A checked operation is encoded with types that agree with its slots exactly when every shared or
registered slot refers to a block the library allocated. -/
theorem encodeParam_types_iff (context : Option ContextHidl) (lockRets : Fin 4 → Int)
    (operation : Operation) (opAddr : UInt64)
    (hcheck : checkOperation context lockRets (some operation) = teecSuccess) :
    EncodedTypesAgree opAddr operation ↔ ∀ i, SharedParentAllocated operation i := by
  have hslots := fun i =>
    encodeSlot_agrees_iff opAddr (checkOperation_success hcheck i)
  constructor
  · rintro ⟨cliContext, operation', hencode, hagrees⟩ i
    obtain ⟨slot, hslot, hparam, htypes, _⟩ := encodeParam_slots hencode
    have hword := nibble_packNibbles (fun j => encodeSlot_paramType_lt (hslot j)) i
    have hagree := hagrees i
    rw [htypes, hword, hparam] at hagree
    exact (hslots i).mp ⟨slot i, hslot i, hagree⟩
  · intro hshared
    have hslot := fun i => (hslots i).mpr (hshared i)
    choose slot hslot hagree using hslot
    refine ⟨_, _, encodeParam_of_slots hslot, fun i => ?_⟩
    have hword := nibble_packNibbles (fun j => encodeSlot_paramType_lt (hslot j)) i
    rw [hword]
    exact hagree i

/-- An operation whose only parameter is a shared reference. -/
def sharedOperation (parent : SharedMemory) : Operation where
  started := 1
  paramTypes := packNibbles teecMemrefSharedInout teecNone teecNone teecNone
  params := ![{ memref := ⟨some parent, 8, 0⟩ }, {}, {}, {}]

theorem sharedOperation_allocated_agree :
    EncodedTypesAgree 0x7000 (sharedOperation ⟨0x1000, 16, teecMemSharedInout, true⟩) := by
  refine (encodeParam_types_iff none (fun _ => 0) _ 0x7000 (by decide)).mpr fun i => ?_
  intro hshared
  fin_cases i
  · exact ⟨_, rfl, rfl⟩
  all_goals exact absurd hshared (by decide)

/-- With a registered block as its parent the slot is announced to the driver as a value. -/
theorem sharedOperation_registered_disagree :
    checkOperation none (fun _ => 0)
        (some (sharedOperation ⟨0x1000, 16, teecMemSharedInout, false⟩)) = teecSuccess ∧
      ¬ EncodedTypesAgree 0x7000 (sharedOperation ⟨0x1000, 16, teecMemSharedInout, false⟩) := by
  refine ⟨by decide, ?_⟩
  rintro ⟨cliContext, operation', hencode, hagrees⟩
  obtain ⟨rfl, rfl⟩ := Prod.mk.inj (Option.some.inj hencode)
  have hclass := (hagrees 0).class_eq
  exact absurd hclass (show some ParamClass.value ≠ some .memref by decide)

end ITrustee.Libteec
