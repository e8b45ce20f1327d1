import Mathlib.Tactic
import ITrustee.Foundation.Words
import ITrustee.Libteec.Types

/-!
# Checking an operation

`TEEC_CheckOperation` and the checks of the single parameters it calls. The operation is the
caller's; the check decides whether it is passed on to the encoder.
-/

namespace ITrustee.Libteec

/-- `IS_TEMP_MEM`. -/
def isTempMem (paramType : UInt32) : Bool :=
  paramType == teecMemrefTempInput || paramType == teecMemrefTempOutput ||
    paramType == teecMemrefTempInout

/-- `IS_PARTIAL_MEM`. -/
def isPartialMem (paramType : UInt32) : Bool :=
  paramType == teecMemrefWhole || paramType == teecMemrefPartialInput ||
    paramType == teecMemrefPartialOutput || paramType == teecMemrefPartialInout

/-- `IS_VALUE_MEM`. -/
def isValueMem (paramType : UInt32) : Bool :=
  paramType == teecValueInput || paramType == teecValueOutput || paramType == teecValueInout

/-- `IS_SHARED_MEM`. -/
def isSharedMem (paramType : UInt32) : Bool :=
  paramType == teecMemrefSharedInout || paramType == teecMemrefRegisterInout

/-- The local `checkValue` of the check and of the encoder. -/
def isIon (paramType : UInt32) : Bool :=
  paramType == teecIonInput || paramType == teecIonSglistInput

/-- `TEEC_PARAM_TYPE_GET` of the operation's type word. -/
def Operation.paramType (operation : Operation) (paramCnt : Fin 4) : UInt32 :=
  Words.nibble operation.paramTypes (UInt32.ofNat paramCnt)

def checkTmpRef (tmpref : TempMemoryReference) : UInt32 :=
  if tmpref.buffer = 0 ∧ tmpref.size ≠ 0 then teecErrorBadParameters
  else if tmpref.buffer ≠ 0 ∧ tmpref.size = 0 then teecErrorBadParameters
  else teecSuccess

/-- `CheckSharedBufferExist`; `lockRet` is what locking the context's list returns. -/
def checkSharedBufferExist (context : Option ContextHidl) (lockRet : Int) (shm : SharedMemory) :
    Bool :=
  match context with
  | none => false
  | some context =>
      if lockRet ≠ 0 then false
      else context.shrdMemList.any fun tempSharedMem => tempSharedMem.buffer == shm.buffer

def checkMemRef (context : Option ContextHidl) (lockRet : Int)
    (memref : RegisteredMemoryReference) (paramType : UInt32) : UInt32 :=
  match memref.parent with
  | none => teecErrorBadParameters
  | some parent =>
      if parent.buffer = 0 then teecErrorBadParameters
      else if parent.size = 0 then teecErrorBadParameters
      else if paramType = teecMemrefPartialInput ∧ parent.flags &&& teecMemInput = 0 then
        teecErrorBadParameters
      else if paramType = teecMemrefPartialOutput ∧ parent.flags &&& teecMemOutput = 0 then
        teecErrorBadParameters
      else if paramType = teecMemrefPartialInout ∧
          (parent.flags &&& teecMemInput = 0 ∨ parent.flags &&& teecMemOutput = 0) then
        teecErrorBadParameters
      else if (paramType = teecMemrefPartialInput ∨ paramType = teecMemrefPartialOutput ∨
          paramType = teecMemrefPartialInout) ∧ parent.size < memref.offset + memref.size then
        teecErrorBadParameters
      else if parent.isAllocated ∧ !checkSharedBufferExist context lockRet parent then
        teecErrorBadParameters
      else teecSuccess

/-- One round of the loop of `TEEC_CheckOperation`. -/
def checkParam (context : Option ContextHidl) (lockRet : Int) (paramType : UInt32)
    (param : Parameter) : UInt32 :=
  if isTempMem paramType then checkTmpRef param.tmpref
  else if isPartialMem paramType then checkMemRef context lockRet param.memref paramType
  else if isValueMem paramType then teecSuccess
  else if isIon paramType then
    if param.ionref.ionShareFd < 0 ∨ param.ionref.ionSize = 0 then teecErrorBadParameters
    else teecSuccess
  else if paramType = teecNone ∨ isSharedMem paramType then teecSuccess
  else teecErrorBadParameters

instance slots_neZero : NeZero (4 : Nat) := ⟨by decide⟩

/-- The loop of `TEEC_CheckOperation` over the slots still to check; the first failing check ends
it. -/
def checkLoop (context : Option ContextHidl) (lockRets : Fin 4 → Int) (operation : Operation) :
    List (Fin 4) → UInt32
  | [] => teecSuccess
  | paramCnt :: rest =>
      let ret := checkParam context (lockRets paramCnt) (operation.paramType paramCnt)
        (operation.params paramCnt)
      if ret ≠ teecSuccess then ret else checkLoop context lockRets operation rest

/-- `TEEC_CheckOperation`; `lockRets` are the results of locking the context's list, slot by slot. -/
def checkOperation (context : Option ContextHidl) (lockRets : Fin 4 → Int)
    (operation : Option Operation) : UInt32 :=
  match operation with
  | none => teecSuccess
  | some operation =>
      if operation.started = 0 then teecErrorNotImplemented
      else checkLoop context lockRets operation [0, 1, 2, 3]

/-! ### What an accepted operation satisfies -/

variable {context : Option ContextHidl} {lockRets : Fin 4 → Int} {operation : Operation}

private theorem checkLoop_success {slots : List (Fin 4)}
    (h : checkLoop context lockRets operation slots = teecSuccess) : ∀ i ∈ slots,
      checkParam context (lockRets i) (operation.paramType i) (operation.params i) =
        teecSuccess := by
  induction slots with
  | nil => simp
  | cons paramCnt rest ih =>
      rw [checkLoop] at h
      split_ifs at h with hret
      · exact absurd h hret
      · intro i hi
        rcases List.mem_cons.mp hi with rfl | hi
        · exact not_not.mp hret
        · exact ih h i hi

/-- An accepted operation passes the check of every slot. -/
theorem checkOperation_success
    (h : checkOperation context lockRets (some operation) = teecSuccess) (i : Fin 4) :
    checkParam context (lockRets i) (operation.paramType i) (operation.params i) =
      teecSuccess := by
  rw [checkOperation] at h
  split_ifs at h
  · exact absurd h (by decide)
  · exact checkLoop_success h i (by fin_cases i <;> decide)

theorem rejected_if_iff {c : Prop} [Decidable c] {ret : UInt32} :
    (if c then teecErrorBadParameters else ret) = teecSuccess ↔ ¬ c ∧ ret = teecSuccess := by
  by_cases hc : c
  · simp only [hc, if_true, not_true_eq_false, false_and, iff_false]
    decide
  · simp [hc]

/-- A reference that passes `TEEC_CheckMemRef` has a parent with a buffer and a size, and the sum of
offset and size, as the check computes it, is at most the parent's size. -/
theorem checkMemRef_success {lockRet : Int} {memref : RegisteredMemoryReference}
    {paramType : UInt32} (h : checkMemRef context lockRet memref paramType = teecSuccess) :
    ∃ parent, memref.parent = some parent ∧ parent.buffer ≠ 0 ∧ parent.size ≠ 0 ∧
      ((paramType = teecMemrefPartialInput ∨ paramType = teecMemrefPartialOutput ∨
        paramType = teecMemrefPartialInout) → memref.offset + memref.size ≤ parent.size) := by
  unfold checkMemRef at h
  cases hparent : memref.parent with
  | none =>
      simp only [hparent] at h
      exact absurd h (show teecErrorBadParameters ≠ teecSuccess by decide)
  | some parent =>
      simp only [hparent, rejected_if_iff] at h
      obtain ⟨hbuffer, hsize, _, _, _, hsum, _⟩ := h
      refine ⟨parent, rfl, hbuffer, hsize, fun htype => ?_⟩
      exact UInt32.not_lt.mp fun hlt => hsum ⟨htype, hlt⟩

/-- What an accepted operation satisfies in a slot that refers to a block. -/
theorem checkOperation_memRef
    (hcheck : checkOperation context lockRets (some operation) = teecSuccess) {i : Fin 4}
    (htype : isPartialMem (operation.paramType i)) :
    ∃ parent, (operation.params i).memref.parent = some parent ∧ parent.buffer ≠ 0 ∧
      parent.size ≠ 0 ∧
      ((operation.paramType i = teecMemrefPartialInput ∨
          operation.paramType i = teecMemrefPartialOutput ∨
          operation.paramType i = teecMemrefPartialInout) →
        (operation.params i).memref.offset + (operation.params i).memref.size ≤ parent.size) := by
  have hslot := checkOperation_success hcheck i
  have htemp : isTempMem (operation.paramType i) = false := by
    generalize operation.paramType i = t at htype
    simp only [isPartialMem, Bool.or_eq_true, beq_iff_eq] at htype
    rcases htype with (((rfl | rfl) | rfl) | rfl) <;> decide
  rw [checkParam, if_neg (by simp [htemp]), if_pos htype] at hslot
  exact checkMemRef_success hslot

end ITrustee.Libteec
