import Mathlib
import ITrustee.Foundation.Words
import ITrustee.Libteec.Operation

/-!
# Encoding the parameters of an operation

`TEEC_EncodeParam` turns the four parameters of a checked operation into the context handed to the
driver: addresses split into halves, and a word of four parameter types. `encodeSlot` is one round of
its loop; it is `none` where the code follows a null parent pointer.
-/

namespace ITrustee.Libteec

open Words

/-- The `memref` member of `TC_NS_ClientParam`. Its `h_offset` is never written and stays zero. -/
structure ClientMemref where
  buffer : UInt32
  bufferHAddr : UInt32
  offset : UInt32 := 0
  sizeAddr : UInt32
  sizeHAddr : UInt32
  deriving DecidableEq

/-- The `value` member of `TC_NS_ClientParam`. -/
structure ClientValue where
  aAddr : UInt32
  aHAddr : UInt32
  bAddr : UInt32
  bHAddr : UInt32
  deriving DecidableEq

/-- `TC_NS_ClientParam`, zero or with the member that was filled. The encoder fills the `value` member
for values and for ion references alike; `ion` tells the second use from the first. -/
inductive ClientParam where
  | none
  | memref (m : ClientMemref)
  | value (v : ClientValue)
  | ion (v : ClientValue)
  deriving DecidableEq

/-- The part of `TC_NS_ClientContext` that `TEEC_EncodeParam` fills. -/
structure ClientContext where
  params : Fin 4 → ClientParam
  paramTypes : UInt32

/-- The address of a parameter of the operation at an address. -/
def paramAddr (operation : UInt64) (paramCnt : Fin 4) : UInt64 :=
  operation + 8 + 16 * UInt64.ofNat paramCnt

/-- The offset of `size` in `TEEC_TempMemoryReference` and in `TEEC_RegisteredMemoryReference`. -/
def sizeOffset : UInt64 := 8

/-- The offset of the second member of `TEEC_Value` and of `TEEC_IonReference`. -/
def secondOffset : UInt64 := 4

def translateParamType (flag : UInt32) : UInt32 :=
  if flag = teecMemInput then teecMemrefPartialInput
  else if flag = teecMemOutput then teecMemrefPartialOutput
  else if flag = teecMemInout then teecMemrefPartialInout
  else teecMemrefPartialInout

def encodeTempParam (tempRef : TempMemoryReference) (tempRefAddr : UInt64) : ClientMemref where
  buffer := lowHalf tempRef.buffer
  bufferHAddr := highHalf tempRef.buffer
  sizeAddr := lowHalf (tempRefAddr + sizeOffset)
  sizeHAddr := highHalf (tempRefAddr + sizeOffset)

/-- `TEEC_EncodePartialParam`: the reference it leaves, whose size a whole-block reference takes from
the parent, and the encoded parameter. -/
def encodePartialParam (paramType : UInt32) (memRef : RegisteredMemoryReference)
    (memRefAddr : UInt64) (parent : SharedMemory) : RegisteredMemoryReference × ClientMemref :=
  let offset := if paramType = teecMemrefWhole then 0 else memRef.offset
  let memRef := if paramType = teecMemrefWhole then { memRef with size := parent.size } else memRef
  let sizeAddr := memRefAddr + sizeOffset
  if parent.isAllocated then
    (memRef,
      { buffer := lowHalf parent.buffer
        bufferHAddr := highHalf parent.buffer
        offset := offset
        sizeAddr := lowHalf sizeAddr
        sizeHAddr := highHalf sizeAddr })
  else
    let buffer := parent.buffer + memRef.offset.toUInt64
    (memRef,
      { buffer := lowHalf buffer
        bufferHAddr := highHalf buffer
        offset := 0
        sizeAddr := lowHalf sizeAddr
        sizeHAddr := highHalf sizeAddr })

/-- `TEEC_EncodeValueParam` and `TEEC_EncodeIonParam`: the addresses of the two members. -/
def encodeValueParam (valAddr : UInt64) : ClientValue where
  aAddr := lowHalf valAddr
  aHAddr := highHalf valAddr
  bAddr := lowHalf (valAddr + secondOffset)
  bHAddr := highHalf (valAddr + secondOffset)

/-- What one round of the loop produces: the encoded parameter, the type for the driver, and the
operation's parameter afterwards. -/
structure EncodedSlot where
  param : ClientParam
  paramType : UInt32
  parameter : Parameter

/-- One round of the loop of `TEEC_EncodeParam`. -/
def encodeSlot (opAddr : UInt64) (operation : Operation) (paramCnt : Fin 4) :
    Option EncodedSlot :=
  let diff := teecMemrefPartialInput - teecMemrefTempInput
  let paramType := operation.paramType paramCnt
  let parameter := operation.params paramCnt
  let addr := paramAddr opAddr paramCnt
  if isTempMem paramType then
    some ⟨.memref (encodeTempParam parameter.tmpref addr), paramType, parameter⟩
  else if isPartialMem paramType ∨ isSharedMem paramType then
    match parameter.memref.parent with
    | none => none
    | some parent =>
        let (memref, param) := encodePartialParam paramType parameter.memref addr parent
        let tmpref := { parameter.tmpref with size := memref.size }
        let driverType :=
          if paramType = teecMemrefWhole then translateParamType parent.flags else paramType
        let driverType := if !parent.isAllocated then driverType - diff else driverType
        some ⟨.memref param, driverType, { parameter with memref := memref, tmpref := tmpref }⟩
  else if isValueMem paramType then
    some ⟨.value (encodeValueParam addr), paramType, parameter⟩
  else if isIon paramType then
    some ⟨.ion (encodeValueParam addr), paramType, parameter⟩
  else some ⟨.none, paramType, parameter⟩

/-- `TEEC_EncodeParam` on the operation at `opAddr`: the encoded context, and the operation
afterwards. -/
def encodeParam (opAddr : UInt64) (operation : Operation) : Option (ClientContext × Operation) := do
  let slot0 ← encodeSlot opAddr operation 0
  let slot1 ← encodeSlot opAddr operation 1
  let slot2 ← encodeSlot opAddr operation 2
  let slot3 ← encodeSlot opAddr operation 3
  let slot := ![slot0, slot1, slot2, slot3]
  let paramTypes :=
    packNibbles slot0.paramType slot1.paramType slot2.paramType slot3.paramType
  return ({ params := fun i => (slot i).param, paramTypes := paramTypes },
    { operation with params := fun i => (slot i).parameter })

/-! ### Slot by slot -/

variable {opAddr : UInt64} {operation : Operation}

theorem encodeParam_of_slots {slot : Fin 4 → EncodedSlot}
    (h : ∀ i, encodeSlot opAddr operation i = some (slot i)) :
    encodeParam opAddr operation =
      some ({ params := fun i => (slot i).param,
              paramTypes := packNibbles (slot 0).paramType (slot 1).paramType (slot 2).paramType
                (slot 3).paramType },
        { operation with params := fun i => (slot i).parameter }) := by
  have hslot : ![slot 0, slot 1, slot 2, slot 3] = slot := by
    funext i
    fin_cases i <;> rfl
  simp only [encodeParam, h, Option.bind_eq_bind, Option.bind_some, hslot]
  rfl

/-- An encoded operation was encoded slot by slot. -/
theorem encodeParam_slots {cliContext : ClientContext} {operation' : Operation}
    (h : encodeParam opAddr operation = some (cliContext, operation')) :
    ∃ slot : Fin 4 → EncodedSlot, (∀ i, encodeSlot opAddr operation i = some (slot i)) ∧
      (∀ i, cliContext.params i = (slot i).param) ∧
      cliContext.paramTypes = packNibbles (slot 0).paramType (slot 1).paramType (slot 2).paramType
        (slot 3).paramType ∧
      ∀ i, operation'.params i = (slot i).parameter := by
  have hsome : ∀ i, ∃ s, encodeSlot opAddr operation i = some s := by
    intro i
    by_contra hnone
    have hslot : encodeSlot opAddr operation i = none := by
      cases hs : encodeSlot opAddr operation i with
      | none => rfl
      | some s => exact absurd ⟨s, hs⟩ hnone
    fin_cases i <;> simp_all [encodeParam]
  choose slot hslot using hsome
  rw [encodeParam_of_slots hslot, Option.some.injEq, Prod.mk.injEq] at h
  obtain ⟨rfl, rfl⟩ := h
  exact ⟨slot, hslot, fun _ => rfl, rfl, fun _ => rfl⟩

/-- The slots that refer to a parent block, once the parent is known. -/
theorem encodeSlot_memref (opAddr : UInt64) {paramCnt : Fin 4} {parent : SharedMemory}
    (htype : isPartialMem (operation.paramType paramCnt) ∨
      isSharedMem (operation.paramType paramCnt))
    (hparent : (operation.params paramCnt).memref.parent = some parent) :
    ∃ parameter, encodeSlot opAddr operation paramCnt =
        some ⟨.memref (encodePartialParam (operation.paramType paramCnt)
            (operation.params paramCnt).memref (paramAddr opAddr paramCnt) parent).2,
          let driverType := if operation.paramType paramCnt = teecMemrefWhole then
            translateParamType parent.flags else operation.paramType paramCnt
          if !parent.isAllocated then driverType - (teecMemrefPartialInput - teecMemrefTempInput)
          else driverType, parameter⟩ ∧
      parameter.memref = (encodePartialParam (operation.paramType paramCnt)
        (operation.params paramCnt).memref (paramAddr opAddr paramCnt) parent).1 := by
  have htemp : isTempMem (operation.paramType paramCnt) = false := by
    generalize operation.paramType paramCnt = t at htype
    simp only [isPartialMem, isSharedMem, Bool.or_eq_true, beq_iff_eq] at htype
    rcases htype with ((((rfl | rfl) | rfl) | rfl) | rfl | rfl) <;> decide
  rw [encodeSlot]
  simp only [htemp, Bool.false_eq_true, if_false, htype, if_true, hparent]
  exact ⟨_, rfl, rfl⟩

end ITrustee.Libteec
