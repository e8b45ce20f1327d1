import Mathlib.Tactic

/-!
# Data of the client library

The structures of `tee_client_type.h` and `tee_client_inner.h` that the modelled functions read and
write, with the constants of `tee_client_constants.h`. A pointer is its 64-bit address, 0 being
`NULL`; lists linked through the structures are lists.
-/

namespace ITrustee.Libteec

/-! ### Return codes -/

def teecSuccess : UInt32 := 0x0
def teecErrorGeneric : UInt32 := 0xffff0000
def teecErrorBadParameters : UInt32 := 0xffff0006
def teecErrorNotImplemented : UInt32 := 0xffff0009
def teecErrorOutOfMemory : UInt32 := 0xffff000c
def teecErrorSecurity : UInt32 := 0xffff000f
def teecErrorTargetDead : UInt32 := 0xffff3024
def teecFail : UInt32 := 0xffff5002

/-! ### TEEC_SharedMemCtl -/

def teecMemInput : UInt32 := 0x1
def teecMemOutput : UInt32 := 0x2
def teecMemInout : UInt32 := 0x3
def teecMemSharedInout : UInt32 := 0x4
def teecMemRegisterInout : UInt32 := 0x5

/-! ### TEEC_ParamType -/

def teecNone : UInt32 := 0x0
def teecValueInput : UInt32 := 0x01
def teecValueOutput : UInt32 := 0x02
def teecValueInout : UInt32 := 0x03
def teecMemrefTempInput : UInt32 := 0x05
def teecMemrefTempOutput : UInt32 := 0x06
def teecMemrefTempInout : UInt32 := 0x07
def teecIonInput : UInt32 := 0x08
def teecIonSglistInput : UInt32 := 0x09
def teecMemrefSharedInout : UInt32 := 0x0a
def teecMemrefRegisterInout : UInt32 := 0x0b
def teecMemrefWhole : UInt32 := 0xc
def teecMemrefPartialInput : UInt32 := 0xd
def teecMemrefPartialOutput : UInt32 := 0xe
def teecMemrefPartialInout : UInt32 := 0xf

/-! ### Structures -/

/-- `TEEC_SharedMemoryHidl`, the library's own record of a block. -/
structure SharedMemoryHidl where
  buffer : UInt64 := 0
  size : UInt32 := 0
  flags : UInt32 := 0
  opsCnt : UInt32 := 0
  isAllocated : Bool := false
  context : UInt64 := 0
  offset : UInt32 := 0
  deriving DecidableEq

/-- `TEEC_ContextHidl`, at the address `addr`. -/
structure ContextHidl where
  addr : UInt64
  shrdMemList : List SharedMemoryHidl
  shmBitmap : List UInt8
  callFromHidl : Bool
  deriving DecidableEq

/-- `TEEC_SharedMemory`, the client's view of a block. -/
structure SharedMemory where
  buffer : UInt64
  size : UInt32
  flags : UInt32
  isAllocated : Bool
  deriving DecidableEq

/-- `TEEC_TempMemoryReference`. -/
structure TempMemoryReference where
  buffer : UInt64
  size : UInt32
  deriving DecidableEq

/-- `TEEC_RegisteredMemoryReference`; the parent is what its pointer points to. -/
structure RegisteredMemoryReference where
  parent : Option SharedMemory
  size : UInt32
  offset : UInt32
  deriving DecidableEq

/-- `TEEC_IonReference`. -/
structure IonReference where
  ionShareFd : Int32
  ionSize : UInt32
  deriving DecidableEq

/-- `TEEC_Parameter`, a union: what each of its members reads as. The two words of a `TEEC_Value` are
never read here, only their addresses are passed on. -/
structure Parameter where
  tmpref : TempMemoryReference := ⟨0, 0⟩
  memref : RegisteredMemoryReference := ⟨none, 0, 0⟩
  ionref : IonReference := ⟨0, 0⟩
  deriving DecidableEq

/-- `TEEC_Operation`. -/
structure Operation where
  started : UInt32
  paramTypes : UInt32
  params : Fin 4 → Parameter

end ITrustee.Libteec
