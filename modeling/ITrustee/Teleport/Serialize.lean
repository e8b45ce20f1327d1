import Mathlib.Tactic
import ITrustee.Foundation.CInt
import ITrustee.Foundation.Bytes
import ITrustee.Foundation.Securec

/-!
# Argument serialisation between the TEE and the posix proxy

The three functions of `serialize.c`: `CalculateBuffSize` sizes a message, `Serialize` writes it and
`DeSerialize` reads it back. A message is a 32-bit argument count followed, without padding, by one
16-byte storage header per argument, a pointer's header being followed by the bytes it points to.

The variadic argument lists are lists here. `Arg` is what `CalculateBuffSize` and `Serialize` take
for one argument, `ArgRef` what `DeSerialize` takes, and `Decoded` what `DeSerialize` stores through
one reference, together with the offset of the header it read it from. A pointer into the source
buffer is the offset it points to.
-/

namespace ITrustee.Serialize

open CInt

/-- `EINVAL` of `errno.h`. -/
def eInval : Int := 22

/-- `ENOMEM` of `errno.h`. -/
def eNoMem : Int := 12

/-- `INTEGERTYPE` of `DataType_t`. -/
def integerType : Nat := 17

/-- `POINTTYPE` of `DataType_t`. -/
def pointType : Nat := 18

/-- `sizeof(IntegerStorage_t)`: a 64-bit type and a 64-bit value. -/
def sizeofIntegerStorage : Nat := 16

/-- `sizeof(PointStorage_t)`: a 64-bit type and a 64-bit size; the bytes follow. -/
def sizeofPointStorage : Nat := 16

/-- One argument of `CalculateBuffSize` and `Serialize`. A null pointer is `none`, any other pointer
is the bytes found at it. -/
inductive Arg where
  | integer (value : UInt64)
  | point (addr : Option (List UInt8)) (size : Nat)
  | unknown

/-! ### CalculateBuffSize -/

def overflowCheck (a b : Nat) : Bool := u32 a > 2 ^ 32 - 1 - u32 b

/-- The loop of `CalculateBuffSize`: the return value, and the size stored through `retSize`, which
the function stores on its error paths too. -/
def calculateLoop : List Arg → Nat → Int × Nat
  | [], buffSize => (0, buffSize)
  | .integer _ :: args, buffSize =>
      if overflowCheck buffSize sizeofIntegerStorage then (-eInval, buffSize)
      else calculateLoop args (u32 (buffSize + sizeofIntegerStorage))
  | .point _ argBuffSize :: args, buffSize =>
      if overflowCheck sizeofPointStorage argBuffSize ||
          overflowCheck buffSize (u64 (sizeofPointStorage + argBuffSize)) then (-eInval, buffSize)
      else calculateLoop args (u32 (buffSize + u64 (sizeofPointStorage + argBuffSize)))
  | .unknown :: _, buffSize => (-eInval, buffSize)

def calculateBuffSize (args : List Arg) : Int × Nat := calculateLoop args 4

/-! ### Serialize -/

def serializeParamValidCheck (buff : Option (List UInt8)) (buffSize : Nat) : Int :=
  if buff.isNone ∨ buffSize < 4 then -eInval else 0

def serializeInterBuffValidCheck (buffTotalSize offset : Nat) : Int :=
  if buffTotalSize < offset ∨ buffTotalSize - offset < sizeofIntegerStorage then -eNoMem else 0

def serializePointBuffValidCheck (buffTotalSize offset : Nat) : Int :=
  if buffTotalSize < offset ∨ buffTotalSize - offset < sizeofPointStorage then -eNoMem else 0

def interTypeSerialize (destBuff : List UInt8) (destBuffSize byteOffset : Nat)
    (inputArgValue64 : UInt64) : Int × List UInt8 :=
  if serializeInterBuffValidCheck destBuffSize byteOffset ≠ 0 then (-eNoMem, destBuff)
  else
    let destBuff := Bytes.store destBuff byteOffset (Bytes.le 8 integerType)
    (0, Bytes.store destBuff (byteOffset + 8) (Bytes.le 8 inputArgValue64.toNat))

def pointTypeSerialize (lib : Securec) (destBuff : List UInt8) (destBuffSize byteOffset : Nat)
    (inputArgBuffAddr : Option (List UInt8)) (inputArgBuffSize : Nat) : Int × List UInt8 :=
  if serializePointBuffValidCheck destBuffSize byteOffset ≠ 0 then (-eNoMem, destBuff)
  else
    let destBuff := Bytes.store destBuff byteOffset (Bytes.le 8 pointType)
    let buffer := byteOffset + sizeofPointStorage
    let copied := lib.memcpyS (destBuff.drop buffer)
      (destBuffSize - byteOffset - sizeofPointStorage) (inputArgBuffAddr.getD []) inputArgBuffSize
    if inputArgBuffSize ≠ 0 ∧ copied.1 ≠ 0 then (-eNoMem, destBuff.take buffer ++ copied.2)
    else
      let destBuff :=
        if inputArgBuffSize ≠ 0 then destBuff.take buffer ++ copied.2 else destBuff
      (0, Bytes.store destBuff (byteOffset + 8) (Bytes.le 8 inputArgBuffSize))

/-- The loop of `Serialize`: the return value and the destination buffer it leaves. -/
def serializeLoop (lib : Securec) (destBuffSize : Nat) :
    List Arg → List UInt8 → Nat → Int × List UInt8
  | [], destBuff, _ => (0, destBuff)
  | .integer argValue64 :: args, destBuff, byteOffset =>
      let (ret, destBuff) := interTypeSerialize destBuff destBuffSize byteOffset argValue64
      if ret ≠ 0 then (ret, destBuff)
      else serializeLoop lib destBuffSize args destBuff (u32 (byteOffset + sizeofIntegerStorage))
  | .point argBuffAddr argBuffSize :: args, destBuff, byteOffset =>
      if argBuffSize ≠ 0 ∧ argBuffAddr.isNone then (-eInval, destBuff)
      else
        let (ret, destBuff) :=
          pointTypeSerialize lib destBuff destBuffSize byteOffset argBuffAddr argBuffSize
        if ret ≠ 0 then (ret, destBuff)
        else serializeLoop lib destBuffSize args destBuff
          (u32 (byteOffset + u64 (sizeofPointStorage + argBuffSize)))
  | .unknown :: _, destBuff, _ => (-eInval, destBuff)

/-- `Serialize`; the argument count is the number of arguments passed. -/
def serialize (lib : Securec) (args : List Arg) (destBuff : Option (List UInt8))
    (destBuffSize : UInt32) : Int × List UInt8 :=
  if serializeParamValidCheck destBuff destBuffSize.toNat ≠ 0 then (-eInval, destBuff.getD [])
  else
    let destBuff := Bytes.store (destBuff.getD []) 0 (Bytes.le 4 args.length)
    serializeLoop lib destBuffSize.toNat args destBuff 4

/-! ### DeSerialize -/

/-- One argument of `DeSerialize`: the expected type, and whether the reference to store the value
through is not null. -/
inductive ArgRef where
  | integer (ref : Bool)
  | point (ref : Bool)
  | unknown
  deriving DecidableEq

/-- What `DeSerialize` stores through one reference: a 64-bit value, or a pointer into the source
buffer, null when the size is zero. -/
inductive RetArg where
  | integer (value : UInt64)
  | point (ref : Option Nat) (size : Nat)
  deriving DecidableEq

/-- A decoded argument and the offset of its storage header in the source buffer. -/
structure Decoded where
  header : Nat
  arg : RetArg
  deriving DecidableEq

def deSerializeParamValidCheck (argCount : Nat) (buff : Option (List UInt8)) (buffSize : Nat) :
    Int :=
  if buff.isNone ∨ buffSize < 4 then -eInval
  else if Bytes.load 4 (buff.getD []) 0 ≠ argCount then -eInval else 0

/-- `ParamTypeCheck`; the stored type is converted to the 32-bit `DataType_t` by the callers. -/
def paramTypeCheck (src dest : Nat) : Int := if src ≠ dest then -eInval else 0

def interTypeDeserialize (srcBuff : List UInt8) (srcBuffSize byteOffset : Nat) :
    Except Int UInt64 :=
  if serializeInterBuffValidCheck srcBuffSize byteOffset ≠ 0 then .error (-eNoMem)
  else if paramTypeCheck (u32 (Bytes.load 8 srcBuff byteOffset)) integerType ≠ 0 then
    .error (-eInval)
  else .ok (UInt64.ofNat (Bytes.load 8 srcBuff (byteOffset + 8)))

/-- `PointTypeDeserialize`: the pointer stored through `retArgPointRef` and the size stored through
`retArgPointSize`. The end of the bytes is computed in `size_t`. -/
def pointTypeDeserialize (srcBuff : List UInt8) (srcBuffSize byteOffset : Nat) :
    Except Int (Option Nat × Nat) :=
  if serializePointBuffValidCheck srcBuffSize byteOffset ≠ 0 then .error (-eNoMem)
  else if paramTypeCheck (u32 (Bytes.load 8 srcBuff byteOffset)) pointType ≠ 0 then
    .error (-eInval)
  else
    let size := Bytes.load 8 srcBuff (byteOffset + 8)
    if srcBuffSize < u64 (byteOffset + sizeofPointStorage + size) then .error (-eNoMem)
    else if size ≠ 0 then .ok (some (byteOffset + sizeofPointStorage), size)
    else .ok (none, size)

/-- The loop of `DeSerialize`. -/
def deSerializeLoop (srcBuff : List UInt8) (srcBuffSize : Nat) :
    List ArgRef → Nat → Except Int (List Decoded)
  | [], _ => .ok []
  | .integer ref :: args, byteOffset =>
      if !ref then .error (-eInval)
      else do
        let value ← interTypeDeserialize srcBuff srcBuffSize byteOffset
        let rest ← deSerializeLoop srcBuff srcBuffSize args
          (u32 (byteOffset + sizeofIntegerStorage))
        return ⟨byteOffset, .integer value⟩ :: rest
  | .point ref :: args, byteOffset =>
      if !ref then .error (-eInval)
      else do
        let (pointRef, argPointSize) ← pointTypeDeserialize srcBuff srcBuffSize byteOffset
        let rest ← deSerializeLoop srcBuff srcBuffSize args
          (u32 (byteOffset + u64 (sizeofPointStorage + argPointSize)))
        return ⟨byteOffset, .point pointRef argPointSize⟩ :: rest
  | .unknown :: _, _ => .error (-eInval)

/-- `DeSerialize`; the argument count is the number of references passed. -/
def deSerialize (args : List ArgRef) (srcBuff : Option (List UInt8)) (srcBuffSize : UInt32) :
    Except Int (List Decoded) :=
  if deSerializeParamValidCheck args.length srcBuff srcBuffSize.toNat ≠ 0 then .error (-eInval)
  else deSerializeLoop (srcBuff.getD []) srcBuffSize.toNat args 4

end ITrustee.Serialize
