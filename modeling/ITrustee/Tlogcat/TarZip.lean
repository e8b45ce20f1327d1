import Mathlib.Tactic
import ITrustee.Foundation.Bytes
import ITrustee.Foundation.CInt
import ITrustee.Foundation.Octal
import ITrustee.Tlogcat.LogFiles

/-!
# Archives

What `TarZipFiles` hands to `gzwrite`: for each input that is a regular file a header of 512 bytes and
the content in blocks of 512, and a header of zeros at the end. Paths are the bytes before the
terminator. Opening, reading and writing succeed, and a file is the same whenever it is looked at.
Whether a `char` is signed is left open.
-/

namespace ITrustee.Tarzip

open CInt Octal

def headerNum : Nat := 512

def checkSumAppend : Nat := 256

def nameLenMax : Nat := 100

def fileModeLen : Nat := 8

def uidLen : Nat := 8

def gidLen : Nat := 8

def fileSizeLen : Nat := 12

def unixTimeLen : Nat := 12

def checkSumLen : Nat := 8

def fileNameInvalidLen : Nat := 8

def fileMode : List UInt8 := [0x31, 0x30, 0x30, 0x36, 0x36, 0x36, 0x20, 0]

def idByte : List UInt8 :=
  [0x20, 0x20, 0x20, 0x20, 0x20, 0x30, 0x20, 0x00, 0x20, 0x20, 0x20, 0x20, 0x20, 0x30, 0x20, 0x00]

/-! ### Headers -/

/-- A byte as a `char`. -/
def charValue (signed : Bool) (b : UInt8) : Int :=
  if signed ∧ 128 ≤ b.toNat then (b.toNat : Int) - 256 else b.toNat

/-- The sum of the characters copied, and the header. -/
def writeOneUint (signed : Bool) (startIndex unitLen : Nat) (input output : List UInt8) :
    Int × List UInt8 :=
  (((input.take unitLen).map (charValue signed)).sum,
    Bytes.store output startIndex (input.take unitLen))

/-- `snprintf_s` of one number with `%o`, into a buffer that may hold an earlier one. -/
def snprintfOctal (buf : List UInt8) (v : Nat) : Option (List UInt8) :=
  if (octal v).length < buf.length then some (Bytes.store buf 0 (octal v ++ [0])) else none

def writeHeader (signed : Bool) (header fileName : List UInt8) (fileSize : Nat) : List UInt8 :=
  if fileSize = 0 then header
  else
    let nameLen := if fileName.length ≥ nameLenMax then nameLenMax - 1 else fileName.length
    let (nameSum, header) := writeOneUint signed 0 nameLen fileName header
    let (modeSum, header) := writeOneUint signed 100 fileModeLen fileMode header
    let (idSum, header) := writeOneUint signed 108 (uidLen + gidLen) idByte header
    match snprintfOctal (List.replicate fileSizeLen 0) (u32 fileSize) with
    | none => header
    | some buf =>
        let (sizeSum, header) := writeOneUint signed 124 fileSizeLen buf header
        match snprintfOctal buf (toU32 (nameSum + modeSum + idSum + sizeSum + checkSumAppend)) with
        | none => header
        | some buf => Bytes.store header 148 (buf.take checkSumLen)

/-! ### Contents -/

/-- A block that `read` filled as far as the file went. -/
def zipBlock (rest : List UInt8) : List UInt8 :=
  Bytes.store (List.replicate headerNum 0) 0 (rest.take headerNum)

/-- The loop of `WriteZipContent`. -/
def writeZipContent (rest : List UInt8) (temFileSize : Nat) : List UInt8 :=
  if temFileSize > 0 then
    zipBlock rest ++ writeZipContent (rest.drop headerNum) (temFileSize - headerNum)
  else []
termination_by temFileSize
decreasing_by
  rw [headerNum]
  omega

/-! ### Archives -/

/-- What `lstat` and a later `read` find. -/
structure FileAttr where
  isReg : Bool
  content : List UInt8

/-- The string from the last occurrence of a character on. -/
def strrchr (s : List UInt8) (c : UInt8) : Option (List UInt8) :=
  match s with
  | [] => none
  | b :: s =>
      match strrchr s c with
      | some t => some t
      | none => if b = c then some (b :: s) else none

section Model

variable (signed : Bool) (lstat : List UInt8 → Option FileAttr)

def judgeFileValidite (index : List UInt8) : Option FileAttr :=
  match lstat index with
  | none => none
  | some fileAttr => if fileAttr.isReg then some fileAttr else none

/-- What is written, or `none` where the source returns -1. -/
def writeSingleFile (fileName : List UInt8) : Option (List UInt8) :=
  match judgeFileValidite lstat fileName with
  | none => some []
  | some fileAttr =>
      match strrchr fileName 0x2F with
      | none => none
      | some s1 =>
          if s1.length < fileNameInvalidLen then none
          else
            some (writeHeader signed (List.replicate headerNum 0) (s1.drop 1) fileAttr.content.length ++
              writeZipContent fileAttr.content fileAttr.content.length)

/-- The loop of `TarZipFiles` and the end header. -/
def tarZipLoop : List (Option (List UInt8)) → List UInt8
  | [] => List.replicate headerNum 0
  | none :: inputNames => tarZipLoop inputNames
  | some fileName :: inputNames =>
      match writeSingleFile signed lstat fileName with
      | none => []
      | some written => written ++ tarZipLoop inputNames

/-- `TarZipFiles`; `none` where it does not open the output. -/
def tarZipFiles (nameCount : Nat) (inputNames : List (Option (List UInt8))) : Option (List UInt8) :=
  if nameCount ≠ Tlogcat.logFileIndexMax then none
  else some (tarZipLoop signed lstat (inputNames.take nameCount))

end Model

end ITrustee.Tarzip
