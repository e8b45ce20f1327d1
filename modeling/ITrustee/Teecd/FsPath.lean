import Mathlib.Tactic
import ITrustee.Foundation.CString
import ITrustee.Foundation.Securec

/-!
# Storage paths of the file agent

`JoinFileName` of `fs_work_agent.c` and the variants it chooses from, which build the path of a stored
object from the name the secure world sent. The user id and the storage id, which the code keeps in
globals set at the start of every request, are arguments. A variant returns the path, or `none` on an
error.

The CE variant works on a copy of the name in a buffer of `FILE_NAME_MAX_BUF` bytes. A name of exactly
that length fills the buffer to its last byte, and the code then reads past it: `overread`.
-/

namespace ITrustee.Teecd

open CString

def userDataDir : List Char := "/var/itrustee/sec_storage_data/".toList
def rootDir : List Char := "/".toList
def sfsPartitionPersistent : List Char := "var/itrustee/sec_storage_data/".toList
def sfsPartitionUserSymlink : List Char := "sec_storage_data_users/".toList
def sfsPartitionTransient : List Char := "sec_storage_data/".toList
def sfsPartitionTransientPrivate : List Char := "sec_storage_data/_private".toList
def sfsPartitionTransientPerso : List Char := "sec_storage_data/_perso".toList
def secStorageDataCe : List Char := "/data/vendor_ce/".toList
def secStorageDataRootDir : List Char := "/sec_storage_data/".toList
def fileNameInvalidStr : List Char := "../".toList
def fileNameMaxBuf : Nat := 256
def userPathSize : Nat := 12
def teeObjectStorageCe : UInt32 := 0x80000002

inductive JoinResult where
  | failed
  | joined (path : List Char)
  | overread
  deriving DecidableEq

def JoinResult.ofOption : Option (List Char) → JoinResult
  | none => failed
  | some path => joined path

/-- `CheckFileNameAndPath`; neither pointer is null in the agent. -/
def checkFileNameAndPath (name : List Char) : Bool := (strstr name fileNameInvalidStr).isNone

section Join

variable (lib : Securec)

def getPathStorage (pathLen : Nat) (env : List Char) : Option (List Char) :=
  if "SFS_PARTITION_TRANSIENT".toList.isPrefixOf env then
    lib.strncpyS pathLen userDataDir (userDataDir.length + 1)
  else if "SFS_PARTITION_PERSISTENT".toList.isPrefixOf env then
    lib.strncpyS pathLen rootDir (rootDir.length + 1)
  else none

def getTransientDir (pathLen : Nat) : Option (List Char) :=
  getPathStorage lib pathLen "SFS_PARTITION_TRANSIENT".toList

def getPersistentDir (pathLen : Nat) : Option (List Char) :=
  getPathStorage lib pathLen "SFS_PARTITION_PERSISTENT".toList

/-- The result of `snprintf_s` with the format `%u/` into `userPath`. -/
def userPath (userId : UInt32) : Option (List Char) :=
  let s := Nat.toDigits 10 userId.toNat ++ ['/']
  if s.length ≤ userPathSize - 1 then some s else none

def joinFileNameTransient (userId : UInt32) (name : List Char) (pathLen : Nat) :
    Option (List Char) := do
  let path ← getTransientDir lib pathLen
  if userId ≠ 0 then
    let userPath ← userPath userId
    let path ← lib.strncatS path pathLen sfsPartitionUserSymlink sfsPartitionUserSymlink.length
    let path ← lib.strncatS path pathLen userPath userPath.length
    if name.length ≤ sfsPartitionTransient.length then none
    else
      lib.strncatS path pathLen (name.drop sfsPartitionTransient.length)
        (name.length - sfsPartitionTransient.length)
  else lib.strncatS path pathLen name name.length

def getDefaultDir (pathLen : Nat) : Option (List Char) := do
  let path ← getPersistentDir lib pathLen
  lib.strncatS path pathLen sfsPartitionPersistent sfsPartitionPersistent.length

/-- The directory that `DoJoinFileName` puts before the name. -/
def joinDir (name : List Char) (pathLen : Nat) : Option (List Char) :=
  if strstr name sfsPartitionTransientPerso = some 0 ∨
      strstr name sfsPartitionTransientPrivate = some 0 then getTransientDir lib pathLen
  else if strstr name sfsPartitionPersistent = some 0 then getPersistentDir lib pathLen
  else getDefaultDir lib pathLen

def doJoinFileName (name : List Char) (pathLen : Nat) : Option (List Char) := do
  let path ← joinDir lib name pathLen
  lib.strncatS path pathLen name name.length

/-- The path of `JoinFileNameForStorageCE` up to the directory of the user. -/
def joinStorageCeDir (idString : List Char) (pathLen : Nat) : Option (List Char) := do
  let path ← lib.strncpyS pathLen secStorageDataCe (secStorageDataCe.length + 1)
  let path ← lib.strncatS path pathLen idString idString.length
  lib.strncatS path pathLen secStorageDataRootDir (secStorageDataRootDir.length + 1)

/-- `JoinFileNameForStorageCE`. With no terminator in the buffer, `strtok_r` reads past it unless the
first token ends inside, and `strlen` of what follows the token reads past it in any case. -/
def joinFileNameForStorageCE (name : List Char) (pathLen : Nat) : JoinResult :=
  if fileNameMaxBuf < name.length then .failed
  else
    let terminated := name.length < fileNameMaxBuf
    match strtokR name '/' with
    | none => if terminated then .failed else .overread
    | some (idString, nameWithoutUserId) =>
        if ¬ terminated ∧ '/' ∉ name.dropWhile (· == '/') then .overread
        else
          match joinStorageCeDir lib idString pathLen with
          | none => .failed
          | some path =>
              if ¬ terminated then .overread
              else .ofOption (lib.strncatS path pathLen nameWithoutUserId nameWithoutUserId.length)

def joinFileName (userId storageId : UInt32) (name : List Char) (pathLen : Nat) : JoinResult :=
  if !checkFileNameAndPath name then .failed
  else if storageId = teeObjectStorageCe then joinFileNameForStorageCE lib name pathLen
  else if strstr name sfsPartitionTransient = some 0 then
    .ofOption (joinFileNameTransient lib userId name pathLen)
  else .ofOption (doJoinFileName lib name pathLen)

end Join

end ITrustee.Teecd
