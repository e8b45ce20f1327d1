import Mathlib.Tactic
import ITrustee.Teleport.SysCalls

/-!
# The handlers of the tables

The handlers that hand their arguments on, with the types that they read. `FileReadWork` reads into the
argument region itself, and `FileSendfileWork` has the offset before the descriptors. A few of them leave
`errno` alone when the arguments cannot be read. `posixDataServe` is `PosixDataTaskletCallHandler` with
what a request leaves in the message and in the system.
-/

namespace ITrustee.Teleport.Remote

open CInt Serialize

/-- The references that the handlers pass are not null. -/
abbrev integer : ArgRef := .integer true

abbrev point : ArgRef := .point true

/-! ### posix_file.c -/

def fileOpenWork : Forwarding where
  types := [point, integer, integer]
  func := .«open»

def fileOpenatWork : Forwarding where
  types := [integer, point, integer, integer]
  func := .openat

def fileReadWork : Forwarding where
  types := [integer, point, integer]
  func := .read
  var := .long
  order := [some 0, none, some 2]

def fileWriteWork : Forwarding where
  types := [integer, point, integer]
  func := .write
  var := .long

def fileAccessWork : Forwarding where
  types := [point, integer]
  func := .access

def fileFaccessatWork : Forwarding where
  types := [integer, point, integer, integer]
  func := .faccessat

def fileLseekWork : Forwarding where
  types := [integer, integer, integer]
  func := .lseek
  var := .long

def fileChdirWork : Forwarding where
  types := [point]
  func := .chdir

def fileFchdirWork : Forwarding where
  types := [integer]
  func := .fchdir

def fileChmodWork : Forwarding where
  types := [point, integer]
  func := .chmod

def fileFchmodWork : Forwarding where
  types := [integer, integer]
  func := .fchmod

def fileFchmodatWork : Forwarding where
  types := [integer, point, integer, integer]
  func := .fchmodat

def fileStatWork : Forwarding where
  types := [point, point]
  func := .stat

def fileFstatWork : Forwarding where
  types := [integer, point]
  func := .fstat

def fileStatfsWork : Forwarding where
  types := [point, point]
  func := .statfs

def fileFstatfsWork : Forwarding where
  types := [integer, point]
  func := .fstatfs

def fileLstatWork : Forwarding where
  types := [point, point]
  func := .lstat

def fileFstatatWork : Forwarding where
  types := [integer, point, point, integer]
  func := .fstatat

def fileSymlinkWork : Forwarding where
  types := [point, point]
  func := .symlink

def fileSymlinkatWork : Forwarding where
  types := [point, integer, point]
  func := .symlinkat

def fileReadlinkWork : Forwarding where
  types := [point, point, integer]
  func := .readlink

def fileReadlinkatWork : Forwarding where
  types := [integer, point, point, integer]
  func := .readlinkat

def fileFsyncWork : Forwarding where
  types := [integer]
  func := .fsync

def fileTruncateWork : Forwarding where
  types := [point, integer]
  func := .truncate

def fileFtruncateWork : Forwarding where
  types := [integer, integer]
  func := .ftruncate

def fileRenameWork : Forwarding where
  types := [point, point]
  func := .rename

def fileRenameatWork : Forwarding where
  types := [integer, point, integer, point]
  func := .renameat

def fileMkdirWork : Forwarding where
  types := [point, integer]
  func := .mkdir

def fileUmaskWork : Forwarding where
  types := [integer]
  func := .umask
  var := .uint

def fileUnlinkWork : Forwarding where
  types := [point]
  func := .unlink

def fileSendfileWork : Forwarding where
  types := [point, integer, integer, integer]
  func := .sendfile
  var := .long
  order := [some 1, some 2, some 0, some 3]
  refusal := none

def fileRemoveWork : Forwarding where
  types := [point]
  func := .remove

def fileRmdirWork : Forwarding where
  types := [point]
  func := .rmdir

/-! ### posix_network.c -/

def netSocketWork : Forwarding where
  types := [integer, integer, integer]
  func := .socket

def netConnectWork : Forwarding where
  types := [integer, point, integer]
  func := .connect

def netBindWork : Forwarding where
  types := [integer, point, integer]
  func := .bind

def netListenWork : Forwarding where
  types := [integer, integer]
  func := .listen

def commonOps (func : SysFunc) (apart : Apart (written func.params [some 0, some 1, some 2]))
    (var_eq : .int = func.ret) : Forwarding where
  types := [integer, point, point]
  func := func
  order := [some 0, some 1, some 2]
  apart := apart
  read_region := fun h => absurd h (by decide)
  var_eq := var_eq

def netAcceptWork : Forwarding := commonOps .accept (by decide) rfl

def netAccept4Work : Forwarding where
  types := [integer, point, point, integer]
  func := .accept4

def netShutdownWork : Forwarding where
  types := [integer, integer]
  func := .shutdown

def netGetsocknameWork : Forwarding := commonOps .getsockname (by decide) rfl

def netGetsockoptWork : Forwarding where
  types := [integer, integer, integer, point, point]
  func := .getsockopt

def netSetsockoptWork : Forwarding where
  types := [integer, integer, integer, point, integer]
  func := .setsockopt

def netGetpeernameWork : Forwarding := commonOps .getpeername (by decide) rfl

/-! ### posix_other.c -/

def epollCreate1Work : Forwarding where
  types := [integer]
  func := .epollCreate1
  refusal := none

def epollCtlWork : Forwarding where
  types := [integer, integer, integer, point]
  func := .epollCtl
  refusal := none

def eventfdWork : Forwarding where
  types := [integer, integer]
  func := .eventfd
  refusal := none

/-! ### Dispatch -/

/-- The handlers that hand their arguments on. -/
def forwarding : PosixHandler → Option Forwarding
  | .fileOpenWork => some fileOpenWork
  | .fileOpenatWork => some fileOpenatWork
  | .fileReadWork => some fileReadWork
  | .fileWriteWork => some fileWriteWork
  | .fileAccessWork => some fileAccessWork
  | .fileFaccessatWork => some fileFaccessatWork
  | .fileLseekWork => some fileLseekWork
  | .fileChdirWork => some fileChdirWork
  | .fileFchdirWork => some fileFchdirWork
  | .fileChmodWork => some fileChmodWork
  | .fileFchmodWork => some fileFchmodWork
  | .fileFchmodatWork => some fileFchmodatWork
  | .fileStatWork => some fileStatWork
  | .fileFstatWork => some fileFstatWork
  | .fileStatfsWork => some fileStatfsWork
  | .fileFstatfsWork => some fileFstatfsWork
  | .fileLstatWork => some fileLstatWork
  | .fileFstatatWork => some fileFstatatWork
  | .fileSymlinkWork => some fileSymlinkWork
  | .fileSymlinkatWork => some fileSymlinkatWork
  | .fileReadlinkWork => some fileReadlinkWork
  | .fileReadlinkatWork => some fileReadlinkatWork
  | .fileFsyncWork => some fileFsyncWork
  | .fileTruncateWork => some fileTruncateWork
  | .fileFtruncateWork => some fileFtruncateWork
  | .fileRenameWork => some fileRenameWork
  | .fileRenameatWork => some fileRenameatWork
  | .fileMkdirWork => some fileMkdirWork
  | .fileUmaskWork => some fileUmaskWork
  | .fileUnlinkWork => some fileUnlinkWork
  | .fileSendfileWork => some fileSendfileWork
  | .fileRemoveWork => some fileRemoveWork
  | .fileRmdirWork => some fileRmdirWork
  | .netSocketWork => some netSocketWork
  | .netConnectWork => some netConnectWork
  | .netBindWork => some netBindWork
  | .netListenWork => some netListenWork
  | .netAcceptWork => some netAcceptWork
  | .netAccept4Work => some netAccept4Work
  | .netShutdownWork => some netShutdownWork
  | .netGetsocknameWork => some netGetsocknameWork
  | .netGetsockoptWork => some netGetsockoptWork
  | .netSetsockoptWork => some netSetsockoptWork
  | .netGetpeernameWork => some netGetpeernameWork
  | .epollCreate1Work => some epollCreate1Work
  | .epollCtlWork => some epollCtlWork
  | .eventfdWork => some eventfdWork
  | _ => none

/-- What a request leaves: the value that is returned, the message and the system. -/
structure Served (σ : Type) where
  ret : Int
  membuf : List UInt8
  os : σ

/-- The `err` field of the message. -/
def setErr (membuf : List UInt8) (err : Int32) : List UInt8 :=
  Bytes.store membuf 8 (Bytes.le 4 err.toUInt32.toNat)

/-- `PosixDataTaskletCallHandler`, where `errno` has a value from before. There is no result for the
entries of the tables that are not forwarded, and for the one behind the table. -/
def posixDataServe {σ : Type} (os : Os σ) (errno : Int32) (membuf : List UInt8) (s : σ) :
    Option (Served σ) :=
  let call := loadPosixCall membuf
  match posixTables.funcs call.type with
  | none => some ⟨1, membuf, s⟩
  | some funcs =>
      if call.func > funcs.length then some ⟨1, membuf, s⟩
      else
        match funcs[call.func]? with
        | none => none
        | some func =>
            match func.funcPtr with
            | none => some ⟨-1, setErr membuf (Int32.ofInt enosys), s⟩
            | some funcPtr =>
                (forwarding funcPtr).bind fun f =>
                  (f.work os func.argsCnt call.argsSz call.args s).map fun w =>
                    ⟨w.ret, setErr (membuf.take 24 ++ w.region) (w.errno.getD errno), w.os⟩

/-- The entries with such a handler, with the number of arguments that stands there. -/
def forwardingAt (type func : Nat) : Option (UInt32 × Forwarding) :=
  (posixTables.funcs type).bind fun funcs => funcs[func]?.bind fun entry =>
    entry.funcPtr.bind fun funcPtr => (forwarding funcPtr).map (entry.argsCnt, ·)

/-- The number of arguments in an entry is that of the arguments its handler reads. -/
def countsArgs (entry : PosixFunc PosixHandler) : Bool :=
  (entry.funcPtr.bind forwarding).all fun f => entry.argsCnt.toNat = f.types.length

theorem countsArgs_of_mem {type : Nat} {funcs : List (PosixFunc PosixHandler)}
    (h : posixTables.funcs type = some funcs) : ∀ entry ∈ funcs, countsArgs entry = true := by
  have hfile : posixTables.posixFile.all countsArgs = true := by decide +kernel
  have hnetwork : posixTables.posixNetwork.all countsArgs = true := by decide +kernel
  have hother : posixTables.posixOther.all countsArgs = true := by decide +kernel
  rw [PosixTables.funcs] at h
  split_ifs at h
  · exact Option.some.inj h ▸ List.all_eq_true.mp hfile
  · exact Option.some.inj h ▸ List.all_eq_true.mp hnetwork
  · exact Option.some.inj h ▸ List.all_eq_true.mp hother

theorem forwardingAt_argsCnt {type func : Nat} {argsCnt : UInt32} {f : Forwarding}
    (h : forwardingAt type func = some (argsCnt, f)) : argsCnt.toNat = f.types.length := by
  obtain ⟨funcs, hfuncs, h⟩ := Option.bind_eq_some_iff.mp h
  obtain ⟨entry, hentry, h⟩ := Option.bind_eq_some_iff.mp h
  obtain ⟨funcPtr, hptr, h⟩ := Option.bind_eq_some_iff.mp h
  obtain ⟨g, hg, h⟩ := Option.map_eq_some_iff.mp h
  cases h
  have hcount := countsArgs_of_mem hfuncs entry (List.mem_of_getElem? hentry)
  rw [countsArgs, hptr, Option.bind_some, hg] at hcount
  exact of_decide_eq_true hcount

end ITrustee.Teleport.Remote
