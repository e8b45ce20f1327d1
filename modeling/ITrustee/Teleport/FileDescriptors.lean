import Mathlib.Tactic
import ITrustee.Foundation.Descriptors
import ITrustee.Teleport.Serialize

/-!
# Requests on descriptors

The handlers of `posix_file.c` that close and duplicate descriptors of the proxy process for a trusted
application. They refuse to touch the descriptor of the device the proxy itself works with, and the
socket that `FileDup2Work` duplicates onto a descriptor about to be closed. Arguments are 64-bit values
from the request; the handlers compare them as `int`, and so does the kernel.
-/

namespace ITrustee.Teleport

open Serialize

def ePerm : Int32 := 1

def eIO : Int32 := 5

def eFault : Int32 := 14

structure PosixProxyParam where
  args : Option (List UInt8)
  argsSz : UInt64
  deriving DecidableEq

/-- The descriptor table of the process, the two protected descriptors and `errno`. -/
structure FdProxy where
  table : DescriptorTable
  g_reePosixProxyDevFD : Int32 := -1
  g_reePreCloseFD : Int32 := -1
  errno : Int32 := 0

/-- Errors that do not follow from the table: a lock that fails, a call the kernel refuses, and a
`close` that reports an error after it has released the number. -/
structure Refusals where
  mutexLock : Bool := false
  socketpair : Option Int32 := none
  close : Option Int32 := none
  dup : Option Int32 := none
  dup2 : Option Int32 := none
  deriving DecidableEq

inductive FileFunc where
  | fileClose
  | fileDup2
  | fileDup
  deriving DecidableEq

structure FileRequest where
  func : FileFunc
  param : PosixProxyParam
  refusals : Refusals := {}
  deriving DecidableEq

def asInt (fd : UInt64) : Int32 := fd.toUInt32.toInt32

/-- `DeSerialize` of `n` integers. -/
def deSerializeIntegers (n : Nat) (param : PosixProxyParam) : Option (List UInt64) :=
  match deSerialize (List.replicate n (.integer true)) param.args param.argsSz.toUInt32 with
  | .error _ => none
  | .ok decoded =>
      some (decoded.filterMap fun d =>
        match d.arg with
        | .integer value => some value
        | .point _ _ => none)

def refusedOr {α : Type} (refused : Option Int32) (call : Except Int32 α) : Except Int32 α :=
  match refused with
  | some errno => .error errno
  | none => call

/-! ### The handlers -/

def posixProxySetDevFD (devFD : Int32) (p : FdProxy) : FdProxy :=
  { p with g_reePosixProxyDevFD := devFD }

/-- `PosixProxyInitDev`: `open` gives the device a descriptor. -/
def posixProxyInitDev (p : FdProxy) : FdProxy × Int32 :=
  match p.table.install with
  | .error errno => ({ p with errno }, -eFault)
  | .ok (devFd, table) => (posixProxySetDevFD devFd { p with table }, devFd)

/-- The descriptor is one of those that requests must leave alone. -/
def isProtected (p : FdProxy) (fd : UInt64) : Bool :=
  asInt fd = p.g_reePosixProxyDevFD || asInt fd = p.g_reePreCloseFD

def fileCloseWork (r : Refusals) (param : PosixProxyParam) (p : FdProxy) : FdProxy × Int32 :=
  match deSerializeIntegers 1 param with
  | some [fd] =>
      if isProtected p fd then ({ p with errno := DescriptorTable.eBadF }, -1)
      else
        match p.table.close (asInt fd) with
        | .error errno => ({ p with errno }, -1)
        | .ok table =>
            match r.close with
            | some errno => ({ p with table, errno }, -1)
            | none => ({ p with table }, 0)
  | _ => ({ p with errno := Int32.ofInt eInval }, -1)

def getReePreCloseFD (r : Refusals) (p : FdProxy) : FdProxy × Int32 :=
  if p.g_reePreCloseFD = -1 then
    if r.mutexLock then (p, -1)
    else
      match refusedOr r.socketpair p.table.socketpair with
      | .error errno => ({ p with errno }, -1)
      | .ok (sp0, sp1, table) =>
          ({ p with table := table.clear sp1, g_reePreCloseFD := sp0 }, sp0)
  else (p, p.g_reePreCloseFD)

/-- The call of `dup2` at the end of `FileDup2Work`. -/
def callDup2 (r : Refusals) (oldfd newfd : Int32) (p : FdProxy) : FdProxy × Int32 :=
  match refusedOr r.dup2 (p.table.dup2 oldfd newfd) with
  | .error errno => ({ p with errno }, -1)
  | .ok table => ({ p with table }, newfd)

def fileDup2Work (r : Refusals) (param : PosixProxyParam) (p : FdProxy) : FdProxy × Int32 :=
  match deSerializeIntegers 2 param with
  | some [oldfd, newfd] =>
      if asInt oldfd = -1 then
        let (p, preCloseFD) := getReePreCloseFD r p
        if preCloseFD = -1 then ({ p with errno := eIO }, -1)
        else callDup2 r preCloseFD (asInt newfd) p
      else if isProtected p oldfd || isProtected p newfd then ({ p with errno := ePerm }, -1)
      else callDup2 r (asInt oldfd) (asInt newfd) p
  | _ => ({ p with errno := Int32.ofInt eInval }, -1)

def fileDupWork (r : Refusals) (param : PosixProxyParam) (p : FdProxy) : FdProxy × Int32 :=
  match deSerializeIntegers 1 param with
  | some [fd] =>
      if isProtected p fd then ({ p with errno := ePerm }, -1)
      else
        match refusedOr r.dup (p.table.dup (asInt fd)) with
        | .error errno => ({ p with errno }, -1)
        | .ok (ret, table) => ({ p with table }, ret)
  | _ => ({ p with errno := Int32.ofInt eInval }, -1)

def fileWork (p : FdProxy) (r : FileRequest) : FdProxy × Int32 :=
  match r.func with
  | .fileClose => fileCloseWork r.refusals r.param p
  | .fileDup2 => fileDup2Work r.refusals r.param p
  | .fileDup => fileDupWork r.refusals r.param p

/-- The proxy serves one request. -/
def fileStep (p : FdProxy) (r : FileRequest) : Option FdProxy := some (fileWork p r).1

end ITrustee.Teleport
