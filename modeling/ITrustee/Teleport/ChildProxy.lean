import Mathlib.Tactic
import ITrustee.Teleport.PosixProxyRuns

/-!
# A proxy in a child process

`PosixProxyRegisterCtrlTasklet` with the child that it clones: the two share one integer in a System V
segment and a named semaphore. The child runs `PosixProxyInit`, stores what it returned and posts; the
parent waits at most three seconds, reads the integer whether the wait timed out or not, and answers
with it, or with the pid of the child if it is 0. The two run side by side, the child may be killed or
come to wait for ever in a request, and every call may fail. `clone` copies the memory, so the child has
the parent's proxy in its world.
-/

namespace ITrustee.Teleport.Proxy

open Holdings

def eInval : Int := 22

/-! ### The parties -/

/-- Where the parent stands. `ret` is the variable of that name. -/
inductive ParentPc where
  | namingSem | openingSem | gettingShm | attachingShm
  /-- Before `*shmResAddr = -1`; the address is `(void *)-1` when `shmat` failed. -/
  | storing (valid : Bool)
  | allocatingStack | cloning | waiting | reading
  | freeingStack (ret : Int)
  | detaching (ret : Int)
  | removing (ret : Int)
  | closingSem (ret : Int)
  | unlinkingSem (ret : Int)
  | returned (value : Int)
  | crashed
  deriving DecidableEq

inductive ChildPc where
  | absent
  /-- Before `PosixProxyInit`. -/
  | starting
  | storing (ret : Int)
  | posting (ret : Int)
  /-- The proxy runs until `destroySem` is posted. -/
  | serving
  /-- The control thread waits for ever in a request, and the child for that thread. -/
  | waiting
  | exited
  deriving DecidableEq

/-- The segment. It exists as long as it is attached or not yet marked as removed. -/
structure Segment where
  value : Int
  parent : Bool := false
  child : Bool := false
  removed : Bool := false

structure State where
  parent : ParentPc := .namingSem
  childPc : ChildPc := .absent
  childPid : Int := -1
  segment : Option Segment := none
  /-- The parent has the semaphore open, and its name exists. -/
  semOpen : Bool := false
  semLinked : Bool := false
  semValue : Nat := 0
  stack : Bool := false
  /-- The memory and the calls of the child. -/
  childWorld : World Kind Globals
  /-- What `PosixProxyInit` returned in the child. -/
  initRet : Option Int := none
  timedOut : Bool := false

/-! ### Steps -/

/-- What a call of the parent returns, and `errno` after it. -/
structure Outcome where
  ret : Int
  errno : Nat

/-- `ret != 0 ? ret : child_pid`. -/
def answer (s : State) (ret : Int) : Int := if ret ≠ 0 then ret else s.childPid

def setSegment (s : State) (f : Segment → Segment) : State := { s with segment := s.segment.map f }

/-- One step of `PosixProxyRegisterCtrlTasklet` and `CreateChildWaitResult`. A successful `sem_open`
makes a new semaphore. -/
def parentStep (s : State) (o : Outcome) : Option State :=
  match s.parent with
  | .namingSem => some { s with parent := if o.ret < 0 then .returned (-eInval) else .openingSem }
  | .openingSem =>
      if o.ret < 0 then some { s with parent := .returned (answer s (-o.errno)) }
      else some { s with parent := .gettingShm, semOpen := true, semLinked := true }
  | .gettingShm =>
      if o.ret = -1 then some { s with parent := .closingSem (-o.errno) }
      else some { s with parent := .attachingShm, segment := some { value := 0 } }
  | .attachingShm =>
      if o.ret = 0 then some { s with parent := .removing (-o.errno) }
      else if o.ret = -1 then some { s with parent := .storing false }
      else some { setSegment s (fun g => { g with parent := true }) with parent := .storing true }
  | .storing valid =>
      if valid then
        some { setSegment s (fun g => { g with value := -1 }) with parent := .allocatingStack }
      else some { s with parent := .crashed }
  | .allocatingStack =>
      if o.ret < 0 then some { s with parent := .detaching (-o.errno) }
      else some { s with parent := .cloning, stack := true }
  | .cloning =>
      if o.ret = -1 then some { s with parent := .freeingStack (-o.errno) }
      else if 0 < o.ret then
        some { setSegment s (fun g => { g with child := true }) with
          parent := .waiting, childPid := o.ret, childPc := .starting }
      else none
  | .waiting =>
      if o.ret ≠ 0 then some { s with parent := .reading, timedOut := true }
      else if 0 < s.semValue then
        some { s with parent := .reading, semValue := s.semValue - 1 }
      else none
  | .reading => s.segment.map fun g => { s with parent := .freeingStack g.value }
  | .freeingStack ret => some { s with parent := .detaching ret, stack := false }
  | .detaching ret =>
      some { setSegment s (fun g => { g with parent := false }) with parent := .removing ret }
  | .removing ret =>
      some { setSegment s (fun g => { g with removed := true }) with parent := .closingSem ret }
  | .closingSem ret => some { s with parent := .unlinkingSem ret, semOpen := false }
  | .unlinkingSem ret =>
      some { s with parent := .returned (answer s ret), semLinked := false }
  | .returned _ => none
  | .crashed => none

/-- The child ends: its attachment goes with it. -/
def exitChild (s : State) : State :=
  { setSegment s (fun g => { g with child := false }) with childPc := .exited }

/-- One step of `ChildPosixProxyFunc`. A store needs the segment attached. -/
def childStep (s : State) : Option State :=
  match s.childPc with
  | .absent => none
  | .starting =>
      (posixProxyInit s.childWorld).map fun (ret, childWorld) =>
        { s with childPc := .storing ret, initRet := some ret, childWorld }
  | .storing ret =>
      match s.segment with
      | some g =>
          if g.child then
            some { s with segment := some { g with value := ret }, childPc := .posting ret }
          else none
      | none => none
  | .posting ret =>
      if ret = 0 then some { s with semValue := s.semValue + 1, childPc := .serving }
      else some (exitChild { s with semValue := s.semValue + 1 })
  | .serving =>
      (posixProxyDestroy s.childWorld).map fun (_, childWorld) => exitChild { s with childWorld }
  | .waiting => none
  | .exited => none

inductive Action where
  | parent (o : Outcome)
  | child
  /-- The proxy of the child serves a request. -/
  | request (call : PosixCtrlCall)
  /-- The child is killed. -/
  | kill

def step (s : State) : Action → Option State
  | .parent o => parentStep s o
  | .child => childStep s
  | .request call =>
      if s.childPc = .serving then
        (serve s.childWorld call).map fun
          | .ready childWorld => { s with childWorld }
          | .waiting childWorld => { s with childWorld, childPc := .waiting }
      else none
  | .kill => if s.childPc = .absent ∨ s.childPc = .exited then none else some (exitChild s)

end ITrustee.Teleport.Proxy
