import Mathlib.Tactic
import ITrustee.Foundation.Machine
import ITrustee.Libteec.Bitmap
import ITrustee.Libteec.Types

/-!
# The session pool

`tee_session_pool.c`: a pool of sessions, opened one after the other by `CreateSessionsFn`, first one
by the creator and then the others by a detached worker, and lent out to `TEEC_SessionPoolInvoke`. A
semaphore counts the sessions that are free, and a bitmap says which ones they are.

The atomic steps are the locked sections, the operations on the semaphore and the calls that may
block. Opening, invoking and creating the worker have arbitrary results. The lists `opens`, `closes`
and `crashed` record the sessions that `TEEC_OpenSession` opened, those that `TEEC_CloseSession` was
called on, and those that returned `TEEC_ERROR_TARGET_DEAD`. A step that would use the pool after it
was freed is undefined, `none`.
-/

namespace ITrustee.Libteec

open CInt

def sessionPoolCapMin : Nat := 5

def sessionPoolCapMax : Nat := 100

/-! ### Data -/

structure SessionPool where
  poolSize : Nat
  /-- The flags of `sessionsInfo`. -/
  isDead : Nat → Bool
  opened : Nat := 0
  inuse : UInt32 := 0
  keys : Nat := 0
  usage : List UInt8
  usageSize : Nat

/-- Where `CreateSessionsFn` is. Its loop opens the sessions from `i` up to `last`. -/
inductive CreatePc where
  | start (reqCount : Nat)
  /-- Before a call of `TEEC_OpenSession`. -/
  | call (last i : Nat)
  | opening (last i : Nat)
  /-- The session is open and not yet counted. -/
  | record (last i : Nat)
  /-- Before `sem_post`. -/
  | post (last i : Nat)
  | finished (ret : UInt32)
  deriving DecidableEq

/-- Where `TEEC_SessionPoolCreate` is, once the pool is allocated. -/
inductive CreatorPc where
  /-- In `CreateSessionsFn`. -/
  | opening
  /-- Before `pthread_create`. -/
  | spawn
  /-- In `TEEC_SessionPoolDestroy`. -/
  | failing (ret : UInt32)
  | returned (ret : UInt32)
  deriving DecidableEq

/-- Where `TEEC_SessionPoolInvoke` is. -/
inductive InvokePc where
  | waiting
  /-- After `sem_wait`. -/
  | key
  /-- `GetAndCleartBit` found no bit. -/
  | corrupted
  /-- In `TEEC_InvokeCommand`. -/
  | holding (index : Int)
  | put (index : Int) (ret : UInt32)
  /-- Before the `sem_post` of `PutSessionToPool`. -/
  | posting (ret : UInt32)
  | returned (ret : UInt32)
  deriving DecidableEq

/-- Where `TEEC_SessionPoolDestroy` is. -/
inductive DestroyPc where
  /-- In the loop. -/
  | closing (i : Nat)
  /-- Before `FreeSessionPool`. -/
  | free
  | done
  deriving DecidableEq

structure PoolState where
  pool : SessionPool
  creator : CreatorPc := .opening
  /-- The run of `CreateSessionsFn` in the creator, then the one in the worker. -/
  createFn : CreatePc := .start 1
  invokes : List InvokePc := []
  destroy : Option DestroyPc := none
  freed : Bool := false
  opens : List Nat := []
  closes : List Nat := []
  crashed : List Nat := []

/-- What the calls of one step return. -/
structure PoolOutcome where
  ret : UInt32 := teecSuccess
  spawned : Bool := true
  /-- `sem_wait` returns -1 with `EINTR`. -/
  eintr : Bool := false

inductive PoolAction where
  | create (o : PoolOutcome)
  | creator (o : PoolOutcome)
  /-- A call of `TEEC_SessionPoolInvoke`. -/
  | invoke
  | run (k : Nat) (o : PoolOutcome)
  /-- A call of `TEEC_SessionPoolDestroy`. -/
  | destroy
  | destroyStep

/-! ### Creating -/

/-- `TEEC_SessionPoolCreate` up to the first `CreateSessionsFn`. What `malloc` returns for the flags
and for the bitmap has arbitrary contents, and the bitmap as many bytes as were asked for. -/
def sessionPoolCreate (poolSize : Nat) (isDead : Nat → Bool) (usage : List UInt8) :
    Option PoolState :=
  let usageSize := poolSize / 1 + if poolSize % 1 ≠ 0 then 1 else 0
  if poolSize > sessionPoolCapMax ∨ poolSize < sessionPoolCapMin then none
  else if usage.length ≠ usageSize then none
  else some { pool := { poolSize, isDead, usage, usageSize } }

/-- The test of the loop of `CreateSessionsFn`. -/
def createLoop (last i : Nat) (ret : UInt32) : CreatePc :=
  if i < last then .call last i else .finished ret

/-- `SetBit` and the count, under the lock. -/
def recordSession (sp : SessionPool) (i : Nat) : SessionPool :=
  { sp with usage := setBit i sp.usageSize sp.usage, opened := sp.opened + 1 }

def createStep (o : PoolOutcome) (s : PoolState) : Option PoolState :=
  match s.createFn with
  | .start reqCount =>
      some { s with
        createFn := createLoop (s.pool.opened + reqCount) s.pool.opened teecErrorGeneric }
  | .call last i => some { s with createFn := .opening last i }
  | .opening last i =>
      if o.ret ≠ teecSuccess then some { s with createFn := .finished o.ret }
      else
        some { s with
          pool := { s.pool with isDead := Function.update s.pool.isDead i false }
          createFn := .record last i
          opens := s.opens ++ [i] }
  | .record last i =>
      some { s with pool := recordSession s.pool i, createFn := .post last i }
  | .post last i =>
      some { s with
        pool := { s.pool with keys := s.pool.keys + 1 }
        createFn := createLoop last (i + 1) teecSuccess }
  | .finished _ => none

def creatorStep (o : PoolOutcome) (s : PoolState) : Option PoolState :=
  match s.creator with
  | .opening =>
      match s.createFn with
      | .finished ret =>
          if ret ≠ teecSuccess then
            some { s with creator := .failing ret, destroy := some (.closing 0) }
          else some { s with creator := .spawn }
      | _ => none
  | .spawn =>
      if o.spawned then
        some { s with
          creator := .returned teecSuccess
          createFn := .start (s.pool.poolSize - 1) }
      else
        some { s with creator := .failing teecErrorGeneric, destroy := some (.closing 0) }
  | .failing ret =>
      if s.destroy = some .done then some { s with creator := .returned ret } else none
  | .returned _ => none

/-! ### Invoking -/

/-- The locked section of `GetSessionFromPool`. -/
def getSession (sp : SessionPool) : InvokePc × SessionPool :=
  let used := getAndCleartBit sp.usage sp.usageSize
  if used.1 = -1 then (.corrupted, { sp with usage := used.2 })
  else (.holding used.1, { sp with usage := used.2, inuse := sp.inuse + 1 })

/-- The locked section of `PutSessionToPool`. -/
def putSession (sp : SessionPool) (index : Int) : SessionPool :=
  { sp with
    usage := setBit (toU32 index) sp.usageSize sp.usage
    inuse := sp.inuse - 1 }

/-- A step of the call number `k`, which is at `pc`. -/
def runStep (o : PoolOutcome) (k : Nat) (s : PoolState) : InvokePc → Option PoolState
  | .waiting =>
      if o.eintr then some s
      else if s.pool.keys = 0 then none
      else
        some { s with
          pool := { s.pool with keys := s.pool.keys - 1 }
          invokes := s.invokes.set k .key }
  | .key =>
      some { s with
        pool := (getSession s.pool).2
        invokes := s.invokes.set k (getSession s.pool).1 }
  | .corrupted =>
      some { s with
        pool := { s.pool with keys := s.pool.keys + 1 }
        invokes := s.invokes.set k (.returned teecErrorBadParameters) }
  | .holding index =>
      if o.ret = teecErrorTargetDead then
        some { s with
          pool := { s.pool with isDead := Function.update s.pool.isDead index.toNat true }
          invokes := s.invokes.set k (.returned o.ret)
          crashed := s.crashed ++ [index.toNat] }
      else some { s with invokes := s.invokes.set k (.put index o.ret) }
  | .put index ret =>
      some { s with
        pool := putSession s.pool index
        invokes := s.invokes.set k (.posting ret) }
  | .posting ret =>
      some { s with
        pool := { s.pool with keys := s.pool.keys + 1 }
        invokes := s.invokes.set k (.returned ret) }
  | .returned _ => none

/-! ### Destroying -/

def destroyStep (s : PoolState) : Option PoolState :=
  match s.destroy with
  | some (.closing i) =>
      if i < s.pool.opened then
        some { s with destroy := some (.closing (i + 1)), closes := s.closes ++ [i] }
      else some { s with destroy := some .free }
  | some .free => some { s with destroy := some .done, freed := true }
  | some .done | none => none

def poolStep (s : PoolState) : PoolAction → Option PoolState
  | .create o => if s.freed then none else createStep o s
  | .creator o => creatorStep o s
  | .invoke =>
      if s.creator = .returned teecSuccess ∧ !s.freed then
        some { s with invokes := s.invokes ++ [.waiting] }
      else none
  | .run k o => if s.freed then none else (s.invokes[k]?).bind (runStep o k s)
  | .destroy =>
      if s.creator = .returned teecSuccess ∧ s.destroy = none then
        some { s with destroy := some (.closing 0) }
      else none
  | .destroyStep => destroyStep s

end ITrustee.Libteec
