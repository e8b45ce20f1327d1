import Mathlib.Tactic
import ITrustee.Foundation.Machine
import ITrustee.Libteec.Types

/-!
# Contexts, sessions and the calls that use them

The interface functions of `tee_client_api.c` that look up a context, as parties of one machine. A
`TEEC_ContextHidl` has a reference count; `GetBnContext` takes a reference under the lock of the
context list, `PutBnContext` gives it back with an atomic decrement, and the call that brings the
count to zero runs `TEEC_FinalizeContextHidl`. The library knows the client's `TEEC_Context` by its
descriptor and the client's `TEEC_Session` by its session id.

The atomic steps are the locked sections, the atomic counter operations, the requests to the driver
and the accesses to the client's structures. The section of `GetBnContext` and the one that lists a
new context are two steps each, because others decrement the counter while the lock is held. What the
system and the driver return is part of a step. A `TEEC_ContextHidl` is named by the order of its
allocation, and the client's structures are numbered.

The lists `released` and `freed` record the final releases that began and the contexts given back to
the system, `live`, `opens` and `closes` what the driver was asked for, and `lastOpen` what
`TEEC_OpenSession` returned last for a structure.
-/

namespace ITrustee.Libteec

def teecErrorAccessDenied : UInt32 := 0xffff0001

def teeErrorCaAuthFail : UInt32 := 0xffffcfe5

def caAuthRetryTimes : Nat := 30

/-- The calls that can run at once: each has a thread, and a thread a positive `pid_t`. -/
def maxThreads : Nat := 0x7fffffff

/-! ### Data -/

/-- The descriptor and the count of a `TEEC_ContextHidl`. -/
structure CountedContext where
  fd : Int := -1
  opsCnt : UInt32 := 0
  deriving DecidableEq

/-- `TEEC_Session`; the context is the client's structure that it points to. -/
structure Session where
  sessionId : UInt32
  context : Option Nat
  deriving DecidableEq

/-- A session open in the driver: the context and the id it was opened with, and the structure it was
opened for. -/
structure LiveSession where
  context : Nat
  sessionId : UInt32
  owner : Nat
  deriving DecidableEq

structure ContextTable where
  contexts : Nat → CountedContext := fun _ => {}
  /-- The next context to be allocated. -/
  next : Nat := 0
  /-- `g_teecContextList`. -/
  teecContextList : List Nat := []
  /-- The call that holds `g_mutexTeecContext`. -/
  mutexTeecContext : Option Nat := none
  openFds : List Int := []
  /-- The descriptors in the client's `TEEC_Context` structures. -/
  clientFd : Nat → Int
  released : List Nat := []
  freed : List Nat := []

structure SessionTable where
  sessions : Nat → Session
  /-- The `session_list` of each context. -/
  sessionList : Nat → List Nat := fun _ => []
  live : List LiveSession := []
  opens : Nat → List UInt32 := fun _ => []
  closes : Nat → List UInt32 := fun _ => []
  lastOpen : Nat → Option UInt32 := fun _ => none

/-- A call of the interface, on the client's context `c` or the client's session `h`. -/
inductive Request where
  | initializeContext (c : Nat)
  | openSession (c h : Nat)
  | closeSession (h : Nat)
  | invokeCommand (h : Nat)
  | allocateSharedMemory (c : Nat)
  | releaseSharedMemory (c : Nat)
  | finalizeContext (c : Nat)
  deriving DecidableEq

/-- Where a call is; `id` is the context it works on. -/
inductive CallPc where
  | start
  /-- Before `TEEC_InitializeContext` allocates the context and connects to the daemon. -/
  | connect
  /-- Before the new context is listed. -/
  | insert (id : Nat)
  /-- Before `GetBnContext` takes the lock. -/
  | get (c : Nat)
  /-- Before `AtomInc`, with the lock held. -/
  | counting (c id : Nat)
  /-- Before `TEEC_InitializeContext` hands out the descriptor. -/
  | handing (c id : Nat)
  /-- In the functions of the interface that leave the sessions alone. -/
  | working (c id : Nat)
  /-- In `TEEC_OpenSessionHidl`, before `TEEC_DoOpenSession`. -/
  | checking (id : Nat)
  /-- Before a request to open, with `i` more to follow. -/
  | opening (id i : Nat)
  /-- Before `AddSessionList`. -/
  | opened (id : Nat) (sessionId : UInt32)
  /-- Before `AddSessionList` takes the lock. -/
  | adding (id : Nat)
  /-- Before `FindAndRemoveSession`. -/
  | finding (id : Nat)
  /-- Before the request to close. -/
  | closing (id : Nat)
  /-- Before `TEEC_CloseSessionHidl` clears the structure. -/
  | wiping (id : Nat)
  /-- Before `PutBnContext`. -/
  | put (id : Nat) (ret : UInt32)
  /-- In `TEEC_FinalizeContextHidl`, before it takes `sessionLock`. -/
  | releasing (id : Nat) (ret : UInt32)
  /-- At the head of the loop over the sessions. -/
  | releaseNext (id : Nat) (ret : UInt32)
  | releaseClosing (id h : Nat) (ret : UInt32)
  | releaseWiping (id h : Nat) (ret : UInt32)
  /-- Before `shrMemLock`. -/
  | releaseMemory (id : Nat) (ret : UInt32)
  /-- Before `close`. -/
  | releaseFd (id : Nat) (ret : UInt32)
  /-- Before `FindAndRemoveBnContext`. -/
  | remove (c : Nat)
  /-- Before `TEEC_FinalizeContext` clears the client's structure. -/
  | reset (c : Nat)
  | returned (ret : UInt32)
  deriving DecidableEq

structure ClientCall where
  request : Request
  pc : CallPc
  deriving DecidableEq

/-- The pc is one of those whose step is about the contexts. -/
def CallPc.onTable : CallPc → Bool
  | .connect | .insert _ | .get _ | .counting .. | .handing .. | .put .. | .releaseFd .. | .remove _
  | .reset _ => true
  | _ => false

def CallPc.isReturned : CallPc → Bool
  | .returned _ => true
  | _ => false

structure ClientState where
  table : ContextTable
  memory : SessionTable
  calls : List ClientCall := []

/-- What the calls of one step return. -/
structure Outcome where
  /-- The arguments of the call are not null. -/
  nonNull : Bool := true
  allocated : Bool := true
  locked : Bool := true
  fd : Int := 0
  /-- What the functions of the library return that this module does not model. -/
  ret : UInt32 := teecSuccess
  ioctlRet : Int := 0
  code : UInt32 := 0
  sessionId : UInt32 := 0

inductive ClientAction where
  | call (r : Request)
  | run (k : Nat) (o : Outcome)

/-! ### Contexts -/

/-- `FindBnContext`. -/
def findBnContext (t : ContextTable) (c : Nat) : Option Nat :=
  t.teecContextList.find? fun id => decide ((t.contexts id).fd = t.clientFd c)

def ContextTable.setOpsCnt (t : ContextTable) (id : Nat) (opsCnt : UInt32) : ContextTable :=
  { t with contexts := Function.update t.contexts id { t.contexts id with opsCnt } }

/-- A new context, with the count that `TEEC_InitializeContextWithType` gives it. -/
def ContextTable.allocate (t : ContextTable) (fd : Int) : ContextTable :=
  { t with
    contexts := Function.update t.contexts t.next { fd, opsCnt := 1 }
    next := t.next + 1
    openFds := t.openFds ++ [fd] }

/-- Where a call goes with the context that `GetBnContext` returned. -/
def afterGet (r : Request) (c id : Nat) : CallPc :=
  match r with
  | .initializeContext _ => .handing c id
  | .openSession .. => .checking id
  | .closeSession _ => .finding id
  | .invokeCommand _ | .allocateSharedMemory _ | .releaseSharedMemory _ => .working c id
  | .finalizeContext _ => .put id teecSuccess

/-- Where a call goes after `PutBnContext`. -/
def afterPut (r : Request) (ret : UInt32) : CallPc :=
  match r with
  | .finalizeContext c => .reset c
  | _ => .returned ret

/-- `TEEC_InitializeContextWithType` up to the lock. -/
def connectStep (o : Outcome) (t : ContextTable) : Option (ContextTable × CallPc) :=
  if !o.allocated ∨ o.fd < 0 then some (t, .returned teecErrorGeneric)
  -- the system does not return a descriptor that is still open
  else if o.fd ∈ t.openFds then none
  else some (t.allocate o.fd, .insert t.next)

def closeFd (t : ContextTable) (id : Nat) : ContextTable :=
  { t with openFds := t.openFds.erase (t.contexts id).fd, freed := t.freed ++ [id] }

/-- The rest of `TEEC_InitializeContextWithType` up to `AtomInc`. -/
def insertStep (k : Nat) (o : Outcome) (c : Nat) (t : ContextTable) (id : Nat) :
    Option (ContextTable × CallPc) :=
  if !o.locked then some (closeFd t id, .returned teecFail)
  else if t.mutexTeecContext ≠ none then none
  else
    some ({ t with teecContextList := t.teecContextList ++ [id], mutexTeecContext := some k },
      .counting c id)

/-- `GetBnContext` up to `AtomInc`. Without a context, the functions of the interface return. -/
def getBnContextStep (k : Nat) (o : Outcome) (t : ContextTable) (c : Nat) :
    Option (ContextTable × CallPc) :=
  if !o.locked then some (t, .returned teecErrorBadParameters)
  else if t.mutexTeecContext ≠ none then none
  else
    match findBnContext t c with
    | none => some (t, .returned teecErrorBadParameters)
    | some id => some ({ t with mutexTeecContext := some k }, .counting c id)

/-- `AtomInc` and the end of the locked section. -/
def countStep (t : ContextTable) (id : Nat) : ContextTable :=
  { t.setOpsCnt id ((t.contexts id).opsCnt + 1) with mutexTeecContext := none }

/-- `PutBnContext`. -/
def putBnContextStep (r : Request) (t : ContextTable) (id : Nat) (ret : UInt32) :
    ContextTable × CallPc :=
  let opsCnt := (t.contexts id).opsCnt - 1
  let t := t.setOpsCnt id opsCnt
  if opsCnt = 0 then ({ t with released := t.released ++ [id] }, .releasing id ret)
  else (t, afterPut r ret)

/-- `FindAndRemoveBnContext`. -/
def removeStep (o : Outcome) (t : ContextTable) (c : Nat) : Option (ContextTable × CallPc) :=
  if !o.locked then some (t, .reset c)
  else if t.mutexTeecContext ≠ none then none
  else
    match findBnContext t c with
    | none => some (t, .reset c)
    | some id =>
        some ({ t with teecContextList := t.teecContextList.erase id }, .put id teecSuccess)

def setClientFd (t : ContextTable) (c : Nat) (fd : Int) : ContextTable :=
  { t with clientFd := Function.update t.clientFd c fd }

def Request.clientContext : Request → Nat
  | .initializeContext c | .openSession c _ | .allocateSharedMemory c | .releaseSharedMemory c
  | .finalizeContext c => c
  | .closeSession _ | .invokeCommand _ => 0

def tableStep (k : Nat) (o : Outcome) (r : Request) (t : ContextTable) :
    CallPc → Option (ContextTable × CallPc)
  | .connect => connectStep o t
  | .insert id => insertStep k o r.clientContext t id
  | .get c => getBnContextStep k o t c
  | .counting c id => some (countStep t id, afterGet r c id)
  | .handing c id => some (setClientFd t c (t.contexts id).fd, .put id teecSuccess)
  | .put id ret => some (putBnContextStep r t id ret)
  | .releaseFd id ret => some (closeFd t id, afterPut r ret)
  | .remove c => removeStep o t c
  | .reset c => some (setClientFd t c (-1), .returned teecSuccess)
  | _ => none

/-! ### Sessions -/

def translateRetValue (ret : Int) : UInt32 :=
  if ret = -14 then teecErrorAccessDenied
  else if ret = -12 then teecErrorOutOfMemory
  else if ret = -22 then teecErrorBadParameters
  else teecErrorGeneric

def SessionTable.setSession (m : SessionTable) (h : Nat) (session : Session) : SessionTable :=
  { m with sessions := Function.update m.sessions h session }

def SessionTable.setList (m : SessionTable) (id : Nat) (list : List Nat) : SessionTable :=
  { m with sessionList := Function.update m.sessionList id list }

/-- The beginning of a call. -/
def startStep (o : Outcome) (m : SessionTable) (r : Request) : SessionTable × CallPc :=
  if !o.nonNull then (m, .returned teecErrorBadParameters)
  else
    match r with
    | .openSession c h => (m.setSession h { m.sessions h with context := some c }, .get c)
    | .closeSession h | .invokeCommand h =>
        match (m.sessions h).context with
        | none => (m, .returned teecErrorBadParameters)
        | some c => (m, .get c)
    | .allocateSharedMemory c => if !o.allocated then (m, .returned teecFail) else (m, .get c)
    | .releaseSharedMemory c => (m, .get c)
    | .initializeContext _ => (m, .connect)
    | .finalizeContext c => (m, .remove c)

/-- One turn of the loop of `TEEC_DoOpenSession`, and what follows it. -/
def doOpenSessionStep (o : Outcome) (m : SessionTable) (h id i : Nat) : SessionTable × CallPc :=
  if o.code = teeErrorCaAuthFail ∧ i ≠ 0 then (m, .opening id (i - 1))
  else if o.ioctlRet < 0 then (m, .put id (translateRetValue o.ioctlRet))
  else if 0 < o.ioctlRet then
    (m, .put id (if o.code ≠ 0 then o.code else teecErrorGeneric))
  else
    ({ m with
      live := m.live ++ [⟨id, o.sessionId, h⟩]
      opens := Function.update m.opens h (m.opens h ++ [o.sessionId]) }, .opened id o.sessionId)

/-- The locked section of `AddSessionList`. -/
def addSessionListStep (o : Outcome) (m : SessionTable) (h id : Nat) : SessionTable × CallPc :=
  if !o.locked then (m, .put id teecErrorGeneric)
  else (m.setList id (m.sessionList id |>.filter (· ≠ h) |>.concat h), .put id teecSuccess)

/-- `FindBnSession`. -/
def findBnSession (m : SessionTable) (h id : Nat) : Option Nat :=
  (m.sessionList id).find? fun g => decide ((m.sessions g).sessionId = (m.sessions h).sessionId)

/-- `FindAndRemoveSession`. -/
def findAndRemoveSessionStep (o : Outcome) (m : SessionTable) (h id : Nat) :
    SessionTable × CallPc :=
  if !o.locked then (m, .put id teecSuccess)
  else
    match findBnSession m h id with
    | none => (m, .put id teecSuccess)
    | some g => (m.setList id ((m.sessionList id).erase g), .closing id)

/-- The request of `TEEC_CloseSessionHidl`. -/
def closeRequest (m : SessionTable) (h id : Nat) : SessionTable :=
  let sessionId := (m.sessions h).sessionId
  { m with
    live := m.live.filter fun l => ¬ (l.context = id ∧ l.sessionId = sessionId)
    closes := Function.update m.closes h (m.closes h ++ [sessionId]) }

/-- The rest of `TEEC_CloseSessionHidl`. -/
def wipeSession (m : SessionTable) (h : Nat) : SessionTable := m.setSession h ⟨0, none⟩

/-- `TEEC_InvokeCommand` stores the context again. -/
def invokeStep (o : Outcome) (m : SessionTable) (r : Request) (c : Nat) : SessionTable :=
  match r with
  | .invokeCommand h =>
      if o.ret = teecSuccess then m.setSession h { m.sessions h with context := some c } else m
  | _ => m

def releaseNextStep (m : SessionTable) (id : Nat) (ret : UInt32) : SessionTable × CallPc :=
  match m.sessionList id with
  | [] => (m, .releaseMemory id ret)
  | h :: rest => (m.setList id rest, .releaseClosing id h ret)

def Request.session : Request → Nat
  | .openSession _ h | .closeSession h | .invokeCommand h => h
  | _ => 0

def memoryStep (o : Outcome) (r : Request) (m : SessionTable) :
    CallPc → Option (SessionTable × CallPc)
  | .start => some (startStep o m r)
  | .working c id => some (invokeStep o m r c, .put id o.ret)
  | .checking id =>
      some (m, if o.ret ≠ teecSuccess then .put id o.ret else .opening id caAuthRetryTimes)
  | .opening id i => some (doOpenSessionStep o m r.session id i)
  | .opened id sessionId =>
      some (m.setSession r.session { m.sessions r.session with sessionId }, .adding id)
  | .adding id => some (addSessionListStep o m r.session id)
  | .finding id => some (findAndRemoveSessionStep o m r.session id)
  | .closing id => some (closeRequest m r.session id, .wiping id)
  | .wiping id => some (wipeSession m r.session, .put id teecSuccess)
  | .releasing id ret => some (m, if !o.locked then afterPut r ret else .releaseNext id ret)
  | .releaseNext id ret => some (releaseNextStep m id ret)
  | .releaseClosing id h ret => some (closeRequest m h id, .releaseWiping id h ret)
  | .releaseWiping id h ret => some (wipeSession m h, .releaseNext id ret)
  | .releaseMemory id ret => some (m, if !o.locked then afterPut r ret else .releaseFd id ret)
  | _ => none

/-- What `TEEC_OpenSession` returns is recorded. -/
def SessionTable.record (m : SessionTable) (r : Request) : CallPc → SessionTable
  | .returned ret =>
      match r with
      | .openSession _ h => { m with lastOpen := Function.update m.lastOpen h (some ret) }
      | _ => m
  | _ => m

/-! ### The machine -/

/-- The state after call `k` moves on to `pc`. -/
def ClientState.advance (s : ClientState) (k : Nat) (call : ClientCall) (table : ContextTable)
    (memory : SessionTable) (pc : CallPc) : ClientState where
  table := table
  memory := memory.record call.request pc
  calls := s.calls.set k { call with pc }

def callStep (k : Nat) (o : Outcome) (s : ClientState) (call : ClientCall) : Option ClientState :=
  if call.pc.onTable then
    (tableStep k o call.request s.table call.pc).map fun (table, pc) =>
      s.advance k call table s.memory pc
  else
    (memoryStep o call.request s.memory call.pc).map fun (memory, pc) =>
      s.advance k call s.table memory pc

def clientStep (s : ClientState) : ClientAction → Option ClientState
  | .call r =>
      if (s.calls.countP fun call => !call.pc.isReturned) < maxThreads then
        some { s with calls := s.calls ++ [⟨r, .start⟩] }
      else none
  | .run k o => s.calls[k]?.bind fun call => callStep k o s call

/-- Before the first call. The client's structures have arbitrary contents. -/
def ClientState.initial (clientFd : Nat → Int) (sessions : Nat → Session) : ClientState :=
  { table := { clientFd }, memory := { sessions } }

end ITrustee.Libteec
