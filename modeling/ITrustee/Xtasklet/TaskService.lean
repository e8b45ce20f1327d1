import Mathlib.Tactic
import ITrustee.Foundation.CriticalSection
import ITrustee.Xtasklet.BlockingQueueFifo
import ITrustee.Xtasklet.TaskEcho

/-!
# The workers of a tasklet

`ExecutorFetch` in as many threads as the tasklet has, with both of its queues: each worker fetches a
task, has the handler called on it, and sends it back as the result. The threads share one endpoint of
each queue, under its lock `sync`; the other endpoints are those of the other side, which submits tasks
and receives results. An endpoint that is shared is in the state of its queue but for the call that runs
on it: that is at the worker whose call it is.

The histories say what became of the tasks that were fetched.
-/

namespace ITrustee.Xtasklet

/-- A step of a producer, on its side of the queue. -/
def Action.ofProducer : Action → Bool
  | .enqueue .. | .produce _ | .interruptProducer => true
  | .dequeue .. | .consume _ | .interruptConsumer => false

namespace Service

open CInt CriticalSection

/-! ### Calls of the handler -/

/-- A call: the task that was fetched and the address of its buffer, what the handler returned, and what
it left behind the header. -/
structure Call where
  task : List UInt8
  address : Nat
  ret : Int
  data : List UInt8
  deriving DecidableEq

/-- The buffer with `task->ret` stored. -/
def Call.answered (c : Call) : List UInt8 :=
  let task := (dequeuedTaskCreate c.address c.task).1
  let buf := task.drop sizeofXtask
  Bytes.store (task.take sizeofXtask ++ c.data.takeD buf.length 0) 64 (Bytes.le 8 (toU64 c.ret))

/-- The source of the `BlockingEnqueue`. -/
def Call.response (c : Call) : List UInt8 :=
  c.answered.takeD (u32 (u64 (sizeofXtask + Bytes.load 8 c.answered 56))) 0

/-! ### Workers -/

/-- Where a worker is in `ExecutorFetch`. -/
inductive WorkerPc where
  /-- Before the load of `terminated`. -/
  | looking
  /-- Before `LockQueue(taskQ)`. -/
  | fetching
  /-- In the `BlockingDequeue`. -/
  | dequeuing (pc : ConsumerPc)
  /-- Before the call of the handler. -/
  | calling (address : Nat) (task : List UInt8)
  /-- Before `LockQueue(resQ)`. -/
  | answering (call : Call)
  /-- In the `BlockingEnqueue`. -/
  | enqueuing (call : Call) (pc : ProducerPc)
  | exited
  deriving DecidableEq

def WorkerPc.dequeuing? : WorkerPc → Option ConsumerPc
  | .dequeuing pc => some pc
  | _ => none

def WorkerPc.enqueuing? : WorkerPc → Option (Call × ProducerPc)
  | .enqueuing call pc => some (call, pc)
  | _ => none

/-- What the calls return that a worker makes in a step. -/
structure Choice where
  lock : Outcome := {}
  queue : Outcome := {}
  address : Nat := 0
  ret : Int := 0
  data : List UInt8 := []

structure Tasklet where
  taskQ : Xtasklet.State
  resQ : Xtasklet.State
  /-- `sync` of `taskQ` is taken. -/
  taskSync : Bool := false
  /-- `sync` of `resQ` is taken. -/
  resSync : Bool := false
  terminated : Bool := false
  workers : List WorkerPc
  calls : List Call := []
  /-- Fetched without the magic. -/
  refused : List (List UInt8) := []
  /-- Calls whose result was enqueued. -/
  sent : List Call := []
  /-- Calls whose result could not be enqueued. -/
  failed : List Call := []

section Steps

variable (lib : Securec)

/-- A step of `ExecutorFetch`. A worker that waits for a lock has none. Once the size of a result has
passed the test of `BlockingEnqueue`, it passes that of `WaitFull`. -/
def executorFetchStep (c : Choice) (s : Tasklet) : WorkerPc → Option (Tasklet × WorkerPc)
  | .looking => some (s, if s.terminated then .exited else .fetching)
  | .fetching =>
      match dequeueStart s.taskQ.consumer (-1) c.lock.ret c.lock.errno with
      | .returning _ _ => some (s, .looking)
      | pc =>
          if s.taskSync then none
          else some ({ s with taskSync := s.taskQ.consumer.concurrent }, .dequeuing pc)
  | .dequeuing pc =>
      (consume lib c.queue { s.taskQ with consumerPc := pc }).map fun q =>
        let s := { s with taskQ := { q with consumerPc := .idle } }
        match pc with
        | .returning task ret =>
            let s := { s with taskSync := false }
            if ret ≠ 0 then (s, .looking)
            else if (dequeuedTaskCreate c.address task).2 then (s, .calling c.address task)
            else ({ s with refused := s.refused ++ [task] }, .looking)
        | _ => (s, .dequeuing q.consumerPc)
  | .calling address task =>
      let call : Call := ⟨task, address, c.ret, c.data⟩
      some ({ s with calls := s.calls ++ [call] }, .answering call)
  | .answering call =>
      match enqueueStart s.resQ.producer call.response (-1) c.lock.ret c.lock.errno with
      | .returning _ _ => some ({ s with failed := s.failed ++ [call] }, .looking)
      | pc =>
          if s.resSync then none
          else some ({ s with resSync := s.resQ.producer.concurrent }, .enqueuing call pc)
  | .enqueuing call pc =>
      (produce lib c.queue { s.resQ with producerPc := pc }).map fun q =>
        let s := { s with resQ := { q with producerPc := .idle } }
        match pc with
        | .returning _ ret =>
            let s := { s with resSync := false }
            if ret = 0 then ({ s with sent := s.sent ++ [call] }, .looking)
            else ({ s with failed := s.failed ++ [call] }, .looking)
        | _ => (s, .enqueuing call q.producerPc)
  | .exited => none

end Steps

/-! ### The system -/

inductive Action where
  /-- The other side submits tasks. -/
  | submit (a : Xtasklet.Action)
  /-- The other side receives results. -/
  | receive (a : Xtasklet.Action)
  | work (i : Nat) (c : Choice)
  /-- What `XtaskletDestroy` stores for the workers. -/
  | terminate
  | interruptResQ
  | interruptTaskQ

def step (lib : Securec) (s : Tasklet) : Action → Option Tasklet
  | .submit a =>
      if a.ofProducer then (Xtasklet.step lib s.taskQ a).map fun q => { s with taskQ := q } else none
  | .receive a =>
      if a.ofProducer then none else (Xtasklet.step lib s.resQ a).map fun q => { s with resQ := q }
  | .work i c =>
      s.workers[i]?.bind fun w =>
        (executorFetchStep lib c s w).map fun (s, w) => { s with workers := s.workers.set i w }
  | .terminate => some { s with terminated := true }
  | .interruptResQ => (Xtasklet.step lib s.resQ .interruptProducer).map fun q => { s with resQ := q }
  | .interruptTaskQ => (Xtasklet.step lib s.taskQ .interruptConsumer).map fun q => { s with taskQ := q }

/-- The workers that `XtaskletCreate` starts, with each queue in one half of the shared memory.
`producer` and `consumer` are the endpoints of the other side. -/
def created (shmSz concurrency : Nat) (taskEntries resEntries : Nat → Entry)
    (producer consumer : BlockingQueue) : Option Tasklet :=
  (blockingQueueCreate (shmSz / 2) false (concurrency > 1)).bind fun taskQ =>
    (blockingQueueCreate (shmSz / 2) true (concurrency > 1)).map fun resQ =>
      { taskQ := initial taskEntries producer taskQ
        resQ := initial resEntries resQ consumer
        workers := List.replicate concurrency .looking }

/-! ### Specification -/

section Specification

variable (s : Tasklet)

/-- The task queue, with the call that runs on the shared endpoint. -/
def Tasklet.tasks : Xtasklet.State :=
  { s.taskQ with consumerPc := (occupant WorkerPc.dequeuing? s.workers).getD .idle }

def Tasklet.results : Xtasklet.State :=
  { s.resQ with producerPc := ((occupant WorkerPc.enqueuing? s.workers).map Prod.snd).getD .idle }

/-- The tasks of the `BlockingEnqueue` calls of the other side, the running one included. -/
def Tasklet.submitted : List (List UInt8) := s.taskQ.enqueued ++ s.taskQ.producerPc.inProgress

/-- The results that the other side has. -/
def Tasklet.received : List (List UInt8) := s.resQ.delivered

/-- What the worker has fetched and not yet had handled. -/
def WorkerPc.toCall : WorkerPc → Multiset (List UInt8)
  | .calling _ task => {task}
  | _ => 0

/-- What the worker has had handled and not yet sent. -/
def WorkerPc.toSend : WorkerPc → Multiset Call
  | .answering call | .enqueuing call _ => {call}
  | _ => 0

def isTask (msg : List UInt8) : Bool := Bytes.load 4 msg 0 = xtaskletBufMagic

/-- Nothing is under way: every message was fetched, no worker has one, and every result was received. -/
structure Tasklet.Settled : Prop where
  fetched : s.taskQ.delivered = s.submitted
  called : inHand WorkerPc.toCall s.workers = 0
  sent : inHand WorkerPc.toSend s.workers = 0
  received : s.received = s.resQ.enqueued

/-- The messages are for the ring, and tasks have the header and say their length. -/
def WellSubmitted : Action → Prop
  | .submit (.enqueue src ..) =>
      Sized s.resQ.producer.entriesNr src ∧ HoldsHeader s.resQ.producer src
  | _ => True

instance (a : Action) : Decidable (WellSubmitted s a) :=
  match a with
  | .submit (.enqueue src ..) =>
      inferInstanceAs (Decidable ((1 ≤ src.length ∧ src.length ≤ _) ∧ HoldsHeader _ src))
  | .submit (.dequeue ..) | .submit (.produce _) | .submit (.consume _) | .submit .interruptProducer
  | .submit .interruptConsumer | .receive _ | .work _ _ | .terminate | .interruptResQ
  | .interruptTaskQ => isTrue trivial

end Specification

end Service

end ITrustee.Xtasklet
