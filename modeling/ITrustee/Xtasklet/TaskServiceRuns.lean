import Mathlib.Tactic
import ITrustee.Xtasklet.QueueCapacity
import ITrustee.Xtasklet.TaskService

/-!
# Every task is answered once

The workers of a tasklet with the other side of both queues, in any interleaving. A queue with a shared
endpoint is, at each moment, the queue of `BlockingQueue.lean` with the call of the worker inside, so
that its invariant carries over. The rest is an account of what the workers have in hand.
-/

namespace ITrustee.Xtasklet

/-! ### One side of a queue -/

section Sides

variable {lib : Securec} {q q' : State} {o : Outcome}

/-- A producer does not look at the call of the consumer. -/
theorem step_setConsumer {a : Action} (ha : a.ofProducer = true) (pc : ConsumerPc) :
    step lib { q with consumerPc := pc } a =
      (step lib q a).map fun q => { q with consumerPc := pc } := by
  cases a with
  | enqueue src timeoutUs lockRet lockErrno =>
      rw [step, step]
      dsimp only
      split_ifs <;> rfl
  | produce o =>
      rw [step, step, produce, produce]
      cases hpc : q.producerPc with
      | idle | waiting | returning => rfl
      | polling src timeoutUs =>
          dsimp only
          split_ifs <;> rfl
      | writing src head headFlip i offset =>
          dsimp only
          rw [enqueueBlocks, enqueueBlocks]
          dsimp only
          split_ifs <;> rfl
  | interruptProducer => rfl
  | dequeue | consume | interruptConsumer => cases ha

theorem step_setProducer {a : Action} (ha : a.ofProducer = false) (pc : ProducerPc) :
    step lib { q with producerPc := pc } a =
      (step lib q a).map fun q => { q with producerPc := pc } := by
  cases a with
  | dequeue timeoutUs lockRet lockErrno =>
      rw [step, step]
      dsimp only
      split_ifs <;> rfl
  | consume o =>
      rw [step, step, consume, consume]
      cases hpc : q.consumerPc with
      | idle | waiting | metadata | returning => rfl
      | polling timeoutUs =>
          dsimp only
          split_ifs <;> rfl
      | reading tail tailFlip size remain i offset dst =>
          dsimp only
          rw [dequeueBlocks, dequeueBlocks]
          dsimp only
          split_ifs <;> rfl
  | interruptConsumer => rfl
  | enqueue | produce | interruptProducer => cases ha

/-- What a step of the producer leaves alone. -/
structure ProducerStepped (q q' : State) : Prop where
  consumer : q'.consumer = q.consumer
  consumerPc : q'.consumerPc = q.consumerPc
  delivered : q'.delivered = q.delivered
  concurrent : q'.producer.concurrent = q.producer.concurrent
  entriesNr : q'.producer.entriesNr = q.producer.entriesNr

theorem blocking_concurrent (o : Outcome) (q : BlockingQueue) (timeoutUs : Int) :
    (blocking o q timeoutUs).queue.concurrent = q.concurrent := by
  rw [blocking]
  split_ifs <;> rfl

theorem unblocking_concurrent (q : BlockingQueue) : (unblocking q).concurrent = q.concurrent := by
  rw [unblocking]

theorem produce_stepped (h : produce lib o q = some q') : ProducerStepped q q' := by
  rw [produce] at h
  cases hpc : q.producerPc with
  | idle =>
      rw [hpc] at h
      cases h
  | waiting | returning =>
      rw [hpc] at h
      obtain rfl := Option.some.inj h
      exact ⟨rfl, rfl, rfl, rfl, rfl⟩
  | polling src timeoutUs =>
      rw [hpc] at h
      dsimp only at h
      split at h <;> obtain rfl := Option.some.inj h
      · exact ⟨rfl, rfl, rfl, blocking_concurrent o q.producer timeoutUs,
          blocking_entriesNr o q.producer timeoutUs⟩
      · exact ⟨rfl, rfl, rfl, unblocking_concurrent q.producer, unblocking_entriesNr q.producer⟩
  | writing src head headFlip i offset =>
      rw [hpc] at h
      obtain rfl := Option.some.inj h
      simp only [enqueueBlocks]
      split_ifs <;> exact ⟨rfl, rfl, rfl, rfl, rfl⟩

/-- Until it returns, a call is about its source. -/
theorem produce_inProgress (h : produce lib o q = some q')
    (hpc : ∀ src ret, q.producerPc ≠ .returning src ret) :
    q'.producerPc.inProgress = q.producerPc.inProgress ∧ q'.enqueued = q.enqueued := by
  rw [produce] at h
  cases hq : q.producerPc with
  | idle =>
      rw [hq] at h
      cases h
  | waiting src timeoutUs =>
      rw [hq] at h
      obtain rfl := Option.some.inj h
      dsimp only
      split_ifs <;> exact ⟨rfl, rfl⟩
  | polling src timeoutUs =>
      rw [hq] at h
      dsimp only at h
      split at h <;> obtain rfl := Option.some.inj h
      · dsimp only
        split_ifs <;> exact ⟨rfl, rfl⟩
      · exact ⟨rfl, rfl⟩
  | writing src head headFlip i offset =>
      rw [hq] at h
      obtain rfl := Option.some.inj h
      simp only [enqueueBlocks]
      split_ifs <;> exact ⟨rfl, rfl⟩
  | returning src ret => exact absurd hq (hpc src ret)

/-- What a step of the consumer leaves alone. -/
structure ConsumerStepped (q q' : State) : Prop where
  producer : q'.producer = q.producer
  producerPc : q'.producerPc = q.producerPc
  enqueued : q'.enqueued = q.enqueued
  concurrent : q'.consumer.concurrent = q.consumer.concurrent

theorem consume_stepped (h : consume lib o q = some q') : ConsumerStepped q q' := by
  rw [consume] at h
  cases hpc : q.consumerPc with
  | idle =>
      rw [hpc] at h
      cases h
  | waiting | metadata | returning =>
      rw [hpc] at h
      obtain rfl := Option.some.inj h
      exact ⟨rfl, rfl, rfl, rfl⟩
  | polling timeoutUs =>
      rw [hpc] at h
      dsimp only at h
      split at h <;> obtain rfl := Option.some.inj h
      · exact ⟨rfl, rfl, rfl, blocking_concurrent o q.consumer timeoutUs⟩
      · exact ⟨rfl, rfl, rfl, unblocking_concurrent q.consumer⟩
  | reading tail tailFlip size remain i offset dst =>
      rw [hpc] at h
      obtain rfl := Option.some.inj h
      simp only [dequeueBlocks]
      split_ifs <;> exact ⟨rfl, rfl, rfl, rfl⟩

theorem consume_delivered (h : consume lib o q = some q')
    (hpc : ∀ dst ret, q.consumerPc ≠ .returning dst ret) : q'.delivered = q.delivered := by
  rw [consume] at h
  cases hq : q.consumerPc with
  | idle =>
      rw [hq] at h
      cases h
  | waiting | metadata =>
      rw [hq] at h
      obtain rfl := Option.some.inj h
      rfl
  | polling timeoutUs =>
      rw [hq] at h
      dsimp only at h
      split at h <;> obtain rfl := Option.some.inj h <;> rfl
  | reading tail tailFlip size remain i offset dst =>
      rw [hq] at h
      obtain rfl := Option.some.inj h
      simp only [dequeueBlocks]
      split_ifs <;> rfl
  | returning dst ret => exact absurd hq (hpc dst ret)

/-- A call that returns: a buffer is delivered when it returns 0. -/
theorem consume_returning {dst : List UInt8} {ret : Int}
    (h : consume lib o { q with consumerPc := .returning dst ret } = some q') :
    q'.consumerPc = .idle ∧ q'.delivered = if ret = 0 then q.delivered ++ [dst] else q.delivered := by
  obtain rfl := Option.some.inj h
  exact ⟨rfl, rfl⟩

theorem produce_returning {src : List UInt8} {ret : Int}
    (h : produce lib o { q with producerPc := .returning src ret } = some q') :
    q'.producerPc = .idle ∧ q'.enqueued = if ret = 0 then q.enqueued ++ [src] else q.enqueued := by
  obtain rfl := Option.some.inj h
  exact ⟨rfl, rfl⟩

theorem holdsHeader_congr {p p' : BlockingQueue} (h : p.entriesNr = p'.entriesNr) (task : List UInt8) :
    HoldsHeader p task ↔ HoldsHeader p' task := by
  rw [HoldsHeader, HoldsHeader, h]

end Sides

namespace Service

open CInt CriticalSection

/-! ### Results -/

section Results

variable {c : Call}

/-- The handler does not touch the header. -/
theorem Call.load_bufSz (hlen : 72 ≤ c.task.length) :
    Bytes.load 8 c.answered 56 = Bytes.load 8 c.task 56 := by
  have hstored : (dequeuedTaskCreate c.address c.task).1.length = c.task.length :=
    Bytes.store_length (by rw [Bytes.le_length]; omega)
  have hfield : Bytes.load 8 (dequeuedTaskCreate c.address c.task).1 56 = Bytes.load 8 c.task 56 := by
    have hle := Bytes.le_length 8 (c.address + sizeofXtask)
    have hdrop : (dequeuedTaskCreate c.address c.task).1.drop 56 = c.task.drop 56 :=
      Bytes.drop_store (by omega) (by omega)
    rw [Bytes.load, hdrop, Bytes.load]
  have hhead : ((dequeuedTaskCreate c.address c.task).1.take sizeofXtask).length =
      min 80 c.task.length := by
    rw [List.length_take, hstored, sizeofXtask]
  rw [Call.answered, Bytes.load_store _ (by rw [List.length_append]; omega) (by decide),
    Bytes.load_append_left _ (by omega), Bytes.load_take _ (by decide), hfield]

theorem Call.length_response (hlen : 72 ≤ c.task.length) :
    c.response.length = responseLen c.task := by
  rw [Call.response, List.takeD_length, c.load_bufSz hlen, responseLen]

/-- A worker sends what `executorFetch` makes of the task. -/
theorem executorFetch_response {resQ : BlockingQueue} {e : Enqueueing} {src : List UInt8}
    (h : (executorFetch resQ (fun _ => (c.ret, c.data)) e c.address c.task).response = some src) :
    src = c.response := by
  rw [executorFetch] at h
  dsimp only at h
  split_ifs at h
  rw [enqueueResponse] at h
  dsimp only at h
  split at h
  next src' t buffer hstart hwords =>
    split_ifs at h
    rw [← Option.some.inj h, ← (enqueueStart_waiting hstart).1]
    rfl
  next => cases h

/-- A result that the queue takes is as long as the task. -/
theorem Call.sized_response {n : Nat} {resQ : BlockingQueue} (hn : resQ.entriesNr = n)
    (hsized : Sized n c.task) (hheader : HoldsHeader resQ c.task) (hmagic : isTask c.task = true)
    {lockRet lockErrno timeoutUs : Int} {src : List UInt8} {t : Int}
    (hstart : enqueueStart resQ c.response timeoutUs lockRet lockErrno = .waiting src t) :
    Sized n c.response := by
  obtain ⟨hlen, hsize⟩ := hheader.2 (of_decide_eq_true hmagic)
  have hlength := c.length_response hlen
  obtain hsize | hlong := hsize
  · exact ⟨by rw [hlength, hsize]; exact hsized.1, hn ▸ (enqueueStart_waiting hstart).2⟩
  · rw [enqueueStart_refuses (hlong.trans_eq hlength.symm)] at hstart
    cases hstart

end Results

/-! ### What a worker's step can be -/

section Moves

variable {lib : Securec} {s s' : Tasklet} {w w' : WorkerPc} {c : Choice}

/-- The step of a worker: the tasklet after it, but for the worker itself, and where the worker is. -/
inductive Moved (lib : Securec) (s : Tasklet) : WorkerPc → Tasklet → WorkerPc → Prop
  | looks {w : WorkerPc} (hw : w = .exited ∨ w = .fetching) : Moved lib s .looking s w
  | gives_up : Moved lib s .fetching s .looking
  | starts_dequeue {lock : Outcome} {pc : ConsumerPc}
      (hstart : dequeueStart s.taskQ.consumer (-1) lock.ret lock.errno = pc)
      (hfree : s.taskSync = false) :
      Moved lib s .fetching { s with taskSync := s.taskQ.consumer.concurrent } (.dequeuing pc)
  | dequeues {o : Outcome} {pc : ConsumerPc} {q : Xtasklet.State}
      (hstep : consume lib o { s.taskQ with consumerPc := pc } = some q)
      (hpc : ∀ dst ret, pc ≠ .returning dst ret) :
      Moved lib s (.dequeuing pc) { s with taskQ := { q with consumerPc := .idle } }
        (.dequeuing q.consumerPc)
  | fetches_nothing {o : Outcome} {dst : List UInt8} {ret : Int} {q : Xtasklet.State}
      (hstep : consume lib o { s.taskQ with consumerPc := .returning dst ret } = some q)
      (hret : ret ≠ 0) :
      Moved lib s (.dequeuing (.returning dst ret))
        { s with taskQ := { q with consumerPc := .idle }, taskSync := false } .looking
  | fetches_other {o : Outcome} {task : List UInt8} {q : Xtasklet.State}
      (hstep : consume lib o { s.taskQ with consumerPc := .returning task 0 } = some q)
      {address : Nat} (hmagic : (dequeuedTaskCreate address task).2 = false) :
      Moved lib s (.dequeuing (.returning task 0))
        { s with
          taskQ := { q with consumerPc := .idle }
          taskSync := false
          refused := s.refused ++ [task] } .looking
  | fetches_task {o : Outcome} {task : List UInt8} {q : Xtasklet.State}
      (hstep : consume lib o { s.taskQ with consumerPc := .returning task 0 } = some q)
      {address : Nat} (hmagic : (dequeuedTaskCreate address task).2 = true) :
      Moved lib s (.dequeuing (.returning task 0))
        { s with taskQ := { q with consumerPc := .idle }, taskSync := false } (.calling address task)
  | calls {call : Call} :
      Moved lib s (.calling call.address call.task) { s with calls := s.calls ++ [call] }
        (.answering call)
  | drops {call : Call} :
      Moved lib s (.answering call) { s with failed := s.failed ++ [call] } .looking
  | starts_enqueue {call : Call} {lock : Outcome} {src : List UInt8} {t : Int}
      (hstart : enqueueStart s.resQ.producer call.response (-1) lock.ret lock.errno = .waiting src t)
      (hfree : s.resSync = false) :
      Moved lib s (.answering call) { s with resSync := s.resQ.producer.concurrent }
        (.enqueuing call (.waiting src t))
  | enqueues {call : Call} {o : Outcome} {pc : ProducerPc} {q : Xtasklet.State}
      (hstep : produce lib o { s.resQ with producerPc := pc } = some q)
      (hpc : ∀ src ret, pc ≠ .returning src ret) :
      Moved lib s (.enqueuing call pc) { s with resQ := { q with producerPc := .idle } }
        (.enqueuing call q.producerPc)
  | sends {call : Call} {o : Outcome} {src : List UInt8} {q : Xtasklet.State}
      (hstep : produce lib o { s.resQ with producerPc := .returning src 0 } = some q) :
      Moved lib s (.enqueuing call (.returning src 0))
        { s with
          resQ := { q with producerPc := .idle }
          resSync := false
          sent := s.sent ++ [call] } .looking
  | fails {call : Call} {o : Outcome} {src : List UInt8} {ret : Int} {q : Xtasklet.State}
      (hstep : produce lib o { s.resQ with producerPc := .returning src ret } = some q)
      (hret : ret ≠ 0) :
      Moved lib s (.enqueuing call (.returning src ret))
        { s with
          resQ := { q with producerPc := .idle }
          resSync := false
          failed := s.failed ++ [call] } .looking

theorem dequeueStart_cases (q : BlockingQueue) (timeoutUs lockRet lockErrno : Int) :
    (∃ dst ret, dequeueStart q timeoutUs lockRet lockErrno = .returning dst ret) ∨
      dequeueStart q timeoutUs lockRet lockErrno = .waiting timeoutUs := by
  rw [dequeueStart]
  split_ifs
  · exact Or.inl ⟨_, _, rfl⟩
  · exact Or.inl ⟨_, _, rfl⟩
  · exact Or.inr rfl

theorem enqueueStart_cases (q : BlockingQueue) (src : List UInt8) (timeoutUs lockRet lockErrno : Int) :
    (∃ ret, enqueueStart q src timeoutUs lockRet lockErrno = .returning src ret) ∨
      enqueueStart q src timeoutUs lockRet lockErrno = .waiting src timeoutUs := by
  rw [enqueueStart]
  split_ifs
  · exact Or.inl ⟨_, rfl⟩
  · exact Or.inl ⟨_, rfl⟩
  · exact Or.inl ⟨_, rfl⟩
  · exact Or.inl ⟨_, rfl⟩
  · exact Or.inr rfl

theorem executorFetchStep_moved (hstep : executorFetchStep lib c s w = some (s', w')) :
    Moved lib s w s' w' := by
  cases w with
  | looking =>
      cases hstep
      refine .looks ?_
      split_ifs
      · exact Or.inl rfl
      · exact Or.inr rfl
  | fetching =>
      rw [executorFetchStep] at hstep
      obtain ⟨dst, ret, hstart⟩ | hstart :=
        dequeueStart_cases s.taskQ.consumer (-1) c.lock.ret c.lock.errno
      · rw [hstart] at hstep
        cases hstep
        exact .gives_up
      · rw [hstart] at hstep
        dsimp only at hstep
        split_ifs at hstep with hfree
        cases hstep
        exact .starts_dequeue hstart (Bool.eq_false_iff.mpr hfree)
  | dequeuing pc =>
      obtain ⟨q, hconsume, heq⟩ := Option.map_eq_some_iff.mp hstep
      cases pc with
      | returning task ret =>
          dsimp only at heq
          split_ifs at heq with hret hmagic
          · cases heq
            exact .fetches_nothing hconsume hret
          · obtain rfl := not_not.mp hret
            cases heq
            exact .fetches_task hconsume hmagic
          · obtain rfl := not_not.mp hret
            cases heq
            exact .fetches_other hconsume (Bool.eq_false_iff.mpr hmagic)
      | idle | waiting | polling | metadata | reading =>
          cases heq
          exact .dequeues hconsume (fun _ _ h => by cases h)
  | calling address task =>
      cases hstep
      exact @Moved.calls lib s ⟨task, address, c.ret, c.data⟩
  | answering call =>
      rw [executorFetchStep] at hstep
      obtain ⟨ret, hstart⟩ | hstart :=
        enqueueStart_cases s.resQ.producer call.response (-1) c.lock.ret c.lock.errno
      · rw [hstart] at hstep
        cases hstep
        exact .drops
      · rw [hstart] at hstep
        dsimp only at hstep
        split_ifs at hstep with hfree
        cases hstep
        exact .starts_enqueue hstart (Bool.eq_false_iff.mpr hfree)
  | enqueuing call pc =>
      obtain ⟨q, hproduce, heq⟩ := Option.map_eq_some_iff.mp hstep
      cases pc with
      | returning src ret =>
          dsimp only at heq
          split_ifs at heq with hret
          · obtain rfl := hret
            cases heq
            exact .sends hproduce
          · cases heq
            exact .fails hproduce hret
      | idle | waiting | polling | writing =>
          cases heq
          exact .enqueues hproduce (fun _ _ h => by cases h)
  | exited => cases hstep

end Moves

/-! ### The queues -/

section Queues

variable {n : Nat} {lib : Securec} {s s' : Tasklet} {i : Nat} {w w' : WorkerPc}

structure TaskSide (n : Nat) (s : Tasklet) : Prop where
  queue : Xtasklet.Inv n s.tasks
  exclusive : Exclusive WorkerPc.dequeuing? s.taskQ.consumer.concurrent s.taskSync s.workers

structure ResultSide (n : Nat) (s : Tasklet) : Prop where
  queue : Xtasklet.Inv n s.results
  exclusive : Exclusive WorkerPc.enqueuing? s.resQ.producer.concurrent s.resSync s.workers

theorem tasks_eq {o : Option ConsumerPc} (h : occupant WorkerPc.dequeuing? s.workers = o) :
    s.tasks = { s.taskQ with consumerPc := o.getD .idle } := by
  rw [Tasklet.tasks, h]

theorem results_eq {o : Option (Call × ProducerPc)} (h : occupant WorkerPc.enqueuing? s.workers = o) :
    s.results = { s.resQ with producerPc := (o.map Prod.snd).getD .idle } := by
  rw [Tasklet.results, h]

theorem TaskSide.of_stepped {guarded locked : Bool} {before after : Option ConsumerPc}
    (hstepped : Stepped WorkerPc.dequeuing? guarded locked s.workers s'.workers before after)
    (hguarded : s'.taskQ.consumer.concurrent = guarded) (hlocked : s'.taskSync = locked)
    (hinv : Xtasklet.Inv n { s'.taskQ with consumerPc := after.getD .idle }) : TaskSide n s' := by
  subst hguarded hlocked
  refine ⟨?_, hstepped.exclusive⟩
  rw [tasks_eq hstepped.after]
  exact hinv

theorem ResultSide.of_stepped {guarded locked : Bool} {before after : Option (Call × ProducerPc)}
    (hstepped : Stepped WorkerPc.enqueuing? guarded locked s.workers s'.workers before after)
    (hguarded : s'.resQ.producer.concurrent = guarded) (hlocked : s'.resSync = locked)
    (hinv : Xtasklet.Inv n { s'.resQ with producerPc := (after.map Prod.snd).getD .idle }) :
    ResultSide n s' := by
  subst hguarded hlocked
  refine ⟨?_, hstepped.exclusive⟩
  rw [results_eq hstepped.after]
  exact hinv

theorem TaskSide.elsewhere (h : TaskSide n s) (hw : s.workers[i]? = some w)
    (hout : w.dequeuing? = none) (hout' : w'.dequeuing? = none) {t : Tasklet} (hq : t.taskQ = s.taskQ)
    (hlocked : t.taskSync = s.taskSync) : TaskSide n { t with workers := s.workers.set i w' } :=
  .of_stepped (h.exclusive.elsewhere hw hout hout') (by rw [hq]) hlocked (by rw [hq]; exact h.queue)

theorem ResultSide.elsewhere (h : ResultSide n s) (hw : s.workers[i]? = some w)
    (hout : w.enqueuing? = none) (hout' : w'.enqueuing? = none) {t : Tasklet} (hq : t.resQ = s.resQ)
    (hlocked : t.resSync = s.resSync) : ResultSide n { t with workers := s.workers.set i w' } :=
  .of_stepped (h.exclusive.elsewhere hw hout hout') (by rw [hq]) hlocked (by rw [hq]; exact h.queue)

variable (hn : 0 < n) (hmax : n * entrySize < 2 ^ 31) (hlib : lib.CopiesWithinMax)

include hn hmax hlib

/-- A step of a worker on the queue of the tasks is one of the queue. -/
theorem TaskSide.consume (h : TaskSide n s) {pc : ConsumerPc}
    (hocc : occupant WorkerPc.dequeuing? s.workers = some pc) {o : Outcome} {q : Xtasklet.State}
    (hstep : Xtasklet.consume lib o { s.taskQ with consumerPc := pc } = some q) :
    Xtasklet.Inv n q := by
  have hinv := h.queue
  rw [tasks_eq hocc] at hinv
  exact hinv.step_inv (a := .consume o) hn hmax hlib trivial hstep

theorem ResultSide.produce (h : ResultSide n s) {call : Call} {pc : ProducerPc}
    (hocc : occupant WorkerPc.enqueuing? s.workers = some (call, pc)) {o : Outcome} {q : Xtasklet.State}
    (hstep : Xtasklet.produce lib o { s.resQ with producerPc := pc } = some q) :
    Xtasklet.Inv n q := by
  have hinv := h.queue
  rw [results_eq hocc] at hinv
  exact hinv.step_inv (a := .produce o) hn hmax hlib trivial hstep

theorem TaskSide.leave (h : TaskSide n s) {pc : ConsumerPc}
    (hw : s.workers[i]? = some (.dequeuing pc)) (hout : w'.dequeuing? = none) {o : Outcome}
    {q : Xtasklet.State} (hstep : Xtasklet.consume lib o { s.taskQ with consumerPc := pc } = some q)
    (hidle : q.consumerPc = .idle) {t : Tasklet} (hq : t.taskQ = { q with consumerPc := .idle })
    (hlocked : t.taskSync = false) : TaskSide n { t with workers := s.workers.set i w' } := by
  have hstepped := h.exclusive.leave hw rfl hout
  have hinv := h.consume hn hmax hlib hstepped.before hstep
  refine .of_stepped hstepped ?_ hlocked ?_
  · dsimp only
    rw [hq]
    exact (consume_stepped hstep).concurrent
  · dsimp only
    rw [hq, Option.getD_none, ← hidle]
    exact hinv

theorem ResultSide.leave (h : ResultSide n s) {call : Call} {pc : ProducerPc}
    (hw : s.workers[i]? = some (.enqueuing call pc)) (hout : w'.enqueuing? = none) {o : Outcome}
    {q : Xtasklet.State} (hstep : Xtasklet.produce lib o { s.resQ with producerPc := pc } = some q)
    (hidle : q.producerPc = .idle) {t : Tasklet} (hq : t.resQ = { q with producerPc := .idle })
    (hlocked : t.resSync = false) : ResultSide n { t with workers := s.workers.set i w' } := by
  have hstepped := h.exclusive.leave hw rfl hout
  have hinv := h.produce hn hmax hlib hstepped.before hstep
  refine .of_stepped hstepped ?_ hlocked ?_
  · dsimp only
    rw [hq]
    exact (produce_stepped hstep).concurrent
  · dsimp only
    rw [hq, Option.map_none, Option.getD_none, ← hidle]
    exact hinv

theorem TaskSide.moved (h : TaskSide n s) (hw : s.workers[i]? = some w)
    (hmoved : Moved lib s w s' w') : TaskSide n { s' with workers := s.workers.set i w' } := by
  cases hmoved with
  | looks hlooks => rcases hlooks with rfl | rfl <;> exact h.elsewhere hw rfl rfl rfl rfl
  | gives_up | calls | drops | starts_enqueue | enqueues | sends | fails =>
      exact h.elsewhere hw rfl rfl rfl rfl
  | @starts_dequeue lock pc hstart hfree =>
      have hstepped := h.exclusive.enter (u := .dequeuing pc) hw rfl hfree rfl
      refine .of_stepped hstepped rfl rfl ?_
      have hinv := h.queue
      rw [tasks_eq hstepped.before] at hinv
      refine hinv.step_inv (a := .dequeue (-1) lock.ret lock.errno) hn hmax hlib trivial ?_
      rw [Xtasklet.step, Option.getD_none, Option.getD_some, if_pos rfl, hstart]
  | @dequeues o pc q hstep hpc =>
      have hstepped := h.exclusive.stay (u := .dequeuing q.consumerPc) hw rfl rfl
      exact .of_stepped hstepped (consume_stepped hstep).concurrent rfl
        (h.consume hn hmax hlib hstepped.before hstep)
  | fetches_nothing hstep | fetches_other hstep | fetches_task hstep =>
      exact h.leave hn hmax hlib hw rfl hstep (consume_returning hstep).1 rfl rfl

theorem ResultSide.moved (h : ResultSide n s) (hw : s.workers[i]? = some w)
    (hsized : ∀ (call : Call) (lock : Outcome) (src : List UInt8) (t : Int), w = .answering call →
      enqueueStart s.resQ.producer call.response (-1) lock.ret lock.errno = .waiting src t →
      Sized n call.response)
    (hmoved : Moved lib s w s' w') : ResultSide n { s' with workers := s.workers.set i w' } := by
  cases hmoved with
  | looks hlooks => rcases hlooks with rfl | rfl <;> exact h.elsewhere hw rfl rfl rfl rfl
  | gives_up | calls | drops | starts_dequeue | dequeues | fetches_nothing | fetches_other
  | fetches_task => exact h.elsewhere hw rfl rfl rfl rfl
  | @starts_enqueue call lock src t hstart hfree =>
      have hstepped := h.exclusive.enter (u := .enqueuing call (.waiting src t)) hw rfl hfree rfl
      refine .of_stepped hstepped rfl rfl ?_
      have hinv := h.queue
      rw [results_eq hstepped.before] at hinv
      refine hinv.step_inv (a := .enqueue call.response (-1) lock.ret lock.errno) hn hmax hlib
        (hsized call lock src t rfl hstart) ?_
      rw [Xtasklet.step, Option.map_none, Option.getD_none, Option.map_some, Option.getD_some, if_pos rfl,
        hstart]
  | @enqueues call o pc q hstep hpc =>
      have hstepped := h.exclusive.stay (u := .enqueuing call q.producerPc) hw rfl rfl
      exact .of_stepped hstepped (produce_stepped hstep).concurrent rfl
        (h.produce hn hmax hlib hstepped.before hstep)
  | sends hstep | fails hstep =>
      exact h.leave hn hmax hlib hw rfl hstep (produce_returning hstep).1 rfl rfl

end Queues

/-! ### The accounts -/

section Accounts

variable {n : Nat} {lib : Securec} {s s' : Tasklet} {i : Nat} {w w' : WorkerPc}

/-- What became of the messages that were fetched, and of the calls. -/
structure Accounts (s : Tasklet) : Prop where
  fetched : (s.taskQ.delivered : Multiset (List UInt8)) =
    s.refused + inHand WorkerPc.toCall s.workers + s.calls.map Call.task
  called : (s.calls : Multiset Call) = s.sent + s.failed + inHand WorkerPc.toSend s.workers
  enqueued : s.resQ.enqueued = s.sent.map Call.response
  refused_other : ∀ msg ∈ s.refused, isTask msg = false
  calls_task : ∀ call ∈ s.calls, isTask call.task = true

/-- A ring of this many entries takes the message, and a task has the header and says its length. -/
def Fits (n : Nat) (msg : List UInt8) : Prop :=
  Sized n msg ∧ HoldsHeader { isProducer := true, concurrent := false, entriesNr := n } msg

def WorkerPc.Sound (n : Nat) : WorkerPc → Prop
  | .calling _ task => Fits n task ∧ isTask task = true
  | .answering call => Fits n call.task ∧ isTask call.task = true
  | .enqueuing call pc => pc.inProgress = [call.response]
  | _ => True

structure Sound (n : Nat) (s : Tasklet) : Prop where
  submitted : ∀ msg ∈ s.submitted, Fits n msg
  workers : ∀ w ∈ s.workers, w.Sound n

theorem Fits.isTask_eq {task : List UInt8} (h : Fits n task) (address : Nat) :
    (dequeuedTaskCreate address task).2 = isTask task :=
  dequeuedTaskCreate_magic address h.2.1

theorem Fits.sized_response {call : Call} (h : Fits n call.task) (htask : isTask call.task = true)
    {resQ : BlockingQueue} (hn : resQ.entriesNr = n) {lock : Outcome} {src : List UInt8} {t : Int}
    (hstart : enqueueStart resQ call.response (-1) lock.ret lock.errno = .waiting src t) :
    Sized n call.response :=
  call.sized_response hn h.1 ((holdsHeader_congr hn.symm call.task).mp h.2) htask hstart

theorem Sound.set (h : Sound n s) (hsound : w'.Sound n) : ∀ w ∈ s.workers.set i w', w.Sound n := by
  intro w hw
  rcases List.mem_or_eq_of_mem_set hw with hmem | rfl
  · exact h.workers w hmem
  · exact hsound

/-- A worker with nothing in hand, before and after. -/
theorem Accounts.idle (h : Accounts s) (hw : s.workers[i]? = some w) {t : Tasklet}
    (hdelivered : t.taskQ.delivered = s.taskQ.delivered) (henqueued : t.resQ.enqueued = s.resQ.enqueued)
    (hcalls : t.calls = s.calls) (hrefused : t.refused = s.refused) (hsent : t.sent = s.sent)
    (hfailed : t.failed = s.failed) (htoCall : w'.toCall = w.toCall) (htoSend : w'.toSend = w.toSend) :
    Accounts { t with workers := s.workers.set i w' } := by
  have hcall := inHand_set WorkerPc.toCall hw w'
  have hsend := inHand_set WorkerPc.toSend hw w'
  rw [htoCall, add_left_inj] at hcall
  rw [htoSend, add_left_inj] at hsend
  refine ⟨?_, ?_, ?_, ?_, ?_⟩
  · dsimp only
    rw [hdelivered, hrefused, hcalls, hcall, h.fetched]
  · dsimp only
    rw [hcalls, hsent, hfailed, hsend, h.called]
  · dsimp only
    rw [henqueued, hsent, h.enqueued]
  · dsimp only
    rw [hrefused]
    exact h.refused_other
  · dsimp only
    rw [hcalls]
    exact h.calls_task

theorem Accounts.moved (h : Accounts s) (hsound : Sound n s) (hw : s.workers[i]? = some w)
    (hfits : ∀ msg ∈ s'.taskQ.delivered, Fits n msg) (hmoved : Moved lib s w s' w') :
    Accounts { s' with workers := s.workers.set i w' } := by
  have hcall := inHand_set WorkerPc.toCall hw w'
  have hsend := inHand_set WorkerPc.toSend hw w'
  cases hmoved with
  | looks hlooks =>
      rcases hlooks with rfl | rfl <;> exact h.idle hw rfl rfl rfl rfl rfl rfl rfl rfl
  | gives_up | starts_dequeue | starts_enqueue =>
      exact h.idle hw rfl rfl rfl rfl rfl rfl rfl rfl
  | @dequeues o pc q hstep hpc =>
      have hdelivered := consume_delivered hstep hpc
      exact h.idle hw hdelivered rfl rfl rfl rfl rfl rfl rfl
  | @enqueues call o pc q hstep hpc =>
      have henqueued := (produce_inProgress hstep hpc).2
      exact h.idle hw rfl henqueued rfl rfl rfl rfl rfl rfl
  | fetches_nothing hstep hret =>
      exact h.idle hw ((consume_returning hstep).2.trans (if_neg hret)) rfl rfl rfl rfl rfl rfl rfl
  | @fetches_other o task q hstep address hmagic =>
      have hdelivered : q.delivered = s.taskQ.delivered ++ [task] := (consume_returning hstep).2
      have htask : isTask task = false := by
        have hmem : task ∈ q.delivered := by
          rw [hdelivered]
          exact List.mem_append_right _ (List.mem_singleton_self task)
        rw [← (hfits task hmem).isTask_eq address]
        exact hmagic
      simp only [WorkerPc.toCall, WorkerPc.toSend, add_zero] at hcall hsend
      refine { h with fetched := ?_, called := ?_, refused_other := ?_ }
      · dsimp only
        rw [hdelivered, hcall, ← Multiset.coe_add, ← Multiset.coe_add, h.fetched]
        abel
      · rw [hsend, h.called]
      · rintro msg hmsg
        rcases List.mem_append.mp hmsg with hmsg | hmsg
        · exact h.refused_other msg hmsg
        · exact List.mem_singleton.mp hmsg ▸ htask
  | @fetches_task o task q hstep address hmagic =>
      have hdelivered : q.delivered = s.taskQ.delivered ++ [task] := (consume_returning hstep).2
      simp only [WorkerPc.toCall, WorkerPc.toSend, add_zero] at hcall hsend
      refine { h with fetched := ?_, called := ?_ }
      · dsimp only
        rw [hdelivered, hcall, ← Multiset.coe_add, h.fetched, Multiset.coe_singleton]
        abel
      · rw [hsend, h.called]
  | @calls call =>
      have htask := (hsound.workers _ (List.mem_of_getElem? hw)).2
      simp only [WorkerPc.toCall, WorkerPc.toSend, add_zero] at hcall hsend
      refine { h with fetched := ?_, called := ?_, calls_task := ?_ }
      · dsimp only
        rw [List.map_append, ← Multiset.coe_add, h.fetched, ← hcall, List.map_singleton,
          Multiset.coe_singleton]
        abel
      · rw [hsend, ← Multiset.coe_add, h.called, Multiset.coe_singleton]
        abel
      · rintro c hc
        rcases List.mem_append.mp hc with hc | hc
        · exact h.calls_task c hc
        · exact List.mem_singleton.mp hc ▸ htask
  | @drops call =>
      simp only [WorkerPc.toCall, WorkerPc.toSend, add_zero] at hcall hsend
      refine { h with fetched := ?_, called := ?_ }
      · rw [hcall, h.fetched]
      · dsimp only
        rw [h.called, ← hsend, ← Multiset.coe_add, Multiset.coe_singleton]
        abel
  | @sends call o src q hstep =>
      have hsrc : [src] = [call.response] := hsound.workers _ (List.mem_of_getElem? hw)
      simp only [WorkerPc.toCall, WorkerPc.toSend, add_zero] at hcall hsend
      refine { h with fetched := ?_, called := ?_, enqueued := ?_ }
      · rw [hcall, h.fetched]
      · dsimp only
        rw [h.called, ← hsend, ← Multiset.coe_add, Multiset.coe_singleton]
        abel
      · dsimp only
        rw [(produce_returning hstep).2, if_pos rfl, hsrc, List.map_append, ← h.enqueued]
        rfl
  | @fails call o src ret q hstep hret =>
      simp only [WorkerPc.toCall, WorkerPc.toSend, add_zero] at hcall hsend
      refine { h with fetched := ?_, called := ?_, enqueued := ?_ }
      · rw [hcall, h.fetched]
      · dsimp only
        rw [h.called, ← hsend, ← Multiset.coe_add, Multiset.coe_singleton]
        abel
      · dsimp only
        rw [(produce_returning hstep).2, if_neg hret]
        exact h.enqueued

/-- The workers do not change what is submitted. -/
theorem Moved.submitted (hmoved : Moved lib s w s' w') : s'.submitted = s.submitted := by
  cases hmoved with
  | looks | gives_up | starts_dequeue | calls | drops | starts_enqueue | enqueues | sends | fails => rfl
  | dequeues hstep | fetches_nothing hstep | fetches_other hstep | fetches_task hstep =>
      have hstepped := consume_stepped hstep
      rw [Tasklet.submitted, Tasklet.submitted]
      dsimp only
      rw [hstepped.enqueued, hstepped.producerPc]

theorem Sound.moved (h : Sound n s) (hw : s.workers[i]? = some w)
    (hfits : ∀ msg ∈ s'.taskQ.delivered, Fits n msg) (hmoved : Moved lib s w s' w') :
    Sound n { s' with workers := s.workers.set i w' } := by
  have hsoundw := h.workers _ (List.mem_of_getElem? hw)
  refine ⟨fun msg hmsg => h.submitted msg (hmoved.submitted ▸ hmsg), h.set ?_⟩
  cases hmoved with
  | looks hlooks => rcases hlooks with rfl | rfl <;> trivial
  | gives_up | drops | starts_dequeue | sends | fails | dequeues | fetches_nothing | fetches_other =>
      trivial
  | calls => exact hsoundw
  | @starts_enqueue call lock src t hstart hfree =>
      have hsrc : [src] = [call.response] := by rw [(enqueueStart_waiting hstart).1]
      exact hsrc
  | enqueues hstep hpc => exact (produce_inProgress hstep hpc).1.trans hsoundw
  | @fetches_task o task q hstep address hmagic =>
      have hdelivered : q.delivered = s.taskQ.delivered ++ [task] := (consume_returning hstep).2
      have hmem : task ∈ q.delivered := by
        rw [hdelivered]
        exact List.mem_append_right _ (List.mem_singleton_self task)
      have htask := hfits task hmem
      exact ⟨htask, htask.isTask_eq address ▸ hmagic⟩

end Accounts

/-! ### The other side -/

section OtherSide

variable {n : Nat} {lib : Securec} {s s' : Tasklet} {q q' : Xtasklet.State} {a : Xtasklet.Action}

theorem step_producerStepped (ha : a.ofProducer = true) (hstep : Xtasklet.step lib q a = some q') :
    ProducerStepped q q' := by
  cases a with
  | enqueue src timeoutUs lockRet lockErrno =>
      rw [Xtasklet.step] at hstep
      split_ifs at hstep
      obtain rfl := Option.some.inj hstep
      exact ⟨rfl, rfl, rfl, rfl, rfl⟩
  | produce o => exact produce_stepped hstep
  | interruptProducer =>
      obtain rfl := Option.some.inj hstep
      exact ⟨rfl, rfl, rfl, rfl, rfl⟩
  | dequeue | consume | interruptConsumer => cases ha

theorem step_consumerStepped (ha : a.ofProducer = false) (hstep : Xtasklet.step lib q a = some q') :
    ConsumerStepped q q' := by
  cases a with
  | dequeue timeoutUs lockRet lockErrno =>
      rw [Xtasklet.step] at hstep
      split_ifs at hstep
      obtain rfl := Option.some.inj hstep
      exact ⟨rfl, rfl, rfl, rfl⟩
  | consume o => exact consume_stepped hstep
  | interruptConsumer =>
      obtain rfl := Option.some.inj hstep
      exact ⟨rfl, rfl, rfl, rfl⟩
  | enqueue | produce | interruptProducer => cases ha

/-- Only a call of `BlockingEnqueue` adds to what is submitted. -/
theorem step_submitted (ha : a.ofProducer = true) (hstep : Xtasklet.step lib q a = some q')
    {msg : List UInt8} (hmsg : msg ∈ q'.enqueued ++ q'.producerPc.inProgress) :
    msg ∈ q.enqueued ++ q.producerPc.inProgress ∨
      ∃ timeoutUs lockRet lockErrno, a = .enqueue msg timeoutUs lockRet lockErrno := by
  cases a with
  | enqueue src timeoutUs lockRet lockErrno =>
      rw [Xtasklet.step] at hstep
      split_ifs at hstep
      obtain rfl := Option.some.inj hstep
      refine (List.mem_append.mp hmsg).imp (fun h => List.mem_append_left _ h) fun h => ?_
      have hsrc : (enqueueStart q.producer src timeoutUs lockRet lockErrno).inProgress = [src] := by
        obtain ⟨ret, hstart⟩ | hstart := enqueueStart_cases q.producer src timeoutUs lockRet lockErrno <;>
          rw [hstart] <;> rfl
      rw [hsrc] at h
      obtain rfl := List.mem_singleton.mp h
      exact ⟨_, _, _, rfl⟩
  | produce o =>
      refine Or.inl ?_
      by_cases hpc : ∃ src ret, q.producerPc = .returning src ret
      · obtain ⟨src, ret, hpc⟩ := hpc
        have hreturns : produce lib o { q with producerPc := .returning src ret } = some q' := by
          rw [← hpc]
          exact hstep
        obtain ⟨hidle, henqueued⟩ := produce_returning hreturns
        rw [hidle, henqueued] at hmsg
        rw [hpc]
        split_ifs at hmsg with hret
        · exact List.append_nil (q.enqueued ++ [src]) ▸ hmsg
        · exact List.mem_append_left _ (List.append_nil q.enqueued ▸ hmsg)
      · obtain ⟨hsrc, henqueued⟩ := produce_inProgress hstep fun src ret h => hpc ⟨src, ret, h⟩
        rwa [hsrc, henqueued] at hmsg
  | interruptProducer =>
      obtain rfl := Option.some.inj hstep
      exact Or.inl hmsg
  | dequeue | consume | interruptConsumer => cases ha

end OtherSide

/-! ### Whole runs -/

section Runs

variable {n : Nat} {lib : Securec} {s s' : Tasklet} {a : Action}

structure Inv (n : Nat) (s : Tasklet) : Prop where
  tasks : TaskSide n s
  results : ResultSide n s
  accounts : Accounts s
  sound : Sound n s

/-- What was fetched was submitted. -/
theorem TaskSide.delivered_prefix (h : TaskSide n s) : s.taskQ.delivered <+: s.submitted :=
  h.queue.delivered_prefix

theorem Inv.fits (h : Inv n s) {src : List UInt8} {timeoutUs lockRet lockErrno : Int}
    (hcall : WellSubmitted s (.submit (.enqueue src timeoutUs lockRet lockErrno))) : Fits n src := by
  obtain ⟨tail, pending, hat⟩ := h.results.queue
  have hentries : s.resQ.producer.entriesNr = n := hat.producer_entries
  exact ⟨hentries ▸ hcall.1, (holdsHeader_congr hentries src).mp hcall.2⟩

variable (hn : 0 < n) (hmax : n * entrySize < 2 ^ 31) (hlib : lib.CopiesWithinMax)

include hn hmax hlib

theorem Inv.submit (h : Inv n s) {a : Xtasklet.Action} (hcall : WellSubmitted s (.submit a))
    (ha : a.ofProducer = true) {q : Xtasklet.State} (hstep : Xtasklet.step lib s.taskQ a = some q) :
    Inv n { s with taskQ := q } := by
  have hstepped := step_producerStepped ha hstep
  have hsized : SizedCall n s.tasks a := by
    cases a with
    | enqueue src timeoutUs lockRet lockErrno => exact (h.fits hcall).1
    | dequeue | produce | consume | interruptProducer | interruptConsumer => trivial
  have htasks : Xtasklet.step lib s.tasks a = some { s with taskQ := q : Tasklet }.tasks := by
    rw [Tasklet.tasks, step_setConsumer ha, hstep]
    rfl
  refine ⟨⟨?_, ?_⟩, ⟨h.results.queue, h.results.exclusive⟩, { h.accounts with fetched := ?_ },
    ⟨?_, h.sound.workers⟩⟩
  · exact h.tasks.queue.step_inv hn hmax hlib hsized htasks
  · dsimp only
    rw [hstepped.consumer]
    exact h.tasks.exclusive
  · dsimp only
    rw [hstepped.delivered]
    exact h.accounts.fetched
  · intro msg hmsg
    obtain hold | ⟨timeoutUs, lockRet, lockErrno, rfl⟩ := step_submitted ha hstep hmsg
    · exact h.sound.submitted msg hold
    · exact h.fits hcall

theorem Inv.receive (h : Inv n s) {a : Xtasklet.Action} (ha : a.ofProducer = false)
    {q : Xtasklet.State} (hstep : Xtasklet.step lib s.resQ a = some q) : Inv n { s with resQ := q } := by
  have hstepped := step_consumerStepped ha hstep
  have hsized : SizedCall n s.results a := by
    cases a with
    | enqueue => cases ha
    | dequeue | produce | consume | interruptProducer | interruptConsumer => trivial
  have hresults : Xtasklet.step lib s.results a = some { s with resQ := q : Tasklet }.results := by
    rw [Tasklet.results, step_setProducer ha, hstep]
    rfl
  refine ⟨⟨h.tasks.queue, h.tasks.exclusive⟩, ⟨?_, ?_⟩, { h.accounts with enqueued := ?_ },
    ⟨h.sound.submitted, h.sound.workers⟩⟩
  · exact h.results.queue.step_inv hn hmax hlib hsized hresults
  · dsimp only
    rw [hstepped.producer]
    exact h.results.exclusive
  · dsimp only
    rw [hstepped.enqueued]
    exact h.accounts.enqueued

theorem Inv.work (h : Inv n s) {i : Nat} {w w' : WorkerPc} (hw : s.workers[i]? = some w)
    (hmoved : Moved lib s w s' w') : Inv n { s' with workers := s.workers.set i w' } := by
  have htasks := h.tasks.moved hn hmax hlib hw hmoved
  have hfits : ∀ msg ∈ s'.taskQ.delivered, Fits n msg := by
    intro msg hmsg
    have hmem : msg ∈ s'.submitted := htasks.delivered_prefix.subset hmsg
    exact h.sound.submitted msg (hmoved.submitted ▸ hmem)
  refine ⟨htasks, ?_, h.accounts.moved h.sound hw hfits hmoved, h.sound.moved hw hfits hmoved⟩
  refine h.results.moved hn hmax hlib hw ?_ hmoved
  rintro call lock src t rfl hstart
  obtain ⟨tail, pending, hat⟩ := h.results.queue
  obtain ⟨hcall, htask⟩ := h.sound.workers _ (List.mem_of_getElem? hw)
  exact hcall.sized_response htask hat.producer_entries hstart

theorem Inv.step (h : Inv n s) (hcall : WellSubmitted s a) (hstep : step lib s a = some s') :
    Inv n s' := by
  cases a with
  | submit a =>
      rw [Service.step] at hstep
      split_ifs at hstep with ha
      obtain ⟨q, hq, rfl⟩ := Option.map_eq_some_iff.mp hstep
      exact h.submit hn hmax hlib hcall ha hq
  | receive a =>
      rw [Service.step] at hstep
      split_ifs at hstep with ha
      obtain ⟨q, hq, rfl⟩ := Option.map_eq_some_iff.mp hstep
      exact h.receive hn hmax hlib (Bool.eq_false_iff.mpr ha) hq
  | work i c =>
      obtain ⟨w, hw, hstep⟩ := Option.bind_eq_some_iff.mp hstep
      obtain ⟨⟨t, w'⟩, hfetch, rfl⟩ := Option.map_eq_some_iff.mp hstep
      have hmoved := executorFetchStep_moved hfetch
      have hworkers : t.workers = s.workers := by cases hmoved <;> rfl
      dsimp only
      rw [hworkers]
      exact h.work hn hmax hlib hw hmoved
  | terminate =>
      obtain rfl := Option.some.inj hstep
      exact ⟨⟨h.tasks.queue, h.tasks.exclusive⟩, ⟨h.results.queue, h.results.exclusive⟩,
        { h.accounts with }, ⟨h.sound.submitted, h.sound.workers⟩⟩
  | interruptResQ =>
      obtain rfl := Option.some.inj hstep
      have hinv := h.results.queue.step_inv (a := .interruptProducer) hn hmax hlib trivial rfl
      exact ⟨⟨h.tasks.queue, h.tasks.exclusive⟩, ⟨hinv, h.results.exclusive⟩, { h.accounts with },
        ⟨h.sound.submitted, h.sound.workers⟩⟩
  | interruptTaskQ =>
      obtain rfl := Option.some.inj hstep
      have hinv := h.tasks.queue.step_inv (a := .interruptConsumer) hn hmax hlib trivial rfl
      exact ⟨⟨hinv, h.tasks.exclusive⟩, ⟨h.results.queue, h.results.exclusive⟩, { h.accounts with },
        ⟨h.sound.submitted, h.sound.workers⟩⟩

omit hn hmax hlib

end Runs

/-! ### Two workers -/

/-- What a call returns that does not fail. -/
def succeeds : Outcome := { errno_of_failure := errno_of_success }

end Service

end ITrustee.Xtasklet
