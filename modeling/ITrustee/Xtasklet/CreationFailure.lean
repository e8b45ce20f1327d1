import Mathlib.Tactic
import ITrustee.Foundation.Machine
import ITrustee.Foundation.RefCount
import ITrustee.Xtasklet.BlockingQueue

/-!
# Creation that fails

`XtaskletCreate` with all its labels, `XtaskletDestroy`, and the workers. What a thread touches are
whole objects: the tasklet, the array of its threads, its two queues. A use of one that is not allocated
marks the run. The interrupt handler that `XtaskletCreate` passes is NULL, so the first loop of
`ThreadPoolFinalize` does nothing, and the lock of a queue only delays a worker.

Cleaning up is a list of what remains to be done, so that a label is the list of what follows it.
-/

namespace ITrustee.Xtasklet.CreationFailure

/-! ### Objects -/

inductive QueueName where
  | taskQ
  | resQ
  deriving DecidableEq

structure Queue where
  live : Bool := false
  interrupt : Bool := false
  deriving DecidableEq

/-- `tl` and `ths` are allocated or not. The counts of references to the queues stand apart, since
they change while the workers run. -/
structure Memory where
  tl : Bool := false
  ths : Bool := false
  terminated : Bool := false
  taskQ : Queue := {}
  resQ : Queue := {}
  deriving DecidableEq

namespace Memory

def queue (m : Memory) : QueueName → Queue
  | .taskQ => m.taskQ
  | .resQ => m.resQ

def setQueue (m : Memory) (q : QueueName) (queue : Queue) : Memory :=
  match q with
  | .taskQ => { m with taskQ := queue }
  | .resQ => { m with resQ := queue }

end Memory

/-! ### Workers -/

/-- Where a thread stands in `ThreadExecuteTask` and `ExecutorFetch`. -/
inductive WorkerPc where
  | unstarted
  | starting
  /-- Before the load of `tl->terminated`. -/
  | checking
  /-- Before the `RefQueue` of `BlockingDequeue` or `BlockingEnqueue`. -/
  | entering (q : QueueName)
  /-- In the loop of `WaitEmpty` or `WaitFull`. -/
  | waiting (q : QueueName)
  /-- Before the `DerefQueue`. -/
  | leaving (q : QueueName) (ret : Int)
  /-- `DequeuedTaskCreate` failed. -/
  | failed
  | fetched
  /-- In the handler. -/
  | calling
  | exited
  deriving DecidableEq

namespace WorkerPc

def runs : WorkerPc → Bool
  | .unstarted | .exited => false
  | _ => true

/-- The worker has a reference to the queue. -/
def holds (q : QueueName) : WorkerPc → Bool
  | .waiting q' | .leaving q' _ => q = q'
  | _ => false

end WorkerPc

/-! ### The thread that creates and destroys -/

/-- A step of the cleaning up. -/
inductive Op where
  /-- The store to `tl->terminated`. -/
  | terminate
  | interrupt (q : QueueName)
  /-- The `pthread_join` of a thread that was initiated. -/
  | join (i : Nat)
  | freeThs
  | destroy (q : QueueName)
  | freeTl
  deriving DecidableEq

/-- The labels of `XtaskletCreate`. -/
def freeTl : List Op := [.freeTl]

def destroyTaskQ : List Op := .interrupt .taskQ :: .destroy .taskQ :: freeTl

def destroyResQ : List Op := .interrupt .resQ :: .destroy .resQ :: destroyTaskQ

def threadPoolFinalize (size : Nat) : List Op := (List.range size).map Op.join ++ [.freeThs]

def xtaskletDestroy (size : Nat) : List Op :=
  [.terminate, .interrupt .resQ, .interrupt .taskQ] ++ (threadPoolFinalize size ++
    [.destroy .resQ, .destroy .taskQ, .freeTl])

inductive Caller where
  | xtaskletCreate
  | xtaskletDestroy
  deriving DecidableEq

inductive OwnerPc where
  | allocatingTl
  | creatingTaskQ
  | creatingResQ
  | allocatingThs
  | spawning (i : Nat)
  /-- Before `tl->priv = props->priv`. -/
  | storingPriv
  | created
  /-- With nothing left to do, the caller has returned: `XtaskletCreate` a failure. -/
  | cleaning (caller : Caller) (ops : List Op)
  deriving DecidableEq

structure State where
  workers : List WorkerPc
  mem : Memory := {}
  taskRefs : Nat := 0
  resRefs : Nat := 0
  owner : OwnerPc := .allocatingTl
  /-- Something was used that was not allocated, or no longer. -/
  misused : Bool := false
  deriving DecidableEq

/-- What the calls of a worker's step return: `waits` if there is nothing to dequeue or no room. -/
structure Outcome where
  waits : Bool := false
  tooLarge : Bool := false
  ret : Int := 0

namespace State

def use (s : State) (allocated : Bool) : State := { s with misused := s.misused || !allocated }

def refs (s : State) : QueueName → Nat
  | .taskQ => s.taskRefs
  | .resQ => s.resRefs

def setRefs (s : State) (q : QueueName) (n : Nat) : State :=
  match q with
  | .taskQ => { s with taskRefs := n }
  | .resQ => { s with resRefs := n }

def refQueue (s : State) (q : QueueName) : State := s.setRefs q (s.refs q + 1)

/-- `DerefQueue` frees the queue with its last reference. -/
def derefQueue (s : State) (q : QueueName) : State :=
  if s.refs q = 1 then
    { s.setRefs q 0 with mem := s.mem.setQueue q { s.mem.queue q with live := false } }
  else s.setRefs q (s.refs q - 1)

end State

section Model

/-- A step of `ThreadExecuteTask`. -/
def workerStep (o : Outcome) (s : State) : WorkerPc → Option (State × WorkerPc)
  | .unstarted | .exited => none
  | .starting => some (s.use s.mem.ths, .checking)
  | .checking =>
      some (s.use s.mem.tl, if s.mem.terminated then .exited else .entering .taskQ)
  | .entering q =>
      let s := s.use (s.mem.tl && (s.mem.queue q).live)
      if q = .resQ ∧ o.tooLarge then some (s, .checking)
      else some (s.refQueue q, if o.ret ≠ 0 then .leaving q o.ret else .waiting q)
  | .waiting q =>
      let s := s.use (s.mem.queue q).live
      if (s.mem.queue q).interrupt then some (s, .leaving q interrupted)
      else some (s, if o.waits then .waiting q else .leaving q o.ret)
  | .leaving q ret =>
      some ((s.use (s.mem.queue q).live).derefQueue q,
        if q = .resQ then .checking else if ret ≠ 0 ∨ o.ret ≠ 0 then .failed else .fetched)
  | .failed => some (s.use s.mem.tl, .checking)
  | .fetched => some (s.use s.mem.tl, .calling)
  | .calling => some (s, .entering .resQ)

/-- What a step of the cleaning up uses is allocated. -/
def Op.allocated (m : Memory) : Op → Bool
  | .terminate | .freeTl => m.tl
  | .interrupt q | .destroy q => m.tl && (m.queue q).live
  | .join _ | .freeThs => m.tl && m.ths

def opStep (op : Op) (s : State) : Option State :=
  let s := s.use (op.allocated s.mem)
  match op with
  | .terminate => some { s with mem := { s.mem with terminated := true } }
  | .interrupt q =>
      some { s with mem := s.mem.setQueue q { s.mem.queue q with interrupt := true } }
  | .join i =>
      match s.workers[i]? with
      | none => none
      | some w => if w.runs then none else some s
  | .freeThs => some { s with mem := { s.mem with ths := false } }
  -- a queue that was not interrupted is not destroyed
  | .destroy q => some (if (s.mem.queue q).interrupt then s.derefQueue q else s)
  | .freeTl => some { s with mem := { s.mem with tl := false } }

/-- A step of `XtaskletCreate`, and of `XtaskletDestroy` once that has succeeded. `ret` is what the
call made in this step returns, with anything but 0 for an allocation that fails. -/
def ownerStep (ret : Int) (s : State) : Option State :=
  match s.owner with
  | .allocatingTl =>
      if ret ≠ 0 then some { s with owner := .cleaning .xtaskletCreate [] }
      else some { s with mem := { s.mem with tl := true }, owner := .creatingTaskQ }
  | .creatingTaskQ =>
      let s := s.use s.mem.tl
      if ret ≠ 0 then some { s with owner := .cleaning .xtaskletCreate freeTl }
      else some { s with
        mem := { s.mem with taskQ := { live := true } }
        taskRefs := 1
        owner := .creatingResQ }
  | .creatingResQ =>
      let s := s.use s.mem.tl
      if ret ≠ 0 then some { s with owner := .cleaning .xtaskletCreate destroyTaskQ }
      else some { s with
        mem := { s.mem with resQ := { live := true } }
        resRefs := 1
        owner := .allocatingThs }
  | .allocatingThs =>
      let s := s.use s.mem.tl
      if ret ≠ 0 then some { s with owner := .cleaning .xtaskletCreate destroyResQ }
      else some { s with mem := { s.mem with ths := true }, owner := .spawning 0 }
  | .spawning i =>
      let s := s.use (s.mem.tl && s.mem.ths)
      if i < s.workers.length then
        if ret ≠ 0 then
          some { s with
            owner := .cleaning .xtaskletCreate
              (threadPoolFinalize s.workers.length ++ destroyResQ) }
        else some { s with workers := s.workers.set i .starting, owner := .spawning (i + 1) }
      else some { s with owner := .storingPriv }
  | .storingPriv => some { s.use s.mem.tl with owner := .created }
  | .created =>
      some { s with owner := .cleaning .xtaskletDestroy (xtaskletDestroy s.workers.length) }
  | .cleaning _ [] => none
  | .cleaning caller (op :: ops) =>
      (opStep op s).map fun s => { s with owner := .cleaning caller ops }

inductive Action where
  | owner (ret : Int)
  | work (i : Nat) (o : Outcome)

def step (s : State) : Action → Option State
  | .owner ret => ownerStep ret s
  | .work i o =>
      (s.workers[i]?.bind (workerStep o s)).map fun r =>
        { r.1 with workers := r.1.workers.set i r.2 }

def creating (concurrency : Nat) : State := { workers := List.replicate concurrency .unstarted }

/-! ### Specification -/

/-- The workers are told to stop, and none of them can go on waiting. -/
def Memory.Stopping (m : Memory) : Prop :=
  m.terminated = true ∧ ∀ q, (m.queue q).interrupt = true

structure CleansUp (s : State) : Prop where
  /-- A worker that was started is joined only once it was told to stop. -/
  stopping (caller : Caller) (i : Nat) (ops : List Op) (w : WorkerPc) :
    s.owner = .cleaning caller (.join i :: ops) → s.workers[i]? = some w → w ≠ .unstarted →
      s.mem.Stopping
  returned (caller : Caller) (w : WorkerPc) :
    s.owner = .cleaning caller [] → w ∈ s.workers → w.runs = false
  unused : s.misused = false

/-- A `pthread_create` that fails is the first. -/
def FirstFails (s : State) : Action → Prop
  | .owner ret => ∀ i, s.owner = .spawning i → i < s.workers.length → ret ≠ 0 → i = 0
  | .work _ _ => True

end Model

/-! ### Memory and references -/

section Steps

variable {s s' : State} {m : Memory} {q q' : QueueName} {w : WorkerPc} {op : Op} {ops : List Op}

theorem queue_setQueue (m : Memory) (q : QueueName) (queue : Queue) (q' : QueueName) :
    (m.setQueue q queue).queue q' = if q = q' then queue else m.queue q' := by
  cases q <;> cases q' <;> rfl

theorem refs_setRefs (s : State) (q : QueueName) (n : Nat) (q' : QueueName) :
    (s.setRefs q n).refs q' = if q = q' then n else s.refs q' := by
  cases q <;> cases q' <;> rfl

/-- The counts are all that `setRefs` changes. -/
theorem setRefs_frame (s : State) (q : QueueName) (n : Nat) :
    (s.setRefs q n).mem = s.mem ∧ (s.setRefs q n).misused = s.misused ∧
      (s.setRefs q n).owner = s.owner ∧ (s.setRefs q n).workers = s.workers := by
  cases q <;> exact ⟨rfl, rfl, rfl, rfl⟩

theorem use_of_allocated (s : State) {allocated : Bool} (h : allocated = true) :
    s.use allocated = s := by
  rw [h, State.use, Bool.not_true, Bool.or_false]

theorem derefQueue_of_ne_one (h : s.refs q ≠ 1) : s.derefQueue q = s.setRefs q (s.refs q - 1) :=
  if_neg h

theorem derefQueue_of_one (h : s.refs q = 1) :
    s.derefQueue q =
      { s.setRefs q 0 with mem := s.mem.setQueue q { s.mem.queue q with live := false } } :=
  if_pos h

theorem runs_of_started (hstarted : w ≠ .unstarted) (hexited : w ≠ .exited) :
    w.runs = true := by
  cases w <;> simp_all [WorkerPc.runs]

theorem runs_of_holds (h : w.holds q = true) : w.runs = true := by
  cases w <;> simp_all [WorkerPc.runs, WorkerPc.holds]

theorem started_of_runs (h : w.runs = true) : w ≠ .unstarted ∧ w ≠ .exited := by
  constructor
  · rintro rfl
    cases h
  · rintro rfl
    cases h

/-- Everything that a worker uses. -/
structure Memory.Allocated (m : Memory) : Prop where
  tl : m.tl = true
  ths : m.ths = true
  queue (q : QueueName) : (m.queue q).live = true

/-- What a worker's step can be. -/
inductive WorkerMoved (s : State) (w : WorkerPc) : State × WorkerPc → Prop
  | move {w'} (hruns : w'.runs = true) (hholds : ∀ q, w'.holds q = w.holds q) : WorkerMoved s w (s, w')
  | exit (hterminated : s.mem.terminated = true) (hholds : ∀ q, w.holds q = false) :
      WorkerMoved s w (s, .exited)
  | take (q : QueueName) {w'} (hruns : w'.runs = true) (hbefore : ∀ q', w.holds q' = false)
      (hafter : ∀ q', w'.holds q' = decide (q = q')) : WorkerMoved s w (s.refQueue q, w')
  | drop (q : QueueName) {w'} (hruns : w'.runs = true) (hbefore : ∀ q', w.holds q' = decide (q = q'))
      (hafter : ∀ q', w'.holds q' = false) : WorkerMoved s w (s.derefQueue q, w')

theorem workerStep_cases {o : Outcome} {r : State × WorkerPc} (hstep : workerStep o s w = some r) :
    ∃ used, (s.mem.Allocated → used = true) ∧ WorkerMoved (s.use used) w r := by
  cases w with
  | unstarted => cases hstep
  | exited => cases hstep
  | starting =>
    obtain rfl := Option.some.inj hstep
    exact ⟨_, Memory.Allocated.ths, .move rfl fun _ => rfl⟩
  | checking =>
    obtain rfl := Option.some.inj hstep
    refine ⟨_, Memory.Allocated.tl, ?_⟩
    split_ifs with hterminated
    · exact .exit hterminated fun _ => rfl
    · exact .move rfl fun _ => rfl
  | entering q =>
    rw [workerStep] at hstep
    refine ⟨s.mem.tl && (s.mem.queue q).live, fun h => by rw [h.tl, h.queue, Bool.and_true], ?_⟩
    split_ifs at hstep
    · obtain rfl := Option.some.inj hstep
      exact .move rfl fun _ => rfl
    · obtain rfl := Option.some.inj hstep
      exact .take q rfl (fun _ => rfl) fun _ => by simp [WorkerPc.holds, eq_comm]
    · obtain rfl := Option.some.inj hstep
      exact .take q rfl (fun _ => rfl) fun _ => by simp [WorkerPc.holds, eq_comm]
  | waiting q =>
    rw [workerStep] at hstep
    refine ⟨_, fun h => h.queue q, ?_⟩
    split_ifs at hstep
    · obtain rfl := Option.some.inj hstep
      exact .move rfl fun _ => rfl
    · obtain rfl := Option.some.inj hstep
      exact .move rfl fun _ => rfl
    · obtain rfl := Option.some.inj hstep
      exact .move rfl fun _ => rfl
  | leaving q ret =>
    obtain rfl := Option.some.inj hstep
    refine ⟨_, fun h => h.queue q, .drop q ?_ (fun _ => by simp [WorkerPc.holds, eq_comm]) fun _ => ?_⟩
    · split_ifs <;> rfl
    · split_ifs <;> rfl
  | failed =>
    obtain rfl := Option.some.inj hstep
    exact ⟨_, Memory.Allocated.tl, .move rfl fun _ => rfl⟩
  | fetched =>
    obtain rfl := Option.some.inj hstep
    exact ⟨_, Memory.Allocated.tl, .move rfl fun _ => rfl⟩
  | calling =>
    obtain rfl := Option.some.inj hstep
    exact ⟨true, fun _ => rfl, by
      rw [use_of_allocated s rfl]
      exact .move rfl fun _ => rfl⟩

theorem runs_of_workerStep {o : Outcome} {r : State × WorkerPc} (hstep : workerStep o s w = some r) :
    w.runs = true := by
  refine runs_of_started ?_ ?_
  · rintro rfl
    cases hstep
  · rintro rfl
    cases hstep

theorem step_work {i : Nat} {o : Outcome} (hstep : step s (.work i o) = some s') :
    ∃ w r, s.workers[i]? = some w ∧ workerStep o s w = some r ∧
      s' = { r.1 with workers := r.1.workers.set i r.2 } := by
  rw [step] at hstep
  obtain ⟨r, hr, rfl⟩ := Option.map_eq_some_iff.mp hstep
  obtain ⟨w, hw, hwork⟩ := Option.bind_eq_some_iff.mp hr
  exact ⟨w, r, hw, hwork, rfl⟩

theorem derefQueue_frame (s : State) (q : QueueName) :
    (s.derefQueue q).misused = s.misused ∧ (s.derefQueue q).owner = s.owner ∧
      (s.derefQueue q).workers = s.workers ∧ (s.derefQueue q).mem.terminated = s.mem.terminated ∧
      ∀ q', ((s.derefQueue q).mem.queue q').interrupt = (s.mem.queue q').interrupt := by
  rw [State.derefQueue]
  split_ifs
  · cases q <;> exact ⟨rfl, rfl, rfl, rfl, fun q' => by cases q' <;> rfl⟩
  · cases q <;> exact ⟨rfl, rfl, rfl, rfl, fun _ => rfl⟩

/-- What a worker's step leaves alone. -/
structure WorkerStepped (s : State) (r : State × WorkerPc) : Prop where
  terminated : r.1.mem.terminated = s.mem.terminated
  interrupt (q : QueueName) : (r.1.mem.queue q).interrupt = (s.mem.queue q).interrupt
  misused : r.1.misused = s.misused
  owner : r.1.owner = s.owner
  workers : r.1.workers = s.workers
  started : r.2 ≠ .unstarted
  exited : r.2 = .exited → s.mem.terminated = true

theorem WorkerMoved.stepped {r : State × WorkerPc} (h : WorkerMoved s w r) : WorkerStepped s r := by
  cases h with
  | move hruns _ =>
    obtain ⟨hstarted, hexited⟩ := started_of_runs hruns
    exact ⟨rfl, fun _ => rfl, rfl, rfl, rfl, hstarted, fun hr => absurd hr hexited⟩
  | exit hterminated _ =>
    exact ⟨rfl, fun _ => rfl, rfl, rfl, rfl, by simp, fun _ => hterminated⟩
  | take q hruns _ _ =>
    obtain ⟨hstarted, hexited⟩ := started_of_runs hruns
    obtain ⟨hmem, hmisused, howner, hworkers⟩ := setRefs_frame s q (s.refs q + 1)
    exact ⟨congrArg Memory.terminated hmem, fun q => by rw [State.refQueue, hmem], hmisused, howner,
      hworkers, hstarted, fun hr => absurd hr hexited⟩
  | drop q hruns _ _ =>
    obtain ⟨hstarted, hexited⟩ := started_of_runs hruns
    obtain ⟨hmisused, howner, hworkers, hterminated, hinterrupt⟩ := derefQueue_frame s q
    exact ⟨hterminated, hinterrupt, hmisused, howner, hworkers, hstarted,
      fun hr => absurd hr hexited⟩

/-- The counts keep pace with the references of the workers, and no worker frees a queue. -/
theorem WorkerMoved.refs {r : State × WorkerPc} (h : WorkerMoved s w r)
    (hrefs : ∀ q, w.holds q = true → 2 ≤ s.refs q) :
    r.1.mem = s.mem ∧ ∀ q, r.1.refs q + (w.holds q).toNat = s.refs q + (r.2.holds q).toNat := by
  cases h with
  | move _ hholds => exact ⟨rfl, fun q => by rw [hholds q]⟩
  | exit _ hholds => exact ⟨rfl, fun q => by rw [hholds q]; rfl⟩
  | take q _ hbefore hafter =>
    refine ⟨(setRefs_frame s q (s.refs q + 1)).1, fun q' => ?_⟩
    rw [hbefore, hafter, State.refQueue, refs_setRefs]
    by_cases hq : q = q'
    · subst hq
      simp
    · simp [hq]
  | drop q _ hbefore hafter =>
    have hheld := hrefs q (by rw [hbefore, decide_eq_true rfl])
    rw [derefQueue_of_ne_one (by omega)]
    refine ⟨(setRefs_frame s q (s.refs q - 1)).1, fun q' => ?_⟩
    rw [hbefore, hafter, refs_setRefs]
    by_cases hq : q = q'
    · subst hq
      simp
      omega
    · simp [hq]

/-! ### Cleaning up -/

/-- The threads that are still joined before anything is freed. -/
def joinsAhead : List Op → List Nat
  | .join i :: ops => i :: joinsAhead ops
  | .terminate :: ops | .interrupt _ :: ops => joinsAhead ops
  | _ => []

/-- The memory after a step, when no worker has a reference to a queue that is destroyed. -/
def Op.after (m : Memory) : Op → Memory
  | .terminate => { m with terminated := true }
  | .interrupt q => m.setQueue q { m.queue q with interrupt := true }
  | .join _ => m
  | .freeThs => { m with ths := false }
  | .destroy q => m.setQueue q { m.queue q with live := false }
  | .freeTl => { m with tl := false }

/-- What remains to be done uses only what is allocated, destroys only queues that were interrupted
and frees everything; it joins threads that were started only once they were told to stop. -/
def Cleans (started : Bool) (m : Memory) : List Op → Prop
  | [] => m.tl = false ∧ m.ths = false ∧ ∀ q, (m.queue q).live = false
  | op :: ops =>
      op.allocated m = true ∧ (∀ q, op = .destroy q → (m.queue q).interrupt = true) ∧
        (∀ i, op = .join i → started = true → m.Stopping) ∧ Cleans started (op.after m) ops

theorem cleans_interrupt {started : Bool} (htl : m.tl = true) (hlive : (m.queue q).live = true)
    (hrest : Cleans started ((Op.interrupt q).after m) ops) :
    Cleans started m (.interrupt q :: ops) :=
  ⟨Bool.and_eq_true_iff.mpr ⟨htl, hlive⟩, by simp, by simp, hrest⟩

theorem cleans_destroy {started : Bool} (htl : m.tl = true) (hlive : (m.queue q).live = true)
    (hinterrupt : (m.queue q).interrupt = true)
    (hrest : Cleans started ((Op.destroy q).after m) ops) : Cleans started m (.destroy q :: ops) := by
  refine ⟨Bool.and_eq_true_iff.mpr ⟨htl, hlive⟩, fun q' hq' => ?_, by simp, hrest⟩
  obtain rfl := Op.destroy.inj hq'
  exact hinterrupt

theorem cleans_freeTl {started : Bool} (m : Memory) (htl : m.tl = true) (hths : m.ths = false)
    (hqueues : ∀ q, (m.queue q).live = false) : Cleans started m freeTl :=
  ⟨htl, by simp, by simp, rfl, hths, hqueues⟩

theorem cleans_destroyTaskQ {started : Bool} (m : Memory) (htl : m.tl = true) (hths : m.ths = false)
    (htask : m.taskQ.live = true) (hres : m.resQ.live = false) : Cleans started m destroyTaskQ := by
  refine cleans_interrupt htl htask (cleans_destroy htl htask rfl (cleans_freeTl _ htl hths ?_))
  intro q
  cases q with
  | taskQ => rfl
  | resQ => exact hres

theorem cleans_destroyResQ {started : Bool} (m : Memory) (htl : m.tl = true) (hths : m.ths = false)
    (htask : m.taskQ.live = true) (hres : m.resQ.live = true) : Cleans started m destroyResQ :=
  cleans_interrupt htl hres
    (cleans_destroy htl hres rfl (cleans_destroyTaskQ _ htl hths htask rfl))

/-- `ThreadPoolFinalize` changes nothing until it frees the threads. -/
theorem cleans_threadPoolFinalize {started : Bool} (size : Nat) (htl : m.tl = true)
    (hths : m.ths = true) (hstop : started = true → m.Stopping)
    (hrest : Cleans started { m with ths := false } ops) :
    Cleans started m (threadPoolFinalize size ++ ops) := by
  rw [threadPoolFinalize, List.append_assoc]
  induction List.range size with
  | nil => exact ⟨Bool.and_eq_true_iff.mpr ⟨htl, hths⟩, by simp, by simp, hrest⟩
  | cons i is ih =>
    exact ⟨Bool.and_eq_true_iff.mpr ⟨htl, hths⟩, by simp, fun _ _ => hstop, ih⟩

theorem joinsAhead_threadPoolFinalize (size : Nat) (ops : List Op) :
    joinsAhead (threadPoolFinalize size ++ ops) = List.range size := by
  rw [threadPoolFinalize, List.append_assoc]
  induction List.range size with
  | nil => rfl
  | cons i is ih => exact congrArg (i :: ·) ih

theorem cleans_xtaskletDestroy {started : Bool} (size : Nat) (hmem : m.Allocated) :
    Cleans started m (xtaskletDestroy size) := by
  have htask : m.taskQ.live = true := hmem.queue .taskQ
  have hres : m.resQ.live = true := hmem.queue .resQ
  refine ⟨hmem.tl, by simp, by simp, ?_⟩
  refine cleans_interrupt hmem.tl hres (cleans_interrupt hmem.tl htask ?_)
  refine cleans_threadPoolFinalize size hmem.tl hmem.ths (fun _ => ⟨rfl, fun q => ?_⟩) ?_
  · cases q <;> rfl
  · refine cleans_destroy hmem.tl hres rfl (cleans_destroy hmem.tl htask rfl ?_)
    refine cleans_freeTl _ hmem.tl rfl fun q => ?_
    cases q <;> rfl

/-! ### The invariant -/

def NoneStarted (s : State) : Prop := ∀ w ∈ s.workers, w = .unstarted

/-- What is allocated, and which workers were started, where the creating thread stands. -/
def OwnerInv (s : State) : Prop :=
  match s.owner with
  | .allocatingTl => s.mem = {} ∧ NoneStarted s
  | .creatingTaskQ => s.mem = { tl := true } ∧ NoneStarted s
  | .creatingResQ => s.mem = { tl := true, taskQ := { live := true } } ∧ NoneStarted s
  | .allocatingThs =>
      s.mem = { tl := true, taskQ := { live := true }, resQ := { live := true } } ∧ NoneStarted s
  | .spawning i =>
      s.mem.Allocated ∧ s.mem.terminated = false ∧
        ∀ j w, s.workers[j]? = some w → (w = .unstarted ↔ i ≤ j) ∧ w ≠ .exited
  | .storingPriv | .created => s.mem.Allocated
  | .cleaning _ ops =>
      (∀ i w, s.workers[i]? = some w → w.runs = true → i ∈ joinsAhead ops) ∧
        ∃ started, (∀ w ∈ s.workers, w ≠ .unstarted → started = true) ∧ Cleans started s.mem ops

structure Inv (s : State) : Prop where
  unused : s.misused = false
  allocated (w : WorkerPc) : w ∈ s.workers → w.runs = true → s.mem.Allocated
  refs (q : QueueName) : (s.mem.queue q).live = true →
    s.refs q = 1 + s.workers.countP (WorkerPc.holds q)
  owner : OwnerInv s

theorem countP_holds_of_quiet (hquiet : ∀ w ∈ s.workers, w.runs = false) (q : QueueName) :
    s.workers.countP (WorkerPc.holds q) = 0 := by
  refine List.countP_eq_zero.mpr fun w hw hholds => ?_
  exact Bool.false_ne_true ((hquiet w hw).symm.trans (runs_of_holds hholds))

theorem NoneStarted.quiet (h : NoneStarted s) (w : WorkerPc) (hw : w ∈ s.workers) :
    w.runs = false := by
  rw [h w hw]
  rfl

theorem Inv.initial (concurrency : Nat) : Inv (creating concurrency) := by
  have hnone : NoneStarted (creating concurrency) := fun w => List.eq_of_mem_replicate
  refine ⟨rfl, ?_, ?_, rfl, hnone⟩
  · intro w hw hruns
    exact absurd ((hnone.quiet w hw).symm.trans hruns) Bool.false_ne_true
  · intro q hlive
    cases q <;> cases hlive

theorem Inv.cleansUp (h : Inv s) : CleansUp s := by
  refine ⟨?_, ?_, h.unused⟩
  · intro caller i ops w howner hw hstarted
    have hinv := h.owner
    rw [OwnerInv, howner] at hinv
    obtain ⟨-, started, hall, -, -, hjoin, -⟩ := hinv
    exact hjoin i rfl (hall w (List.mem_of_getElem? hw) hstarted)
  · intro caller w howner hw
    have hinv := h.owner
    rw [OwnerInv, howner] at hinv
    obtain ⟨i, hi⟩ := List.getElem?_of_mem hw
    exact Bool.eq_false_iff.mpr fun hruns => List.not_mem_nil (hinv.1 i w hi hruns)

/-- A worker that runs moves, and those that run are among those that ran. -/
theorem OwnerInv.work {t : State} {i : Nat} {w w' : WorkerPc} (h : OwnerInv s)
    (hw : s.workers[i]? = some w) (hruns : w.runs = true) (hstarted : w' ≠ .unstarted)
    (hexited : w' = .exited → s.mem.terminated = true) (hmem : t.mem = s.mem)
    (howner : t.owner = s.owner) (hworkers : t.workers = s.workers.set i w') : OwnerInv t := by
  have hbefore := (started_of_runs hruns).1
  have hnone : ¬ NoneStarted s := fun hnone => hbefore (hnone w (List.mem_of_getElem? hw))
  rw [OwnerInv] at h ⊢
  rw [howner]
  cases hpc : s.owner with
  | allocatingTl | creatingTaskQ | creatingResQ | allocatingThs =>
    rw [hpc] at h
    exact absurd h.2 hnone
  | spawning k =>
    rw [hpc] at h
    obtain ⟨halloc, hterminated, hspawned⟩ := h
    dsimp only
    rw [hmem, hworkers]
    refine ⟨halloc, hterminated, fun j w'' hj => ?_⟩
    obtain ⟨rfl, rfl⟩ | ⟨-, hj⟩ := RefCount.getElem?_set_cases hj
    · refine ⟨iff_of_false hstarted (mt (hspawned i w hw).1.mpr hbefore), fun hw'' => ?_⟩
      exact Bool.false_ne_true (hterminated.symm.trans (hexited hw''))
    · exact hspawned j w'' hj
  | storingPriv | created =>
    rw [hpc] at h
    dsimp only
    rwa [hmem]
  | cleaning caller ops =>
    rw [hpc] at h
    obtain ⟨hahead, started, hall, hcleans⟩ := h
    dsimp only
    rw [hmem, hworkers]
    refine ⟨fun j w'' hj hruns'' => ?_, started, fun w'' hw'' hstarted'' => ?_, hcleans⟩
    · obtain ⟨rfl, -⟩ | ⟨-, hj⟩ := RefCount.getElem?_set_cases hj
      · exact hahead i w hw hruns
      · exact hahead j w'' hj hruns''
    · obtain hold | rfl := List.mem_or_eq_of_mem_set hw''
      · exact hall w'' hold hstarted''
      · exact hall w (List.mem_of_getElem? hw) hbefore

theorem Inv.work {i : Nat} {o : Outcome} (h : Inv s) (hstep : step s (.work i o) = some s') :
    Inv s' := by
  obtain ⟨w, r, hw, hwork, rfl⟩ := step_work hstep
  have hin : w ∈ s.workers := List.mem_of_getElem? hw
  have hruns := runs_of_workerStep hwork
  have halloc := h.allocated w hin hruns
  have hheld (q : QueueName) (hq : w.holds q = true) : 2 ≤ s.refs q := by
    have hcount : 0 < s.workers.countP (WorkerPc.holds q) := List.countP_pos_iff.mpr ⟨w, hin, hq⟩
    have hrefs := h.refs q (halloc.queue q)
    omega
  obtain ⟨used, hused, hmoved⟩ := workerStep_cases hwork
  rw [use_of_allocated s (hused halloc)] at hmoved
  obtain ⟨-, -, hmisused, howner, hworkers, hstarted, hexited⟩ := hmoved.stepped
  obtain ⟨hmem, hcounts⟩ := hmoved.refs hheld
  refine ⟨hmisused.trans h.unused, fun _ _ _ => ?_, fun q hlive => ?_, ?_⟩
  · show r.1.mem.Allocated
    rwa [hmem]
  · have hlive' : (s.mem.queue q).live = true := hmem ▸ hlive
    have hsame : State.refs { r.1 with workers := r.1.workers.set i r.2 } q = r.1.refs q := by
      cases q <;> rfl
    have hcount := RefCount.countP_set_add (b := r.2) (WorkerPc.holds q) hw
    have hrefs := h.refs q hlive'
    have hmove := hcounts q
    rw [hsame]
    dsimp only
    rw [hworkers]
    omega
  · exact h.owner.work hw hruns hstarted hexited hmem howner (congrArg (List.set · i r.2) hworkers)

/-- What a step of the cleaning up changes, if it destroys only queues to which no worker has a
reference. -/
structure OpStepped (op : Op) (s t : State) : Prop where
  mem : t.mem = op.after s.mem
  misused : t.misused = s.misused
  workers : t.workers = s.workers
  joined (i : Nat) (w : WorkerPc) : op = .join i → s.workers[i]? = some w → w.runs = false
  refs (q : QueueName) : ((op.after s.mem).queue q).live = true →
    (s.mem.queue q).live = true ∧ t.refs q = s.refs q

theorem opStep_spec {t : State} (halloc : op.allocated s.mem = true)
    (hdestroy : ∀ q, op = .destroy q → (s.mem.queue q).interrupt = true ∧ s.refs q = 1)
    (hstep : opStep op s = some t) : OpStepped op s t := by
  rw [opStep.eq_def, use_of_allocated s halloc] at hstep
  cases op with
  | terminate =>
    obtain rfl := Option.some.inj hstep
    refine ⟨rfl, rfl, rfl, by simp, fun q hlive => ⟨?_, ?_⟩⟩
    · cases q <;> exact hlive
    · cases q <;> rfl
  | interrupt q =>
    obtain rfl := Option.some.inj hstep
    refine ⟨rfl, rfl, rfl, by simp, fun q' hlive => ⟨?_, ?_⟩⟩
    · rw [Op.after, queue_setQueue] at hlive
      split_ifs at hlive with hq
      · exact hq ▸ hlive
      · exact hlive
    · cases q' <;> rfl
  | join i =>
    dsimp only at hstep
    cases hw : s.workers[i]? with
    | none =>
      rw [hw] at hstep
      cases hstep
    | some w =>
      rw [hw] at hstep
      dsimp only at hstep
      split_ifs at hstep with hruns
      obtain rfl := Option.some.inj hstep
      refine ⟨rfl, rfl, rfl, fun j w' hj hw' => ?_, fun _ hlive => ⟨hlive, rfl⟩⟩
      obtain rfl := Op.join.inj hj
      obtain rfl := Option.some.inj (hw.symm.trans hw')
      exact Bool.not_eq_true _ ▸ hruns
  | freeThs =>
    obtain rfl := Option.some.inj hstep
    refine ⟨rfl, rfl, rfl, by simp, fun q hlive => ⟨?_, ?_⟩⟩
    · cases q <;> exact hlive
    · cases q <;> rfl
  | destroy q =>
    obtain ⟨hinterrupt, hone⟩ := hdestroy q rfl
    dsimp only at hstep
    rw [if_pos hinterrupt, derefQueue_of_one hone] at hstep
    obtain rfl := Option.some.inj hstep
    obtain ⟨-, hmisused, -, hworkers⟩ := setRefs_frame s q 0
    refine ⟨rfl, hmisused, hworkers, by simp, fun q' hlive => ?_⟩
    rw [Op.after, queue_setQueue] at hlive
    split_ifs at hlive with hq
    refine ⟨hlive, ?_⟩
    have hrefs := refs_setRefs s q 0 q'
    rw [if_neg hq] at hrefs
    rw [← hrefs]
    cases q' <;> rfl
  | freeTl =>
    obtain rfl := Option.some.inj hstep
    refine ⟨rfl, rfl, rfl, by simp, fun q hlive => ⟨?_, ?_⟩⟩
    · cases q <;> exact hlive
    · cases q <;> rfl

/-- A step that frees something is taken after the joins. -/
theorem allocated_after {i : Nat} (hmem : m.Allocated) (hi : i ∈ joinsAhead (op :: ops)) :
    (op.after m).Allocated := by
  cases op with
  | terminate =>
    refine ⟨hmem.tl, hmem.ths, fun q => ?_⟩
    cases q
    · exact hmem.queue .taskQ
    · exact hmem.queue .resQ
  | interrupt q =>
    refine ⟨?_, ?_, fun q' => ?_⟩
    · cases q <;> exact hmem.tl
    · cases q <;> exact hmem.ths
    · rw [Op.after, queue_setQueue]
      split_ifs
      · exact hmem.queue q
      · exact hmem.queue q'
  | join _ => exact hmem
  | freeThs => cases hi
  | destroy _ => cases hi
  | freeTl => cases hi

theorem Inv.clean {caller : Caller} {t : State} (h : Inv s)
    (howner : s.owner = .cleaning caller (op :: ops)) (hstep : opStep op s = some t) :
    Inv { t with owner := .cleaning caller ops } := by
  have hinv := h.owner
  rw [OwnerInv, howner] at hinv
  obtain ⟨hahead, started, hall, halloc, hinterrupt, -, hcleans⟩ := hinv
  have hone (q : QueueName) (hop : op = .destroy q) : s.refs q = 1 := by
    subst hop
    have hlive : (s.mem.queue q).live = true := (Bool.and_eq_true_iff.mp halloc).2
    have hquiet (w : WorkerPc) (hw : w ∈ s.workers) : w.runs = false := by
      obtain ⟨i, hi⟩ := List.getElem?_of_mem hw
      exact Bool.eq_false_iff.mpr fun hruns => List.not_mem_nil (hahead i w hi hruns)
    rw [h.refs q hlive, countP_holds_of_quiet hquiet]
  obtain ⟨hmem, hmisused, hworkers, hjoined, hrefs⟩ :=
    opStep_spec halloc (fun q hop => ⟨hinterrupt q hop, hone q hop⟩) hstep
  refine ⟨hmisused.trans h.unused, fun w hw hruns => ?_, fun q hlive => ?_, ?_⟩
  · obtain ⟨i, hi⟩ := List.getElem?_of_mem (hworkers ▸ hw)
    show t.mem.Allocated
    rw [hmem]
    exact allocated_after (h.allocated w (List.mem_of_getElem? hi) hruns) (hahead i w hi hruns)
  · obtain ⟨hlive', hsame⟩ := hrefs q (hmem ▸ hlive)
    have hrefs' : State.refs { t with owner := .cleaning caller ops } q = t.refs q := by
      cases q <;> rfl
    rw [hrefs', hsame, h.refs q hlive', hworkers]
  · rw [OwnerInv]
    dsimp only
    rw [hworkers, hmem]
    refine ⟨fun i w hw hruns => ?_, started, hall, hcleans⟩
    have hi := hahead i w hw hruns
    cases op with
    | join j =>
      refine (List.mem_cons.mp hi).resolve_left ?_
      rintro rfl
      exact Bool.false_ne_true ((hjoined i w rfl hw).symm.trans hruns)
    | terminate => exact hi
    | interrupt _ => exact hi
    | freeThs => cases hi
    | destroy _ => cases hi
    | freeTl => cases hi

/-- As long as no worker was started, only the creating thread has references. -/
theorem Inv.of_noneStarted (hnone : NoneStarted s) (hunused : s.misused = false)
    (hrefs : ∀ q, (s.mem.queue q).live = true → s.refs q = 1) (howner : OwnerInv s) : Inv s := by
  refine ⟨hunused, fun w hw hruns => ?_, fun q hlive => ?_, howner⟩
  · exact absurd ((hnone.quiet w hw).symm.trans hruns) Bool.false_ne_true
  · rw [hrefs q hlive, countP_holds_of_quiet hnone.quiet]

theorem ownerInv_cleaning {caller : Caller} (howner : s.owner = .cleaning caller ops)
    (hnone : NoneStarted s) (hcleans : Cleans false s.mem ops) : OwnerInv s := by
  rw [OwnerInv, howner]
  refine ⟨fun i w hw hruns => ?_, false, fun w hw hstarted => ?_, hcleans⟩
  · have hquiet := hnone.quiet w (List.mem_of_getElem? hw)
    exact absurd (hquiet.symm.trans hruns) Bool.false_ne_true
  · exact absurd (hnone w hw) hstarted

theorem Inv.fail (h : Inv s) (hnone : NoneStarted s) (hcleans : Cleans false s.mem ops) :
    Inv { s with owner := .cleaning .xtaskletCreate ops } :=
  ⟨h.unused, h.allocated, h.refs, ownerInv_cleaning rfl hnone hcleans⟩

/-- A thread is started, or its creation fails as the first, or none is left. -/
theorem Inv.spawn {i : Nat} {ret : Int} (h : Inv s) (howner : s.owner = .spawning i)
    (hfirst : i < s.workers.length → ret ≠ 0 → i = 0) (hstep : ownerStep ret s = some s') :
    Inv s' := by
  have hinv := h.owner
  rw [OwnerInv, howner] at hinv
  obtain ⟨hmem, hterminated, hspawned⟩ := hinv
  rw [ownerStep.eq_def, howner] at hstep
  dsimp only at hstep
  rw [use_of_allocated s (Bool.and_eq_true_iff.mpr ⟨hmem.tl, hmem.ths⟩)] at hstep
  split_ifs at hstep with hlt hret
  · obtain rfl := Option.some.inj hstep
    obtain rfl := hfirst hlt hret
    have hnone : NoneStarted s := by
      intro w hw
      obtain ⟨j, hj⟩ := List.getElem?_of_mem hw
      exact (hspawned j w hj).1.mpr (Nat.zero_le j)
    refine h.fail hnone (cleans_threadPoolFinalize _ hmem.tl hmem.ths (by simp) ?_)
    exact cleans_destroyResQ _ hmem.tl rfl (hmem.queue .taskQ) (hmem.queue .resQ)
  · obtain rfl := Option.some.inj hstep
    have hw : s.workers[i]? = some .unstarted := by
      rw [List.getElem?_eq_getElem hlt]
      exact congrArg some ((hspawned i _ (List.getElem?_eq_getElem hlt)).1.mpr (Nat.le_refl i))
    refine ⟨h.unused, fun _ _ _ => hmem, fun q hlive => ?_, hmem, hterminated, fun j w hj => ?_⟩
    · have hcount := RefCount.countP_set_add (b := .starting) (WorkerPc.holds q) hw
      exact (h.refs q hlive).trans (congrArg (1 + ·) hcount.symm)
    · obtain ⟨rfl, rfl⟩ | ⟨hij, hj⟩ := RefCount.getElem?_set_cases hj
      · exact ⟨iff_of_false (by simp) (Nat.not_succ_le_self i), by simp⟩
      · obtain ⟨hunstarted, hexited⟩ := hspawned j w hj
        refine ⟨?_, hexited⟩
        rw [hunstarted]
        omega
  · obtain rfl := Option.some.inj hstep
    exact ⟨h.unused, h.allocated, h.refs, hmem⟩

theorem Inv.step_owner {ret : Int} (h : Inv s) (hfirst : FirstFails s (.owner ret))
    (hstep : ownerStep ret s = some s') : Inv s' := by
  have hinv := h.owner
  rw [OwnerInv] at hinv
  cases hpc : s.owner with
  | allocatingTl =>
    rw [hpc] at hinv
    obtain ⟨hmem, hnone⟩ := hinv
    rw [ownerStep.eq_def, hpc] at hstep
    dsimp only at hstep
    split_ifs at hstep
    · obtain rfl := Option.some.inj hstep
      refine h.fail hnone ?_
      rw [hmem]
      exact ⟨rfl, rfl, fun q => by cases q <;> rfl⟩
    · obtain rfl := Option.some.inj hstep
      refine .of_noneStarted hnone h.unused (fun q hlive => ?_) ⟨by rw [hmem], hnone⟩
      rw [hmem] at hlive
      cases q <;> cases hlive
  | creatingTaskQ =>
    rw [hpc] at hinv
    obtain ⟨hmem, hnone⟩ := hinv
    rw [ownerStep.eq_def, hpc] at hstep
    dsimp only at hstep
    rw [use_of_allocated s (by rw [hmem])] at hstep
    split_ifs at hstep
    · obtain rfl := Option.some.inj hstep
      refine h.fail hnone ?_
      rw [hmem]
      exact cleans_freeTl _ rfl rfl fun q => by cases q <;> rfl
    · obtain rfl := Option.some.inj hstep
      refine .of_noneStarted hnone h.unused (fun q hlive => ?_) ⟨by rw [hmem], hnone⟩
      rw [hmem] at hlive
      cases q with
      | taskQ => rfl
      | resQ => cases hlive
  | creatingResQ =>
    rw [hpc] at hinv
    obtain ⟨hmem, hnone⟩ := hinv
    have hone : s.refs .taskQ = 1 := by
      rw [h.refs .taskQ (by rw [hmem]; rfl), countP_holds_of_quiet hnone.quiet]
    rw [ownerStep.eq_def, hpc] at hstep
    dsimp only at hstep
    rw [use_of_allocated s (by rw [hmem])] at hstep
    split_ifs at hstep
    · obtain rfl := Option.some.inj hstep
      refine h.fail hnone ?_
      rw [hmem]
      exact cleans_destroyTaskQ _ rfl rfl rfl rfl
    · obtain rfl := Option.some.inj hstep
      refine .of_noneStarted hnone h.unused (fun q _ => ?_) ⟨by rw [hmem], hnone⟩
      cases q with
      | taskQ => exact hone
      | resQ => rfl
  | allocatingThs =>
    rw [hpc] at hinv
    obtain ⟨hmem, hnone⟩ := hinv
    rw [ownerStep.eq_def, hpc] at hstep
    dsimp only at hstep
    rw [use_of_allocated s (by rw [hmem])] at hstep
    split_ifs at hstep
    · obtain rfl := Option.some.inj hstep
      refine h.fail hnone ?_
      rw [hmem]
      exact cleans_destroyResQ _ rfl rfl rfl rfl
    · obtain rfl := Option.some.inj hstep
      have halloc : Memory.Allocated { s.mem with ths := true } := by
        rw [hmem]
        exact ⟨rfl, rfl, fun q => by cases q <;> rfl⟩
      refine ⟨h.unused, fun _ _ _ => halloc, fun q _ => ?_, halloc, by rw [hmem], ?_⟩
      · have hlive : (s.mem.queue q).live = true := by
          rw [hmem]
          cases q <;> rfl
        exact h.refs q hlive
      · intro j w hj
        obtain rfl := hnone w (List.mem_of_getElem? hj)
        exact ⟨iff_of_true rfl (Nat.zero_le j), by simp⟩
  | spawning i => exact h.spawn hpc (hfirst i hpc) hstep
  | storingPriv =>
    rw [hpc] at hinv
    rw [ownerStep.eq_def, hpc] at hstep
    dsimp only at hstep
    rw [use_of_allocated s hinv.tl] at hstep
    obtain rfl := Option.some.inj hstep
    exact ⟨h.unused, h.allocated, h.refs, hinv⟩
  | created =>
    rw [hpc] at hinv
    rw [ownerStep.eq_def, hpc] at hstep
    obtain rfl := Option.some.inj hstep
    refine ⟨h.unused, h.allocated, h.refs, fun i w hw _ => ?_, true, fun _ _ _ => rfl,
      cleans_xtaskletDestroy _ hinv⟩
    have hi : i < s.workers.length := (List.getElem?_eq_some_iff.mp hw).1
    have hahead := joinsAhead_threadPoolFinalize s.workers.length
      [.destroy .resQ, .destroy .taskQ, .freeTl]
    rw [← List.mem_range, ← hahead] at hi
    exact hi
  | cleaning caller ops =>
    cases ops with
    | nil =>
      rw [ownerStep.eq_def, hpc] at hstep
      cases hstep
    | cons op ops =>
      rw [ownerStep.eq_def, hpc] at hstep
      obtain ⟨t, ht, rfl⟩ := Option.map_eq_some_iff.mp hstep
      exact h.clean hpc ht

theorem inv_step {a : Action} (h : Inv s) (hfirst : FirstFails s a) (hstep : step s a = some s') :
    Inv s' := by
  cases a with
  | owner ret => exact h.step_owner hfirst hstep
  | work i o => exact h.work hstep

/-! ### Runs -/

theorem threadPoolFinalize_pos {size : Nat} (h : 0 < size) :
    ∃ ops, threadPoolFinalize size = .join 0 :: ops := by
  obtain ⟨n, rfl⟩ := Nat.exists_eq_add_of_lt h
  rw [threadPoolFinalize, Nat.zero_add, List.range_succ_eq_map]
  exact ⟨_, rfl⟩

/-- The first thread is joined while it runs and was not told to stop. -/
structure Hung (s : State) : Prop where
  owner : ∃ ops, s.owner = .cleaning .xtaskletCreate (.join 0 :: ops)
  running : ∃ w, s.workers[0]? = some w ∧ w.runs = true
  terminated : s.mem.terminated = false

/-- A creation that fails after the first. -/
theorem Inv.hung {ret : Int} (h : Inv s) (hlater : ¬ FirstFails s (.owner ret)) :
    ∃ s', step s (.owner ret) = some s' ∧ Hung s' := by
  simp only [FirstFails, not_forall] at hlater
  obtain ⟨i, howner, hlt, hret, hi⟩ := hlater
  have hinv := h.owner
  rw [OwnerInv, howner] at hinv
  obtain ⟨hmem, hterminated, hspawned⟩ := hinv
  obtain ⟨ops, hops⟩ := threadPoolFinalize_pos (Nat.zero_lt_of_lt hlt)
  have hw : s.workers[0]? = some s.workers[0] := List.getElem?_eq_getElem (Nat.zero_lt_of_lt hlt)
  have hstep : step s (.owner ret) = some { s with
      owner := .cleaning .xtaskletCreate (.join 0 :: (ops ++ destroyResQ)) } := by
    rw [step, ownerStep.eq_def, howner]
    dsimp only
    rw [use_of_allocated s (Bool.and_eq_true_iff.mpr ⟨hmem.tl, hmem.ths⟩), if_pos hlt, if_pos hret,
      hops]
    rfl
  refine ⟨_, hstep, ⟨_, rfl⟩, ⟨_, hw, ?_⟩, hterminated⟩
  obtain ⟨hunstarted, hexited⟩ := hspawned 0 _ hw
  exact runs_of_started (mt hunstarted.mp fun hle => hi (Nat.le_zero.mp hle)) hexited

theorem Hung.not_cleansUp (h : Hung s) : ¬ CleansUp s := by
  intro hclean
  obtain ⟨ops, howner⟩ := h.owner
  obtain ⟨w, hw, hruns⟩ := h.running
  have hstop := hclean.stopping .xtaskletCreate 0 ops w howner hw (started_of_runs hruns).1
  exact Bool.false_ne_true (h.terminated.symm.trans hstop.1)

/-- Whatever the workers do, the first thread goes on and is waited for. -/
theorem Hung.step {a : Action} (h : Hung s) (hstep : CreationFailure.step s a = some s') :
    Hung s' := by
  obtain ⟨⟨ops, howner⟩, ⟨w, hw, hruns⟩, hterminated⟩ := h
  cases a with
  | owner ret =>
    have hwaits : opStep (.join 0) s = none := by
      rw [opStep.eq_def]
      dsimp only [State.use]
      rw [hw]
      exact if_pos hruns
    rw [CreationFailure.step, ownerStep.eq_def, howner] at hstep
    dsimp only at hstep
    rw [hwaits] at hstep
    cases hstep
  | work i o =>
    obtain ⟨w', r, -, hwork, rfl⟩ := step_work hstep
    obtain ⟨used, -, hmoved⟩ := workerStep_cases hwork
    obtain ⟨hterm, -, -, howner', hworkers, hstarted, hexited⟩ := hmoved.stepped
    refine ⟨⟨ops, howner'.trans howner⟩, ?_, hterm.trans hterminated⟩
    have hlt : 0 < (r.1.workers.set i r.2).length := by
      rw [List.length_set, hworkers]
      exact (List.getElem?_eq_some_iff.mp hw).1
    obtain ⟨w'', hw''⟩ : ∃ w'', (r.1.workers.set i r.2)[0]? = some w'' :=
      ⟨_, List.getElem?_eq_getElem hlt⟩
    refine ⟨w'', hw'', ?_⟩
    obtain ⟨-, rfl⟩ | ⟨-, hsame⟩ := RefCount.getElem?_set_cases hw''
    · exact runs_of_started hstarted fun hr =>
        Bool.false_ne_true (hterminated.symm.trans (hexited hr))
    · rw [hworkers] at hsame
      obtain rfl := Option.some.inj (hw.symm.trans hsame)
      exact hruns

/-- How many steps a worker has left at most, once it was told to stop. -/
def WorkerPc.rank : WorkerPc → Nat
  | .unstarted | .exited => 0
  | .checking => 1
  | .starting | .failed | .leaving .resQ _ => 2
  | .waiting .resQ => 3
  | .entering .resQ => 4
  | .calling => 5
  | .fetched => 6
  | .leaving .taskQ _ => 7
  | .waiting .taskQ => 8
  | .entering .taskQ => 9

theorem workerStep_rank_lt {o : Outcome} {r : State × WorkerPc} (hstop : s.mem.Stopping)
    (hstep : workerStep o s w = some r) : r.2.rank < w.rank := by
  cases w with
  | unstarted => cases hstep
  | exited => cases hstep
  | checking =>
    obtain rfl := Option.some.inj hstep
    dsimp only
    rw [if_pos hstop.1]
    exact Nat.zero_lt_one
  | entering q =>
    rw [workerStep] at hstep
    split_ifs at hstep with hlarge
    · obtain rfl := Option.some.inj hstep
      obtain ⟨rfl, -⟩ := hlarge
      simp [WorkerPc.rank]
    · obtain rfl := Option.some.inj hstep
      cases q <;> simp [WorkerPc.rank]
    · obtain rfl := Option.some.inj hstep
      cases q <;> simp [WorkerPc.rank]
  | waiting q =>
    rw [workerStep, if_pos (by exact hstop.2 q)] at hstep
    obtain rfl := Option.some.inj hstep
    cases q <;> simp [WorkerPc.rank]
  | leaving q ret =>
    obtain rfl := Option.some.inj hstep
    cases q with
    | taskQ =>
      dsimp only
      split_ifs <;> simp [WorkerPc.rank]
    | resQ => exact Nat.one_lt_two
  | starting =>
    obtain rfl := Option.some.inj hstep
    simp [WorkerPc.rank]
  | failed =>
    obtain rfl := Option.some.inj hstep
    simp [WorkerPc.rank]
  | fetched =>
    obtain rfl := Option.some.inj hstep
    simp [WorkerPc.rank]
  | calling =>
    obtain rfl := Option.some.inj hstep
    simp [WorkerPc.rank]

/-- Cleaning up leaves the workers alone, and what they were told. -/
theorem opStep_frame {t : State} (hstep : opStep op s = some t) :
    t.workers = s.workers ∧ (s.mem.Stopping → t.mem.Stopping) := by
  rw [opStep.eq_def] at hstep
  cases op with
  | terminate =>
    obtain rfl := Option.some.inj hstep
    refine ⟨rfl, fun hstop => ⟨rfl, fun q => ?_⟩⟩
    cases q with
    | taskQ => exact hstop.2 .taskQ
    | resQ => exact hstop.2 .resQ
  | interrupt q =>
    obtain rfl := Option.some.inj hstep
    refine ⟨rfl, fun hstop => ⟨by cases q <;> exact hstop.1, fun q' => ?_⟩⟩
    dsimp only
    rw [queue_setQueue]
    split_ifs
    · rfl
    · exact hstop.2 q'
  | join i =>
    dsimp only at hstep
    cases hw : (s.use ((Op.join i).allocated s.mem)).workers[i]? with
    | none =>
      rw [hw] at hstep
      cases hstep
    | some w =>
      rw [hw] at hstep
      obtain ⟨-, hstep⟩ := Option.ite_none_left_eq_some.mp hstep
      obtain rfl := Option.some.inj hstep
      exact ⟨rfl, id⟩
  | freeThs =>
    obtain rfl := Option.some.inj hstep
    refine ⟨rfl, fun hstop => ⟨hstop.1, fun q => ?_⟩⟩
    cases q with
    | taskQ => exact hstop.2 .taskQ
    | resQ => exact hstop.2 .resQ
  | destroy q =>
    obtain rfl := Option.some.inj hstep
    obtain ⟨-, -, hworkers, hterm, hinter⟩ :=
      derefQueue_frame (s.use ((Op.destroy q).allocated s.mem)) q
    split_ifs
    · exact ⟨hworkers, fun hstop => ⟨hterm.trans hstop.1, fun q' => (hinter q').trans (hstop.2 q')⟩⟩
    · exact ⟨rfl, id⟩
  | freeTl =>
    obtain rfl := Option.some.inj hstep
    refine ⟨rfl, fun hstop => ⟨hstop.1, fun q => ?_⟩⟩
    cases q with
    | taskQ => exact hstop.2 .taskQ
    | resQ => exact hstop.2 .resQ

def Action.isWork : Action → Bool
  | .owner _ => false
  | .work _ _ => true

/-- In the middle of cleaning up, the workers were told to stop. -/
def Settling (s : State) : Prop := s.mem.Stopping ∧ ∃ caller ops, s.owner = .cleaning caller ops

theorem Settling.step {a : Action} (h : Settling s) (hstep : CreationFailure.step s a = some s') :
    Settling s' ∧ a.isWork.toNat + RefCount.total WorkerPc.rank s'.workers ≤
      RefCount.total WorkerPc.rank s.workers := by
  obtain ⟨hstop, caller, ops, howner⟩ := h
  cases a with
  | owner ret =>
    rw [CreationFailure.step, ownerStep.eq_def, howner] at hstep
    cases ops with
    | nil => cases hstep
    | cons op ops =>
      obtain ⟨t, ht, rfl⟩ := Option.map_eq_some_iff.mp hstep
      obtain ⟨hworkers, hkept⟩ := opStep_frame ht
      refine ⟨⟨hkept hstop, caller, ops, rfl⟩, ?_⟩
      dsimp only
      rw [hworkers]
      exact (Nat.zero_add _).le
  | work i o =>
    obtain ⟨w, r, hw, hwork, rfl⟩ := step_work hstep
    obtain ⟨used, -, hmoved⟩ := workerStep_cases hwork
    obtain ⟨hterm, hinter, -, howner', hworkers, -, -⟩ := hmoved.stepped
    refine ⟨⟨⟨hterm.trans hstop.1, fun q => (hinter q).trans (hstop.2 q)⟩, caller, ops,
      howner'.trans howner⟩, ?_⟩
    have hworkers' : r.1.workers = s.workers := hworkers
    have hlt : i < s.workers.length := (List.getElem?_eq_some_iff.mp hw).1
    have hafter := RefCount.total_eraseIdx WorkerPc.rank (List.getElem?_set_self (a := r.2) hlt)
    have hbefore := RefCount.total_eraseIdx WorkerPc.rank hw
    have hless := workerStep_rank_lt hstop hwork
    have hone : (Action.work i o).isWork.toNat = 1 := rfl
    rw [List.eraseIdx_set_eq] at hafter
    dsimp only
    rw [hworkers']
    omega

/-- Told to stop, the workers together take no more steps than they have left. -/
theorem settling_bounded {acts : List Action} {t : State} (h : Settling s)
    (hexec : Machine.exec step s acts = some t) :
    acts.countP Action.isWork + RefCount.total WorkerPc.rank t.workers ≤
      RefCount.total WorkerPc.rank s.workers := by
  induction acts generalizing s with
  | nil =>
    obtain rfl := Option.some.inj hexec
    exact (Nat.zero_add _).le
  | cons a acts ih =>
    obtain ⟨s', hs', hrest⟩ := Option.bind_eq_some_iff.mp hexec
    obtain ⟨hsettling, hless⟩ := h.step hs'
    have hrest' := ih hsettling hrest
    rw [List.countP_cons]
    cases hwork : a.isWork with
    | true =>
      rw [hwork, Bool.toNat_true] at hless
      rw [if_pos rfl]
      omega
    | false =>
      rw [hwork, Bool.toNat_false] at hless
      rw [if_neg (by simp)]
      omega

theorem cleansUp_after_iff (h : Inv s) (a : Action) :
    (∀ s', step s a = some s' → CleansUp s') ↔ FirstFails s a := by
  constructor
  · intro hafter
    cases a with
    | owner ret =>
      by_contra hlater
      obtain ⟨s', hstep, hhung⟩ := h.hung hlater
      exact hhung.not_cleansUp (hafter s' hstep)
    | work i o => trivial
  · intro hfirst s' hstep
    exact (inv_step h hfirst hstep).cleansUp

end Steps

theorem reachable_inv {concurrency : Nat} {acts : List Action} {s : State}
    (hfirst : Machine.Along step FirstFails (creating concurrency) acts)
    (hexec : Machine.exec step (creating concurrency) acts = some s) : Inv s :=
  Machine.exec_invariant_along (C := FirstFails) Inv
    (fun _ _ _ h hfirst hstep => inv_step h hfirst hstep) (Inv.initial concurrency) hfirst hexec

/-- A creation that fails after the first one leaves `XtaskletCreate` waiting for good. -/
theorem never_returns {concurrency : Nat} {acts acts' : List Action} {ret : Int} {s t : State}
    (hfirst : Machine.Along step FirstFails (creating concurrency) acts)
    (hexec : Machine.exec step (creating concurrency) acts = some s)
    (hlater : ¬ FirstFails s (.owner ret))
    (hexec' : Machine.exec step s (.owner ret :: acts') = some t) : Hung t := by
  obtain ⟨s', hstep, hhung⟩ := (reachable_inv hfirst hexec).hung hlater
  rw [Machine.exec_cons, hstep] at hexec'
  exact Machine.exec_invariant Hung (fun _ _ _ h hstep => h.step hstep) hhung hexec'

/-- Nothing that was allocated outlives a failure, or the destruction. -/
theorem returned_freed {concurrency : Nat} {acts : List Action} {s : State} {caller : Caller}
    (hfirst : Machine.Along step FirstFails (creating concurrency) acts)
    (hexec : Machine.exec step (creating concurrency) acts = some s)
    (howner : s.owner = .cleaning caller []) :
    s.mem.tl = false ∧ s.mem.ths = false ∧ ∀ q, (s.mem.queue q).live = false := by
  have hinv := (reachable_inv hfirst hexec).owner
  rw [OwnerInv, howner] at hinv
  obtain ⟨-, started, -, hfreed⟩ := hinv
  exact hfreed

/-- In every interleaving, creation and destruction clean up in order exactly when no
`pthread_create` fails after another one has succeeded. -/
theorem always_cleansUp_iff (concurrency : Nat) (acts : List Action) :
    Machine.Always step CleansUp (creating concurrency) acts ↔
      Machine.Along step FirstFails (creating concurrency) acts := by
  rw [Machine.always_iff (Inv.initial concurrency).cleansUp]
  refine Machine.along_congr Inv ?_ ?_ (Inv.initial concurrency)
  · intro s a h
    exact cleansUp_after_iff h a
  · intro s a s' h hafter hstep
    exact inv_step h ((cleansUp_after_iff h a).mp hafter) hstep

/-- Of two threads the second cannot be created. -/
def secondFails : List Action :=
  [.owner 0, .owner 0, .owner 0, .owner 0, .owner 0, .owner 11]

theorem secondFails_not :
    ¬ Machine.Always step CleansUp (creating 2) secondFails := by
  intro halways
  have hclean := halways secondFails [] _ rfl rfl
  obtain ⟨hterminated, -⟩ := hclean.stopping .xtaskletCreate 0 _ .starting rfl rfl (by simp)
  cases hterminated

end ITrustee.Xtasklet.CreationFailure
