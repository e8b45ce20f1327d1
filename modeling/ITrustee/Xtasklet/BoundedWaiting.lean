import Mathlib.Tactic
import ITrustee.Xtasklet.BlockingQueueFifo

/-!
# How long a call waits

`Blocking` spends the spin credit of its endpoint first and the timeout afterwards, one sleep at a time,
and gives up when less than one sleep is left. A finite timeout never becomes -1, the value that means
forever, because it is at least one sleep long whenever a sleep is subtracted. So the loops of
`WaitFull` and `WaitEmpty` end after a number of polls that is known when they begin.
-/

namespace ITrustee.Xtasklet

/-- The polls until a wait gives up. -/
def polls (blockingAcc : Nat) (timeoutUs : Int) : Nat :=
  if timeoutUs < sleepUs then 1 else blockingAcc + (timeoutUs / sleepUs).toNat + 1

theorem polls_le (blockingAcc : Nat) (timeoutUs : Int) :
    polls blockingAcc timeoutUs ≤ blockingAcc + (timeoutUs / sleepUs).toNat + 1 := by
  rw [polls]
  split_ifs <;> omega

/-! ### One call of `Blocking` -/

section Blocking

variable {o : Outcome} {q : BlockingQueue} {timeoutUs : Int}

theorem blocking_expired (hfinite : 0 ≤ timeoutUs) (hshort : timeoutUs < sleepUs) :
    blocking o q timeoutUs = ⟨etimedout, q, timeoutUs⟩ := by
  rw [blocking, if_pos]
  exact ⟨by omega, hshort⟩

/-- A call that does not give up leaves one poll less. -/
theorem blocking_waits (hlong : sleepUs ≤ timeoutUs) (ho : o.ret = 0) :
    (blocking o q timeoutUs).ret = 0 ∧ 0 ≤ (blocking o q timeoutUs).timeoutUs ∧
      (blocking o q timeoutUs).queue.entriesNr = q.entriesNr ∧
      (blocking o q timeoutUs).queue.interrupt = q.interrupt ∧
      polls (blocking o q timeoutUs).queue.blockingAcc (blocking o q timeoutUs).timeoutUs + 1 =
        polls q.blockingAcc timeoutUs := by
  have hlong' : ¬timeoutUs < sleepUs := not_lt.mpr hlong
  rw [sleepUs] at hlong
  rw [blocking, if_neg fun h => hlong' h.2]
  split_ifs with hacc hret hinfinite
  · exact absurd ho hret
  · refine ⟨rfl, ?_, rfl, rfl, ?_⟩
    · change 0 ≤ timeoutUs - 100
      omega
    · change polls q.blockingAcc (timeoutUs - 100) + 1 = _
      rw [polls, polls, if_neg hlong', hacc, sleepUs]
      split_ifs <;> omega
  · omega
  · refine ⟨rfl, ?_, rfl, rfl, ?_⟩
    · change 0 ≤ timeoutUs
      omega
    · rw [polls, polls, if_neg hlong', if_neg hlong']
      simp only
      omega

end Blocking

section Waits

variable {lib : Securec} {s : State} {timeoutUs : Int}

/-! ### A loop of polls -/

/-- The loop in which one side waits. A poll is two steps and a call of `Blocking`; `after` is the state
that it leaves, and `gaveUp` the one that the loop ends in. -/
structure PollLoop (lib : Securec) where
  act : Outcome → Action
  Waits : State → Int → Prop
  queue : State → BlockingQueue
  after : State → Blocked → State
  gaveUp : State → BlockingQueue → State
  poll : ∀ s timeoutUs, Waits s timeoutUs → ∀ o o',
    Machine.exec (step lib) s [act o, act o'] = some (after s (blocking o' (queue s) timeoutUs))
  waits_after : ∀ s timeoutUs b, Waits s timeoutUs → b.ret = 0 →
    b.queue.entriesNr = (queue s).entriesNr → b.queue.interrupt = (queue s).interrupt →
      Waits (after s b) b.timeoutUs
  queue_after : ∀ s b, queue (after s b) = b.queue
  after_expired : ∀ s q timeoutUs, after s ⟨etimedout, q, timeoutUs⟩ = gaveUp s q
  gaveUp_after : ∀ s b q, gaveUp (after s b) q = gaveUp s q

theorem PollLoop.timesOut (loop : PollLoop lib) {os : List Outcome} (h : loop.Waits s timeoutUs)
    (hfinite : 0 ≤ timeoutUs)
    (hlength : os.length = 2 * polls (loop.queue s).blockingAcc timeoutUs)
    (hos : ∀ o ∈ os, o.ret = 0) :
    ∃ q, Machine.exec (step lib) s (os.map loop.act) = some (loop.gaveUp s q) := by
  generalize hk : polls (loop.queue s).blockingAcc timeoutUs = k at hlength
  induction k generalizing s os timeoutUs with
  | zero =>
      rw [polls] at hk
      split_ifs at hk
  | succ k ih =>
      obtain ⟨o, os, rfl⟩ := List.exists_cons_of_length_pos (by omega : 0 < os.length)
      rw [List.length_cons] at hlength
      obtain ⟨o', os, rfl⟩ := List.exists_cons_of_length_pos (by omega : 0 < os.length)
      rw [List.length_cons] at hlength
      have hsplit : (o :: o' :: os).map loop.act =
          [loop.act o, loop.act o'] ++ os.map loop.act := rfl
      rw [hsplit, Machine.exec_append, loop.poll s timeoutUs h o o', Option.bind_some]
      by_cases hshort : timeoutUs < sleepUs
      · rw [polls, if_pos hshort] at hk
        obtain rfl : os = [] := List.eq_nil_of_length_eq_zero (by omega)
        rw [blocking_expired hfinite hshort, loop.after_expired]
        exact ⟨_, rfl⟩
      · have ho : o'.ret = 0 := hos o' (List.mem_cons_of_mem o List.mem_cons_self)
        obtain ⟨hret, hfinite', hentries, hrunning, hpolls⟩ :=
          blocking_waits (q := loop.queue s) (not_lt.mp hshort) ho
        have hnext := loop.waits_after s timeoutUs _ h hret hentries hrunning
        rw [← loop.queue_after s] at hpolls
        obtain ⟨q, hq⟩ := ih hnext hfinite'
          (fun o ho => hos o (List.mem_cons_of_mem _ (List.mem_cons_of_mem _ ho)))
          (Nat.succ.inj (hpolls.trans hk)) (by omega)
        rw [loop.gaveUp_after] at hq
        exact ⟨q, hq⟩

/-! ### The loop of `WaitFull` -/

/-- A `BlockingEnqueue` in its loop, with too few free entries for the buffer. -/
structure ProducerWaits (s : State) (src : List UInt8) (timeoutUs : Int) : Prop where
  pc : s.producerPc = .waiting src timeoutUs
  running : s.producer.interrupt = false
  full : isFull s.producer.entriesNr (totalEntries src.length) (getHeadTail s.buffer) = true

theorem produce_waiting {src : List UInt8} (hpc : s.producerPc = .waiting src timeoutUs)
    (hrunning : s.producer.interrupt = false) (o : Outcome) :
    produce lib o s = some { s with producerPc := .polling src timeoutUs } := by
  rw [produce, hpc]
  dsimp only
  rw [if_neg (by rw [hrunning]; exact Bool.false_ne_true)]

theorem produce_polling {src : List UInt8} (hpc : s.producerPc = .polling src timeoutUs)
    (hfull : isFull s.producer.entriesNr (totalEntries src.length) (getHeadTail s.buffer) = true)
    (o : Outcome) :
    produce lib o s = some { s with
      producer := (blocking o s.producer timeoutUs).queue
      producerPc :=
        if (blocking o s.producer timeoutUs).ret ≠ 0 then
          .returning src (blocking o s.producer timeoutUs).ret
        else .waiting src (blocking o s.producer timeoutUs).timeoutUs } := by
  rw [produce, hpc]
  dsimp only
  rw [if_pos hfull]

/-- One poll: the load of the flag and the snapshot. -/
theorem ProducerWaits.poll {src : List UInt8} (h : ProducerWaits s src timeoutUs) (o o' : Outcome) :
    Machine.exec (step lib) s [.produce o, .produce o'] = some { s with
      producer := (blocking o' s.producer timeoutUs).queue
      producerPc :=
        if (blocking o' s.producer timeoutUs).ret ≠ 0 then
          .returning src (blocking o' s.producer timeoutUs).ret
        else .waiting src (blocking o' s.producer timeoutUs).timeoutUs } := by
  have hpoll : produce lib o' _ = _ :=
    produce_polling (s := { s with producerPc := .polling src timeoutUs }) rfl h.full o'
  rw [Machine.exec_cons, step, produce_waiting h.pc h.running, Option.bind_some, Machine.exec_cons,
    step, hpoll, Option.bind_some, Machine.exec_nil]

def producerLoop (lib : Securec) (src : List UInt8) : PollLoop lib where
  act := .produce
  Waits s timeoutUs := ProducerWaits s src timeoutUs
  queue := State.producer
  after s b :=
    { s with
      producer := b.queue
      producerPc := if b.ret ≠ 0 then .returning src b.ret else .waiting src b.timeoutUs }
  gaveUp s q := { s with producer := q, producerPc := .returning src etimedout }
  poll _ _ h := h.poll
  waits_after s _ b h hret hentries hrunning := by
    refine ⟨if_neg (not_not.mpr hret), hrunning.trans h.running, ?_⟩
    show isFull b.queue.entriesNr (totalEntries src.length) (getHeadTail s.buffer) = true
    rw [hentries]
    exact h.full
  queue_after _ _ := rfl
  after_expired _ _ _ := rfl
  gaveUp_after _ _ _ := rfl

/-! ### The loop of `WaitEmpty` -/

/-- A `BlockingDequeue` in its loop, on an empty queue. -/
structure ConsumerWaits (s : State) (timeoutUs : Int) : Prop where
  pc : s.consumerPc = .waiting timeoutUs
  running : s.consumer.interrupt = false
  empty : isEmpty (getHeadTail s.buffer) = true

theorem consume_waiting (hpc : s.consumerPc = .waiting timeoutUs)
    (hrunning : s.consumer.interrupt = false) (o : Outcome) :
    consume lib o s = some { s with consumerPc := .polling timeoutUs } := by
  rw [consume, hpc]
  dsimp only
  rw [if_neg (by rw [hrunning]; exact Bool.false_ne_true)]

theorem consume_polling (hpc : s.consumerPc = .polling timeoutUs)
    (hempty : isEmpty (getHeadTail s.buffer) = true) (o : Outcome) :
    consume lib o s = some { s with
      consumer := (blocking o s.consumer timeoutUs).queue
      consumerPc :=
        if (blocking o s.consumer timeoutUs).ret ≠ 0 then
          .returning [] (blocking o s.consumer timeoutUs).ret
        else .waiting (blocking o s.consumer timeoutUs).timeoutUs } := by
  rw [consume, hpc]
  dsimp only
  rw [if_pos hempty]

theorem ConsumerWaits.poll (h : ConsumerWaits s timeoutUs) (o o' : Outcome) :
    Machine.exec (step lib) s [.consume o, .consume o'] = some { s with
      consumer := (blocking o' s.consumer timeoutUs).queue
      consumerPc :=
        if (blocking o' s.consumer timeoutUs).ret ≠ 0 then
          .returning [] (blocking o' s.consumer timeoutUs).ret
        else .waiting (blocking o' s.consumer timeoutUs).timeoutUs } := by
  have hpoll : consume lib o' _ = _ :=
    consume_polling (s := { s with consumerPc := .polling timeoutUs }) rfl h.empty o'
  rw [Machine.exec_cons, step, consume_waiting h.pc h.running, Option.bind_some, Machine.exec_cons,
    step, hpoll, Option.bind_some, Machine.exec_nil]

def consumerLoop (lib : Securec) : PollLoop lib where
  act := .consume
  Waits := ConsumerWaits
  queue := State.consumer
  after s b :=
    { s with
      consumer := b.queue
      consumerPc := if b.ret ≠ 0 then .returning [] b.ret else .waiting b.timeoutUs }
  gaveUp s q := { s with consumer := q, consumerPc := .returning [] etimedout }
  poll _ _ h := h.poll
  waits_after _ _ _ h hret _ hrunning :=
    ⟨if_neg (not_not.mpr hret), hrunning.trans h.running, h.empty⟩
  queue_after _ _ := rfl
  after_expired _ _ _ := rfl
  gaveUp_after _ _ _ := rfl

end Waits

/-! ### Both loops -/

/-- A call that waits, with a finite timeout, on a queue whose other index never moves gives up with
`ETIMEDOUT` after at most `blockingAcc + timeoutUs / sleepUs + 1` polls of two steps each, whatever the
sleeps report besides success, and the head, the tail and the entries are as they were. -/
theorem waits_timeOut (lib : Securec) (s : State) (timeoutUs : Int) (hfinite : 0 ≤ timeoutUs) :
    (∀ src, ProducerWaits s src timeoutUs →
      ∃ k ≤ s.producer.blockingAcc + (timeoutUs / sleepUs).toNat + 1,
        ∀ os : List Outcome, os.length = 2 * k → (∀ o ∈ os, o.ret = 0) →
          ∃ s', Machine.exec (step lib) s (os.map .produce) = some s' ∧
            s'.producerPc = .returning src etimedout ∧ s'.buffer = s.buffer ∧
              s'.entries = s.entries) ∧
      (ConsumerWaits s timeoutUs →
        ∃ k ≤ s.consumer.blockingAcc + (timeoutUs / sleepUs).toNat + 1,
          ∀ os : List Outcome, os.length = 2 * k → (∀ o ∈ os, o.ret = 0) →
            ∃ s', Machine.exec (step lib) s (os.map .consume) = some s' ∧
              s'.consumerPc = .returning [] etimedout ∧ s'.buffer = s.buffer ∧
                s'.entries = s.entries) := by
  refine ⟨fun src h => ⟨_, polls_le _ _, fun os hlength hos => ?_⟩,
    fun h => ⟨_, polls_le _ _, fun os hlength hos => ?_⟩⟩
  · obtain ⟨q, hexec⟩ := (producerLoop lib src).timesOut h hfinite hlength hos
    exact ⟨_, hexec, rfl, rfl, rfl⟩
  · obtain ⟨q, hexec⟩ := (consumerLoop lib).timesOut h hfinite hlength hos
    exact ⟨_, hexec, rfl, rfl, rfl⟩

/-- An empty ring of two entries: one call waits to put 1024 bytes into it, and the other for a
message. -/
def bothWait : State where
  entries _ := ⟨0, 0, []⟩
  producer := { isProducer := true, concurrent := false, blockingAcc := 1, entriesNr := 2 }
  consumer := { isProducer := false, concurrent := false, blockingAcc := 3, entriesNr := 2 }
  producerPc := .waiting (List.replicate 1024 7) 250
  consumerPc := .waiting 250

theorem bothWait_timeOut :
    (∃ k ≤ 4, ∀ os : List Outcome, os.length = 2 * k → (∀ o ∈ os, o.ret = 0) →
        ∃ s', Machine.exec (step .reference) bothWait (os.map .produce) = some s' ∧
          s'.producerPc = .returning (List.replicate 1024 7) etimedout ∧
            s'.buffer = bothWait.buffer ∧ s'.entries = bothWait.entries) ∧
      ∃ k ≤ 6, ∀ os : List Outcome, os.length = 2 * k → (∀ o ∈ os, o.ret = 0) →
        ∃ s', Machine.exec (step .reference) bothWait (os.map .consume) = some s' ∧
          s'.consumerPc = .returning [] etimedout ∧
            s'.buffer = bothWait.buffer ∧ s'.entries = bothWait.entries :=
  ⟨(waits_timeOut .reference bothWait 250 (by decide)).1 (List.replicate 1024 7)
      ⟨rfl, rfl, by decide +kernel⟩,
    (waits_timeOut .reference bothWait 250 (by decide)).2 ⟨rfl, rfl, by decide +kernel⟩⟩

end ITrustee.Xtasklet
