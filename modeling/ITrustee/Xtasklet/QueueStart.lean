import Mathlib.Tactic
import ITrustee.Xtasklet.QueueCapacity

/-!
# Starting a queue

The two creations of a queue on memory that holds anything. The producer's clears the entries and
stores the head, the consumer's stores the tail, and each side works as soon as its own creation has
returned. So the producer may measure the free entries against a tail that nobody has stored, and
the consumer may see a head that nobody has stored. Memory with a head word of 0 and a tail word that
is 0 or has its flip set is as good as an empty ring: while its consumer is missing, the queue behaves
like one whose tail word is 0, except that a set flip makes the producer wait earlier.
-/

namespace ITrustee.Xtasklet

open CInt FlipRing

structure Starting where
  queue : State
  /-- How many entries the `memset_s` of the producer's creation has passed. -/
  cleared : Nat := 0
  producerReady : Bool := false
  consumerReady : Bool := false

inductive StartAction where
  /-- The `memset_s` of `InitRingbuffer` reaches the next entry. -/
  | clear
  /-- The `SetHead` of the producer's creation, which returns. -/
  | setHead
  | setTail
  | call (a : Action)

def clearedEntry : Entry := ⟨0, 0, List.replicate entrySize 0⟩

def Action.byProducer : Action → Bool
  | .enqueue .. | .produce _ | .interruptProducer => true
  | .dequeue .. | .consume _ | .interruptConsumer => false

def Starting.ready (s : Starting) (a : Action) : Bool :=
  if a.byProducer then s.producerReady else s.consumerReady

def startStep (lib : Securec) (s : Starting) : StartAction → Option Starting
  | .clear =>
      if s.cleared < s.queue.producer.entriesNr then
        some { s with
          queue := { s.queue with
            entries := Function.update s.queue.entries s.cleared clearedEntry }
          cleared := s.cleared + 1 }
      else none
  | .setHead =>
      if !s.producerReady && s.cleared = s.queue.producer.entriesNr then
        some { s with
          queue := { s.queue with buffer := setHead s.queue.buffer 0 false }
          producerReady := true }
      else none
  | .setTail =>
      if !s.consumerReady then
        some { s with
          queue := { s.queue with buffer := setTail s.queue.buffer 0 false }
          consumerReady := true }
      else none
  | .call a =>
      if s.ready a then (step lib s.queue a).map fun queue => { s with queue } else none

/-- The words and the entries are what the memory happens to hold. -/
def starting (head tail : UInt32) (entries : Nat → Entry) (producer consumer : BlockingQueue) :
    Starting where
  queue := { buffer := ⟨head.toNat, tail.toNat⟩, entries, producer, consumer }

/-! ### What should hold -/

/-- The enqueue of no bytes writes no entry. -/
def NonEmptyCall (_ : Starting) : StartAction → Prop
  | .call (.enqueue src ..) => 1 ≤ src.length
  | _ => True

/-- Where the consumer reads next. -/
def Starting.readPos (s : Starting) : Nat :=
  if s.consumerReady then (getHeadTail s.queue.buffer).tail else 0

/-- The messages that are published and not passed are these, and they stand in the ring from where
the consumer reads next; the ring looks empty only if there are none. -/
structure Undelivered (n : Nat) (s : Starting) (pending : List (List UInt8)) : Prop where
  perm : s.queue.published.Perm (s.queue.passed ++ pending)
  fits : (content pending).length ≤ n
  stands : ∃ start, start % n = s.readPos ∧ Filled Stores n s.queue.entries start (content pending)
  seen : s.producerReady = true → s.consumerReady = true →
    (isEmpty (getHeadTail s.queue.buffer) = true ↔ pending = [])

/-- Every published message is passed by the consumer once or still to be read, and nothing else is
passed. -/
def NothingLost (n : Nat) (s : Starting) : Prop := ∃ pending, Undelivered n s pending

/-- Nothing is lost in any state that calls with non-empty messages lead to. -/
def NeverLoses (lib : Securec) (n : Nat) (s : Starting) : Prop :=
  ∀ is s', Machine.Along (startStep lib) NonEmptyCall s is →
    Machine.exec (startStep lib) s is = some s' → NothingLost n s'

/-- The head word is 0, and the tail word is 0 or has its flip set. -/
def CleanWords (head tail : UInt32) : Prop := head = 0 ∧ (tail = 0 ∨ tail &&& 1 = 1)

instance (head tail : UInt32) : Decidable (CleanWords head tail) := by
  unfold CleanWords
  infer_instance

/-! ### Words -/

theorem position_word {w : Nat} (hw : w < 2 ^ 32) : position (w / 2) (decide (w % 2 = 1)) = w := by
  have hflip : (decide (w % 2 = 1)).toNat = w % 2 := by
    obtain h | h := Nat.mod_two_eq_zero_or_one w <;> rw [h] <;> rfl
  rw [position_eq (by omega), hflip]
  exact Nat.div_add_mod w 2

/-- What a snapshot makes of any two words. -/
theorem getHeadTail_words {head tail : Nat} (hhead : head < 2 ^ 32) (htail : tail < 2 ^ 32) :
    getHeadTail ⟨head, tail⟩ =
      ⟨head / 2, decide (head % 2 = 1), tail / 2, decide (tail % 2 = 1)⟩ := by
  have h : getHeadTail ⟨position (head / 2) (head % 2 = 1), position (tail / 2) (tail % 2 = 1)⟩ =
      ⟨head / 2, decide (head % 2 = 1), tail / 2, decide (tail % 2 = 1)⟩ :=
    getHeadTail_position (by omega) (by omega) _ _
  rwa [position_word hhead, position_word htail] at h

theorem position_zero : position 0 false = 0 := rfl

/-- On the first lap and ahead of a tail on another lap, the producer never goes beyond the ring. -/
theorem lt_of_not_full_stale {n start d total t : Nat} (hn : 0 < n) (hmax : n * entrySize < 2 ^ 31)
    (hstart : start % n = 0) (hflip : lapFlip n start = false) (hd : d < n) (htotal : total ≤ n)
    (hfree : isFull n total ⟨(start + d) % n, lapFlip n (start + d), t, true⟩ ≠ true) :
    d + total < n := by
  have hhead : (start + d) % n = d := by
    rw [Nat.add_mod, hstart, Nat.zero_add, Nat.mod_mod, Nat.mod_eq_of_lt hd]
  have hheadFlip : lapFlip n (start + d) = false := by
    rw [flip_add hn start d hd.le, hstart, hflip, Nat.zero_add, Bool.xor_false]
    exact decide_eq_false (by omega)
  by_contra hwraps
  have hnext : lapFlip n (start + d + total) = true := by
    rw [flip_add hn (start + d) total htotal, hhead, hheadFlip, Bool.xor_false]
    exact decide_eq_true (by omega)
  have hnextFlip : nextFlip n ((start + d) % n) total (lapFlip n (start + d)) =
      lapFlip n (start + d + total) := nextFlip_flip hn hmax rfl htotal
  rw [hheadFlip, hnext] at hnextFlip
  rw [isFull, hheadFlip, hnextFlip] at hfree
  simp at hfree

/-! ### The queue that a started one behaves like -/

/-- The queue with a tail word of 0. -/
def State.zeroTail (q : State) : State := { q with buffer := { q.buffer with tail := 0 } }

/-- A tail word that the producer can take for the consumer's without harm. -/
def StaleTail (tail : Nat) : Prop := tail < 2 ^ 32 ∧ (tail = 0 ∨ tail % 2 = 1)

structure StartInv (n : Nat) (s : Starting) : Prop where
  ready : s.consumerReady = true → Inv n s.queue
  missing : s.consumerReady = false →
    Inv n s.queue.zeroTail ∧ StaleTail s.queue.buffer.tail ∧ s.queue.consumerPc = .idle
  cleared : s.producerReady = true → s.cleared = n
  unproduced : s.producerReady = false →
    s.queue.buffer.head = 0 ∧ s.queue.producerPc = .idle ∧ s.queue.enqueued = []

section Steps

variable {n : Nat} {lib : Securec} {q q' : State}

theorem Inv.producer_entries (h : Inv n q) : q.producer.entriesNr = n := by
  obtain ⟨tail, pending, hat⟩ := h
  exact hat.producer_entries

/-- Before the producer works, the entries are nobody's. -/
theorem Inv.setEntries (h : Inv n q) (hidle : q.producerPc = .idle) (hnone : q.enqueued = [])
    (entries : Nat → Entry) : Inv n { q with entries := entries } := by
  obtain ⟨tail, pending, hat⟩ := h
  have hpub := hat.published_eq
  rw [State.published, hidle, hnone] at hpub
  obtain rfl : pending = [] := (List.append_eq_nil_iff.mp hpub.symm).2
  refine ⟨tail, [], { hat with filled := filled_nil, producerAt := ?_ }⟩
  rw [hidle]
  trivial

theorem step_byConsumer {a : Action} (hby : a.byProducer = false) (hstep : step lib q a = some q') :
    q'.buffer.head = q.buffer.head ∧ q'.producerPc = q.producerPc ∧ q'.enqueued = q.enqueued := by
  cases a with
  | dequeue timeoutUs lockRet lockErrno =>
      rw [step] at hstep
      split_ifs at hstep
      obtain rfl := Option.some.inj hstep
      exact ⟨rfl, rfl, rfl⟩
  | consume o => exact (consume_frame hstep).2
  | interruptConsumer =>
      obtain rfl := Option.some.inj hstep
      exact ⟨rfl, rfl, rfl⟩
  | enqueue | produce | interruptProducer => cases hby

theorem step_byProducer {a : Action} (hby : a.byProducer = true) (hstep : step lib q a = some q') :
    q'.buffer.tail = q.buffer.tail ∧ q'.consumerPc = q.consumerPc := by
  cases a with
  | enqueue src timeoutUs lockRet lockErrno =>
      rw [step] at hstep
      split_ifs at hstep
      obtain rfl := Option.some.inj hstep
      exact ⟨rfl, rfl⟩
  | produce o =>
      obtain ⟨htail, hpc, -⟩ := produce_frame hstep
      exact ⟨htail, hpc⟩
  | interruptProducer =>
      obtain rfl := Option.some.inj hstep
      exact ⟨rfl, rfl⟩
  | dequeue | consume | interruptConsumer => cases hby

variable (hn : 0 < n) (hmax : n * entrySize < 2 ^ 31)

include hn hmax

/-- A call with a message that is too long is refused. -/
theorem Inv.step_nonEmpty (hlib : lib.CopiesWithinMax) (h : Inv n q) {a : Action}
    (hcall : ∀ src timeoutUs lockRet lockErrno, a = .enqueue src timeoutUs lockRet lockErrno →
      1 ≤ src.length)
    (hstep : step lib q a = some q') : Inv n q' := by
  by_cases hsized : SizedCall n q a
  · exact h.step_inv hn hmax hlib hsized hstep
  · cases a with
    | enqueue src timeoutUs lockRet lockErrno =>
        have hlong : u32 (q.producer.entriesNr * entrySize) < src.length := by
          have hpos := hcall src timeoutUs lockRet lockErrno rfl
          rw [h.producer_entries, u32_of_lt (by omega)]
          by_contra hle
          exact hsized ⟨hpos, Nat.le_of_not_lt hle⟩
        obtain ⟨tail, pending, hat⟩ := h
        rw [step] at hstep
        split_ifs at hstep with hidle
        obtain rfl := Option.some.inj hstep
        rw [enqueueStart_refuses hlong]
        refine ⟨tail, pending, hat.setProducer hat.producer_entries ?_ trivial⟩
        rw [hidle]
        rfl
    | dequeue | produce | consume | interruptProducer | interruptConsumer =>
        exact absurd trivial hsized

omit hn hmax in
/-- Only the snapshot reads the tail word. -/
theorem produce_zeroTail {o : Outcome}
    (hpolls : ∀ src timeoutUs, q.producerPc ≠ .polling src timeoutUs)
    (hstep : produce lib o q = some q') : produce lib o q.zeroTail = some q'.zeroTail := by
  rw [produce] at hstep ⊢
  have hsame : q.zeroTail.producerPc = q.producerPc := rfl
  rw [hsame]
  cases hpc : q.producerPc with
  | idle =>
      rw [hpc] at hstep
      cases hstep
  | waiting | returning =>
      rw [hpc] at hstep
      obtain rfl := Option.some.inj hstep
      rfl
  | polling src timeoutUs => exact absurd hpc (hpolls src timeoutUs)
  | writing src head headFlip i offset =>
      rw [hpc] at hstep
      obtain rfl := Option.some.inj hstep
      simp only [enqueueBlocks, State.zeroTail, setHead]
      split_ifs <;> rfl

/-- What a snapshot shows while the tail word is not the consumer's. -/
theorem InvAt.getHeadTail_stale {start : Nat} {pending : List (List UInt8)}
    (h : InvAt n start pending q.zeroTail) (htail : q.buffer.tail < 2 ^ 32) :
    start % n = 0 ∧ lapFlip n start = false ∧
      getHeadTail q.buffer =
        ⟨(start + (content pending).length) % n, lapFlip n (start + (content pending).length),
          q.buffer.tail / 2, decide (q.buffer.tail % 2 = 1)⟩ := by
  have hpos := Nat.mod_lt (start + (content pending).length) hn
  have hhead : q.buffer.head < 2 ^ 32 := by
    have hword : q.buffer.head = position ((start + (content pending).length) % n)
        (lapFlip n (start + (content pending).length)) := congrArg Ringbuffer.head h.buffer_eq
    rw [entrySize] at hmax
    have hflip := Bool.toNat_lt (lapFlip n (start + (content pending).length))
    rw [hword, position_eq (by omega)]
    omega
  have hsnap := h.getHeadTail_eq hn hmax
  have hzero : getHeadTail q.zeroTail.buffer =
      ⟨q.buffer.head / 2, decide (q.buffer.head % 2 = 1), 0, false⟩ :=
    getHeadTail_words hhead (by decide)
  rw [hzero] at hsnap
  obtain ⟨hheadPos, hheadFlip, hstart, hstartFlip⟩ := HeadTail.mk.inj hsnap
  refine ⟨hstart.symm, hstartFlip.symm, ?_⟩
  rw [← hheadPos, ← hheadFlip]
  exact getHeadTail_words hhead htail

/-- A step of the producer against a tail word that is not the consumer's. -/
theorem Inv.produce_stale (hlib : lib.CopiesWithinMax) (h : Inv n q.zeroTail)
    (hstale : StaleTail q.buffer.tail) {o : Outcome} (hstep : produce lib o q = some q') :
    Inv n q'.zeroTail := by
  obtain ⟨start, pending, hat⟩ := h
  by_cases hpolls : ∃ src timeoutUs, q.producerPc = .polling src timeoutUs
  · obtain ⟨src, timeoutUs, hpc⟩ := hpolls
    have hpc' : q.zeroTail.producerPc = .polling src timeoutUs := hpc
    have hsrc : Sized n src := by
      have hprod := hat.producerAt
      rw [hpc'] at hprod
      exact hprod
    rw [produce, hpc] at hstep
    dsimp only at hstep
    split at hstep
    next hfull =>
      obtain rfl := Option.some.inj hstep
      exact ⟨start, pending, hat.keepsWaiting hpc' hsrc o⟩
    next hfree =>
      obtain rfl := Option.some.inj hstep
      have hentries : q.producer.entriesNr = n := hat.producer_entries
      obtain ⟨hstart, hflip, hsnap⟩ := hat.getHeadTail_stale hn hmax hstale.1
      have hroom : (content pending).length + totalEntries src.length < n := by
        obtain htail | hodd := hstale.2
        · have hsame : q.zeroTail.buffer = q.buffer := by rw [State.zeroTail, ← htail]
          have hsnap' := hat.getHeadTail_eq hn hmax
          rw [hsame] at hsnap'
          rwa [hentries, hsnap', isFull_iff hn hmax hat.room hsrc.totalEntries_le,
            Nat.not_le] at hfree
        · rw [hentries, hsnap, decide_eq_true hodd] at hfree
          exact lt_of_not_full_stale hn hmax hstart hflip hat.room hsrc.totalEntries_le hfree
      have hwriting := hat.startsWriting hpc' hsrc hroom
      rw [hsnap]
      exact ⟨start, pending, hwriting⟩
  · have hnot : ∀ src timeoutUs, q.producerPc ≠ .polling src timeoutUs :=
      fun src timeoutUs hpc => hpolls ⟨src, timeoutUs, hpc⟩
    exact hat.produce_inv hn hmax hlib (produce_zeroTail hnot hstep)

/-- A call of the producer while the consumer is missing. -/
theorem Inv.step_stale (hlib : lib.CopiesWithinMax) (h : Inv n q.zeroTail)
    (hstale : StaleTail q.buffer.tail) {a : Action} (hby : a.byProducer = true)
    (hcall : ∀ src timeoutUs lockRet lockErrno, a = .enqueue src timeoutUs lockRet lockErrno →
      1 ≤ src.length)
    (hstep : step lib q a = some q') : Inv n q'.zeroTail := by
  cases a with
  | enqueue src timeoutUs lockRet lockErrno =>
      refine h.step_nonEmpty hn hmax hlib hcall ?_
      rw [step] at hstep ⊢
      split_ifs at hstep with hidle
      obtain rfl := Option.some.inj hstep
      exact if_pos hidle
  | produce o => exact h.produce_stale hn hmax hlib hstale hstep
  | interruptProducer =>
      obtain rfl := Option.some.inj hstep
      exact h.step_nonEmpty hn hmax hlib hcall rfl
  | dequeue | consume | interruptConsumer => cases hby

end Steps

/-! ### Starting from clean words -/

section Runs

variable {n : Nat} {lib : Securec} {s s' : Starting} (hn : 0 < n) (hmax : n * entrySize < 2 ^ 31)

include hn hmax

theorem StartInv.call (hlib : lib.CopiesWithinMax) (h : StartInv n s) {a : Action}
    (hcall : NonEmptyCall s (.call a)) (hstep : startStep lib s (.call a) = some s') :
    StartInv n s' := by
  rw [startStep] at hstep
  split_ifs at hstep with hready
  obtain ⟨q, hq, rfl⟩ := Option.map_eq_some_iff.mp hstep
  have hlength : ∀ src timeoutUs lockRet lockErrno, a = .enqueue src timeoutUs lockRet lockErrno →
      1 ≤ src.length := by
    rintro src timeoutUs lockRet lockErrno rfl
    exact hcall
  obtain hconsumer | hconsumer := Bool.eq_false_or_eq_true s.consumerReady
  · have hinv : Inv n q := (h.ready hconsumer).step_nonEmpty hn hmax hlib hlength hq
    refine ⟨fun _ => hinv, fun hmissing => absurd (hconsumer.symm.trans hmissing) (by decide),
      h.cleared, fun hproducer => ?_⟩
    have hby : a.byProducer = false := by
      by_contra hby
      rw [Starting.ready, if_pos (Bool.eq_true_of_not_eq_false hby)] at hready
      exact absurd (hready.symm.trans hproducer) (by decide)
    obtain ⟨hhead, hpc, henqueued⟩ := step_byConsumer hby hq
    obtain ⟨hzero, hidle, hnone⟩ := h.unproduced hproducer
    exact ⟨hhead.trans hzero, hpc.trans hidle, henqueued.trans hnone⟩
  · obtain ⟨hinv, hstale, hidle⟩ := h.missing hconsumer
    have hby : a.byProducer = true := by
      by_contra hby
      rw [Starting.ready, if_neg hby] at hready
      exact absurd (hready.symm.trans hconsumer) (by decide)
    have hproducer : s.producerReady = true := by
      rwa [Starting.ready, if_pos hby] at hready
    obtain ⟨htail, hpc⟩ := step_byProducer hby hq
    refine ⟨fun habsurd => absurd (hconsumer.symm.trans habsurd) (by decide), fun _ => ⟨?_, ?_, ?_⟩,
      h.cleared, fun hmissing => absurd (hproducer.symm.trans hmissing) (by decide)⟩
    · exact hinv.step_stale hn hmax hlib hstale hby hlength hq
    · rw [htail]
      exact hstale
    · exact hpc.trans hidle

omit hn hmax in
theorem StartInv.entriesNr_eq (h : StartInv n s) : s.queue.producer.entriesNr = n := by
  obtain hconsumer | hconsumer := Bool.eq_false_or_eq_true s.consumerReady
  · exact (h.ready hconsumer).producer_entries
  · exact (h.missing hconsumer).1.producer_entries

omit hn hmax in
/-- The entries are cleared before the producer works. -/
theorem StartInv.clear (h : StartInv n s) (hmore : s.cleared < s.queue.producer.entriesNr) :
    StartInv n
      { s with
        queue := { s.queue with
          entries := Function.update s.queue.entries s.cleared clearedEntry }
        cleared := s.cleared + 1 } := by
  have hentries := h.entriesNr_eq
  have hmissing : s.producerReady = false := by
    by_contra hready
    have hall := h.cleared (Bool.eq_true_of_not_eq_false hready)
    omega
  obtain ⟨hzero, hidle, hnone⟩ := h.unproduced hmissing
  have hidle' : s.queue.zeroTail.producerPc = .idle := hidle
  refine ⟨fun hconsumer => (h.ready hconsumer).setEntries hidle hnone _, fun hconsumer => ?_,
    fun hproducer => absurd (hproducer.symm.trans hmissing) (by decide),
    fun _ => ⟨hzero, hidle, hnone⟩⟩
  obtain ⟨hinv, hrest⟩ := h.missing hconsumer
  exact ⟨hinv.setEntries hidle' hnone _, hrest⟩

theorem StartInv.step (hlib : lib.CopiesWithinMax) (h : StartInv n s) {a : StartAction}
    (hcall : NonEmptyCall s a) (hstep : startStep lib s a = some s') : StartInv n s' := by
  cases a with
  | call a => exact h.call hn hmax hlib hcall hstep
  | clear =>
      rw [startStep] at hstep
      split_ifs at hstep with hmore
      obtain rfl := Option.some.inj hstep
      exact h.clear hmore
  | setHead =>
      rw [startStep] at hstep
      split_ifs at hstep with hdone
      obtain rfl := Option.some.inj hstep
      simp only [Bool.and_eq_true, Bool.not_eq_true', decide_eq_true_eq] at hdone
      obtain ⟨hmissing, hall⟩ := hdone
      obtain ⟨hzero, -, -⟩ := h.unproduced hmissing
      have hsame : setHead s.queue.buffer 0 false = s.queue.buffer := by
        rw [setHead, position_zero, ← hzero]
      rw [hsame]
      exact ⟨h.ready, h.missing, fun _ => hall.trans h.entriesNr_eq,
        fun habsurd => absurd habsurd (by simp)⟩
  | setTail =>
      rw [startStep] at hstep
      split_ifs at hstep with hmissing
      obtain rfl := Option.some.inj hstep
      have hconsumer : s.consumerReady = false := by simpa using hmissing
      exact ⟨fun _ => (h.missing hconsumer).1, fun habsurd => absurd habsurd (by simp), h.cleared,
        h.unproduced⟩

omit hn hmax in
theorem InvAt.content_eq_nil {start : Nat} {pending : List (List UInt8)} {q : State}
    (h : InvAt n start pending q) : (content pending).length = 0 ↔ pending = [] := by
  constructor
  · intro hlen
    cases pending with
    | nil => rfl
    | cons msg rest =>
        have hpos := (h.sized msg List.mem_cons_self).totalEntries_pos
        rw [content_cons_length] at hlen
        omega
  · intro hnil
    rw [hnil]
    rfl

theorem StartInv.nothingLost (h : StartInv n s) : NothingLost n s := by
  obtain hconsumer | hconsumer := Bool.eq_false_or_eq_true s.consumerReady
  · obtain ⟨start, pending, hat⟩ := h.ready hconsumer
    have hsnap := hat.getHeadTail_eq hn hmax
    refine ⟨pending, by rw [hat.published_eq], hat.room.le, ⟨start, ?_, hat.filled⟩, fun _ _ => ?_⟩
    · rw [Starting.readPos, if_pos hconsumer, hsnap]
    · rw [hsnap, isEmpty_iff hn hat.room, hat.content_eq_nil]
  · obtain ⟨⟨start, pending, hat⟩, hstale, -⟩ := h.missing hconsumer
    have hstart := (hat.getHeadTail_stale hn hmax hstale.1).1
    refine ⟨pending, ?_, hat.room.le, ⟨start, ?_, hat.filled⟩,
      fun _ habsurd => absurd (hconsumer.symm.trans habsurd) (by decide)⟩
    · have hpublished : s.queue.published = s.queue.passed ++ pending := hat.published_eq
      rw [hpublished]
    · rw [Starting.readPos, if_neg (by simp [hconsumer]), hstart]

end Runs

/-! ### Starting from other words -/

section Violations

variable {n : Nat} {lib : Securec} {s : Starting} {q : State}

/-- Calls of a side that works are steps of the queue. -/
theorem exec_calls {is : List Action} (hready : ∀ a ∈ is, s.ready a = true) :
    Machine.exec (startStep lib) s (is.map .call) =
      (Machine.exec (step lib) s.queue is).map fun queue => { s with queue } := by
  induction is generalizing s with
  | nil => rfl
  | cons a is ih =>
      have ha := hready a List.mem_cons_self
      rw [List.map_cons, Machine.exec_cons, Machine.exec_cons, startStep, if_pos ha]
      cases hstep : step lib s.queue a with
      | none => rfl
      | some queue =>
          exact ih fun b hb => hready b (List.mem_cons_of_mem a hb)

variable (lib) in
/-- What `memset_s` has passed is cleared. -/
theorem exec_clears (k : Nat) (hk : s.cleared + k ≤ s.queue.producer.entriesNr) :
    ∃ entries, Machine.exec (startStep lib) s (List.replicate k .clear) =
        some { s with queue := { s.queue with entries }, cleared := s.cleared + k } ∧
      (∀ i < s.cleared, entries i = s.queue.entries i) ∧
        ∀ i, s.cleared ≤ i → i < s.cleared + k → entries i = clearedEntry := by
  induction k generalizing s with
  | zero => exact ⟨s.queue.entries, rfl, fun _ _ => rfl, fun i hle hlt => absurd hlt (by omega)⟩
  | succ k ih =>
      have hclear : startStep lib s .clear =
          some { s with
            queue := { s.queue with
              entries := Function.update s.queue.entries s.cleared clearedEntry }
            cleared := s.cleared + 1 } := if_pos (by omega)
      obtain ⟨entries, hexec, hbefore, hcleared⟩ := ih
        (s := { s with
          queue := { s.queue with
            entries := Function.update s.queue.entries s.cleared clearedEntry }
          cleared := s.cleared + 1 }) (by dsimp only; omega)
      refine ⟨entries, ?_, fun i hi => ?_, fun i hle hlt => ?_⟩
      · rw [List.replicate_succ, Machine.exec_cons, hclear, Option.bind_some, hexec]
        dsimp only
        rw [Nat.add_assoc, Nat.add_comm 1 k]
      · rw [hbefore i (by dsimp only; omega)]
        exact Function.update_of_ne (by omega) _ _
      · obtain rfl | hlater := Nat.eq_or_lt_of_le hle
        · rw [hbefore _ (by dsimp only; omega)]
          exact Function.update_self _ _ _
        · exact hcleared i hlater (by dsimp only; omega)

variable (lib) in
/-- A dequeue on an entry that is cleared and not published. -/
theorem dequeues_cleared (hn : 2 ≤ n)
    (hidle : q.consumerPc = .idle) (hconsumer : q.consumer.isProducer = false)
    (hrunning : q.consumer.interrupt = false) (hentries : q.consumer.entriesNr = n)
    (htail : (getHeadTail q.buffer).tail = 0) (hflip : (getHeadTail q.buffer).tailFlip = false)
    (hmore : isEmpty (getHeadTail q.buffer) = false) (hcleared : q.entries 0 = clearedEntry) :
    ∃ dst q', Machine.exec (step lib) q (.dequeue (-1) 0 0 :: List.replicate 5 (.consume {})) =
        some q' ∧ q'.published = q.published ∧ q'.passed = q.delivered ++ [dst] := by
  have hstart : step lib q (.dequeue (-1) 0 0) = some { q with consumerPc := .waiting (-1) } := by
    rw [step, if_pos hidle, dequeueStart_consumer hconsumer]
  have hwait : consume lib {} { q with consumerPc := .waiting (-1) } =
      some { q with consumerPc := .polling (-1) } := by
    rw [consume]
    dsimp only
    rw [hrunning, if_neg (by decide)]
  obtain ⟨w, hw⟩ : ∃ w, w = unblocking q.consumer := ⟨_, rfl⟩
  have hpoll : consume lib {} { q with consumerPc := .polling (-1) } =
      some { q with consumer := w, consumerPc := .metadata 0 false } := by
    rw [consume]
    dsimp only
    rw [hmore, htail, hflip, if_neg (by decide), hw]
  have hmeta : consume lib {}
      { q with consumer := w, consumerPc := .metadata 0 false } =
        some { q with
          consumer := w, consumerPc := .reading 0 false 0 0 0 0 [] } := by
    rw [consume]
    dsimp only
    have hok : getMetadata clearedEntry = 0 := by decide
    have hzero : toU64 0 = 0 := toU64_of_lt rfl (by decide)
    rw [hcleared, hok, if_neg (by decide), if_neg (by decide), clearedEntry, hzero]
    rfl
  have hlen : w.entriesNr = n := by rw [hw, unblocking_entriesNr, hentries]
  clear hw
  have hsum : toU32 ((0 : Nat) + (0 + 1) : Int) = 1 := toU32_of_lt (by norm_num) (by decide)
  have hnext : nextPos n 0 (0 + 1) = 1 := by
    rw [nextPos, hsum]
    exact Nat.mod_eq_of_lt hn
  have hsucc : u64 (0 + 1) % n = 1 := by
    rw [u64_of_lt (by decide), Nat.mod_eq_of_lt hn]
  have hread : ∀ offset dst, ∃ offset' dst', consume lib {}
      { q with consumer := w, consumerPc := .reading 0 false 0 0 0 offset dst } =
        some { q with
          consumer := w, consumerPc := .reading 0 false 0 0 1 offset' dst' } := by
    intro offset dst
    refine ⟨u32 (offset + dequeueCnt 0 offset), dst.take offset ++ (lib.memcpyS (dst.drop offset)
      (dequeueCnt 0 offset) (q.entries 0).data (dequeueCnt 0 offset)).2, ?_⟩
    rw [consume]
    dsimp only
    rw [dequeueBlocks]
    dsimp only
    rw [hlen, hnext, if_pos (by decide), hsucc]
  have hdone : ∀ offset dst, ∃ buffer, consume lib {}
      { q with consumer := w, consumerPc := .reading 0 false 0 0 1 offset dst } =
        some { q with
          buffer, consumer := w, consumerPc := .returning dst 0 } := by
    intro offset dst
    refine ⟨setTail q.buffer 1 (nextFlip n 0 (0 + 1) false), ?_⟩
    rw [consume]
    dsimp only
    rw [dequeueBlocks]
    dsimp only
    rw [hlen, hnext, if_neg (by decide)]
  obtain ⟨offset, dst, hread⟩ := hread 0 []
  obtain ⟨buffer, hdone⟩ := hdone offset dst
  refine ⟨dst, { q with
    buffer, consumer := w, consumerPc := .returning dst 0 }, ?_, rfl, rfl⟩
  have hconsume : ∀ q' : State, step lib q' (.consume {}) = consume lib {} q' := fun _ => rfl
  have hsteps : List.replicate 5 (Action.consume {}) =
      [.consume {}, .consume {}, .consume {}, .consume {}, .consume {}] := rfl
  rw [hsteps, Machine.exec_cons, hstart, Option.bind_some, Machine.exec_cons, hconsume, hwait,
    Option.bind_some, Machine.exec_cons, hconsume, hpoll, Option.bind_some, Machine.exec_cons,
    hconsume, hmeta, Option.bind_some, Machine.exec_cons, hconsume, hread, Option.bind_some,
    Machine.exec_cons, hconsume, hdone, Option.bind_some, Machine.exec_nil]

variable (lib) in
/-- An enqueue of a message of all entries against a tail that stands at `t` on the same lap. -/
theorem enqueues_unwritten (hn : 0 < n) (hmax : n * entrySize < 2 ^ 31) {t : Nat} (ht : 0 < t)
    (hidle : q.producerPc = .idle) (hproducer : q.producer.isProducer = true)
    (hrunning : q.producer.interrupt = false) (hentries : q.producer.entriesNr = n)
    (hsnap : getHeadTail q.buffer = ⟨0, false, t, false⟩) {src : List UInt8} (hsrc : Sized n src)
    (hall : totalEntries src.length = n) :
    ∃ q', Machine.exec (step lib) q (.enqueue src (-1) 0 0 :: List.replicate 3 (.produce {})) =
        some q' ∧ q'.published = q.enqueued ++ [src] ∧ q'.passed = q.passed ∧
      q'.entries = q.entries := by
  have hsum : toU32 ((0 : Nat) + (n : Int)) = n := by
    rw [entrySize] at hmax
    exact toU32_of_lt (by omega) (by omega)
  have hnext : nextPos n 0 n = 0 := by rw [nextPos, hsum, Nat.mod_self]
  have hnextFlip : nextFlip n 0 n false = true := by
    rw [nextFlip, hsum, decide_eq_true (le_refl n)]
    rfl
  have hfree : isFull n n ⟨0, false, t, false⟩ = false := by
    have hnot : ¬ 0 ≥ t := by omega
    rw [isFull]
    dsimp only
    rw [hnext, hnextFlip, decide_eq_false hnot]
    rfl
  have hstart : step lib q (.enqueue src (-1) 0 0) =
      some { q with producerPc := .waiting src (-1) } := by
    rw [step, if_pos hidle, enqueueStart_sized hmax hproducer hentries hsrc]
  have hwait : produce lib {} { q with producerPc := .waiting src (-1) } =
      some { q with producerPc := .polling src (-1) } := by
    rw [produce]
    dsimp only
    rw [hrunning, if_neg (by decide)]
  obtain ⟨w, hw⟩ : ∃ w, w = unblocking q.producer := ⟨_, rfl⟩
  have hpoll : produce lib {} { q with producerPc := .polling src (-1) } =
      some { q with producer := w, producerPc := .writing src 0 false 0 0 } := by
    rw [produce]
    dsimp only
    rw [hsnap, hentries, hall, hfree, if_neg (by decide), hw]
  have hlen : w.entriesNr = n := by rw [hw, unblocking_entriesNr, hentries]
  clear hw
  have hwrite : produce lib {} { q with producer := w, producerPc := .writing src 0 false 0 0 } =
      some { q with
        producer := w, buffer := setHead q.buffer 0 true, producerPc := .returning src 0 } := by
    rw [produce]
    dsimp only
    rw [enqueueBlocks]
    dsimp only
    rw [hlen, signed_totalEntries hmax hsrc, hall, hnext, hnextFlip, if_neg (by decide)]
  refine ⟨{ q with
    producer := w, buffer := setHead q.buffer 0 true, producerPc := .returning src 0 },
    ?_, rfl, rfl, rfl⟩
  have hproduce : ∀ q' : State, step lib q' (.produce {}) = produce lib {} q' := fun _ => rfl
  have hsteps : List.replicate 3 (Action.produce {}) =
      [.produce {}, .produce {}, .produce {}] := rfl
  rw [hsteps, Machine.exec_cons, hstart, Option.bind_some, Machine.exec_cons, hproduce, hwait,
    Option.bind_some, Machine.exec_cons, hproduce, hpoll, Option.bind_some, Machine.exec_cons,
    hproduce, hwrite, Option.bind_some, Machine.exec_nil]

end Violations

/-! ### Every initial content -/

section Contents

variable {n : Nat} {lib : Securec} {head tail : UInt32} {entries : Nat → Entry}
  {producer consumer : BlockingQueue}

theorem blockingQueueCreate_some {memSize : Nat} {isProducer concurrent : Bool} {q : BlockingQueue}
    (hmem : memSize < 2 ^ 31) (h : blockingQueueCreate memSize isProducer concurrent = some q) :
    q.isProducer = isProducer ∧ q.interrupt = false ∧ q.entriesNr = (memSize - 8) / 520 ∧
      2 ≤ q.entriesNr ∧ q.entriesNr * entrySize < 2 ^ 31 := by
  rw [blockingQueueCreate] at h
  split_ifs at h with hsmall
  obtain rfl := Option.some.inj h
  have hentries : u32 ((memSize - 8) / 520) = (memSize - 8) / 520 := u32_of_lt (by omega)
  dsimp only
  rw [hentries, entrySize]
  exact ⟨rfl, rfl, rfl, by omega, by omega⟩

theorem starting_inv (hn : 0 < n) (hproducer : producer.entriesNr = n)
    (hconsumer : consumer.entriesNr = n) (hclean : CleanWords head tail) :
    StartInv n (starting head tail entries producer consumer) := by
  obtain ⟨rfl, htail⟩ := hclean
  have hstale : StaleTail tail.toNat := by
    refine ⟨tail.toNat_lt, htail.imp (fun h => ?_) fun h => ?_⟩
    · rw [h]
      rfl
    · have hbit := congrArg UInt32.toNat h
      rwa [UInt32.toNat_and, UInt32.toNat_one, Nat.and_one_is_mod] at hbit
  refine ⟨fun habsurd => absurd habsurd (by simp [starting]), fun _ => ⟨?_, hstale, rfl⟩,
    fun habsurd => absurd habsurd (by simp [starting]), fun _ => ⟨rfl, rfl, rfl⟩⟩
  exact inv_initial hn entries hproducer hconsumer

/-- A head word that is not 0 lets the consumer take an entry that nobody wrote. -/
theorem takes_unwritten (hn : 2 ≤ n) (hproducer : producer.entriesNr = n)
    (hconsumer : consumer.entriesNr = n) (hside : consumer.isProducer = false)
    (hrunning : consumer.interrupt = false) (hhead : head ≠ 0) :
    ¬ NeverLoses lib n (starting head tail entries producer consumer) := by
  intro hnever
  let q : State :=
    { buffer := ⟨head.toNat, 0⟩
      entries := Function.update entries 0 clearedEntry
      producer
      consumer }
  let s : Starting := { queue := q, cleared := 1, consumerReady := true }
  have hcreations : Machine.exec (startStep lib) (starting head tail entries producer consumer)
      [.setTail, .clear] = some s := by
    have hpos : 0 < producer.entriesNr := by omega
    have hset : startStep lib (starting head tail entries producer consumer) .setTail =
        some { s with queue := { q with entries := entries }, cleared := 0 } := rfl
    have hclear : startStep lib { s with queue := { q with entries := entries }, cleared := 0 }
        .clear = some s := if_pos hpos
    rw [Machine.exec_cons, hset, Option.bind_some, Machine.exec_cons, hclear, Option.bind_some,
      Machine.exec_nil]
  have hsnap : getHeadTail q.buffer = ⟨head.toNat / 2, decide (head.toNat % 2 = 1), 0, false⟩ :=
    getHeadTail_words head.toNat_lt (by decide)
  have hmore : isEmpty (getHeadTail q.buffer) = false := by
    have hword : head.toNat ≠ 0 := fun h => hhead (UInt32.toNat_inj.mp h)
    rw [hsnap, isEmpty, Bool.and_eq_false_iff, decide_eq_false_iff_not, decide_eq_false_iff_not]
    by_contra hboth
    obtain ⟨hflip, hpos⟩ := not_or.mp hboth
    simp only [decide_eq_false_iff_not, not_not] at hflip hpos
    omega
  have hfirst : q.entries 0 = clearedEntry := Function.update_self 0 clearedEntry entries
  obtain ⟨dst, q', hdequeue, hpublished, hpassed⟩ := dequeues_cleared lib (q := q) hn rfl hside
    hrunning hconsumer (by rw [hsnap]) (by rw [hsnap]) hmore hfirst
  have hcalls : Machine.exec (startStep lib) s
      ((.dequeue (-1) 0 0 :: List.replicate 5 (.consume {})).map .call) =
        some { s with queue := q' } := by
    rw [exec_calls (by simp [s, Starting.ready, Action.byProducer]), hdequeue, Option.map_some]
  obtain ⟨pending, hundelivered⟩ := hnever ([.setTail, .clear] ++
      (.dequeue (-1) 0 0 :: List.replicate 5 (.consume {})).map .call) { s with queue := q' }
    (Machine.along_of_forall (by simp [NonEmptyCall]))
    (by rw [Machine.exec_append, hcreations, Option.bind_some, hcalls])
  have hlength := hundelivered.perm.length_eq
  dsimp only at hlength
  rw [hpublished, hpassed] at hlength
  simp [q, State.published, ProducerPc.stored] at hlength

variable (lib entries producer consumer) in
/-- The state behind the producer's creation, on a head word of 0. -/
theorem starting_created (hproducer : producer.entriesNr = n) (tail : UInt32) :
    ∃ cleared : Nat → Entry, (∀ i < n, cleared i = clearedEntry) ∧
      Machine.exec (startStep lib) (starting 0 tail entries producer consumer)
          (List.replicate n .clear ++ [.setHead]) =
        some
          { queue := { buffer := ⟨0, tail.toNat⟩, entries := cleared, producer, consumer }
            cleared := n
            producerReady := true } := by
  obtain ⟨cleared, hclears, -, hcleared⟩ := exec_clears lib
    (s := starting 0 tail entries producer consumer) n (by rw [← hproducer]; simp [starting])
  let q : State := { buffer := ⟨0, tail.toNat⟩, entries := cleared, producer, consumer }
  let s : Starting := { queue := q, cleared := n, producerReady := true }
  have hset : startStep lib { s with cleared := 0 + n, producerReady := false } .setHead =
      some { s with cleared := 0 + n } := if_pos (by simp [s, q, hproducer])
  have hstart : starting 0 tail entries producer consumer =
      { s with queue := { q with entries := entries }, cleared := 0, producerReady := false } := rfl
  refine ⟨cleared, fun i hi => hcleared i (Nat.zero_le i) (hi.trans_eq (Nat.zero_add n).symm), ?_⟩
  rw [Machine.exec_append, hclears, Option.bind_some, hstart, Machine.exec_cons, hset,
    Option.bind_some, Machine.exec_nil, Nat.zero_add]

/-- A message of all entries. -/
def wholeLap (n : Nat) : List UInt8 := List.replicate (n * entrySize) 0

theorem wholeLap_sized (hn : 0 < n) : Sized n (wholeLap n) := by
  have hlen : (wholeLap n).length = n * entrySize := List.length_replicate
  refine ⟨?_, hlen.le⟩
  rw [hlen, entrySize]
  omega

theorem wholeLap_totalEntries (n : Nat) : totalEntries (wholeLap n).length = n := by
  have hlen : (wholeLap n).length = n * entrySize := List.length_replicate
  rw [hlen, totalEntries, entrySize, Nat.mul_div_cancel _ (by decide), Nat.mul_mod_left,
    if_pos rfl, Nat.add_zero]

/-- A message that stands in the ring has been written there. -/
theorem not_stands_cleared (hn : 0 < n) {src : List UInt8} (hsrc : 1 ≤ src.length)
    {ring : Nat → Entry} (hcleared : ∀ i < n, ring i = clearedEntry) (start : Nat) :
    ¬ Filled Stores n ring start (content [src]) := by
  intro hfilled
  have hfirst : (content [src])[0]? = some (blockAt src 0) := by
    rw [content_singleton]
    exact blocks_getElem? (totalEntries_pos hsrc)
  have hsize := (hfilled 0 _ hfirst).1
  rw [hcleared _ (Nat.mod_lt _ hn)] at hsize
  have hzero : (0 : Int) = src.length := hsize
  omega

/-- A tail word whose flip is not set lets the producer publish a whole lap that it never writes. -/
theorem publishes_unwritten (hn : 0 < n) (hmax : n * entrySize < 2 ^ 31)
    (hproducer : producer.entriesNr = n) (hside : producer.isProducer = true)
    (hrunning : producer.interrupt = false) (htail : tail ≠ 0) (hflip : tail &&& 1 ≠ 1) :
    ¬ NeverLoses lib n (starting 0 tail entries producer consumer) := by
  intro hnever
  obtain ⟨cleared, hcleared, hcreation⟩ :=
    starting_created lib entries producer consumer hproducer tail
  let q : State := { buffer := ⟨0, tail.toNat⟩, entries := cleared, producer, consumer }
  let s : Starting := { queue := q, cleared := n, producerReady := true }
  have hodd : ¬ tail.toNat % 2 = 1 := by
    intro h
    refine hflip (UInt32.toNat_inj.mp ?_)
    rw [UInt32.toNat_and, UInt32.toNat_one, Nat.and_one_is_mod, h]
  have hword : tail.toNat ≠ 0 := fun h => htail (UInt32.toNat_inj.mp h)
  have hsnap : getHeadTail q.buffer = ⟨0, false, tail.toNat / 2, false⟩ := by
    rw [getHeadTail_words (by decide) tail.toNat_lt, decide_eq_false hodd]
    rfl
  have hsrc := wholeLap_sized hn
  obtain ⟨q', henqueue, hpublished, hpassed, hentries⟩ := enqueues_unwritten lib (q := q) hn hmax
    (by omega) rfl hside hrunning hproducer hsnap hsrc (wholeLap_totalEntries n)
  let calls : List Action := .enqueue (wholeLap n) (-1) 0 0 :: List.replicate 3 (.produce {})
  have hcalls : Machine.exec (startStep lib) s (calls.map .call) = some { s with queue := q' } := by
    rw [exec_calls (by simp [calls, s, Starting.ready, Action.byProducer]), henqueue,
      Option.map_some]
  have hnonEmpty : ∀ a ∈ (List.replicate n StartAction.clear ++ [.setHead]) ++ calls.map .call,
      ∀ t, NonEmptyCall t a := by
    intro a ha t
    cases a with
    | call a =>
        obtain hcreate | hcall := List.mem_append.mp ha
        · simp at hcreate
        · obtain ⟨b, hb, hcall⟩ := List.mem_map.mp hcall
          obtain rfl := StartAction.call.inj hcall
          obtain rfl | hproduce := List.mem_cons.mp hb
          · exact hsrc.1
          · obtain rfl := List.eq_of_mem_replicate hproduce
            trivial
    | clear | setHead | setTail => trivial
  obtain ⟨pending, hundelivered⟩ := hnever _ { s with queue := q' }
    (Machine.along_of_forall hnonEmpty)
    (by rw [Machine.exec_append, hcreation, Option.bind_some, hcalls])
  have hperm := hundelivered.perm
  dsimp only at hperm
  rw [hpublished, hpassed] at hperm
  obtain rfl : pending = [wholeLap n] := List.perm_singleton.mp hperm.symm
  obtain ⟨start, -, hfilled⟩ := hundelivered.stands
  dsimp only at hfilled
  rw [hentries] at hfilled
  exact not_stands_cleared hn hsrc.1 hcleared start hfilled

/-- On memory with this content no message is ever lost, made up or delivered twice, however the two
creations and the calls of both sides interleave, exactly when its two words are clean. The queue
lies in one half of a region whose size is a 32-bit number. -/
theorem neverLoses_iff (hlib : lib.CopiesWithinMax) (memSize : Nat) (hmem : memSize < 2 ^ 31)
    {concurrent concurrent' : Bool}
    (hproducer : blockingQueueCreate memSize true concurrent = some producer)
    (hconsumer : blockingQueueCreate memSize false concurrent' = some consumer)
    (head tail : UInt32) (entries : Nat → Entry) :
    NeverLoses lib producer.entriesNr (starting head tail entries producer consumer) ↔
      CleanWords head tail := by
  obtain ⟨hside, hrunning, hnr, hn, hmax⟩ := blockingQueueCreate_some hmem hproducer
  obtain ⟨hside', hrunning', hnr', -, -⟩ := blockingQueueCreate_some hmem hconsumer
  have hsame : consumer.entriesNr = producer.entriesNr := hnr'.trans hnr.symm
  constructor
  · intro hnever
    by_cases hhead : head = 0
    · refine ⟨hhead, ?_⟩
      by_contra htail
      obtain ⟨hne, hflip⟩ := not_or.mp htail
      rw [hhead] at hnever
      exact publishes_unwritten (by omega) hmax rfl hside hrunning hne hflip hnever
    · exact absurd hnever (takes_unwritten hn rfl hsame hside' hrunning' hhead)
  · intro hclean is s hcalls hexec
    have hpos : 0 < producer.entriesNr := by omega
    have hinv : StartInv producer.entriesNr s :=
      Machine.exec_invariant_along (StartInv producer.entriesNr)
        (fun _ _ _ h hcall hstep => h.step hpos hmax hlib hcall hstep)
        (starting_inv hpos rfl hsame hclean) hcalls hexec
    exact hinv.nothingLost hpos hmax

end Contents

/-- The smallest queue: two entries. -/
def smallest (isProducer : Bool) : BlockingQueue where
  isProducer
  concurrent := false
  entriesNr := 2

theorem flipOnly_neverLoses :
    CleanWords 0 1 ∧ NeverLoses .reference 2
      (starting 0 1 (fun _ => clearedEntry) (smallest true) (smallest false)) :=
  have hclean : CleanWords 0 1 := by decide
  ⟨hclean, (neverLoses_iff Securec.reference_copiesWithinMax 1048 (by decide)
    (show blockingQueueCreate 1048 true false = some (smallest true) from rfl)
    (show blockingQueueCreate 1048 false false = some (smallest false) from rfl) 0 1
    (fun _ => clearedEntry)).mpr hclean⟩

/-- With a head word of 2, a consumer that starts first takes the cleared entry for a message. -/
theorem headTwo_loses :
    ¬ NeverLoses .reference 2
      (starting 2 0 (fun _ => clearedEntry) (smallest true) (smallest false)) :=
  takes_unwritten le_rfl rfl rfl rfl rfl (by decide)

end ITrustee.Xtasklet
