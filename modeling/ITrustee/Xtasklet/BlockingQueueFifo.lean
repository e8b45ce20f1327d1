import Mathlib.Tactic
import ITrustee.Xtasklet.BlockingQueueBlocks

/-!
# The blocking queue is first in, first out

The invariant counts entries: `tail` of them were released, and from there on the ring holds the
blocks of the `pending` messages, published and not yet passed by the consumer. There is always a free
entry, so a position and its flip determine the counter. The producer writes behind the pending blocks
and publishes them all by one store of the head, the consumer reads the first pending message and
releases its entries by one store of the tail. A snapshot that has become stale only underestimates:
the producer's of the free entries, the consumer's of the pending messages.
-/

namespace ITrustee.Xtasklet

open CInt FlipRing

/-! ### Messages -/

/-- The message whose head is stored, before its call returns. -/
def ProducerPc.stored : ProducerPc → List (List UInt8)
  | .returning src ret => if ret = 0 then [src] else []
  | _ => []

/-- The message of the running call. -/
def ProducerPc.inProgress : ProducerPc → List (List UInt8)
  | .idle => []
  | .waiting src _ | .polling src _ | .writing src .. | .returning src _ => [src]

/-- The message whose tail is stored, before its call returns. -/
def ConsumerPc.stored : ConsumerPc → List (List UInt8)
  | .returning dst ret => if ret = 0 then [dst] else []
  | _ => []

def State.published (s : State) : List (List UInt8) := s.enqueued ++ s.producerPc.stored

def State.passed (s : State) : List (List UInt8) := s.delivered ++ s.consumerPc.stored

/-- An entry between the tail and the head. -/
def State.Occupied (n : Nat) (s : State) (i : Nat) : Prop :=
  let p := getHeadTail s.buffer
  FlipRing.Occupied n p.head p.headFlip p.tail p.tailFlip i

/-- The calls meant for a ring of `n` entries. -/
def SizedCall (n : Nat) (_ : State) : Action → Prop
  | .enqueue src .. => Sized n src
  | _ => True

instance (n : Nat) (s : State) (a : Action) : Decidable (SizedCall n s a) :=
  match a with
  | .enqueue src .. => inferInstanceAs (Decidable (1 ≤ src.length ∧ src.length ≤ n * entrySize))
  | .dequeue .. | .produce _ | .consume _ | .interruptProducer | .interruptConsumer =>
      isTrue trivial

theorem ProducerPc.inProgress_length (pc : ProducerPc) : pc.inProgress.length ≤ 1 := by
  cases pc <;> simp [inProgress]

theorem ProducerPc.stored_prefix (pc : ProducerPc) : pc.stored <+: pc.inProgress := by
  cases pc with
  | returning src ret =>
      rw [stored, inProgress]
      split
      · exact List.prefix_rfl
      · exact List.nil_prefix
  | idle | waiting | polling | writing => exact List.nil_prefix

/-- What the entries hold of some messages. -/
def content (msgs : List (List UInt8)) : List Block := msgs.flatMap blocks

theorem content_append (msgs msgs' : List (List UInt8)) :
    content (msgs ++ msgs') = content msgs ++ content msgs' := List.flatMap_append

theorem content_cons (msg : List UInt8) (msgs : List (List UInt8)) :
    content (msg :: msgs) = blocks msg ++ content msgs := List.flatMap_cons

theorem content_singleton (msg : List UInt8) : content [msg] = blocks msg := by
  rw [content_cons, content, List.flatMap_nil, List.append_nil]

/-! ### The invariant -/

section Invariant

variable (n tail : Nat) (pending : List (List UInt8))

def ProducerAt (entries : Nat → Entry) : ProducerPc → Prop
  | .waiting src _ | .polling src _ => Sized n src
  | .writing src head headFlip i offset =>
      let used := tail + (content pending).length
      Sized n src ∧ head = used % n ∧ headFlip = lapFlip n used ∧
        (content pending).length + totalEntries src.length < n ∧
        ∃ j ≤ totalEntries src.length, i = (used + j) % n ∧ offset = offsetAt src.length j ∧
          Filled Stores n entries used ((blocks src).take j)
  | .idle | .returning .. => True

def ConsumerAt : ConsumerPc → Prop
  | .metadata pos posFlip => pos = tail % n ∧ posFlip = lapFlip n tail ∧ pending ≠ []
  | .reading pos posFlip size remain i offset dst =>
      ∃ msg rest, pending = msg :: rest ∧ pos = tail % n ∧ posFlip = lapFlip n tail ∧
        size = msg.length ∧ remain = totalEntries msg.length - 1 ∧
        ∃ j ≤ totalEntries msg.length, i = (tail + j) % n ∧ offset = offsetAt msg.length j ∧
          dst = partlyRead msg j
  | .idle | .waiting _ | .polling _ | .returning .. => True

structure InvAt (s : State) : Prop where
  producer_entries : s.producer.entriesNr = n
  consumer_entries : s.consumer.entriesNr = n
  published_eq : s.published = s.passed ++ pending
  sized : ∀ msg ∈ pending, Sized n msg
  room : (content pending).length < n
  buffer_eq : s.buffer =
    ⟨position ((tail + (content pending).length) % n) (lapFlip n (tail + (content pending).length)),
      position (tail % n) (lapFlip n tail)⟩
  filled : Filled Stores n s.entries tail (content pending)
  producerAt : ProducerAt n tail pending s.entries s.producerPc
  consumerAt : ConsumerAt n tail pending s.consumerPc

def Inv (s : State) : Prop := ∃ tail pending, InvAt n tail pending s

end Invariant

/-! ### Steps that store nothing -/

section Locals

variable {n tail : Nat} {pending : List (List UInt8)} {s : State}

theorem InvAt.setProducer (h : InvAt n tail pending s) {q : BlockingQueue} {pc : ProducerPc}
    (hq : q.entriesNr = n) (hstored : pc.stored = s.producerPc.stored)
    (hpc : ProducerAt n tail pending s.entries pc) :
    InvAt n tail pending { s with producer := q, producerPc := pc } := by
  have hpub : State.published { s with producer := q, producerPc := pc } = s.published := by
    rw [State.published, State.published, hstored]
  exact { h with producer_entries := hq, published_eq := hpub.trans h.published_eq, producerAt := hpc }

theorem InvAt.setConsumer (h : InvAt n tail pending s) {q : BlockingQueue} {pc : ConsumerPc}
    (hq : q.entriesNr = n) (hstored : pc.stored = s.consumerPc.stored)
    (hpc : ConsumerAt n tail pending pc) :
    InvAt n tail pending { s with consumer := q, consumerPc := pc } := by
  have hpassed : State.passed { s with consumer := q, consumerPc := pc } = s.passed := by
    rw [State.passed, State.passed, hstored]
  have hpub : s.published = State.passed { s with consumer := q, consumerPc := pc } ++ pending := by
    rw [hpassed, h.published_eq]
  exact { h with consumer_entries := hq, published_eq := hpub, consumerAt := hpc }

theorem blocking_entriesNr (o : Outcome) (q : BlockingQueue) (timeoutUs : Int) :
    (blocking o q timeoutUs).queue.entriesNr = q.entriesNr := by
  rw [blocking]
  split_ifs <;> rfl

theorem blocking_interrupt (o : Outcome) (q : BlockingQueue) (timeoutUs : Int) :
    (blocking o q timeoutUs).queue.interrupt = q.interrupt := by
  rw [blocking]
  split_ifs <;> rfl

theorem unblocking_entriesNr (q : BlockingQueue) : (unblocking q).entriesNr = q.entriesNr := by
  simp only [unblocking]

theorem unblocking_interrupt (q : BlockingQueue) : (unblocking q).interrupt = q.interrupt := by
  simp only [unblocking]

theorem returning_stored (src : List UInt8) {ret : Int} (hret : ret ≠ 0) :
    (ProducerPc.returning src ret).stored = [] := if_neg hret

theorem returning_stored' (dst : List UInt8) {ret : Int} (hret : ret ≠ 0) :
    (ConsumerPc.returning dst ret).stored = [] := if_neg hret

theorem enqueueStart_stored (q : BlockingQueue) (src : List UInt8)
    (timeoutUs lockRet lockErrno : Int) :
    (enqueueStart q src timeoutUs lockRet lockErrno).stored = [] := by
  rw [enqueueStart]
  split_ifs with _ _ hlock
  · exact returning_stored src (by decide)
  · exact returning_stored src (by decide)
  · exact returning_stored src hlock
  · exact returning_stored src (by decide)
  · rfl

theorem enqueueStart_at (q : BlockingQueue) {src : List UInt8} (hsrc : Sized n src)
    (timeoutUs lockRet lockErrno : Int) :
    ProducerAt n tail pending s.entries (enqueueStart q src timeoutUs lockRet lockErrno) := by
  rw [enqueueStart]
  split_ifs
  · trivial
  · trivial
  · trivial
  · trivial
  · exact hsrc

theorem dequeueStart_stored (q : BlockingQueue) (timeoutUs lockRet lockErrno : Int) :
    (dequeueStart q timeoutUs lockRet lockErrno).stored = [] := by
  rw [dequeueStart]
  split_ifs with _ hlock
  · exact returning_stored' [] (by decide)
  · exact returning_stored' [] hlock
  · rfl

theorem dequeueStart_at (q : BlockingQueue) (timeoutUs lockRet lockErrno : Int) :
    ConsumerAt n tail pending (dequeueStart q timeoutUs lockRet lockErrno) := by
  rw [dequeueStart]
  split_ifs <;> trivial

end Locals

/-! ### What a turn of the loops does -/

section Turns

variable {n : Nat} (hn : 0 < n) (hmax : n * entrySize < 2 ^ 31) {lib : Securec}
  {src : List UInt8} (hsrc : Sized n src) (hfits : totalEntries src.length < n)

include hn

/-- The loops over the entries from `start` up to the `t`-th after it stop there. -/
theorem loop_runs_iff {t j : Nat} (start : Nat) (ht : t < n) (hj : j ≤ t) :
    (start + j) % n ≠ (start + t) % n ↔ j < t := by
  constructor
  · intro hne
    by_contra hlast
    exact hne (by rw [le_antisymm hj (Nat.le_of_not_lt hlast)])
  · intro hlt heq
    exact hlt.ne (add_mod_inj hn (hlt.trans ht) ht heq)

theorem u32_succ_mod (hmax : n * entrySize < 2 ^ 31) (k : Nat) :
    u32 (k % n + 1) % n = (k + 1) % n := by
  have hk := Nat.mod_lt k hn
  rw [entrySize] at hmax
  rw [u32_of_lt (by omega), succ_mod]

theorem u64_succ_mod (hmax : n * entrySize < 2 ^ 31) (k : Nat) :
    u64 (k % n + 1) % n = (k + 1) % n := by
  have hk := Nat.mod_lt k hn
  rw [entrySize] at hmax
  rw [u64_of_lt (by omega), succ_mod]

include hmax hsrc hfits

theorem enqueueBlocks_write {s : State} (hs : s.producer.entriesNr = n) (used : Nat) {j : Nat}
    (hj : j < totalEntries src.length) :
    enqueueBlocks lib s src (used % n) (lapFlip n used) ((used + j) % n) (offsetAt src.length j) =
      { s with
        entries := Function.update s.entries ((used + j) % n)
          (writeEntry lib (s.entries ((used + j) % n)) (j = 0) src src.length
            (totalEntries src.length) (offsetAt src.length j))
        producerPc := .writing src (used % n) (lapFlip n used) ((used + (j + 1)) % n)
          (offsetAt src.length (j + 1)) } := by
  have hfirst : decide ((used + j) % n = used % n) = decide (j = 0) := by
    refine decide_eq_decide.mpr ⟨fun h => ?_, fun h => by rw [h, Nat.add_zero]⟩
    exact add_mod_inj hn (by omega) hn h
  have hgo := (loop_runs_iff hn used hfits hj.le).mpr hj
  rw [enqueueBlocks]
  simp only [hs, signed_totalEntries hmax hsrc, nextPos_mod hn hmax rfl hfits.le]
  rw [if_pos hgo, hfirst, i32_length hmax hsrc, u32_succ_mod hn hmax, Nat.add_assoc,
    enqueue_offset_succ hmax hsrc hj]

theorem enqueueBlocks_done {s : State} (hs : s.producer.entriesNr = n) (used : Nat) (offset : Int) :
    enqueueBlocks lib s src (used % n) (lapFlip n used) ((used + totalEntries src.length) % n) offset =
      { s with
        buffer := setHead s.buffer ((used + totalEntries src.length) % n)
          (lapFlip n (used + totalEntries src.length))
        producerPc := .returning src 0 } := by
  rw [enqueueBlocks]
  simp only [hs, signed_totalEntries hmax hsrc, nextPos_mod hn hmax rfl hfits.le,
    nextFlip_flip hn hmax rfl hfits.le]
  rw [if_neg (not_not.mpr rfl)]

theorem dequeueBlocks_read (hlib : lib.CopiesWithinMax) {s : State} (hs : s.consumer.entriesNr = n)
    (tail : Nat) {j : Nat} (hj : j < totalEntries src.length)
    (hentry : Stores (s.entries ((tail + j) % n)) (blockAt src j)) :
    dequeueBlocks lib s (tail % n) (lapFlip n tail) src.length (totalEntries src.length - 1)
        ((tail + j) % n) (offsetAt src.length j) (partlyRead src j) =
      { s with
        consumerPc := .reading (tail % n) (lapFlip n tail) src.length (totalEntries src.length - 1)
          ((tail + (j + 1)) % n) (offsetAt src.length (j + 1)) (partlyRead src (j + 1)) } := by
  have hcount : ((totalEntries src.length : Int) - 1 + 1) = (totalEntries src.length : Nat) := by
    omega
  have hgo := (loop_runs_iff hn tail hfits hj.le).mpr hj
  rw [dequeueBlocks]
  simp only [hs, nextPos_mod hn hmax hcount hfits.le]
  rw [if_pos hgo, u64_succ_mod hn hmax, Nat.add_assoc, dequeue_offset_succ hmax hsrc hj,
    partlyRead_succ hmax hsrc hlib hentry hj]

omit hsrc in
theorem dequeueBlocks_done {s : State} (hs : s.consumer.entriesNr = n) (tail offset : Nat)
    (dst : List UInt8) :
    dequeueBlocks lib s (tail % n) (lapFlip n tail) src.length (totalEntries src.length - 1)
        ((tail + totalEntries src.length) % n) offset dst =
      { s with
        buffer := setTail s.buffer ((tail + totalEntries src.length) % n)
          (lapFlip n (tail + totalEntries src.length))
        consumerPc := .returning dst 0 } := by
  have hcount : ((totalEntries src.length : Int) - 1 + 1) = (totalEntries src.length : Nat) := by
    omega
  rw [dequeueBlocks]
  simp only [hs, nextPos_mod hn hmax hcount hfits.le, nextFlip_flip hn hmax hcount hfits.le]
  rw [if_neg (not_not.mpr rfl)]

end Turns

/-! ### Steps of the producer -/

/-- The consumer does not notice what is published behind the pending messages. -/
theorem ConsumerAt.append {n tail : Nat} {pending : List (List UInt8)} {pc : ConsumerPc}
    (h : ConsumerAt n tail pending pc) (more : List (List UInt8)) :
    ConsumerAt n tail (pending ++ more) pc := by
  cases pc with
  | metadata pos posFlip =>
      obtain ⟨hpos, hflip, hne⟩ := h
      exact ⟨hpos, hflip, List.append_ne_nil_of_left_ne_nil hne more⟩
  | reading pos posFlip size remain i offset dst =>
      obtain ⟨msg, rest, rfl, hread⟩ := h
      exact ⟨msg, rest ++ more, rfl, hread⟩
  | idle | waiting | polling | returning => trivial

section Producer

variable {n tail : Nat} {pending : List (List UInt8)} {s : State}

/-- A write behind the pending blocks. -/
theorem InvAt.writeBlock (hn : 0 < n) (h : InvAt n tail pending s) {src : List UInt8} {j : Nat}
    {e : Entry}
    (hsrc : Sized n src) (hroom : (content pending).length + totalEntries src.length < n)
    (hj : j < totalEntries src.length) (hstored : s.producerPc.stored = [])
    (hfilled : Filled Stores n s.entries (tail + (content pending).length) ((blocks src).take j))
    (he : Stores e (blockAt src j)) :
    InvAt n tail pending
      { s with
        entries := Function.update s.entries ((tail + (content pending).length + j) % n) e
        producerPc := .writing src ((tail + (content pending).length) % n)
          (lapFlip n (tail + (content pending).length))
          ((tail + (content pending).length + (j + 1)) % n) (offsetAt src.length (j + 1)) } := by
  have hlen : ((blocks src).take j).length = j := by
    rw [List.length_take, blocks_length]
    omega
  have hsnoc := hfilled.snoc hn (by omega) he
  rw [hlen, ← blocks_take_succ hj] at hsnoc
  have hpub := h.published_eq
  rw [State.published, hstored] at hpub
  refine { h with
    published_eq := hpub
    filled := ?_
    producerAt := ⟨hsrc, rfl, rfl, hroom, j + 1, hj, rfl, rfl, hsnoc⟩ }
  rw [Nat.add_assoc tail]
  exact h.filled.update hn (by omega) (by omega)

/-- The message becomes pending by the store of the head. -/
theorem InvAt.publish (h : InvAt n tail pending s) {src : List UInt8} (hsrc : Sized n src)
    (hroom : (content pending).length + totalEntries src.length < n)
    (hstored : s.producerPc.stored = [])
    (hfilled : Filled Stores n s.entries (tail + (content pending).length) (blocks src)) :
    InvAt n tail (pending ++ [src])
      { s with
        buffer := setHead s.buffer
          ((tail + (content pending).length + totalEntries src.length) % n)
          (lapFlip n (tail + (content pending).length + totalEntries src.length))
        producerPc := .returning src 0 } := by
  have hlen : (content (pending ++ [src])).length =
      (content pending).length + totalEntries src.length := by
    rw [content_append, content_singleton, List.length_append, blocks_length]
  have hpub := h.published_eq
  rw [State.published, hstored, List.append_nil] at hpub
  refine { h with
    published_eq := ?_
    sized := ?_
    room := by rwa [hlen]
    buffer_eq := ?_
    filled := ?_
    producerAt := trivial
    consumerAt := h.consumerAt.append [src] }
  · change s.enqueued ++ [src] = s.passed ++ (pending ++ [src])
    rw [hpub, List.append_assoc]
  · intro msg hmsg
    obtain hmsg | hmsg := List.mem_append.mp hmsg
    · exact h.sized msg hmsg
    · rw [List.mem_singleton.mp hmsg]
      exact hsrc
  · rw [hlen, h.buffer_eq, ← Nat.add_assoc, setHead]
  · rw [content_append, content_singleton]
    exact filled_append.mpr ⟨h.filled, hfilled⟩

/-- The call returns. -/
theorem InvAt.returned (h : InvAt n tail pending s) {src : List UInt8} {ret : Int}
    (hpc : s.producerPc = .returning src ret) :
    InvAt n tail pending
      { s with
        producerPc := .idle
        enqueueRet := ret
        enqueued := if ret = 0 then s.enqueued ++ [src] else s.enqueued } := by
  refine { h with published_eq := ?_, producerAt := trivial }
  have hpub := h.published_eq
  rw [State.published, hpc, ProducerPc.stored] at hpub
  change _ ++ [] = s.passed ++ pending
  rw [← hpub, List.append_nil]
  split_ifs
  · rfl
  · rw [List.append_nil]

/-- The snapshot shows a full ring. -/
theorem InvAt.keepsWaiting (h : InvAt n tail pending s) {src : List UInt8} {timeoutUs : Int}
    (hpc : s.producerPc = .polling src timeoutUs) (hsrc : Sized n src) (o : Outcome) :
    InvAt n tail pending
      { s with
        producer := (blocking o s.producer timeoutUs).queue
        producerPc :=
          if (blocking o s.producer timeoutUs).ret ≠ 0 then
            .returning src (blocking o s.producer timeoutUs).ret
          else .waiting src (blocking o s.producer timeoutUs).timeoutUs } := by
  refine h.setProducer ?_ ?_ ?_
  · rw [blocking_entriesNr, h.producer_entries]
  · rw [hpc]
    split_ifs with hret
    · exact returning_stored src hret
    · rfl
  · split_ifs
    · trivial
    · exact hsrc

/-- The snapshot shows room for the message. -/
theorem InvAt.startsWriting (h : InvAt n tail pending s) {src : List UInt8} {timeoutUs : Int}
    (hpc : s.producerPc = .polling src timeoutUs) (hsrc : Sized n src)
    (hfree : (content pending).length + totalEntries src.length < n) :
    InvAt n tail pending
      { s with
        producer := unblocking s.producer
        producerPc := .writing src ((tail + (content pending).length) % n)
          (lapFlip n (tail + (content pending).length)) ((tail + (content pending).length) % n) 0 } := by
  have hq := (unblocking_entriesNr s.producer).trans h.producer_entries
  refine h.setProducer hq (by rw [hpc]; rfl) ?_
  exact ⟨hsrc, rfl, rfl, hfree, 0, Nat.zero_le _, rfl, by simp [offsetAt], filled_nil⟩

variable (hn : 0 < n) (hmax : n * entrySize < 2 ^ 31)

include hn hmax

theorem InvAt.getHeadTail_eq (h : InvAt n tail pending s) :
    getHeadTail s.buffer =
      ⟨(tail + (content pending).length) % n, lapFlip n (tail + (content pending).length), tail % n,
        lapFlip n tail⟩ := by
  have hhead := Nat.mod_lt (tail + (content pending).length) hn
  have htail := Nat.mod_lt tail hn
  rw [entrySize] at hmax
  rw [h.buffer_eq, getHeadTail_position (by omega) (by omega)]

theorem InvAt.enqueueBlocks_inv (h : InvAt n tail pending s) {lib : Securec}
    (hlib : lib.CopiesWithinMax) {src : List UInt8} {head i : Nat} {headFlip : Bool} {offset : Int}
    (hpc : s.producerPc = .writing src head headFlip i offset) :
    Inv n (enqueueBlocks lib s src head headFlip i offset) := by
  have hstored : s.producerPc.stored = [] := by
    rw [hpc]
    rfl
  have hat := h.producerAt
  rw [hpc] at hat
  obtain ⟨hsrc, rfl, rfl, hroom, j, hj, rfl, rfl, hfilled⟩ := hat
  have hfits : totalEntries src.length < n := by omega
  by_cases hlast : j < totalEntries src.length
  · rw [enqueueBlocks_write hn hmax hsrc hfits h.producer_entries _ hlast]
    have hentry := writeEntry_stores hmax hsrc hlib
      (s.entries ((tail + (content pending).length + j) % n)) hlast
    exact ⟨tail, pending, h.writeBlock hn hsrc hroom hlast hstored hfilled hentry⟩
  · obtain rfl : j = totalEntries src.length := by omega
    rw [enqueueBlocks_done hn hmax hsrc hfits h.producer_entries]
    rw [List.take_of_length_le (blocks_length src).le] at hfilled
    exact ⟨tail, pending ++ [src], h.publish hsrc hroom hstored hfilled⟩

theorem InvAt.produce_inv (h : InvAt n tail pending s) {lib : Securec} (hlib : lib.CopiesWithinMax)
    {o : Outcome} {s' : State} (hstep : produce lib o s = some s') : Inv n s' := by
  have hat := h.producerAt
  rw [produce] at hstep
  cases hpc : s.producerPc with
  | idle =>
      rw [hpc] at hstep
      cases hstep
  | waiting src timeoutUs =>
      rw [hpc] at hstep hat
      obtain rfl := Option.some.inj hstep
      refine ⟨tail, pending, h.setProducer h.producer_entries ?_ ?_⟩
      · rw [hpc]
        split_ifs
        · exact returning_stored src (by decide)
        · rfl
      · split_ifs
        · trivial
        · exact hat
  | polling src timeoutUs =>
      rw [hpc] at hstep hat
      have hsrc : Sized n src := hat
      simp only [h.getHeadTail_eq hn hmax, h.producer_entries] at hstep
      split at hstep
      next hfull =>
        obtain rfl := Option.some.inj hstep
        exact ⟨tail, pending, h.keepsWaiting hpc hsrc o⟩
      next hfree =>
        obtain rfl := Option.some.inj hstep
        rw [isFull_iff hn hmax h.room hsrc.totalEntries_le, Nat.not_le] at hfree
        exact ⟨tail, pending, h.startsWriting hpc hsrc hfree⟩
  | writing src head headFlip i offset =>
      rw [hpc] at hstep
      obtain rfl := Option.some.inj hstep
      exact h.enqueueBlocks_inv hn hmax hlib hpc
  | returning src ret =>
      rw [hpc] at hstep
      obtain rfl := Option.some.inj hstep
      exact ⟨tail, pending, h.returned hpc⟩

end Producer

/-! ### Steps of the consumer -/

section Consumer

variable {n tail : Nat} {msg : List UInt8} {rest pending : List (List UInt8)} {s : State}

theorem content_cons_length (msg : List UInt8) (rest : List (List UInt8)) :
    (content (msg :: rest)).length = totalEntries msg.length + (content rest).length := by
  rw [content_cons, List.length_append, blocks_length]

/-- The producer does not notice that entries are released. -/
theorem ProducerAt.release {entries : Nat → Entry} {pc : ProducerPc}
    (h : ProducerAt n tail (msg :: rest) entries pc) :
    ProducerAt n (tail + totalEntries msg.length) rest entries pc := by
  cases pc with
  | writing src head headFlip i offset =>
      have hused : tail + (content (msg :: rest)).length =
          tail + totalEntries msg.length + (content rest).length := by
        rw [content_cons_length, Nat.add_assoc]
      obtain ⟨hsrc, hhead, hflip, hroom, hwritten⟩ := h
      rw [content_cons_length] at hroom
      rw [hused] at hhead hflip hwritten
      exact ⟨hsrc, hhead, hflip, by omega, hwritten⟩
  | waiting | polling => exact h
  | idle | returning => trivial

theorem InvAt.stores (h : InvAt n tail (msg :: rest) s) {j : Nat}
    (hj : j < totalEntries msg.length) :
    Stores (s.entries ((tail + j) % n)) (blockAt msg j) := by
  have hfilled := h.filled
  rw [content_cons, filled_append] at hfilled
  exact hfilled.1 j _ (blocks_getElem? hj)

/-- The entries of the first pending message are released by the store of the tail. -/
theorem InvAt.release (h : InvAt n tail (msg :: rest) s) (hstored : s.consumerPc.stored = []) :
    InvAt n (tail + totalEntries msg.length) rest
      { s with
        buffer := setTail s.buffer ((tail + totalEntries msg.length) % n)
          (lapFlip n (tail + totalEntries msg.length))
        consumerPc := .returning msg 0 } := by
  have hroom := h.room
  rw [content_cons_length] at hroom
  have hpub := h.published_eq
  rw [State.passed, hstored, List.append_nil] at hpub
  have hfilled := h.filled
  rw [content_cons, filled_append, blocks_length] at hfilled
  refine { h with
    published_eq := ?_
    sized := fun m hm => h.sized m (List.mem_cons_of_mem msg hm)
    room := by omega
    buffer_eq := ?_
    filled := hfilled.2
    producerAt := h.producerAt.release
    consumerAt := trivial }
  · change s.published = s.delivered ++ [msg] ++ rest
    rw [hpub, List.append_assoc, List.singleton_append]
  · rw [h.buffer_eq, content_cons_length, ← Nat.add_assoc, setTail]

variable (hn : 0 < n) (hmax : n * entrySize < 2 ^ 31)

include hn hmax

theorem InvAt.dequeueBlocks_inv (h : InvAt n tail pending s) {lib : Securec}
    (hlib : lib.CopiesWithinMax) {pos i offset : Nat} {posFlip : Bool} {size remain : Int}
    {dst : List UInt8} (hpc : s.consumerPc = .reading pos posFlip size remain i offset dst) :
    Inv n (dequeueBlocks lib s pos posFlip size remain i offset dst) := by
  have hstored : s.consumerPc.stored = [] := by
    rw [hpc]
    rfl
  have hat := h.consumerAt
  rw [hpc] at hat
  obtain ⟨msg, rest, rfl, rfl, rfl, rfl, rfl, j, hj, rfl, rfl, rfl⟩ := hat
  have hsized := h.sized msg (List.mem_cons_self ..)
  have hroom := h.room
  rw [content_cons_length] at hroom
  have hfits : totalEntries msg.length < n := by omega
  by_cases hlast : j < totalEntries msg.length
  · rw [dequeueBlocks_read hn hmax hsized hfits hlib h.consumer_entries tail hlast (h.stores hlast)]
    refine ⟨tail, msg :: rest, h.setConsumer h.consumer_entries (by rw [hstored]; rfl) ?_⟩
    exact ⟨msg, rest, rfl, rfl, rfl, rfl, rfl, j + 1, hlast, rfl, rfl, rfl⟩
  · obtain rfl : j = totalEntries msg.length := by omega
    rw [dequeueBlocks_done hn hmax hfits h.consumer_entries, partlyRead_totalEntries]
    exact ⟨_, rest, h.release hstored⟩

theorem InvAt.consume_inv (h : InvAt n tail pending s) {lib : Securec} (hlib : lib.CopiesWithinMax)
    {o : Outcome} {s' : State} (hstep : consume lib o s = some s') : Inv n s' := by
  have hat := h.consumerAt
  rw [consume] at hstep
  cases hpc : s.consumerPc with
  | idle =>
      rw [hpc] at hstep
      cases hstep
  | waiting timeoutUs =>
      rw [hpc] at hstep
      obtain rfl := Option.some.inj hstep
      refine ⟨tail, pending, h.setConsumer h.consumer_entries ?_ ?_⟩
      · rw [hpc]
        split_ifs
        · exact returning_stored' [] (by decide)
        · rfl
      · split_ifs <;> trivial
  | polling timeoutUs =>
      rw [hpc] at hstep
      simp only [h.getHeadTail_eq hn hmax] at hstep
      split at hstep
      next hempty =>
        obtain rfl := Option.some.inj hstep
        refine ⟨tail, pending, h.setConsumer ?_ ?_ ?_⟩
        · rw [blocking_entriesNr, h.consumer_entries]
        · rw [hpc]
          split_ifs with hret
          · exact returning_stored' [] hret
          · rfl
        · split_ifs <;> trivial
      next hmore =>
        obtain rfl := Option.some.inj hstep
        have hq := (unblocking_entriesNr s.consumer).trans h.consumer_entries
        refine ⟨tail, pending, h.setConsumer hq (by rw [hpc]; rfl) ⟨rfl, rfl, ?_⟩⟩
        intro hnil
        rw [isEmpty_iff hn h.room, hnil] at hmore
        exact hmore rfl
  | metadata pos posFlip =>
      rw [hpc] at hstep hat
      obtain ⟨rfl, rfl, hne⟩ := hat
      obtain ⟨msg, rest, rfl⟩ := List.exists_cons_of_ne_nil hne
      have hsized := h.sized msg (List.mem_cons_self ..)
      have hentry := h.stores hsized.totalEntries_pos
      have hsize : (s.entries (tail % n)).size = msg.length := hentry.1
      have hremain : (s.entries (tail % n)).remain = totalEntries msg.length - 1 := hentry.2.1
      have hbuf : List.replicate (toU64 (msg.length : Int)) 0 = partlyRead msg 0 := by
        have hle := hsized.2
        rw [toU64_of_lt rfl (by omega), partlyRead_zero]
      obtain rfl := Option.some.inj hstep
      refine ⟨tail, msg :: rest, h.setConsumer h.consumer_entries ?_ ?_⟩
      · rw [hpc]
        split_ifs with hmeta halloc
        · exact returning_stored' [] hmeta
        · exact returning_stored' [] (o.errno_of_failure halloc)
        · rfl
      · split_ifs
        · trivial
        · trivial
        · rw [hsize, hremain, hbuf]
          exact ⟨msg, rest, rfl, rfl, rfl, rfl, rfl, 0, Nat.zero_le _, rfl, by simp [offsetAt], rfl⟩
  | reading pos posFlip size remain i offset dst =>
      rw [hpc] at hstep
      obtain rfl := Option.some.inj hstep
      exact h.dequeueBlocks_inv hn hmax hlib hpc
  | returning dst ret =>
      rw [hpc] at hstep
      obtain rfl := Option.some.inj hstep
      refine ⟨tail, pending, { h with published_eq := ?_, consumerAt := trivial }⟩
      have hpub := h.published_eq
      rw [State.passed, hpc, ConsumerPc.stored] at hpub
      change s.published = (if ret = 0 then s.delivered ++ [dst] else s.delivered) ++ [] ++ pending
      rw [hpub, List.append_nil]
      split_ifs
      · rfl
      · rw [List.append_nil]

end Consumer

/-! ### Runs -/

section Runs

variable {n : Nat} {lib : Securec} {s s' : State} {a : Action}

/-- A step of the consumer leaves the entries, the head and the producer alone. -/
theorem consume_frame {o : Outcome} (hstep : consume lib o s = some s') :
    s'.entries = s.entries ∧ s'.buffer.head = s.buffer.head ∧ s'.producerPc = s.producerPc ∧
      s'.enqueued = s.enqueued := by
  rw [consume] at hstep
  cases hpc : s.consumerPc with
  | idle =>
      rw [hpc] at hstep
      cases hstep
  | reading pos posFlip size remain i offset dst =>
      rw [hpc] at hstep
      obtain rfl := Option.some.inj hstep
      simp only [dequeueBlocks]
      split <;> exact ⟨rfl, rfl, rfl, rfl⟩
  | polling timeoutUs =>
      rw [hpc] at hstep
      dsimp only at hstep
      split at hstep <;> obtain rfl := Option.some.inj hstep <;> exact ⟨rfl, rfl, rfl, rfl⟩
  | waiting | metadata | returning =>
      rw [hpc] at hstep
      obtain rfl := Option.some.inj hstep
      exact ⟨rfl, rfl, rfl, rfl⟩

/-- A step of the producer leaves the tail and the consumer alone. -/
theorem produce_frame {o : Outcome} (hstep : produce lib o s = some s') :
    s'.buffer.tail = s.buffer.tail ∧ s'.consumerPc = s.consumerPc ∧ s'.delivered = s.delivered := by
  rw [produce] at hstep
  cases hpc : s.producerPc with
  | idle =>
      rw [hpc] at hstep
      cases hstep
  | writing src head headFlip i offset =>
      rw [hpc] at hstep
      obtain rfl := Option.some.inj hstep
      simp only [enqueueBlocks]
      split_ifs <;> exact ⟨rfl, rfl, rfl⟩
  | polling src timeoutUs =>
      rw [hpc] at hstep
      dsimp only at hstep
      split at hstep <;> obtain rfl := Option.some.inj hstep <;> exact ⟨rfl, rfl, rfl⟩
  | waiting | returning =>
      rw [hpc] at hstep
      obtain rfl := Option.some.inj hstep
      exact ⟨rfl, rfl, rfl⟩

theorem inv_initial (hn : 0 < n) (entries : Nat → Entry) {producer consumer : BlockingQueue}
    (hproducer : producer.entriesNr = n) (hconsumer : consumer.entriesNr = n) :
    Inv n (initial entries producer consumer) := by
  have hflip : lapFlip n 0 = false := by simp [lapFlip]
  refine ⟨0, [], ?_⟩
  exact
    { producer_entries := hproducer
      consumer_entries := hconsumer
      published_eq := rfl
      sized := by simp
      room := hn
      buffer_eq := by
        rw [content, List.flatMap_nil, List.length_nil, Nat.zero_mod, hflip]
        rfl
      filled := filled_nil
      producerAt := trivial
      consumerAt := trivial }

/-- The delivered messages are the first of those published. -/
theorem Inv.delivered_prefix (h : Inv n s) :
    s.delivered <+: s.enqueued ++ s.producerPc.inProgress := by
  obtain ⟨tail, pending, hat⟩ := h
  have hpassed : s.delivered <+: s.passed := List.prefix_append _ _
  have hpublished : s.passed <+: s.published := by
    rw [hat.published_eq]
    exact List.prefix_append _ _
  have hstored : s.published <+: s.enqueued ++ s.producerPc.inProgress :=
    (List.prefix_append_right_inj s.enqueued).mpr s.producerPc.stored_prefix
  exact (hpassed.trans hpublished).trans hstored

variable (hn : 0 < n) (hmax : n * entrySize < 2 ^ 31)

include hn hmax

theorem InvAt.occupied_iff {tail : Nat} {pending : List (List UInt8)}
    (h : InvAt n tail pending s) (i : Nat) :
    s.Occupied n i ↔ ∃ k < (content pending).length, (tail + k) % n = i := by
  rw [State.Occupied, h.getHeadTail_eq hn hmax]
  exact FlipRing.occupied_iff hn h.room

theorem InvAt.produce_entries {tail : Nat} {pending : List (List UInt8)}
    (h : InvAt n tail pending s) {o : Outcome} (hstep : produce lib o s = some s') {i : Nat}
    (hocc : s.Occupied n i) : s'.entries i = s.entries i := by
  have hat := h.producerAt
  rw [produce] at hstep
  cases hpc : s.producerPc with
  | idle =>
      rw [hpc] at hstep
      cases hstep
  | writing src head headFlip pos offset =>
      rw [hpc] at hstep hat
      obtain rfl := Option.some.inj hstep
      obtain ⟨hsrc, rfl, rfl, hroom, j, hj, rfl, rfl, -⟩ := hat
      have hfits : totalEntries src.length < n := by omega
      by_cases hlast : j < totalEntries src.length
      · rw [enqueueBlocks_write hn hmax hsrc hfits h.producer_entries _ hlast]
        obtain ⟨k, hk, rfl⟩ := (h.occupied_iff hn hmax i).mp hocc
        apply Function.update_of_ne
        intro heq
        rw [Nat.add_assoc] at heq
        have hkj := add_mod_inj hn (by omega) (by omega) heq
        omega
      · obtain rfl : j = totalEntries src.length := by omega
        rw [enqueueBlocks_done hn hmax hsrc hfits h.producer_entries]
  | polling src timeoutUs =>
      rw [hpc] at hstep
      dsimp only at hstep
      split at hstep <;> obtain rfl := Option.some.inj hstep <;> rfl
  | waiting | returning =>
      rw [hpc] at hstep
      obtain rfl := Option.some.inj hstep
      rfl

/-- No step changes an entry between the tail and the head. -/
theorem Inv.step_entries (h : Inv n s) (hstep : step lib s a = some s') {i : Nat}
    (hocc : s.Occupied n i) : s'.entries i = s.entries i := by
  obtain ⟨tail, pending, hat⟩ := h
  cases a with
  | enqueue src timeoutUs lockRet lockErrno =>
      rw [step] at hstep
      split_ifs at hstep
      obtain rfl := Option.some.inj hstep
      rfl
  | dequeue timeoutUs lockRet lockErrno =>
      rw [step] at hstep
      split_ifs at hstep
      obtain rfl := Option.some.inj hstep
      rfl
  | produce o => exact hat.produce_entries hn hmax hstep hocc
  | consume o => rw [(consume_frame hstep).1]
  | interruptProducer | interruptConsumer =>
      obtain rfl := Option.some.inj hstep
      rfl

theorem Inv.step_inv (hlib : lib.CopiesWithinMax) (h : Inv n s) (hcall : SizedCall n s a)
    (hstep : step lib s a = some s') : Inv n s' := by
  obtain ⟨tail, pending, hat⟩ := h
  cases a with
  | enqueue src timeoutUs lockRet lockErrno =>
      rw [step] at hstep
      split_ifs at hstep with hidle
      obtain rfl := Option.some.inj hstep
      refine ⟨tail, pending, hat.setProducer hat.producer_entries ?_ ?_⟩
      · rw [enqueueStart_stored, hidle]
        rfl
      · exact enqueueStart_at s.producer hcall timeoutUs lockRet lockErrno
  | dequeue timeoutUs lockRet lockErrno =>
      rw [step] at hstep
      split_ifs at hstep with hidle
      obtain rfl := Option.some.inj hstep
      refine ⟨tail, pending, hat.setConsumer hat.consumer_entries ?_ ?_⟩
      · rw [dequeueStart_stored, hidle]
        rfl
      · exact dequeueStart_at s.consumer timeoutUs lockRet lockErrno
  | produce o => exact hat.produce_inv hn hmax hlib hstep
  | consume o => exact hat.consume_inv hn hmax hlib hstep
  | interruptProducer =>
      obtain rfl := Option.some.inj hstep
      exact ⟨tail, pending, { hat with }⟩
  | interruptConsumer =>
      obtain rfl := Option.some.inj hstep
      exact ⟨tail, pending, { hat with }⟩

/-- In every run the delivered buffers are the first of those enqueued, the one in progress included,
and the next step changes no entry between the tail and the head. -/
theorem run_fifo (hlib : lib.CopiesWithinMax) (entries : Nat → Entry)
    {producer consumer : BlockingQueue} (hproducer : producer.entriesNr = n)
    (hconsumer : consumer.entriesNr = n) {is : List Action}
    (hcalls : Machine.Along (step lib) (SizedCall n) (initial entries producer consumer) is)
    (hrun : Machine.exec (step lib) (initial entries producer consumer) is = some s) :
    (s.delivered <+: s.enqueued ++ s.producerPc.inProgress ∧ s.producerPc.inProgress.length ≤ 1) ∧
      ∀ a s', step lib s a = some s' → ∀ i, s.Occupied n i → s'.entries i = s.entries i := by
  have hinv : Inv n s := by
    refine Machine.exec_invariant_along (Inv n) ?_ ?_ hcalls hrun
    · intro t a t' ht hcall hstep
      exact ht.step_inv hn hmax hlib hcall hstep
    · exact inv_initial hn entries hproducer hconsumer
  refine ⟨⟨hinv.delivered_prefix, s.producerPc.inProgress_length⟩, ?_⟩
  intro a s' hstep i hocc
  exact hinv.step_entries hn hmax hstep hocc

end Runs

/-! ### Two messages through a ring of three entries -/

def endpoint (isProducer : Bool) : BlockingQueue :=
  { isProducer, concurrent := true, entriesNr := 3 }

def twoMessages : List (List UInt8) := [List.replicate 513 7, List.replicate 513 9]

/-- Each message takes two entries, so the second one crosses the end of the ring. The consumer finds
the ring empty once before the first message. -/
def passMessages : List Action :=
  [.dequeue 300 0 0, .consume {}, .consume {}] ++
    twoMessages.flatMap fun msg =>
      .enqueue msg (-1) 0 0 :: List.replicate 6 (.produce {}) ++ List.replicate 7 (.consume {}) ++
        [.dequeue 300 0 0]

theorem passMessages_fifo :
    ∃ s, Machine.exec (step .reference)
        (initial (fun _ => ⟨0, 0, []⟩) (endpoint true) (endpoint false)) passMessages = some s ∧
      s.delivered = twoMessages ∧
      (s.delivered <+: s.enqueued ++ s.producerPc.inProgress ∧
        s.producerPc.inProgress.length ≤ 1) ∧
      ∀ a s', step .reference s a = some s' → ∀ i, s.Occupied 3 i → s'.entries i = s.entries i := by
  have hrun : (Machine.exec (step .reference)
      (initial (fun _ => ⟨0, 0, []⟩) (endpoint true) (endpoint false)) passMessages).map
        (·.delivered) = some twoMessages := by
    decide +kernel
  obtain ⟨s, hs, hdelivered⟩ := Option.map_eq_some_iff.mp hrun
  have hfifo := run_fifo (n := 3) (by decide) (by decide) Securec.reference_copiesWithinMax
    (fun _ => ⟨0, 0, []⟩) rfl rfl (by decide +kernel) hs
  exact ⟨s, hs, hdelivered, hfifo⟩

end ITrustee.Xtasklet
