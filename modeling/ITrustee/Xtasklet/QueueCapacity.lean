import Mathlib
import ITrustee.Xtasklet.BoundedWaiting

/-!
# The largest message

An enqueue on an empty ring. The size check of `BlockingEnqueue` admits a buffer that takes every entry
of the ring, but `WaitFull` keeps one entry free: after a message of all entries the head would be where
the tail is, a lap ahead, and the test takes that for full. A smaller buffer goes through without
waiting and comes back unchanged.
-/

namespace ITrustee.Xtasklet

open CInt FlipRing

/-- Both endpoints are idle, and the ring is empty with head and tail at `pos`. -/
structure EmptyAt (n pos : Nat) (flip : Bool) (s : State) : Prop where
  buffer_eq : s.buffer = ⟨position pos flip, position pos flip⟩
  producerIdle : s.producerPc = .idle
  consumerIdle : s.consumerPc = .idle
  isProducer : s.producer.isProducer = true
  isConsumer : s.consumer.isProducer = false
  producerRunning : s.producer.interrupt = false
  consumerRunning : s.consumer.interrupt = false
  producer_entries : s.producer.entriesNr = n
  consumer_entries : s.consumer.entriesNr = n
  delivered_eq : s.enqueued = s.delivered

theorem errno_of_success (h : (0 : Int) ≠ 0) : (0 : Int) ≠ 0 := h

/-- The steps of an enqueue that does not wait: the load of the flag, the snapshot, the entries, the
store of the head and the return. -/
def enqueueSteps (src : List UInt8) (timeoutUs : Int) : List Action :=
  .enqueue src timeoutUs 0 0 ::
    List.replicate (totalEntries src.length + 4) (.produce { errno_of_failure := errno_of_success })

def dequeueSteps (src : List UInt8) (timeoutUs : Int) : List Action :=
  .dequeue timeoutUs 0 0 ::
    List.replicate (totalEntries src.length + 5) (.consume { errno_of_failure := errno_of_success })

/-- The buffer is enqueued without waiting, fills its entries, and is what the next dequeue returns. -/
def Passes (lib : Securec) (n pos : Nat) (s : State) (src : List UInt8) : Prop :=
  ∀ timeoutUs timeoutUs', ∃ t u,
    Machine.exec (step lib) s (enqueueSteps src timeoutUs) = some t ∧
      t.producerPc = .idle ∧ t.enqueued = s.enqueued ++ [src] ∧
      (∀ j < totalEntries src.length, Stores (t.entries ((pos + j) % n)) (blockAt src j)) ∧
      Machine.exec (step lib) t (dequeueSteps src timeoutUs') = some u ∧
      u.consumerPc = .idle ∧ u.delivered = s.delivered ++ [src]

section Steps

variable {n pos tail : Nat} {flip : Bool} {lib : Securec} {s : State} {src : List UInt8}
  {timeoutUs : Int}

/-! ### A queue that is empty -/

/-- The counter of an empty ring. -/
def counterOf (n pos : Nat) (flip : Bool) : Nat := if flip then pos + n else pos

theorem counterOf_mod (hpos : pos < n) : counterOf n pos flip % n = pos := by
  rw [counterOf]
  split_ifs
  · rw [Nat.add_mod_right, Nat.mod_eq_of_lt hpos]
  · exact Nat.mod_eq_of_lt hpos

theorem counterOf_flip (hpos : pos < n) : lapFlip n (counterOf n pos flip) = flip := by
  have hn : 0 < n := Nat.zero_lt_of_lt hpos
  cases flip with
  | false =>
      rw [counterOf, if_neg (by decide), lapFlip, Nat.div_eq_of_lt hpos]
      rfl
  | true =>
      rw [counterOf, if_pos rfl, lapFlip, Nat.add_div_right _ hn, Nat.div_eq_of_lt hpos]
      rfl

theorem EmptyAt.invAt (h : EmptyAt n pos flip s) (hpos : pos < n) :
    InvAt n (counterOf n pos flip) [] s := by
  refine
    { producer_entries := h.producer_entries
      consumer_entries := h.consumer_entries
      published_eq := ?_
      sized := by simp
      room := Nat.zero_lt_of_lt hpos
      buffer_eq := ?_
      filled := filled_nil
      producerAt := ?_
      consumerAt := ?_ }
  · rw [State.published, State.passed, h.producerIdle, h.consumerIdle, h.delivered_eq]
    exact (List.append_nil _).symm
  · rw [content, List.flatMap_nil, List.length_nil, Nat.add_zero, counterOf_mod hpos,
      counterOf_flip hpos]
    exact h.buffer_eq
  · rw [h.producerIdle]
    trivial
  · rw [h.consumerIdle]
    trivial

/-- Which calls reach their loops. -/
theorem enqueueStart_sized (hmax : n * entrySize < 2 ^ 31) (hproducer : s.producer.isProducer = true)
    (hentries : s.producer.entriesNr = n) (hsrc : Sized n src) (timeoutUs : Int) :
    enqueueStart s.producer src timeoutUs 0 0 = .waiting src timeoutUs := by
  have hlock : lockQueue s.producer 0 0 = 0 := if_neg fun h => h.2 rfl
  have hle := hsrc.2
  have htotal := hsrc.totalEntries_le
  rw [enqueueStart, hproducer, hentries, hlock, u32_of_lt (by omega)]
  simp [Nat.not_lt.mpr hle, Nat.not_lt.mpr htotal]

theorem dequeueStart_consumer (hconsumer : s.consumer.isProducer = false) (timeoutUs : Int) :
    dequeueStart s.consumer timeoutUs 0 0 = .waiting timeoutUs := by
  have hlock : lockQueue s.consumer 0 0 = 0 := if_neg fun h => h.2 rfl
  rw [dequeueStart, hconsumer, hlock]
  simp

/-! ### The two loops -/

section Loops

variable {pending : List (List UInt8)} (hn : 0 < n) (hmax : n * entrySize < 2 ^ 31)
  (hlib : lib.CopiesWithinMax)

include hn hmax hlib

/-- The remaining turns of `EnqueueBlocks` publish the message. -/
theorem InvAt.writes (h : InvAt n tail pending s) (hsrc : Sized n src)
    (hroom : (content pending).length + totalEntries src.length < n) (k j : Nat)
    (hj : j + k = totalEntries src.length)
    (hpc : s.producerPc = .writing src ((tail + (content pending).length) % n)
      (lapFlip n (tail + (content pending).length))
      ((tail + (content pending).length + j) % n) (offsetAt src.length j))
    (hfilled : Filled Stores n s.entries (tail + (content pending).length)
      ((blocks src).take j)) :
    ∃ b e, Machine.exec (step lib) s (List.replicate (k + 1) (.produce {})) =
        some { s with buffer := b, entries := e, producerPc := .returning src 0 } ∧
      InvAt n tail (pending ++ [src])
        { s with buffer := b, entries := e, producerPc := .returning src 0 } := by
  have hfits : totalEntries src.length < n := by omega
  have hstored : s.producerPc.stored = [] := by
    rw [hpc]
    rfl
  induction k generalizing j s with
  | zero =>
      rw [Nat.add_zero] at hj
      have hdone : enqueueBlocks lib s src _ _ _ _ = _ :=
        enqueueBlocks_done hn hmax hsrc hfits h.producer_entries
          (tail + (content pending).length) (offsetAt src.length j)
      rw [hj, List.take_of_length_le (blocks_length src).le] at hfilled
      refine ⟨_, _, ?_, h.publish hsrc hroom hstored hfilled⟩
      rw [List.replicate_one, Machine.exec_cons, step, produce, hpc]
      dsimp only
      rw [hj] at hdone ⊢
      rw [hdone]
      rfl
  | succ k ih =>
      have hlt : j < totalEntries src.length := by omega
      have hwrite : enqueueBlocks lib s src _ _ _ _ = _ :=
        enqueueBlocks_write hn hmax hsrc hfits h.producer_entries
          (tail + (content pending).length) hlt
      have hentry := writeEntry_stores hmax hsrc hlib
        (s.entries ((tail + (content pending).length + j) % n)) hlt
      have hnext := h.writeBlock hn hsrc hroom hlt hstored hfilled hentry
      have hlen : ((blocks src).take j).length = j := by
        rw [List.length_take, blocks_length]
        omega
      have hsnoc := hfilled.snoc hn (by omega) hentry
      rw [hlen, ← blocks_take_succ hlt] at hsnoc
      obtain ⟨b, e, hexec, hinv⟩ := ih hnext (j + 1) (by omega) rfl hsnoc rfl
      refine ⟨b, e, ?_, hinv⟩
      rw [List.replicate_succ, Machine.exec_cons, step, produce, hpc]
      dsimp only
      rw [hwrite, Option.bind_some]
      exact hexec

/-- The remaining turns of `DequeueBlocks` return the message. -/
theorem InvAt.reads (h : InvAt n tail (src :: pending) s) (k j : Nat)
    (hj : j + k = totalEntries src.length)
    (hpc : s.consumerPc = .reading (tail % n) (lapFlip n tail) src.length
      (totalEntries src.length - 1) ((tail + j) % n) (offsetAt src.length j) (partlyRead src j)) :
    ∃ b, Machine.exec (step lib) s (List.replicate (k + 1) (.consume {})) =
      some { s with buffer := b, consumerPc := .returning src 0 } := by
  have hsrc : Sized n src := h.sized src List.mem_cons_self
  have hroom := h.room
  rw [content_cons_length] at hroom
  have hfits : totalEntries src.length < n := by omega
  have hstored : s.consumerPc.stored = [] := by
    rw [hpc]
    rfl
  induction k generalizing j s with
  | zero =>
      rw [Nat.add_zero] at hj
      have hdone : dequeueBlocks lib s _ _ _ _ _ _ _ = _ :=
        dequeueBlocks_done hn hmax hfits h.consumer_entries tail
          (offsetAt src.length j) (partlyRead src j)
      refine ⟨setTail s.buffer ((tail + totalEntries src.length) % n)
        (lapFlip n (tail + totalEntries src.length)), ?_⟩
      rw [List.replicate_one, Machine.exec_cons, step, consume, hpc]
      dsimp only
      rw [hj] at hdone ⊢
      rw [hdone, partlyRead_totalEntries]
      rfl
  | succ k ih =>
      have hlt : j < totalEntries src.length := by omega
      have hread := dequeueBlocks_read hn hmax hsrc hfits hlib h.consumer_entries tail hlt
        (h.stores hlt)
      have hnext : InvAt n tail (src :: pending) { s with
          consumerPc := .reading (tail % n) (lapFlip n tail) src.length
            (totalEntries src.length - 1) ((tail + (j + 1)) % n) (offsetAt src.length (j + 1))
            (partlyRead src (j + 1)) } :=
        h.setConsumer h.consumer_entries hstored.symm
          ⟨src, pending, rfl, rfl, rfl, rfl, rfl, j + 1, hlt, rfl, rfl, rfl⟩
      obtain ⟨b, hexec⟩ := ih hnext (j + 1) (by omega) rfl rfl
      refine ⟨b, ?_⟩
      rw [List.replicate_succ, Machine.exec_cons, step, consume, hpc]
      dsimp only
      rw [hread, Option.bind_some]
      exact hexec

/-! ### A message that leaves an entry free -/

omit hn hlib in
theorem getMetadata_stored {e : Entry} (hsrc : Sized n src) (hfits : totalEntries src.length < n)
    (he : Stores e (blockAt src 0)) : getMetadata e = 0 := by
  have hpos := hsrc.totalEntries_pos
  have hle := lt_totalEntries src.length (totalEntries src.length)
  have hsize : e.size = src.length := he.1
  have hremain : e.remain = totalEntries src.length - 1 := he.2.1
  have hroom : ((totalEntries src.length : Int) - 1 + 1) * (entrySize : Nat) =
      (totalEntries src.length * entrySize : Nat) := by
    rw [sub_add_cancel, Nat.cast_mul]
  have hbound : totalEntries src.length * entrySize < 2 ^ 31 :=
    (Nat.mul_le_mul_right entrySize hfits.le).trans_lt hmax
  rw [getMetadata, hsize, hremain, hroom, i32_of_range (by omega) (by omega), invalidMetaValue,
    if_neg (by omega), if_neg (by omega)]

/-- The enqueue publishes the message without waiting. -/
theorem EmptyAt.enqueues (h : EmptyAt n pos flip s) (hpos : pos < n) (hsrc : Sized n src)
    (hfits : totalEntries src.length < n) (timeoutUs : Int) :
    ∃ t, Machine.exec (step lib) s (enqueueSteps src timeoutUs) = some t ∧
      InvAt n (counterOf n pos flip) [src] t ∧ t.producerPc = .idle ∧
      t.consumerPc = .idle ∧ t.enqueued = s.enqueued ++ [src] ∧ t.delivered = s.delivered ∧
      t.consumer = s.consumer := by
  have hinv := h.invAt hpos
  have hsnap := hinv.getHeadTail_eq hn hmax
  have hsplit : enqueueSteps src timeoutUs = .enqueue src timeoutUs 0 0 :: .produce {} ::
      .produce {} :: (List.replicate (totalEntries src.length + 1) (.produce {}) ++
        [.produce {}]) := by
    rw [enqueueSteps, List.replicate_succ, List.replicate_succ, List.replicate_succ']
  have hstart := enqueueStart_sized hmax h.isProducer h.producer_entries hsrc timeoutUs
  have hfree : isFull n (totalEntries src.length) (getHeadTail s.buffer) ≠ true := by
    rw [hsnap, Ne, isFull_iff hn hmax hinv.room hsrc.totalEntries_le, Nat.not_le]
    change 0 + totalEntries src.length < n
    omega
  have hwait : produce lib {} _ = _ :=
    produce_waiting (s := { s with producerPc := .waiting src timeoutUs }) rfl h.producerRunning {}
  have hpoll : produce lib {} { s with producerPc := .polling src timeoutUs } = some { s with
      producer := unblocking s.producer
      producerPc := .writing src (counterOf n pos flip % n) (lapFlip n (counterOf n pos flip))
        (counterOf n pos flip % n) 0 } := by
    rw [produce]
    dsimp only
    rw [h.producer_entries, if_neg hfree, hsnap]
    rfl
  have hwriting : InvAt n (counterOf n pos flip) [] { s with
      producer := unblocking s.producer
      producerPc := .writing src (counterOf n pos flip % n) (lapFlip n (counterOf n pos flip))
        (counterOf n pos flip % n) 0 } := by
    refine hinv.setProducer ((unblocking_entriesNr _).trans h.producer_entries)
      (by rw [h.producerIdle]; rfl) ⟨hsrc, rfl, rfl, ?_, 0, Nat.zero_le _, rfl, by simp [offsetAt],
        filled_nil⟩
    change 0 + totalEntries src.length < n
    omega
  obtain ⟨b, e, hexec, hpublished⟩ := hwriting.writes hn hmax hlib hsrc
    (by change 0 + totalEntries src.length < n; omega) (totalEntries src.length) 0 (Nat.zero_add _)
    (by simp [offsetAt, content]) filled_nil
  refine ⟨_, ?_, hpublished.returned rfl, rfl, h.consumerIdle, rfl, rfl, rfl⟩
  rw [hsplit, Machine.exec_cons, step, if_pos h.producerIdle, Option.bind_some, hstart,
    Machine.exec_cons, step, hwait, Option.bind_some, Machine.exec_cons, step, hpoll,
    Option.bind_some, Machine.exec_append, hexec, Option.bind_some]
  rfl

/-- The dequeue returns the message. -/
theorem InvAt.dequeues (h : InvAt n tail [src] s) (hidle : s.consumerPc = .idle)
    (hconsumer : s.consumer.isProducer = false) (hrunning : s.consumer.interrupt = false)
    (timeoutUs : Int) :
    ∃ u, Machine.exec (step lib) s (dequeueSteps src timeoutUs) = some u ∧ u.consumerPc = .idle ∧
      u.delivered = s.delivered ++ [src] := by
  have hsrc : Sized n src := h.sized src List.mem_cons_self
  have hroom := h.room
  rw [content_singleton, blocks_length] at hroom
  have hsnap := h.getHeadTail_eq hn hmax
  have hsplit : dequeueSteps src timeoutUs = .dequeue timeoutUs 0 0 :: .consume {} ::
      .consume {} :: .consume {} :: (List.replicate (totalEntries src.length + 1) (.consume {}) ++
        [.consume {}]) := by
    rw [dequeueSteps, List.replicate_succ, List.replicate_succ, List.replicate_succ,
      List.replicate_succ']
  have hstart := dequeueStart_consumer hconsumer timeoutUs
  have hmore : isEmpty (getHeadTail s.buffer) ≠ true := by
    rw [hsnap, Ne, isEmpty_iff hn h.room, content_singleton, blocks_length]
    exact hsrc.totalEntries_pos.ne'
  have hwait : consume lib {} _ = _ :=
    consume_waiting (s := { s with consumerPc := .waiting timeoutUs }) rfl hrunning {}
  have hpoll : consume lib {} { s with consumerPc := .polling timeoutUs } = some { s with
      consumer := unblocking s.consumer
      consumerPc := .metadata (tail % n) (lapFlip n tail) } := by
    rw [consume]
    dsimp only
    rw [if_neg hmore, hsnap]
  have hentry : Stores (s.entries (tail % n)) (blockAt src 0) := h.stores hsrc.totalEntries_pos
  have hmeta : consume lib {} { s with
      consumer := unblocking s.consumer
      consumerPc := .metadata (tail % n) (lapFlip n tail) } = some { s with
      consumer := unblocking s.consumer
      consumerPc := .reading (tail % n) (lapFlip n tail) src.length (totalEntries src.length - 1)
        (tail % n) 0 (partlyRead src 0) } := by
    have hle := hsrc.2
    have hsize : (s.entries (tail % n)).size = src.length := hentry.1
    have hremain : (s.entries (tail % n)).remain = totalEntries src.length - 1 := hentry.2.1
    rw [consume]
    dsimp only
    rw [getMetadata_stored hmax hsrc hroom hentry, if_neg (not_not.mpr rfl),
      if_neg (not_not.mpr rfl), hsize, hremain, toU64_of_lt rfl (by omega), partlyRead_zero]
  have hreading : InvAt n tail [src] { s with
      consumer := unblocking s.consumer
      consumerPc := .reading (tail % n) (lapFlip n tail) src.length (totalEntries src.length - 1)
        (tail % n) 0 (partlyRead src 0) } :=
    h.setConsumer ((unblocking_entriesNr _).trans h.consumer_entries) (by rw [hidle]; rfl)
      ⟨src, [], rfl, rfl, rfl, rfl, rfl, 0, Nat.zero_le _, rfl, by simp [offsetAt], rfl⟩
  obtain ⟨b, hexec⟩ := hreading.reads hn hmax hlib (totalEntries src.length) 0 (Nat.zero_add _)
    (by simp [offsetAt])
  refine ⟨{ s with
    buffer := b
    consumer := unblocking s.consumer
    consumerPc := .idle
    dequeueRet := 0
    delivered := s.delivered ++ [src] }, ?_, rfl, rfl⟩
  rw [hsplit, Machine.exec_cons, step, if_pos hidle, Option.bind_some, hstart, Machine.exec_cons,
    step, hwait, Option.bind_some, Machine.exec_cons, step, hpoll,
    Option.bind_some, Machine.exec_cons, step, hmeta, Option.bind_some, Machine.exec_append, hexec,
    Option.bind_some]
  rfl

theorem EmptyAt.passes (h : EmptyAt n pos flip s) (hpos : pos < n) (hsrc : Sized n src)
    (hfits : totalEntries src.length < n) : Passes lib n pos s src := by
  intro timeoutUs timeoutUs'
  obtain ⟨t, hexec, hinv, hidle, hidle', henqueued, hdelivered, hconsumer⟩ :=
    h.enqueues hn hmax hlib hpos hsrc hfits timeoutUs
  obtain ⟨u, hexec', hreturned, hdelivered'⟩ := hinv.dequeues hn hmax hlib hidle'
    (by rw [hconsumer]; exact h.isConsumer) (by rw [hconsumer]; exact h.consumerRunning) timeoutUs'
  refine ⟨t, u, hexec, hidle, henqueued, fun j hj => ?_, hexec', hreturned, ?_⟩
  · have hstored := hinv.stores hj
    rwa [Nat.add_mod, counterOf_mod hpos, ← Nat.mod_eq_of_lt hpos, ← Nat.add_mod] at hstored
  · rw [hdelivered', hdelivered]

end Loops

/-! ### A message of all entries -/

/-- A call that has stored nothing and will not: the ring is full for its buffer. -/
structure Refused (n : Nat) (src : List UInt8) (s t : State) : Prop where
  buffer_eq : t.buffer = s.buffer
  enqueued_eq : t.enqueued = s.enqueued
  entries_eq : t.producer.entriesNr = n
  pc : match t.producerPc with
    | .waiting src' _ | .polling src' _ => src' = src
    | .writing .. => False
    | .returning _ ret => ret ≠ 0
    | .idle => True

theorem Refused.produce {t t' : State} {o : Outcome} (h : Refused n src s t)
    (hfull : isFull n (totalEntries src.length) (getHeadTail s.buffer) = true)
    (hstep : produce lib o t = some t') : Refused n src s t' := by
  have hat := h.pc
  rw [Xtasklet.produce] at hstep
  cases hpc : t.producerPc with
  | idle =>
      rw [hpc] at hstep
      cases hstep
  | waiting src' timeoutUs =>
      rw [hpc] at hstep hat
      obtain rfl := Option.some.inj hstep
      refine { h with pc := ?_ }
      dsimp only
      split_ifs
      · exact (by decide : interrupted ≠ 0)
      · exact hat
  | polling src' timeoutUs =>
      rw [hpc] at hstep hat
      have hsrc : src' = src := hat
      have hfull' : isFull t.producer.entriesNr (totalEntries src'.length) (getHeadTail t.buffer) =
          true := by
        rw [h.buffer_eq, h.entries_eq, hsrc]
        exact hfull
      dsimp only at hstep
      rw [if_pos hfull'] at hstep
      obtain rfl := Option.some.inj hstep
      refine { h with entries_eq := (blocking_entriesNr _ _ _).trans h.entries_eq, pc := ?_ }
      dsimp only
      split_ifs with hret
      · exact hret
      · exact hsrc
  | writing src' head headFlip i offset =>
      rw [hpc] at hat
      exact hat.elim
  | returning src' ret =>
      rw [hpc] at hstep hat
      obtain rfl := Option.some.inj hstep
      exact { h with enqueued_eq := (if_neg hat).trans h.enqueued_eq, pc := trivial }

theorem Refused.run {t t' : State} (h : Refused n src s t) (k : Nat)
    (hfull : isFull n (totalEntries src.length) (getHeadTail s.buffer) = true)
    (hrun : Machine.exec (step lib) t (List.replicate k (.produce {})) = some t') :
    Refused n src s t' := by
  induction k generalizing t with
  | zero =>
      obtain rfl := Option.some.inj hrun
      exact h
  | succ k ih =>
      rw [List.replicate_succ, Machine.exec_cons] at hrun
      obtain ⟨u, hu, hrest⟩ := Option.bind_eq_some_iff.mp hrun
      exact ih (h.produce hfull hu) hrest

theorem EmptyAt.refuses (h : EmptyAt n pos flip s) (hpos : pos < n) (hmax : n * entrySize < 2 ^ 31)
    (hsrc : Sized n src) (hall : n ≤ totalEntries src.length) : ¬Passes lib n pos s src := by
  intro hpasses
  obtain ⟨t, -, hexec, -, henqueued, -⟩ := hpasses 0 0
  have hn : 0 < n := Nat.zero_lt_of_lt hpos
  have hinv := h.invAt hpos
  have hfull : isFull n (totalEntries src.length) (getHeadTail s.buffer) = true := by
    rw [hinv.getHeadTail_eq hn hmax, isFull_iff hn hmax hinv.room hsrc.totalEntries_le]
    exact hall.trans (Nat.le_add_left _ _)
  rw [enqueueSteps, Machine.exec_cons, step, if_pos h.producerIdle, Option.bind_some,
    enqueueStart_sized hmax h.isProducer h.producer_entries hsrc] at hexec
  have hrefused : Refused n src s { s with producerPc := .waiting src 0 } :=
    ⟨rfl, rfl, h.producer_entries, rfl⟩
  have hsame := (hrefused.run _ hfull hexec).enqueued_eq
  rw [hsame] at henqueued
  exact absurd henqueued.symm (by simp)

end Steps

/-- On an empty ring of `n` entries, anywhere in it, a buffer that the size checks admit is enqueued
without waiting, fills its entries and comes back unchanged exactly when it takes less than `n` entries.
The ring lies in one half of a region whose size is a 32-bit number. -/
theorem enqueue_passes_iff {lib : Securec} (hlib : lib.CopiesWithinMax) (n pos : Nat) (flip : Bool)
    (s : State) (src : List UInt8) (hring : 8 + n * 520 < 2 ^ 31) (hpos : pos < n)
    (hempty : EmptyAt n pos flip s) (hsrc : 1 ≤ src.length ∧ src.length ≤ n * entrySize) :
    Passes lib n pos s src ↔ totalEntries src.length < n := by
  have hmax : n * entrySize < 2 ^ 31 := by
    rw [entrySize]
    omega
  refine ⟨fun hpasses => ?_, fun hfits => ?_⟩
  · by_contra hall
    exact hempty.refuses hpos hmax hsrc (Nat.le_of_not_lt hall) hpasses
  · exact hempty.passes (Nat.zero_lt_of_lt hpos) hmax hlib hpos hsrc hfits

/-- A ring of two entries, and endpoints that have not been used. -/
def freshPair : State where
  entries _ := ⟨0, 0, []⟩
  producer := { isProducer := true, concurrent := false, entriesNr := 2 }
  consumer := { isProducer := false, concurrent := false, entriesNr := 2 }

theorem freshPair_empty : EmptyAt 2 0 false freshPair :=
  ⟨rfl, rfl, rfl, rfl, rfl, rfl, rfl, rfl, rfl, rfl⟩

/-- Of 512 and of 513 bytes, only the first goes through a ring of two entries. -/
theorem freshPair_passes :
    Passes .reference 2 0 freshPair (List.replicate 512 7) ∧
      ¬Passes .reference 2 0 freshPair (List.replicate 513 7) :=
  ⟨(enqueue_passes_iff Securec.reference_copiesWithinMax 2 0 false freshPair (List.replicate 512 7)
      (by decide) (by decide) freshPair_empty (by decide +kernel)).mpr (by decide +kernel),
    fun h => absurd ((enqueue_passes_iff Securec.reference_copiesWithinMax 2 0 false freshPair
      (List.replicate 513 7) (by decide) (by decide) freshPair_empty (by decide +kernel)).mp h)
        (by decide +kernel)⟩

/-- The largest buffer the size checks admit is never enqueued. -/
theorem largestMessage_waits : ¬Passes .reference 2 0 freshPair (List.replicate 1024 7) :=
  freshPair_empty.refuses (by decide) (by decide) ⟨by decide +kernel, by decide +kernel⟩
    (by decide +kernel)

end ITrustee.Xtasklet
