import Mathlib.Tactic
import ITrustee.Xtasklet.QueueCapacity

/-!
# Metadata from the other side

`BlockingDequeue` on a ring whose entries hold anything. `GetMetadata` compares the size with the number
of entries that `remain` announces, but nothing compares that number with the entries that are occupied.
The copies stay inside the buffer whatever the metadata say: what goes wrong is how far the tail moves.
-/

namespace ITrustee.Xtasklet

open CInt FlipRing

/-! ### What a dequeue may do -/

/-- The consumer is idle, and these are the head and the tail. -/
structure RingAt (n : Nat) (p : HeadTail) (s : State) : Prop where
  buffer_eq : s.buffer = ⟨position p.head p.headFlip, position p.tail p.tailFlip⟩
  head_lt : p.head < n
  tail_lt : p.tail < n
  consumer_entries : s.consumer.entriesNr = n
  idle : s.consumerPc = .idle

/-- The number of entries between the tail and the head. -/
def occupiedCount (n : Nat) (p : HeadTail) : Nat :=
  if p.headFlip = p.tailFlip then p.head - p.tail else min n (n - p.tail + p.head)

/-- How far the tail moves from `p` to `p'`, on two laps that the flip tells apart. -/
def released (n : Nat) (p p' : HeadTail) : Nat :=
  (p'.tail + (if p'.tailFlip = p.tailFlip then 0 else n) + 2 * n - p.tail) % (2 * n)

/-- A copy of `DequeueBlocks`. -/
structure Copy where
  entry : Nat
  offset : Nat
  cnt : Nat

/-- The copy that the next step of the consumer makes. -/
def State.copy (s : State) : Option Copy :=
  match s.consumerPc with
  | .reading tail _ size remain i offset _ =>
      if i ≠ nextPos s.consumer.entriesNr tail (remain + 1) then
        some ⟨i, offset, dequeueCnt size offset⟩
      else none
  | _ => none

/-- Every byte comes from the data area of one of `count` entries from the tail on, and lands inside
the buffer of `size` bytes. -/
def Copy.Contained (n tail count size : Nat) (c : Copy) : Prop :=
  ∀ k < c.cnt, (∃ j < count, c.entry = (tail + j) % n) ∧ k < entrySize ∧ c.offset + k < size

/-- No object has 2^63 bytes or more, so `calloc` fails for a negative size. -/
def CallocBounded (s : State) : Action → Prop
  | .consume o =>
      match s.consumerPc with
      | .metadata tail _ => (s.entries tail).size < 0 → o.ret ≠ 0
      | _ => True
  | _ => True

/-- The steps of a dequeue. -/
def dequeueRun (timeoutUs lockRet lockErrno : Int) (os : List Outcome) : List Action :=
  .dequeue timeoutUs lockRet lockErrno :: os.map .consume

/-- A dequeue that succeeds releases at least one entry and only occupied ones, and copies from these
into its buffer; one that fails leaves the tail where it was. -/
def DequeueContained (lib : Securec) (n : Nat) (p : HeadTail) (s : State) : Prop :=
  ∀ timeoutUs lockRet lockErrno os s',
    Machine.Along (step lib) CallocBounded s (dequeueRun timeoutUs lockRet lockErrno os) →
    Machine.exec (step lib) s (dequeueRun timeoutUs lockRet lockErrno os) = some s' →
    s'.consumerPc = .idle →
      (s'.dequeueRet = 0 →
        1 ≤ released n p (getHeadTail s'.buffer) ∧
        released n p (getHeadTail s'.buffer) ≤ occupiedCount n p ∧
        Machine.Along (step lib)
          (fun t _ => ∀ c, t.copy = some c →
            c.Contained n p.tail (released n p (getHeadTail s'.buffer))
              (toU64 (s.entries p.tail).size))
          s (dequeueRun timeoutUs lockRet lockErrno os)) ∧
      (s'.dequeueRet ≠ 0 → s'.buffer.tail = s.buffer.tail)

/-! ### When it does so -/

/-- The entries that `remain` announces are occupied: the sum of the tail and `remain + 1`, in 32 bits,
is ahead of the tail and not past the head. -/
def RemainFits (n : Nat) (p : HeadTail) (remain : Int) : Prop :=
  let next := toU32 (p.tail + (remain + 1))
  if next < n then p.tail < next ∧ next ≤ p.tail + occupiedCount n p
  else n + next % n ≤ p.tail + occupiedCount n p

instance (n : Nat) (p : HeadTail) (remain : Int) : Decidable (RemainFits n p remain) := by
  unfold RemainFits
  infer_instance

/-- The call ends before the copies, or what `remain` announces fits. -/
def Harmless (n : Nat) (p : HeadTail) (s : State) : Prop :=
  s.consumer.isProducer = true ∨ s.consumer.interrupt = true ∨ isEmpty p = true ∨
    getMetadata (s.entries p.tail) ≠ 0 ∨ (s.entries p.tail).size < 0 ∨
      RemainFits n p (s.entries p.tail).remain

instance (n : Nat) (p : HeadTail) (s : State) : Decidable (Harmless n p s) := by
  unfold Harmless
  infer_instance

section Positions

variable {n : Nat} {p : HeadTail} {remain : Int}

/-- The positions that `DequeueBlocks` stores. -/
def afterRelease (n : Nat) (p : HeadTail) (remain : Int) : HeadTail :=
  { p with
    tail := nextPos n p.tail (remain + 1)
    tailFlip := nextFlip n p.tail (remain + 1) p.tailFlip }

/-- The turns of the loop of `DequeueBlocks`. -/
def turns (n tail : Nat) (remain : Int) : Nat := (nextPos n tail (remain + 1) + n - tail) % n

theorem nextPos_lt (hn : 0 < n) (pos : Nat) (count : Int) : nextPos n pos count < n :=
  Nat.mod_lt _ hn

theorem turns_lt (hn : 0 < n) (tail : Nat) (remain : Int) : turns n tail remain < n :=
  Nat.mod_lt _ hn

theorem add_turns (htail : p.tail < n) (remain : Int) :
    (p.tail + turns n p.tail remain) % n = nextPos n p.tail (remain + 1) := by
  have hnext := nextPos_lt (Nat.zero_lt_of_lt htail) p.tail (remain + 1)
  rw [turns, Nat.add_mod_mod, ← Nat.add_sub_assoc (by omega), Nat.add_sub_cancel_left,
    Nat.add_mod_right, Nat.mod_eq_of_lt hnext]

theorem xor_eq_self_iff (b c : Bool) : (b ^^ c) = c ↔ b = false := by
  cases b <;> cases c <;> decide

/-- How far the tail moves, by the two ways the flip is computed. -/
theorem released_afterRelease (htail : p.tail < n) :
    let next := toU32 (p.tail + (remain + 1))
    released n p (afterRelease n p remain) =
      if next < n then (next + 2 * n - p.tail) % (2 * n) else n + next % n - p.tail := by
  intro next
  have hn : 0 < n := Nat.zero_lt_of_lt htail
  have hmod : next % n < n := Nat.mod_lt _ hn
  have hflip : (afterRelease n p remain).tailFlip = p.tailFlip ↔ next < n := by
    rw [afterRelease, nextFlip, xor_eq_self_iff, decide_eq_false_iff_not, ge_iff_le, not_le]
  have htail' : (afterRelease n p remain).tail = next % n := rfl
  rw [released, htail']
  by_cases hlt : next < n
  · rw [if_pos (hflip.mpr hlt), if_pos hlt, Nat.mod_eq_of_lt hlt, Nat.add_zero]
  · rw [if_neg (fun h => hlt (hflip.mp h)), if_neg hlt]
    have hsplit : next % n + n + 2 * n - p.tail = n + next % n - p.tail + 2 * n := by omega
    rw [hsplit, Nat.add_mod_right, Nat.mod_eq_of_lt (by omega)]

theorem occupiedCount_le (hhead : p.head < n) : occupiedCount n p ≤ n := by
  rw [occupiedCount]
  split_ifs <;> omega

/-- What `remain` announces fits exactly when the tail moves by at least one entry and not past the
head. -/
theorem remainFits_iff (hhead : p.head < n) (htail : p.tail < n) :
    RemainFits n p remain ↔ 1 ≤ released n p (afterRelease n p remain) ∧
      released n p (afterRelease n p remain) ≤ occupiedCount n p := by
  have hocc := occupiedCount_le hhead
  have hn : 0 < n := Nat.zero_lt_of_lt htail
  have hreleased : released n p (afterRelease n p remain) = _ := released_afterRelease htail
  rw [hreleased, RemainFits]
  generalize toU32 (p.tail + (remain + 1)) = next
  split_ifs with hlt
  · by_cases hahead : p.tail ≤ next
    · have hsplit : next + 2 * n - p.tail = next - p.tail + 2 * n := by omega
      rw [hsplit, Nat.add_mod_right, Nat.mod_eq_of_lt (by omega)]
      omega
    · rw [Nat.mod_eq_of_lt (by omega)]
      omega
  · have hmod := Nat.mod_lt next hn
    omega

/-- The entries that the loop visits are released. -/
theorem turns_le_released (htail : p.tail < n) (remain : Int) :
    turns n p.tail remain ≤ released n p (afterRelease n p remain) := by
  have hn : 0 < n := Nat.zero_lt_of_lt htail
  have hmod : turns n p.tail remain = released n p (afterRelease n p remain) % n := by
    rw [released_afterRelease htail, turns, nextPos]
    generalize toU32 (p.tail + (remain + 1)) = next
    split_ifs with hlt
    · rw [Nat.mod_eq_of_lt hlt, Nat.mod_mod_of_dvd _ (Dvd.intro_left 2 rfl)]
      have hsplit : next + 2 * n - p.tail = next + n - p.tail + n := by omega
      rw [hsplit, Nat.add_mod_right]
    · rw [Nat.add_comm n (next % n)]
  rw [hmod]
  exact Nat.mod_le _ _

/-- For a `remain` below the number of entries, it fits when it announces occupied entries. -/
theorem remainFits_of_lt (hhead : p.head < n) (htail : p.tail < n) (hmax : n < 2 ^ 31) {k : Nat}
    (hk : k < n) : RemainFits n p k ↔ k + 1 ≤ occupiedCount n p := by
  have hocc := occupiedCount_le hhead
  have hnext : toU32 (p.tail + ((k : Int) + 1)) = p.tail + (k + 1) :=
    toU32_of_lt (by omega) (by omega)
  rw [RemainFits, hnext]
  split_ifs with hlt
  · omega
  · have hmod : (p.tail + (k + 1)) % n = p.tail + (k + 1) - n := by
      rw [Nat.mod_eq_sub_mod (Nat.le_of_not_lt hlt), Nat.mod_eq_of_lt (by omega)]
    rw [hmod]
    omega

end Positions

/-! ### The call -/

/-- The metadata at the tail are taken. -/
structure Accepted (p : HeadTail) (s : State) : Prop where
  isConsumer : s.consumer.isProducer = false
  running : s.consumer.interrupt = false
  more : isEmpty p ≠ true
  metadata : getMetadata (s.entries p.tail) = 0
  size_nonneg : 0 ≤ (s.entries p.tail).size

/-- A state of the call that began in `s`. -/
structure CallAt (n : Nat) (p : HeadTail) (s t : State) : Prop where
  entries_eq : t.entries = s.entries
  consumer_entries : t.consumer.entriesNr = n
  interrupt_eq : t.consumer.interrupt = s.consumer.interrupt
  pc : match t.consumerPc with
    | .waiting _ => t.buffer = s.buffer ∧ s.consumer.isProducer = false
    | .polling _ =>
        t.buffer = s.buffer ∧ s.consumer.isProducer = false ∧ s.consumer.interrupt = false
    | .metadata tail tailFlip =>
        t.buffer = s.buffer ∧ s.consumer.isProducer = false ∧ s.consumer.interrupt = false ∧
          isEmpty p ≠ true ∧ tail = p.tail ∧ tailFlip = p.tailFlip
    | .reading tail tailFlip size remain i offset _ =>
        t.buffer = s.buffer ∧ Accepted p s ∧ tail = p.tail ∧ tailFlip = p.tailFlip ∧
          size = (s.entries p.tail).size ∧ remain = (s.entries p.tail).remain ∧
          ∃ j ≤ turns n p.tail remain, i = (p.tail + j) % n ∧ offset = min (j * entrySize) size.toNat
    | .returning _ ret =>
        ret ≠ 0 ∧ t.buffer = s.buffer ∨
          ret = 0 ∧ Accepted p s ∧ t.buffer = setTail s.buffer
            (afterRelease n p (s.entries p.tail).remain).tail
            (afterRelease n p (s.entries p.tail).remain).tailFlip
    | .idle =>
        t.dequeueRet ≠ 0 ∧ t.buffer = s.buffer ∨
          t.dequeueRet = 0 ∧ Accepted p s ∧ t.buffer = setTail s.buffer
            (afterRelease n p (s.entries p.tail).remain).tail
            (afterRelease n p (s.entries p.tail).remain).tailFlip

section Call

variable {n : Nat} {p : HeadTail} {lib : Securec} {s t t' : State}

theorem RingAt.getHeadTail_eq (h : RingAt n p s) (hmax : n < 2 ^ 31) : getHeadTail s.buffer = p := by
  have hhead := h.head_lt
  have htail := h.tail_lt
  rw [h.buffer_eq, getHeadTail_position (by omega) (by omega)]

/-- The bytes of a copy end inside the buffer. -/
theorem dequeueCnt_bounds {size : Int} {offset : Nat} (hsize : 0 ≤ size) (hmax : size < 2 ^ 31)
    (hoffset : offset ≤ size.toNat) :
    dequeueCnt size offset = min entrySize (size.toNat - offset) := by
  have hrest : toU32 (size - offset) = size.toNat - offset := toU32_of_lt (by omega) (by omega)
  rw [dequeueCnt, hrest]
  split_ifs <;> omega

theorem CallAt.consume (h : CallAt n p s t) (hring : RingAt n p s) (hmax : n < 2 ^ 31)
    (hsize : (s.entries p.tail).size < 2 ^ 31) {o : Outcome}
    (hcalloc : CallocBounded t (.consume o)) (hstep : consume lib o t = some t') :
    CallAt n p s t' := by
  have hn : 0 < n := Nat.zero_lt_of_lt hring.tail_lt
  have hat := h.pc
  rw [Xtasklet.consume] at hstep
  cases hpc : t.consumerPc with
  | idle =>
      rw [hpc] at hstep
      cases hstep
  | waiting timeoutUs =>
      rw [hpc] at hstep hat
      obtain rfl := Option.some.inj hstep
      refine { h with pc := ?_ }
      dsimp only
      split_ifs with hinterrupt
      · exact Or.inl ⟨by decide, hat.1⟩
      · refine ⟨hat.1, hat.2, ?_⟩
        rw [← h.interrupt_eq]
        exact Bool.eq_false_iff.mpr hinterrupt
  | polling timeoutUs =>
      rw [hpc] at hstep hat
      obtain ⟨hbuffer, hconsumer, hrunning⟩ := hat
      have hsnap : getHeadTail t.buffer = p := by rw [hbuffer, hring.getHeadTail_eq hmax]
      dsimp only at hstep
      rw [hsnap] at hstep
      split at hstep
      · next hempty =>
          obtain rfl := Option.some.inj hstep
          refine { h with
            consumer_entries := (blocking_entriesNr _ _ _).trans h.consumer_entries
            interrupt_eq := (blocking_interrupt _ _ _).trans h.interrupt_eq
            pc := ?_ }
          dsimp only
          split_ifs with hret
          · exact Or.inl ⟨hret, hbuffer⟩
          · exact ⟨hbuffer, hconsumer⟩
      · next hmore =>
          obtain rfl := Option.some.inj hstep
          exact ⟨h.entries_eq, (unblocking_entriesNr _).trans h.consumer_entries,
            (unblocking_interrupt _).trans h.interrupt_eq,
            ⟨hbuffer, hconsumer, hrunning, hmore, rfl, rfl⟩⟩
  | metadata tail tailFlip =>
      rw [hpc] at hstep hat
      obtain ⟨hbuffer, hconsumer, hrunning, hmore, rfl, rfl⟩ := hat
      rw [CallocBounded, hpc] at hcalloc
      obtain rfl := Option.some.inj hstep
      refine { h with pc := ?_ }
      rw [h.entries_eq] at hcalloc ⊢
      dsimp only
      split_ifs with hmeta halloc
      · exact Or.inl ⟨hmeta, hbuffer⟩
      · exact Or.inl ⟨o.errno_of_failure halloc, hbuffer⟩
      · refine ⟨hbuffer, ⟨hconsumer, hrunning, hmore, not_not.mp hmeta, ?_⟩, rfl, rfl, rfl, rfl, 0,
          Nat.zero_le _, ?_, ?_⟩
        · exact not_lt.mp fun hneg => halloc (hcalloc hneg)
        · exact (Nat.mod_eq_of_lt hring.tail_lt).symm
        · simp
  | reading tail tailFlip size remain i offset dst =>
      rw [hpc] at hstep hat
      obtain ⟨hbuffer, haccepted, rfl, rfl, rfl, rfl, j, hj, rfl, rfl⟩ := hat
      obtain rfl := Option.some.inj hstep
      have hnonneg := haccepted.size_nonneg
      have hgo := loop_runs_iff hn p.tail (turns_lt hn p.tail (s.entries p.tail).remain) hj
      rw [add_turns hring.tail_lt] at hgo
      rw [dequeueBlocks]
      simp only [h.consumer_entries]
      split_ifs with hloop
      · refine { h with pc := ⟨hbuffer, haccepted, rfl, rfl, rfl, rfl, j + 1, hgo.mp hloop, ?_, ?_⟩ }
        · rw [u64_of_lt, succ_mod, Nat.add_assoc]
          have := Nat.mod_lt (p.tail + j) hn
          omega
        · rw [dequeueCnt_bounds hnonneg hsize (Nat.min_le_right _ _), u32_of_lt]
          · rw [Nat.succ_mul]
            omega
          · omega
      · refine { h with pc := Or.inr ⟨rfl, haccepted, ?_⟩ }
        rw [hbuffer]
        rfl
  | returning dst ret =>
      rw [hpc] at hstep hat
      obtain rfl := Option.some.inj hstep
      exact { h with pc := hat }

theorem CallAt.dequeue (hring : RingAt n p s) {timeoutUs lockRet lockErrno : Int}
    (hstep : step lib s (.dequeue timeoutUs lockRet lockErrno) = some t) : CallAt n p s t := by
  rw [step, if_pos hring.idle] at hstep
  obtain rfl := Option.some.inj hstep
  refine ⟨rfl, hring.consumer_entries, rfl, ?_⟩
  rw [dequeueStart]
  dsimp only
  split_ifs with hproducer hlock
  · exact Or.inl ⟨by decide, rfl⟩
  · exact Or.inl ⟨hlock, rfl⟩
  · exact ⟨rfl, Bool.eq_false_iff.mpr hproducer⟩

/-- The next copy reads one of the entries that the call releases. -/
theorem CallAt.contained (h : CallAt n p s t) (hring : RingAt n p s)
    (hsize : (s.entries p.tail).size < 2 ^ 31) {c : Copy} (hc : t.copy = some c) :
    c.Contained n p.tail (released n p (afterRelease n p (s.entries p.tail).remain))
      (toU64 (s.entries p.tail).size) := by
  have hn : 0 < n := Nat.zero_lt_of_lt hring.tail_lt
  have hat := h.pc
  rw [State.copy] at hc
  cases hpc : t.consumerPc with
  | reading tail tailFlip size remain i offset dst =>
      rw [hpc] at hc hat
      obtain ⟨-, haccepted, rfl, rfl, rfl, rfl, j, hj, rfl, rfl⟩ := hat
      dsimp only at hc
      split_ifs at hc with hloop
      obtain rfl := Option.some.inj hc
      have hnonneg := haccepted.size_nonneg
      have hlast := turns_le_released hring.tail_lt (s.entries p.tail).remain
      have hgo := loop_runs_iff hn p.tail (turns_lt hn p.tail (s.entries p.tail).remain) hj
      rw [add_turns hring.tail_lt] at hgo
      rw [h.consumer_entries] at hloop
      have hlt : j < turns n p.tail (s.entries p.tail).remain := hgo.mp hloop
      have hbytes : toU64 (s.entries p.tail).size = (s.entries p.tail).size.toNat :=
        toU64_of_lt (by omega) (by omega)
      have hcnt := dequeueCnt_bounds hnonneg hsize (Nat.min_le_right (j * entrySize) _)
      intro k hk
      dsimp only at hk ⊢
      rw [hcnt] at hk
      rw [hbytes]
      exact ⟨⟨j, by omega, rfl⟩, by omega, by omega⟩
  | idle | waiting | polling | metadata | returning =>
      rw [hpc] at hc
      cases hc

/-! ### Whole calls -/

/-- A step of the consumer inside its call. -/
def Consumes (t : State) (a : Action) : Prop := CallocBounded t a ∧ ∃ o, a = .consume o

theorem along_consumes {os : List Outcome}
    (hC : Machine.Along (step lib) CallocBounded t (os.map .consume)) :
    Machine.Along (step lib) Consumes t (os.map .consume) := by
  induction os generalizing t with
  | nil => trivial
  | cons o os ih =>
      rw [List.map_cons, Machine.along_cons] at hC ⊢
      exact ⟨⟨hC.1, o, rfl⟩, fun t' ht' => ih (hC.2 t' ht')⟩

theorem CallAt.step (h : CallAt n p s t) (hring : RingAt n p s) (hmax : n < 2 ^ 31)
    (hsize : (s.entries p.tail).size < 2 ^ 31) {a : Action} (ha : Consumes t a)
    (hstep : Xtasklet.step lib t a = some t') : CallAt n p s t' := by
  obtain ⟨hcalloc, o, rfl⟩ := ha
  exact h.consume hring hmax hsize hcalloc hstep

/-- What holds when a dequeue returns. -/
theorem CallAt.getHeadTail_eq (h : CallAt n p s t) (hring : RingAt n p s) (hmax : n < 2 ^ 31)
    (hidle : t.consumerPc = .idle) (hret : t.dequeueRet = 0) :
    Accepted p s ∧ getHeadTail t.buffer = afterRelease n p (s.entries p.tail).remain := by
  have hat := h.pc
  rw [hidle] at hat
  obtain ⟨hfailed, -⟩ | ⟨-, haccepted, hbuffer⟩ := hat
  · exact absurd hret hfailed
  · have hhead := hring.head_lt
    have htail : (afterRelease n p (s.entries p.tail).remain).tail < n :=
      nextPos_lt (Nat.zero_lt_of_lt hring.tail_lt) _ _
    refine ⟨haccepted, ?_⟩
    rw [hbuffer, hring.buffer_eq, setTail, getHeadTail_position (by omega) (by omega)]
    rfl

variable (lib) in
/-- The loop of `DequeueBlocks` ends, and the call succeeds. -/
theorem reading_returns {tailFlip : Bool} {size remain : Int} {offset : Nat} {dst : List UInt8}
    (htail : p.tail < n) (hmax : n < 2 ^ 31) (hentries : t.consumer.entriesNr = n) (k j : Nat)
    (hj : j + k = turns n p.tail remain)
    (hpc : t.consumerPc = .reading p.tail tailFlip size remain ((p.tail + j) % n) offset dst) :
    ∃ t', Machine.exec (Xtasklet.step lib) t (List.replicate (k + 2) (.consume {})) = some t' ∧
      t'.consumerPc = .idle ∧ t'.dequeueRet = 0 := by
  have hn : 0 < n := Nat.zero_lt_of_lt htail
  have hgo := loop_runs_iff hn p.tail (turns_lt hn p.tail remain) (by omega : j ≤ _)
  rw [add_turns htail] at hgo
  induction k generalizing j t offset dst with
  | zero =>
      have hdone : ¬(p.tail + j) % n ≠ nextPos n p.tail (remain + 1) := by
        rw [hgo]
        omega
      rw [List.replicate_succ, List.replicate_one, Machine.exec_cons, Xtasklet.step, consume, hpc]
      dsimp only
      rw [dequeueBlocks, hentries]
      dsimp only
      rw [if_neg hdone, Option.bind_some]
      exact ⟨_, rfl, rfl, rfl⟩
  | succ k ih =>
      have hloop : (p.tail + j) % n ≠ nextPos n p.tail (remain + 1) := hgo.mpr (by omega)
      have hnext : u64 ((p.tail + j) % n + 1) % n = (p.tail + (j + 1)) % n := by
        have := Nat.mod_lt (p.tail + j) hn
        rw [u64_of_lt (by omega), succ_mod, Nat.add_assoc]
      rw [List.replicate_succ, Machine.exec_cons, Xtasklet.step, consume, hpc]
      dsimp only
      rw [dequeueBlocks, hentries]
      dsimp only
      rw [if_pos hloop, Option.bind_some, hnext]
      have hgo' := loop_runs_iff hn p.tail (turns_lt hn p.tail remain) (by omega : j + 1 ≤ _)
      rw [add_turns htail] at hgo'
      exact ih hentries (j + 1) (by omega) rfl hgo'

variable (lib) in
/-- A call whose metadata are taken succeeds, when nothing interrupts it. -/
theorem Accepted.dequeues (h : Accepted p s) (hring : RingAt n p s) (hmax : n < 2 ^ 31)
    (timeoutUs : Int) :
    ∃ os t, Machine.exec (step lib) s (dequeueRun timeoutUs 0 0 os) = some t ∧
      t.consumerPc = .idle ∧ t.dequeueRet = 0 := by
  have hstart := dequeueStart_consumer h.isConsumer timeoutUs
  have hwait : consume lib {} _ = _ :=
    consume_waiting (s := { s with consumerPc := .waiting timeoutUs }) rfl h.running {}
  have hsnap := hring.getHeadTail_eq hmax
  have hpoll : consume lib {} { s with consumerPc := .polling timeoutUs } = some { s with
      consumer := unblocking s.consumer
      consumerPc := .metadata p.tail p.tailFlip } := by
    rw [consume]
    dsimp only
    rw [hsnap, if_neg h.more]
  have hmeta : consume lib {} { s with
      consumer := unblocking s.consumer
      consumerPc := .metadata p.tail p.tailFlip } = some { s with
      consumer := unblocking s.consumer
      consumerPc := .reading p.tail p.tailFlip (s.entries p.tail).size (s.entries p.tail).remain
        p.tail 0 (List.replicate (toU64 (s.entries p.tail).size) 0) } := by
    rw [consume]
    dsimp only
    rw [h.metadata, if_neg (not_not.mpr rfl), if_neg (not_not.mpr rfl)]
  have hentries : (unblocking s.consumer).entriesNr = n :=
    (unblocking_entriesNr _).trans hring.consumer_entries
  obtain ⟨t, hexec, hidle, hret⟩ := reading_returns lib (t := { s with
      consumer := unblocking s.consumer
      consumerPc := .reading p.tail p.tailFlip (s.entries p.tail).size (s.entries p.tail).remain
        p.tail 0 (List.replicate (toU64 (s.entries p.tail).size) 0) })
    hring.tail_lt hmax hentries (turns n p.tail (s.entries p.tail).remain) 0 (Nat.zero_add _)
    (by rw [Nat.add_zero, Nat.mod_eq_of_lt hring.tail_lt])
  refine ⟨List.replicate (turns n p.tail (s.entries p.tail).remain + 5) {}, t, ?_, hidle, hret⟩
  rw [dequeueRun, List.map_replicate, List.replicate_succ, List.replicate_succ, List.replicate_succ,
    Machine.exec_cons, step, if_pos hring.idle, Option.bind_some, hstart, Machine.exec_cons, step,
    hwait, Option.bind_some, Machine.exec_cons, step, hpoll, Option.bind_some, Machine.exec_cons,
    step, hmeta, Option.bind_some]
  exact hexec

variable (lib) in
/-- A dequeue calls `calloc` with the size at the tail. -/
theorem along_callocBounded (hring : RingAt n p s) (hmax : n < 2 ^ 31)
    (hsize : (s.entries p.tail).size < 2 ^ 31) (hnonneg : 0 ≤ (s.entries p.tail).size)
    (timeoutUs lockRet lockErrno : Int) (os : List Outcome) :
    Machine.Along (step lib) CallocBounded s (dequeueRun timeoutUs lockRet lockErrno os) := by
  have hbounded : ∀ t o, CallAt n p s t → CallocBounded t (.consume o) := by
    intro t o ht
    have hat := ht.pc
    rw [CallocBounded]
    cases hpc : t.consumerPc with
    | metadata tail tailFlip =>
        rw [hpc] at hat
        obtain ⟨-, -, -, -, rfl, -⟩ := hat
        dsimp only
        rw [ht.entries_eq]
        exact fun hneg => absurd hneg (not_lt.mpr hnonneg)
    | idle | waiting | polling | reading | returning => trivial
  refine ⟨trivial, fun t ht => ?_⟩
  have hcall := CallAt.dequeue hring ht
  clear ht
  induction os generalizing t with
  | nil => trivial
  | cons o os ih =>
      refine ⟨hbounded t o hcall, fun t' ht' => ih t' ?_⟩
      exact hcall.consume hring hmax hsize (hbounded t o hcall) ht'

theorem RingAt.contained (hring : RingAt n p s) (hmax : n < 2 ^ 31)
    (hsize : (s.entries p.tail).size < 2 ^ 31) (hharmless : Harmless n p s) :
    DequeueContained lib n p s := by
  intro timeoutUs lockRet lockErrno os s' hC hexec hidle
  obtain ⟨t, ht, hrest⟩ := Option.bind_eq_some_iff.mp hexec
  have hstart := CallAt.dequeue hring ht
  have halong := along_consumes (hC.2 t ht)
  have hend : CallAt n p s s' := Machine.exec_invariant_along (CallAt n p s)
    (fun _ _ _ h ha hstep => h.step hring hmax hsize ha hstep) hstart halong hrest
  refine ⟨fun hret => ?_, fun hret => ?_⟩
  · obtain ⟨haccepted, hafter⟩ := hend.getHeadTail_eq hring hmax hidle hret
    have hfits : RemainFits n p (s.entries p.tail).remain := by
      obtain hproducer | hinterrupt | hempty | hmeta | hneg | hfits := hharmless
      · exact absurd (haccepted.isConsumer.symm.trans hproducer) Bool.false_ne_true
      · exact absurd (haccepted.running.symm.trans hinterrupt) Bool.false_ne_true
      · exact absurd hempty haccepted.more
      · exact absurd haccepted.metadata hmeta
      · exact absurd hneg (not_lt.mpr haccepted.size_nonneg)
      · exact hfits
    obtain ⟨hsome, hoccupied⟩ := (remainFits_iff hring.head_lt hring.tail_lt).mp hfits
    rw [hafter]
    refine ⟨hsome, hoccupied, ?_, fun u hu => ?_⟩
    · intro c hc
      rw [State.copy, hring.idle] at hc
      cases hc
    · obtain rfl := Option.some.inj (ht.symm.trans hu)
      exact Machine.along_of_invariant (CallAt n p s)
        (fun _ _ h _ _ hc => h.contained hring hsize hc)
        (fun _ _ _ h ha hstep => h.step hring hmax hsize ha hstep) hstart halong
  · have hat := hend.pc
    rw [hidle] at hat
    obtain ⟨-, hbuffer⟩ | ⟨hzero, -⟩ := hat
    · rw [hbuffer]
    · exact absurd hzero hret

theorem RingAt.harmless (hring : RingAt n p s) (hmax : n < 2 ^ 31)
    (hsize : (s.entries p.tail).size < 2 ^ 31) (hcontained : DequeueContained lib n p s) :
    Harmless n p s := by
  by_contra hharm
  simp only [Harmless, not_or, not_lt, not_not, Bool.not_eq_true] at hharm
  obtain ⟨hconsumer, hrunning, hmore, hmeta, hnonneg, hpast⟩ := hharm
  have haccepted : Accepted p s :=
    ⟨hconsumer, hrunning, Bool.eq_false_iff.mp hmore, hmeta, hnonneg⟩
  obtain ⟨os, t, hexec, hidle, hret⟩ := haccepted.dequeues lib hring hmax 0
  have hbounded := along_callocBounded lib hring hmax hsize hnonneg 0 0 0 os
  obtain ⟨hsome, hoccupied, -⟩ := (hcontained 0 0 0 os t hbounded hexec hidle).1 hret
  obtain ⟨u, hu, hrest⟩ := Option.bind_eq_some_iff.mp hexec
  have hend : CallAt n p s t := Machine.exec_invariant_along (CallAt n p s)
    (fun _ _ _ h ha hstep => h.step hring hmax hsize ha hstep) (CallAt.dequeue hring hu)
    (along_consumes (hbounded.2 u hu)) hrest
  rw [(hend.getHeadTail_eq hring hmax hidle hret).2] at hsome hoccupied
  exact hpast ((remainFits_iff hring.head_lt hring.tail_lt).mpr ⟨hsome, hoccupied⟩)

end Call

/-- For every content of a ring whose head and tail are anywhere in it, a dequeue keeps to the occupied
entries exactly when it ends before the copies or the entry at the tail announces no more than these.
A size is an `int32_t`, and the number of entries comes from a 32-bit size. -/
theorem dequeueContained_iff (lib : Securec) (n : Nat) (p : HeadTail) (s : State) (hmax : n < 2 ^ 31)
    (hring : RingAt n p s) (hsize : (s.entries p.tail).size < 2 ^ 31) :
    DequeueContained lib n p s ↔ Harmless n p s :=
  ⟨fun hcontained => hring.harmless hmax hsize hcontained,
    fun hharmless => hring.contained hmax hsize hharmless⟩

/-- A ring of four entries, of which the first is occupied, with five bytes and this `remain`. -/
def oneOccupied (remain : Int) : State where
  buffer := ⟨position 1 false, position 0 false⟩
  entries _ := ⟨5, remain, []⟩
  producer := { isProducer := true, concurrent := false, entriesNr := 4 }
  consumer := { isProducer := false, concurrent := false, entriesNr := 4 }

theorem oneOccupied_ringAt (remain : Int) :
    RingAt 4 ⟨1, false, 0, false⟩ (oneOccupied remain) :=
  ⟨rfl, by decide, by decide, rfl, rfl⟩

/-- Only the first entry may be released. -/
theorem oneOccupied_contained :
    DequeueContained .reference 4 ⟨1, false, 0, false⟩ (oneOccupied 0) ∧
      ¬DequeueContained .reference 4 ⟨1, false, 0, false⟩ (oneOccupied 1) :=
  ⟨(dequeueContained_iff .reference 4 _ (oneOccupied 0) (by decide) (oneOccupied_ringAt 0)
      (by decide)).mpr (by decide +kernel),
    fun h => absurd ((dequeueContained_iff .reference 4 _ (oneOccupied 1) (by decide)
      (oneOccupied_ringAt 1) (by decide)).mp h) (by decide +kernel)⟩

/-- Five bytes that announce three entries move the tail to entry 3, past the head at entry 1. -/
theorem threeAnnounced_passesHead :
    ¬DequeueContained .reference 4 ⟨1, false, 0, false⟩ (oneOccupied 2) :=
  fun h => absurd ((oneOccupied_ringAt 2).harmless (by decide) (by decide) h) (by decide +kernel)

end ITrustee.Xtasklet
