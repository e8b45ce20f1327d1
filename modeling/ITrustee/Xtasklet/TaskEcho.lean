import Mathlib.Tactic
import ITrustee.Foundation.Bytes
import ITrustee.Xtasklet.BlockingQueueBlocks

/-!
# Answering a task

One turn of `ExecutorFetch`, on the buffer a dequeue returned. The header of a task is 80 bytes, and
the worker does not learn how long the buffer is: it stores a pointer into the header before it looks
at the magic, and the length of the response is a field of the header. What is recorded are the
accesses of the worker to the buffer; those of the handler are the handler's own, which works on the
bytes behind the header. Bytes behind the buffer read as zeros.
-/

namespace ITrustee.Xtasklet

open CInt

def xtaskletBufMagic : Nat := 0x12345678

/-- `sizeof(struct Xtask)`. The fields used stand at 0 (`magic`), 48 (`buf`), 56 (`bufSz`) and 64
(`ret`). -/
def sizeofXtask : Nat := 80

structure Access where
  offset : Int
  len : Nat
  deriving DecidableEq

/-- How the calls inside the `BlockingEnqueue` of a response go. -/
structure Enqueueing where
  lockRet : Int := 0
  lockErrno : Int := 0
  /-- The words with which `WaitFull` leaves its loop, unless it gives up. -/
  words : Option Ringbuffer := none

structure Fetched where
  task : List UInt8
  accesses : List Access
  response : Option (List UInt8) := none

/-- `DequeuedTaskCreate` behind the dequeue, for a buffer at this address: the buffer, and whether it
has the magic. -/
def dequeuedTaskCreate (address : Nat) (task : List UInt8) : List UInt8 × Bool :=
  let task := Bytes.store task 48 (Bytes.le 8 (address + sizeofXtask))
  (task, Bytes.load 4 task 0 = xtaskletBufMagic)

/-- What the loop of `EnqueueBlocks` reads of the source, in this number of turns at most. -/
def sourceReads (len nextHead : Nat) (srcSize : Int) : Nat → Nat → Int → List Access
  | 0, _, _ => []
  | turns + 1, i, offset =>
      if i ≠ nextHead then
        let cnt := enqueueCnt offset srcSize
        ⟨offset, cnt⟩ ::
          sourceReads len nextHead srcSize turns (u32 (i + 1) % len) (i32 (offset + cnt))
      else []

/-- `BlockingEnqueue` of the first `srcSize` bytes of the task. -/
def enqueueResponse (resQ : BlockingQueue) (e : Enqueueing) (srcSize : Nat) (f : Fetched) :
    Fetched :=
  let src := f.task.takeD srcSize 0
  let len := resQ.entriesNr
  match enqueueStart resQ src (-1) e.lockRet e.lockErrno, e.words with
  | .waiting src _, some buffer =>
      let p := getHeadTail buffer
      let total := totalEntries src.length
      if isFull len total p then f
      else
        { f with
          accesses := f.accesses ++
            sourceReads len (nextPos len p.head total) (i32 src.length) len p.head 0
          response := some src }
  | _, _ => f

/-- One turn of `ExecutorFetch`. -/
def executorFetch (resQ : BlockingQueue) (fn : List UInt8 → Int × List UInt8) (e : Enqueueing)
    (address : Nat) (task : List UInt8) : Fetched :=
  let (task, isTask) := dequeuedTaskCreate address task
  let accesses : List Access := [⟨48, 8⟩, ⟨0, 4⟩]
  if !isTask then { task, accesses }
  else
    let buf := task.drop sizeofXtask
    let (ret, data) := fn buf
    let task := task.take sizeofXtask ++ data.takeD buf.length 0
    let task := Bytes.store task 64 (Bytes.le 8 (toU64 ret))
    let bufSz := Bytes.load 8 task 56
    let accesses := accesses ++ [⟨48, 8⟩, ⟨64, 8⟩, ⟨56, 8⟩]
    enqueueResponse resQ e (u32 (u64 (sizeofXtask + bufSz))) { task, accesses }

def Access.Inside (a : Access) (size : Nat) : Prop := 0 ≤ a.offset ∧ a.offset + a.len ≤ size

/-- Whatever the handler does and however the enqueue goes, the worker stays inside the buffer, and a
response is as long as it. -/
def Echoes (resQ : BlockingQueue) (task : List UInt8) : Prop :=
  ∀ fn e address,
    (∀ a ∈ (executorFetch resQ fn e address task).accesses, a.Inside task.length) ∧
      ∀ response, (executorFetch resQ fn e address task).response = some response →
        response.length = task.length

/-- The length of the response that the header asks for. -/
def responseLen (task : List UInt8) : Nat := u32 (u64 (sizeofXtask + Bytes.load 8 task 56))

/-- The buffer holds the fields up to `buf`, and for a task those up to `ret`, and the header asks for
a response of its length, or for one that the queue refuses. -/
def HoldsHeader (resQ : BlockingQueue) (task : List UInt8) : Prop :=
  56 ≤ task.length ∧
    (Bytes.load 4 task 0 = xtaskletBufMagic →
      72 ≤ task.length ∧
        (responseLen task = task.length ∨ u32 (resQ.entriesNr * entrySize) < responseLen task))

instance (resQ : BlockingQueue) (task : List UInt8) : Decidable (HoldsHeader resQ task) := by
  unfold HoldsHeader
  infer_instance

/-! ### What an enqueue reads -/

section Reads

variable {len nextHead turns i srcSize : Nat} {offset : Int}

theorem sourceReads_done (hdone : i = nextHead) :
    sourceReads len nextHead srcSize turns i offset = [] := by
  cases turns with
  | zero => rfl
  | succ turns => rw [sourceReads, if_neg (not_not.mpr hdone)]

/-- The loop has reached the head in as many turns as there are entries. -/
theorem sourceReads_turns {k : Nat} (hlt : i < 2 ^ 31) (hlen : len < 2 ^ 31) (hnext : nextHead < len)
    (hk : 1 ≤ k) (hturns : k ≤ turns) (hreach : (i + k) % len = nextHead) (more : Nat) :
    sourceReads len nextHead srcSize (turns + more) i offset =
      sourceReads len nextHead srcSize turns i offset := by
  induction turns generalizing i k offset with
  | zero => omega
  | succ turns ih =>
      rw [Nat.succ_add, sourceReads, sourceReads]
      by_cases hdone : i = nextHead
      · rw [if_neg (not_not.mpr hdone), if_neg (not_not.mpr hdone)]
      · rw [if_pos hdone, if_pos hdone]
        dsimp only
        have hi : u32 (i + 1) = i + 1 := u32_of_lt (by omega)
        have hstep : ((i + 1) % len + (k - 1)) % len = nextHead := by
          rw [Nat.mod_add_mod, ← hreach]
          congr 1
          omega
        have hsmall : (i + 1) % len < 2 ^ 31 := (Nat.mod_lt _ (by omega)).trans hlen
        rw [hi]
        congr 1
        by_cases hlast : k = 1
        · have hthere : (i + 1) % len = nextHead := by rw [← hreach, hlast]
          rw [sourceReads_done hthere, sourceReads_done hthere]
        · exact ih hsmall (by omega) (by omega) hstep

/-- As many turns as there are entries let the loop end, wherever the words say that the head is. -/
theorem sourceReads_complete {head total : Nat} (hhead : head < 2 ^ 31) (hpos : 0 < len)
    (hlen : len < 2 ^ 31) (htotal : total ≤ len) (more : Nat) :
    sourceReads len (nextPos len head total) srcSize (len + more) head 0 =
      sourceReads len (nextPos len head total) srcSize len head 0 := by
  have hnext : nextPos len head total = (head + total) % len := by
    have hsum : toU32 (head + (total : Int)) = head + total := toU32_of_lt rfl (by omega)
    rw [nextPos, hsum]
  rw [hnext]
  have hlt := Nat.mod_lt (head + total) hpos
  obtain rfl | hone := Nat.eq_zero_or_pos total
  · exact sourceReads_turns hhead hlen hlt hpos le_rfl (Nat.add_mod_right head len) more
  · exact sourceReads_turns hhead hlen hlt hone htotal rfl more

/-- A copy stays inside the source and ends inside it. -/
theorem enqueueCnt_inside (hsize : srcSize + entrySize < 2 ^ 31) (hlow : 0 ≤ offset)
    (hhigh : offset ≤ srcSize) :
    offset + enqueueCnt offset srcSize ≤ srcSize ∧
      i32 (offset + enqueueCnt offset srcSize) = offset + enqueueCnt offset srcSize := by
  rw [entrySize] at hsize
  have hadd : i32 (offset + entrySize) = offset + 512 := by
    rw [entrySize, i32_of_range] <;> omega
  have hsub : i32 (srcSize - offset) = srcSize - offset := i32_of_range (by omega) (by omega)
  have hcnt : offset + enqueueCnt offset srcSize ≤ srcSize := by
    rw [enqueueCnt, hadd, hsub, entrySize, toU64]
    split_ifs <;> omega
  exact ⟨hcnt, i32_of_range (by omega) (by omega)⟩

theorem sourceReads_inside (hsize : srcSize + entrySize < 2 ^ 31) (hlow : 0 ≤ offset)
    (hhigh : offset ≤ srcSize) :
    ∀ a ∈ sourceReads len nextHead srcSize turns i offset, a.Inside srcSize := by
  induction turns generalizing i offset with
  | zero => simp [sourceReads]
  | succ turns ih =>
      intro a ha
      obtain ⟨hinside, hoffset⟩ := enqueueCnt_inside hsize hlow hhigh
      rw [sourceReads] at ha
      split_ifs at ha with hdone
      · obtain rfl | ha := List.mem_cons.mp ha
        · exact ⟨hlow, hinside⟩
        · rw [hoffset] at ha
          exact ih (by omega) hinside a ha
      · exact absurd ha (List.not_mem_nil)

end Reads

section Fetch

variable {resQ : BlockingQueue} {fn : List UInt8 → Int × List UInt8} {e : Enqueueing}
  {address : Nat} {task : List UInt8}

theorem enqueueStart_waiting {src src' : List UInt8} {timeoutUs timeoutUs' lockRet lockErrno : Int}
    (hstart : enqueueStart resQ src timeoutUs lockRet lockErrno = .waiting src' timeoutUs') :
    src = src' ∧ src.length ≤ resQ.entriesNr * entrySize := by
  rw [enqueueStart] at hstart
  split_ifs at hstart with _ hlong
  exact ⟨(ProducerPc.waiting.inj hstart).1, (Nat.le_of_not_lt hlong).trans (u32_le _)⟩

theorem enqueueStart_admits {src : List UInt8} (hproducer : resQ.isProducer = true)
    (hfits : src.length ≤ u32 (resQ.entriesNr * entrySize)) (timeoutUs : Int) :
    enqueueStart resQ src timeoutUs 0 0 = .waiting src timeoutUs := by
  have hlock : lockQueue resQ 0 0 = 0 := if_neg fun h => h.2 rfl
  have htotal : totalEntries src.length ≤ resQ.entriesNr :=
    totalEntries_le (hfits.trans (u32_le _))
  rw [enqueueStart, hproducer, hlock]
  simp [Nat.not_lt.mpr hfits, Nat.not_lt.mpr htotal]

/-- The words of a tail that is one entry ahead of the head. -/
def aheadWords : Ringbuffer := ⟨position 0 false, position 1 false⟩

/-- With the tail ahead of the head on one lap there is always room. -/
theorem isFull_aheadWords {n total : Nat} (htotal : total ≤ n) (hn : n < 2 ^ 31) :
    isFull n total (getHeadTail aheadWords) = false := by
  have hsum : toU32 ((0 : Nat) + (total : Int)) = total := toU32_of_lt (by omega) (by omega)
  rw [aheadWords, getHeadTail_position (by decide) (by decide), isFull, nextPos, nextFlip, hsum]
  by_cases hlap : total < n
  · have hnot : ¬ n ≤ total := by omega
    simp [hnot]
  · have hlast : total = n := by omega
    simp [hlast]

/-- What an enqueue adds to the accesses lies inside the response. -/
theorem enqueueResponse_inside (hring : 8 + resQ.entriesNr * 520 < 2 ^ 31) (srcSize : Nat)
    (f : Fetched) :
    (∀ a ∈ (enqueueResponse resQ e srcSize f).accesses, a ∈ f.accesses ∨ a.Inside srcSize) ∧
      ∀ response, (enqueueResponse resQ e srcSize f).response = some response →
        f.response = some response ∨ response.length = srcSize := by
  have hlen : (f.task.takeD srcSize 0).length = srcSize := List.takeD_length _ _ _
  rw [enqueueResponse]
  dsimp only
  split
  next src _ buffer hstart hwords =>
    obtain ⟨rfl, hfits⟩ := enqueueStart_waiting hstart
    rw [hlen] at hfits
    have hbound : srcSize + entrySize < 2 ^ 31 := by
      rw [entrySize] at hfits ⊢
      omega
    split_ifs with hfull
    · exact ⟨fun a ha => Or.inl ha, fun response hr => Or.inl hr⟩
    · have hsize : i32 (f.task.takeD srcSize 0).length = srcSize := by
        rw [hlen]
        exact i32_of_range (by omega) (by omega)
      refine ⟨fun a ha => ?_, fun response hr => ?_⟩
      · refine (List.mem_append.mp ha).imp_right fun hread => ?_
        rw [hsize] at hread
        exact sourceReads_inside hbound le_rfl (by omega) a hread
      · obtain rfl := Option.some.inj hr
        exact Or.inr hlen
  next =>
    exact ⟨fun a ha => Or.inl ha, fun response hr => Or.inl hr⟩

theorem enqueueResponse_refuses {srcSize : Nat} {f : Fetched}
    (hlong : u32 (resQ.entriesNr * entrySize) < srcSize) :
    enqueueResponse resQ e srcSize f = f := by
  have hlen : (f.task.takeD srcSize 0).length = srcSize := List.takeD_length _ _ _
  rw [enqueueResponse]
  dsimp only
  rw [enqueueStart_refuses (hlong.trans_eq hlen.symm)]

theorem enqueueResponse_admits (hproducer : resQ.isProducer = true)
    (hring : 8 + resQ.entriesNr * 520 < 2 ^ 31) {srcSize : Nat} {f : Fetched}
    (hfits : srcSize ≤ u32 (resQ.entriesNr * entrySize)) :
    (enqueueResponse resQ { words := some aheadWords } srcSize f).response =
      some (f.task.takeD srcSize 0) := by
  have hlen : (f.task.takeD srcSize 0).length = srcSize := List.takeD_length _ _ _
  have htotal : totalEntries srcSize ≤ resQ.entriesNr := totalEntries_le (hfits.trans (u32_le _))
  rw [enqueueResponse]
  dsimp only
  rw [enqueueStart_admits hproducer (hlen.trans_le hfits)]
  dsimp only
  rw [hlen, isFull_aheadWords htotal (by omega)]
  rfl

variable (address) in
theorem dequeuedTaskCreate_magic (hlen : 56 ≤ task.length) :
    (dequeuedTaskCreate address task).2 = decide (Bytes.load 4 task 0 = xtaskletBufMagic) := by
  rw [dequeuedTaskCreate]
  dsimp only
  rw [Bytes.load_store _ (by omega) (by decide)]

/-- The accesses of a turn before the enqueue: `buf`, `magic`, `buf` again for the handler, `ret` and
`bufSz`. -/
def taskAccesses : List Access := [⟨48, 8⟩, ⟨0, 4⟩, ⟨48, 8⟩, ⟨64, 8⟩, ⟨56, 8⟩]

variable (resQ fn e address) in
/-- The accesses of a turn, and the response it asks for. -/
theorem executorFetch_task (hlen : 56 ≤ task.length)
    (hmagic : Bytes.load 4 task 0 = xtaskletBufMagic) :
    ∃ task' srcSize, executorFetch resQ fn e address task =
        enqueueResponse resQ e srcSize { task := task', accesses := taskAccesses } ∧
      (72 ≤ task.length → srcSize = responseLen task) := by
  have hisTask : (dequeuedTaskCreate address task).2 = true := by
    rw [dequeuedTaskCreate_magic address hlen, hmagic]
    exact decide_eq_true rfl
  rw [executorFetch]
  dsimp only
  rw [hisTask, Bool.not_true, if_neg (by decide)]
  refine ⟨_, _, rfl, ?_⟩
  intro hret
  have hstored : (Bytes.store task 48 (Bytes.le 8 (address + sizeofXtask))).length = task.length :=
    Bytes.store_length (by rw [Bytes.le_length]; omega)
  have hfield : Bytes.load 8 (Bytes.store task 48 (Bytes.le 8 (address + sizeofXtask))) 56 =
      Bytes.load 8 task 56 := by
    rw [Bytes.load, Bytes.load, Bytes.drop_store] <;> rw [Bytes.le_length]
    omega
  have hhead : ((dequeuedTaskCreate address task).1.take sizeofXtask).length =
      min 80 task.length := by
    rw [List.length_take, dequeuedTaskCreate, hstored, sizeofXtask]
  rw [responseLen, Bytes.load_store _ (by rw [List.length_append]; omega) (by decide),
    Bytes.load_append_left _ (by omega), Bytes.load_take _ (by decide), dequeuedTaskCreate, hfield]

theorem executorFetch_other (hlen : 56 ≤ task.length)
    (hmagic : Bytes.load 4 task 0 ≠ xtaskletBufMagic) :
    executorFetch resQ fn e address task =
      { task := (dequeuedTaskCreate address task).1, accesses := [⟨48, 8⟩, ⟨0, 4⟩] } := by
  have hother : (dequeuedTaskCreate address task).2 = false := by
    rw [dequeuedTaskCreate_magic address hlen]
    exact decide_eq_false hmagic
  rw [executorFetch]
  dsimp only
  rw [hother, Bool.not_false, if_pos rfl]

/-- Every turn stores the pointer, whatever the buffer is. -/
theorem enqueueResponse_accesses (srcSize : Nat) (f : Fetched) :
    f.accesses ⊆ (enqueueResponse resQ e srcSize f).accesses := by
  rw [enqueueResponse]
  dsimp only
  split
  next =>
    split_ifs
    · exact List.Subset.refl _
    · exact List.subset_append_left _ _
  next => exact List.Subset.refl _

theorem executorFetch_storesBuf : ⟨48, 8⟩ ∈ (executorFetch resQ fn e address task).accesses := by
  rw [executorFetch]
  dsimp only
  split_ifs
  · exact List.mem_cons_self
  · exact enqueueResponse_accesses _ _ List.mem_cons_self

end Fetch

/-! ### When the worker stays inside -/

section Echoing

variable {resQ : BlockingQueue} {task : List UInt8}

theorem taskAccesses_inside {size : Nat} (hret : 72 ≤ size) :
    ∀ a ∈ taskAccesses, a.Inside size := by
  simp only [taskAccesses, List.forall_mem_cons, Access.Inside]
  refine ⟨?_, ?_, ?_, ?_, ?_, by simp⟩ <;> omega

theorem HoldsHeader.echoes (hring : 8 + resQ.entriesNr * 520 < 2 ^ 31) (h : HoldsHeader resQ task) :
    Echoes resQ task := by
  intro fn e address
  obtain ⟨hbuf, hheader⟩ := h
  by_cases hmagic : Bytes.load 4 task 0 = xtaskletBufMagic
  · obtain ⟨hret, hsize⟩ := hheader hmagic
    obtain ⟨task', srcSize, hfetch, hlen⟩ :=
      executorFetch_task resQ fn e address hbuf hmagic
    obtain rfl := hlen hret
    rw [hfetch]
    obtain hsize | hlong := hsize
    · obtain ⟨haccesses, hresponse⟩ := enqueueResponse_inside (e := e) hring (responseLen task)
        { task := task', accesses := taskAccesses }
      refine ⟨fun a ha => ?_, fun response hr => ?_⟩
      · obtain hheld | hread := haccesses a ha
        · exact taskAccesses_inside hret a hheld
        · rwa [hsize] at hread
      · obtain hnone | hr := hresponse response hr
        · simp at hnone
        · exact hr.trans hsize
    · rw [enqueueResponse_refuses hlong]
      exact ⟨taskAccesses_inside hret, by simp⟩
  · rw [executorFetch_other hbuf hmagic]
    refine ⟨?_, by simp⟩
    simp only [List.forall_mem_cons, Access.Inside]
    refine ⟨?_, ?_, by simp⟩ <;> omega

theorem Echoes.holdsHeader (hproducer : resQ.isProducer = true)
    (hring : 8 + resQ.entriesNr * 520 < 2 ^ 31) (h : Echoes resQ task) : HoldsHeader resQ task := by
  obtain ⟨haccesses, hresponse⟩ := h (fun _ => (0, [])) { words := some aheadWords } 0
  have hbuf : 56 ≤ task.length := by
    have hinside := (haccesses _ executorFetch_storesBuf).2
    norm_num at hinside
    omega
  refine ⟨hbuf, fun hmagic => ?_⟩
  obtain ⟨task', srcSize, hfetch, hlen⟩ :=
    executorFetch_task resQ (fun _ => (0, [])) { words := some aheadWords } 0 hbuf hmagic
  rw [hfetch] at haccesses hresponse
  have hret : 72 ≤ task.length := by
    have hinside := (haccesses ⟨64, 8⟩ (enqueueResponse_accesses _ _ (by simp [taskAccesses]))).2
    norm_num at hinside
    omega
  obtain rfl := hlen hret
  refine ⟨hret, ?_⟩
  by_contra hnot
  obtain ⟨hne, hfits⟩ := not_or.mp hnot
  have hadmitted := hresponse _ (enqueueResponse_admits hproducer hring (Nat.le_of_not_lt hfits))
  rw [List.takeD_length] at hadmitted
  exact hne hadmitted

/-- A message is answered inside its buffer and at its length exactly when it has room for the header
and the header says so. The queue lies in one half of a region whose size is a 32-bit number. -/
theorem echoes_iff (resQ : BlockingQueue) (hproducer : resQ.isProducer = true)
    (hring : 8 + resQ.entriesNr * 520 < 2 ^ 31) (task : List UInt8) :
    Echoes resQ task ↔ HoldsHeader resQ task :=
  ⟨fun h => h.holdsHeader hproducer hring, fun h => h.echoes hring⟩

end Echoing

def twoEntries : BlockingQueue where
  isProducer := true
  concurrent := false
  entriesNr := 2

/-- A task of 80 bytes that announces this many behind them. -/
def headerOnly (bufSz : Nat) : List UInt8 :=
  Bytes.le 4 xtaskletBufMagic ++ List.replicate 52 0 ++ Bytes.le 8 bufSz ++ List.replicate 16 0

theorem headerOnly_echoes :
    HoldsHeader twoEntries (headerOnly 0) ∧ Echoes twoEntries (headerOnly 0) :=
  have hheader : HoldsHeader twoEntries (headerOnly 0) := by decide +kernel
  ⟨hheader, (echoes_iff twoEntries rfl (by decide) (headerOnly 0)).mpr hheader⟩

/-- Of a header that announces eight bytes more than came, the worker sends these eight from behind
its buffer. -/
theorem eightMore_readsBehind :
    (executorFetch twoEntries (fun _ => (0, [])) { words := some aheadWords } 0
        (headerOnly 8)).accesses = [⟨48, 8⟩, ⟨0, 4⟩, ⟨48, 8⟩, ⟨64, 8⟩, ⟨56, 8⟩, ⟨0, 88⟩] ∧
      ¬ Echoes twoEntries (headerOnly 8) := by
  have hfetch : (executorFetch twoEntries (fun _ => (0, [])) { words := some aheadWords } 0
      (headerOnly 8)).accesses = [⟨48, 8⟩, ⟨0, 4⟩, ⟨48, 8⟩, ⟨64, 8⟩, ⟨56, 8⟩, ⟨0, 88⟩] := by
    decide +kernel
  refine ⟨hfetch, fun hechoes => ?_⟩
  have hinside := (hechoes (fun _ => (0, [])) { words := some aheadWords } 0).1 ⟨0, 88⟩
  rw [hfetch] at hinside
  exact absurd (hinside (by simp)).2 (by decide +kernel)

end ITrustee.Xtasklet
