import Mathlib.Tactic
import ITrustee.Foundation.CInt
import ITrustee.Foundation.FlipRing
import ITrustee.Foundation.Machine
import ITrustee.Foundation.Securec

/-!
# The blocking queue

`blocking_queue.c`: two endpoints over one shared memory, a word for the head, a word for the tail and
a ring of entries. An endpoint's calls run one at a time, and a call is the point it has reached. The
atomic steps are the accesses to what is shared: the interrupt flag, the snapshot of both words, one
entry, the store of the head or of the tail. What is computed between two of them belongs to the
first.

A source buffer is its `srcSize` bytes. `enqueued` and `delivered` collect the buffers of the calls
that returned 0.
-/

namespace ITrustee.Xtasklet

open CInt

def entrySize : Nat := 512

def sleepUs : Int := 100

def accCnt : Nat := 2000

def invalidMetaValue : Int := -1

def interrupted : Int := 0xFF8

def etimedout : Int := 110

/-! ### Shared memory -/

/-- The values of the two words of `union Position`. -/
structure Ringbuffer where
  head : Nat := 0
  tail : Nat := 0
  deriving DecidableEq

structure Entry where
  size : Int
  remain : Int
  data : List UInt8
  deriving DecidableEq

structure HeadTail where
  head : Nat
  headFlip : Bool
  tail : Nat
  tailFlip : Bool

/-- The word `SetHead` and `SetTail` store. -/
def position (pos : Nat) (flip : Bool) : Nat := (if flip then 1 else 0) ||| u32 (pos <<< 1)

def setHead (buffer : Ringbuffer) (pos : Nat) (flip : Bool) : Ringbuffer :=
  { buffer with head := position pos flip }

def setTail (buffer : Ringbuffer) (pos : Nat) (flip : Bool) : Ringbuffer :=
  { buffer with tail := position pos flip }

/-- Both words as one 64-bit value, the head in the low half. -/
def Ringbuffer.posVal (buffer : Ringbuffer) : Nat := buffer.head + buffer.tail * 2 ^ 32

def flipMask : Nat := 0x00000001

def posMask : Nat := 0xFFFFFFFE

def getHeadTail (buffer : Ringbuffer) : HeadTail where
  headFlip := buffer.posVal &&& flipMask != 0
  head := (buffer.posVal &&& posMask) >>> 1
  tailFlip := (buffer.posVal >>> 32) &&& flipMask != 0
  tail := ((buffer.posVal >>> 32) &&& posMask) >>> 1

/-! ### Endpoints -/

structure BlockingQueue where
  isProducer : Bool
  interrupt : Bool := false
  concurrent : Bool
  blockingAcc : Nat := accCnt
  entriesNr : Nat
  deriving DecidableEq

/-- `BlockingQueueCreate` on a mapping of `memSize` bytes: the ring buffer takes 8 of them and an
entry 520. -/
def blockingQueueCreate (memSize : Nat) (isProducer concurrent : Bool) : Option BlockingQueue :=
  if memSize < 8 + 2 * 520 then none
  else some { isProducer, concurrent, entriesNr := u32 ((memSize - 8) / 520) }

/-- What the calls of one step return: `usleep`, `calloc`, where a value other than 0 is a failure. -/
structure Outcome where
  ret : Int := 0
  errno : Int := 0
  errno_of_failure : ret ≠ 0 → errno ≠ 0 := by decide

/-- `LockQueue`, when `pthread_mutex_lock` returns `ret`. -/
def lockQueue (q : BlockingQueue) (ret errno : Int) : Int :=
  if q.concurrent ∧ ret ≠ 0 then errno else 0

structure Blocked where
  ret : Int
  queue : BlockingQueue
  timeoutUs : Int

def blocking (o : Outcome) (q : BlockingQueue) (timeoutUs : Int) : Blocked :=
  if timeoutUs ≠ -1 ∧ timeoutUs < sleepUs then ⟨etimedout, q, timeoutUs⟩
  else if q.blockingAcc = 0 then
    if o.ret ≠ 0 then ⟨o.errno, q, timeoutUs⟩
    else ⟨0, q, if timeoutUs ≠ -1 then timeoutUs - sleepUs else timeoutUs⟩
  else ⟨0, { q with blockingAcc := q.blockingAcc - 1 }, timeoutUs⟩

def unblocking (q : BlockingQueue) : BlockingQueue :=
  { q with blockingAcc := u64 (q.blockingAcc + accCnt) }

/-! ### Positions -/

/-- The number of entries a buffer takes. -/
def totalEntries (srcSize : Nat) : Nat :=
  srcSize / entrySize + if srcSize % entrySize = 0 then 0 else 1

/-- The position `count` entries on. -/
def nextPos (len pos : Nat) (count : Int) : Nat := toU32 (pos + count) % len

def nextFlip (len pos : Nat) (count : Int) (flip : Bool) : Bool :=
  decide (toU32 (pos + count) ≥ len) ^^ flip

/-- The test of `WaitFull`. -/
def isFull (len total : Nat) (p : HeadTail) : Bool :=
  let nextHead := nextPos len p.head total
  let nextHeadFlip := nextFlip len p.head total p.headFlip
  (nextHeadFlip ≠ p.tailFlip && nextHead ≥ p.tail) ||
    (p.headFlip ≠ p.tailFlip && nextHeadFlip = p.tailFlip)

/-- The test of `WaitEmpty`. -/
def isEmpty (p : HeadTail) : Bool := p.headFlip = p.tailFlip && p.head = p.tail

/-! ### Calls -/

/-- Where a `BlockingEnqueue` is. -/
inductive ProducerPc where
  | idle
  /-- Before the load of the interrupt flag. -/
  | waiting (src : List UInt8) (timeoutUs : Int)
  /-- Before the snapshot. -/
  | polling (src : List UInt8) (timeoutUs : Int)
  /-- In the loop of `EnqueueBlocks`. -/
  | writing (src : List UInt8) (head : Nat) (headFlip : Bool) (i : Nat) (offset : Int)
  | returning (src : List UInt8) (ret : Int)
  deriving DecidableEq

/-- Where a `BlockingDequeue` is. -/
inductive ConsumerPc where
  | idle
  | waiting (timeoutUs : Int)
  | polling (timeoutUs : Int)
  /-- Before `GetMetadata`. -/
  | metadata (tail : Nat) (tailFlip : Bool)
  /-- In the loop of `DequeueBlocks`. -/
  | reading (tail : Nat) (tailFlip : Bool) (size remain : Int) (i offset : Nat) (dst : List UInt8)
  | returning (dst : List UInt8) (ret : Int)
  deriving DecidableEq

structure State where
  buffer : Ringbuffer := {}
  entries : Nat → Entry
  producer : BlockingQueue
  consumer : BlockingQueue
  producerPc : ProducerPc := .idle
  consumerPc : ConsumerPc := .idle
  enqueueRet : Int := 0
  dequeueRet : Int := 0
  enqueued : List (List UInt8) := []
  delivered : List (List UInt8) := []

inductive Action where
  | enqueue (src : List UInt8) (timeoutUs lockRet lockErrno : Int)
  | dequeue (timeoutUs lockRet lockErrno : Int)
  /-- The next step of the running `BlockingEnqueue`. -/
  | produce (o : Outcome)
  | consume (o : Outcome)
  | interruptProducer
  | interruptConsumer

/-- `BlockingEnqueue` up to the loop of `WaitFull`. -/
def enqueueStart (q : BlockingQueue) (src : List UInt8) (timeoutUs lockRet lockErrno : Int) :
    ProducerPc :=
  if !q.isProducer then .returning src 1
  else if src.length > u32 (q.entriesNr * entrySize) then .returning src 1
  else if lockQueue q lockRet lockErrno ≠ 0 then .returning src (lockQueue q lockRet lockErrno)
  else if totalEntries src.length > q.entriesNr then .returning src 1
  else .waiting src timeoutUs

/-- `BlockingDequeue` up to the loop of `WaitEmpty`. -/
def dequeueStart (q : BlockingQueue) (timeoutUs lockRet lockErrno : Int) : ConsumerPc :=
  if q.isProducer then .returning [] 1
  else if lockQueue q lockRet lockErrno ≠ 0 then .returning [] (lockQueue q lockRet lockErrno)
  else .waiting timeoutUs

section Steps

variable (lib : Securec)

/-- The bytes `EnqueueBlocks` copies into one entry. -/
def enqueueCnt (offset srcSize : Int) : Nat :=
  toU64 (if i32 (offset + entrySize) < srcSize then entrySize else i32 (srcSize - offset))

/-- `SetMetadata` and the copy into the entry. -/
def writeEntry (e : Entry) (isFirst : Bool) (src : List UInt8) (srcSize total offset : Int) : Entry :=
  let cnt := enqueueCnt offset srcSize
  { size := if isFirst then srcSize else invalidMetaValue
    remain := if isFirst then total - 1 else invalidMetaValue
    data := (lib.memcpyS e.data cnt (src.drop offset.toNat) cnt).2 }

/-- One turn of the loop of `EnqueueBlocks`, or the `SetHead` after it. -/
def enqueueBlocks (s : State) (src : List UInt8) (head : Nat) (headFlip : Bool) (i : Nat)
    (offset : Int) : State :=
  let srcSize := i32 src.length
  let total := srcSize.tdiv entrySize + if srcSize.tmod entrySize = 0 then 0 else 1
  let len := s.producer.entriesNr
  if i ≠ nextPos len head total then
    { s with
      entries := Function.update s.entries i
        (writeEntry lib (s.entries i) (i = head) src srcSize total offset)
      producerPc := .writing src head headFlip (u32 (i + 1) % len)
        (i32 (offset + enqueueCnt offset srcSize)) }
  else
    { s with
      buffer := setHead s.buffer (nextPos len head total) (nextFlip len head total headFlip)
      producerPc := .returning src 0 }

def produce (o : Outcome) (s : State) : Option State :=
  match s.producerPc with
  | .idle => none
  | .waiting src timeoutUs =>
      some { s with
        producerPc :=
          if s.producer.interrupt then .returning src interrupted else .polling src timeoutUs }
  | .polling src timeoutUs =>
      let p := getHeadTail s.buffer
      if isFull s.producer.entriesNr (totalEntries src.length) p then
        let b := blocking o s.producer timeoutUs
        some { s with
          producer := b.queue
          producerPc := if b.ret ≠ 0 then .returning src b.ret else .waiting src b.timeoutUs }
      else
        some { s with
          producer := unblocking s.producer
          producerPc := .writing src p.head p.headFlip p.head 0 }
  | .writing src head headFlip i offset => some (enqueueBlocks lib s src head headFlip i offset)
  | .returning src ret =>
      some { s with
        producerPc := .idle
        enqueueRet := ret
        enqueued := if ret = 0 then s.enqueued ++ [src] else s.enqueued }

/-- The result of `GetMetadata` on what the entry contains. -/
def getMetadata (e : Entry) : Int :=
  if e.size = invalidMetaValue ∨ e.remain = invalidMetaValue then 1
  else if e.size > i32 ((e.remain + 1) * entrySize) then 1
  else 0

/-- The bytes `DequeueBlocks` copies out of one entry. -/
def dequeueCnt (size : Int) (offset : Nat) : Nat :=
  if toU32 (size - offset) < entrySize then toU32 (size - offset) else entrySize

/-- One turn of the loop of `DequeueBlocks`, or the `SetTail` after it. -/
def dequeueBlocks (s : State) (tail : Nat) (tailFlip : Bool) (size remain : Int) (i offset : Nat)
    (dst : List UInt8) : State :=
  let len := s.consumer.entriesNr
  if i ≠ nextPos len tail (remain + 1) then
    let cnt := dequeueCnt size offset
    { s with
      consumerPc := .reading tail tailFlip size remain (u64 (i + 1) % len) (u32 (offset + cnt))
        (dst.take offset ++ (lib.memcpyS (dst.drop offset) cnt (s.entries i).data cnt).2) }
  else
    { s with
      buffer := setTail s.buffer (nextPos len tail (remain + 1))
        (nextFlip len tail (remain + 1) tailFlip)
      consumerPc := .returning dst 0 }

def consume (o : Outcome) (s : State) : Option State :=
  match s.consumerPc with
  | .idle => none
  | .waiting timeoutUs =>
      some { s with
        consumerPc := if s.consumer.interrupt then .returning [] interrupted else .polling timeoutUs }
  | .polling timeoutUs =>
      let p := getHeadTail s.buffer
      if isEmpty p then
        let b := blocking o s.consumer timeoutUs
        some { s with
          consumer := b.queue
          consumerPc := if b.ret ≠ 0 then .returning [] b.ret else .waiting b.timeoutUs }
      else
        some { s with
          consumer := unblocking s.consumer
          consumerPc := .metadata p.tail p.tailFlip }
  | .metadata tail tailFlip =>
      let e := s.entries tail
      some { s with
        consumerPc :=
          if getMetadata e ≠ 0 then .returning [] (getMetadata e)
          else if o.ret ≠ 0 then .returning [] o.errno
          else .reading tail tailFlip e.size e.remain tail 0 (List.replicate (toU64 e.size) 0) }
  | .reading tail tailFlip size remain i offset dst =>
      some (dequeueBlocks lib s tail tailFlip size remain i offset dst)
  | .returning dst ret =>
      some { s with
        consumerPc := .idle
        dequeueRet := ret
        delivered := if ret = 0 then s.delivered ++ [dst] else s.delivered }

def step (s : State) : Action → Option State
  | .enqueue src timeoutUs lockRet lockErrno =>
      if s.producerPc = .idle then
        some { s with producerPc := enqueueStart s.producer src timeoutUs lockRet lockErrno }
      else none
  | .dequeue timeoutUs lockRet lockErrno =>
      if s.consumerPc = .idle then
        some { s with consumerPc := dequeueStart s.consumer timeoutUs lockRet lockErrno }
      else none
  | .produce o => produce lib o s
  | .consume o => consume lib o s
  | .interruptProducer => some { s with producer := { s.producer with interrupt := true } }
  | .interruptConsumer => some { s with consumer := { s.consumer with interrupt := true } }

end Steps

/-- Both endpoints are initialised, and the entries hold anything. -/
def initial (entries : Nat → Entry) (producer consumer : BlockingQueue) : State :=
  { entries, producer, consumer }

end ITrustee.Xtasklet
