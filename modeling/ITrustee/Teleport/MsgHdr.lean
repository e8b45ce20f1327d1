import Mathlib
import ITrustee.Foundation.AddressRanges
import ITrustee.Foundation.CountedLoop
import ITrustee.Teleport.SerializeBounds

/-!
# Message headers from a buffer

`ConstructMsg` makes a `struct msghdr` of a serialized message. The array of `struct iovec` stays where
it is in the buffer: the lengths are read from there and the pointers written there. How many records
there are is a number of its own, which nothing compares with the size of the array.

A pointer into the buffer is an offset, as `DeSerialize` has it, and the buffer has the address
`bufAddr`. Records that are not in the buffer hold whatever `beyond` says; writes to them are not
followed.
-/

namespace ITrustee.Teleport

open CInt Serialize

/-! ### Data -/

inductive MsgCmd where
  | sendmsg
  | recvmsg
  deriving DecidableEq

def sizeofIovec : Nat := 16

/-- What `ConstructMsg` decodes, and the size of the array, which `DeSerialize` keeps to itself. -/
structure MsgFields where
  msgName : Option Nat
  msgNamelen : UInt64
  iovecBuf : Option Nat
  iovecSize : Nat
  msgIovlen : UInt64
  msgControl : Option Nat
  msgControllen : UInt64
  msgFlags : UInt64
  deriving DecidableEq

/-- The message that `ConstructMsg` leaves: the header with the ranges of its records, the buffer as it
is then, and the buffer allocated for a receive. `touched` are the records that were read or written. -/
structure Msg where
  msgName : Option Nat
  msgNamelen : UInt32
  msgIov : List AddrRange
  msgIovlen : UInt64
  msgControl : Option Nat
  msgControllen : UInt64
  msgFlags : Int32
  buf : List UInt8
  touched : List Nat
  ioBuf : Option AddrRange
  deriving DecidableEq

/-- `running` means that a loop is not over after the iterations allowed to it. -/
inductive ConstructResult where
  | running
  | failed
  | done (msg : Msg)
  deriving DecidableEq

/-- The two allocations. -/
structure MsgAllocs where
  hdr : Bool
  malloc : UInt64 → Option UInt64

/-! ### ConstructMsg -/

def checkIovlenInvalid (msgIovlen : UInt64) (cmd : MsgCmd) : Bool :=
  if cmd ≠ .sendmsg ∨ msgIovlen = 0 then false
  else
    let len : UInt64 := 16
    let result := msgIovlen * len
    result / msgIovlen ≠ len || result / len ≠ msgIovlen || result < msgIovlen || result < len

def msgArgs : List ArgRef :=
  [.point true, .integer true, .point true, .integer true, .point true, .integer true,
    .integer true]

/-- The call of `DeSerialize`, which takes a buffer size of 32 bits. -/
def deSerializeMsg (buf : List UInt8) : Option MsgFields :=
  match deSerialize msgArgs (some buf) (UInt64.ofNat buf.length).toUInt32 with
  | .ok [⟨_, .point msgName _⟩, ⟨_, .integer msgNamelen⟩, ⟨_, .point iovecBuf iovecSize⟩,
      ⟨_, .integer msgIovlen⟩, ⟨_, .point msgControl _⟩, ⟨_, .integer msgControllen⟩,
      ⟨_, .integer msgFlags⟩] =>
      some ⟨msgName, msgNamelen, iovecBuf, iovecSize, msgIovlen, msgControl, msgControllen,
        msgFlags⟩
  | _ => none

/-- Where the record is in a buffer of `n` bytes, if it is there. -/
def recordAt (iovecBuf : Option Nat) (n i : Nat) : Option Nat :=
  iovecBuf.bind fun off =>
    if off + sizeofIovec * i + sizeofIovec ≤ n then some (off + sizeofIovec * i) else none

section Records

variable (beyond : Nat → UInt64) (iovecBuf : Option Nat)

def iovLen (buf : List UInt8) (i : Nat) : UInt64 :=
  match recordAt iovecBuf buf.length i with
  | some off => .ofNat (Bytes.load 8 buf (off + 8))
  | none => beyond i

def storeIovBase (buf : List UInt8) (i : Nat) (base : UInt64) : List UInt8 :=
  match recordAt iovecBuf buf.length i with
  | some off => Bytes.store buf off (Bytes.le 8 base.toNat)
  | none => buf

/-- What a loop over the records works on: the buffer, the running sum of the lengths, the records
touched and the ranges they hold. -/
structure IovLoop where
  buf : List UInt8
  tempPos : UInt64
  touched : List Nat := []
  iov : List AddrRange := []

/-- One turn of the loops that place the ranges behind `start`. -/
def placeIov (start : UInt64) (i : UInt32) (s : IovLoop) : IovLoop :=
  let base := start + s.tempPos
  let buf := storeIovBase iovecBuf s.buf i.toNat base
  let len := iovLen beyond iovecBuf buf i.toNat
  { buf, tempPos := s.tempPos + len, touched := s.touched ++ [i.toNat], iov := s.iov ++ [⟨base, len⟩] }

/-- One turn of the loop that sums up the lengths. -/
def sumIov (i : UInt32) (s : IovLoop) : IovLoop :=
  { s with
    tempPos := s.tempPos + iovLen beyond iovecBuf s.buf i.toNat
    touched := s.touched ++ [i.toNat] }

end Records

/-- The address of a pointer into the buffer. -/
def address (bufAddr : UInt64) : Option Nat → UInt64
  | none => 0
  | some off => bufAddr + UInt64.ofNat off

def MsgFields.msg (f : MsgFields) (s : IovLoop) (ioBuf : Option AddrRange) : Msg where
  msgName := f.msgName
  msgNamelen := f.msgNamelen.toUInt32
  msgIov := s.iov
  msgIovlen := f.msgIovlen
  msgControl := f.msgControl
  msgControllen := f.msgControllen
  msgFlags := f.msgFlags.toUInt32.toInt32
  buf := s.buf
  touched := s.touched
  ioBuf := ioBuf

section Construct

variable (fuel : Nat) (mem : MsgAllocs) (bufAddr : UInt64) (beyond : Nat → UInt64)

/-- The loop of a send, over ranges that follow the array in the buffer. -/
def sendIov (f : MsgFields) (buf : List UInt8) : ConstructResult :=
  match CountedLoop.run f.msgIovlen (placeIov beyond f.iovecBuf (address bufAddr f.iovecBuf)) fuel 0
      { buf, tempPos := 16 * f.msgIovlen } with
  | none => .running
  | some s => .done (f.msg s none)

/-- The loops of a receive, over ranges in a buffer that has the sum of their lengths as its size. -/
def recvIov (f : MsgFields) (buf : List UInt8) : ConstructResult :=
  match CountedLoop.run f.msgIovlen (sumIov beyond f.iovecBuf) fuel 0 { buf, tempPos := 0 } with
  | none => .running
  | some total =>
      match mem.malloc total.tempPos with
      | none => .failed
      | some newBuf =>
          match CountedLoop.run f.msgIovlen (placeIov beyond f.iovecBuf newBuf) fuel 0
              { total with tempPos := 0 } with
          | none => .running
          | some s => .done (f.msg s (some ⟨newBuf, total.tempPos⟩))

def constructMsg (cmd : MsgCmd) (buf : List UInt8) : ConstructResult :=
  match deSerializeMsg buf with
  | none => .failed
  | some f =>
      if checkIovlenInvalid f.msgIovlen cmd then .failed
      else if !mem.hdr then .failed
      else
        match cmd with
        | .sendmsg => sendIov fuel bufAddr beyond f buf
        | .recvmsg => recvIov fuel mem beyond f buf

end Construct

/-! ### What the loops do -/

/-- The lengths that the first records hold. -/
def iovLens (beyond : Nat → UInt64) (iovecBuf : Option Nat) (buf : List UInt8) (n : Nat) :
    List UInt64 :=
  (List.range n).map (iovLen beyond iovecBuf buf)

section Loops

variable {beyond : Nat → UInt64} {iovecBuf : Option Nat} {buf : List UInt8}

theorem recordAt_eq_some {n i pos : Nat} :
    recordAt iovecBuf n i = some pos ↔
      ∃ off, iovecBuf = some off ∧ pos = off + 16 * i ∧ pos + 16 ≤ n := by
  rw [recordAt, sizeofIovec]
  constructor
  · intro h
    obtain ⟨off, hoff, h⟩ := Option.bind_eq_some_iff.mp h
    split_ifs at h with hroom
    obtain rfl := Option.some.inj h
    exact ⟨off, hoff, rfl, hroom⟩
  · rintro ⟨off, rfl, rfl, hroom⟩
    rw [Option.bind_some, if_pos hroom]

theorem length_storeIovBase (i : Nat) (base : UInt64) :
    (storeIovBase iovecBuf buf i base).length = buf.length := by
  rw [storeIovBase]
  cases hrecord : recordAt iovecBuf buf.length i with
  | none => rfl
  | some pos =>
      obtain ⟨off, -, -, hroom⟩ := recordAt_eq_some.mp hrecord
      refine Bytes.store_length ?_
      rw [Bytes.le_length]
      omega

/-- The pointer of one record overlaps the length of none. -/
theorem iovLen_storeIovBase (i j : Nat) (base : UInt64) :
    iovLen beyond iovecBuf (storeIovBase iovecBuf buf j base) i = iovLen beyond iovecBuf buf i := by
  rw [iovLen, length_storeIovBase, iovLen, storeIovBase]
  cases hwritten : recordAt iovecBuf buf.length j with
  | none => rfl
  | some pos =>
      cases hread : recordAt iovecBuf buf.length i with
      | none => rfl
      | some off =>
          obtain ⟨start, hstart, hpos, hroom⟩ := recordAt_eq_some.mp hwritten
          obtain ⟨start', hstart', hoff, hroom'⟩ := recordAt_eq_some.mp hread
          obtain rfl := Option.some.inj (hstart.symm.trans hstart')
          dsimp only
          rw [Bytes.load_store_of_disjoint]
          · rw [Bytes.le_length]
            omega
          · rw [Bytes.le_length]
            omega

theorem slice_storeIovBase {i off n : Nat} (base : UInt64)
    (h : ∀ pos, iovecBuf = some pos → off + n ≤ pos + 16 * i ∨ pos + 16 * i + 8 ≤ off) :
    Bytes.slice (storeIovBase iovecBuf buf i base) off n = Bytes.slice buf off n := by
  rw [storeIovBase]
  cases hrecord : recordAt iovecBuf buf.length i with
  | none => rfl
  | some pos =>
      obtain ⟨start, hstart, hpos, hroom⟩ := recordAt_eq_some.mp hrecord
      have hapart := h start hstart
      dsimp only
      rw [Bytes.slice_store_of_disjoint]
      · rw [Bytes.le_length]
        omega
      · rw [Bytes.le_length]
        omega

theorem iovLens_succ (n : Nat) :
    iovLens beyond iovecBuf buf (n + 1) =
      iovLens beyond iovecBuf buf n ++ [iovLen beyond iovecBuf buf n] := by
  rw [iovLens, List.range_succ, List.map_append, List.map_singleton, iovLens]

/-- What `n` turns of the summing loop leave. -/
structure Summed (beyond : Nat → UInt64) (iovecBuf : Option Nat) (before : IovLoop) (n : Nat)
    (s : IovLoop) : Prop where
  buf : s.buf = before.buf
  tempPos : s.tempPos = before.tempPos + (iovLens beyond iovecBuf before.buf n).sum
  touched : s.touched = before.touched ++ List.range n
  iov : s.iov = before.iov

theorem sumIov_run {bound : UInt64} {fuel : Nat} {before s : IovLoop}
    (h : CountedLoop.run bound (sumIov beyond iovecBuf) fuel 0 before = some s) :
    Summed beyond iovecBuf before bound.toNat s := by
  refine CountedLoop.run_invariant (Summed beyond iovecBuf before) ?_ ?_ h
  · intro i s _ hs
    refine ⟨hs.buf, ?_, ?_, hs.iov⟩
    · rw [sumIov, iovLens_succ, List.sum_append, List.sum_singleton, hs.tempPos, hs.buf,
        UInt64.add_assoc]
    · rw [sumIov, hs.touched, List.range_succ, List.append_assoc]
  · refine ⟨rfl, ?_, (List.append_nil _).symm, rfl⟩
    rw [iovLens, List.range_zero, List.map_nil, List.sum_nil, UInt64.add_zero]

/-- What `n` turns of a placing loop leave: ranges of the lengths that were in the buffer, and a buffer
in which only the pointers of the records have changed. -/
structure PlacedRanges (beyond : Nat → UInt64) (iovecBuf : Option Nat) (start : UInt64)
    (before : IovLoop) (n : Nat) (s : IovLoop) : Prop where
  tempPos : s.tempPos = before.tempPos + (iovLens beyond iovecBuf before.buf n).sum
  touched : s.touched = before.touched ++ List.range n
  iov : s.iov = before.iov ++ AddrRange.layOut (start + before.tempPos)
    (iovLens beyond iovecBuf before.buf n)
  lens : ∀ i, iovLen beyond iovecBuf s.buf i = iovLen beyond iovecBuf before.buf i
  frame : ∀ off m, (∀ pos, iovecBuf = some pos → off + m ≤ pos ∨ pos + 16 * n ≤ off) →
    Bytes.slice s.buf off m = Bytes.slice before.buf off m

theorem placeIov_run {bound start : UInt64} {fuel : Nat} {before s : IovLoop}
    (h : CountedLoop.run bound (placeIov beyond iovecBuf start) fuel 0 before = some s) :
    PlacedRanges beyond iovecBuf start before bound.toNat s := by
  refine CountedLoop.run_invariant (PlacedRanges beyond iovecBuf start before) ?_ ?_ h
  · intro i s _ hs
    have hlen : iovLen beyond iovecBuf
        (storeIovBase iovecBuf s.buf i.toNat (start + s.tempPos)) i.toNat =
          iovLen beyond iovecBuf before.buf i.toNat := by
      rw [iovLen_storeIovBase, hs.lens]
    refine ⟨?_, ?_, ?_, ?_, ?_⟩
    · rw [placeIov, iovLens_succ, List.sum_append, List.sum_singleton, hlen, hs.tempPos,
        UInt64.add_assoc]
    · rw [placeIov, hs.touched, List.range_succ, List.append_assoc]
    · show s.iov ++ [⟨start + s.tempPos, iovLen beyond iovecBuf
        (storeIovBase iovecBuf s.buf i.toNat (start + s.tempPos)) i.toNat⟩] = _
      rw [hlen, iovLens_succ, AddrRange.layOut_concat, hs.iov, hs.tempPos, List.append_assoc,
        UInt64.add_assoc]
    · intro j
      rw [placeIov, iovLen_storeIovBase, hs.lens]
    · intro off m hapart
      rw [placeIov, slice_storeIovBase, hs.frame]
      · intro pos hpos
        have h := hapart pos hpos
        omega
      · intro pos hpos
        have h := hapart pos hpos
        omega
  · refine ⟨?_, (List.append_nil _).symm, (List.append_nil _).symm, fun _ => rfl,
      fun _ _ _ => rfl⟩
    rw [iovLens, List.range_zero, List.map_nil, List.sum_nil, UInt64.add_zero]

end Loops

/-! ### The two modes -/

section Modes

variable {fuel : Nat} {mem : MsgAllocs} {bufAddr : UInt64} {beyond : Nat → UInt64} {f : MsgFields}
  {buf : List UInt8} {msg : Msg}

/-- The lengths of the records of a message. -/
def MsgFields.lens (f : MsgFields) (beyond : Nat → UInt64) (buf : List UInt8) : List UInt64 :=
  iovLens beyond f.iovecBuf buf f.msgIovlen.toNat

theorem sendIov_done (h : sendIov fuel bufAddr beyond f buf = .done msg) :
    ∃ s, msg = f.msg s none ∧ PlacedRanges beyond f.iovecBuf (address bufAddr f.iovecBuf)
      { buf, tempPos := 16 * f.msgIovlen } f.msgIovlen.toNat s := by
  rw [sendIov] at h
  cases hrun : CountedLoop.run f.msgIovlen
      (placeIov beyond f.iovecBuf (address bufAddr f.iovecBuf)) fuel 0
      { buf, tempPos := 16 * f.msgIovlen } with
  | none =>
      rw [hrun] at h
      cases h
  | some s =>
      rw [hrun] at h
      exact ⟨s, (ConstructResult.done.inj h).symm, placeIov_run hrun⟩

theorem recvIov_done (h : recvIov fuel mem beyond f buf = .done msg) :
    ∃ newBuf s, mem.malloc (f.lens beyond buf).sum = some newBuf ∧
      msg = f.msg s (some ⟨newBuf, (f.lens beyond buf).sum⟩) ∧
        PlacedRanges beyond f.iovecBuf newBuf
          { buf, tempPos := 0, touched := List.range f.msgIovlen.toNat } f.msgIovlen.toNat s := by
  rw [recvIov] at h
  cases hsum : CountedLoop.run f.msgIovlen (sumIov beyond f.iovecBuf) fuel 0
      { buf, tempPos := 0 } with
  | none =>
      rw [hsum] at h
      cases h
  | some total =>
      have hsummed := sumIov_run hsum
      have htotal : total =
          ⟨buf, (f.lens beyond buf).sum, List.range f.msgIovlen.toNat, []⟩ := by
        obtain ⟨hbuf, htempPos, htouched, hiov⟩ := hsummed
        rw [UInt64.zero_add] at htempPos
        rw [List.nil_append] at htouched
        obtain ⟨buf', tempPos, touched, iov⟩ := total
        simp only at hbuf htempPos htouched hiov
        rw [hbuf, htempPos, htouched, hiov]
        rfl
      rw [hsum, htotal] at h
      dsimp only at h
      cases hmalloc : mem.malloc (f.lens beyond buf).sum with
      | none =>
          rw [hmalloc] at h
          cases h
      | some newBuf =>
          rw [hmalloc] at h
          dsimp only at h
          cases hrun : CountedLoop.run f.msgIovlen (placeIov beyond f.iovecBuf newBuf) fuel 0
              { buf, tempPos := 0, touched := List.range f.msgIovlen.toNat } with
          | none =>
              rw [hrun] at h
              cases h
          | some s =>
              rw [hrun] at h
              exact ⟨newBuf, s, rfl, (ConstructResult.done.inj h).symm, placeIov_run hrun⟩

/-- With enough iterations the loop of a send ends. -/
theorem sendIov_ends (bufAddr : UInt64) (beyond : Nat → UInt64) (buf : List UInt8)
    (hcount : f.msgIovlen.toNat < 2 ^ 32) :
    ∃ msg, sendIov f.msgIovlen.toNat bufAddr beyond f buf = .done msg := by
  have hsome : (CountedLoop.run f.msgIovlen
      (placeIov beyond f.iovecBuf (address bufAddr f.iovecBuf)) f.msgIovlen.toNat 0
      { buf, tempPos := 16 * f.msgIovlen }).isSome :=
    CountedLoop.run_isSome hcount (Nat.le_add_left _ _) _
  obtain ⟨s, hs⟩ := Option.isSome_iff_exists.mp hsome
  exact ⟨f.msg s none, by rw [sendIov, hs]⟩

/-- With enough iterations a receive makes a message if the allocation succeeds, and fails if not. -/
theorem recvIov_ends (mem : MsgAllocs) (beyond : Nat → UInt64) (buf : List UInt8)
    (hcount : f.msgIovlen.toNat < 2 ^ 32) (hfuel : f.msgIovlen.toNat ≤ fuel) :
    recvIov fuel mem beyond f buf ≠ .running ∧
      ((mem.malloc (f.lens beyond buf).sum).isSome →
        ∃ msg, recvIov fuel mem beyond f buf = .done msg) := by
  have hends : ∀ (body : UInt32 → IovLoop → IovLoop) (s : IovLoop),
      (CountedLoop.run f.msgIovlen body fuel 0 s).isSome :=
    fun body s => CountedLoop.run_isSome hcount (hfuel.trans (Nat.le_add_left _ _)) s
  obtain ⟨total, hsum⟩ := Option.isSome_iff_exists.mp
    (hends (sumIov beyond f.iovecBuf) { buf, tempPos := 0 })
  have htotal : total.tempPos = (f.lens beyond buf).sum := by
    rw [(sumIov_run hsum).tempPos, UInt64.zero_add]
    rfl
  rw [recvIov, hsum]
  dsimp only
  rw [htotal]
  cases hmalloc : mem.malloc (f.lens beyond buf).sum with
  | none => exact ⟨ConstructResult.noConfusion, fun h => by cases h⟩
  | some newBuf =>
      obtain ⟨s, hs⟩ := Option.isSome_iff_exists.mp
        (hends (placeIov beyond f.iovecBuf newBuf) { total with tempPos := 0 })
      dsimp only
      rw [hs]
      exact ⟨ConstructResult.noConfusion, fun _ => ⟨_, rfl⟩⟩

/-- With more records than the counter can count, no number of iterations is enough. -/
theorem sendIov_running (hcount : 2 ^ 32 ≤ f.msgIovlen.toNat) :
    sendIov fuel bufAddr beyond f buf = .running := by
  rw [sendIov, CountedLoop.run_eq_none hcount]

theorem recvIov_running (hcount : 2 ^ 32 ≤ f.msgIovlen.toNat) :
    recvIov fuel mem beyond f buf = .running := by
  rw [recvIov, CountedLoop.run_eq_none hcount]

end Modes

end ITrustee.Teleport
