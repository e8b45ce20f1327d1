import Mathlib
import ITrustee.Teleport.MsgHdr

/-!
# Where the records and ranges of a message lie

The number of records, the size of their array and the lengths in them come from the other side, each
on its own. A send checks that the number times the size of a record does not overflow; a receive
checks nothing; neither looks at the size of the array. `constructMsg_safe_iff` says what has to be
true of these numbers for the records and the ranges to be where they belong.
-/

namespace ITrustee.Teleport

open Serialize

/-! ### Records and ranges -/

/-- The record lies in the bytes of the buffer that were decoded for the array. -/
def RecordInside (f : MsgFields) (n i : Nat) : Prop :=
  ∃ off, f.iovecBuf = some off ∧ 16 * i + 16 ≤ f.iovecSize ∧ off + 16 * i + 16 ≤ n

structure Msg.Safe (msg : Msg) (cmd : MsgCmd) (bufAddr : UInt64) (n : Nat) (f : MsgFields) :
    Prop where
  records : ∀ i ∈ msg.touched, RecordInside f n i
  send : cmd = .sendmsg →
    ∀ r ∈ msg.msgIov, r.bytes ⊆ Set.Ico bufAddr.toNat (bufAddr.toNat + n)
  recv : cmd = .recvmsg → ∃ ioBuf, msg.ioBuf = some ioBuf ∧
    (∀ r ∈ msg.msgIov, r.bytes ⊆ ioBuf.bytes) ∧
      msg.msgIov.Pairwise fun r r' => Disjoint r.bytes r'.bytes

section Construct

variable (mem : MsgAllocs) (bufAddr : UInt64) (beyond : Nat → UInt64) (cmd : MsgCmd)
  (buf : List UInt8)

/-- The loops end, and when a message is made of the buffer, all of it is where it belongs. -/
def ConstructSafe : Prop :=
  (∃ fuel, constructMsg fuel mem bufAddr beyond cmd buf ≠ .running) ∧
    ∀ fuel msg, constructMsg fuel mem bufAddr beyond cmd buf = .done msg →
      ∃ f, deSerializeMsg buf = some f ∧ msg.Safe cmd bufAddr buf.length f

/-- The array has room for the records, and the buffer for the array and `extra` bytes behind its
records. -/
def ArrayHolds (f : MsgFields) (n extra : Nat) : Prop :=
  f.msgIovlen = 0 ∨ ∃ off, f.iovecBuf = some off ∧ 16 * f.msgIovlen.toNat ≤ f.iovecSize ∧
    off + 16 * f.msgIovlen.toNat + extra ≤ n

/-- What the loops need: a number of records in the range of their counter, an array that holds them,
and lengths whose sum stays in the buffer of a send, or in the range of `size_t` for a receive. -/
def LoopsFit (f : MsgFields) : Prop :=
  f.msgIovlen.toNat < 2 ^ 32 ∧
    match cmd with
    | .sendmsg => ArrayHolds f buf.length (AddrRange.total (f.lens beyond buf))
    | .recvmsg => (mem.malloc (f.lens beyond buf).sum).isSome →
        ArrayHolds f buf.length 0 ∧ AddrRange.total (f.lens beyond buf) < 2 ^ 64

/-- What is decoded fits, unless the request is refused before the loops. -/
def MessageFits : Prop :=
  ∀ f, deSerializeMsg buf = some f → checkIovlenInvalid f.msgIovlen cmd = false → mem.hdr = true →
    LoopsFit mem beyond cmd buf f

end Construct

section Safe

variable {mem : MsgAllocs} {bufAddr : UInt64} {beyond : Nat → UInt64} {buf : List UInt8}
  {f : MsgFields}

theorem arrayHolds_iff {n : Nat} :
    ArrayHolds f n 0 ↔ ∀ i ∈ List.range f.msgIovlen.toNat, RecordInside f n i := by
  rw [ArrayHolds]
  constructor
  · rintro (hzero | ⟨off, hoff, hsize, hroom⟩) i hi
    · rw [hzero] at hi
      cases hi
    · have hlt := List.mem_range.mp hi
      exact ⟨off, hoff, by omega, by omega⟩
  · intro hall
    by_cases hzero : f.msgIovlen.toNat = 0
    · exact Or.inl (UInt64.toNat_inj.mp hzero)
    · obtain ⟨off, hoff, hsize, hroom⟩ :=
        hall (f.msgIovlen.toNat - 1) (List.mem_range.mpr (by omega))
      exact Or.inr ⟨off, hoff, by omega, by omega⟩

/-- The ranges of a send follow the array in the buffer. -/
theorem send_ranges_iff (hbuf : bufAddr.toNat + buf.length < 2 ^ 64)
    (hcount : f.msgIovlen.toNat < 2 ^ 32) (harray : ArrayHolds f buf.length 0) (lens : List UInt64)
    (hlens : lens.length = f.msgIovlen.toNat) :
    (∀ r ∈ AddrRange.layOut (address bufAddr f.iovecBuf + 16 * f.msgIovlen) lens,
      r.bytes ⊆ Set.Ico bufAddr.toNat (bufAddr.toNat + buf.length)) ↔
      ArrayHolds f buf.length (AddrRange.total lens) := by
  obtain hzero | ⟨off, hoff, hsize, hroom⟩ := harray
  · rw [hzero] at hlens
    obtain rfl := List.length_eq_zero_iff.mp hlens
    exact iff_of_true (fun r hr => absurd hr List.not_mem_nil) (Or.inl hzero)
  · have hbase : (address bufAddr f.iovecBuf + 16 * f.msgIovlen).toNat =
        bufAddr.toNat + off + 16 * f.msgIovlen.toNat := by
      have hsixteen : (16 : UInt64).toNat = 16 := rfl
      rw [hoff, address, UInt64.toNat_add, UInt64.toNat_add, UInt64.toNat_mul,
        UInt64.toNat_ofNat', hsixteen]
      omega
    rw [AddrRange.layOut_inside_iff (by omega) (by omega) hbuf, hbase, ArrayHolds]
    constructor
    · exact fun h => Or.inr ⟨off, hoff, hsize, by omega⟩
    · rintro (hzero | ⟨off', hoff', -, hend⟩)
      · rw [hzero] at hlens
        obtain rfl := List.length_eq_zero_iff.mp hlens
        have htotal : AddrRange.total [] = 0 := rfl
        omega
      · obtain rfl := Option.some.inj (hoff.symm.trans hoff')
        omega

theorem length_lens : (f.lens beyond buf).length = f.msgIovlen.toNat := by
  rw [MsgFields.lens, iovLens, List.length_map, List.length_range]

theorem ArrayHolds.mono {n extra : Nat} (h : ArrayHolds f n extra) : ArrayHolds f n 0 := by
  obtain hzero | ⟨off, hoff, hsize, hroom⟩ := h
  · exact Or.inl hzero
  · exact Or.inr ⟨off, hoff, hsize, by omega⟩

theorem sendIov_safe_iff (hbuf : bufAddr.toNat + buf.length < 2 ^ 64)
    (hcount : f.msgIovlen.toNat < 2 ^ 32) {fuel : Nat} {msg : Msg}
    (hdone : sendIov fuel bufAddr beyond f buf = .done msg) :
    msg.Safe .sendmsg bufAddr buf.length f ↔
      ArrayHolds f buf.length (AddrRange.total (f.lens beyond buf)) := by
  obtain ⟨s, rfl, hplaced⟩ := sendIov_done hdone
  have htouched : s.touched = List.range f.msgIovlen.toNat := hplaced.touched
  have hiov : s.iov =
      AddrRange.layOut (address bufAddr f.iovecBuf + 16 * f.msgIovlen) (f.lens beyond buf) :=
    hplaced.iov
  have hranges := fun harray : ArrayHolds f buf.length 0 =>
    send_ranges_iff hbuf hcount harray (f.lens beyond buf) length_lens
  constructor
  · intro h
    have hrecords := h.records
    have hsend := h.send rfl
    rw [MsgFields.msg, htouched] at hrecords
    rw [MsgFields.msg, hiov] at hsend
    exact (hranges (arrayHolds_iff.mpr hrecords)).mp hsend
  · intro h
    refine ⟨?_, fun _ => ?_, MsgCmd.noConfusion⟩
    · rw [MsgFields.msg, htouched]
      exact arrayHolds_iff.mp h.mono
    · rw [MsgFields.msg, hiov]
      exact (hranges h.mono).mpr h

theorem recvIov_safe_iff
    (hmalloc : ∀ size a, mem.malloc size = some a → a.toNat + size.toNat < 2 ^ 64)
    {fuel : Nat} {msg : Msg} (hdone : recvIov fuel mem beyond f buf = .done msg) :
    msg.Safe .recvmsg bufAddr buf.length f ↔
      ArrayHolds f buf.length 0 ∧ AddrRange.total (f.lens beyond buf) < 2 ^ 64 := by
  obtain ⟨newBuf, s, hnew, rfl, hplaced⟩ := recvIov_done hdone
  have htouched : s.touched = List.range f.msgIovlen.toNat ++ List.range f.msgIovlen.toNat :=
    hplaced.touched
  have hiov : s.iov = AddrRange.layOut newBuf (f.lens beyond buf) := by
    have h := hplaced.iov
    rwa [UInt64.add_zero, List.nil_append] at h
  have hroom := hmalloc _ _ hnew
  have hsum := AddrRange.toNat_sum (f.lens beyond buf)
  have hinside : (∀ r ∈ AddrRange.layOut newBuf (f.lens beyond buf),
      r.bytes ⊆ AddrRange.bytes ⟨newBuf, (f.lens beyond buf).sum⟩) ↔
        newBuf.toNat + AddrRange.total (f.lens beyond buf) ≤
          newBuf.toNat + (f.lens beyond buf).sum.toNat :=
    AddrRange.layOut_inside_iff le_rfl (Nat.le_add_right _ _) hroom
  constructor
  · intro h
    have hrecords := h.records
    obtain ⟨ioBuf, hioBuf, hsubset, -⟩ := h.recv rfl
    obtain rfl := Option.some.inj hioBuf
    rw [MsgFields.msg, htouched] at hrecords
    rw [MsgFields.msg, hiov] at hsubset
    have hend := hinside.mp hsubset
    exact ⟨arrayHolds_iff.mpr fun i hi => hrecords i (List.mem_append_left _ hi), by omega⟩
  · rintro ⟨harray, htotal⟩
    rw [Nat.mod_eq_of_lt htotal] at hsum
    refine ⟨?_, MsgCmd.noConfusion, fun _ => ⟨_, rfl, ?_, ?_⟩⟩
    · rw [MsgFields.msg, htouched]
      intro i hi
      exact arrayHolds_iff.mp harray i ((List.mem_append.mp hi).elim id id)
    · rw [MsgFields.msg, hiov]
      exact hinside.mpr (by omega)
    · rw [MsgFields.msg, hiov]
      exact AddrRange.layOut_disjoint (by omega)

theorem sendIov_fit_iff (hbuf : bufAddr.toNat + buf.length < 2 ^ 64) :
    ((∃ fuel, sendIov fuel bufAddr beyond f buf ≠ .running) ∧
      ∀ fuel msg, sendIov fuel bufAddr beyond f buf = .done msg →
        msg.Safe .sendmsg bufAddr buf.length f) ↔ LoopsFit mem beyond .sendmsg buf f := by
  rw [LoopsFit]
  by_cases hcount : f.msgIovlen.toNat < 2 ^ 32
  · obtain ⟨msg, hdone⟩ := sendIov_ends bufAddr beyond buf hcount
    constructor
    · exact fun h => ⟨hcount, (sendIov_safe_iff hbuf hcount hdone).mp (h.2 _ msg hdone)⟩
    · intro h
      refine ⟨⟨f.msgIovlen.toNat, ?_⟩,
        fun fuel msg hmsg => (sendIov_safe_iff hbuf hcount hmsg).mpr h.2⟩
      rw [hdone]
      exact ConstructResult.noConfusion
  · refine iff_of_false ?_ fun h => hcount h.1
    rintro ⟨⟨fuel, hruns⟩, -⟩
    exact hruns (sendIov_running (not_lt.mp hcount))

theorem recvIov_fit_iff
    (hmalloc : ∀ size a, mem.malloc size = some a → a.toNat + size.toNat < 2 ^ 64) :
    ((∃ fuel, recvIov fuel mem beyond f buf ≠ .running) ∧
      ∀ fuel msg, recvIov fuel mem beyond f buf = .done msg →
        msg.Safe .recvmsg bufAddr buf.length f) ↔ LoopsFit mem beyond .recvmsg buf f := by
  rw [LoopsFit]
  by_cases hcount : f.msgIovlen.toNat < 2 ^ 32
  · obtain ⟨hends, hmakes⟩ := recvIov_ends mem beyond buf hcount le_rfl
    constructor
    · intro h
      refine ⟨hcount, fun hsome => ?_⟩
      obtain ⟨msg, hdone⟩ := hmakes hsome
      exact (recvIov_safe_iff hmalloc hdone).mp (h.2 _ msg hdone)
    · intro h
      refine ⟨⟨f.msgIovlen.toNat, hends⟩, fun fuel msg hdone => ?_⟩
      obtain ⟨newBuf, s, hnew, -, -⟩ := recvIov_done hdone
      exact (recvIov_safe_iff hmalloc hdone).mpr (h.2 (Option.isSome_of_eq_some hnew))
  · refine iff_of_false ?_ fun h => hcount h.1
    rintro ⟨⟨fuel, hruns⟩, -⟩
    exact hruns (recvIov_running (not_lt.mp hcount))

end Safe

/-- Whatever the buffer holds, the loops end and keep the records and the ranges where they belong
exactly when the numbers in the message fit. -/
theorem constructMsg_safe_iff (mem : MsgAllocs) (bufAddr : UInt64) (beyond : Nat → UInt64)
    (cmd : MsgCmd) (buf : List UInt8) (hbuf : bufAddr.toNat + buf.length < 2 ^ 64)
    (hmalloc : ∀ size a, mem.malloc size = some a → a.toNat + size.toNat < 2 ^ 64) :
    ConstructSafe mem bufAddr beyond cmd buf ↔ MessageFits mem beyond cmd buf := by
  have hrefused : ∀ P : Nat → Msg → Prop,
      (∃ _ : Nat, ConstructResult.failed ≠ .running) ∧
        ∀ fuel msg, ConstructResult.failed = .done msg → P fuel msg :=
    fun P => ⟨⟨0, ConstructResult.noConfusion⟩, fun fuel msg h => by cases h⟩
  rw [ConstructSafe, MessageFits]
  simp only [constructMsg]
  cases hdecode : deSerializeMsg buf with
  | none => exact iff_of_true (hrefused _) fun f h => by cases h
  | some f =>
      simp only [Option.some.injEq, exists_eq_left', forall_eq']
      by_cases hcheck : checkIovlenInvalid f.msgIovlen cmd = true
      · rw [hcheck]
        exact iff_of_true (hrefused _) fun h => by cases h
      · cases hhdr : mem.hdr with
        | false =>
            simp only [hcheck]
            exact iff_of_true (hrefused _) fun _ h => by cases h
        | true =>
            simp only [hcheck, Bool.not_true, Bool.false_eq_true, if_false, forall_const]
            cases cmd with
            | sendmsg => exact sendIov_fit_iff hbuf
            | recvmsg => exact recvIov_fit_iff hmalloc

/-- A message without name and control data, with an array of these bytes and a number of records. -/
def iovMessage (array : List UInt8) (msgIovlen : Nat) : List UInt8 :=
  Bytes.le 4 7 ++ (Bytes.le 8 pointType ++ Bytes.le 8 0) ++
    (Bytes.le 8 integerType ++ Bytes.le 8 0) ++
    (Bytes.le 8 pointType ++ Bytes.le 8 array.length ++ array) ++
    (Bytes.le 8 integerType ++ Bytes.le 8 msgIovlen) ++
    (Bytes.le 8 pointType ++ Bytes.le 8 0) ++
    (Bytes.le 8 integerType ++ Bytes.le 8 0) ++ (Bytes.le 8 integerType ++ Bytes.le 8 0)

/-- One record of length 3, and the bytes of its range. -/
def oneRecord : List UInt8 := Bytes.le 8 0 ++ Bytes.le 8 3 ++ [1, 2, 3]

/-- Every allocation gets the same page. -/
def pageAllocs : MsgAllocs where
  hdr := true
  malloc size := if size ≤ 0x1000 then some 0x9000 else none

theorem pageAllocs_room (size a : UInt64) (h : pageAllocs.malloc size = some a) :
    a.toNat + size.toNat < 2 ^ 64 := by
  rw [pageAllocs] at h
  dsimp only at h
  split_ifs at h with hsize
  obtain rfl := Option.some.inj h
  have hle := UInt64.le_iff_toNat_le.mp hsize
  exact lt_of_le_of_lt (Nat.add_le_add_left hle _) (by decide)

theorem oneRecord_safe :
    ConstructSafe pageAllocs 0x7000 (fun _ => 0) .sendmsg (iovMessage oneRecord 1) := by
  have hlength : (0x7000 : UInt64).toNat + (iovMessage oneRecord 1).length < 2 ^ 64 := by
    decide +kernel
  have hdecode : deSerializeMsg (iovMessage oneRecord 1) =
      some ⟨none, 0, some 52, 19, 1, none, 0, 0⟩ := by decide +kernel
  refine (constructMsg_safe_iff pageAllocs 0x7000 (fun _ => 0) .sendmsg (iovMessage oneRecord 1)
    hlength pageAllocs_room).mpr ?_
  intro f hf _ _
  obtain rfl := Option.some.inj (hdecode.symm.trans hf)
  refine ⟨by decide, Or.inr ⟨52, rfl, by decide, ?_⟩⟩
  decide +kernel

/-- Two records in an array of one: the second is the header of the number that says so. -/
theorem twoRecords_outside :
    ¬ ConstructSafe pageAllocs 0x7000 (fun _ => 0) .recvmsg
      (iovMessage (Bytes.le 8 0 ++ Bytes.le 8 3) 2) := by
  have hdecode : deSerializeMsg (iovMessage (Bytes.le 8 0 ++ Bytes.le 8 3) 2) =
      some ⟨none, 0, some 52, 16, 2, none, 0, 0⟩ := by decide +kernel
  have htouched : (match constructMsg 2 pageAllocs 0x7000 (fun _ => 0) .recvmsg
      (iovMessage (Bytes.le 8 0 ++ Bytes.le 8 3) 2) with
    | .done msg => msg.touched
    | _ => []) = [0, 1, 0, 1] := by decide +kernel
  rintro ⟨-, hsafe⟩
  cases hmsg : constructMsg 2 pageAllocs 0x7000 (fun _ => 0) .recvmsg
      (iovMessage (Bytes.le 8 0 ++ Bytes.le 8 3) 2) with
  | running =>
      rw [hmsg] at htouched
      cases htouched
  | failed =>
      rw [hmsg] at htouched
      cases htouched
  | done msg =>
      rw [hmsg] at htouched
      have hrecords : msg.touched = [0, 1, 0, 1] := htouched
      obtain ⟨f, hf, hall⟩ := hsafe 2 msg hmsg
      obtain rfl := Option.some.inj (hdecode.symm.trans hf)
      obtain ⟨off, -, hsize, -⟩ := hall.records 1 (by rw [hrecords]; decide)
      exact absurd hsize (by decide)

end ITrustee.Teleport
