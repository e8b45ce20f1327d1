import Mathlib
import ITrustee.Teleport.MsgHdr
import ITrustee.Teleport.SerializeRoundTrip

/-!
# Message headers there and back

`SerializeMsgBuf` writes what `recvmsg` left in a `struct msghdr` into the buffer of the request, with
the lengths of the records only. What it writes is the message for seven values, so the theorems on
`Serialize` and `DeSerialize` apply, and `ConstructMsg` finds the same name, lengths, control data and
flags in it. A header that cannot be sent, with a null pointer that has a length or with more data than
fits, is refused by one of the calls.
-/

namespace ITrustee.Teleport

open CInt Serialize

/-! ### Data -/

/-- `struct msghdr`, of the records the lengths; a pointer that is not null is the bytes found at it. -/
structure MsgHdr where
  msgName : Option (List UInt8)
  msgNamelen : UInt32
  msgIov : List UInt64
  msgIovlen : UInt64
  msgControl : Option (List UInt8)
  msgControllen : UInt64
  msgFlags : Int32
  name_length : ∀ name, msgName = some name → name.length = msgNamelen.toNat
  iov_length : msgIov.length = msgIovlen.toNat
  control_length : ∀ control, msgControl = some control → control.length = msgControllen.toNat

/-- The bytes a pointer of a message points to. -/
def bytesAt (buf : List UInt8) (ptr : Option Nat) (n : Nat) : List UInt8 :=
  match ptr with
  | none => []
  | some off => Bytes.slice buf off n

/-- The message carries what the header did. -/
structure MsgHdr.RecoveredBy (m : MsgHdr) (msg : Msg) : Prop where
  namelen : msg.msgNamelen = m.msgNamelen
  name : bytesAt msg.buf msg.msgName m.msgNamelen.toNat = m.msgName.getD []
  iovlen : msg.msgIovlen = m.msgIovlen
  iov : msg.msgIov.map AddrRange.len = m.msgIov
  controllen : msg.msgControllen = m.msgControllen
  control : bytesAt msg.buf msg.msgControl m.msgControllen.toNat = m.msgControl.getD []
  flags : msg.msgFlags = m.msgFlags

/-! ### SerializeMsgBuf -/

/-- `memset_s` of a whole allocation to 0, which does nothing on a size it does not accept. -/
def memsetS (mem : List UInt8) : List UInt8 :=
  if 0 < mem.length ∧ mem.length ≤ Securec.maxLen then List.replicate mem.length 0 else mem

/-- One turn of the loop that writes the lengths; a write behind the array is not followed. -/
def storeIovLen (lens : List UInt64) (i : UInt32) (iovecBuf : List UInt8) : List UInt8 :=
  if sizeofIovec * i.toNat + sizeofIovec ≤ iovecBuf.length then
    Bytes.store iovecBuf (sizeofIovec * i.toNat + 8) (Bytes.le 8 (lens.getD i.toNat 0).toNat)
  else iovecBuf

def MsgHdr.args (m : MsgHdr) (iovecBuf : List UInt8) (iovecSize : Nat) : List Arg :=
  [.point m.msgName m.msgNamelen.toNat, .integer m.msgNamelen.toUInt64,
    .point (some iovecBuf) iovecSize, .integer m.msgIovlen,
    .point m.msgControl m.msgControllen.toNat, .integer m.msgControllen,
    .integer m.msgFlags.toInt64.toUInt64]

/-- `SerializeMsgBuf` when its allocations succeed, with `malloc` for what is in them: the result and
the buffer, `none` while the loop is not over. -/
def serializeMsgBuf (fuel : Nat) (lib : Securec) (malloc : Nat → List UInt8) (m : MsgHdr)
    (buf : List UInt8) (bufLen : UInt32) : Option (Int × List UInt8) :=
  let iovecSize := u32 (u64 (m.msgIovlen.toNat * sizeofIovec))
  match CountedLoop.run m.msgIovlen (storeIovLen m.msgIov) fuel 0 (memsetS (malloc iovecSize)) with
  | none => none
  | some iovecBuf =>
      let (ret, msgSize) := calculateBuffSize (m.args iovecBuf iovecSize)
      if ret ≠ 0 then some (ret, buf)
      else
        let (ret, msgBuf) := serialize lib (m.args iovecBuf iovecSize)
          (some (memsetS (malloc msgSize))) (UInt32.ofNat msgSize)
        if ret < 0 then some (ret, buf)
        else
          let (err, buf) := lib.memcpyS buf bufLen.toNat msgBuf msgSize
          if err ≠ 0 then some (-1, buf) else some (ret, buf)

/-! ### What is written -/

theorem length_memsetS (mem : List UInt8) : (memsetS mem).length = mem.length := by
  rw [memsetS]
  split_ifs
  · exact List.length_replicate
  · rfl

/-- The array holds the first lengths. -/
def HoldsLens (lens : List UInt64) (size n : Nat) (iovecBuf : List UInt8) : Prop :=
  iovecBuf.length = size ∧
    ∀ i < n, Bytes.load 8 iovecBuf (16 * i + 8) = (lens.getD i 0).toNat

theorem storeIovLen_run {lens : List UInt64} {bound : UInt64} {fuel : Nat}
    {before iovecBuf : List UInt8} (hroom : 16 * bound.toNat ≤ before.length)
    (h : CountedLoop.run bound (storeIovLen lens) fuel 0 before = some iovecBuf) :
    HoldsLens lens before.length bound.toNat iovecBuf := by
  refine CountedLoop.run_invariant (HoldsLens lens before.length) ?_ ?_ h
  · rintro i s hi ⟨hlength, hlens⟩
    have hstore : 16 * i.toNat + 8 + (Bytes.le 8 (lens.getD i.toNat 0).toNat).length ≤
        s.length := by
      rw [Bytes.le_length]
      omega
    rw [storeIovLen, sizeofIovec, if_pos (by omega)]
    refine ⟨by rw [Bytes.store_length hstore, hlength], fun j hj => ?_⟩
    by_cases hlast : j = i.toNat
    · rw [hlast, Bytes.load_store_le _ (by omega)]
      exact Nat.mod_eq_of_lt (lens.getD i.toNat 0).toNat_lt
    · rw [Bytes.load_store_of_disjoint hstore, hlens j (by omega)]
      rw [Bytes.le_length]
      omega
  · exact ⟨rfl, fun i hi => absurd hi (Nat.not_lt_zero i)⟩

/-- A pointer that may be null. -/
def ptrValue : Option (List UInt8) → Value
  | none => .null
  | some content => .bytes content

def MsgHdr.values (m : MsgHdr) (iovecBuf : List UInt8) : List Value :=
  [ptrValue m.msgName, .integer m.msgNamelen.toUInt64, .bytes iovecBuf, .integer m.msgIovlen,
    ptrValue m.msgControl, .integer m.msgControllen, .integer m.msgFlags.toInt64.toUInt64]

theorem ptrValue_arg {addr : Option (List UInt8)} {size : Nat}
    (hlength : ∀ content, addr = some content → content.length = size)
    (hnull : addr = none → size = 0) : (ptrValue addr).arg = .point addr size := by
  cases addr with
  | none => rw [hnull rfl, ptrValue, Value.arg]
  | some content => rw [ptrValue, Value.arg, hlength content rfl]

section Sent

variable {lib : Securec} {m : MsgHdr} {iovecBuf dest : List UInt8} {n : UInt32}

/-- A header that `Serialize` accepts has no null pointer with a length. -/
theorem nulls_of_serialize (hlib : lib.CopiesWithinMax) (hn : n.toNat = dest.length)
    (hmax : dest.length ≤ Securec.maxLen)
    (h : (serialize lib (m.args iovecBuf iovecBuf.length) (some dest) n).1 = 0) :
    (m.msgName = none → m.msgNamelen.toNat = 0) ∧
      (m.msgControl = none → m.msgControllen.toNat = 0) := by
  have hname : m.msgName = none → m.msgNamelen.toNat = 0 := by
    intro hnone
    by_contra hsize
    rw [MsgHdr.args, hnone] at h
    exact serialize_null_ne hlib [] hsize _ dest n hn hmax h
  refine ⟨hname, fun hnone => ?_⟩
  by_contra hsize
  have hbefore : m.args iovecBuf iovecBuf.length =
      [ptrValue m.msgName, .integer m.msgNamelen.toUInt64, .bytes iovecBuf,
          .integer m.msgIovlen].map Value.arg ++
        .point none m.msgControllen.toNat ::
          [.integer m.msgControllen, .integer m.msgFlags.toInt64.toUInt64] := by
    rw [MsgHdr.args, hnone, List.map_cons, ptrValue_arg m.name_length hname]
    rfl
  rw [hbefore] at h
  exact serialize_null_ne hlib _ hsize _ dest n hn hmax h

theorem args_eq (hname : m.msgName = none → m.msgNamelen.toNat = 0)
    (hcontrol : m.msgControl = none → m.msgControllen.toNat = 0) :
    m.args iovecBuf iovecBuf.length = (m.values iovecBuf).map Value.arg := by
  rw [MsgHdr.values, List.map_cons, ptrValue_arg m.name_length hname]
  simp only [List.map_cons, List.map_nil, ptrValue_arg m.control_length hcontrol]
  rfl

/-- What `Serialize` leaves in an allocation of the size that `CalculateBuffSize` computes. -/
theorem message_of_serialize (hlib : lib.CopiesWithinMax)
    (hsize : dest.length = (calculateBuffSize (m.args iovecBuf iovecBuf.length)).2)
    (hmax : (calculateBuffSize (m.args iovecBuf iovecBuf.length)).2 ≤ Securec.maxLen)
    (h : (serialize lib (m.args iovecBuf iovecBuf.length) (some dest)
      (UInt32.ofNat (calculateBuffSize (m.args iovecBuf iovecBuf.length)).2)).1 = 0) :
    (calculateBuffSize (m.args iovecBuf iovecBuf.length)).2 = totalSize (m.values iovecBuf) ∧
      (serialize lib (m.args iovecBuf iovecBuf.length) (some dest)
        (UInt32.ofNat (calculateBuffSize (m.args iovecBuf iovecBuf.length)).2)).2 =
          message (m.values iovecBuf) := by
  have hbound : Securec.maxLen < 2 ^ 32 := by decide
  rw [← hsize] at hmax h ⊢
  have hn : (UInt32.ofNat dest.length).toNat = dest.length :=
    UInt32.toNat_ofNat_of_lt' (lt_of_le_of_lt hmax (by decide))
  obtain ⟨hname, hcontrol⟩ := nulls_of_serialize hlib hn hmax h
  rw [args_eq hname hcontrol] at hsize h ⊢
  have hroom : totalSize (m.values iovecBuf) ≤ dest.length := by
    by_contra hsmall
    exact serialize_ne hlib _ dest _ hn hmax (not_le.mp hsmall) h
  rw [calculateBuffSize_eq _ (by omega)] at hsize
  rw [serialize_eq hlib _ dest _ hn hmax hroom, List.drop_of_length_le hsize.le, List.append_nil]
  exact ⟨hsize, rfl⟩

/-- What `SerializeMsgBuf` leaves when it succeeds. -/
theorem serializeMsgBuf_zero (hlib : lib.CopiesWithinMax) {malloc : Nat → List UInt8}
    (hmalloc : ∀ size, (malloc size).length = size) (hcount : m.msgIovlen.toNat < 2 ^ 28)
    {fuel : Nat} {buf buf' : List UInt8} {bufLen : UInt32}
    (h : serializeMsgBuf fuel lib malloc m buf bufLen = some (0, buf')) :
    ∃ iovecBuf, HoldsLens m.msgIov (16 * m.msgIovlen.toNat) m.msgIovlen.toNat iovecBuf ∧
      totalSize (m.values iovecBuf) ≤ bufLen.toNat ∧
        buf' = message (m.values iovecBuf) ++ buf.drop (totalSize (m.values iovecBuf)) := by
  have hiovecSize : u32 (u64 (m.msgIovlen.toNat * sizeofIovec)) = 16 * m.msgIovlen.toNat := by
    rw [sizeofIovec, u64_of_lt (by omega), u32_of_lt (by omega), Nat.mul_comm]
  rw [serializeMsgBuf, hiovecSize] at h
  cases hrun : CountedLoop.run m.msgIovlen (storeIovLen m.msgIov) fuel 0
      (memsetS (malloc (16 * m.msgIovlen.toNat))) with
  | none =>
      rw [hrun] at h
      cases h
  | some iovecBuf =>
      have hlength : (memsetS (malloc (16 * m.msgIovlen.toNat))).length =
          16 * m.msgIovlen.toNat := by rw [length_memsetS, hmalloc]
      have hholds := storeIovLen_run hlength.ge hrun
      rw [hlength] at hholds
      refine ⟨iovecBuf, hholds, ?_⟩
      rw [hrun, ← hholds.1] at h
      dsimp only at h
      split_ifs at h with hsize hserialize hcopy
      · exact absurd (congrArg Prod.fst (Option.some.inj h)) hsize
      · rw [(Prod.mk.inj (Option.some.inj h)).1] at hserialize
        exact absurd hserialize (lt_irrefl 0)
      · exact absurd (Prod.mk.inj (Option.some.inj h)).1 (by decide)
      · obtain ⟨hret, rfl⟩ := Prod.mk.inj (Option.some.inj h)
        have hroom := not_imp_comm.mp (hlib.refuses _ _ _ _) hcopy
        obtain ⟨htotal, hmessage⟩ := message_of_serialize hlib
          ((length_memsetS _).trans (hmalloc _)) (hroom.2.2.trans hroom.2.1) hret
        rw [htotal] at hroom hmessage ⊢
        refine ⟨hroom.2.2, ?_⟩
        rw [hmessage]
        have hsent := hlib.copies buf bufLen.toNat (message (m.values iovecBuf)) _ hroom.1
          hroom.2.1 hroom.2.2
        rw [← length_message, List.take_length] at hsent
        rw [← length_message]
        exact congrArg Prod.snd hsent

end Sent

/-! ### What is decoded -/

/-- The fields that `DeSerialize` finds in a message for the values of a header. -/
structure MsgFields.Carries (f : MsgFields) (m : MsgHdr) (iovecBuf buf : List UInt8) : Prop where
  namelen : f.msgNamelen = m.msgNamelen.toUInt64
  name : bytesAt buf f.msgName m.msgNamelen.toNat = m.msgName.getD []
  iovlen : f.msgIovlen = m.msgIovlen
  iov : bytesAt buf f.iovecBuf iovecBuf.length = iovecBuf
  controllen : f.msgControllen = m.msgControllen
  control : bytesAt buf f.msgControl m.msgControllen.toNat = m.msgControl.getD []
  flags : f.msgFlags = m.msgFlags.toInt64.toUInt64
  nameApart : ∀ off pos, f.msgName = some off → f.iovecBuf = some pos →
    off + m.msgNamelen.toNat ≤ pos ∨ pos + iovecBuf.length ≤ off
  controlApart : ∀ off pos, f.msgControl = some off → f.iovecBuf = some pos →
    off + m.msgControllen.toNat ≤ pos ∨ pos + iovecBuf.length ≤ off

section Decoded

variable {m : MsgHdr} {iovecBuf buf : List UInt8}

/-- A decoded pointer: what it points to, and the size of one that is not null. -/
theorem point_of_decodedAs {addr : Option (List UInt8)} {d : Decoded} {size : Nat}
    (hsize : ∀ content, addr = some content → content.length = size)
    (h : (ptrValue addr).DecodedAs buf d) :
    ∃ header ptr n, d = ⟨header, .point ptr n⟩ ∧ bytesAt buf ptr size = addr.getD [] ∧
      ∀ off, ptr = some off → n = size ∧ 0 < size := by
  obtain ⟨header, arg⟩ := d
  cases addr with
  | none =>
      obtain rfl : arg = .point none 0 := h
      exact ⟨header, none, 0, rfl, rfl, fun _ hoff => absurd hoff.symm (Option.some_ne_none _)⟩
  | some content =>
      rw [ptrValue, Value.DecodedAs] at h
      split_ifs at h with hempty
      · obtain rfl : arg = .point none 0 := h
        obtain rfl := hempty
        exact ⟨header, none, 0, rfl, rfl, fun _ hoff => absurd hoff.symm (Option.some_ne_none _)⟩
      · obtain ⟨off, rfl, hslice⟩ := h
        have hlength := hsize content rfl
        refine ⟨header, some off, content.length, rfl, ?_, fun _ _ => ⟨hlength, ?_⟩⟩
        · rw [bytesAt, ← hlength, hslice, Option.getD_some]
        · rw [← hlength]
          exact List.length_pos_of_ne_nil hempty

theorem integer_of_decodedAs {value : UInt64} {d : Decoded}
    (h : (Value.integer value).DecodedAs buf d) : ∃ header, d = ⟨header, .integer value⟩ := by
  obtain ⟨header, arg⟩ := d
  exact ⟨header, congrArg (Decoded.mk header) h⟩

/-- A pointer that may be null is decoded as a pointer in either case. -/
theorem msgArgs_eq (m : MsgHdr) (iovecBuf : List UInt8) :
    msgArgs = (m.values iovecBuf).map Value.ref := by
  have hpointer : ∀ addr, (ptrValue addr).ref = .point true := fun addr => by cases addr <;> rfl
  simp only [MsgHdr.values, List.map_cons, List.map_nil, hpointer]
  rfl

theorem apart_of_disjoint {ptr ptr' : Option Nat} {header header' n n' size size' : Nat}
    (hsize : ∀ off, ptr = some off → n = size ∧ 0 < size)
    (hsize' : ∀ off, ptr' = some off → n' = size' ∧ 0 < size')
    (h : Disjoint (Decoded.region ⟨header, .point ptr n⟩)
      (Decoded.region ⟨header', .point ptr' n'⟩)) :
    ∀ off pos, ptr = some off → ptr' = some pos → off + size ≤ pos ∨ pos + size' ≤ off := by
  intro off pos hoff hpos
  obtain ⟨rfl, hn⟩ := hsize off hoff
  obtain ⟨rfl, hn'⟩ := hsize' pos hpos
  rw [hoff, hpos] at h
  have hmin : min (off + n) (pos + n') ≤ max off pos := Set.Ico_disjoint_Ico.mp h
  omega

theorem deSerializeMsg_message {tail : List UInt8}
    (hbuf : buf = message (m.values iovecBuf) ++ tail) (hlength : buf.length < 2 ^ 32) :
    ∃ f, deSerializeMsg buf = some f ∧ f.Carries m iovecBuf buf := by
  have hn : (UInt64.ofNat buf.length).toUInt32.toNat = buf.length := by
    rw [UInt64.toNat_toUInt32, UInt64.toNat_ofNat_of_lt' (hlength.trans (by decide))]
    exact Nat.mod_eq_of_lt hlength
  have hroom : totalSize (m.values iovecBuf) ≤ (UInt64.ofNat buf.length).toUInt32.toNat := by
    rw [hn, hbuf, List.length_append, length_message]
    exact Nat.le_add_right _ _
  obtain ⟨out, hout, hall⟩ := deSerialize_message (m.values iovecBuf) tail _ hroom
  have hapart := (contained_of_message hroom hout).disjoint
  rw [← hbuf] at hout hall
  rw [MsgHdr.values] at hall
  obtain _ | ⟨hname, _ | ⟨hnamelen, _ | ⟨hiov, _ | ⟨hiovlen, _ | ⟨hcontrol, _ | ⟨hcontrollen,
    _ | ⟨hflags, _ | _⟩⟩⟩⟩⟩⟩⟩ := hall
  rw [← msgArgs_eq] at hout
  obtain ⟨headerName, msgName, nameSize, rfl, hnameBytes, hnameSize⟩ :=
    point_of_decodedAs m.name_length hname
  obtain ⟨headerIov, msgIov, iovSize, rfl, hiovBytes, hiovSize⟩ :=
    @point_of_decodedAs _ (some iovecBuf) _ iovecBuf.length
      (fun content hcontent => by rw [Option.some.inj hcontent]) hiov
  obtain ⟨headerControl, msgControl, controlSize, rfl, hcontrolBytes, hcontrolSize⟩ :=
    point_of_decodedAs m.control_length hcontrol
  obtain ⟨headerNamelen, rfl⟩ := integer_of_decodedAs hnamelen
  obtain ⟨headerIovlen, rfl⟩ := integer_of_decodedAs hiovlen
  obtain ⟨headerControllen, rfl⟩ := integer_of_decodedAs hcontrollen
  obtain ⟨headerFlags, rfl⟩ := integer_of_decodedAs hflags
  refine ⟨⟨msgName, m.msgNamelen.toUInt64, msgIov, iovSize, m.msgIovlen, msgControl,
    m.msgControllen, m.msgFlags.toInt64.toUInt64⟩, by rw [deSerializeMsg, hout], ?_⟩
  obtain ⟨hnameApart, hrest⟩ := List.pairwise_cons.mp hapart
  obtain ⟨-, hrest⟩ := List.pairwise_cons.mp hrest
  obtain ⟨hiovApart, -⟩ := List.pairwise_cons.mp hrest
  refine ⟨rfl, hnameBytes, rfl, hiovBytes, rfl, hcontrolBytes, rfl, ?_, ?_⟩
  · refine apart_of_disjoint hnameSize hiovSize (hnameApart ⟨headerIov, _⟩ ?_)
    exact List.mem_cons_of_mem _ List.mem_cons_self
  · refine apart_of_disjoint hcontrolSize hiovSize (hiovApart ⟨headerControl, _⟩ ?_).symm
    exact List.mem_cons_of_mem _ List.mem_cons_self

end Decoded

/-! ### Receiving it -/

section Received

variable {beyond : Nat → UInt64} {f : MsgFields} {m : MsgHdr} {iovecBuf buf : List UInt8}

theorem iovLen_of_carries (hcarries : f.Carries m iovecBuf buf)
    (hholds : HoldsLens m.msgIov (16 * m.msgIovlen.toNat) m.msgIovlen.toNat iovecBuf) {i : Nat}
    (hi : i < m.msgIovlen.toNat) : iovLen beyond f.iovecBuf buf i = m.msgIov.getD i 0 := by
  have hslice := hcarries.iov
  have hload := hholds.2 i hi
  rw [hholds.1] at hslice
  cases hptr : f.iovecBuf with
  | none =>
      rw [hptr, bytesAt] at hslice
      rw [← hslice, HoldsLens, List.length_nil] at hholds
      exact absurd hholds.1 (by omega)
  | some pos =>
      rw [hptr, bytesAt] at hslice
      have hinside : pos + 16 * m.msgIovlen.toNat ≤ buf.length := by
        have hlength := congrArg List.length hslice
        rw [Bytes.slice, List.length_take, List.length_drop, hholds.1] at hlength
        omega
      have hrecord : recordAt (some pos) buf.length i = some (pos + 16 * i) :=
        recordAt_eq_some.mpr ⟨pos, rfl, rfl, by omega⟩
      rw [← hslice, Bytes.load_slice buf pos (by omega), ← Nat.add_assoc] at hload
      rw [iovLen, hrecord]
      dsimp only
      rw [hload, UInt64.ofNat_toNat]

/-- The lengths in the array are those of the header. -/
theorem lens_of_carries (hcarries : f.Carries m iovecBuf buf)
    (hholds : HoldsLens m.msgIov (16 * m.msgIovlen.toNat) m.msgIovlen.toNat iovecBuf) :
    f.lens beyond buf = m.msgIov := by
  rw [MsgFields.lens, hcarries.iovlen, iovLens]
  apply List.ext_getElem
  · rw [List.length_map, List.length_range, m.iov_length]
  · intro i _ hi
    rw [List.getElem_map, List.getElem_range,
      iovLen_of_carries hcarries hholds (m.iov_length ▸ hi), List.getD_eq_getElem?_getD,
      List.getElem?_eq_getElem hi, Option.getD_some]

/-- Placing the ranges leaves what is apart from the array. -/
theorem bytesAt_placed {newBuf : UInt64} {before s : IovLoop} {n size : Nat} {ptr : Option Nat}
    (hplaced : PlacedRanges beyond f.iovecBuf newBuf before n s)
    (hapart : ∀ off pos, ptr = some off → f.iovecBuf = some pos →
      off + size ≤ pos ∨ pos + 16 * n ≤ off) :
    bytesAt s.buf ptr size = bytesAt before.buf ptr size := by
  cases ptr with
  | none => rfl
  | some off => exact hplaced.frame off size fun pos hpos => hapart off pos rfl hpos

/-- The flags survive their widening to 64 bits. -/
theorem toInt32_toInt64 (x : Int32) : x.toInt64.toUInt64.toUInt32.toInt32 = x := by
  apply Int32.toBitVec_inj.mp
  show (x.toBitVec.signExtend 64).setWidth 32 = x.toBitVec
  ext i hi
  have hlt : i < 64 := by omega
  rw [BitVec.getElem_setWidth, BitVec.getLsbD_signExtend, if_pos hi,
    BitVec.getLsbD_eq_getElem hi]
  simp only [hlt, decide_true, Bool.true_and]

theorem recoveredBy_of_done {fuel : Nat} {mem : MsgAllocs} {msg : Msg}
    (hcarries : f.Carries m iovecBuf buf)
    (hholds : HoldsLens m.msgIov (16 * m.msgIovlen.toNat) m.msgIovlen.toNat iovecBuf)
    (h : recvIov fuel mem beyond f buf = .done msg) : m.RecoveredBy msg := by
  obtain ⟨newBuf, s, -, rfl, hplaced⟩ := recvIov_done h
  have hname := hcarries.nameApart
  have hcontrol := hcarries.controlApart
  rw [hholds.1, ← hcarries.iovlen] at hname hcontrol
  refine ⟨?_, ?_, hcarries.iovlen, ?_, hcarries.controllen, ?_, ?_⟩
  · show f.msgNamelen.toUInt32 = m.msgNamelen
    rw [hcarries.namelen, UInt32.toUInt32_toUInt64]
  · exact (bytesAt_placed hplaced hname).trans hcarries.name
  · show s.iov.map AddrRange.len = m.msgIov
    rw [hplaced.iov, List.nil_append, AddrRange.map_len_layOut]
    exact lens_of_carries hcarries hholds
  · exact (bytesAt_placed hplaced hcontrol).trans hcarries.control
  · show f.msgFlags.toUInt32.toInt32 = m.msgFlags
    rw [hcarries.flags, toInt32_toInt64]

end Received

/-! ### Round trip -/

/-- A header that `SerializeMsgBuf` writes is recovered by a `ConstructMsg` whose allocations
succeed. -/
theorem constructMsg_recovers (lib : Securec) (hlib : lib.CopiesWithinMax)
    (malloc : Nat → List UInt8) (hmalloc : ∀ size, (malloc size).length = size) (m : MsgHdr)
    (hcount : m.msgIovlen.toNat < 2 ^ 28) (buf buf' : List UInt8) (bufLen : UInt32)
    (hlength : buf.length = bufLen.toNat) (serializeFuel : Nat)
    (h : serializeMsgBuf serializeFuel lib malloc m buf bufLen = some (0, buf'))
    (mem : MsgAllocs) (hhdr : mem.hdr = true) (hmem : ∀ size, (mem.malloc size).isSome)
    (bufAddr : UInt64) (beyond : Nat → UInt64) (fuel : Nat) (hfuel : m.msgIovlen.toNat ≤ fuel) :
    ∃ msg, constructMsg fuel mem bufAddr beyond .recvmsg buf' = .done msg ∧ m.RecoveredBy msg := by
  obtain ⟨iovecBuf, hholds, hroom, hbuf⟩ := serializeMsgBuf_zero hlib hmalloc hcount h
  have hbufLen := bufLen.toNat_lt
  have hlength' : buf'.length < 2 ^ 32 := by
    rw [hbuf, List.length_append, length_message, List.length_drop]
    omega
  obtain ⟨f, hdecode, hcarries⟩ := deSerializeMsg_message hbuf hlength'
  rw [← hcarries.iovlen] at hcount hfuel
  obtain ⟨-, hmakes⟩ := recvIov_ends mem beyond buf' (hcount.trans (by decide)) hfuel
  obtain ⟨msg, hdone⟩ := hmakes (hmem _)
  refine ⟨msg, ?_, recoveredBy_of_done hcarries hholds hdone⟩
  have hcheck : checkIovlenInvalid f.msgIovlen .recvmsg = false := by
    rw [checkIovlenInvalid, if_pos]
    exact Or.inl (by decide)
  rw [constructMsg, hdecode]
  dsimp only
  rw [hcheck, hhdr]
  exact hdone

/-- A header with a name, three records, one of them empty, and no control data. -/
def threeRecords : MsgHdr where
  msgName := some [1, 2]
  msgNamelen := 2
  msgIov := [3, 0, 5]
  msgIovlen := 3
  msgControl := none
  msgControllen := 0
  msgFlags := -1
  name_length := by
    rintro name ⟨⟩
    rfl
  iov_length := by rfl
  control_length := by
    rintro control ⟨⟩

/-- What it is in a buffer of 200 bytes. -/
def threeRecordsBuf : List UInt8 :=
  [7, 0, 0, 0]
    ++ Bytes.le 8 pointType ++ Bytes.le 8 2 ++ [1, 2]
    ++ Bytes.le 8 integerType ++ Bytes.le 8 2
    ++ Bytes.le 8 pointType ++ Bytes.le 8 48
    ++ Bytes.le 16 (3 * 2 ^ 64) ++ Bytes.le 16 0 ++ Bytes.le 16 (5 * 2 ^ 64)
    ++ Bytes.le 8 integerType ++ Bytes.le 8 3
    ++ Bytes.le 8 pointType ++ Bytes.le 8 0
    ++ Bytes.le 8 integerType ++ Bytes.le 8 0
    ++ Bytes.le 8 integerType ++ Bytes.le 8 (2 ^ 64 - 1)
    ++ List.replicate 34 0

theorem threeRecords_recovered :
    ∃ msg, constructMsg 3 ⟨true, fun _ => some 4096⟩ 1024 (fun _ => 0) .recvmsg threeRecordsBuf =
      .done msg ∧ threeRecords.RecoveredBy msg := by
  have hsent : serializeMsgBuf 3 Securec.reference (fun size => List.replicate size 0) threeRecords
      (List.replicate 200 0) 200 = some (0, threeRecordsBuf) := by decide +kernel
  exact constructMsg_recovers Securec.reference Securec.reference_copiesWithinMax _
    (fun _ => List.length_replicate) threeRecords (by decide) _ _ 200 List.length_replicate 3 hsent
    _ rfl (fun _ => rfl) 1024 _ 3 (by decide)

end ITrustee.Teleport
