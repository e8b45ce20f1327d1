import Mathlib.Tactic
import ITrustee.Teleport.FdList
import ITrustee.Teleport.FileDescriptors
import ITrustee.Teleport.SerializeBounds

/-!
# Buffers of system calls

The requests whose handlers hand a buffer and a length to `read`, `write` or `sendto`. The buffer is the
argument region itself, a pointer into it that `DeSerialize` made, or the buffer of a package; the length
is an argument of its own. Only the length of a send from a package is compared with anything.
-/

namespace ITrustee.Teleport

open CInt Serialize

/-! ### Requests -/

structure PosixCall where
  type : Nat
  func : Nat
  argsSz : UInt64
  args : List UInt8

/-- The fields of a message, behind which the arguments begin. -/
def loadPosixCall (membuf : List UInt8) : PosixCall where
  type := Bytes.load 4 membuf 0
  func := Bytes.load 4 membuf 4
  argsSz := .ofNat (Bytes.load 8 membuf 16)
  args := membuf.drop 24

/-- What a system call is given as a buffer. -/
inductive Buffer where
  | null
  | args (offset : Nat)
  | pkg (p : PkgTmpBuf)

inductive IoFunc where
  | read
  | write
  | sendto
  deriving DecidableEq

structure IoCall where
  func : IoFunc
  fd : UInt64
  buf : Buffer
  len : UInt64

def toBuffer : Option Nat → Buffer
  | none => .null
  | some offset => .args offset

/-! ### Handlers -/

def fileReadWork (param : PosixProxyParam) : Option IoCall :=
  match deSerialize [.integer true, .point true, .integer true] param.args param.argsSz.toUInt32 with
  | .ok [⟨_, .integer fd⟩, ⟨_, .point _ _⟩, ⟨_, .integer count⟩] => some ⟨.read, fd, .args 0, count⟩
  | _ => none

def fileWriteWork (param : PosixProxyParam) : Option IoCall :=
  match deSerialize [.integer true, .point true, .integer true] param.args param.argsSz.toUInt32 with
  | .ok [⟨_, .integer fd⟩, ⟨_, .point buf _⟩, ⟨_, .integer count⟩] =>
      some ⟨.write, fd, toBuffer buf, count⟩
  | _ => none

def netSendtoWork (lock : Lock) (fdList : FdList) (param : PosixProxyParam) : Option IoCall :=
  match deSerialize [.integer true, .point true, .integer true, .integer true, .point true,
      .integer true, .integer true] param.args param.argsSz.toUInt32 with
  | .ok [⟨_, .integer fd⟩, ⟨_, .point buf _⟩, ⟨_, .integer len⟩, ⟨_, .integer _⟩, ⟨_, .point _ _⟩,
      ⟨_, .integer _⟩, ⟨_, .integer teeIndex⟩] =>
      if teeIndex > 0 then
        let (ret, pkg, fdList) := fdListGetPkg lock (asInt fd) teeIndex fdList
        if ret ≠ 0 then none
        else
          match pkg.bind fdList.pkg? with
          | none => none
          | some pkg => if len ≠ pkg.buffLen then none else some ⟨.sendto, fd, .pkg pkg, len⟩
      else some ⟨.sendto, fd, toBuffer buf, len⟩
  | _ => none

/-- The entry of the function tables; the tables have 41, 20 and 12 entries, and an index that is one
too high passes the check of the caller. -/
def posixFunc (type func : Nat) : Option IoFunc :=
  match type, func with
  | 0, 3 => some .read
  | 0, 4 => some .write
  | 1, 12 => some .sendto
  | _, _ => none

/-- `PosixDataTaskletCallHandler`, up to the system call of one of these handlers. -/
def posixDataTaskletCallHandler (lock : Lock) (fdList : FdList) (membuf : List UInt8) :
    Option IoCall :=
  let call := loadPosixCall membuf
  let param : PosixProxyParam := ⟨some call.args, call.argsSz⟩
  match posixFunc call.type call.func with
  | none => none
  | some .read => fileReadWork param
  | some .write => fileWriteWork param
  | some .sendto => netSendtoWork lock fdList param

/-! ### Regions -/

/-- Every byte of the range is one of the argument region or of the package's buffer. -/
def IoCall.Inside (argsSz : UInt64) (r : IoCall) : Prop :=
  ∀ k < r.len.toNat,
    match r.buf with
    | .null => False
    | .args offset => offset + k < argsSz.toNat
    | .pkg p => k < p.buff.length

/-- The recorded lengths are those of the buffers. -/
def FdList.Recorded (l : FdList) : Prop := ∀ p ∈ l.list, p.buff.length = p.buffLen.toNat

/-! ### Fields of a request -/

/-- The size of the second argument. -/
def pointSize (args : List UInt8) : Nat := Bytes.load 8 args 28

/-- The header of the third argument, behind the bytes of the second. -/
def lenHeader (args : List UInt8) : Nat := u32 (20 + u64 (sizeofPointStorage + pointSize args))

def lenField (args : List UInt8) : Nat := Bytes.load 8 args (lenHeader args + 8)

/-- The header of the fifth argument of a send, the address. -/
def addrHeader (args : List UInt8) : Nat :=
  u32 (u32 (lenHeader args + sizeofIntegerStorage) + sizeofIntegerStorage)

/-- The last argument of a send. -/
def teeIndexField (args : List UInt8) : Nat :=
  Bytes.load 8 args (u32 (u32 (addrHeader args +
    u64 (sizeofPointStorage + Bytes.load 8 args (addrHeader args + 8))) + sizeofIntegerStorage) + 8)

/-- The length fits what the buffer is: the argument region from its start, or from the bytes of the
second argument on. -/
def LenFits (call : PosixCall) : Prop :=
  match posixFunc call.type call.func with
  | some .read => lenField call.args ≤ call.argsSz.toNat
  | some .write =>
      lenField call.args = 0 ∨
        pointSize call.args ≠ 0 ∧ 36 + lenField call.args ≤ call.argsSz.toNat
  | some .sendto =>
      teeIndexField call.args ≠ 0 ∨ lenField call.args = 0 ∨
        pointSize call.args ≠ 0 ∧ 36 + lenField call.args ≤ call.argsSz.toNat
  | none => True

/-! ### What the handlers decode -/

theorem interTypeDeserialize_value {srcBuff : List UInt8} {srcBuffSize byteOffset : Nat}
    {value : UInt64} (h : interTypeDeserialize srcBuff srcBuffSize byteOffset = .ok value) :
    value.toNat = Bytes.load 8 srcBuff (byteOffset + 8) := by
  unfold interTypeDeserialize at h
  split_ifs at h
  obtain rfl := Except.ok.inj h
  exact UInt64.toNat_ofNat_of_lt (Bytes.load_lt 8 srcBuff (byteOffset + 8))

/-- The first three arguments of each of the requests. -/
theorem deSerialize_first {args : List UInt8} {n : UInt32} {refs : List ArgRef} {out : List Decoded}
    (h : deSerialize (.integer true :: .point true :: .integer true :: refs) (some args) n =
      .ok out) :
    ∃ fd len rest, out = ⟨4, .integer fd⟩ ::
        ⟨20, .point (if pointSize args ≠ 0 then some 36 else none) (pointSize args)⟩ ::
          ⟨lenHeader args, .integer len⟩ :: rest ∧
      len.toNat = lenField args ∧
      deSerializeLoop args n.toNat refs (u32 (lenHeader args + sizeofIntegerStorage)) = .ok rest := by
  obtain ⟨-, -, hloop⟩ := deSerialize_ok h
  obtain ⟨fd, out₁, -, hpointLoop, hout⟩ := deSerializeLoop_integer_ok hloop
  obtain ⟨ref, size, out₂, hpoint, hlenLoop, hout₁⟩ := deSerializeLoop_point_ok hpointLoop
  obtain ⟨-, hsize, -, href⟩ := pointTypeDeserialize_ok hpoint
  have hheader : u32 (4 + sizeofIntegerStorage) = 20 := by decide
  rw [hheader] at hsize href hlenLoop hout₁
  change size = pointSize args at hsize
  rw [hsize] at href hlenLoop hout₁
  obtain ⟨len, rest, hlen, hrest, hout₂⟩ := deSerializeLoop_integer_ok hlenLoop
  refine ⟨fd, len, rest, ?_, interTypeDeserialize_value hlen, hrest⟩
  rw [hout, hout₁, hout₂, href]
  rfl

/-- The last arguments of a send. -/
theorem deSerialize_send {args : List UInt8} {n : UInt32} {rest : List Decoded}
    (h : deSerializeLoop args n.toNat [.integer true, .point true, .integer true, .integer true]
      (u32 (lenHeader args + sizeofIntegerStorage)) = .ok rest) :
    ∃ h₁ flags h₂ addr addrSize h₃ alen h₄ teeIndex,
      rest = [⟨h₁, .integer flags⟩, ⟨h₂, .point addr addrSize⟩, ⟨h₃, .integer alen⟩,
        ⟨h₄, .integer teeIndex⟩] ∧ teeIndex.toNat = teeIndexField args := by
  obtain ⟨flags, rest₁, -, haddrLoop, hrest⟩ := deSerializeLoop_integer_ok h
  obtain ⟨addr, size, rest₂, hpoint, halenLoop, hrest₁⟩ := deSerializeLoop_point_ok haddrLoop
  obtain ⟨-, hsize, -, -⟩ := pointTypeDeserialize_ok hpoint
  obtain ⟨alen, rest₃, -, hteeLoop, hrest₂⟩ := deSerializeLoop_integer_ok halenLoop
  obtain ⟨teeIndex, rest₄, htee, hend, hrest₃⟩ := deSerializeLoop_integer_ok hteeLoop
  obtain rfl := Except.ok.inj hend
  have hvalue := interTypeDeserialize_value htee
  rw [hsize] at hvalue
  exact ⟨_, flags, _, addr, size, _, alen, _, teeIndex, by rw [hrest, hrest₁, hrest₂, hrest₃], hvalue⟩

/-! ### Ranges -/

theorem inside_args {argsSz fd len : UInt64} {func : IoFunc} {offset : Nat} :
    IoCall.Inside argsSz ⟨func, fd, .args offset, len⟩ ↔
      len.toNat = 0 ∨ offset + len.toNat ≤ argsSz.toNat := by
  constructor
  · intro h
    by_cases hzero : len.toNat = 0
    · exact Or.inl hzero
    · have hlast := h (len.toNat - 1) (by dsimp only; omega)
      dsimp only at hlast
      exact Or.inr (by omega)
  · intro h k hk
    dsimp only at hk ⊢
    omega

theorem inside_toBuffer {argsSz fd len : UInt64} {func : IoFunc} (size : Nat) :
    IoCall.Inside argsSz ⟨func, fd, toBuffer (if size ≠ 0 then some 36 else none), len⟩ ↔
      len.toNat = 0 ∨ size ≠ 0 ∧ 36 + len.toNat ≤ argsSz.toNat := by
  by_cases hsize : size = 0
  · rw [if_neg (not_not.mpr hsize)]
    constructor
    · intro h
      by_contra hlong
      exact h 0 (Nat.pos_of_ne_zero fun hzero => hlong (Or.inl hzero))
    · rintro (hzero | ⟨hne, -⟩) k hk
      · dsimp only at hk
        omega
      · exact absurd hsize hne
  · rw [if_pos hsize]
    exact inside_args.trans (or_congr_right (and_iff_right hsize).symm)

/-! ### The recorded lengths -/

section Recorded

variable {l : FdList}

theorem FdList.Recorded.modifyPkg (hl : l.Recorded) (id : Nat) {f : PkgTmpBuf → PkgTmpBuf}
    (hf : ∀ q, (f q).buff = q.buff ∧ (f q).buffLen = q.buffLen) : (l.modifyPkg id f).Recorded := by
  intro p hp
  obtain ⟨q, hq, rfl⟩ := List.mem_map.mp hp
  split_ifs
  · rw [(hf q).1, (hf q).2]
    exact hl q hq
  · exact hl q hq

theorem FdList.Recorded.derefPkg (hl : l.Recorded) (p : PkgTmpBuf) : (derefPkg p l).Recorded := by
  rw [Teleport.derefPkg]
  split_ifs
  · exact fun q hq => hl q (List.mem_of_mem_filter hq)
  · exact hl.modifyPkg _ fun _ => ⟨rfl, rfl⟩

/-- The locked functions of the list keep the lengths, if a package is put with the length of its
buffer. -/
theorem FdList.Recorded.calls (hl : l.Recorded) (lock : Lock) (created : Except Errno UInt64)
    (fd : Int32) (teeIndex : UInt64) (pkg : Option Nat) :
    (∀ buff : List UInt8, ∀ buffLen : UInt64, buff.length = buffLen.toNat →
        (fdListPutPkg lock created fd teeIndex buff buffLen l).2.2.Recorded) ∧
      (fdListGetPkg lock fd teeIndex l).2.2.Recorded ∧
      (fdListReleasePkgByIndex lock fd teeIndex l).2.Recorded ∧
      ∀ ret l', fdListReleasePkg lock pkg l = some (ret, l') → l'.Recorded := by
  cases lock with
  | failed errno =>
      refine ⟨fun _ _ _ => hl, hl, hl, fun ret l' h => ?_⟩
      cases pkg with
      | none =>
          obtain ⟨-, rfl⟩ := Prod.mk.inj (Option.some.inj h)
          exact hl
      | some id =>
          obtain ⟨-, rfl⟩ := Prod.mk.inj (Option.some.inj h)
          exact hl
  | acquired =>
      refine ⟨fun buff buffLen hlen => ?_, ?_, ?_, fun ret l' h => ?_⟩
      · unfold fdListPutPkg
        cases fdListSearchPkg l fd teeIndex with
        | some p => exact hl
        | none =>
            cases created with
            | error errno => exact hl
            | ok creatTimeUs =>
                intro p hp
                obtain hp | hp := List.mem_append.mp hp
                · exact hl p hp
                · rw [List.mem_singleton.mp hp]
                  exact hlen
      · rw [fdListGetPkg]
        cases fdListSearchPkg l fd teeIndex with
        | none => exact hl
        | some p => exact hl.modifyPkg _ fun _ => ⟨rfl, rfl⟩
      · rw [fdListReleasePkgByIndex]
        cases fdListSearchPkg l fd teeIndex with
        | none => exact hl
        | some p => exact hl.derefPkg p
      · cases pkg with
        | none =>
            obtain ⟨-, rfl⟩ := Prod.mk.inj (Option.some.inj h)
            exact hl
        | some id =>
            obtain ⟨p, -, hp⟩ := Option.map_eq_some_iff.mp h
            obtain ⟨-, rfl⟩ := Prod.mk.inj hp
            exact hl.derefPkg p

end Recorded

/-! ### The calls -/

section Calls

variable {args : List UInt8} {argsSz : UInt64} {r : IoCall}

theorem fileReadWork_inside (h : fileReadWork ⟨some args, argsSz⟩ = some r) :
    r.Inside argsSz ↔ lenField args ≤ argsSz.toNat := by
  rw [fileReadWork] at h
  cases hdecode : deSerialize [.integer true, .point true, .integer true] (some args)
      argsSz.toUInt32 with
  | error e =>
      rw [hdecode] at h
      cases h
  | ok out =>
      obtain ⟨fd, len, rest, rfl, hlen, hend⟩ := deSerialize_first hdecode
      rw [deSerializeLoop] at hend
      obtain rfl := Except.ok.inj hend
      rw [hdecode] at h
      obtain rfl := Option.some.inj h
      rw [inside_args, hlen, Nat.zero_add]
      omega

theorem fileWriteWork_inside (h : fileWriteWork ⟨some args, argsSz⟩ = some r) :
    r.Inside argsSz ↔
      lenField args = 0 ∨ pointSize args ≠ 0 ∧ 36 + lenField args ≤ argsSz.toNat := by
  rw [fileWriteWork] at h
  cases hdecode : deSerialize [.integer true, .point true, .integer true] (some args)
      argsSz.toUInt32 with
  | error e =>
      rw [hdecode] at h
      cases h
  | ok out =>
      obtain ⟨fd, len, rest, rfl, hlen, hend⟩ := deSerialize_first hdecode
      rw [deSerializeLoop] at hend
      obtain rfl := Except.ok.inj hend
      rw [hdecode] at h
      obtain rfl := Option.some.inj h
      rw [inside_toBuffer, hlen]

theorem netSendtoWork_inside {lock : Lock} {fdList : FdList} (hlist : fdList.Recorded)
    (h : netSendtoWork lock fdList ⟨some args, argsSz⟩ = some r) :
    r.Inside argsSz ↔ teeIndexField args ≠ 0 ∨
      lenField args = 0 ∨ pointSize args ≠ 0 ∧ 36 + lenField args ≤ argsSz.toNat := by
  rw [netSendtoWork] at h
  cases hdecode : deSerialize [.integer true, .point true, .integer true, .integer true, .point true,
      .integer true, .integer true] (some args) argsSz.toUInt32 with
  | error e =>
      rw [hdecode] at h
      cases h
  | ok out =>
      obtain ⟨fd, len, rest, rfl, hlen, hend⟩ := deSerialize_first hdecode
      obtain ⟨h₁, flags, h₂, addr, addrSize, h₃, alen, h₄, teeIndex, rfl, htee⟩ :=
        deSerialize_send hend
      rw [hdecode] at h
      dsimp only at h
      by_cases hindex : teeIndex > 0
      · rw [if_pos hindex] at h
        have hne : teeIndexField args ≠ 0 := by
          rw [← htee]
          exact (UInt64.lt_iff_toNat_lt.mp hindex).ne'
        refine iff_of_true ?_ (Or.inl hne)
        obtain ⟨-, hget, -⟩ := hlist.calls lock (.ok 0) (asInt fd) teeIndex none
        generalize fdListGetPkg lock (asInt fd) teeIndex fdList = got at h hget
        obtain ⟨ret, pkg, l⟩ := got
        dsimp only at h hget
        split_ifs at h with hret
        cases hpkg : pkg.bind l.pkg? with
        | none =>
            rw [hpkg] at h
            cases h
        | some p =>
            rw [hpkg] at h
            dsimp only at h
            split_ifs at h with hsame
            obtain rfl := Option.some.inj h
            obtain ⟨id, -, hp⟩ := Option.bind_eq_some_iff.mp hpkg
            intro k hk
            dsimp only at hk ⊢
            rw [hget p (FdList.mem_of_pkg? hp).1, ← not_not.mp hsame]
            exact hk
      · rw [if_neg hindex] at h
        obtain rfl := Option.some.inj h
        have hzero : teeIndexField args = 0 := by
          rw [← htee]
          exact Nat.eq_zero_of_not_pos fun hpos => hindex (UInt64.lt_iff_toNat_lt.mpr hpos)
        rw [inside_toBuffer, hlen]
        exact (or_iff_right (not_not.mpr hzero)).symm

end Calls

/-- For every message that reaches `read`, `write` or `sendto`, the bytes handed over lie in the
argument region or in the package exactly when the length fits. -/
theorem ioCall_inside_iff (lock : Lock) (fdList : FdList) (membuf : List UInt8) (r : IoCall)
    (hlist : fdList.Recorded) (h : posixDataTaskletCallHandler lock fdList membuf = some r) :
    r.Inside (loadPosixCall membuf).argsSz ↔ LenFits (loadPosixCall membuf) := by
  rw [posixDataTaskletCallHandler] at h
  rw [LenFits]
  cases hfunc : posixFunc (loadPosixCall membuf).type (loadPosixCall membuf).func with
  | none =>
      rw [hfunc] at h
      cases h
  | some func =>
      rw [hfunc] at h
      cases func with
      | read => exact fileReadWork_inside h
      | write => exact fileWriteWork_inside h
      | sendto => exact netSendtoWork_inside hlist h

/-- A message of type 0 with 3 arguments: a descriptor, one byte, and a length. -/
def ioMessage (func argsSz len : Nat) : List UInt8 :=
  Bytes.le 4 0 ++ Bytes.le 4 func ++ Bytes.le 8 0 ++ Bytes.le 8 argsSz ++
    (Bytes.le 4 3 ++ (Bytes.le 8 integerType ++ Bytes.le 8 5) ++
      (Bytes.le 8 pointType ++ Bytes.le 8 1 ++ [7]) ++
      (Bytes.le 8 integerType ++ Bytes.le 8 len))

/-- In an argument region of 53 bytes, of which the last 17 begin with the byte to write, a write of 17
bytes stays inside and one of 18 does not. -/
theorem ioMessage_inside :
    (∃ r, posixDataTaskletCallHandler .acquired {} (ioMessage 4 53 17) = some r ∧
        r.Inside (loadPosixCall (ioMessage 4 53 17)).argsSz) ∧
      ∃ r, posixDataTaskletCallHandler .acquired {} (ioMessage 4 53 18) = some r ∧
        ¬r.Inside (loadPosixCall (ioMessage 4 53 18)).argsSz := by
  have hempty : FdList.Recorded {} := fun _ hp => absurd hp List.not_mem_nil
  refine ⟨⟨⟨.write, 5, .args 36, 17⟩, rfl, ?_⟩, ⟨⟨.write, 5, .args 36, 18⟩, rfl, fun h => ?_⟩⟩
  · exact (ioCall_inside_iff .acquired {} (ioMessage 4 53 17) _ hempty rfl).mpr
      (Or.inr ⟨by decide, by decide⟩)
  · have hfits := (ioCall_inside_iff .acquired {} (ioMessage 4 53 18) _ hempty rfl).mp h
    have hnot : ¬(lenField (loadPosixCall (ioMessage 4 53 18)).args = 0 ∨
        pointSize (loadPosixCall (ioMessage 4 53 18)).args ≠ 0 ∧
          36 + lenField (loadPosixCall (ioMessage 4 53 18)).args ≤
            (loadPosixCall (ioMessage 4 53 18)).argsSz.toNat) := by decide
    exact hnot hfits

/-- A read of 4096 bytes into an argument region of 53. -/
theorem oversizedRead_outside :
    posixDataTaskletCallHandler .acquired {} (ioMessage 3 53 4096) =
        some ⟨.read, 5, .args 0, 4096⟩ ∧
      (loadPosixCall (ioMessage 3 53 4096)).argsSz = 53 ∧
      ¬IoCall.Inside 53 ⟨.read, 5, .args 0, 4096⟩ := by
  refine ⟨rfl, rfl, fun h => ?_⟩
  obtain hzero | hle := inside_args.mp h
  · exact absurd hzero (by decide)
  · exact absurd hle (by decide)

end ITrustee.Teleport
