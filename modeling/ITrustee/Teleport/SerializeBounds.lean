import Mathlib
import ITrustee.Foundation.Layout
import ITrustee.Teleport.Serialize

/-!
# Where the pointers of a decoded message point

`DeSerialize` walks the headers of a message whose content the other side chose. When no size field
it meets reaches past the 64-bit range, the headers and the bytes behind them are consecutive in the
buffer, and every pointer it hands out denotes a region of its own inside the buffer. The end of the
bytes is computed in 64-bit arithmetic, so a size close to `2 ^ 64` passes the only check on it.
-/

namespace ITrustee.Serialize

open CInt

/-! ### What one step of the decoder accepts -/

theorem interTypeDeserialize_ok {srcBuff : List UInt8} {srcBuffSize byteOffset : Nat}
    {value : UInt64} (h : interTypeDeserialize srcBuff srcBuffSize byteOffset = .ok value) :
    byteOffset + sizeofIntegerStorage ≤ srcBuffSize := by
  unfold interTypeDeserialize at h
  split_ifs at h with hcheck
  unfold serializeInterBuffValidCheck at hcheck
  split_ifs at hcheck with hroom
  · exact absurd (show -eNoMem ≠ 0 by decide) hcheck
  · simp only [sizeofIntegerStorage] at hroom ⊢
    omega

theorem pointTypeDeserialize_ok {srcBuff : List UInt8} {srcBuffSize byteOffset : Nat}
    {ref : Option Nat} {size : Nat}
    (h : pointTypeDeserialize srcBuff srcBuffSize byteOffset = .ok (ref, size)) :
    byteOffset + sizeofPointStorage ≤ srcBuffSize ∧ size = Bytes.load 8 srcBuff (byteOffset + 8) ∧
      u64 (byteOffset + sizeofPointStorage + size) ≤ srcBuffSize ∧
      ref = if size ≠ 0 then some (byteOffset + sizeofPointStorage) else none := by
  unfold pointTypeDeserialize at h
  split_ifs at h with hcheck htype
  have hroom : byteOffset + sizeofPointStorage ≤ srcBuffSize := by
    unfold serializePointBuffValidCheck at hcheck
    split_ifs at hcheck with hroom
    · exact absurd (show -eNoMem ≠ 0 by decide) hcheck
    · simp only [sizeofPointStorage] at hroom ⊢
      omega
  dsimp only at h
  split_ifs at h with hend hsize <;>
    · simp only [Except.ok.injEq, Prod.mk.injEq] at h
      obtain ⟨rfl, rfl⟩ := h
      refine ⟨hroom, rfl, not_lt.mp hend, ?_⟩
      simp [hsize]

theorem deSerializeLoop_integer_ok {srcBuff : List UInt8} {srcBuffSize byteOffset : Nat}
    {ref : Bool} {args : List ArgRef} {out : List Decoded}
    (h : deSerializeLoop srcBuff srcBuffSize (.integer ref :: args) byteOffset = .ok out) :
    ∃ value rest, interTypeDeserialize srcBuff srcBuffSize byteOffset = .ok value ∧
      deSerializeLoop srcBuff srcBuffSize args (u32 (byteOffset + sizeofIntegerStorage)) =
        .ok rest ∧ out = ⟨byteOffset, .integer value⟩ :: rest := by
  rw [deSerializeLoop] at h
  split_ifs at h
  cases hvalue : interTypeDeserialize srcBuff srcBuffSize byteOffset with
  | error _ => simp [hvalue, bind, Except.bind] at h
  | ok value =>
      cases hrest : deSerializeLoop srcBuff srcBuffSize args
          (u32 (byteOffset + sizeofIntegerStorage)) with
      | error _ => simp [hvalue, hrest, bind, Except.bind] at h
      | ok rest =>
          simp only [hvalue, hrest, bind, Except.bind, pure, Except.pure, Except.ok.injEq] at h
          exact ⟨value, rest, rfl, rfl, h.symm⟩

theorem deSerializeLoop_point_ok {srcBuff : List UInt8} {srcBuffSize byteOffset : Nat}
    {ref : Bool} {args : List ArgRef} {out : List Decoded}
    (h : deSerializeLoop srcBuff srcBuffSize (.point ref :: args) byteOffset = .ok out) :
    ∃ pointRef size rest,
      pointTypeDeserialize srcBuff srcBuffSize byteOffset = .ok (pointRef, size) ∧
      deSerializeLoop srcBuff srcBuffSize args
        (u32 (byteOffset + u64 (sizeofPointStorage + size))) = .ok rest ∧
      out = ⟨byteOffset, .point pointRef size⟩ :: rest := by
  rw [deSerializeLoop] at h
  split_ifs at h
  cases hpoint : pointTypeDeserialize srcBuff srcBuffSize byteOffset with
  | error _ => simp [hpoint, bind, Except.bind] at h
  | ok result =>
      obtain ⟨pointRef, size⟩ := result
      cases hrest : deSerializeLoop srcBuff srcBuffSize args
          (u32 (byteOffset + u64 (sizeofPointStorage + size))) with
      | error _ => simp [hpoint, hrest, bind, Except.bind] at h
      | ok rest =>
          simp only [hpoint, hrest, bind, Except.bind, pure, Except.pure, Except.ok.injEq] at h
          exact ⟨pointRef, size, rest, rfl, hrest, h.symm⟩

/-! ### Regions -/

/-- The number of bytes behind the header that belong to the argument. -/
def Decoded.size (d : Decoded) : Nat :=
  match d.arg with
  | .integer _ => 0
  | .point _ size => size

/-- The offset a decoded pointer denotes, if it is a pointer and not null. -/
def Decoded.offset (d : Decoded) : Option Nat :=
  match d.arg with
  | .integer _ => none
  | .point ref _ => ref

/-- Where the argument ends in the buffer. -/
def Decoded.stop (d : Decoded) : Nat := d.header + 16 + d.size

/-- The offsets of the bytes a decoded pointer denotes; none for an integer or a null pointer. -/
def Decoded.region (d : Decoded) : Set Nat :=
  match d.offset with
  | none => ∅
  | some off => Set.Ico off (off + d.size)

/-- The offsets of the storage header an argument was read from. -/
def Decoded.headerRegion (d : Decoded) : Set Nat := Set.Ico d.header (d.header + 16)

/-- Every pointer denotes a region inside a buffer of `n` bytes, no two regions overlap, none
overlaps the argument count or a storage header, and the offsets grow in argument order. -/
structure Contained (n : Nat) (out : List Decoded) : Prop where
  inside : ∀ d ∈ out, d.region ⊆ Set.Ico 0 n
  disjoint : out.Pairwise fun d e => Disjoint d.region e.region
  count : ∀ d ∈ out, Disjoint d.region (Set.Ico 0 4)
  headers : ∀ d ∈ out, ∀ e ∈ out, Disjoint d.region e.headerRegion
  increasing : (out.filterMap Decoded.offset).Pairwise (· < ·)

/-- Reading the expected arguments from `byteOffset` on, no pointer header carries a size whose end
leaves the 64-bit range. -/
def SizesFit (srcBuff : List UInt8) : List ArgRef → Nat → Prop
  | [], _ => True
  | .integer _ :: args, byteOffset => SizesFit srcBuff args (byteOffset + 16)
  | .point _ :: args, byteOffset =>
      byteOffset + 16 + Bytes.load 8 srcBuff (byteOffset + 8) < 2 ^ 64 ∧
        SizesFit srcBuff args (byteOffset + 16 + Bytes.load 8 srcBuff (byteOffset + 8))
  | .unknown :: _, _ => True

/-- A pointer, when not null, denotes the bytes right behind its header. -/
def Decoded.Placed (d : Decoded) : Prop :=
  d.offset = if d.size ≠ 0 then some (d.header + 16) else none

theorem Decoded.Placed.region_eq {d : Decoded} (h : d.Placed) :
    d.region = Set.Ico (d.header + 16) d.stop := by
  rw [Decoded.Placed] at h
  rw [Decoded.region, Decoded.stop]
  by_cases hsize : d.size = 0
  · rw [if_neg (not_not.mpr hsize)] at h
    simp [h, hsize]
  · rw [if_pos hsize] at h
    simp [h]

theorem Decoded.Placed.offset_eq {d : Decoded} (h : d.Placed) {off : Nat}
    (hoff : d.offset = some off) : off = d.header + 16 ∧ d.header + 16 < d.stop := by
  rw [Decoded.Placed, hoff] at h
  rw [Decoded.stop]
  by_cases hsize : d.size = 0
  · simp [hsize] at h
  · rw [if_pos hsize] at h
    exact ⟨Option.some.inj h, by omega⟩

theorem deSerializeLoop_placed {srcBuff : List UInt8} {srcBuffSize byteOffset : Nat}
    {args : List ArgRef} {out : List Decoded}
    (h : deSerializeLoop srcBuff srcBuffSize args byteOffset = .ok out) :
    ∀ d ∈ out, d.Placed := by
  induction args generalizing byteOffset out with
  | nil =>
      obtain rfl : [] = out := by simpa [deSerializeLoop] using h
      simp
  | cons arg args ih =>
      cases arg with
      | integer ref =>
          obtain ⟨value, rest, _, hrest, rfl⟩ := deSerializeLoop_integer_ok h
          intro d hd
          rcases List.mem_cons.mp hd with rfl | hd
          · rfl
          · exact ih hrest d hd
      | point ref =>
          obtain ⟨pointRef, size, rest, hpoint, hrest, rfl⟩ := deSerializeLoop_point_ok h
          intro d hd
          rcases List.mem_cons.mp hd with rfl | hd
          · exact (pointTypeDeserialize_ok hpoint).2.2.2
          · exact ih hrest d hd
      | unknown => simp [deSerializeLoop] at h

/-- When the sizes fit, the arguments are consecutive in the buffer. -/
theorem deSerializeLoop_consecutive {srcBuff : List UInt8} {srcBuffSize byteOffset : Nat}
    {args : List ArgRef} {out : List Decoded} (hbuff : srcBuffSize < 2 ^ 32)
    (hoff : byteOffset ≤ srcBuffSize) (hfit : SizesFit srcBuff args byteOffset)
    (h : deSerializeLoop srcBuff srcBuffSize args byteOffset = .ok out) :
    ∃ q, q ≤ srcBuffSize ∧ Layout.Consecutive Decoded.header Decoded.stop byteOffset out q := by
  induction args generalizing byteOffset out with
  | nil =>
      obtain rfl : [] = out := by simpa [deSerializeLoop] using h
      exact ⟨byteOffset, hoff, rfl⟩
  | cons arg args ih =>
      cases arg with
      | integer ref =>
          obtain ⟨value, rest, hvalue, hrest, rfl⟩ := deSerializeLoop_integer_ok h
          have hroom := interTypeDeserialize_ok hvalue
          simp only [sizeofIntegerStorage] at hroom hrest
          rw [u32_of_lt (by omega)] at hrest
          obtain ⟨q, hq, hcons⟩ := ih hroom hfit hrest
          exact ⟨q, hq, rfl, by simp only [Decoded.stop]; omega, hcons⟩
      | point ref =>
          obtain ⟨pointRef, size, rest, hpoint, hrest, rfl⟩ := deSerializeLoop_point_ok h
          obtain ⟨hroom, hsize, hend, _⟩ := pointTypeDeserialize_ok hpoint
          obtain ⟨hfits, hfit⟩ := hfit
          rw [← hsize] at hfits hfit
          simp only [sizeofPointStorage] at hend hrest
          rw [u64_of_lt hfits] at hend
          rw [u64_of_lt (by omega), u32_of_lt (by omega), ← Nat.add_assoc] at hrest
          obtain ⟨q, hq, hcons⟩ := ih hend hfit hrest
          refine ⟨q, hq, rfl, ?_, hcons⟩
          simp only [Decoded.stop]
          omega
      | unknown => simp [deSerializeLoop] at h

theorem contained_of_consecutive {n q : Nat} {out : List Decoded} (hplaced : ∀ d ∈ out, d.Placed)
    (hq : q ≤ n) (h : Layout.Consecutive Decoded.header Decoded.stop 4 out q) :
    Contained n out := by
  have hregion : ∀ d ∈ out, d.region = Set.Ico (d.header + 16) d.stop :=
    fun d hd => (hplaced d hd).region_eq
  have horder := h.pairwise
  refine ⟨fun d hd => ?_, ?_, fun d hd => ?_, fun d hd e he => ?_, ?_⟩
  · rw [hregion d hd]
    exact Set.Ico_subset_Ico (Nat.zero_le _) ((h.bounds hd).2.2.trans hq)
  · refine horder.imp_of_mem fun {d e} hd he hde => ?_
    rw [hregion d hd, hregion e he, Set.Ico_disjoint_Ico]
    omega
  · have hstart := (h.bounds hd).1
    rw [hregion d hd, Set.Ico_disjoint_Ico]
    omega
  · rw [hregion d hd, Decoded.headerRegion, Set.Ico_disjoint_Ico]
    have hstop : e.header + 16 ≤ e.stop := by simp [Decoded.stop]
    rcases h.ordered hd he with rfl | hde | hed
    · omega
    · omega
    · omega
  · rw [List.pairwise_filterMap]
    refine horder.imp_of_mem fun {d e} hd he hde a ha b hb => ?_
    have hda := (hplaced d hd).offset_eq ha
    have heb := (hplaced e he).offset_eq hb
    have hstop : d.header + 16 < d.stop := hda.2
    omega

/-- A message all of whose regions lie in the buffer has no size close to the 64-bit limit. -/
theorem sizesFit_of_inside {srcBuff : List UInt8} {srcBuffSize byteOffset : Nat}
    {args : List ArgRef} {out : List Decoded} (hbuff : srcBuffSize < 2 ^ 32)
    (h : deSerializeLoop srcBuff srcBuffSize args byteOffset = .ok out)
    (hinside : ∀ d ∈ out, d.region ⊆ Set.Ico 0 srcBuffSize) : SizesFit srcBuff args byteOffset := by
  induction args generalizing byteOffset out with
  | nil => trivial
  | cons arg args ih =>
      cases arg with
      | integer ref =>
          obtain ⟨value, rest, hvalue, hrest, rfl⟩ := deSerializeLoop_integer_ok h
          have hroom := interTypeDeserialize_ok hvalue
          simp only [sizeofIntegerStorage] at hroom hrest
          rw [u32_of_lt (by omega)] at hrest
          exact ih hrest fun d hd => hinside d (List.mem_cons_of_mem _ hd)
      | point ref =>
          obtain ⟨pointRef, size, rest, hpoint, hrest, rfl⟩ := deSerializeLoop_point_ok h
          obtain ⟨hroom, hsize, _, href⟩ := pointTypeDeserialize_ok hpoint
          have hregion := hinside _ List.mem_cons_self
          have hplaced : Decoded.Placed ⟨byteOffset, .point pointRef size⟩ := href
          rw [hplaced.region_eq] at hregion
          simp only [sizeofPointStorage] at hroom hrest
          have hend : byteOffset + 16 + size ≤ srcBuffSize := by
            by_cases hzero : size = 0
            · omega
            · have hlast : byteOffset + 16 + size - 1 ∈ Set.Ico (byteOffset + 16)
                  (Decoded.stop ⟨byteOffset, .point pointRef size⟩) := by
                simp only [Decoded.stop, Decoded.size, Set.mem_Ico]
                omega
              have := (hregion hlast).2
              omega
          rw [u64_of_lt (by omega), u32_of_lt (by omega), ← Nat.add_assoc] at hrest
          rw [SizesFit, ← hsize]
          exact ⟨by omega, ih hrest fun d hd => hinside d (List.mem_cons_of_mem _ hd)⟩
      | unknown => trivial

/-! ### Containment -/

theorem deSerialize_ok {args : List ArgRef} {buf : List UInt8} {n : UInt32} {out : List Decoded}
    (h : deSerialize args (some buf) n = .ok out) :
    4 ≤ n.toNat ∧ Bytes.load 4 buf 0 = args.length ∧
      deSerializeLoop buf n.toNat args 4 = .ok out := by
  unfold deSerialize at h
  split_ifs at h with hcheck
  unfold deSerializeParamValidCheck at hcheck
  split_ifs at hcheck with hnull hcount
  · exact absurd (show -eInval ≠ 0 by decide) hcheck
  · exact absurd (show -eInval ≠ 0 by decide) hcheck
  · simp only [Option.isNone_some, Bool.false_eq_true, false_or, not_lt] at hnull
    exact ⟨hnull, not_not.mp hcount, h⟩

/-- A successful decoding hands out contained pointers exactly when the sizes it met fit. -/
theorem deSerialize_contained_iff (args : List ArgRef) (buf : List UInt8) (n : UInt32)
    (out : List Decoded) (h : deSerialize args (some buf) n = .ok out) :
    Contained n.toNat out ↔ SizesFit buf args 4 := by
  obtain ⟨hroom, _, hloop⟩ := deSerialize_ok h
  have hbuff : n.toNat < 2 ^ 32 := n.toNat_lt
  constructor
  · intro hcontained
    exact sizesFit_of_inside hbuff hloop hcontained.inside
  · intro hfit
    obtain ⟨q, hq, hcons⟩ := deSerializeLoop_consecutive hbuff hroom hfit hloop
    exact contained_of_consecutive (deSerializeLoop_placed hloop) hq hcons

def twoByteMessage : List UInt8 := Bytes.le 4 1 ++ Bytes.le 8 pointType ++ Bytes.le 8 2 ++ [7, 9]

theorem twoByteMessage_contained :
    deSerialize [.point true] (some twoByteMessage) 22 = .ok [⟨4, .point (some 20) 2⟩] ∧
      Contained 22 [⟨4, .point (some 20) 2⟩] := by
  have hdecode : deSerialize [.point true] (some twoByteMessage) 22 =
      .ok [⟨4, .point (some 20) 2⟩] := by rfl
  refine ⟨hdecode, (deSerialize_contained_iff _ twoByteMessage 22 _ hdecode).mpr ?_⟩
  exact ⟨by decide, trivial⟩

/-- A message whose pointer header claims a size that wraps the computed end around to 0. -/
def wrappingMessage : List UInt8 :=
  Bytes.le 4 1 ++ Bytes.le 8 pointType ++ Bytes.le 8 (2 ^ 64 - 20)

theorem wrappingMessage_not_contained :
    wrappingMessage.length = 20 ∧
      deSerialize [.point true] (some wrappingMessage) 20 =
        .ok [⟨4, .point (some 20) (2 ^ 64 - 20)⟩] ∧
      ¬ Contained 20 [⟨4, .point (some 20) (2 ^ 64 - 20)⟩] := by
  refine ⟨by decide, by rfl, fun hcontained => ?_⟩
  have hinside := hcontained.inside _ List.mem_cons_self
  have hmem : 20 ∈ Decoded.region ⟨4, .point (some 20) (2 ^ 64 - 20)⟩ := by
    simp [Decoded.region, Decoded.offset, Decoded.size]
  exact absurd (hinside hmem).2 (by decide)

end ITrustee.Serialize
