import Mathlib.Tactic
import ITrustee.Teleport.SerializeRoundTrip

/-!
# Where the values of a message are

A message has the bytes of each value at a place that its values before it determine. Reading there gives
the value, and writing there gives the message of the changed values. `layout` is what `DeSerialize`
makes of a message, exactly.
-/

namespace ITrustee.Serialize

open CInt

/-! ### Headers -/

/-- What stands before the bytes of a value; an integer is all header. -/
def Value.header : Value → List UInt8
  | integer value => Bytes.le 8 integerType ++ Bytes.le 8 value.toNat
  | bytes content => Bytes.le 8 pointType ++ Bytes.le 8 content.length
  | null => Bytes.le 8 pointType ++ Bytes.le 8 0

theorem Value.encode_eq (v : Value) : v.encode = v.header ++ v.payload := by
  cases v with
  | integer value => exact (List.append_nil _).symm
  | bytes content => exact (List.append_assoc _ _ _).symm
  | null => exact (List.append_nil _).symm

theorem Value.length_header (v : Value) : v.header.length = 16 := by
  cases v <;> rw [Value.header, List.length_append, Bytes.le_length, Bytes.le_length]

/-- The value with these bytes written over its own, from the first on. -/
def Value.overwrite (v : Value) (out : List UInt8) : Value :=
  match v with
  | bytes content => .bytes (Bytes.store content 0 out)
  | v => v

theorem length_store_zero {content out : List UInt8} (h : out.length ≤ content.length) :
    (Bytes.store content 0 out).length = content.length :=
  Bytes.store_length (by omega)

theorem Value.header_overwrite {v : Value} {out : List UInt8} (h : out.length ≤ v.payload.length) :
    (v.overwrite out).header = v.header := by
  cases v with
  | bytes content =>
      have hlength : (Bytes.store content 0 out).length = content.length := length_store_zero h
      rw [Value.overwrite, Value.header, Value.header, hlength]
  | integer value => rfl
  | null => rfl

theorem Value.payload_overwrite {v : Value} {out : List UInt8} (h : out.length ≤ v.payload.length) :
    (v.overwrite out).payload = Bytes.store v.payload 0 out := by
  have hnil (h : out.length ≤ ([] : List UInt8).length) : [] = Bytes.store [] 0 out := by
    rw [List.eq_nil_of_length_eq_zero (Nat.le_zero.mp h)]
    rfl
  cases v with
  | bytes content => rfl
  | integer value => exact hnil h
  | null => exact hnil h

theorem Value.size_overwrite {v : Value} {out : List UInt8} (h : out.length ≤ v.payload.length) :
    (v.overwrite out).size = v.size := by
  rw [Value.size, Value.payload_overwrite h, length_store_zero h, Value.size]

/-! ### Places -/

def payloadOf (values : List Value) (i : Nat) : List UInt8 :=
  match values[i]? with
  | some v => v.payload
  | none => []

def payloadAt (values : List Value) (i : Nat) : Nat := 4 + ((values.take i).map Value.size).sum + 16

section Places

variable {values : List Value} {i : Nat} {v : Value} {out : List UInt8}

theorem payloadOf_eq (h : values[i]? = some v) : payloadOf values i = v.payload := by
  rw [payloadOf, h]

/-- A message up to the bytes of the value, these bytes, and the rest. -/
theorem message_split (h : values[i]? = some v) (w : Value) (hheader : w.header = v.header) :
    message (values.set i w) = (Bytes.le 4 values.length ++ (values.take i).flatMap Value.encode ++
      v.header) ++ (w.payload ++ (values.drop (i + 1)).flatMap Value.encode) := by
  obtain ⟨hi, rfl⟩ := List.getElem?_eq_some_iff.mp h
  rw [message, List.length_set, List.set_eq_take_append_cons_drop, if_pos hi, List.flatMap_append,
    List.flatMap_cons, Value.encode_eq w, hheader]
  simp only [List.append_assoc]

theorem length_before (v : Value) :
    (Bytes.le 4 values.length ++ (values.take i).flatMap Value.encode ++ v.header).length =
      payloadAt values i := by
  rw [List.length_append, List.length_append, Bytes.le_length, Value.length_header, List.length_flatMap,
    payloadAt]
  simp only [Value.encode_length]

theorem message_eq (h : values[i]? = some v) :
    message values = (Bytes.le 4 values.length ++ (values.take i).flatMap Value.encode ++ v.header) ++
      (v.payload ++ (values.drop (i + 1)).flatMap Value.encode) := by
  have hself : values.set i v = values := by
    obtain ⟨hi, rfl⟩ := List.getElem?_eq_some_iff.mp h
    exact List.set_getElem_self hi
  have hsplit := message_split h v rfl
  rwa [hself] at hsplit

theorem payloadAt_add_le (h : values[i]? = some v) :
    payloadAt values i + v.payload.length ≤ totalSize values := by
  rw [← length_message, message_eq h, List.length_append, length_before, List.length_append]
  omega

theorem slice_message (h : values[i]? = some v) (tail : List UInt8) :
    Bytes.slice (message values ++ tail) (payloadAt values i) v.payload.length = v.payload := by
  have hslice := Bytes.slice_append
    (Bytes.le 4 values.length ++ (values.take i).flatMap Value.encode ++ v.header)
    ((v.payload ++ (values.drop (i + 1)).flatMap Value.encode) ++ tail) 0 v.payload.length
  rw [length_before, Nat.add_zero, ← List.append_assoc, ← message_eq h, List.append_assoc,
    Bytes.slice_self_append] at hslice
  exact hslice

theorem drop_message (h : values[i]? = some v) (tail : List UInt8) :
    (message values ++ tail).drop (payloadAt values i) =
      v.payload ++ ((values.drop (i + 1)).flatMap Value.encode ++ tail) := by
  rw [message_eq h, ← length_before v, List.append_assoc _ _ tail, List.drop_left, List.append_assoc]

/-- Writing over the bytes of a value. -/
theorem store_message (h : values[i]? = some v) (hout : out.length ≤ v.payload.length)
    (tail : List UInt8) :
    Bytes.store (message values ++ tail) (payloadAt values i) out =
      message (values.set i (v.overwrite out)) ++ tail := by
  have hstore := Bytes.store_append
    (Bytes.le 4 values.length ++ (values.take i).flatMap Value.encode ++ v.header)
    ((v.payload ++ (values.drop (i + 1)).flatMap Value.encode) ++ tail) 0 out
  rw [length_before, ← List.append_assoc, ← message_eq h] at hstore
  simp only [Nat.add_zero] at hstore
  rw [hstore, message_split h _ (Value.header_overwrite hout), Value.payload_overwrite hout,
    Bytes.store_zero, Bytes.store_zero, List.append_assoc v.payload,
    List.drop_append_of_le_length hout]
  simp only [List.append_assoc]

theorem sizes_set (h : values[i]? = some v) {w : Value} (hsize : w.size = v.size) :
    (values.set i w).map Value.size = values.map Value.size := by
  obtain ⟨hi, rfl⟩ := List.getElem?_eq_some_iff.mp h
  have hself := congrArg (List.map Value.size) (List.set_getElem_self hi)
  rwa [List.map_set, ← hsize, ← List.map_set] at hself

/-- Writing over the bytes of a value moves no other. -/
theorem payloadAt_set (h : values[i]? = some v) (hout : out.length ≤ v.payload.length) (j : Nat) :
    payloadAt (values.set i (v.overwrite out)) j = payloadAt values j := by
  rw [payloadAt, payloadAt, List.map_take, List.map_take, sizes_set h (Value.size_overwrite hout)]

theorem totalSize_set (h : values[i]? = some v) (hout : out.length ≤ v.payload.length) :
    totalSize (values.set i (v.overwrite out)) = totalSize values := by
  rw [totalSize, totalSize, sizes_set h (Value.size_overwrite hout)]

end Places

/-! ### What is decoded -/

def Value.decoded (header : Nat) : Value → Decoded
  | integer value => ⟨header, .integer value⟩
  | bytes content =>
      ⟨header, .point (if content.length ≠ 0 then some (header + 16) else none) content.length⟩
  | null => ⟨header, .point none 0⟩

def layout : Nat → List Value → List Decoded
  | _, [] => []
  | header, v :: values => v.decoded header :: layout (header + v.size) values

theorem deSerializeLoop_layout {buf : List UInt8} {n : Nat} (hn : n < 2 ^ 32) (values : List Value)
    (done tail : List UInt8) (hbuf : buf = done ++ (values.flatMap Value.encode ++ tail))
    (hroom : done.length + (values.map Value.size).sum ≤ n) :
    deSerializeLoop buf n (values.map Value.ref) done.length = .ok (layout done.length values) := by
  induction values generalizing done with
  | nil => rfl
  | cons v values ih =>
      rw [List.map_cons, List.sum_cons] at hroom
      have hsplit : buf = (done ++ v.encode) ++ (values.flatMap Value.encode ++ tail) := by
        simpa only [List.flatMap_cons, List.append_assoc] using hbuf
      have hrest := ih (done ++ v.encode) hsplit
        (by rw [List.length_append, Value.encode_length]; omega)
      obtain ⟨d, hd, hdecoded⟩ := deSerializeLoop_cons v (values.map Value.ref)
        (by rw [hsplit, List.append_assoc]) (by omega) hn hrest
      rw [List.length_append, Value.encode_length] at hd
      suffices hsame : d = v.decoded done.length by rw [List.map_cons, hd, hsame, layout]
      cases v with
      | integer value =>
          obtain ⟨value', rest, -, -, hout⟩ := deSerializeLoop_integer_ok hd
          obtain ⟨rfl, -⟩ := List.cons.inj hout
          exact congrArg (Decoded.mk _) hdecoded
      | bytes content =>
          obtain ⟨ref, size, rest, hpoint, -, hout⟩ := deSerializeLoop_point_ok hd
          obtain ⟨rfl, -⟩ := List.cons.inj hout
          have hplace := (pointTypeDeserialize_ok hpoint).2.2.2
          rw [Value.DecodedAs] at hdecoded
          split_ifs at hdecoded with hempty
          · obtain ⟨rfl, rfl⟩ := RetArg.point.inj hdecoded
            rw [Value.decoded, hempty]
            rfl
          · obtain ⟨off, harg, -⟩ := hdecoded
            obtain ⟨-, rfl⟩ := RetArg.point.inj harg
            rw [Value.decoded, hplace]
            rfl
      | null =>
          obtain ⟨ref, size, rest, -, -, hout⟩ := deSerializeLoop_point_ok hd
          obtain ⟨rfl, -⟩ := List.cons.inj hout
          exact congrArg (Decoded.mk _) hdecoded

theorem deSerialize_layout (values : List Value) (tail : List UInt8) (n : UInt32)
    (hroom : totalSize values ≤ n.toNat) :
    deSerialize (values.map Value.ref) (some (message values ++ tail)) n = .ok (layout 4 values) := by
  obtain ⟨out, hout, -⟩ := deSerialize_message values tail n hroom
  obtain ⟨-, -, hloop⟩ := deSerialize_ok hout
  rw [totalSize] at hroom
  have hlayout := deSerializeLoop_layout n.toNat_lt values (Bytes.le 4 values.length) tail
    (List.append_assoc _ _ _) (by rw [Bytes.le_length]; omega)
  rw [Bytes.le_length, ← message] at hlayout
  rw [hout, ← hloop, hlayout]

theorem layout_getElem? (values : List Value) (header i : Nat) :
    (layout header values)[i]? =
      values[i]?.map (Value.decoded (header + ((values.take i).map Value.size).sum)) := by
  induction values generalizing header i with
  | nil => rfl
  | cons v values ih =>
      cases i with
      | zero => rfl
      | succ i =>
          rw [layout, List.getElem?_cons_succ, List.getElem?_cons_succ, ih, List.take_succ_cons,
            List.map_cons, List.sum_cons, Nat.add_assoc]

end ITrustee.Serialize
