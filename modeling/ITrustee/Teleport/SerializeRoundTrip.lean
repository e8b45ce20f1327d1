import Mathlib.Tactic
import ITrustee.Teleport.SerializeBounds

/-!
# Serialising and reading back

What one side serialises, the other side reads back. The values passed are 64-bit integers, byte
sequences and null pointers; `Value.encode` is the message a value becomes. The encoder is followed
with the buffer split at the write position, so that one value turns `done ++ rest` into
`(done ++ encode value) ++ rest'`, and the decoder with the same split at the read position.
-/

namespace ITrustee.Serialize

open CInt

/-- A value passed to the other side. -/
inductive Value where
  | integer (value : UInt64)
  | bytes (content : List UInt8)
  | null

namespace Value

def arg : Value → Arg
  | integer value => .integer value
  | bytes content => .point (some content) content.length
  | null => .point none 0

def ref : Value → ArgRef
  | integer _ => .integer true
  | bytes _ => .point true
  | null => .point true

/-- The bytes that follow the storage header. -/
def payload : Value → List UInt8
  | integer _ => []
  | bytes content => content
  | null => []

def encode : Value → List UInt8
  | integer value => Bytes.le 8 integerType ++ Bytes.le 8 value.toNat
  | bytes content => Bytes.le 8 pointType ++ (Bytes.le 8 content.length ++ content)
  | null => Bytes.le 8 pointType ++ Bytes.le 8 0

def size (v : Value) : Nat := 16 + v.payload.length

@[simp] theorem encode_length (v : Value) : v.encode.length = v.size := by
  cases v <;> simp [encode, size, payload, ← Nat.add_assoc]

/-- The decoded argument carries the value; a pointer of size zero is null. -/
def DecodedAs (buf : List UInt8) (d : Decoded) : Value → Prop
  | integer value => d.arg = .integer value
  | bytes content =>
      if content = [] then d.arg = .point none 0
      else ∃ off, d.arg = .point (some off) content.length ∧
        Bytes.slice buf off content.length = content
  | null => d.arg = .point none 0

end Value

/-- The size of the message for a list of values. -/
def totalSize (values : List Value) : Nat := 4 + (values.map Value.size).sum

/-! ### The size -/

theorem overflowCheck_eq_false {a b : Nat} (h : a + b < 2 ^ 32) : overflowCheck a b = false := by
  have ha : u32 a = a := u32_of_lt (by omega)
  have hb : u32 b = b := u32_of_lt (by omega)
  simp only [overflowCheck, ha, hb, decide_eq_false_iff_not]
  omega

theorem calculateLoop_eq (values : List Value) (buffSize : Nat)
    (h : buffSize + (values.map Value.size).sum < 2 ^ 32) :
    calculateLoop (values.map Value.arg) buffSize =
      (0, buffSize + (values.map Value.size).sum) := by
  induction values generalizing buffSize with
  | nil => rfl
  | cons v values ih =>
      rw [List.map_cons, List.sum_cons, ← Nat.add_assoc] at h
      rw [List.map_cons, List.map_cons, List.sum_cons, ← Nat.add_assoc, ← ih _ h]
      have hsize : buffSize + v.size < 2 ^ 32 := by omega
      cases v with
      | integer value =>
          change buffSize + 16 < 2 ^ 32 at hsize
          rw [Value.arg, calculateLoop, sizeofIntegerStorage,
            overflowCheck_eq_false hsize, u32_of_lt hsize]
          rfl
      | bytes content =>
          change buffSize + (16 + content.length) < 2 ^ 32 at hsize
          have hpoint : u64 (16 + content.length) = 16 + content.length := u64_of_lt (by omega)
          rw [Value.arg, calculateLoop, sizeofPointStorage, overflowCheck_eq_false (by omega),
            hpoint, overflowCheck_eq_false hsize, u32_of_lt hsize]
          rfl
      | null =>
          change buffSize + (16 + 0) < 2 ^ 32 at hsize
          have hpoint : u64 (16 + 0) = 16 + 0 := u64_of_lt (by omega)
          rw [Value.arg, calculateLoop, sizeofPointStorage, overflowCheck_eq_false (by omega),
            hpoint, overflowCheck_eq_false hsize, u32_of_lt hsize]
          rfl

theorem calculateBuffSize_eq (values : List Value) (h : totalSize values < 2 ^ 32) :
    calculateBuffSize (values.map Value.arg) = (0, totalSize values) :=
  calculateLoop_eq values 4 h

/-! ### The encoder -/

section Encoder

variable {lib : Securec} {done rest : List UInt8}

theorem interTypeSerialize_eq (value : UInt64) (hroom : 16 ≤ rest.length) :
    interTypeSerialize (done ++ rest) (done.length + rest.length) done.length value =
      (0, done ++ (Value.encode (.integer value) ++ rest.drop 16)) := by
  have hcheck : serializeInterBuffValidCheck (done.length + rest.length) done.length = 0 := by
    rw [serializeInterBuffValidCheck, if_neg]
    simp only [sizeofIntegerStorage]
    omega
  have htype : Bytes.store (done ++ rest) done.length (Bytes.le 8 integerType) =
      (done ++ Bytes.le 8 integerType) ++ rest.drop 8 := by
    rw [Bytes.store_append_self, Bytes.le_length, List.append_assoc]
  have hvalue := Bytes.store_append_self (done ++ Bytes.le 8 integerType) (rest.drop 8)
    (Bytes.le 8 value.toNat)
  simp only [List.length_append, Bytes.le_length, List.drop_drop] at hvalue
  rw [interTypeSerialize, if_neg (not_not.mpr hcheck)]
  simp only [htype, hvalue]
  simp only [Value.encode, List.append_assoc]

theorem interTypeSerialize_ne (done : List UInt8) (value : UInt64) (hroom : rest.length < 16) :
    (interTypeSerialize (done ++ rest) (done.length + rest.length) done.length value).1 ≠ 0 := by
  have hcheck : serializeInterBuffValidCheck (done.length + rest.length) done.length ≠ 0 := by
    rw [serializeInterBuffValidCheck, if_pos]
    · decide
    · simp only [sizeofIntegerStorage]
      omega
  rw [interTypeSerialize, if_pos hcheck]
  show -eNoMem ≠ 0
  decide

/-- The header of a pointer, written around the bytes already copied behind it. -/
theorem store_pointHeader (done : List UInt8) (n : Nat) (body : List UInt8)
    (hroom : 16 ≤ rest.length) :
    Bytes.store ((done ++ (Bytes.le 8 pointType ++ (rest.drop 8).take 8)) ++ body)
        (done.length + 8) (Bytes.le 8 n) =
      done ++ (Bytes.le 8 pointType ++ (Bytes.le 8 n ++ body)) := by
  have hgap : ((rest.drop 8).take 8).length = 8 := by
    rw [List.length_take, List.length_drop]
    omega
  have hstore := Bytes.store_append_self (done ++ Bytes.le 8 pointType)
    ((rest.drop 8).take 8 ++ body) (Bytes.le 8 n)
  rw [Bytes.le_length, List.drop_left' hgap] at hstore
  simpa only [List.length_append, Bytes.le_length, List.append_assoc] using hstore

theorem pointTypeSerialize_eq (hlib : lib.CopiesWithinMax)
    (hmax : done.length + rest.length ≤ Securec.maxLen) (addr : Option (List UInt8))
    (hroom : 16 + (addr.getD []).length ≤ rest.length) :
    pointTypeSerialize lib (done ++ rest) (done.length + rest.length) done.length addr
        (addr.getD []).length =
      (0, done ++ ((Bytes.le 8 pointType ++ (Bytes.le 8 (addr.getD []).length ++ addr.getD [])) ++
        rest.drop (16 + (addr.getD []).length))) := by
  generalize hcontent : addr.getD [] = content at hroom ⊢
  have hcheck : serializePointBuffValidCheck (done.length + rest.length) done.length = 0 := by
    rw [serializePointBuffValidCheck, if_neg]
    simp only [sizeofPointStorage]
    omega
  have htype : Bytes.store (done ++ rest) done.length (Bytes.le 8 pointType) =
      (done ++ (Bytes.le 8 pointType ++ (rest.drop 8).take 8)) ++ rest.drop 16 := by
    have hsplit : rest.drop 8 = (rest.drop 8).take 8 ++ rest.drop 16 := by
      rw [← List.drop_drop (i := 8) (j := 8), List.take_append_drop]
    rw [Bytes.store_append_self, Bytes.le_length]
    nth_rewrite 1 [hsplit]
    simp only [List.append_assoc]
  have hhead : (done ++ (Bytes.le 8 pointType ++ (rest.drop 8).take 8)).length =
      done.length + 16 := by
    simp only [List.length_append, Bytes.le_length, List.length_take, List.length_drop]
    omega
  have hheader := fun body => store_pointHeader done content.length body
    (show 16 ≤ rest.length by omega)
  rw [pointTypeSerialize, if_neg (not_not.mpr hcheck)]
  simp only [htype, hcontent, sizeofPointStorage, List.drop_left' hhead, List.take_left' hhead]
  by_cases hempty : content.length = 0
  · obtain rfl := List.length_eq_zero_iff.mp hempty
    simp only [List.length_nil, ne_eq, not_true_eq_false, false_and, if_false] at hheader ⊢
    rw [hheader]
    simp only [List.append_assoc, List.nil_append, Nat.add_zero]
  · have hcopy := hlib.copies (rest.drop 16) (done.length + rest.length - done.length - 16) content
      content.length (by omega) (by omega) (by omega)
    rw [List.take_length, List.drop_drop] at hcopy
    simp only [hcopy, ne_eq, not_true_eq_false, and_false, if_false, hempty, not_false_eq_true,
      if_true]
    rw [hheader]
    simp only [List.append_assoc]

theorem pointTypeSerialize_ne (hlib : lib.CopiesWithinMax) (done : List UInt8)
    (addr : Option (List UInt8))
    (hroom : rest.length < 16 + (addr.getD []).length) :
    (pointTypeSerialize lib (done ++ rest) (done.length + rest.length) done.length addr
      (addr.getD []).length).1 ≠ 0 := by
  by_cases hcheck : serializePointBuffValidCheck (done.length + rest.length) done.length ≠ 0
  · rw [pointTypeSerialize, if_pos hcheck]
    show -eNoMem ≠ 0
    decide
  · have hheader : 16 ≤ rest.length := by
      unfold serializePointBuffValidCheck at hcheck
      split_ifs at hcheck with hsmall
      · exact absurd (show -eNoMem ≠ 0 by decide) hcheck
      · simp only [sizeofPointStorage] at hsmall
        omega
    have hrefuse := hlib.refuses
      ((Bytes.store (done ++ rest) done.length (Bytes.le 8 pointType)).drop
        (done.length + sizeofPointStorage))
      (done.length + rest.length - done.length - sizeofPointStorage) (addr.getD [])
      (addr.getD []).length (by rw [sizeofPointStorage]; omega)
    have hsize : (addr.getD []).length ≠ 0 := by omega
    rw [pointTypeSerialize, if_neg hcheck]
    dsimp only
    rw [if_pos ⟨hsize, hrefuse⟩]
    show -eNoMem ≠ 0
    decide

/-- One value that fits becomes its encoding, and the loop goes on behind it. -/
theorem serializeLoop_cons (hlib : lib.CopiesWithinMax)
    (hmax : done.length + rest.length ≤ Securec.maxLen) (v : Value) (args : List Arg)
    (hroom : v.size ≤ rest.length) :
    serializeLoop lib (done.length + rest.length) (v.arg :: args) (done ++ rest) done.length =
      serializeLoop lib (done.length + rest.length) args
        ((done ++ v.encode) ++ rest.drop v.size) (done ++ v.encode).length := by
  have hbound : Securec.maxLen < 2 ^ 32 := by decide
  rw [List.length_append, Value.encode_length, List.append_assoc]
  cases v with
  | integer value =>
      change 16 ≤ rest.length at hroom
      have hnext : u32 (done.length + sizeofIntegerStorage) = done.length + 16 :=
        u32_of_lt (by rw [sizeofIntegerStorage]; omega)
      rw [Value.arg, serializeLoop, interTypeSerialize_eq value hroom]
      simp only [ne_eq, not_true_eq_false, if_false, hnext]
      rfl
  | bytes content =>
      change 16 + content.length ≤ rest.length at hroom
      have hnext : u32 (done.length + u64 (sizeofPointStorage + content.length)) =
          done.length + (16 + content.length) := by
        rw [sizeofPointStorage, u64_of_lt (by omega), u32_of_lt (by omega)]
      have hpoint := pointTypeSerialize_eq hlib hmax (some content) hroom
      simp only [Option.getD_some] at hpoint
      rw [Value.arg, serializeLoop]
      simp only [Option.isNone_some, Bool.false_eq_true, and_false, if_false, hpoint, ne_eq,
        not_true_eq_false, hnext]
      rfl
  | null =>
      change 16 + 0 ≤ rest.length at hroom
      have hnext : u32 (done.length + u64 (sizeofPointStorage + 0)) = done.length + (16 + 0) := by
        rw [sizeofPointStorage, u64_of_lt (by omega), u32_of_lt (by omega)]
      have hpoint := pointTypeSerialize_eq hlib hmax none hroom
      simp only [Option.getD_none, List.length_nil, List.append_nil] at hpoint
      rw [Value.arg, serializeLoop]
      simp only [ne_eq, not_true_eq_false, false_and, if_false, hpoint, hnext]
      rfl

theorem serializeLoop_cons_ne (hlib : lib.CopiesWithinMax) (v : Value) (args : List Arg)
    (hroom : rest.length < v.size) :
    (serializeLoop lib (done.length + rest.length) (v.arg :: args) (done ++ rest)
      done.length).1 ≠ 0 := by
  cases v with
  | integer value =>
      have hne := interTypeSerialize_ne done value hroom
      rw [Value.arg, serializeLoop]
      simp only [if_pos hne]
      exact hne
  | bytes content =>
      have hne := pointTypeSerialize_ne hlib done (some content) hroom
      simp only [Option.getD_some] at hne
      rw [Value.arg, serializeLoop]
      simp only [Option.isNone_some, Bool.false_eq_true, and_false, if_false, if_pos hne]
      exact hne
  | null =>
      have hne := pointTypeSerialize_ne hlib done none hroom
      simp only [Option.getD_none, List.length_nil] at hne
      rw [Value.arg, serializeLoop]
      simp only [ne_eq, not_true_eq_false, false_and, if_false] at hne ⊢
      rw [if_pos hne]
      exact hne

end Encoder

theorem serializeLoop_eq {lib : Securec} (hlib : lib.CopiesWithinMax) (values : List Value)
    (done rest : List UInt8) (hmax : done.length + rest.length ≤ Securec.maxLen)
    (hroom : (values.map Value.size).sum ≤ rest.length) :
    serializeLoop lib (done.length + rest.length) (values.map Value.arg) (done ++ rest)
        done.length =
      (0, done ++ (values.flatMap Value.encode ++ rest.drop (values.map Value.size).sum)) := by
  induction values generalizing done rest with
  | nil => rfl
  | cons v values ih =>
      rw [List.map_cons, List.sum_cons] at hroom
      have hlength : (done ++ v.encode).length + (rest.drop v.size).length =
          done.length + rest.length := by
        rw [List.length_append, Value.encode_length, List.length_drop]
        omega
      have hrest := ih (done ++ v.encode) (rest.drop v.size) (by omega)
        (by rw [List.length_drop]; omega)
      rw [List.map_cons, serializeLoop_cons hlib hmax v _ (by omega), ← hlength, hrest]
      simp only [List.flatMap_cons, List.map_cons, List.sum_cons, List.drop_drop,
        List.append_assoc]

theorem serializeLoop_ne {lib : Securec} (hlib : lib.CopiesWithinMax) (values : List Value)
    (done rest : List UInt8) (hmax : done.length + rest.length ≤ Securec.maxLen)
    (hroom : rest.length < (values.map Value.size).sum) :
    (serializeLoop lib (done.length + rest.length) (values.map Value.arg) (done ++ rest)
      done.length).1 ≠ 0 := by
  induction values generalizing done rest with
  | nil => simp at hroom
  | cons v values ih =>
      rw [List.map_cons, List.sum_cons] at hroom
      rw [List.map_cons]
      by_cases hfit : v.size ≤ rest.length
      · have hlength : (done ++ v.encode).length + (rest.drop v.size).length =
            done.length + rest.length := by
          rw [List.length_append, Value.encode_length, List.length_drop]
          omega
        rw [serializeLoop_cons hlib hmax v _ hfit, ← hlength]
        exact ih (done ++ v.encode) (rest.drop v.size) (by omega) (by rw [List.length_drop]; omega)
      · exact serializeLoop_cons_ne hlib v _ (not_le.mp hfit)

/-- A null pointer with a size is refused, if nothing before it is. -/
theorem serializeLoop_null_ne {lib : Securec} (hlib : lib.CopiesWithinMax) (values : List Value)
    {size : Nat} (hsize : size ≠ 0) (args : List Arg) (done rest : List UInt8)
    (hmax : done.length + rest.length ≤ Securec.maxLen) :
    (serializeLoop lib (done.length + rest.length)
      (values.map Value.arg ++ .point none size :: args) (done ++ rest) done.length).1 ≠ 0 := by
  induction values generalizing done rest with
  | nil =>
      rw [List.map_nil, List.nil_append, serializeLoop, if_pos ⟨hsize, rfl⟩]
      show -eInval ≠ 0
      decide
  | cons v values ih =>
      rw [List.map_cons, List.cons_append]
      by_cases hfit : v.size ≤ rest.length
      · have hlength : (done ++ v.encode).length + (rest.drop v.size).length =
            done.length + rest.length := by
          rw [List.length_append, Value.encode_length, List.length_drop]
          omega
        rw [serializeLoop_cons hlib hmax v _ hfit, ← hlength]
        exact ih (done ++ v.encode) (rest.drop v.size) (by omega)
      · exact serializeLoop_cons_ne hlib v _ (not_le.mp hfit)

/-- The message for a list of values. -/
def message (values : List Value) : List UInt8 :=
  Bytes.le 4 values.length ++ values.flatMap Value.encode

theorem length_message (values : List Value) : (message values).length = totalSize values := by
  rw [message, List.length_append, Bytes.le_length, List.length_flatMap, totalSize]
  simp only [Value.encode_length]

theorem serialize_eq {lib : Securec} (hlib : lib.CopiesWithinMax) (values : List Value)
    (dest : List UInt8) (n : UInt32) (hn : n.toNat = dest.length)
    (hmax : dest.length ≤ Securec.maxLen) (hroom : totalSize values ≤ dest.length) :
    serialize lib (values.map Value.arg) (some dest) n =
      (0, message values ++ dest.drop (totalSize values)) := by
  rw [totalSize] at hroom ⊢
  have hloop := serializeLoop_eq hlib values (Bytes.le 4 values.length) (dest.drop 4)
    (by rw [Bytes.le_length, List.length_drop]; omega) (by rw [List.length_drop]; omega)
  have hlength : (Bytes.le 4 values.length).length + (dest.drop 4).length = n.toNat := by
    rw [Bytes.le_length, List.length_drop, hn]
    omega
  have hcheck : serializeParamValidCheck (some dest) n.toNat = 0 := by
    rw [serializeParamValidCheck, if_neg]
    simp only [Option.isNone_some, Bool.false_eq_true, false_or]
    omega
  rw [hlength, Bytes.le_length] at hloop
  rw [serialize, if_neg (not_not.mpr hcheck)]
  simp only [Option.getD_some, Bytes.store_zero, Bytes.le_length, List.length_map, hloop, message,
    List.drop_drop, List.append_assoc]

/-- `Serialize` fails where its loop does, and on a buffer without room for the count. -/
theorem serialize_ne_of_loop {lib : Securec} {args : List Arg} {dest : List UInt8} {n : UInt32}
    (hn : n.toNat = dest.length)
    (hloop : 4 ≤ dest.length → (serializeLoop lib
      ((Bytes.le 4 args.length).length + (dest.drop 4).length) args
      (Bytes.le 4 args.length ++ dest.drop 4) (Bytes.le 4 args.length).length).1 ≠ 0) :
    (serialize lib args (some dest) n).1 ≠ 0 := by
  unfold serialize
  split_ifs with hcheck
  · show -eInval ≠ 0
    decide
  · have hcount : 4 ≤ dest.length := by
      unfold serializeParamValidCheck at hcheck
      split_ifs at hcheck with hsmall
      · exact absurd (show -eInval ≠ 0 by decide) hcheck
      · simp only [Option.isNone_some, Bool.false_eq_true, false_or] at hsmall
        omega
    have hlength : 4 + (dest.drop 4).length = n.toNat := by
      rw [List.length_drop, hn]
      omega
    have hne := hloop hcount
    rw [Bytes.le_length, hlength] at hne
    simpa only [Option.getD_some, Bytes.store_zero, Bytes.le_length] using hne

theorem serialize_ne {lib : Securec} (hlib : lib.CopiesWithinMax) (values : List Value)
    (dest : List UInt8) (n : UInt32) (hn : n.toNat = dest.length)
    (hmax : dest.length ≤ Securec.maxLen) (hroom : dest.length < totalSize values) :
    (serialize lib (values.map Value.arg) (some dest) n).1 ≠ 0 := by
  rw [totalSize] at hroom
  refine serialize_ne_of_loop hn fun hcount => ?_
  rw [List.length_map]
  have hlength : (Bytes.le 4 values.length).length + (dest.drop 4).length = dest.length := by
    rw [Bytes.le_length, List.length_drop]
    omega
  exact serializeLoop_ne hlib values (Bytes.le 4 values.length) (dest.drop 4)
    (by omega) (by rw [List.length_drop]; omega)

theorem serialize_null_ne {lib : Securec} (hlib : lib.CopiesWithinMax) (values : List Value)
    {size : Nat} (hsize : size ≠ 0) (args : List Arg) (dest : List UInt8) (n : UInt32)
    (hn : n.toNat = dest.length) (hmax : dest.length ≤ Securec.maxLen) :
    (serialize lib (values.map Value.arg ++ .point none size :: args) (some dest) n).1 ≠ 0 := by
  refine serialize_ne_of_loop hn fun hcount => ?_
  refine serializeLoop_null_ne hlib values hsize args _ (dest.drop 4) ?_
  rw [Bytes.le_length, List.length_drop]
  omega

/-! ### The decoder -/

section Decoder

variable {buf done tail : List UInt8} {n : Nat}

theorem interTypeDeserialize_eq {value : UInt64}
    (hbuf : buf = done ++ (Value.encode (.integer value) ++ tail))
    (hroom : done.length + 16 ≤ n) :
    interTypeDeserialize buf n done.length = .ok value := by
  have hcheck : serializeInterBuffValidCheck n done.length = 0 := by
    rw [serializeInterBuffValidCheck, if_neg]
    simp only [sizeofIntegerStorage]
    omega
  have htype : Bytes.load 8 buf done.length = integerType := by
    have h := Bytes.load_append 8 done (Value.encode (.integer value) ++ tail) 0
    rw [Value.encode, List.append_assoc, Bytes.load_le_append, Nat.add_zero] at h
    rw [hbuf, Value.encode, List.append_assoc, h]
    decide
  have hvalue : Bytes.load 8 buf (done.length + 8) = value.toNat := by
    have h := Bytes.load_append 8 (done ++ Bytes.le 8 integerType)
      (Bytes.le 8 value.toNat ++ tail) 0
    rw [Bytes.load_le_append, Nat.add_zero, List.length_append, Bytes.le_length,
      List.append_assoc] at h
    rw [hbuf, Value.encode, List.append_assoc, h]
    exact Nat.mod_eq_of_lt value.toNat_lt
  have htypecheck : paramTypeCheck (u32 integerType) integerType = 0 := by decide
  rw [interTypeDeserialize, if_neg (not_not.mpr hcheck), htype, if_neg (not_not.mpr htypecheck),
    hvalue, UInt64.ofNat_toNat]

/-- The size in the header of a pointer. -/
theorem load_pointSize {content : List UInt8}
    (hbuf : buf =
      done ++ ((Bytes.le 8 pointType ++ (Bytes.le 8 content.length ++ content)) ++ tail))
    (hlt : content.length < 2 ^ 64) : Bytes.load 8 buf (done.length + 8) = content.length := by
  have h := Bytes.load_append 8 (done ++ Bytes.le 8 pointType)
    (Bytes.le 8 content.length ++ (content ++ tail)) 0
  rw [Bytes.load_le_append, Nat.add_zero, List.length_append, Bytes.le_length,
    List.append_assoc] at h
  rw [hbuf]
  simp only [List.append_assoc]
  rw [h]
  exact Nat.mod_eq_of_lt hlt

theorem pointTypeDeserialize_eq {content : List UInt8}
    (hbuf : buf =
      done ++ ((Bytes.le 8 pointType ++ (Bytes.le 8 content.length ++ content)) ++ tail))
    (hroom : done.length + (16 + content.length) ≤ n) (hn : n < 2 ^ 32) :
    pointTypeDeserialize buf n done.length =
      .ok (if content.length ≠ 0 then some (done.length + 16) else none, content.length) := by
  have hcheck : serializePointBuffValidCheck n done.length = 0 := by
    rw [serializePointBuffValidCheck, if_neg]
    simp only [sizeofPointStorage]
    omega
  have htype : Bytes.load 8 buf done.length = pointType := by
    have h := Bytes.load_append 8 done
      ((Bytes.le 8 pointType ++ (Bytes.le 8 content.length ++ content)) ++ tail) 0
    rw [List.append_assoc (Bytes.le 8 pointType), Bytes.load_le_append, Nat.add_zero] at h
    rw [hbuf, List.append_assoc (Bytes.le 8 pointType), h]
    decide
  have hsize := load_pointSize hbuf (by omega)
  have htypecheck : paramTypeCheck (u32 pointType) pointType = 0 := by decide
  have hend : ¬ n < u64 (done.length + sizeofPointStorage + content.length) := by
    rw [sizeofPointStorage, u64_of_lt (by omega)]
    omega
  rw [pointTypeDeserialize, if_neg (not_not.mpr hcheck), htype, if_neg (not_not.mpr htypecheck)]
  simp only [hsize, if_neg hend]
  split_ifs <;> rfl

/-- One encoded value is read back, and the loop goes on behind it. -/
theorem deSerializeLoop_cons (v : Value) (args : List ArgRef)
    (hbuf : buf = done ++ (v.encode ++ tail)) (hroom : done.length + v.size ≤ n)
    (hn : n < 2 ^ 32) {rest : List Decoded}
    (hrest : deSerializeLoop buf n args (done ++ v.encode).length = .ok rest) :
    ∃ d, deSerializeLoop buf n (v.ref :: args) done.length = .ok (d :: rest) ∧
      v.DecodedAs buf d := by
  rw [List.length_append, Value.encode_length] at hrest
  cases v with
  | integer value =>
      change done.length + 16 ≤ n at hroom
      have hnext : u32 (done.length + sizeofIntegerStorage) = done.length + 16 :=
        u32_of_lt (by rw [sizeofIntegerStorage]; omega)
      refine ⟨⟨done.length, .integer value⟩, ?_, rfl⟩
      rw [Value.ref, deSerializeLoop, interTypeDeserialize_eq hbuf hroom, hnext]
      change deSerializeLoop buf n args (done.length + 16) = .ok rest at hrest
      simp only [Bool.not_true, Bool.false_eq_true, if_false, hrest]
      rfl
  | bytes content =>
      change done.length + (16 + content.length) ≤ n at hroom
      have hnext : u32 (done.length + u64 (sizeofPointStorage + content.length)) =
          done.length + (16 + content.length) := by
        rw [sizeofPointStorage, u64_of_lt (by omega), u32_of_lt (by omega)]
      have hpoint := pointTypeDeserialize_eq hbuf hroom hn
      change deSerializeLoop buf n args (done.length + (16 + content.length)) = .ok rest at hrest
      refine ⟨⟨done.length, .point (if content.length ≠ 0 then some (done.length + 16) else none)
        content.length⟩, ?_, ?_⟩
      · rw [Value.ref, deSerializeLoop, hpoint]
        simp only [Bool.not_true, Bool.false_eq_true, if_false, bind, Except.bind, hnext, hrest]
        rfl
      · by_cases hempty : content = []
        · simp [Value.DecodedAs, hempty]
        · have hlength : content.length ≠ 0 := fun h => hempty (List.length_eq_zero_iff.mp h)
          rw [Value.DecodedAs, if_neg hempty, if_pos hlength]
          refine ⟨done.length + 16, rfl, ?_⟩
          have hslice := Bytes.slice_append
            (done ++ (Bytes.le 8 pointType ++ Bytes.le 8 content.length)) (content ++ tail) 0
            content.length
          simp only [List.length_append, Bytes.le_length, Nat.add_zero, List.append_assoc,
            Bytes.slice_self_append] at hslice
          rw [hbuf, Value.encode]
          simpa only [List.append_assoc] using hslice
  | null =>
      change done.length + (16 + 0) ≤ n at hroom
      have hnext : u32 (done.length + u64 (sizeofPointStorage + 0)) = done.length + (16 + 0) := by
        rw [sizeofPointStorage, u64_of_lt (by omega), u32_of_lt (by omega)]
      have hpoint := @pointTypeDeserialize_eq buf done tail n []
        (by simpa [Value.encode] using hbuf) hroom hn
      change deSerializeLoop buf n args (done.length + (16 + 0)) = .ok rest at hrest
      refine ⟨⟨done.length, .point none 0⟩, ?_, rfl⟩
      rw [Value.ref, deSerializeLoop, hpoint]
      simp only [Bool.not_true, Bool.false_eq_true, if_false, bind, Except.bind, List.length_nil,
        hnext, hrest]
      rfl

end Decoder

theorem deSerializeLoop_eq {buf : List UInt8} {n : Nat} (hn : n < 2 ^ 32) (values : List Value)
    (done tail : List UInt8) (hbuf : buf = done ++ (values.flatMap Value.encode ++ tail))
    (hroom : done.length + (values.map Value.size).sum ≤ n) :
    ∃ out, deSerializeLoop buf n (values.map Value.ref) done.length = .ok out ∧
      List.Forall₂ (fun v d => Value.DecodedAs buf d v) values out := by
  induction values generalizing done with
  | nil => exact ⟨[], rfl, List.Forall₂.nil⟩
  | cons v values ih =>
      rw [List.map_cons, List.sum_cons] at hroom
      have hsplit : buf = (done ++ v.encode) ++ (values.flatMap Value.encode ++ tail) := by
        simpa only [List.flatMap_cons, List.append_assoc] using hbuf
      obtain ⟨rest, hrest, hall⟩ := ih (done ++ v.encode) hsplit
        (by rw [List.length_append, Value.encode_length]; omega)
      obtain ⟨d, hd, hdecoded⟩ := deSerializeLoop_cons v (values.map Value.ref)
        (by rw [hsplit, List.append_assoc]) (by omega) hn hrest
      exact ⟨d :: rest, hd, List.Forall₂.cons hdecoded hall⟩

theorem deSerialize_message (values : List Value) (tail : List UInt8) (n : UInt32)
    (hroom : totalSize values ≤ n.toNat) :
    ∃ out, deSerialize (values.map Value.ref) (some (message values ++ tail)) n = .ok out ∧
      List.Forall₂ (fun v d => Value.DecodedAs (message values ++ tail) d v) values out := by
  rw [totalSize] at hroom
  have hcount : 16 * values.length ≤ (values.map Value.size).sum := by
    have h := List.card_nsmul_le_sum (values.map Value.size) 16 fun m hm => by
      obtain ⟨v, _, rfl⟩ := List.mem_map.mp hm
      exact Nat.le_add_right 16 _
    simpa [Nat.mul_comm] using h
  have hn := n.toNat_lt
  have hload : Bytes.load 4 (message values ++ tail) 0 = values.length := by
    rw [message, List.append_assoc, Bytes.load_le_append]
    exact Nat.mod_eq_of_lt (by omega)
  have hcheck : deSerializeParamValidCheck (values.map Value.ref).length
      (some (message values ++ tail)) n.toNat = 0 := by
    rw [deSerializeParamValidCheck, if_neg, Option.getD_some, hload, List.length_map,
      if_neg (not_not.mpr rfl)]
    simp only [Option.isNone_some, Bool.false_eq_true, false_or]
    omega
  have hloop := deSerializeLoop_eq hn values (Bytes.le 4 values.length) tail
    (List.append_assoc _ _ _) (by rw [Bytes.le_length]; omega)
  rw [Bytes.le_length] at hloop
  rw [deSerialize, if_neg (not_not.mpr hcheck)]
  exact hloop

/-! ### The pointers of a message -/

theorem sizesFit_of_encoded {buf : List UInt8} (values : List Value) (done tail : List UInt8)
    (hbuf : buf = done ++ (values.flatMap Value.encode ++ tail))
    (hroom : done.length + (values.map Value.size).sum < 2 ^ 64) :
    SizesFit buf (values.map Value.ref) done.length := by
  induction values generalizing done with
  | nil => trivial
  | cons v values ih =>
      rw [List.map_cons, List.sum_cons] at hroom
      have hsplit : buf = (done ++ v.encode) ++ (values.flatMap Value.encode ++ tail) := by
        rw [hbuf, List.flatMap_cons, List.append_assoc, List.append_assoc]
      have hrest := ih (done ++ v.encode) hsplit
        (by rw [List.length_append, Value.encode_length]; omega)
      rw [List.length_append, Value.encode_length] at hrest
      rw [List.append_assoc] at hsplit
      cases v with
      | integer value => exact hrest
      | bytes content =>
          change done.length + (16 + content.length + _) < 2 ^ 64 at hroom
          have hsize := load_pointSize hsplit (by omega)
          rw [List.map_cons, Value.ref, SizesFit, hsize, Nat.add_assoc]
          exact ⟨by omega, hrest⟩
      | null =>
          change done.length + (16 + 0 + _) < 2 ^ 64 at hroom
          have hsize := @load_pointSize buf done (values.flatMap Value.encode ++ tail) []
            (by rw [hsplit, Value.encode, List.append_nil]; rfl) (by decide)
          rw [List.length_nil] at hsize
          rw [List.map_cons, Value.ref, SizesFit, hsize, Nat.add_assoc]
          exact ⟨by omega, hrest⟩

/-- The pointers decoded from a message denote regions of their own in it. -/
theorem contained_of_message {values : List Value} {tail : List UInt8} {n : UInt32}
    {out : List Decoded} (hroom : totalSize values ≤ n.toNat)
    (h : deSerialize (values.map Value.ref) (some (message values ++ tail)) n = .ok out) :
    Contained n.toNat out := by
  rw [totalSize] at hroom
  have hn := n.toNat_lt
  refine (deSerialize_contained_iff _ _ n out h).mpr ?_
  have hfit := sizesFit_of_encoded values (Bytes.le 4 values.length) tail
    (List.append_assoc _ _ _) (by rw [Bytes.le_length]; omega)
  rwa [Bytes.le_length] at hfit

/-! ### Round trip -/

/-- `Serialize` succeeds exactly when the destination has the size `CalculateBuffSize` computes, and
what it then leaves there decodes to the values passed. -/
theorem serialize_roundTrip (lib : Securec) (hlib : lib.CopiesWithinMax) (values : List Value)
    (dest : List UInt8) (n : UInt32) (hn : n.toNat = dest.length)
    (htotal : totalSize values ≤ 2 ^ 31 - 1) (hdest : dest.length ≤ 2 ^ 31 - 1) :
    calculateBuffSize (values.map Value.arg) = (0, totalSize values) ∧
      ((serialize lib (values.map Value.arg) (some dest) n).1 = 0 ↔
        (calculateBuffSize (values.map Value.arg)).2 ≤ dest.length) ∧
      ((serialize lib (values.map Value.arg) (some dest) n).1 = 0 →
        let buf := (serialize lib (values.map Value.arg) (some dest) n).2
        ∃ out, deSerialize (values.map Value.ref) (some buf) n = .ok out ∧
          List.Forall₂ (fun v d => Value.DecodedAs buf d v) values out) := by
  have hsize := calculateBuffSize_eq values (by omega)
  by_cases hroom : totalSize values ≤ dest.length
  · have hserialize := serialize_eq hlib values dest n hn hdest hroom
    have hdecode := deSerialize_message values (dest.drop (totalSize values)) n (by omega)
    rw [hserialize, hsize]
    exact ⟨rfl, ⟨fun _ => hroom, fun _ => rfl⟩, fun _ => hdecode⟩
  · have hne := serialize_ne hlib values dest n hn hdest (not_le.mp hroom)
    rw [hsize]
    exact ⟨rfl, ⟨fun h => absurd h hne, fun h => absurd h hroom⟩, fun h => absurd h hne⟩

theorem serialize_roundTrip_reference :
    let values := [.integer 5, .bytes [7, 9], .bytes [], .null]
    let result := serialize Securec.reference (values.map Value.arg)
      (some (List.replicate 70 0)) 70
    result.1 = 0 ∧ ∃ out, deSerialize (values.map Value.ref) (some result.2) 70 = .ok out ∧
      List.Forall₂ (fun v d => Value.DecodedAs result.2 d v) values out := by
  intro values result
  obtain ⟨hsize, hiff, hdecode⟩ := serialize_roundTrip Securec.reference
    Securec.reference_copiesWithinMax values (List.replicate 70 0) 70
    (by rfl) (by decide) (by decide)
  have hret := hiff.mpr (by rw [hsize]; decide)
  exact ⟨hret, hdecode hret⟩

end ITrustee.Serialize
