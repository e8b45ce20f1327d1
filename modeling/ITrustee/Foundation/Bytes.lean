import Mathlib.Tactic

/-!
# Byte buffers

A buffer is a list of bytes. `load` and `store` are the accesses a C program makes through a cast
pointer on a little-endian machine: `load n buf off` is the unsigned value of the `n` bytes from
`off`, and `store buf off bs` overwrites the buffer from `off` with `bs`.

A sequential writer keeps its buffer in the form `done ++ rest`, with the write position at
`done.length`; `store_append` and `load_append` move an access past the part already written.
-/

namespace Bytes

/-- The `n` little-endian bytes of a value, the value reduced modulo `256 ^ n`. -/
def le : Nat → Nat → List UInt8
  | 0, _ => []
  | n + 1, v => UInt8.ofNat v :: le n (v / 256)

/-- The value of little-endian bytes. -/
def value : List UInt8 → Nat
  | [] => 0
  | b :: bs => b.toNat + 256 * value bs

/-- The unsigned value of the `n` bytes from `off`. -/
def load (n : Nat) (buf : List UInt8) (off : Nat) : Nat := value ((buf.drop off).take n)

/-- The `n` bytes from `off`. -/
def slice (buf : List UInt8) (off n : Nat) : List UInt8 := (buf.drop off).take n

/-- The buffer with the bytes from `off` replaced by `bs`. -/
def store (buf : List UInt8) (off : Nat) (bs : List UInt8) : List UInt8 :=
  buf.take off ++ bs ++ buf.drop (off + bs.length)

@[simp] theorem le_length (n v : Nat) : (le n v).length = n := by
  induction n generalizing v with
  | zero => rfl
  | succ n ih => simp [le, ih]

theorem value_le (n v : Nat) : value (le n v) = v % 256 ^ n := by
  induction n generalizing v with
  | zero => simp [le, value, Nat.mod_one]
  | succ n ih =>
      rw [le, value, ih, UInt8.toNat_ofNat', pow_succ' 256 n, Nat.mod_mul]

theorem value_lt (bs : List UInt8) : value bs < 256 ^ bs.length := by
  induction bs with
  | nil => simp [value]
  | cons b bs ih =>
      have hb := b.toNat_lt
      rw [value, List.length_cons, pow_succ]
      omega

theorem load_lt (n : Nat) (buf : List UInt8) (off : Nat) : load n buf off < 256 ^ n := by
  exact lt_of_lt_of_le (value_lt _) (Nat.pow_le_pow_right (by decide) (List.length_take_le _ _))

/-- Reading back what lies behind a prefix. -/
theorem load_append (n : Nat) (done rest : List UInt8) (k : Nat) :
    load n (done ++ rest) (done.length + k) = load n rest k := by
  rw [load, load, ← List.drop_drop, List.drop_left]

theorem slice_append (done rest : List UInt8) (k n : Nat) :
    slice (done ++ rest) (done.length + k) n = slice rest k n := by
  rw [slice, slice, ← List.drop_drop, List.drop_left]

theorem load_le_append (n v : Nat) (rest : List UInt8) : load n (le n v ++ rest) 0 = v % 256 ^ n := by
  rw [load, List.drop_zero, List.take_left' (le_length n v), value_le]

theorem slice_self_append (bs rest : List UInt8) : slice (bs ++ rest) 0 bs.length = bs := by
  rw [slice, List.drop_zero, List.take_left]

theorem store_length {buf bs : List UInt8} {off : Nat} (h : off + bs.length ≤ buf.length) :
    (store buf off bs).length = buf.length := by
  simp only [store, List.length_append, List.length_take, List.length_drop]
  omega

/-- An access inside a slice. -/
theorem load_slice {n k m : Nat} (buf : List UInt8) (off : Nat) (h : k + n ≤ m) :
    load n (slice buf off m) k = load n buf (off + k) := by
  rw [load, load, slice, List.drop_take, List.drop_drop, List.take_take, min_eq_left (by omega)]

/-- What lies before a write stays. -/
theorem slice_store {buf : List UInt8} {pos off n : Nat} (bs : List UInt8) (hpos : pos ≤ buf.length)
    (h : off + n ≤ pos) : slice (store buf pos bs) off n = slice buf off n := by
  have htake : ∀ l : List UInt8, slice (l.take pos) off n = slice l off n := by
    intro l
    rw [slice, slice, List.drop_take, List.take_take, min_eq_left (by omega)]
  rw [← htake (store buf pos bs), ← htake buf, store, List.append_assoc,
    List.take_left' (List.length_take_of_le hpos)]

theorem load_store {buf : List UInt8} {pos off n : Nat} (bs : List UInt8) (hpos : pos ≤ buf.length)
    (h : off + n ≤ pos) : load n (store buf pos bs) off = load n buf off :=
  congrArg value (slice_store bs hpos h)

/-- An access before the cut. -/
theorem load_take {n k m : Nat} (buf : List UInt8) (h : k + n ≤ m) :
    load n (buf.take m) k = load n buf k := by
  rw [load, load, List.drop_take, List.take_take, min_eq_left (by omega)]

/-- An access in the first part. -/
theorem load_append_left {n off : Nat} {buf : List UInt8} (rest : List UInt8)
    (h : off + n ≤ buf.length) : load n (buf ++ rest) off = load n buf off := by
  rw [load, load, List.drop_append_of_le_length (by omega), List.take_append_of_le_length]
  rw [List.length_drop]
  omega

/-- What lies behind a write stays. -/
theorem drop_store {buf bs : List UInt8} {pos off : Nat} (hpos : pos + bs.length ≤ buf.length)
    (h : pos + bs.length ≤ off) : (store buf pos bs).drop off = buf.drop off := by
  have hlen : (buf.take pos ++ bs).length = pos + bs.length := by
    rw [List.length_append, List.length_take_of_le (by omega)]
  rw [store, List.drop_append, List.drop_of_length_le (by omega), hlen, List.drop_drop,
    List.nil_append, Nat.add_sub_cancel' h]

/-- A write leaves what it does not overlap. -/
theorem slice_store_of_disjoint {buf bs : List UInt8} {pos off n : Nat}
    (hpos : pos + bs.length ≤ buf.length) (h : off + n ≤ pos ∨ pos + bs.length ≤ off) :
    slice (store buf pos bs) off n = slice buf off n := by
  cases h with
  | inl hbefore => exact slice_store bs (by omega) hbefore
  | inr hbehind => rw [slice, drop_store hpos hbehind, slice]

theorem load_store_of_disjoint {buf bs : List UInt8} {pos off n : Nat}
    (hpos : pos + bs.length ≤ buf.length) (h : off + n ≤ pos ∨ pos + bs.length ≤ off) :
    load n (store buf pos bs) off = load n buf off :=
  congrArg value (slice_store_of_disjoint hpos h)

/-- Reading back a write. -/
theorem load_store_le {buf : List UInt8} {off n : Nat} (v : Nat) (h : off ≤ buf.length) :
    load n (store buf off (le n v)) off = v % 256 ^ n := by
  have hread := load_append n (buf.take off) (le n v ++ buf.drop (off + (le n v).length)) 0
  rw [List.length_take_of_le h, Nat.add_zero, load_le_append] at hread
  rw [store, List.append_assoc, hread]

/-- Writing behind a prefix leaves the prefix alone. -/
theorem store_append (done rest : List UInt8) (k : Nat) (bs : List UInt8) :
    store (done ++ rest) (done.length + k) bs = done ++ store rest k bs := by
  have htake : (done ++ rest).take (done.length + k) = done ++ rest.take k := by
    rw [List.take_append, List.take_of_length_le (by omega), Nat.add_sub_cancel_left]
  have hdrop : (done ++ rest).drop (done.length + k + bs.length) = rest.drop (k + bs.length) := by
    rw [Nat.add_assoc, ← List.drop_drop, List.drop_left]
  rw [store, store, htake, hdrop]
  simp only [List.append_assoc]

theorem store_zero (buf bs : List UInt8) : store buf 0 bs = bs ++ buf.drop bs.length := by
  simp [store]

/-- Writing right behind a prefix. -/
theorem store_append_self (done rest bs : List UInt8) :
    store (done ++ rest) done.length bs = done ++ (bs ++ rest.drop bs.length) := by
  have h := store_append done rest 0 bs
  rwa [Nat.add_zero, store_zero] at h

end Bytes
