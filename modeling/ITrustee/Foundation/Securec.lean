import Mathlib.Tactic

/-!
# The bounds-checking C library

The programs modelled here copy and concatenate through the `_s` functions of a bounds-checking C
library whose source is not part of them. A model takes the library as a parameter, and a proof that
relies on it names the part of its documentation it needs: `Securec.CopiesWithinMax` for `memcpy_s`,
`Securec.JoinsWithinMax` for the string functions with a count, `Securec.Strings.JoinsWhole` for those
without, `Securec.Memory.CopiesStrings` for `strncpy_s` on memory, `Securec.Fills` for `memset_s`.
`Securec.reference`, `Securec.Strings.reference`, `Securec.Memory.reference` and `Securec.fill` behave as
documented and are what concrete runs use.

A C string is the list of its characters before the terminator, so a string fits a buffer of
`destMax` characters when its length is below `destMax`.
-/

/-- The library functions the models call. A destination buffer is passed as its bytes from the
destination pointer on; a string function returns the string it leaves, or `none` on an error. -/
structure Securec where
  memcpyS (dest : List UInt8) (destMax : Nat) (src : List UInt8) (count : Nat) : Int × List UInt8
  strncpyS (destMax : Nat) (src : List Char) (count : Nat) : Option (List Char)
  strncatS (dest : List Char) (destMax : Nat) (src : List Char) (count : Nat) : Option (List Char)

namespace Securec

/-- The largest destination the library accepts. -/
def maxLen : Nat := 2 ^ 31 - 1

/-- `memcpy_s` copies exactly when the destination size is positive and within the library's limit
and holds the bytes to copy. -/
structure CopiesWithinMax (lib : Securec) : Prop where
  copies (dest : List UInt8) (destMax : Nat) (src : List UInt8) (count : Nat) :
    0 < destMax → destMax ≤ maxLen → count ≤ destMax →
      lib.memcpyS dest destMax src count = (0, src.take count ++ dest.drop count)
  refuses (dest : List UInt8) (destMax : Nat) (src : List UInt8) (count : Nat) :
    ¬ (0 < destMax ∧ destMax ≤ maxLen ∧ count ≤ destMax) →
      (lib.memcpyS dest destMax src count).1 ≠ 0

/-- What a copy that succeeds leaves. -/
theorem CopiesWithinMax.of_eq_zero {lib : Securec} (hlib : lib.CopiesWithinMax)
    {dest src : List UInt8} {destMax count : Nat} (h : (lib.memcpyS dest destMax src count).1 = 0) :
    count ≤ destMax ∧ lib.memcpyS dest destMax src count = (0, src.take count ++ dest.drop count) := by
  by_cases hfits : 0 < destMax ∧ destMax ≤ maxLen ∧ count ≤ destMax
  · exact ⟨hfits.2.2, hlib.copies dest destMax src count hfits.1 hfits.2.1 hfits.2.2⟩
  · exact absurd h (hlib.refuses dest destMax src count hfits)

/-- What `memcpy_s` leaves of a destination when its source is null: zeros, if the size of the destination
is one that the library accepts. -/
def copyNull (dest : List UInt8) (destMax : Nat) : List UInt8 :=
  if 0 < destMax ∧ destMax ≤ maxLen then List.replicate destMax 0 ++ dest.drop destMax else dest

/-- `memcpy_s` writes no further than the destination reaches, whatever it returns. -/
def WritesWithinMax (lib : Securec) : Prop :=
  ∀ dest destMax src count, destMax ≤ dest.length → count ≤ src.length →
    (lib.memcpyS dest destMax src count).2.drop destMax = dest.drop destMax

/-- `strncpy_s` and `strncat_s` succeed exactly when the resulting string and its terminator fit the
destination, and then leave at most `count` characters of the source behind the old content. -/
structure JoinsWithinMax (lib : Securec) : Prop where
  copies (destMax : Nat) (src : List Char) (count : Nat) : destMax ≤ maxLen →
    lib.strncpyS destMax src count =
      if (src.take count).length < destMax then some (src.take count) else none
  appends (dest : List Char) (destMax : Nat) (src : List Char) (count : Nat) : destMax ≤ maxLen →
    lib.strncatS dest destMax src count =
      if (dest ++ src.take count).length < destMax then some (dest ++ src.take count) else none

/-- A copy of a whole string that succeeds leaves that string. -/
theorem JoinsWithinMax.copy_eq {lib : Securec} (hlib : lib.JoinsWithinMax) {destMax count : Nat}
    {src path : List Char} (hmax : destMax ≤ maxLen) (hcount : src.length ≤ count)
    (h : lib.strncpyS destMax src count = some path) : path = src := by
  rw [hlib.copies destMax src count hmax, List.take_of_length_le hcount] at h
  split_ifs at h
  exact (Option.some.inj h).symm

/-- Appending a whole string, when it succeeds, leaves the joined string. -/
theorem JoinsWithinMax.append_eq {lib : Securec} (hlib : lib.JoinsWithinMax) {destMax count : Nat}
    {dest src path : List Char} (hmax : destMax ≤ maxLen) (hcount : src.length ≤ count)
    (h : lib.strncatS dest destMax src count = some path) : path = dest ++ src := by
  rw [hlib.appends dest destMax src count hmax, List.take_of_length_le hcount] at h
  split_ifs at h
  exact (Option.some.inj h).symm

/-- What an append leaves fits the destination. -/
theorem JoinsWithinMax.append_fits {lib : Securec} (hlib : lib.JoinsWithinMax) {destMax count : Nat}
    {dest src path : List Char} (hmax : destMax ≤ maxLen)
    (h : lib.strncatS dest destMax src count = some path) : path.length < destMax := by
  rw [hlib.appends dest destMax src count hmax] at h
  split_ifs at h with hfits
  obtain rfl := Option.some.inj h
  exact hfits

/-- A library that behaves as documented. -/
def reference : Securec where
  memcpyS dest destMax src count :=
    if 0 < destMax ∧ destMax ≤ maxLen ∧ count ≤ destMax then (0, src.take count ++ dest.drop count)
    else (34, dest)
  strncpyS destMax src count :=
    if (src.take count).length < destMax then some (src.take count) else none
  strncatS dest destMax src count :=
    if (dest ++ src.take count).length < destMax then some (dest ++ src.take count) else none

theorem reference_copiesWithinMax : reference.CopiesWithinMax where
  copies dest destMax src count hpos hmax hcount := if_pos ⟨hpos, hmax, hcount⟩
  refuses dest destMax src count h := by simp [reference, h]

theorem reference_writesWithinMax : reference.WritesWithinMax := by
  intro dest destMax src count _ hsrc
  rw [reference]
  dsimp only
  split_ifs with hcopy
  · rw [List.drop_append, List.drop_eq_nil_of_le (by rw [List.length_take]; omega), List.nil_append,
      List.drop_drop, List.length_take, Nat.min_eq_left hsrc, Nat.add_sub_cancel' hcopy.2.2]
  · rfl

theorem reference_joinsWithinMax : reference.JoinsWithinMax where
  copies _ _ _ _ := rfl
  appends _ _ _ _ _ := rfl

/-- The functions that take whole strings; as above, they return the string they leave. -/
structure Strings where
  strcpyS (destMax : Nat) (src : List Char) : Option (List Char)
  strcatS (dest : List Char) (destMax : Nat) (src : List Char) : Option (List Char)

/-- `strcpy_s` and `strcat_s` succeed exactly when the destination is not larger than the library accepts
and holds the resulting string with its terminator. -/
structure Strings.JoinsWhole (lib : Strings) : Prop where
  copies (destMax : Nat) (src : List Char) :
    lib.strcpyS destMax src = if destMax ≤ maxLen ∧ src.length < destMax then some src else none
  appends (dest : List Char) (destMax : Nat) (src : List Char) :
    lib.strcatS dest destMax src =
      if destMax ≤ maxLen ∧ (dest ++ src).length < destMax then some (dest ++ src) else none

def Strings.reference : Strings where
  strcpyS destMax src := if destMax ≤ maxLen ∧ src.length < destMax then some src else none
  strcatS dest destMax src :=
    if destMax ≤ maxLen ∧ (dest ++ src).length < destMax then some (dest ++ src) else none

theorem Strings.reference_joinsWhole : Strings.reference.JoinsWhole where
  copies _ _ := rfl
  appends _ _ _ := rfl

/-- `strncpy_s` on memory: what it returns and leaves of the destination. -/
structure Memory where
  strncpyS (dest : List UInt8) (destMax : Nat) (src : List UInt8) (count : Nat) : Int × List UInt8

/-- The string that is copied, up to `count` bytes, must fit the destination with its terminator. -/
structure Memory.CopiesStrings (lib : Memory) : Prop where
  copies (dest : List UInt8) (destMax : Nat) (src : List UInt8) (count : Nat) :
    destMax ≤ maxLen → count ≤ maxLen → ((src.take count).takeWhile (· != 0)).length < destMax →
      lib.strncpyS dest destMax src count =
        (0, (src.take count).takeWhile (· != 0) ++
          0 :: dest.drop (((src.take count).takeWhile (· != 0)).length + 1))
  refuses (dest : List UInt8) (destMax : Nat) (src : List UInt8) (count : Nat) :
    destMax ≤ ((src.take count).takeWhile (· != 0)).length →
      (lib.strncpyS dest destMax src count).1 ≠ 0

/-- What a copy that succeeds leaves. -/
theorem Memory.CopiesStrings.of_eq_zero {lib : Memory} (hlib : lib.CopiesStrings)
    {dest src : List UInt8} {destMax count : Nat} (hmax : destMax ≤ maxLen) (hcount : count ≤ maxLen)
    (h : (lib.strncpyS dest destMax src count).1 = 0) :
    ∃ s, s.length < destMax ∧
      lib.strncpyS dest destMax src count = (0, s ++ 0 :: dest.drop (s.length + 1)) := by
  by_cases hfits : ((src.take count).takeWhile (· != 0)).length < destMax
  · exact ⟨_, hfits, hlib.copies dest destMax src count hmax hcount hfits⟩
  · exact absurd h (hlib.refuses dest destMax src count (Nat.le_of_not_lt hfits))

def Memory.reference : Memory where
  strncpyS dest destMax src count :=
    let s := (src.take count).takeWhile (· != 0)
    if destMax ≤ maxLen ∧ count ≤ maxLen ∧ s.length < destMax then
      (0, s ++ 0 :: dest.drop (s.length + 1))
    else (34, dest)

theorem Memory.reference_copiesStrings : Memory.reference.CopiesStrings where
  copies _ _ _ _ hmax hcount hfits := if_pos ⟨hmax, hcount, hfits⟩
  refuses dest destMax src count h := by
    rw [Memory.reference]
    dsimp only
    rw [if_neg fun hfits => Nat.not_lt_of_le h hfits.2.2]
    exact (by decide : (34 : Int) ≠ 0)

/-- `memset_s` fills the first bytes of a destination that holds them and is not larger than the library
accepts. -/
def Fills (memsetS : List Char → Nat → Char → Nat → List Char) : Prop :=
  ∀ dest destMax c count, 0 < destMax → destMax ≤ maxLen → count ≤ destMax →
    memsetS dest destMax c count = List.replicate count c ++ dest.drop count

def fill (dest : List Char) (destMax : Nat) (c : Char) (count : Nat) : List Char :=
  if 0 < destMax ∧ destMax ≤ maxLen ∧ count ≤ destMax then List.replicate count c ++ dest.drop count
  else dest

theorem fill_fills : Fills fill := by
  intro dest destMax c count hpos hmax hcount
  exact if_pos ⟨hpos, hmax, hcount⟩

end Securec
