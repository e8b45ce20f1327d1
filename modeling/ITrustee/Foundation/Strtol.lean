import Mathlib.Tactic
import Mathlib.Data.List.TakeWhile

/-!
# Decimal numbers in strings

`strtol` in base 10 for a `long` of 64 bits. It skips white space, takes a sign and the digits behind it,
and leaves the rest; a number beyond the type gives the nearest value of the type and `ERANGE`. `Denotes`
says which integer a whole string writes, `Begins` which one a string begins with. A string begins with
one integer at most, and `strtol` reads it (`strtol_of_begins`) or converts nothing (`strtol_of_none`).
-/

namespace Strtol

def longMax : Int := 2 ^ 63 - 1

def longMin : Int := -2 ^ 63

def isSpace (c : Char) : Bool :=
  c == ' ' || c == '\t' || c == '\n' || c == '\x0b' || c == '\x0c' || c == '\r'

/-- The value of a string of digits. -/
def value (digits : List Char) : Nat := digits.foldl (fun v c => 10 * v + (c.toNat - 48)) 0

/-- Whether there is a minus sign, and what follows the sign. -/
def sign : List Char → Bool × List Char
  | '-' :: s => (true, s)
  | '+' :: s => (false, s)
  | s => (false, s)

structure Result where
  value : Int
  /-- What `endptr` points to. -/
  rest : List Char
  /-- `errno` is `ERANGE`. -/
  erange : Bool
  deriving DecidableEq

def strtol (s : List Char) : Result :=
  let signed := sign (s.dropWhile isSpace)
  let digits := signed.2.takeWhile Char.isDigit
  let rest := signed.2.dropWhile Char.isDigit
  if digits = [] then ⟨0, s, false⟩
  else
    let n : Int := if signed.1 then -value digits else value digits
    if n < longMin then ⟨longMin, rest, true⟩
    else if longMax < n then ⟨longMax, rest, true⟩
    else ⟨n, rest, false⟩

/-- The whole string writes the integer: a sign or none, and digits. -/
def Denotes (s : List Char) (n : Int) : Prop :=
  ∃ digits, digits ≠ [] ∧ (∀ c ∈ digits, c.isDigit = true) ∧
    ((s = digits ∨ s = '+' :: digits) ∧ n = value digits ∨ s = '-' :: digits ∧ n = -value digits)

/-- Behind white space the string begins with an integer, and `rest` is what follows its digits. -/
def Begins (s : List Char) (n : Int) (rest : List Char) : Prop :=
  ∃ space num, s = space ++ (num ++ rest) ∧ (∀ c ∈ space, isSpace c = true) ∧ Denotes num n ∧
    ∀ c ∈ rest.head?, c.isDigit = false

def InLong (n : Int) : Prop := longMin ≤ n ∧ n ≤ longMax

variable {s rest digits : List Char} {n : Int}

theorem Denotes.begins (h : Denotes s n) : Begins s n [] :=
  ⟨[], s, by simp, by simp, h, by simp⟩

theorem isSpace_of_isDigit {c : Char} (h : c.isDigit = true) : isSpace c = false := by
  by_contra hspace
  rw [Bool.not_eq_false] at hspace
  simp only [isSpace, Bool.or_eq_true, beq_iff_eq] at hspace
  obtain ((((rfl | rfl) | rfl) | rfl) | rfl) | rfl := hspace <;> exact absurd h (by decide)

/-- A digit is no sign. -/
theorem sign_digit {c : Char} (h : c.isDigit = true) : sign (c :: s) = (false, c :: s) := by
  rw [sign]
  · rintro t heq
    cases heq
    exact absurd h (by decide)
  · rintro t heq
    cases heq
    exact absurd h (by decide)

theorem span_digits (hdigits : ∀ c ∈ digits, c.isDigit = true)
    (hrest : ∀ c ∈ rest.head?, c.isDigit = false) :
    (digits ++ rest).takeWhile Char.isDigit = digits ∧
      (digits ++ rest).dropWhile Char.isDigit = rest := by
  rw [List.takeWhile_append_of_pos hdigits, List.dropWhile_append_of_pos hdigits]
  cases rest with
  | nil => exact ⟨List.append_nil _, rfl⟩
  | cons c rest =>
      have hc : c.isDigit = false := hrest c rfl
      rw [List.takeWhile_cons_of_neg (by simp [hc]), List.dropWhile_cons_of_neg (by simp [hc])]
      exact ⟨List.append_nil _, rfl⟩

/-- Which digits `strtol` converts, and with which sign. -/
theorem begins_parts (h : Begins s n rest) :
    ∃ neg digits, digits ≠ [] ∧ sign (s.dropWhile isSpace) = (neg, digits ++ rest) ∧
      (digits ++ rest).takeWhile Char.isDigit = digits ∧
        (digits ++ rest).dropWhile Char.isDigit = rest ∧
          n = if neg then -(value digits : Int) else value digits := by
  obtain ⟨space, num, rfl, hspace, ⟨digits, hne, hdigits, hnum⟩, hrest⟩ := h
  obtain ⟨htake, hdrop⟩ := span_digits hdigits hrest
  rw [List.dropWhile_append_of_pos hspace]
  obtain ⟨d, ds, rfl⟩ := List.exists_cons_of_ne_nil hne
  have hd : d.isDigit = true := hdigits d List.mem_cons_self
  obtain ⟨rfl | rfl, rfl⟩ | ⟨rfl, rfl⟩ := hnum
  · refine ⟨false, d :: ds, hne, ?_, htake, hdrop, rfl⟩
    rw [List.cons_append, List.dropWhile_cons_of_neg (by simp [isSpace_of_isDigit hd]), sign_digit hd]
  · exact ⟨false, d :: ds, hne, rfl, htake, hdrop, rfl⟩
  · exact ⟨true, d :: ds, hne, rfl, htake, hdrop, rfl⟩

/-- The integer that a string begins with is read if it is one of the type. -/
theorem strtol_of_begins (h : Begins s n rest) (hlong : InLong n) : strtol s = ⟨n, rest, false⟩ := by
  obtain ⟨neg, digits, hne, hsign, htake, hdrop, hn⟩ := begins_parts h
  rw [strtol, hsign]
  dsimp only
  rw [htake, hdrop, if_neg hne, ← hn, if_neg (not_lt.mpr hlong.1), if_neg (not_lt.mpr hlong.2)]

/-- Otherwise the result is at the end of the type. -/
theorem strtol_of_begins_out (h : Begins s n rest) (hlong : ¬ InLong n) :
    (strtol s).erange = true ∧ ((strtol s).value = longMax ∨ (strtol s).value = longMin) := by
  obtain ⟨neg, digits, hne, hsign, htake, hdrop, hn⟩ := begins_parts h
  rw [strtol, hsign]
  dsimp only
  rw [htake, hdrop, if_neg hne, ← hn]
  split_ifs with hlow hhigh
  · exact ⟨rfl, Or.inr rfl⟩
  · exact ⟨rfl, Or.inl rfl⟩
  · exact absurd ⟨not_lt.mp hlow, not_lt.mp hhigh⟩ hlong

theorem begins_of_digits (h : ((sign (s.dropWhile isSpace)).2.takeWhile Char.isDigit) ≠ []) :
    ∃ n rest, Begins s n rest := by
  have hsplit (t : List Char) : t.takeWhile Char.isDigit ++ t.dropWhile Char.isDigit = t :=
    List.takeWhile_append_dropWhile
  have hdigits (t : List Char) : ∀ c ∈ t.takeWhile Char.isDigit, c.isDigit = true :=
    fun c hc => List.mem_takeWhile_imp hc
  have hhead (t : List Char) : ∀ c ∈ (t.dropWhile Char.isDigit).head?, c.isDigit = false := by
    intro c hc
    have hnone := List.head?_dropWhile_not Char.isDigit t
    rw [Option.mem_def.mp hc] at hnone
    simpa using hnone
  have hspace := List.takeWhile_append_dropWhile (p := isSpace) (l := s)
  have hspaces : ∀ c ∈ s.takeWhile isSpace, isSpace c = true := fun c hc => List.mem_takeWhile_imp hc
  generalize s.takeWhile isSpace = space at hspace hspaces
  generalize s.dropWhile isSpace = t at h hspace
  have hbegins (lead u : List Char) (m : Int) (htu : t = lead ++ u)
      (hden : Denotes (lead ++ u.takeWhile Char.isDigit) m) :
      ∃ n rest, Begins s n rest := by
    refine ⟨m, u.dropWhile Char.isDigit, space, lead ++ u.takeWhile Char.isDigit, ?_, hspaces, hden,
      hhead u⟩
    rw [← hspace, htu, List.append_assoc, hsplit]
  unfold sign at h
  split at h
  · next u => exact hbegins ['-'] u _ rfl ⟨_, h, hdigits u, Or.inr ⟨rfl, rfl⟩⟩
  · next u => exact hbegins ['+'] u _ rfl ⟨_, h, hdigits u, Or.inl ⟨Or.inr rfl, rfl⟩⟩
  · exact hbegins [] t _ rfl ⟨_, h, hdigits t, Or.inl ⟨Or.inl rfl, rfl⟩⟩

theorem strtol_of_none (h : ∀ n rest, ¬ Begins s n rest) : strtol s = ⟨0, s, false⟩ := by
  rw [strtol]
  dsimp only
  rw [if_pos]
  by_contra hdigits
  obtain ⟨n, rest, hbegins⟩ := begins_of_digits hdigits
  exact h n rest hbegins

/-- What follows the number is shorter than the string. -/
theorem Begins.rest_ne (h : Begins s n rest) : rest ≠ s := by
  obtain ⟨space, num, rfl, -, ⟨digits, hne, -, hnum⟩, -⟩ := h
  have hpos : 0 < num.length := by
    obtain ⟨rfl | rfl, -⟩ | ⟨rfl, -⟩ := hnum
    · exact List.length_pos_of_ne_nil hne
    · exact Nat.succ_pos _
    · exact Nat.succ_pos _
  intro heq
  have hlength := congrArg List.length heq
  simp only [List.length_append] at hlength
  omega

end Strtol
