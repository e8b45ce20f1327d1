import Mathlib.Tactic

/-!
# Terminated strings in memory

A region of memory is the list of its bytes. `read` takes the string at the start of a region, up to its
first null byte, `readMany` a number of strings that follow each other, and `strnlen` measures one. `none`
stands for an access behind the end. How far a reader gets depends only on the number of null bytes in
the region (`readMany_isSome_iff`).
-/

namespace NulStrings

/-- The string at the start of the region, and what follows its terminator. -/
def read : List UInt8 → Option (List UInt8 × List UInt8)
  | [] => none
  | b :: bytes => if b = 0 then some ([], bytes) else (read bytes).map fun r => (b :: r.1, r.2)

def readMany : Nat → List UInt8 → Option (List (List UInt8))
  | 0, _ => some []
  | n + 1, bytes => (read bytes).bind fun r => (readMany n r.2).map (r.1 :: ·)

def strnlen : List UInt8 → Nat → Option Nat
  | _, 0 => some 0
  | [], _ + 1 => none
  | b :: bytes, n + 1 => if b = 0 then some 0 else (strnlen bytes n).map (· + 1)

/-- Strings with their terminators. -/
def terminated (names : List (List UInt8)) : List UInt8 := (names.map (· ++ [0])).flatten

variable {bytes name rest : List UInt8}

theorem read_append (h : (0 : UInt8) ∉ name) (rest : List UInt8) :
    read (name ++ 0 :: rest) = some (name, rest) := by
  induction name with
  | nil => rfl
  | cons b name ih =>
      obtain ⟨hb, hname⟩ := List.ne_and_not_mem_of_not_mem_cons h
      rw [List.cons_append, read, if_neg (Ne.symm hb), ih hname]
      rfl

theorem read_eq_some_iff : read bytes = some (name, rest) ↔ bytes = name ++ 0 :: rest ∧ 0 ∉ name := by
  constructor
  · intro h
    induction bytes generalizing name with
    | nil => cases h
    | cons b bytes ih =>
        rw [read] at h
        split_ifs at h with hb
        · cases h
          rw [hb]
          exact ⟨rfl, List.not_mem_nil⟩
        · obtain ⟨r, hr, heq⟩ := Option.map_eq_some_iff.mp h
          cases heq
          obtain ⟨hbytes, hnot⟩ := ih hr
          rw [hbytes]
          exact ⟨rfl, List.not_mem_cons_of_ne_of_not_mem (Ne.symm hb) hnot⟩
  · rintro ⟨rfl, hnot⟩
    exact read_append hnot rest

/-- Within the region the length is that of the string, or the given one if that is less. -/
theorem strnlen_eq {n : Nat} (h : n ≤ bytes.length) :
    strnlen bytes n = some ((bytes.take n).takeWhile (· != 0)).length := by
  induction bytes generalizing n with
  | nil =>
      obtain rfl := Nat.le_zero.mp h
      rfl
  | cons b bytes ih =>
      cases n with
      | zero => rfl
      | succ n =>
          rw [strnlen, ih (Nat.le_of_succ_le_succ h), List.take_succ_cons]
          by_cases hb : b = 0
          · rw [if_pos hb, List.takeWhile_cons_of_neg (by simp [hb])]
            rfl
          · rw [if_neg hb, List.takeWhile_cons_of_pos (by simp [hb])]
            rfl

theorem read_isSome_iff : (read bytes).isSome ↔ 0 < bytes.count 0 := by
  rw [List.count_pos_iff]
  constructor
  · intro h
    obtain ⟨r, hr⟩ := Option.isSome_iff_exists.mp h
    rw [(read_eq_some_iff.mp hr).1]
    exact List.mem_append_right _ List.mem_cons_self
  · intro h
    obtain ⟨name, rest, hbytes, hnot⟩ := List.eq_append_cons_of_mem h
    rw [hbytes, read_append hnot]
    rfl

/-- A number of strings can be read when the region has as many null bytes. -/
theorem readMany_isSome_iff (n : Nat) (bytes : List UInt8) :
    (readMany n bytes).isSome ↔ n ≤ bytes.count 0 := by
  induction n generalizing bytes with
  | zero => exact iff_of_true rfl (Nat.zero_le _)
  | succ n ih =>
      rw [readMany]
      cases hread : read bytes with
      | none =>
          have hnone : ¬ 0 < bytes.count 0 := by
            rw [← read_isSome_iff, hread]
            simp
          exact iff_of_false (by simp) (by omega)
      | some r =>
          obtain ⟨hbytes, hnot⟩ := read_eq_some_iff.mp hread
          rw [Option.bind_some, Option.isSome_map, ih, hbytes, List.count_append,
            List.count_eq_zero_of_not_mem hnot, List.count_cons_self]
          omega

/-- What is read are the strings at the start of the region. -/
theorem readMany_eq_some {n : Nat} {names : List (List UInt8)} (h : readMany n bytes = some names) :
    names.length = n ∧ (∀ name ∈ names, 0 ∉ name) ∧ ∃ rest, bytes = terminated names ++ rest := by
  induction n generalizing bytes names with
  | zero =>
      cases h
      exact ⟨rfl, by simp, bytes, rfl⟩
  | succ n ih =>
      obtain ⟨r, hr, hmap⟩ := Option.bind_eq_some_iff.mp h
      obtain ⟨later, hlater, rfl⟩ := Option.map_eq_some_iff.mp hmap
      obtain ⟨hbytes, hnot⟩ := read_eq_some_iff.mp hr
      obtain ⟨hlength, hnames, rest, hrest⟩ := ih hlater
      refine ⟨by rw [List.length_cons, hlength], ?_, rest, ?_⟩
      · intro name hname
        obtain rfl | hname := List.mem_cons.mp hname
        · exact hnot
        · exact hnames name hname
      · rw [hbytes, hrest]
        simp [terminated]

/-! ### Two null bytes in a row -/

/-- The first null byte that another null byte follows is byte `i`. -/
def EndsAt (bytes : List UInt8) (i : Nat) : Prop :=
  (bytes[i]? = some 0 ∧ bytes[i + 1]? = some 0) ∧
    ∀ j < i, ¬ (bytes[j]? = some 0 ∧ bytes[j + 1]? = some 0)

instance (bytes : List UInt8) (i : Nat) : Decidable (EndsAt bytes i) :=
  inferInstanceAs (Decidable ((bytes[i]? = some 0 ∧ bytes[i + 1]? = some 0) ∧
    ∀ j < i, ¬ (bytes[j]? = some 0 ∧ bytes[j + 1]? = some 0)))

theorem EndsAt.unique {i j : Nat} (hi : EndsAt bytes i) (hj : EndsAt bytes j) : i = j := by
  obtain hlt | heq | hlt := lt_trichotomy i j
  · exact absurd hi.1 (hj.2 i hlt)
  · exact heq
  · exact absurd hj.1 (hi.2 j hlt)

theorem endsAt_cons_zero {b : UInt8} : EndsAt (b :: bytes) 0 ↔ b = 0 ∧ bytes[0]? = some 0 := by
  rw [EndsAt, List.getElem?_cons_zero, List.getElem?_cons_succ, Option.some_inj]
  exact and_iff_left fun j hj => absurd hj (Nat.not_lt_zero j)

theorem endsAt_cons_succ {b : UInt8} {i : Nat} :
    EndsAt (b :: bytes) (i + 1) ↔ ¬ (b = 0 ∧ bytes[0]? = some 0) ∧ EndsAt bytes i := by
  rw [EndsAt, EndsAt]
  simp only [List.getElem?_cons_succ]
  constructor
  · rintro ⟨hend, hfirst⟩
    refine ⟨?_, hend, fun j hj => ?_⟩
    · simpa using hfirst 0 (Nat.succ_pos i)
    · simpa using hfirst (j + 1) (Nat.succ_lt_succ hj)
  · rintro ⟨hhead, hend, hfirst⟩
    refine ⟨hend, fun j hj => ?_⟩
    cases j with
    | zero => simpa using hhead
    | succ j => simpa using hfirst j (Nat.lt_of_succ_lt_succ hj)

end NulStrings
