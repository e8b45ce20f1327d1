import Mathlib.Tactic
import Mathlib.Data.List.TakeWhile

/-!
# Strings of C

A C string is the list of its characters before the terminator. `strstr` gives the offset of the first
occurrence, so that a comparison of its result with the string itself is a comparison with 0, `strrchr`
gives that of the last occurrence of a character, and `strtokR` is the first call of `strtok_r` with a
single delimiter.
-/

namespace CString

/-- The offset of the first occurrence of a string in another. -/
def strstr : List Char → List Char → Option Nat
  | [], needle => if needle.isPrefixOf [] then some 0 else none
  | c :: s, needle =>
      if needle.isPrefixOf (c :: s) then some 0 else (strstr s needle).map (· + 1)

/-- The offset of the last occurrence of a character. -/
def strrchr : List Char → Char → Option Nat
  | [], _ => none
  | c :: s, d =>
      match strrchr s d with
      | some i => some (i + 1)
      | none => if c = d then some 0 else none

/-- The first token and what follows its delimiter; `none` if there is no token. -/
def strtokR (s : List Char) (delim : Char) : Option (List Char × List Char) :=
  let s := s.dropWhile (· == delim)
  if s = [] then none
  else some (s.takeWhile (· != delim), (s.dropWhile (· != delim)).drop 1)

theorem strstr_eq_zero {s needle : List Char} : strstr s needle = some 0 ↔ needle <+: s := by
  rw [← List.isPrefixOf_iff_prefix]
  cases s with
  | nil => simp [strstr]
  | cons c s =>
      rw [strstr]
      cases hstart : needle.isPrefixOf (c :: s) <;> simp

theorem strstr_eq_none {s needle : List Char} : strstr s needle = none ↔ ¬ needle <:+: s := by
  induction s with
  | nil =>
      rw [strstr, List.infix_nil]
      cases needle <;> simp
  | cons c s ih =>
      rw [strstr, List.infix_cons_iff, ← List.isPrefixOf_iff_prefix]
      cases hstart : needle.isPrefixOf (c :: s) with
      | true => simp
      | false => simp [ih]

theorem strrchr_eq_none {s : List Char} {d : Char} : strrchr s d = none ↔ d ∉ s := by
  induction s with
  | nil => simp [strrchr]
  | cons c s ih =>
      rw [strrchr, List.mem_cons, not_or, ← ih]
      cases strrchr s d with
      | none => simp [eq_comm]
      | some i => simp

theorem strrchr_eq_some {s : List Char} {d : Char} {i : Nat} (h : strrchr s d = some i) :
    ∃ before after, s = before ++ d :: after ∧ before.length = i ∧ d ∉ after := by
  induction s generalizing i with
  | nil => cases h
  | cons c s ih =>
      rw [strrchr] at h
      cases hs : strrchr s d with
      | none =>
          rw [hs] at h
          dsimp only at h
          split_ifs at h with hc
          obtain rfl := Option.some.inj h
          exact ⟨[], s, by rw [hc]; rfl, rfl, strrchr_eq_none.mp hs⟩
      | some j =>
          rw [hs] at h
          obtain rfl := Option.some.inj h
          obtain ⟨before, after, rfl, rfl, hafter⟩ := ih hs
          exact ⟨c :: before, after, rfl, rfl, hafter⟩

end CString
