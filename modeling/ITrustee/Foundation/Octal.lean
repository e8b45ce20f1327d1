import Mathlib.Tactic
import Mathlib.Data.Nat.Digits.Lemmas

/-!
# Numbers in octal

`octal` is what `printf` writes for `%o`, as bytes, and `parseOctal` reads the digits at the start of a
field and ignores what follows the first byte that is no digit.
-/

namespace Octal

def digit (d : Nat) : UInt8 := .ofNat (48 + d)

def octal (v : Nat) : List UInt8 :=
  if v = 0 then [digit 0] else ((Nat.digits 8 v).map digit).reverse

def isDigit (b : UInt8) : Bool := 48 ≤ b.toNat && b.toNat < 56

def parseOctal (bs : List UInt8) : Nat :=
  (bs.takeWhile isDigit).foldl (fun v b => b.toNat - 48 + 8 * v) 0

theorem digit_toNat {d : Nat} (h : d < 8) : (digit d).toNat = 48 + d := by
  rw [digit, UInt8.toNat_ofNat', Nat.mod_eq_of_lt (by omega)]

theorem isDigit_digit {d : Nat} (h : d < 8) : isDigit (digit d) = true := by
  rw [isDigit, digit_toNat h]
  simp only [Bool.and_eq_true, decide_eq_true_eq]
  omega

theorem isDigit_octal (v : Nat) : ∀ b ∈ octal v, isDigit b = true := by
  intro b hb
  rw [octal] at hb
  split_ifs at hb with hv
  · rw [List.mem_singleton.mp hb]
    exact isDigit_digit (by decide)
  · obtain ⟨d, hd, rfl⟩ := List.mem_map.mp (List.mem_reverse.mp hb)
    exact isDigit_digit (Nat.digits_lt_base (by decide) hd)

theorem octal_length_le {v k : Nat} (hk : 0 < k) (hv : v < 8 ^ k) : (octal v).length ≤ k := by
  rw [octal]
  split_ifs with hzero
  · exact hk
  · rw [List.length_reverse, List.length_map]
    exact (Nat.digits_length_le_iff (by decide) v).mpr hv

/-- The value of digits, the last one first. -/
theorem foldr_digits (ds : List Nat) (hds : ∀ d ∈ ds, d < 8) :
    (ds.map digit).foldr (fun b v => b.toNat - 48 + 8 * v) 0 = Nat.ofDigits 8 ds := by
  induction ds with
  | nil => rfl
  | cons d ds ih =>
      obtain ⟨hd, hrest⟩ := List.forall_mem_cons.mp hds
      rw [List.map_cons, List.foldr_cons, ih hrest, digit_toNat hd, Nat.add_sub_cancel_left,
        Nat.ofDigits_cons]

/-- A number is read back from a field that it begins, if no other digit follows it. -/
theorem parseOctal_octal (v : Nat) (rest : List UInt8) (hrest : rest.head?.all (!isDigit ·)) :
    parseOctal (octal v ++ rest) = v := by
  have htake : (octal v ++ rest).takeWhile isDigit = octal v := by
    rw [List.takeWhile_append_of_pos (isDigit_octal v)]
    cases rest with
    | nil => exact List.append_nil _
    | cons b rest =>
        have hb : isDigit b = false := by simpa using hrest
        rw [List.takeWhile_cons_of_neg (by simp [hb]), List.append_nil]
  rw [parseOctal, htake, octal]
  split_ifs with hzero
  · rw [hzero]
    rfl
  · rw [List.foldl_reverse, foldr_digits _ fun d hd => Nat.digits_lt_base (by decide) hd,
      Nat.ofDigits_digits]

end Octal
