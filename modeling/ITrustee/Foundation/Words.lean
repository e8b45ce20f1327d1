import Mathlib.Tactic

/-!
# Words made of parts

A 64-bit address handed over as two 32-bit halves, and four 4-bit fields packed into one word. What
was put in is what comes out: `joinHalves` undoes the split into halves, and `nibble` reads each
field of `packNibbles` back.
-/

namespace Words

/-- The low 32 bits of an address. -/
def lowHalf (a : UInt64) : UInt32 := a.toUInt32

/-- The high 32 bits of an address. -/
def highHalf (a : UInt64) : UInt32 := (a >>> 32).toUInt32

/-- The address two halves denote. -/
def joinHalves (low high : UInt32) : Nat := low.toNat + high.toNat * 2 ^ 32

theorem joinHalves_split (a : UInt64) : joinHalves (lowHalf a) (highHalf a) = a.toNat := by
  have hlow : (lowHalf a).toNat = a.toNat % 2 ^ 32 := rfl
  have hhigh : (highHalf a).toNat = a.toNat / 2 ^ 32 := by
    rw [highHalf, UInt64.toNat_toUInt32, UInt64.toNat_shiftRight, Nat.shiftRight_eq_div_pow]
    exact Nat.mod_eq_of_lt (Nat.div_lt_of_lt_mul a.toNat_lt)
  rw [joinHalves, hlow, hhigh]
  omega

/-- Four fields of four bits in one word, the first one lowest. -/
def packNibbles (p0 p1 p2 p3 : UInt32) : UInt32 := p3 <<< 12 ||| p2 <<< 8 ||| p1 <<< 4 ||| p0

/-- The field at an index. -/
def nibble (w index : UInt32) : UInt32 := (w >>> (4 * index)) &&& 0x0f

theorem nibble_toNat (w : UInt32) (i : Fin 4) :
    (nibble w (UInt32.ofNat i)).toNat = w.toNat / 16 ^ (i : Nat) % 16 := by
  have hshift : (4 * UInt32.ofNat i : UInt32).toNat % 32 = 4 * (i : Nat) := by
    revert i
    decide
  rw [nibble, UInt32.toNat_and, UInt32.toNat_shiftRight, hshift, Nat.shiftRight_eq_div_pow, pow_mul]
  exact Nat.and_two_pow_sub_one_eq_mod _ 4

theorem nibble_lt (w : UInt32) (i : Fin 4) : (nibble w (UInt32.ofNat i)).toNat < 16 := by
  rw [nibble_toNat]
  exact Nat.mod_lt _ (by decide)

theorem packNibbles_toNat {p0 p1 p2 p3 : UInt32} (h0 : p0.toNat < 16) (h1 : p1.toNat < 16)
    (h2 : p2.toNat < 16) (h3 : p3.toNat < 16) :
    (packNibbles p0 p1 p2 p3).toNat =
      p0.toNat + 16 * p1.toNat + 256 * p2.toNat + 4096 * p3.toNat := by
  have hor (a b i : Nat) (hb : b < 2 ^ i) : a <<< i ||| b = a * 2 ^ i + b := by
    rw [← Nat.shiftLeft_add_eq_or_of_lt hb, Nat.shiftLeft_eq]
  have hshift3 : (p3 <<< 12).toNat = p3.toNat <<< 12 := by
    rw [UInt32.toNat_shiftLeft]
    exact Nat.mod_eq_of_lt (by rw [Nat.shiftLeft_eq]; simp; omega)
  have hshift2 : (p2 <<< 8).toNat = p2.toNat <<< 8 := by
    rw [UInt32.toNat_shiftLeft]
    exact Nat.mod_eq_of_lt (by rw [Nat.shiftLeft_eq]; simp; omega)
  have hshift1 : (p1 <<< 4).toNat = p1.toNat <<< 4 := by
    rw [UInt32.toNat_shiftLeft]
    exact Nat.mod_eq_of_lt (by rw [Nat.shiftLeft_eq]; simp; omega)
  have hlow : p1.toNat <<< 4 ||| p0.toNat = p1.toNat * 16 + p0.toNat := hor _ _ 4 (by omega)
  have hmid : p2.toNat <<< 8 ||| (p1.toNat * 16 + p0.toNat) =
      p2.toNat * 256 + (p1.toNat * 16 + p0.toNat) := hor _ _ 8 (by omega)
  have hhigh : p3.toNat <<< 12 ||| (p2.toNat * 256 + (p1.toNat * 16 + p0.toNat)) =
      p3.toNat * 4096 + (p2.toNat * 256 + (p1.toNat * 16 + p0.toNat)) := hor _ _ 12 (by omega)
  simp only [packNibbles, UInt32.toNat_or, hshift3, hshift2, hshift1, Nat.or_assoc, hlow, hmid,
    hhigh]
  omega

/-- Each field reads back as it was packed. -/
theorem nibble_packNibbles {p : Fin 4 → UInt32} (h : ∀ i, (p i).toNat < 16) (i : Fin 4) :
    nibble (packNibbles (p 0) (p 1) (p 2) (p 3)) (UInt32.ofNat i) = p i := by
  have h0 := h 0
  have h1 := h 1
  have h2 := h 2
  have h3 := h 3
  apply UInt32.toNat_inj.mp
  rw [nibble_toNat, packNibbles_toNat h0 h1 h2 h3]
  fin_cases i <;> simp <;> omega

end Words
