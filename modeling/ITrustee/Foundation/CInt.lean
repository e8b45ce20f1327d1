import Mathlib.Tactic

/-!
# Fixed-width integers of C

Unsigned arithmetic of width `w` is arithmetic of naturals followed by one reduction modulo `2 ^ w`,
and a conversion to a narrower type is the same reduction. Models keep their counters in `Nat` and
write `u32` or `u64` where the C type wraps; what a proof then needs is that the reduction is the
identity below the bound. Signed values are integers, reduced to the balanced residue.
-/

namespace CInt

/-- A value converted to `uint32_t`. -/
def u32 (n : Nat) : Nat := n % 2 ^ 32

/-- A value converted to `uint64_t`, `size_t` or `unsigned long`. -/
def u64 (n : Nat) : Nat := n % 2 ^ 64

/-- A signed value converted to `uint32_t`. -/
def toU32 (z : Int) : Nat := (z % 2 ^ 32).toNat

/-- A signed value converted to `size_t`. -/
def toU64 (z : Int) : Nat := (z % 2 ^ 64).toNat

/-- A value converted to `int32_t`. -/
def i32 (z : Int) : Int := z.bmod (2 ^ 32)

theorem u32_of_lt {n : Nat} (h : n < 2 ^ 32) : u32 n = n := Nat.mod_eq_of_lt h

theorem u64_of_lt {n : Nat} (h : n < 2 ^ 64) : u64 n = n := Nat.mod_eq_of_lt h

theorem u32_le (n : Nat) : u32 n ≤ n := Nat.mod_le _ _

theorem toU32_of_lt {z : Int} {n : Nat} (hz : z = n) (h : n < 2 ^ 32) : toU32 z = n := by
  rw [toU32, hz]
  omega

theorem toU64_of_lt {z : Int} {n : Nat} (hz : z = n) (h : n < 2 ^ 64) : toU64 z = n := by
  rw [toU64, hz]
  omega

theorem i32_of_range {z : Int} (hlow : -2 ^ 31 ≤ z) (hhigh : z < 2 ^ 31) : i32 z = z := by
  rw [i32, Int.bmod_def]
  split <;> omega

end CInt
