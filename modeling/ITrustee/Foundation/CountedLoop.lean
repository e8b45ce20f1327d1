import Mathlib.Tactic

/-!
# Loops with a narrow counter

`for (uint32_t i = 0; i < bound; i++)` with a bound of 64 bits. The counter wraps before it reaches a
bound of `2 ^ 32` or more, and such a loop does not end. Below that it runs through the numbers under
the bound, and `run_invariant` is induction over them.
-/

namespace CountedLoop

variable {σ : Type*} (bound : UInt64) (body : UInt32 → σ → σ)

/-- The loop from a counter on, `none` when it is not over after `fuel` iterations. -/
def run : Nat → UInt32 → σ → Option σ
  | 0, i, s => if i.toUInt64 < bound then none else some s
  | fuel + 1, i, s => if i.toUInt64 < bound then run fuel (i + 1) (body i s) else some s

variable {bound body}

theorem counter_lt_iff (i : UInt32) : i.toUInt64 < bound ↔ i.toNat < bound.toNat := by
  rw [UInt64.lt_iff_toNat_lt, UInt32.toNat_toUInt64]

/-- No counter reaches a bound outside its range. -/
theorem run_eq_none (hbound : 2 ^ 32 ≤ bound.toNat) (fuel : Nat) (i : UInt32) (s : σ) :
    run bound body fuel i s = none := by
  have hlt : ∀ i : UInt32, i.toUInt64 < bound :=
    fun i => (counter_lt_iff i).mpr (lt_of_lt_of_le i.toNat_lt hbound)
  induction fuel generalizing i s with
  | zero => rw [run, if_pos (hlt i)]
  | succ fuel ih => rw [run, if_pos (hlt i), ih]

theorem toNat_succ {i : UInt32} (h : i.toNat + 1 < 2 ^ 32) : (i + 1).toNat = i.toNat + 1 := by
  rw [UInt32.toNat_add, UInt32.toNat_one]
  exact Nat.mod_eq_of_lt h

theorem run_isSome (hbound : bound.toNat < 2 ^ 32) {fuel : Nat} {i : UInt32}
    (hfuel : bound.toNat ≤ i.toNat + fuel) (s : σ) : (run bound body fuel i s).isSome := by
  induction fuel generalizing i s with
  | zero =>
      rw [run, if_neg ((counter_lt_iff i).not.mpr (by omega))]
      rfl
  | succ fuel ih =>
      rw [run]
      by_cases hi : i.toNat < bound.toNat
      · rw [if_pos ((counter_lt_iff i).mpr hi)]
        refine ih ?_ (body i s)
        rw [toNat_succ (by omega)]
        omega
      · rw [if_neg ((counter_lt_iff i).not.mpr hi)]
        rfl

theorem run_invariant_from (Inv : Nat → σ → Prop)
    (hstep : ∀ i : UInt32, ∀ s, i.toNat < bound.toNat → Inv i.toNat s →
      Inv (i.toNat + 1) (body i s))
    {fuel : Nat} {i : UInt32} {s s' : σ} (hi : i.toNat ≤ bound.toNat) (hinit : Inv i.toNat s)
    (hrun : run bound body fuel i s = some s') : Inv bound.toNat s' := by
  have hbound : bound.toNat < 2 ^ 32 := by
    by_contra hbound
    rw [run_eq_none (not_lt.mp hbound)] at hrun
    cases hrun
  have hover : ∀ {i : UInt32} {s : σ}, i.toNat ≤ bound.toNat → ¬ i.toNat < bound.toNat →
      Inv i.toNat s → Inv bound.toNat s := by
    intro i s hle hnot hinv
    rwa [le_antisymm (not_lt.mp hnot) hle]
  induction fuel generalizing i s with
  | zero =>
      rw [run] at hrun
      by_cases hlt : i.toNat < bound.toNat
      · rw [if_pos ((counter_lt_iff i).mpr hlt)] at hrun
        cases hrun
      · rw [if_neg ((counter_lt_iff i).not.mpr hlt)] at hrun
        obtain rfl := Option.some.inj hrun
        exact hover hi hlt hinit
  | succ fuel ih =>
      rw [run] at hrun
      by_cases hlt : i.toNat < bound.toNat
      · rw [if_pos ((counter_lt_iff i).mpr hlt)] at hrun
        have hnext : (i + 1).toNat = i.toNat + 1 := toNat_succ (by omega)
        refine ih (by omega) ?_ hrun
        rw [hnext]
        exact hstep i s hlt hinit
      · rw [if_neg ((counter_lt_iff i).not.mpr hlt)] at hrun
        obtain rfl := Option.some.inj hrun
        exact hover hi hlt hinit

/-- What holds before the first iteration and is passed on by each holds when the loop is over. -/
theorem run_invariant (Inv : Nat → σ → Prop)
    (hstep : ∀ i : UInt32, ∀ s, i.toNat < bound.toNat → Inv i.toNat s →
      Inv (i.toNat + 1) (body i s))
    {fuel : Nat} {s s' : σ} (hinit : Inv 0 s) (hrun : run bound body fuel 0 s = some s') :
    Inv bound.toNat s' :=
  run_invariant_from (i := 0) Inv hstep (Nat.zero_le _) hinit hrun

end CountedLoop
