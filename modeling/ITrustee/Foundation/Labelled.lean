import Mathlib.Data.List.Basic
import Mathlib.Data.List.Nodup
import Mathlib.Data.List.Lattice

/-!
# Lists of labelled records

A list whose entries carry distinct labels, and a search that does not see the labels. `eraseP` takes
off the first entry that passes the test `p`. It is the entry with label `m`, which passes, exactly
when no entry before it does; where no entry has that label, nothing is taken off exactly when none
passes.
-/

namespace Labelled

variable {κ α : Type*} [DecidableEq κ] {es : List (κ × α)} {m : κ} {p : κ × α → Bool}

theorem filter_ne_eq_self_iff : es.filter (fun e => e.1 ≠ m) = es ↔ m ∉ es.map Prod.fst := by
  rw [List.filter_eq_self]
  constructor
  · intro hall hmem
    obtain ⟨e, he, rfl⟩ := List.mem_map.mp hmem
    exact of_decide_eq_true (hall e he) rfl
  · rintro hnot e he
    refine decide_eq_true ?_
    rintro rfl
    exact hnot (List.mem_map_of_mem he)

/-- The search takes off the entry with the label, and no other, exactly when it passes over all those
before it. -/
theorem eraseP_eq_filter_iff (hnodup : (es.map Prod.fst).Nodup)
    (hown : ∀ e ∈ es, e.1 = m → p e = true) :
    es.eraseP p = es.filter (fun e => e.1 ≠ m) ↔
      ∀ e ∈ es.takeWhile (fun e => e.1 ≠ m), p e = false := by
  induction es with
  | nil => simp
  | cons e es ih =>
      obtain ⟨hnot, hrest⟩ := List.nodup_cons.mp hnodup
      by_cases hlabel : e.1 = m
      · have hp := hown e List.mem_cons_self hlabel
        rw [hlabel] at hnot
        rw [List.eraseP_cons_of_pos hp, List.filter_cons_of_neg (by simp [hlabel]),
          filter_ne_eq_self_iff.mpr hnot, List.takeWhile_cons_of_neg (by simp [hlabel])]
        simp
      · rw [List.filter_cons_of_pos (by simp [hlabel]), List.takeWhile_cons_of_pos (by simp [hlabel]),
          List.forall_mem_cons, ← ih hrest fun e' he' => hown e' (List.mem_cons_of_mem e he')]
        cases hp : p e with
        | true =>
            rw [List.eraseP_cons_of_pos hp]
            refine iff_of_false (fun heq => ?_) (by simp)
            have hmem : e ∈ es := by
              rw [heq]
              exact List.mem_cons_self
            exact hnot (List.mem_map_of_mem hmem)
        | false =>
            rw [List.eraseP_cons_of_neg (by simp [hp])]
            simp

/-- What a search finds that takes off the entry with the label has the label. -/
theorem label_of_find? (hnodup : (es.map Prod.fst).Nodup)
    (herase : es.eraseP p = es.filter (fun e => e.1 ≠ m)) {e : κ × α}
    (hfind : es.find? p = some e) : e.1 = m := by
  induction es with
  | nil => simp at hfind
  | cons e' es ih =>
      obtain ⟨hnot, hrest⟩ := List.nodup_cons.mp hnodup
      by_cases hlabel : e'.1 = m
      · cases hp : p e' with
        | true =>
            rw [List.find?_cons_of_pos hp] at hfind
            obtain rfl := Option.some.inj hfind
            exact hlabel
        | false =>
            rw [List.eraseP_cons_of_neg (by simp [hp])] at herase
            have hmem : e' ∈ (e' :: es).filter (fun e => e.1 ≠ m) := by
              rw [← herase]
              exact List.mem_cons_self
            exact absurd hlabel (of_decide_eq_true (List.mem_filter.mp hmem).2)
      · rw [List.filter_cons_of_pos (by simp [hlabel])] at herase
        cases hp : p e' with
        | true =>
            rw [List.eraseP_cons_of_pos hp] at herase
            have hmem : e' ∈ es := by
              rw [herase]
              exact List.mem_cons_self
            exact absurd (List.mem_map_of_mem hmem) hnot
        | false =>
            rw [List.eraseP_cons_of_neg (by simp [hp])] at herase
            rw [List.find?_cons_of_neg (by simp [hp])] at hfind
            exact ih hrest (List.cons.inj herase).2 hfind

end Labelled
