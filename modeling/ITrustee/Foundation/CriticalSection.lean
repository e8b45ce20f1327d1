import Mathlib.Tactic

/-!
# Critical sections

Threads that share a section of code in which at most one of them may be. `inside` says where a thread is
in the section, if it is there at all. Either a lock guards the section, which a thread takes when it
enters and gives back when it leaves, or there is no lock and only one thread (`Exclusive`). Then at most
one thread is in the section, the `occupant`; `enter`, `stay`, `leave` and `elsewhere` say what a step of
a thread makes of it.

Each thread may also have things in hand; `inHand_set` is the account of them after a step.
-/

namespace CriticalSection

variable {α β : Type*} {ρ : Type*}

/-- One entry of a list set apart. -/
theorem split_at {users : List α} {i : Nat} {u : α} (h : users[i]? = some u) :
    ∃ before after, users = before ++ u :: after ∧ ∀ v, users.set i v = before ++ v :: after := by
  obtain ⟨hlt, rfl⟩ := List.getElem?_eq_some_iff.mp h
  refine ⟨users.take i, users.drop (i + 1), ?_, fun v => ?_⟩
  · rw [List.getElem_cons_drop, List.take_append_drop]
  · rw [List.set_eq_take_append_cons_drop, if_pos hlt]

section Places

variable (inside : α → Option ρ)

/-- Where the threads are that are in the section. -/
def places (threads : List α) : List ρ := threads.filterMap inside

def occupant (threads : List α) : Option ρ := (places inside threads).head?

/-- `guarded` says whether there is a lock, and `locked` whether it is taken. -/
structure Exclusive (guarded locked : Bool) (threads : List α) : Prop where
  places_length : guarded = true → (places inside threads).length = locked.toNat
  alone : guarded = false → threads.length ≤ 1
  unlocked : guarded = false → locked = false

variable {inside} {guarded locked : Bool} {threads : List α} {i : Nat} {t u : α} {p : ρ}

theorem Exclusive.at_most_one (h : Exclusive inside guarded locked threads) :
    (places inside threads).length ≤ 1 := by
  cases hguarded : guarded with
  | true =>
      rw [h.places_length hguarded]
      exact Bool.toNat_le locked
  | false => exact (List.length_filterMap_le _ _).trans (h.alone hguarded)

/-- The threads other than one that is in the section are not. -/
theorem Exclusive.places_set (h : Exclusive inside guarded locked threads) (ht : threads[i]? = some t)
    (hin : inside t = some p) (v : α) :
    places inside threads = [p] ∧ places inside (threads.set i v) = (inside v).toList := by
  obtain ⟨before, after, rfl, hset⟩ := split_at ht
  have hone := h.at_most_one
  rw [places, List.filterMap_append, List.filterMap_cons_some hin, List.length_append,
    List.length_cons] at hone
  have hbefore : before.filterMap inside = [] := List.eq_nil_of_length_eq_zero (by omega)
  have hafter : after.filterMap inside = [] := List.eq_nil_of_length_eq_zero (by omega)
  rw [places, places, hset, List.filterMap_append, List.filterMap_append, List.filterMap_cons_some hin,
    List.filterMap_cons, hbefore, hafter]
  cases inside v <;> exact ⟨rfl, rfl⟩

theorem Exclusive.occupant_eq (h : Exclusive inside guarded locked threads) (ht : threads[i]? = some t)
    (hin : inside t = some p) : occupant inside threads = some p := by
  rw [occupant, (h.places_set ht hin t).1]
  rfl

/-- With a free lock, or without a lock, a thread that comes finds nobody. -/
theorem Exclusive.nobody (h : Exclusive inside guarded locked threads) (ht : threads[i]? = some t)
    (hout : inside t = none) (hfree : locked = false) : places inside threads = [] := by
  cases hguarded : guarded with
  | true =>
      apply List.eq_nil_of_length_eq_zero
      rw [h.places_length hguarded, hfree]
      rfl
  | false =>
      obtain ⟨before, after, rfl, -⟩ := split_at ht
      have halone := h.alone hguarded
      rw [List.length_append, List.length_cons] at halone
      obtain rfl : before = [] := List.eq_nil_of_length_eq_zero (by omega)
      obtain rfl : after = [] := List.eq_nil_of_length_eq_zero (by omega)
      rw [List.nil_append, places, List.filterMap_cons_none hout]
      rfl

/-- What a step of a thread makes of the section. -/
structure Stepped (inside : α → Option ρ) (guarded locked' : Bool) (threads threads' : List α)
    (before after : Option ρ) : Prop where
  before : occupant inside threads = before
  after : occupant inside threads' = after
  exclusive : Exclusive inside guarded locked' threads'

/-- A thread that is not in the section, before and after. -/
theorem Exclusive.elsewhere (h : Exclusive inside guarded locked threads) (ht : threads[i]? = some t)
    (hout : inside t = none) (hu : inside u = none) :
    Stepped inside guarded locked threads (threads.set i u) (occupant inside threads)
      (occupant inside threads) := by
  have hplaces : places inside (threads.set i u) = places inside threads := by
    obtain ⟨before, after, rfl, hset⟩ := split_at ht
    rw [places, places, hset, List.filterMap_append, List.filterMap_append,
      List.filterMap_cons_none hout, List.filterMap_cons_none hu]
  refine ⟨rfl, congrArg List.head? hplaces, fun hguarded => ?_, fun hguarded => ?_, h.unlocked⟩
  · rw [hplaces]
    exact h.places_length hguarded
  · exact List.length_set.trans_le (h.alone hguarded)

theorem Exclusive.enter (h : Exclusive inside guarded locked threads) (ht : threads[i]? = some t)
    (hout : inside t = none) (hfree : locked = false) (hu : inside u = some p) :
    Stepped inside guarded guarded threads (threads.set i u) none (some p) := by
  have hnobody := h.nobody ht hout hfree
  have hplaces : places inside (threads.set i u) = [p] := by
    obtain ⟨before, after, rfl, hset⟩ := split_at ht
    rw [places, List.filterMap_append, List.filterMap_cons_none hout, List.append_eq_nil_iff] at hnobody
    rw [places, hset, List.filterMap_append, List.filterMap_cons_some hu, hnobody.1, hnobody.2]
    rfl
  refine ⟨congrArg List.head? hnobody, congrArg List.head? hplaces, fun hguarded => ?_,
    fun hguarded => ?_, fun hguarded => hguarded⟩
  · rw [hplaces, hguarded]
    rfl
  · exact List.length_set.trans_le (h.alone hguarded)

theorem Exclusive.stay (h : Exclusive inside guarded locked threads) (ht : threads[i]? = some t)
    (hin : inside t = some p) {p' : ρ} (hu : inside u = some p') :
    Stepped inside guarded locked threads (threads.set i u) (some p) (some p') := by
  obtain ⟨hbefore, hafter⟩ := h.places_set ht hin u
  rw [hu] at hafter
  refine ⟨congrArg List.head? hbefore, congrArg List.head? hafter, fun hguarded => ?_,
    fun hguarded => ?_, h.unlocked⟩
  · rw [hafter, ← h.places_length hguarded, hbefore]
    rfl
  · exact List.length_set.trans_le (h.alone hguarded)

theorem Exclusive.leave (h : Exclusive inside guarded locked threads) (ht : threads[i]? = some t)
    (hin : inside t = some p) (hu : inside u = none) :
    Stepped inside guarded false threads (threads.set i u) (some p) none := by
  obtain ⟨hbefore, hafter⟩ := h.places_set ht hin u
  rw [hu] at hafter
  refine ⟨congrArg List.head? hbefore, congrArg List.head? hafter, fun _ => ?_, fun hguarded => ?_,
    fun _ => rfl⟩
  · rw [hafter]
    rfl
  · exact List.length_set.trans_le (h.alone hguarded)

end Places

section InHand

variable (has : α → Multiset β)

/-- What all threads have in hand. -/
def inHand (threads : List α) : Multiset β := (threads.map has).sum

variable {has} {threads : List α} {i : Nat} {t : α}

variable (has) in
theorem inHand_set (ht : threads[i]? = some t) (u : α) :
    inHand has (threads.set i u) + has t = inHand has threads + has u := by
  obtain ⟨before, after, rfl, hset⟩ := split_at ht
  rw [hset, inHand, inHand, List.map_append, List.map_append, List.sum_append, List.sum_append,
    List.map_cons, List.map_cons, List.sum_cons, List.sum_cons]
  abel

end InHand

end CriticalSection
