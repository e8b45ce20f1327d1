import Mathlib.Tactic

/-!
# Reference counts and the references still needed

An object with a reference count is freed when the count reaches zero. Its users may rely on it as
long as the count covers the references that they will still give back, whoever took them. An
`Account` sets the two side by side for one object, and a `Move` is what a single operation does to
them. A user who takes a reference to give back two, or who gives back one that was not taken for the
purpose, needs a reference to spare; with that, every move keeps the account covered, and a covered
object is freed only when nobody needs it.
-/

namespace RefCount

/-- The count of an object, `none` when it does not exist, and the references its users need. -/
structure Account where
  count : Option Nat
  need : Nat

/-- The count after a reference is given back. -/
def less (n : Nat) : Option Nat := if n = 1 then none else some (n - 1)

/-- The count is at least what the users need, and an object that does not exist is not needed. -/
def Covered (a : Account) : Prop :=
  match a.count with
  | none => a.need = 0
  | some n => 0 < n ∧ a.need ≤ n

inductive Move : Account → Account → Prop
  /-- Users go away without giving anything back, or nothing happens. -/
  | keep {count need need'} (h : need' ≤ need) : Move ⟨count, need⟩ ⟨count, need'⟩
  /-- The object is created with one reference. -/
  | create {need} (h : need ≤ 1) : Move ⟨none, 0⟩ ⟨some 1, need⟩
  /-- A user takes a reference to give back one. -/
  | take {n need} : Move ⟨some n, need⟩ ⟨some (n + 1), need + 1⟩
  /-- A user takes a reference to give back two. -/
  | claim {n need} (h : need < n) : Move ⟨some n, need⟩ ⟨some (n + 1), need + 2⟩
  /-- A user gives back a reference it needed. -/
  | settle {n need} : Move ⟨some n, need + 1⟩ ⟨less n, need⟩
  /-- A reference is given back that no user needed. -/
  | drop {n need} (h : need < n) : Move ⟨some n, need⟩ ⟨less n, need⟩

theorem covered_less {n need : Nat} (h : need < n) : Covered ⟨less n, need⟩ := by
  rw [less]
  by_cases hn : n = 1
  · rw [if_pos hn]
    show need = 0
    omega
  · rw [if_neg hn]
    show 0 < n - 1 ∧ need ≤ n - 1
    omega

theorem Move.covered {a b : Account} (h : Move a b) (ha : Covered a) : Covered b := by
  cases h with
  | @keep count need need' hle =>
      cases count with
      | none => exact Nat.le_zero.mp (hle.trans (Nat.le_zero.mpr ha))
      | some n => exact ⟨ha.1, hle.trans ha.2⟩
  | create hle => exact ⟨Nat.one_pos, hle⟩
  | take => exact ⟨Nat.succ_pos _, Nat.succ_le_succ ha.2⟩
  | claim hlt => exact ⟨Nat.succ_pos _, Nat.succ_le_succ hlt⟩
  | settle => exact covered_less ha.2
  | drop hlt => exact covered_less hlt

/-- An object that somebody needs exists. -/
theorem Covered.exists_count {a : Account} (ha : Covered a) (hneed : 0 < a.need) :
    ∃ n, a.count = some n := by
  obtain ⟨count, need⟩ := a
  cases count with
  | none => exact absurd ha hneed.ne'
  | some n => exact ⟨n, rfl⟩

/-! ### The needs of several users -/

section Users

variable {α : Type*} (weight : α → Nat)

def total (users : List α) : Nat := (users.map weight).sum

variable {weight}

theorem total_append (users others : List α) :
    total weight (users ++ others) = total weight users + total weight others := by
  rw [total, List.map_append, List.sum_append]
  rfl

/-- One user set apart from the others. -/
theorem total_eraseIdx (weight : α → Nat) {users : List α} {i : Nat} {u : α} (h : users[i]? = some u) :
    total weight users = total weight (users.eraseIdx i) + weight u := by
  induction users generalizing i with
  | nil => cases h
  | cons w users ih =>
      cases i with
      | zero =>
          obtain rfl := Option.some.inj h
          simp only [total, List.eraseIdx_cons_zero, List.map_cons, List.sum_cons]
          omega
      | succ i =>
          have hrest := ih h
          simp only [total, List.eraseIdx_cons_succ, List.map_cons, List.sum_cons] at hrest ⊢
          omega

theorem le_total {users : List α} {u : α} (h : u ∈ users) : weight u ≤ total weight users :=
  List.single_le_sum (fun _ _ => Nat.zero_le _) _ (List.mem_map_of_mem h)

/-- A user after one was changed. -/
theorem getElem?_set_cases {users : List α} {i j : Nat} {a b : α}
    (h : (users.set i a)[j]? = some b) : (i = j ∧ b = a) ∨ (i ≠ j ∧ users[j]? = some b) := by
  by_cases hij : i = j
  · subst hij
    obtain ⟨hlt, heq⟩ := List.getElem?_eq_some_iff.mp h
    rw [List.getElem_set_self] at heq
    exact Or.inl ⟨rfl, heq.symm⟩
  · rw [List.getElem?_set_ne hij] at h
    exact Or.inr ⟨hij, h⟩

/-- One user changed, as counted by a property of users. -/
theorem countP_set_add {users : List α} {k : Nat} {a b : α} (p : α → Bool)
    (hk : users[k]? = some a) :
    (users.set k b).countP p + (p a).toNat = users.countP p + (p b).toNat := by
  induction users generalizing k with
  | nil => cases hk
  | cons c rest ih =>
      cases k with
      | zero =>
          obtain rfl := Option.some.inj hk
          rw [List.set_cons_zero, List.countP_cons, List.countP_cons]
          cases p c <;> cases p b <;> simp
      | succ k =>
          have hrest := ih hk
          rw [List.set_cons_succ, List.countP_cons, List.countP_cons]
          omega

/-- Two users with a property are two of those that have it. -/
theorem two_le_countP {users : List α} {j k : Nat} {a b : α} {p : α → Bool} (hj : users[j]? = some a)
    (hk : users[k]? = some b) (hne : j ≠ k) (ha : p a = true) (hb : p b = true) :
    2 ≤ users.countP p := by
  have hlow (l : List α) (i : Nat) (c : α) (hi : l[i]? = some c) (hc : p c = true) : 1 ≤ l.countP p :=
    List.countP_pos_iff.mpr ⟨c, List.mem_of_getElem? hi, hc⟩
  induction users generalizing j k with
  | nil => cases hj
  | cons c rest ih =>
      rw [List.countP_cons]
      cases j with
      | zero =>
          obtain rfl := Option.some.inj hj
          cases k with
          | zero => exact absurd rfl hne
          | succ k =>
              have hrest := hlow rest k b hk hb
              rw [if_pos ha]
              omega
      | succ j =>
          cases k with
          | zero =>
              obtain rfl := Option.some.inj hk
              have hrest := hlow rest j a hj ha
              rw [if_pos hb]
              omega
          | succ k =>
              have hrest := ih hj hk fun h => hne (congrArg Nat.succ h)
              omega

end Users

end RefCount
