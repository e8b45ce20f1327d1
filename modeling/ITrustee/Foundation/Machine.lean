import Mathlib.Data.Option.Basic

/-!
# Runs of a labelled machine

A machine is a partial step function: `step s i` is the state after action `i`, or `none` when `i`
is not enabled in `s`. Every choice of the environment is part of the action, so a run is a list of
actions and the interleavings of concurrent parties are the lists of their actions.

Five rules carry the proofs about whole runs. `exec_invariant` is induction over a run: what each
step preserves holds at the end. `exec_invariant_along` is the same for runs whose steps all meet a
condition. `along_congr` compares two conditions: if they agree on every state that an invariant
allows, and the first keeps the invariant, then a run meets one exactly when it meets the other.
`always_iff` lifts a property of states from single steps to all states of a run, `throughout_iff` a
preorder to any two states of it.
-/

namespace Machine

variable {σ ι : Type*} (step : σ → ι → Option σ)

/-- The state a list of actions leads to. -/
def exec (s : σ) : List ι → Option σ
  | [] => some s
  | i :: is => (step s i).bind fun s' => exec s' is

/-- Every state of the run is related to every later one. -/
def Throughout (R : σ → σ → Prop) (s : σ) (is : List ι) : Prop :=
  ∀ before between after t u, is = before ++ between ++ after →
    exec step s before = some t → exec step t between = some u → R t u

/-- Every state of the run meets `P`. -/
def Always (P : σ → Prop) (s : σ) (is : List ι) : Prop :=
  ∀ before after t, is = before ++ after → exec step s before = some t → P t

/-- Every step of the run meets `C` in the state it is taken from. -/
def Along (C : σ → ι → Prop) (s : σ) : List ι → Prop
  | [] => True
  | i :: is => C s i ∧ ∀ s', step s i = some s' → Along C s' is

variable {step}

@[simp] theorem exec_nil (s : σ) : exec step s [] = some s := rfl

@[simp] theorem exec_cons (s : σ) (i : ι) (is : List ι) :
    exec step s (i :: is) = (step s i).bind fun s' => exec step s' is := rfl

theorem exec_append (s : σ) (is js : List ι) :
    exec step s (is ++ js) = (exec step s is).bind fun s' => exec step s' js := by
  induction is generalizing s with
  | nil => rfl
  | cons i is ih =>
      rw [List.cons_append, exec_cons, exec_cons, Option.bind_assoc]
      exact congrArg _ (funext fun s' => ih s')

@[simp] theorem along_cons (C : σ → ι → Prop) (s : σ) (i : ι) (is : List ι) :
    Along step C s (i :: is) ↔ C s i ∧ ∀ s', step s i = some s' → Along step C s' is := Iff.rfl

/-- A condition on the actions alone. -/
theorem along_of_forall {C : σ → ι → Prop} {s : σ} {is : List ι} (h : ∀ i ∈ is, ∀ t, C t i) :
    Along step C s is := by
  induction is generalizing s with
  | nil => trivial
  | cons i is ih =>
      exact ⟨h i (.head is) s, fun s' _ => ih fun j hj => h j (.tail i hj)⟩

/-- A concrete run can be checked step by step. -/
instance decidableAlong (C : σ → ι → Prop) [∀ s i, Decidable (C s i)] (s : σ) (is : List ι) :
    Decidable (Along step C s is) :=
  match is with
  | [] => isTrue trivial
  | i :: is =>
      match h : step s i with
      | none => decidable_of_iff (C s i) (by simp [along_cons, h])
      | some s' =>
          have := decidableAlong C s' is
          decidable_of_iff (C s i ∧ Along step C s' is) (by simp [along_cons, h])

/-- What every step meeting `C` preserves holds at the end of a run whose steps all meet `C`. -/
theorem exec_invariant_along {C : σ → ι → Prop} (Inv : σ → Prop)
    (hstep : ∀ s i s', Inv s → C s i → step s i = some s' → Inv s')
    {s s' : σ} {is : List ι} (hinit : Inv s) (hC : Along step C s is)
    (hexec : exec step s is = some s') : Inv s' := by
  induction is generalizing s with
  | nil =>
      obtain rfl := Option.some.inj hexec
      exact hinit
  | cons i is ih =>
      obtain ⟨t, ht, hrest⟩ := Option.bind_eq_some_iff.mp hexec
      exact ih (hstep s i t hinit hC.1 ht) (hC.2 t ht) hrest

/-- A run meets two conditions when it meets each of them. -/
theorem along_and {C D : σ → ι → Prop} {s : σ} {is : List ι} :
    Along step (fun s i => C s i ∧ D s i) s is ↔ Along step C s is ∧ Along step D s is := by
  induction is generalizing s with
  | nil => exact ⟨fun _ => ⟨trivial, trivial⟩, fun _ => trivial⟩
  | cons i is ih =>
      rw [along_cons, along_cons, along_cons]
      constructor
      · rintro ⟨⟨hC, hD⟩, hrest⟩
        exact ⟨⟨hC, fun s' hs' => (ih.mp (hrest s' hs')).1⟩,
          ⟨hD, fun s' hs' => (ih.mp (hrest s' hs')).2⟩⟩
      · rintro ⟨⟨hC, hrestC⟩, ⟨hD, hrestD⟩⟩
        exact ⟨⟨hC, hD⟩, fun s' hs' => ih.mpr ⟨hrestC s' hs', hrestD s' hs'⟩⟩

/-- The rest of a run that meets a condition meets it. -/
theorem along_after {C : σ → ι → Prop} {s t : σ} {is js : List ι}
    (hC : Along step C s (is ++ js)) (hexec : exec step s is = some t) : Along step C t js := by
  induction is generalizing s with
  | nil =>
      obtain rfl := Option.some.inj hexec
      exact hC
  | cons a is ih =>
      obtain ⟨s', hs', hrest⟩ := Option.bind_eq_some_iff.mp hexec
      exact ih (hC.2 s' hs') hrest

/-- The condition at one step of a run that meets it. -/
theorem along_at {C : σ → ι → Prop} {s t : σ} {is js : List ι} {i : ι}
    (hC : Along step C s (is ++ i :: js)) (hexec : exec step s is = some t) : C t i :=
  (along_after hC hexec).1

/-- What every step preserves holds at the end of every run. -/
theorem exec_invariant (Inv : σ → Prop)
    (hstep : ∀ s i s', Inv s → step s i = some s' → Inv s')
    {s s' : σ} {is : List ι} (hinit : Inv s) (hexec : exec step s is = some s') : Inv s' := by
  refine exec_invariant_along (C := fun _ _ => True) Inv
    (fun s i s' hs _ => hstep s i s' hs) hinit ?_ hexec
  clear hinit hexec
  induction is generalizing s with
  | nil => trivial
  | cons i is ih => exact ⟨trivial, fun _ _ => ih⟩

/-- Along a run whose steps meet a condition, what follows from it and an invariant holds too. -/
theorem along_of_invariant {C D : σ → ι → Prop} (Inv : σ → Prop)
    (hD : ∀ s i, Inv s → C s i → D s i)
    (hstep : ∀ s i s', Inv s → C s i → step s i = some s' → Inv s')
    {s : σ} {is : List ι} (hinit : Inv s) (hC : Along step C s is) : Along step D s is := by
  induction is generalizing s with
  | nil => trivial
  | cons i is ih =>
      refine ⟨hD s i hinit hC.1, fun s' hs' => ?_⟩
      exact ih (hstep s i s' hinit hC.1 hs') (hC.2 s' hs')

/-- Two conditions that agree where an invariant holds, the first of which keeps the invariant,
are met by the same runs. -/
theorem along_congr {C D : σ → ι → Prop} (Inv : σ → Prop)
    (hiff : ∀ s i, Inv s → (C s i ↔ D s i))
    (hstep : ∀ s i s', Inv s → C s i → step s i = some s' → Inv s')
    {s : σ} {is : List ι} (hinit : Inv s) : Along step C s is ↔ Along step D s is := by
  induction is generalizing s with
  | nil => exact Iff.rfl
  | cons i is ih =>
      rw [along_cons, along_cons]
      constructor
      · rintro ⟨hC, hrest⟩
        refine ⟨(hiff s i hinit).mp hC, fun s' hs' => ?_⟩
        exact (ih (hstep s i s' hinit hC hs')).mp (hrest s' hs')
      · rintro ⟨hD, hrest⟩
        have hC := (hiff s i hinit).mpr hD
        refine ⟨hC, fun s' hs' => ?_⟩
        exact (ih (hstep s i s' hinit hC hs')).mpr (hrest s' hs')

/-- A run that starts in `P` stays in it when no step leaves it. -/
theorem always_iff {P : σ → Prop} {s : σ} {is : List ι} (hinit : P s) :
    Always step P s is ↔ Along step (fun s i => ∀ s', step s i = some s' → P s') s is := by
  constructor
  · intro h
    induction is generalizing s with
    | nil => trivial
    | cons i is ih =>
        have hafter : ∀ s', step s i = some s' → P s' := fun s' hs' =>
          h [i] is s' rfl (by simp [hs'])
        refine ⟨hafter, fun s' hs' => ih (hafter s' hs') ?_⟩
        intro before after t hsplit hbefore
        refine h (i :: before) after t (by simp [hsplit]) ?_
        rw [exec_cons, hs']
        exact hbefore
  · rintro h before after t rfl hbefore
    induction before generalizing s with
    | nil =>
        obtain rfl := Option.some.inj hbefore
        exact hinit
    | cons i before ih =>
        obtain ⟨s', hs', hrest⟩ := Option.bind_eq_some_iff.mp hbefore
        exact ih (h.1 s' hs') (h.2 s' hs') hrest

/-- A preorder relates every state of a run to every later one if each step stays within it. -/
theorem throughout_iff {R : σ → σ → Prop} (hrefl : ∀ s, R s s)
    (htrans : ∀ s t u, R s t → R t u → R s u) {s : σ} {is : List ι} :
    Throughout step R s is ↔ Along step (fun s i => ∀ s', step s i = some s' → R s s') s is := by
  constructor
  · intro h
    induction is generalizing s with
    | nil => trivial
    | cons i is ih =>
        refine ⟨fun s' hs' => h [] [i] is s s' rfl rfl (by simp [hs']), fun s' hs' => ih ?_⟩
        intro before between after t u hsplit hbefore hbetween
        refine h (i :: before) between after t u (by simp [hsplit]) ?_ hbetween
        rw [exec_cons, hs']
        exact hbefore
  · rintro h before between after t u rfl hbefore hbetween
    rw [List.append_assoc] at h
    have hrest := along_after h hbefore
    clear h hbefore
    induction between generalizing t with
    | nil =>
        obtain rfl := Option.some.inj hbetween
        exact hrefl t
    | cons i between ih =>
        obtain ⟨t', ht', hlater⟩ := Option.bind_eq_some_iff.mp hbetween
        exact htrans t t' u (hrest.1 t' ht') (ih t' hlater (hrest.2 t' ht'))

end Machine
