import Mathlib
import ITrustee.Libteec.SessionPoolAccounting

/-!
# The lifetime of the session pool

`TEEC_SessionPoolDestroy` does not wait for the detached worker. It closes the sessions below `opened`,
which it reads again in every turn of its loop, and frees the pool. A session the worker opens behind
it stays open, and a worker that has not finished goes on with a freed pool. `DestroyTimely` rules out
these steps and no others.
-/

namespace ITrustee.Libteec

open BitSet

/-- The next step reads or writes the pool or `sessionsInfo`. -/
def CreatePc.touchesPool (pc : CreatePc) : Bool := !pc.isFinished

/-- `TEEC_SessionPoolDestroy` has left its loop. -/
def PoolState.AllClosed (s : PoolState) : Prop :=
  s.destroy = some .free ∨ s.destroy = some .done

structure LifetimeSound (s : PoolState) : Prop where
  untouched : s.freed = true → s.createFn.touchesPool = false
  closed : s.AllClosed → ∀ i ∈ s.opens, s.closes.count i = 1
  closed_le : ∀ i, s.closes.count i ≤ 1

/-- What the step leads to is sound. -/
def LifetimeSoundAfter (s : PoolState) (a : PoolAction) : Prop :=
  ∀ s', poolStep s a = some s' → LifetimeSound s'

/-- The loop of `TEEC_SessionPoolDestroy` is not left while a session is open and not yet counted, no
session is opened after that, and the pool is not freed before `CreateSessionsFn` has finished. -/
def DestroyTimely (s : PoolState) : PoolAction → Prop
  | .create o =>
      match s.createFn with
      | .opening .. => s.AllClosed → o.ret ≠ teecSuccess
      | _ => True
  | .destroyStep =>
      match s.destroy with
      | some (.closing i) => s.pool.opened ≤ i → s.createFn.uncounted = 0
      | some .free => s.createFn.isFinished = true
      | some .done | none => True
  | .creator _ | .invoke | .run .. | .destroy => True

instance (s : PoolState) : Decidable s.AllClosed := inferInstanceAs (Decidable (_ ∨ _))

instance (s : PoolState) (a : PoolAction) : Decidable (DestroyTimely s a) := by
  cases a <;> rw [DestroyTimely] <;> first | infer_instance | (split <;> infer_instance)

/-! ### What was closed -/

/-- The sessions are closed in the order they were opened. -/
structure CloseInv (s : PoolState) : Prop where
  closes_eq : s.closes = List.range s.closes.length
  closes_le : s.closes.length ≤ s.pool.opened
  closing : ∀ i, s.destroy = some (.closing i) → s.closes.length = i
  freed_iff : s.freed = true ↔ s.destroy = some .done
  creating : s.creator = .opening ∨ s.creator = .spawn → s.destroy = none
  idle : s.destroy = none → s.closes = []

variable {s s' : PoolState} {a : PoolAction} {o : PoolOutcome} {stale : Set Nat}

theorem CloseInv.count (h : CloseInv s) (i : Nat) :
    s.closes.count i = if i < s.closes.length then 1 else 0 := by
  rw [h.closes_eq, List.length_range]
  by_cases hi : i < s.closes.length
  · rw [if_pos hi]
    exact List.count_eq_one_of_mem List.nodup_range (List.mem_range.mpr hi)
  · rw [if_neg hi]
    exact List.count_eq_zero.mpr fun hmem => hi (List.mem_range.mp hmem)

theorem CloseInv.count_le (h : CloseInv s) (i : Nat) : s.closes.count i ≤ 1 := by
  rw [h.count]
  split <;> omega

/-- All sessions are closed when those open are the ones counted, and the loop went through them. -/
theorem CloseInv.all_closed_iff (h : CloseInv s) (hopens : s.opens =
    List.range (s.pool.opened + s.createFn.uncounted)) :
    (∀ i ∈ s.opens, s.closes.count i = 1) ↔
      s.closes.length = s.pool.opened ∧ s.createFn.uncounted = 0 := by
  have hle := h.closes_le
  rw [hopens]
  constructor
  · intro hall
    by_contra hne
    have hlt : s.closes.length < s.pool.opened + s.createFn.uncounted := by omega
    have hcount := hall s.closes.length (List.mem_range.mpr hlt)
    rw [h.count, if_neg (lt_irrefl _)] at hcount
    exact absurd hcount (by decide)
  · intro heq i hi
    rw [List.mem_range] at hi
    rw [h.count, if_pos (by omega)]

theorem createStep_frame (hstep : createStep o s = some s') :
    s'.destroy = s.destroy ∧ s'.freed = s.freed ∧ s'.closes = s.closes ∧
      s'.creator = s.creator ∧ s.pool.opened ≤ s'.pool.opened := by
  rw [createStep] at hstep
  split at hstep
  · obtain rfl := Option.some.inj hstep
    exact ⟨rfl, rfl, rfl, rfl, le_rfl⟩
  · obtain rfl := Option.some.inj hstep
    exact ⟨rfl, rfl, rfl, rfl, le_rfl⟩
  · split at hstep <;> obtain rfl := Option.some.inj hstep <;> exact ⟨rfl, rfl, rfl, rfl, le_rfl⟩
  · obtain rfl := Option.some.inj hstep
    exact ⟨rfl, rfl, rfl, rfl, Nat.le_succ _⟩
  · obtain rfl := Option.some.inj hstep
    exact ⟨rfl, rfl, rfl, rfl, le_rfl⟩
  · cases hstep

theorem runStep_frame {k : Nat} {pc : InvokePc} (hstep : runStep o k s pc = some s') :
    s'.destroy = s.destroy ∧ s'.freed = s.freed ∧ s'.closes = s.closes ∧ s'.opens = s.opens ∧
      s'.creator = s.creator ∧ s'.createFn = s.createFn ∧ s'.pool.opened = s.pool.opened := by
  cases pc with
  | waiting =>
      rw [runStep] at hstep
      split_ifs at hstep <;> obtain rfl := Option.some.inj hstep <;>
        exact ⟨rfl, rfl, rfl, rfl, rfl, rfl, rfl⟩
  | holding =>
      rw [runStep] at hstep
      split_ifs at hstep <;> obtain rfl := Option.some.inj hstep <;>
        exact ⟨rfl, rfl, rfl, rfl, rfl, rfl, rfl⟩
  | key =>
      obtain rfl := Option.some.inj hstep
      have hopened : (getSession s.pool).2.opened = s.pool.opened := by
        rw [getSession]
        split <;> rfl
      exact ⟨rfl, rfl, rfl, rfl, rfl, rfl, hopened⟩
  | corrupted | put | posting =>
      obtain rfl := Option.some.inj hstep
      exact ⟨rfl, rfl, rfl, rfl, rfl, rfl, rfl⟩
  | returned => cases hstep

/-- A step that leaves the destruction of the pool alone. -/
theorem CloseInv.congr (h : CloseInv s) (hdestroy : s'.destroy = s.destroy)
    (hfreed : s'.freed = s.freed) (hcloses : s'.closes = s.closes)
    (hcreator : s'.creator = .opening ∨ s'.creator = .spawn → s.destroy = none)
    (hopened : s.pool.opened ≤ s'.pool.opened) : CloseInv s' := by
  constructor
  · rw [hcloses]
    exact h.closes_eq
  · rw [hcloses]
    exact h.closes_le.trans hopened
  · rw [hdestroy, hcloses]
    exact h.closing
  · rw [hfreed, hdestroy]
    exact h.freed_iff
  · rw [hdestroy]
    exact hcreator
  · rw [hdestroy, hcloses]
    exact h.idle

/-- `TEEC_SessionPoolDestroy` is called. -/
theorem CloseInv.start (h : CloseInv s) (hdestroy : s.destroy = none) {creator : CreatorPc}
    (hcreator : ¬ (creator = .opening ∨ creator = .spawn)) :
    CloseInv { s with creator, destroy := some (.closing 0) } := by
  have hcloses := h.idle hdestroy
  have hfreed : s.freed = false := by
    rw [Bool.eq_false_iff, ne_eq, h.freed_iff, hdestroy]
    exact nofun
  refine { h with
    closing := fun i hi => ?_
    freed_iff := by simp [hfreed]
    creating := fun hc => absurd hc hcreator
    idle := nofun }
  obtain rfl := DestroyPc.closing.inj (Option.some.inj hi)
  rw [hcloses, List.length_nil]

theorem CloseInv.creatorStep_inv (h : CloseInv s) (hstep : creatorStep o s = some s') :
    CloseInv s' := by
  rw [creatorStep] at hstep
  cases hcreator : s.creator with
  | opening =>
      rw [hcreator] at hstep
      have hdestroy := h.creating (Or.inl hcreator)
      dsimp only at hstep
      split at hstep
      · split_ifs at hstep
        · obtain rfl := Option.some.inj hstep
          exact h.start hdestroy (by simp)
        · obtain rfl := Option.some.inj hstep
          exact h.congr rfl rfl rfl (fun _ => hdestroy) le_rfl
      · cases hstep
  | spawn =>
      rw [hcreator] at hstep
      have hdestroy := h.creating (Or.inr hcreator)
      dsimp only at hstep
      split_ifs at hstep
      · obtain rfl := Option.some.inj hstep
        exact h.congr rfl rfl rfl (fun _ => hdestroy) le_rfl
      · obtain rfl := Option.some.inj hstep
        exact h.start hdestroy (by simp)
  | failing ret =>
      rw [hcreator] at hstep
      dsimp only at hstep
      split_ifs at hstep
      obtain rfl := Option.some.inj hstep
      exact h.congr rfl rfl rfl (by simp) le_rfl
  | returned ret =>
      rw [hcreator] at hstep
      cases hstep

theorem CloseInv.destroyStep_inv (h : CloseInv s) (hstep : destroyStep s = some s') :
    CloseInv s' := by
  have hcreating := h.creating
  have hfreed := h.freed_iff
  rw [destroyStep] at hstep
  cases hdestroy : s.destroy with
  | none =>
      rw [hdestroy] at hstep
      cases hstep
  | some pc =>
      rw [hdestroy] at hstep hcreating hfreed
      have hno : ¬ (s.creator = .opening ∨ s.creator = .spawn) := fun hc => by cases hcreating hc
      cases pc with
      | closing i =>
          have hlen := h.closing i hdestroy
          have hnot : s.freed = false := Bool.eq_false_iff.mpr fun hf => by cases hfreed.mp hf
          dsimp only at hstep
          split_ifs at hstep with hi
          · obtain rfl := Option.some.inj hstep
            have hsucc : (s.closes ++ [i]).length = i + 1 := by
              rw [List.length_append, hlen, List.length_singleton]
            refine ⟨?_, ?_, fun j hj => ?_, by simp [hnot], fun hc => absurd hc hno, by rintro ⟨⟩⟩
            · rw [hsucc, List.range_succ, ← hlen, ← h.closes_eq]
            · rw [hsucc]
              exact hi
            · rw [← DestroyPc.closing.inj (Option.some.inj hj)]
              exact hsucc
          · obtain rfl := Option.some.inj hstep
            exact ⟨h.closes_eq, h.closes_le, by rintro _ ⟨⟩, by simp [hnot],
              fun hc => absurd hc hno, by rintro ⟨⟩⟩
      | free =>
          obtain rfl := Option.some.inj hstep
          exact ⟨h.closes_eq, h.closes_le, by rintro _ ⟨⟩, by simp, fun hc => absurd hc hno,
            by rintro ⟨⟩⟩
      | done => cases hstep

theorem CloseInv.poolStep_inv (h : CloseInv s) (hstep : poolStep s a = some s') : CloseInv s' := by
  cases a with
  | create o =>
      rw [poolStep] at hstep
      split_ifs at hstep
      obtain ⟨hdestroy, hfreed, hcloses, hcreator, hopened⟩ := createStep_frame hstep
      exact h.congr hdestroy hfreed hcloses (by rw [hcreator]; exact h.creating) hopened
  | creator o => exact h.creatorStep_inv hstep
  | invoke =>
      rw [poolStep] at hstep
      split_ifs at hstep
      obtain rfl := Option.some.inj hstep
      exact h.congr rfl rfl rfl h.creating le_rfl
  | run k o =>
      rw [poolStep] at hstep
      split_ifs at hstep
      obtain ⟨pc, -, hrun⟩ := Option.bind_eq_some_iff.mp hstep
      obtain ⟨hdestroy, hfreed, hcloses, -, hcreator, -, hopened⟩ := runStep_frame hrun
      exact h.congr hdestroy hfreed hcloses (by rw [hcreator]; exact h.creating) hopened.ge
  | destroy =>
      rw [poolStep] at hstep
      split_ifs at hstep with hcall
      obtain rfl := Option.some.inj hstep
      exact h.start hcall.2 (by simp [hcall.1])
  | destroyStep => exact h.destroyStep_inv hstep

/-! ### Soundness of the next state -/

/-- A step that opens and closes no session, and does not end the loop of the destruction. -/
theorem LifetimeSound.congr (h : LifetimeSound s) (hclosed : s'.AllClosed → s.AllClosed)
    (hfreed : s'.freed = s.freed) (hcloses : s'.closes = s.closes) (hopens : s'.opens = s.opens)
    (hpc : s.freed = true → s'.createFn = s.createFn) : LifetimeSound s' := by
  refine ⟨fun hf => ?_, fun hc => ?_, ?_⟩
  · rw [hfreed] at hf
    rw [hpc hf]
    exact h.untouched hf
  · rw [hopens, hcloses]
    exact h.closed (hclosed hc)
  · rw [hcloses]
    exact h.closed_le

theorem createStep_opens (hstep : createStep o s = some s') :
    s'.opens = s.opens ∨
      ∃ last i, s.createFn = .opening last i ∧ o.ret = teecSuccess ∧ s'.opens = s.opens ++ [i] := by
  rw [createStep] at hstep
  cases hpc : s.createFn with
  | opening last i =>
      rw [hpc] at hstep
      dsimp only at hstep
      split_ifs at hstep with hret
      · obtain rfl := Option.some.inj hstep
        exact Or.inl rfl
      · obtain rfl := Option.some.inj hstep
        exact Or.inr ⟨last, i, rfl, not_not.mp hret, rfl⟩
  | finished ret =>
      rw [hpc] at hstep
      cases hstep
  | start | call | record | post =>
      rw [hpc] at hstep
      obtain rfl := Option.some.inj hstep
      exact Or.inl rfl

theorem destroyTimely_create_iff (o : PoolOutcome) :
    DestroyTimely s (.create o) ↔
      ∀ last i, s.createFn = .opening last i → s.AllClosed → o.ret ≠ teecSuccess := by
  rw [DestroyTimely]
  cases hpc : s.createFn with
  | opening last i =>
      refine ⟨fun h _ _ _ => h, fun h => h last i rfl⟩
  | start | call | record | post | finished => exact iff_of_true trivial nofun

/-- The step of a session that opens is sound unless the destruction is behind its loop. -/
theorem lifetimeSoundAfter_create_iff (hpool : PoolInv stale s) (hclose : CloseInv s)
    (h : LifetimeSound s) (o : PoolOutcome) :
    LifetimeSoundAfter s (.create o) ↔ DestroyTimely s (.create o) := by
  rw [destroyTimely_create_iff]
  by_cases hfreed : s.freed = true
  · have hnone : poolStep s (.create o) = none := if_pos hfreed
    refine ⟨fun _ last i hpc => ?_, fun _ s' hs' => ?_⟩
    · have huntouched := h.untouched hfreed
      rw [hpc] at huntouched
      cases huntouched
    · rw [hnone] at hs'
      cases hs'
  · have hstep : poolStep s (.create o) = createStep o s := if_neg hfreed
    constructor
    · intro hafter last i hpc hclosed hret
      have hopening : createStep o s = some { s with
          pool := { s.pool with isDead := Function.update s.pool.isDead i false }
          createFn := .record last i
          opens := s.opens ++ [i] } := by
        rw [createStep, hpc]
        exact if_neg (not_not.mpr hret)
      have hat := hpool.createAt
      rw [hpc] at hat
      have hsound := hafter _ (hstep.trans hopening)
      have hcount := hsound.closed hclosed i (List.mem_append_right _ (List.mem_singleton_self i))
      have hle := hclose.closes_le
      rw [hclose.count, if_neg (by rw [hat.1]; omega)] at hcount
      exact absurd hcount (by decide)
    · intro htimely s' hs'
      rw [hstep] at hs'
      obtain ⟨hdestroy, hfreed', hcloses, -, -⟩ := createStep_frame hs'
      have hclosed : s'.AllClosed → s.AllClosed := by
        rw [PoolState.AllClosed, hdestroy]
        exact id
      obtain hopens | ⟨last, i, hpc, hret, -⟩ := createStep_opens hs'
      · exact h.congr hclosed hfreed' hcloses hopens fun hf => absurd hf hfreed
      · refine ⟨fun hf => ?_, fun hc => ?_, ?_⟩
        · exact absurd (hfreed' ▸ hf) hfreed
        · exact absurd hret (htimely last i hpc (hclosed hc))
        · rw [hcloses]
          exact h.closed_le

theorem creatorStep_sound (hclose : CloseInv s) (h : LifetimeSound s)
    (hstep : creatorStep o s = some s') : LifetimeSound s' := by
  have hstart (creator : CreatorPc) :
      LifetimeSound { s with creator, destroy := some (.closing 0) } := by
    refine h.congr (fun hc => ?_) rfl rfl rfl fun _ => rfl
    obtain hc | hc := hc <;> cases hc
  rw [creatorStep] at hstep
  cases hcreator : s.creator with
  | opening =>
      rw [hcreator] at hstep
      dsimp only at hstep
      split at hstep
      · split_ifs at hstep
        · obtain rfl := Option.some.inj hstep
          exact hstart _
        · obtain rfl := Option.some.inj hstep
          exact h.congr id rfl rfl rfl fun _ => rfl
      · cases hstep
  | spawn =>
      rw [hcreator] at hstep
      have hnone := hclose.creating (Or.inr hcreator)
      dsimp only at hstep
      split_ifs at hstep
      · obtain rfl := Option.some.inj hstep
        refine h.congr id rfl rfl rfl fun hf => ?_
        have hdone := hclose.freed_iff.mp hf
        rw [hnone] at hdone
        cases hdone
      · obtain rfl := Option.some.inj hstep
        exact hstart _
  | failing ret =>
      rw [hcreator] at hstep
      dsimp only at hstep
      split_ifs at hstep
      obtain rfl := Option.some.inj hstep
      exact h.congr id rfl rfl rfl fun _ => rfl
  | returned ret =>
      rw [hcreator] at hstep
      cases hstep

theorem lifetimeSoundAfter_destroy_iff (hpool : PoolInv stale s) (hclose : CloseInv s)
    (h : LifetimeSound s) :
    LifetimeSoundAfter s .destroyStep ↔ DestroyTimely s .destroyStep := by
  have hnext (s' : PoolState) (hs' : poolStep s .destroyStep = some s') : CloseInv s' :=
    hclose.poolStep_inv hs'
  have hidle (hnone : poolStep s .destroyStep = none) : LifetimeSoundAfter s .destroyStep :=
    fun s' hs' => by cases hnone.symm.trans hs'
  have hfreed := hclose.freed_iff
  rw [DestroyTimely]
  cases hdestroy : s.destroy with
  | none => exact iff_of_true (hidle (by simp [poolStep, destroyStep, hdestroy])) trivial
  | some pc =>
      rw [hdestroy] at hfreed
      cases pc with
      | closing i =>
          have hlen := hclose.closing i hdestroy
          have hle := hclose.closes_le
          have hnot : ¬ s.freed = true := fun hf => by cases hfreed.mp hf
          by_cases hi : i < s.pool.opened
          · have hstep : poolStep s .destroyStep = some { s with
                destroy := some (.closing (i + 1)), closes := s.closes ++ [i] } := by
              simp [poolStep, destroyStep, hdestroy, hi]
            refine iff_of_true (fun s' hs' => ?_) fun hge => absurd hi (Nat.not_lt.mpr hge)
            have hcount := (hnext s' hs').count_le
            rw [hstep] at hs'
            obtain rfl := Option.some.inj hs'
            refine ⟨fun hf => absurd hf hnot, fun hc => ?_, hcount⟩
            obtain hc | hc := hc <;> cases hc
          · have hstep : poolStep s .destroyStep = some { s with destroy := some .free } := by
              simp [poolStep, destroyStep, hdestroy, hi]
            have hall := hclose.all_closed_iff hpool.opens_eq
            constructor
            · intro hafter _
              have hsound := hafter _ hstep
              exact (hall.mp (hsound.closed (Or.inl rfl))).2
            · intro htimely s' hs'
              have hcount := (hnext s' hs').count_le
              rw [hstep] at hs'
              obtain rfl := Option.some.inj hs'
              have huncounted := htimely (Nat.le_of_not_lt hi)
              exact ⟨fun hf => absurd hf hnot, fun _ => hall.mpr ⟨by omega, huncounted⟩, hcount⟩
      | free =>
          have hstep : poolStep s .destroyStep =
              some { s with destroy := some .done, freed := true } := by
            simp [poolStep, destroyStep, hdestroy]
          constructor
          · intro hafter
            have huntouched := (hafter _ hstep).untouched rfl
            rwa [CreatePc.touchesPool, Bool.not_eq_eq_eq_not, Bool.not_false] at huntouched
          · intro htimely s' hs'
            rw [hstep] at hs'
            obtain rfl := Option.some.inj hs'
            have hfinished : s.createFn.isFinished = true := htimely
            refine ⟨fun _ => ?_, fun _ => h.closed (Or.inl hdestroy), h.closed_le⟩
            rw [CreatePc.touchesPool, hfinished, Bool.not_true]
      | done => exact iff_of_true (hidle (by simp [poolStep, destroyStep, hdestroy])) trivial

theorem lifetimeSoundAfter_iff (hpool : PoolInv stale s) (hclose : CloseInv s)
    (h : LifetimeSound s) (a : PoolAction) : LifetimeSoundAfter s a ↔ DestroyTimely s a := by
  cases a with
  | create o => exact lifetimeSoundAfter_create_iff hpool hclose h o
  | creator o => exact iff_of_true (fun s' hs' => creatorStep_sound hclose h hs') trivial
  | invoke =>
      refine iff_of_true (fun s' hs' => ?_) trivial
      rw [poolStep] at hs'
      split_ifs at hs'
      obtain rfl := Option.some.inj hs'
      exact h.congr id rfl rfl rfl fun _ => rfl
  | run k o =>
      refine iff_of_true (fun s' hs' => ?_) trivial
      rw [poolStep] at hs'
      split_ifs at hs'
      obtain ⟨pc, -, hrun⟩ := Option.bind_eq_some_iff.mp hs'
      obtain ⟨hdestroy, hfreed, hcloses, hopens, -, hpc, -⟩ := runStep_frame hrun
      refine h.congr (fun hc => ?_) hfreed hcloses hopens fun _ => hpc
      rwa [PoolState.AllClosed, hdestroy] at hc
  | destroy =>
      refine iff_of_true (fun s' hs' => ?_) trivial
      rw [poolStep] at hs'
      split_ifs at hs'
      obtain rfl := Option.some.inj hs'
      refine h.congr (fun hc => ?_) rfl rfl rfl fun _ => rfl
      obtain hc | hc := hc <;> cases hc
  | destroyStep => exact lifetimeSoundAfter_destroy_iff hpool hclose h

/-! ### Runs -/

theorem sessionPoolCreate_closeInv {poolSize : Nat} {isDead : Nat → Bool} {usage : List UInt8}
    (hcreate : sessionPoolCreate poolSize isDead usage = some s) : CloseInv s ∧ LifetimeSound s := by
  obtain ⟨rfl, -⟩ := sessionPoolCreate_eq hcreate
  refine ⟨⟨rfl, le_rfl, nofun, by simp, fun _ => rfl, fun _ => rfl⟩, nofun, nofun, fun i => ?_⟩
  exact Nat.zero_le 1

/-- A run keeps the pool alive for `CreateSessionsFn` and closes every session once exactly when its
destruction is timely. -/
theorem run_lifetimeSound_iff {poolSize : Nat} {isDead : Nat → Bool} {usage : List UInt8}
    {s₀ : PoolState} (hcreate : sessionPoolCreate poolSize isDead usage = some s₀)
    (is : List PoolAction) :
    Machine.Along poolStep LifetimeSoundAfter s₀ is ↔ Machine.Along poolStep DestroyTimely s₀ is := by
  apply Machine.along_congr
    (fun s => PoolInv (toSet usage) s ∧ CloseInv s ∧ LifetimeSound s)
  · intro s a hs
    exact lifetimeSoundAfter_iff hs.1 hs.2.1 hs.2.2 a
  · intro s a s' hs hafter hstep
    exact ⟨hs.1.poolStep_inv hstep, hs.2.1.poolStep_inv hstep, hafter s' hstep⟩
  · exact ⟨sessionPoolCreate_inv hcreate, sessionPoolCreate_closeInv hcreate⟩

/-- The pool is handed out, and the worker is in its first `TEEC_OpenSession`. -/
def openingRun : List PoolAction :=
  List.replicate 5 (.create {}) ++ [.creator {}, .creator {}, .create {}, .create {}]

/-- The worker's first session fails to open, and the pool is destroyed after that. -/
def lateDestroy : List PoolAction :=
  openingRun ++ [.create { ret := teecErrorGeneric }, .destroy, .destroyStep, .destroyStep,
    .destroyStep]

theorem lateDestroy_sound :
    ∃ s₀, sessionPoolCreate 5 (fun _ => false) (List.replicate 5 0) = some s₀ ∧
      Machine.Along poolStep LifetimeSoundAfter s₀ lateDestroy := by
  obtain ⟨s₀, hcreate⟩ : ∃ s₀,
      sessionPoolCreate 5 (fun _ => false) (List.replicate 5 0) = some s₀ := ⟨_, rfl⟩
  have htimely : Machine.Along poolStep DestroyTimely s₀ lateDestroy := by
    rw [(sessionPoolCreate_eq hcreate).1]
    decide +kernel
  exact ⟨s₀, hcreate, (run_lifetimeSound_iff hcreate lateDestroy).mpr htimely⟩

/-- The pool is destroyed while the worker opens a session. -/
def earlyDestroy : List PoolAction :=
  openingRun ++ [.destroy, .destroyStep, .destroyStep, .destroyStep]

/-- The worker is about to store the session in freed memory. -/
theorem earlyDestroy_unsound :
    ¬ ∀ s₀, sessionPoolCreate 5 (fun _ => false) (List.replicate 5 0) = some s₀ →
      Machine.Along poolStep LifetimeSoundAfter s₀ earlyDestroy := by
  intro hall
  have hrun : ((sessionPoolCreate 5 (fun _ => false) (List.replicate 5 0)).bind fun s₀ =>
      Machine.exec poolStep s₀ earlyDestroy).map (fun s => (s.freed, s.createFn)) =
        some (true, .opening 5 1) := by
    decide +kernel
  obtain ⟨s, hs, hstate⟩ := Option.map_eq_some_iff.mp hrun
  obtain ⟨s₀, hcreate, hexec⟩ := Option.bind_eq_some_iff.mp hs
  obtain ⟨hfreed, hpc⟩ := Prod.mk.inj hstate
  have hsound := Machine.exec_invariant_along LifetimeSound
    (fun _ _ _ _ hafter hstep => hafter _ hstep) (sessionPoolCreate_closeInv hcreate).2
    (hall s₀ hcreate) hexec
  have huntouched := hsound.untouched hfreed
  rw [hpc] at huntouched
  cases huntouched

end ITrustee.Libteec
