import Mathlib.Data.List.Basic
import ITrustee.Foundation.Machine
import ITrustee.Teleport.Serialize

/-!
# The life of a tasklet

The data tasklet from the `ThreadPoolInit` of `XtaskletCreate` to the end of `FreeDataTasklet`: the
creating thread, the workers it starts, and the thread that frees. A worker loads `tl->priv` as it
calls the handler, in one step. Creation stores that field after it has started the workers, and
`malloc` left anything there; `FreeDataTasklet` destroys the list before it stops them. A run is in
order if no worker calls the handler too early or too late, and if nothing of the list is destroyed
in the middle of a call.
-/

namespace ITrustee.Xtasklet

open Serialize (eInval)

/-! ### Workers -/

/-- Where a thread stands in `ExecutorFetch`. -/
inductive WorkerPc where
  | unstarted
  /-- Before the load of `tl->terminated`. -/
  | checking
  | dequeuing
  | fetched
  /-- In the handler, with this private argument. -/
  | calling (priv : Nat)
  | responding
  | exited
  deriving DecidableEq

/-- The next step of `ExecutorFetch`. `ret` is what `DequeuedTaskCreate` returns. -/
def executorFetchStep (terminated : Bool) (priv : Nat) (ret : Int) : WorkerPc → Option WorkerPc
  | .unstarted => none
  | .checking => some (if terminated then .exited else .dequeuing)
  | .dequeuing => some (if ret ≠ 0 then .checking else .fetched)
  | .fetched => some (.calling priv)
  | .calling _ => some .responding
  | .responding => some .checking
  | .exited => none

/-- `ThreadPoolFinalize` is past this thread: it was never started, or `pthread_join` returns. -/
def WorkerPc.joinable : WorkerPc → Bool
  | .unstarted | .exited => true
  | _ => false

/-! ### The list -/

/-- What `FdListDestroy` takes apart. Without its packages the list is as `FdListInit` left it. -/
structure FdListParts where
  bitmap : Bool := true
  fdListLock : Bool := true
  bitmapLock : Bool := true
  memory : Bool := true
  deriving DecidableEq

/-- Initialised and not yet destroyed. -/
def FdListParts.Intact (l : FdListParts) : Prop := l = {}

instance (l : FdListParts) : Decidable l.Intact := inferInstanceAs (Decidable (l = {}))

/-- When the lock cannot be taken, `errno` may still be 0. -/
def fdListFreePkgList (ret errno : Int) : Int := if ret ≠ 0 then -errno else 0

def fdListFreeBitmap (ret errno : Int) (l : FdListParts) : Int × FdListParts :=
  if !l.bitmap then (-eInval, l)
  else if ret ≠ 0 then (-errno, l)
  else (0, { l with bitmap := false })

/-! ### The three parties -/

inductive CreatorPc where
  /-- Before the `calloc` of `ThreadPoolInit`. -/
  | allocating
  | spawning (i : Nat)
  | finalizing (i : Nat)
  /-- Before `tl->priv = props->priv`. -/
  | storing
  | created
  | failed
  deriving DecidableEq

inductive FreerPc where
  | waiting
  | freeingPkgList
  | freeingBitmap
  | destroyingFdListLock
  | destroyingBitmapLock
  | freeingFdList
  /-- At the `XtaskletDestroy`. -/
  | terminating
  | finalizing (i : Nat)
  | freed
  deriving DecidableEq

/-- `given` is `props->priv`, the list; a pointer is a number. -/
structure Lifetime where
  workers : List WorkerPc
  given : Nat
  priv : Nat
  fdList : FdListParts := {}
  terminated : Bool := false
  creator : CreatorPc := .allocating
  freer : FreerPc := .waiting

inductive LifetimeAction where
  | create (ret : Int)
  | free (ret errno : Int)
  | work (i : Nat) (ret : Int)

/-- `XtaskletCreate` from its `ThreadPoolInit` on. `ret` is what the call made in this step returns,
and anything but 0 for a `calloc` that fails. -/
def xtaskletCreate (ret : Int) (s : Lifetime) : Option Lifetime :=
  match s.creator with
  | .allocating => some { s with creator := if ret ≠ 0 then .failed else .spawning 0 }
  | .spawning i =>
      if i < s.workers.length then
        if ret ≠ 0 then some { s with creator := .finalizing 0 }
        else some { s with workers := s.workers.set i .checking, creator := .spawning (i + 1) }
      else some { s with creator := .storing }
  | .finalizing i =>
      match s.workers[i]? with
      | none => some { s with creator := .failed }
      | some w => if w.joinable then some { s with creator := .finalizing (i + 1) } else none
  | .storing => some { s with priv := s.given, creator := .created }
  | .created | .failed => none

/-- `FreeDataTasklet` of a tasklet that was created: `FdListDestroy` of its `priv`, which returns as
soon as a call fails, and `XtaskletDestroy`. -/
def freeDataTasklet (ret errno : Int) (s : Lifetime) : Option Lifetime :=
  match s.freer with
  | .waiting => if s.creator = .created then some { s with freer := .freeingPkgList } else none
  | .freeingPkgList =>
      some { s with
        freer := if fdListFreePkgList ret errno ≠ 0 then .terminating else .freeingBitmap }
  | .freeingBitmap =>
      let r := fdListFreeBitmap ret errno s.fdList
      some { s with
        fdList := r.2
        freer := if r.1 ≠ 0 then .terminating else .destroyingFdListLock }
  | .destroyingFdListLock =>
      if ret ≠ 0 then some { s with freer := .terminating }
      else some { s with
        fdList := { s.fdList with fdListLock := false }
        freer := .destroyingBitmapLock }
  | .destroyingBitmapLock =>
      if ret ≠ 0 then some { s with freer := .terminating }
      else some { s with
        fdList := { s.fdList with bitmapLock := false }
        freer := .freeingFdList }
  | .freeingFdList =>
      some { s with fdList := { s.fdList with memory := false }, freer := .terminating }
  | .terminating => some { s with terminated := true, freer := .finalizing 0 }
  | .finalizing i =>
      match s.workers[i]? with
      | none => some { s with freer := .freed }
      | some w => if w.joinable then some { s with freer := .finalizing (i + 1) } else none
  | .freed => none

def lifetimeStep (s : Lifetime) : LifetimeAction → Option Lifetime
  | .create ret => xtaskletCreate ret s
  | .free ret errno => freeDataTasklet ret errno s
  | .work i ret =>
      (s.workers[i]?.bind (executorFetchStep s.terminated s.priv ret)).map fun w =>
        { s with workers := s.workers.set i w }

/-- At the `ThreadPoolInit` for this many threads, when `malloc` left the number `left` in the place
of `priv`. -/
def creating (concurrency given left : Nat) : Lifetime where
  workers := List.replicate concurrency .unstarted
  given
  priv := left

/-! ### What should hold -/

/-- Every handler that runs was given the list of the creation, and the list is intact. -/
def HandlersSound (s : Lifetime) : Prop :=
  ∀ priv, WorkerPc.calling priv ∈ s.workers → priv = s.given ∧ s.fdList.Intact

def NoHandlerRuns (s : Lifetime) : Prop := ∀ priv, WorkerPc.calling priv ∉ s.workers

/-- The next step of the freeing thread destroys a part of the list. -/
def Lifetime.destroysPart (ret : Int) (s : Lifetime) : Bool :=
  match s.freer with
  | .freeingBitmap => s.fdList.bitmap && ret = 0
  | .destroyingFdListLock | .destroyingBitmapLock => ret = 0
  | .freeingFdList => true
  | _ => false

/-- No worker calls the handler before the creating thread has stored `priv`, unless the memory held
that very pointer, or once a part of the list is destroyed; and no part is destroyed while a handler
runs. -/
def WellOrdered (left : Nat) (s : Lifetime) : LifetimeAction → Prop
  | .create _ => True
  | .free ret _ => s.destroysPart ret = true → NoHandlerRuns s
  | .work i _ =>
      s.workers[i]? = some .fetched →
        (s.creator = .created ∨ left = s.given) ∧ s.fdList.Intact

/-! ### What one step does -/

section Steps

variable {left : Nat} {s s' : Lifetime}

/-- The field holds what `malloc` left until the creating thread has stored the list. -/
def StoredWhenCreated (left : Nat) (s : Lifetime) : Prop :=
  s.priv = if s.creator = .created then s.given else left

theorem StoredWhenCreated.given_iff (h : StoredWhenCreated left s) :
    s.priv = s.given ↔ s.creator = .created ∨ left = s.given := by
  rw [StoredWhenCreated] at h
  rw [h]
  split_ifs with hcreated <;> simp [hcreated]

/-- The creating thread starts workers outside the handler, and leaves the list alone. -/
theorem xtaskletCreate_cases {ret : Int} (hstep : xtaskletCreate ret s = some s') :
    (∀ priv, .calling priv ∈ s'.workers → .calling priv ∈ s.workers) ∧
      s'.given = s.given ∧ s'.fdList = s.fdList ∧
      ∀ left, StoredWhenCreated left s → StoredWhenCreated left s' := by
  have hbefore {pc pc' : CreatorPc} {left : Nat} (hpc : s.creator = pc) (hne : pc ≠ .created)
      (hne' : pc' ≠ .created) (workers : List WorkerPc) (hstored : StoredWhenCreated left s) :
      StoredWhenCreated left { s with workers, creator := pc' } := by
    rw [StoredWhenCreated, hpc, if_neg hne] at hstored
    rw [StoredWhenCreated, if_neg hne']
    exact hstored
  rw [xtaskletCreate] at hstep
  cases hpc : s.creator with
  | allocating =>
      rw [hpc] at hstep
      obtain rfl := Option.some.inj hstep
      refine ⟨fun _ => id, rfl, rfl, fun left => hbefore hpc (by simp) ?_ s.workers⟩
      split <;> simp
  | spawning i =>
      rw [hpc] at hstep
      dsimp only at hstep
      split_ifs at hstep with hi hret
      · obtain rfl := Option.some.inj hstep
        exact ⟨fun _ => id, rfl, rfl, fun left => hbefore hpc (by simp) (by simp) s.workers⟩
      · obtain rfl := Option.some.inj hstep
        refine ⟨fun priv hcalling => ?_, rfl, rfl, fun left => hbefore hpc (by simp) (by simp) _⟩
        obtain hold | hnew := List.mem_or_eq_of_mem_set hcalling
        · exact hold
        · cases hnew
      · obtain rfl := Option.some.inj hstep
        exact ⟨fun _ => id, rfl, rfl, fun left => hbefore hpc (by simp) (by simp) s.workers⟩
  | finalizing i =>
      rw [hpc] at hstep
      dsimp only at hstep
      cases hworker : s.workers[i]? with
      | none =>
          rw [hworker] at hstep
          obtain rfl := Option.some.inj hstep
          exact ⟨fun _ => id, rfl, rfl, fun left => hbefore hpc (by simp) (by simp) s.workers⟩
      | some w =>
          rw [hworker] at hstep
          obtain ⟨-, heq⟩ := Option.ite_none_right_eq_some.mp hstep
          obtain rfl := Option.some.inj heq
          exact ⟨fun _ => id, rfl, rfl, fun left => hbefore hpc (by simp) (by simp) s.workers⟩
  | storing =>
      rw [hpc] at hstep
      obtain rfl := Option.some.inj hstep
      refine ⟨fun _ => id, rfl, rfl, fun left _ => ?_⟩
      rw [StoredWhenCreated, if_pos rfl]
  | created =>
      rw [hpc] at hstep
      cases hstep
  | failed =>
      rw [hpc] at hstep
      cases hstep

/-- The freeing thread leaves everything but the list alone, and also the list when it destroys no
part of it. -/
theorem freeDataTasklet_cases {ret errno : Int} (hstep : freeDataTasklet ret errno s = some s') :
    s'.workers = s.workers ∧ s'.given = s.given ∧ s'.priv = s.priv ∧ s'.creator = s.creator ∧
      if s.destroysPart ret then ¬s'.fdList.Intact else s'.fdList = s.fdList := by
  rw [freeDataTasklet] at hstep
  rw [Lifetime.destroysPart]
  cases hpc : s.freer with
  | waiting =>
      rw [hpc] at hstep
      obtain ⟨-, heq⟩ := Option.ite_none_right_eq_some.mp hstep
      obtain rfl := Option.some.inj heq
      exact ⟨rfl, rfl, rfl, rfl, rfl⟩
  | freeingPkgList =>
      rw [hpc] at hstep
      obtain rfl := Option.some.inj hstep
      exact ⟨rfl, rfl, rfl, rfl, rfl⟩
  | freeingBitmap =>
      rw [hpc] at hstep
      obtain rfl := Option.some.inj hstep
      refine ⟨rfl, rfl, rfl, rfl, ?_⟩
      dsimp only
      rw [fdListFreeBitmap]
      cases hbitmap : s.fdList.bitmap with
      | false => rfl
      | true =>
          by_cases hret : ret = 0
          · simp [hret, FdListParts.Intact]
          · simp [hret]
  | destroyingFdListLock =>
      rw [hpc] at hstep
      dsimp only at hstep ⊢
      split_ifs at hstep with hret
      · obtain rfl := Option.some.inj hstep
        exact ⟨rfl, rfl, rfl, rfl, by simp [hret]⟩
      · obtain rfl := Option.some.inj hstep
        exact ⟨rfl, rfl, rfl, rfl, by simp [not_not.mp hret, FdListParts.Intact]⟩
  | destroyingBitmapLock =>
      rw [hpc] at hstep
      dsimp only at hstep ⊢
      split_ifs at hstep with hret
      · obtain rfl := Option.some.inj hstep
        exact ⟨rfl, rfl, rfl, rfl, by simp [hret]⟩
      · obtain rfl := Option.some.inj hstep
        exact ⟨rfl, rfl, rfl, rfl, by simp [not_not.mp hret, FdListParts.Intact]⟩
  | freeingFdList =>
      rw [hpc] at hstep
      obtain rfl := Option.some.inj hstep
      exact ⟨rfl, rfl, rfl, rfl, by simp [FdListParts.Intact]⟩
  | terminating =>
      rw [hpc] at hstep
      obtain rfl := Option.some.inj hstep
      exact ⟨rfl, rfl, rfl, rfl, rfl⟩
  | finalizing i =>
      rw [hpc] at hstep
      dsimp only at hstep
      cases hworker : s.workers[i]? with
      | none =>
          rw [hworker] at hstep
          obtain rfl := Option.some.inj hstep
          exact ⟨rfl, rfl, rfl, rfl, rfl⟩
      | some w =>
          rw [hworker] at hstep
          obtain ⟨-, heq⟩ := Option.ite_none_right_eq_some.mp hstep
          obtain rfl := Option.some.inj heq
          exact ⟨rfl, rfl, rfl, rfl, rfl⟩
  | freed =>
      rw [hpc] at hstep
      cases hstep

/-- Nothing makes the freeing thread wait when it destroys a part. -/
theorem freeDataTasklet_of_destroysPart {ret : Int} (hdestroys : s.destroysPart ret = true)
    (errno : Int) : ∃ s', freeDataTasklet ret errno s = some s' := by
  rw [Lifetime.destroysPart] at hdestroys
  rw [freeDataTasklet]
  cases hpc : s.freer with
  | freeingBitmap => exact ⟨_, rfl⟩
  | freeingFdList => exact ⟨_, rfl⟩
  | destroyingFdListLock =>
      rw [hpc] at hdestroys
      exact ⟨_, if_neg (not_not.mpr (of_decide_eq_true hdestroys))⟩
  | destroyingBitmapLock =>
      rw [hpc] at hdestroys
      exact ⟨_, if_neg (not_not.mpr (of_decide_eq_true hdestroys))⟩
  | _ =>
      rw [hpc] at hdestroys
      cases hdestroys

/-- Only a worker that has fetched a task gets into the handler, with what the field holds. -/
theorem executorFetchStep_calling {terminated : Bool} {priv arg : Nat} {ret : Int} {w : WorkerPc}
    (hstep : executorFetchStep terminated priv ret w = some (.calling arg)) :
    w = .fetched ∧ arg = priv := by
  cases w with
  | fetched =>
      injection hstep with hcalling
      injection hcalling with harg
      exact ⟨rfl, harg.symm⟩
  | checking =>
      injection hstep with hcalling
      split_ifs at hcalling
  | dequeuing =>
      injection hstep with hcalling
      split_ifs at hcalling
  | unstarted => cases hstep
  | calling _ => cases hstep
  | responding => cases hstep
  | exited => cases hstep

/-- A worker that steps moves itself only. -/
theorem lifetimeStep_work {i : Nat} {ret : Int} (hstep : lifetimeStep s (.work i ret) = some s') :
    ∃ w w', s.workers[i]? = some w ∧ executorFetchStep s.terminated s.priv ret w = some w' ∧
      s' = { s with workers := s.workers.set i w' } := by
  rw [lifetimeStep] at hstep
  obtain ⟨w', hw', rfl⟩ := Option.map_eq_some_iff.mp hstep
  obtain ⟨w, hw, hfetch⟩ := Option.bind_eq_some_iff.mp hw'
  exact ⟨w, w', hw, hfetch, rfl⟩

theorem lifetimeStep_stored {a : LifetimeAction} (hstep : lifetimeStep s a = some s')
    (hstored : StoredWhenCreated left s) : StoredWhenCreated left s' := by
  cases a with
  | create ret =>
      obtain ⟨-, -, -, hkept⟩ := xtaskletCreate_cases hstep
      exact hkept left hstored
  | free ret errno =>
      obtain ⟨-, hgiven, hpriv, hcreator, -⟩ := freeDataTasklet_cases hstep
      rw [StoredWhenCreated, hpriv, hcreator, hgiven]
      exact hstored
  | work i ret =>
      obtain ⟨w, w', -, -, rfl⟩ := lifetimeStep_work hstep
      exact hstored

/-! ### Whole lives -/

/-- A step keeps the handlers sound exactly when it is in order. -/
theorem handlersSound_after_iff {a : LifetimeAction} (hstored : StoredWhenCreated left s)
    (hsound : HandlersSound s) :
    (∀ s', lifetimeStep s a = some s' → HandlersSound s') ↔ WellOrdered left s a := by
  cases a with
  | create ret =>
      refine iff_of_true (fun s' hstep priv hcalling => ?_) trivial
      obtain ⟨hold, hgiven, hfdList, -⟩ :=
        xtaskletCreate_cases (show xtaskletCreate ret s = some s' from hstep)
      rw [hgiven, hfdList]
      exact hsound priv (hold priv hcalling)
  | free ret errno =>
      constructor
      · intro hafter hdestroys priv hcalling
        obtain ⟨s', hstep⟩ := freeDataTasklet_of_destroysPart hdestroys errno
        obtain ⟨hworkers, -, -, -, hparts⟩ := freeDataTasklet_cases hstep
        rw [if_pos hdestroys] at hparts
        rw [← hworkers] at hcalling
        exact hparts (hafter s' hstep priv hcalling).2
      · intro hquiet s' hstep priv hcalling
        obtain ⟨hworkers, hgiven, -, -, hparts⟩ :=
          freeDataTasklet_cases (show freeDataTasklet ret errno s = some s' from hstep)
        rw [hworkers] at hcalling
        by_cases hdestroys : s.destroysPart ret = true
        · exact absurd hcalling (hquiet hdestroys priv)
        · rw [if_neg hdestroys] at hparts
          rw [hgiven, hparts]
          exact hsound priv hcalling
  | work i ret =>
      constructor
      · intro hafter hfetched
        have hstep : lifetimeStep s (.work i ret) =
            some { s with workers := s.workers.set i (.calling s.priv) } := by
          rw [lifetimeStep, hfetched]
          rfl
        have hlt : i < s.workers.length := (List.getElem?_eq_some_iff.mp hfetched).1
        obtain ⟨hpriv, hintact⟩ := hafter _ hstep s.priv (List.mem_set hlt _)
        exact ⟨hstored.given_iff.mp hpriv, hintact⟩
      · intro hordered s' hstep priv hcalling
        obtain ⟨w, w', hworker, hfetch, rfl⟩ := lifetimeStep_work hstep
        obtain hold | rfl := List.mem_or_eq_of_mem_set hcalling
        · exact hsound priv hold
        · obtain ⟨rfl, rfl⟩ := executorFetchStep_calling hfetch
          obtain ⟨hgiven, hintact⟩ := hordered hworker
          exact ⟨hstored.given_iff.mpr hgiven, hintact⟩

end Steps

theorem creating_stored (concurrency given left : Nat) :
    StoredWhenCreated left (creating concurrency given left) := by
  rw [StoredWhenCreated, if_neg]
  · rfl
  · simp [creating]

theorem creating_sound (concurrency given left : Nat) :
    HandlersSound (creating concurrency given left) := by
  intro priv hcalling
  cases List.eq_of_mem_replicate hcalling

/-- In every interleaving, every handler is called with the list of the creation, intact as long as
it runs, exactly when the steps of the run are in order. -/
theorem always_handlersSound_iff (concurrency given left : Nat) (acts : List LifetimeAction) :
    Machine.Always lifetimeStep HandlersSound (creating concurrency given left) acts ↔
      Machine.Along lifetimeStep (WellOrdered left) (creating concurrency given left) acts := by
  rw [Machine.always_iff (creating_sound concurrency given left)]
  refine Machine.along_congr (fun s => StoredWhenCreated left s ∧ HandlersSound s) ?_ ?_
    ⟨creating_stored concurrency given left, creating_sound concurrency given left⟩
  · rintro s a ⟨hstored, hsound⟩
    exact handlersSound_after_iff hstored hsound
  · rintro s a s' ⟨hstored, -⟩ hafter hstep
    exact ⟨lifetimeStep_stored hstep hstored, hafter s' hstep⟩

/-- The list loses its bitmap while the only worker is in the handler. -/
def destroyedInCall : List LifetimeAction :=
  [.create 0, .create 0, .create 0, .create 0, .work 0 0, .work 0 0, .work 0 0,
    .free 0 0, .free 0 0, .free 0 0]

theorem destroyedInCall_unsound :
    ¬ Machine.Always lifetimeStep HandlersSound (creating 1 7 0) destroyedInCall := by
  intro halways
  obtain ⟨-, hintact⟩ := halways destroyedInCall [] _ rfl rfl 7 List.mem_cons_self
  cases hintact

/-- A worker that fetches a task before `tl->priv = props->priv` passes on what `malloc` left. -/
example : (Machine.exec lifetimeStep (creating 1 7 0)
    [.create 0, .create 0, .work 0 0, .work 0 0, .work 0 0]).map Lifetime.workers =
      some [.calling 0] := rfl

end ITrustee.Xtasklet
