import Mathlib.Tactic
import ITrustee.Teleport.PkgLedger

/-!
# Reference counts of packages

A package should be freed only when no handler holds a pointer to it. The timeout scan, a release by
index and the second release of a send all drop the base reference, and nothing keeps two of them from
doing so for the same package. `refsSafe_of_baseSpare` names the condition under which no harm is done:
whenever one of them takes the base reference, the package has a reference to spare over the releases
that the other handlers still owe.
-/

namespace ITrustee.Teleport

open RefCount

structure RefsSafe (s : State) : Prop where
  /-- No handler holds a pointer to a freed package. -/
  freed_not_held : ∀ id ∈ s.fdList.freed, ∀ h ∈ s.handlers, h.held ≠ some id
  /-- No package is freed twice. -/
  freed_once : s.fdList.freed.Nodup
  /-- The package a handler dereferences or releases is in the list. -/
  held_in_list : ∀ h ∈ s.handlers, ∀ id, h.held = some id → ∃ p ∈ s.fdList.list, p.id = id

/-- A step that takes the base reference of a package leaves the references that the other handlers
owe. -/
def BaseSpare (s : State) (a : Action) : Prop :=
  ∀ p ∈ baseTaken s a, needOfOthers 0 s a p.id < p.refCnt

instance (s : State) (a : Action) : Decidable (BaseSpare s a) :=
  inferInstanceAs (Decidable (∀ p ∈ baseTaken s a, needOfOthers 0 s a p.id < p.refCnt))

theorem refsSafe_of_covered {s : State} (hs : s.WellFormed) (hcov : ∀ id, Covered (account 0 s id)) :
    RefsSafe s := by
  have hlive : ∀ h ∈ s.handlers, ∀ id, h.held = some id → ∃ p ∈ s.fdList.list, p.id = id := by
    intro h hmem id hheld
    have howed : 0 < h.weight 0 id := by
      rw [Handler.weight, Handler.owes, if_pos hheld, Handler.owed]
      split <;> split_ifs <;> omega
    have hneed : 0 < need 0 s id := howed.trans_le (le_total hmem)
    obtain ⟨n, hn⟩ := (hcov id).exists_count hneed
    obtain ⟨p, hp, hid, _⟩ := FdList.mem_of_refCnt? hn
    exact ⟨p, hp, hid⟩
  refine ⟨fun id hid h hmem hheld => ?_, hs.fdList.freed_nodup, hlive⟩
  obtain ⟨p, hp, hpid⟩ := hlive h hmem id hheld
  refine hs.fdList.freed_gone id hid ?_
  rw [← hpid]
  exact List.mem_map_of_mem hp

/-- In a run whose steps leave the references the other handlers owe, every state is safe. -/
theorem refsSafe_of_baseSpare (lib : Securec) (actions : List Action) (s : State)
    (hspare : Machine.Along (pkgStep lib) BaseSpare {} actions)
    (hrun : Machine.exec (pkgStep lib) {} actions = some s) : RefsSafe s := by
  have hinv : s.WellFormed ∧ ∀ id, Covered (account 0 s id) := by
    refine Machine.exec_invariant_along
      (fun s => s.WellFormed ∧ ∀ id, Covered (account 0 s id)) ?_ ?_ hspare hrun
    · intro s a s' hinv hbase hstep
      refine ⟨pkgStep_wellFormed hinv.1 hstep, fun id => ?_⟩
      apply Move.covered _ (hinv.2 id)
      apply pkgStep_move (Nat.zero_le 1) hinv.1 id _ (Or.inl rfl) hstep
      intro p hp hid
      rw [← hid]
      exact hbase p hp
    · exact ⟨initial_wellFormed, fun id => rfl⟩
  exact refsSafe_of_covered hinv.1 hinv.2

/-! ### Two sends of one package -/

/-- A package of one byte is sent in a first chunk. -/
def putPackage : List Action :=
  [.request (.pkgSend 3 1 1 (some [7]) 0 1) [], .run 0 {}, .run 0 {}]

/-- The package is then sent once. -/
def oneSend : List Action :=
  putPackage ++ [.request (.netSendto 3 1 1) [], .run 1 {}, .run 1 {}, .run 1 { ret := 1 },
    .run 1 {}, .run 1 {}]

/-- The state after `oneSend`: the package is freed and nobody holds it. -/
theorem oneSend_safe : ∃ s, Machine.exec (pkgStep Securec.reference) {} oneSend = some s ∧
    s.fdList.freed = [0] ∧ RefsSafe s := by
  refine ⟨_, rfl, rfl, ?_⟩
  exact refsSafe_of_baseSpare Securec.reference oneSend _ (by decide +kernel) rfl

/-- The package is sent by two requests; the first one finishes while the second is in `sendto`. -/
def twoSends : List Action :=
  putPackage ++ [.request (.netSendto 3 1 1) [], .request (.netSendto 3 1 1) [],
    .run 1 {}, .run 2 {}, .run 1 {}, .run 2 {}, .run 1 { ret := 1 }, .run 2 { ret := 1 },
    .run 1 {}, .run 1 {}, .run 2 {}]

/-- The second request still holds the freed package, which it releases next. -/
theorem twoSends_unsafe :
    ¬ ∀ s, Machine.exec (pkgStep Securec.reference) {} twoSends = some s → RefsSafe s := by
  intro h
  obtain ⟨s, hs, hfreed, hheld⟩ : ∃ s,
      Machine.exec (pkgStep Securec.reference) {} twoSends = some s ∧ 0 ∈ s.fdList.freed ∧
        ∃ h ∈ s.handlers, h.held = some 0 := by
    refine ⟨_, rfl, ?_⟩
    decide +kernel
  obtain ⟨handler, hmem, hheld⟩ := hheld
  exact (h s hs).freed_not_held 0 hfreed handler hmem hheld

end ITrustee.Teleport
