import Mathlib.Tactic
import ITrustee.Teleport.ChildProxy

/-!
# What the secure world is answered

The properties of `ChildProxy` over every interleaving. The parent's part and the child's part are two
invariants. `ChildMoves` is all that the parent needs to know of a step of the child, and a step of the
parent leaves the child's attachment and the shared value alone once the child exists, so each part is
kept by the steps of the other.
-/

namespace ITrustee.Teleport.Proxy

open Holdings

/-! ### The two parts -/

/-- The segment exists and meets `P`. -/
def SegmentHas (s : State) (P : Segment → Prop) : Prop := ∃ g, s.segment = some g ∧ P g

/-- What the child has done agrees with where it stands. -/
def ChildSound (kept : Multiset Handle) (s : State) : Prop :=
  match s.childPc with
  | .absent => s.initRet = none ∧ Inherits kept s.childWorld
  | .starting => s.initRet = none ∧ SegmentHas s (·.child = true) ∧ Inherits kept s.childWorld
  | .storing ret => s.initRet = some ret ∧ SegmentHas s (·.child = true) ∧
      (ret = 0 → Running kept s.childWorld)
  | .posting ret => s.initRet = some ret ∧ SegmentHas s (·.value = ret) ∧
      (ret = 0 → Running kept s.childWorld)
  | .serving => s.initRet = some 0 ∧ Running kept s.childWorld
  | .waiting => Waiting kept s.childWorld
  | .exited => True

def Cloned (s : State) : Prop := s.childPc ≠ .absent

/-- The pid is known when there is a child, and the parent waits only then. -/
def PidSound (s : State) : Prop :=
  if s.childPc = .absent then s.childPid = -1 ∧ s.timedOut = false else 0 < s.childPid

/-- The shared integer is -1 or what `PosixProxyInit` returned, and the latter once it is posted. -/
def Shared (s : State) : Prop :=
  SegmentHas s fun g => (g.value = -1 ∨ s.initRet = some g.value) ∧
    (0 < s.semValue → s.initRet = some g.value)

/-- What the parent goes on to answer is an error of its own, or was read from the child. -/
def Told (s : State) (ret : Int) : Prop :=
  if s.childPc = .absent then ret ≤ 0
  else (ret = -1 ∨ s.initRet = some ret) ∧ (s.timedOut = false → s.initRet = some ret)

/-- The parent has left the segment. -/
def Left (s : State) (removed : Bool) : Prop :=
  ∀ g, s.segment = some g → g.parent = false ∧ (removed = true → g.removed = true)

/-- What the parent holds where it stands, and what it knows. -/
def ParentSound (s : State) : Prop :=
  match s.parent with
  | .namingSem | .openingSem => s.childPc = .absent ∧ s.segment = none ∧ s.semOpen = false ∧
      s.semLinked = false ∧ s.semValue = 0 ∧ s.stack = false
  | .gettingShm => s.childPc = .absent ∧ s.segment = none ∧ s.semValue = 0 ∧ s.stack = false
  | .attachingShm => s.childPc = .absent ∧ s.semValue = 0 ∧ s.stack = false ∧
      SegmentHas s (·.parent = false)
  | .storing _ => s.childPc = .absent ∧ s.semValue = 0 ∧ s.stack = false ∧
      SegmentHas s fun _ => True
  | .allocatingStack => s.childPc = .absent ∧ s.semValue = 0 ∧ s.stack = false ∧
      SegmentHas s (·.value = -1)
  | .cloning => s.childPc = .absent ∧ s.semValue = 0 ∧ SegmentHas s (·.value = -1)
  | .waiting => Cloned s ∧ s.timedOut = false ∧ Shared s
  | .reading => Cloned s ∧ Shared s ∧
      (s.timedOut = false → SegmentHas s fun g => s.initRet = some g.value)
  | .freeingStack ret => Told s ret
  | .detaching ret => Told s ret ∧ s.stack = false
  | .removing ret => Told s ret ∧ s.stack = false ∧ Left s false
  | .closingSem ret => Told s ret ∧ s.stack = false ∧ Left s true
  | .unlinkingSem ret => Told s ret ∧ s.stack = false ∧ Left s true ∧ s.semOpen = false
  | .returned value => s.stack = false ∧ Left s true ∧ s.semOpen = false ∧ s.semLinked = false ∧
      ∃ ret, Told s ret ∧ value = answer s ret
  | .crashed => True

structure Sound (kept : Multiset Handle) (s : State) : Prop where
  child : ChildSound kept s
  parent : ParentSound s
  pid : PidSound s

/-- What the steps of the child, or what happens to it, can change of what the parent relies on. -/
structure ChildMoves (s s' : State) : Prop where
  parent : s'.parent = s.parent
  childPid : s'.childPid = s.childPid
  semOpen : s'.semOpen = s.semOpen
  semLinked : s'.semLinked = s.semLinked
  stack : s'.stack = s.stack
  timedOut : s'.timedOut = s.timedOut
  cloned : Cloned s ∧ Cloned s'
  /-- The result of `PosixProxyInit` is set once. -/
  initRet : s.initRet = none ∨ s'.initRet = s.initRet
  segment : ∀ g, s.segment = some g →
    ∃ g', s'.segment = some g' ∧ (g'.value = g.value ∨ s'.initRet = some g'.value)
  left : ∀ b, Left s b → Left s' b
  posted : 0 < s'.semValue → 0 < s.semValue ∨ ∀ g, s'.segment = some g → s'.initRet = some g.value

variable {kept : Multiset Handle} {s s' : State}

theorem ChildMoves.initRet_some (h : ChildMoves s s') {ret : Int} (hret : s.initRet = some ret) :
    s'.initRet = some ret := by
  rcases h.initRet with hnone | hsame
  · rw [hnone] at hret
    cases hret
  · rw [hsame, hret]

theorem ChildMoves.shared (h : ChildMoves s s') (hs : Shared s) : Shared s' := by
  obtain ⟨g, hg, hvalue, hposted⟩ := hs
  obtain ⟨g', hg', hsame | hinit⟩ := h.segment g hg
  · refine ⟨g', hg', hvalue.imp (fun hv => hsame.trans hv) fun hv => ?_, fun hpos => ?_⟩
    · rw [hsame]
      exact h.initRet_some hv
    · rcases h.posted hpos with hold | hnew
      · rw [hsame]
        exact h.initRet_some (hposted hold)
      · exact hnew g' hg'
  · exact ⟨g', hg', Or.inr hinit, fun _ => hinit⟩

end ITrustee.Teleport.Proxy
