import Mathlib.Tactic
import ITrustee.Teleport.PosixProxy

/-!
# What the proxy holds

A running proxy owns what can be reached from `g_posix_proxy`, and a process that runs it holds
nothing else of its making but the package lists that could not be destroyed: after every request,
whatever failed on the way, the holdings of the process are those it had before `PosixProxyInit`, those
lists, and those of the proxy. When `PosixProxyInit` fails and when `PosixProxyDestroy` is done, the
proxy's are gone. A request may also never end. That every program here has a result says that its
thread neither uses nor gives back what has been given back.
-/

namespace ITrustee.Teleport.Proxy

open Holdings

/-! ### Ownership -/

def Sem.owned (s : Sem) : Multiset Handle := {s.block} + {s.sem}

def semOwned : Option Sem → Multiset Handle
  | none => 0
  | some s => s.owned

def CtrlTasklet.owned (t : CtrlTasklet) : Multiset Handle :=
  {t.block} + {t.tl} + {t.shmBuff} + semOwned t.destroySem

def DataTasklet.owned (t : DataTasklet) : Multiset Handle :=
  {t.block} + {t.tl} + {t.priv} + {t.shmBuff} + {t.fdListTimeoutT} + t.fdListTimeoutTExitSem.owned

def dataOwned : Option DataTasklet → Multiset Handle
  | none => 0
  | some t => t.owned

def PosixProxy.owned (p : PosixProxy) : Multiset Handle :=
  {p.block} + p.ctrlTasklet.owned + dataOwned p.dataTasklet + {p.devFd}

/-- What `dropInherited` takes of a proxy. -/
def inheritedOwned : Option PosixProxy → Multiset Handle
  | none => 0
  | some p => {p.block} + {p.devFd}

/-- The package lists that could not be destroyed. -/
def Globals.lost (g : Globals) : Multiset Handle := ↑g.undestroyed

/-- Only lists that could not be destroyed have been added. -/
def SameButLost (g g' : Globals) : Prop := g' = { g with undestroyed := g'.undestroyed }

/-- What is owned through the globals is the same. -/
structure SameOwned (g g' : Globals) : Prop where
  gPosixProxy : g'.gPosixProxy = g.gPosixProxy
  lost : g'.lost = g.lost

variable {w : World Kind Globals} {rest : Multiset Handle}

theorem SameOwned.trans {g g' g'' : Globals} (h : SameOwned g g') (h' : SameOwned g' g'') :
    SameOwned g g'' :=
  ⟨h'.gPosixProxy.trans h.gPosixProxy, h'.lost.trans h.lost⟩

theorem SameButLost.gPosixProxy {g g' : Globals} (h : SameButLost g g') :
    g'.gPosixProxy = g.gPosixProxy := by rw [h]

/-! ### Taking apart -/

/-- The driver has been told of the data tasklet that the proxy keeps. -/
def Announced (g : Globals) (p : PosixProxy) : Prop :=
  ∀ t, p.dataTasklet = some t → ⟨.dataTaskletBuff, t.shmSz, t.shmBuff⟩ ∈ g.registered

/-- The process holds `kept`, which is none of its making, its proxy, and the lists that it lost. -/
def Running (kept : Multiset Handle) (w : World Kind Globals) : Prop :=
  ∃ p, w.globals.gPosixProxy = some p ∧ w.held = p.owned + (w.globals.lost + kept) ∧
    p.ctrlTasklet.destroySem ≠ none ∧ Announced w.globals p

/-- The control thread creates an executor with several threads and a proxy without a data tasklet, for
which it holds a list and a buffer already. -/
def Waiting (kept : Multiset Handle) (w : World Kind Globals) : Prop :=
  ∃ p fdList buffer, w.globals.gPosixProxy = some p ∧ p.dataTasklet = none ∧
    1 < w.globals.gDataTaskletThreadConcurrency ∧
      w.held = {fdList} + ({buffer} + (p.owned + (w.globals.lost + kept)))

variable {kept : Multiset Handle}

/-- What the control thread leaves where it stands. -/
def Serves (kept : Multiset Handle) : Control → Prop
  | .ready w => Running kept w
  | .waiting w => Waiting kept w

/-- What a process holds in which there is a copy of its parent's proxy, or none. -/
def Inherits (kept : Multiset Handle) (w : World Kind Globals) : Prop :=
  w.held = inheritedOwned w.globals.gPosixProxy + (w.globals.lost + kept)

/-- A child of a process whose proxy had no data tasklet. -/
def child : World Kind Globals where
  next := 7
  held := {⟨.memory, 0⟩, ⟨.descriptor, 1⟩, ⟨.memory, 2⟩, ⟨.executor, 3⟩, ⟨.memory, 4⟩}
  replies n := if n = 3 then 4096 else 0
  globals := {
    gPosixProxy := some {
      block := ⟨.memory, 0⟩, devFd := ⟨.descriptor, 1⟩
      ctrlTasklet := {
        block := ⟨.memory, 2⟩, tl := ⟨.executor, 3⟩, shmBuff := ⟨.memory, 4⟩, shmSz := 4096 } } }
  fresh := by decide
  nodup := by decide

end ITrustee.Teleport.Proxy
