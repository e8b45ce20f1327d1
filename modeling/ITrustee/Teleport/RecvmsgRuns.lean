import Mathlib.Tactic
import ITrustee.Foundation.Machine
import ITrustee.Teleport.RecvmsgOwnership

/-!
# `NetRecvmsgWork` as a handler

The request of `RecvmsgOwnership` against the handler of `PkgHandlers`, when that runs without others.
Both end with the same result and the same packages. Where the request frees its buffer twice, the run
has no next step.
-/

namespace ITrustee.Teleport

open CInt

/-! ### Runs of one handler -/

/-- What the calls after the put return, step by step. -/
def RecvOutcome.stepsAfterPut (o : RecvOutcome) : List Outcome :=
  { ret := o.ret, received := o.received } ::
    ((if o.ret ≤ 0 then [{ lock := o.releaseLock }] else []) ++
      [{ serializeMsgBuf := o.serializeMsgBuf }, { ret := 0 }])

def RecvOutcome.steps (o : RecvOutcome) : List Outcome :=
  { constructMsg := o.constructMsg } :: { lock := o.putLock, created := o.created } ::
    o.stepsAfterPut

section Alone

variable (lib : Securec)

/-- The first `n` steps of a handler that is alone with the list. -/
def aloneRun (os : List Outcome) (n : Nat) (l : FdList) (h : Handler) : Option State :=
  Machine.exec (pkgStep lib) { fdList := l, handlers := [h] } ((os.take n).map (.run 0))

variable {lib} {o : Outcome} {os : List Outcome} {n : Nat} {l l' : FdList} {h h' : Handler}

theorem aloneRun_zero : aloneRun lib os 0 l h = some { fdList := l, handlers := [h] } := rfl

theorem pkgStep_alone : pkgStep lib { fdList := l, handlers := [h] } (.run 0 o) =
    (handlerStep lib o l h).map fun r => { fdList := r.1, handlers := [r.2] } := by
  show (handlerStep lib o l h).bind (fun r => some (⟨r.1, [r.2]⟩ : State)) = _
  rw [Option.map_eq_bind]
  rfl

theorem aloneRun_succ (hstep : handlerStep lib o l h = some (l', h')) :
    aloneRun lib (o :: os) (n + 1) l h = aloneRun lib os n l' h' := by
  rw [aloneRun, List.take_succ_cons, List.map_cons, Machine.exec_cons, pkgStep_alone, hstep]
  rfl

theorem aloneRun_undefined (hstep : handlerStep lib o l h = none) :
    aloneRun lib (o :: os) (n + 1) l h = none := by
  rw [aloneRun, List.take_succ_cons, List.map_cons, Machine.exec_cons, pkgStep_alone, hstep]
  rfl

end Alone

/-! ### After the put -/

section AfterPut

variable {lib : Securec} {o : RecvOutcome} {l : FdList} {fd teeIndex : UInt64} {args : List UInt8}

/-- The handler of a request, at a point. -/
def recvmsgHandler (fd teeIndex : UInt64) (args : List UInt8) (pc : Pc) : Handler :=
  ⟨.netRecvmsg fd teeIndex, pc, args⟩

/-- `free(ioBuf)`, by a handler that knows the package. -/
def freeAlone (pkg : Option Nat) (l : FdList) (h : Handler) : Option State :=
  match pkg with
  | none => some { fdList := l, handlers := [h] }
  | some id =>
      if id ∈ l.freedBuffs then none
      else some { fdList := l.freeBuff id, handlers := [h] }

/-- The list when the serialization is to come. -/
def FdList.afterRecv (o : RecvOutcome) (fd teeIndex : UInt64) (l : FdList) : FdList :=
  if o.ret ≤ 0 then (fdListReleasePkgByIndex o.releaseLock (asInt fd) teeIndex l).2 else l

theorem alone_serialize (pkg : Option Nat) (ret : Int) (l : FdList) :
    ∃ n, aloneRun lib [{ serializeMsgBuf := o.serializeMsgBuf }, { ret := 0 }] n l
        (recvmsgHandler fd teeIndex args (.serialize pkg ret)) =
      if o.serializeMsgBuf = false then
        freeAlone pkg l (recvmsgHandler fd teeIndex args (.done (-1)))
      else some { fdList := l, handlers := [recvmsgHandler fd teeIndex args (.done ret)] } := by
  cases hserialize : o.serializeMsgBuf with
  | true => exact ⟨1, aloneRun_succ rfl⟩
  | false =>
      refine ⟨2, (aloneRun_succ rfl).trans ?_⟩
      rw [if_pos rfl]
      cases pkg with
      | none => exact aloneRun_succ rfl
      | some id =>
          rw [freeAlone]
          by_cases hfreed : id ∈ l.freedBuffs
          · rw [if_pos hfreed]
            exact aloneRun_undefined (if_pos hfreed)
          · rw [if_neg hfreed]
            have hfree : handlerStep lib { ret := 0 } l
                (recvmsgHandler fd teeIndex args (.freeIoBuf (some id))) =
                  some (l.freeBuff id, recvmsgHandler fd teeIndex args (.done (-1))) :=
              if_neg hfreed
            exact aloneRun_succ hfree

theorem receiving_step (pkg : Option Nat)
    (hfresh : ∀ id, pkg = some id → id ∉ l.freedBuffs) :
    handlerStep lib { ret := o.ret, received := o.received } l
        (recvmsgHandler fd teeIndex args (.receiving pkg)) =
      some (l.received pkg o.received, recvmsgHandler fd teeIndex args
        (if o.ret ≤ 0 then .releaseIndex pkg o.ret else .serialize pkg o.ret)) := by
  cases pkg with
  | none => rfl
  | some id => exact if_neg (hfresh id rfl)

theorem alone_afterPut (pkg : Option Nat) (hfresh : ∀ id, pkg = some id → id ∉ l.freedBuffs) :
    ∃ n, aloneRun lib o.stepsAfterPut n l (recvmsgHandler fd teeIndex args (.receiving pkg)) =
      if o.ret ≥ 0 ∧ o.serializeMsgBuf = false then
        freeAlone pkg ((l.received pkg o.received).afterRecv o fd teeIndex)
          (recvmsgHandler fd teeIndex args (.done (-1)))
      else
        some { fdList := (l.received pkg o.received).afterRecv o fd teeIndex
               handlers := [recvmsgHandler fd teeIndex args (.done o.ret)] } := by
  have hrecv := @receiving_step lib o l fd teeIndex args pkg hfresh
  obtain ⟨n, hlast⟩ := @alone_serialize lib o fd teeIndex args pkg o.ret
    ((l.received pkg o.received).afterRecv o fd teeIndex)
  rw [RecvOutcome.stepsAfterPut]
  by_cases hret : o.ret ≤ 0
  · have hrelease : handlerStep lib { lock := o.releaseLock } (l.received pkg o.received)
        (recvmsgHandler fd teeIndex args (.releaseIndex pkg o.ret)) =
          some ((l.received pkg o.received).afterRecv o fd teeIndex,
            recvmsgHandler fd teeIndex args
              (if o.ret ≥ 0 then .serialize pkg o.ret else .done o.ret)) := by
      rw [FdList.afterRecv, if_pos hret]
      rfl
    rw [if_pos hret] at hrecv ⊢
    by_cases hzero : o.ret ≥ 0
    · rw [if_pos hzero] at hrelease
      refine ⟨n + 2, (aloneRun_succ hrecv).trans ((aloneRun_succ hrelease).trans ?_)⟩
      simp only [hzero, true_and]
      exact hlast
    · rw [if_neg hzero] at hrelease
      refine ⟨2, (aloneRun_succ hrecv).trans ((aloneRun_succ hrelease).trans ?_)⟩
      rw [if_neg fun h => hzero h.1]
      exact aloneRun_zero
  · have hpos : o.ret ≥ 0 := (not_le.mp hret).le
    have hsame : (l.received pkg o.received).afterRecv o fd teeIndex =
        l.received pkg o.received := if_neg hret
    rw [hsame] at hlast ⊢
    rw [if_neg hret] at hrecv ⊢
    refine ⟨n + 1, (aloneRun_succ hrecv).trans ?_⟩
    simp only [hpos, true_and]
    exact hlast

end AfterPut

/-! ### The whole request -/

/-- The run ends where the request does. -/
def EndsAs (e : RecvEnd) (fd teeIndex : UInt64) (args : List UInt8) : Option State → Prop
  | none => ∃ id, e.ioBuf = some id ∧ 1 < e.fdList.freedBuffs.count id
  | some s => s.handlers = [recvmsgHandler fd teeIndex args (.done e.ret)] ∧
      s.fdList.list = e.fdList.list

section Request

variable {lib : Securec} {o : RecvOutcome} {l : FdList} {fd teeIndex : UInt64} {args : List UInt8}

theorem put_step {buff : List UInt8} {buffLen : UInt64} {ret : Int} {pkg : Option Nat}
    {l' : FdList}
    (hput : fdListPutPkg o.putLock o.created (asInt fd) teeIndex buff buffLen l = (ret, pkg, l')) :
    handlerStep lib { lock := o.putLock, created := o.created } l
        (recvmsgHandler fd teeIndex args (.put buff buffLen)) =
      some (l', recvmsgHandler fd teeIndex args
        (if ret = 0 then .receiving pkg else .done (-1))) := by
  show some (putStep _ buff buffLen l _) = _
  have hcall : fdListPutPkg o.putLock o.created
      (recvmsgHandler fd teeIndex args (.put buff buffLen)).request.fd
      (recvmsgHandler fd teeIndex args (.put buff buffLen)).request.teeIndex buff buffLen l =
        (ret, pkg, l') := hput
  rw [putStep]
  simp only [hcall]
  rfl

theorem recvmsgAfterPut_eq (id : Nat) (l : FdList) :
    recvmsgAfterPut o (asInt fd) teeIndex id l =
      if o.ret ≥ 0 ∧ o.serializeMsgBuf = false then
        ⟨-1, ((l.received (some id) o.received).afterRecv o fd teeIndex).freeBuff id, some id⟩
      else ⟨o.ret, (l.received (some id) o.received).afterRecv o fd teeIndex, some id⟩ := rfl

/-- With the package in the list, the second `free` of the buffer is the step that is missing. -/
theorem endsAs_inserted (id : Nat) {m : FdList}
    (hm : m = (l.received (some id) o.received).afterRecv o fd teeIndex) :
    EndsAs (recvmsgAfterPut o (asInt fd) teeIndex id l) fd teeIndex args
      (if o.ret ≥ 0 ∧ o.serializeMsgBuf = false then
        freeAlone (some id) m (recvmsgHandler fd teeIndex args (.done (-1)))
      else some { fdList := m, handlers := [recvmsgHandler fd teeIndex args (.done o.ret)] }) := by
  rw [recvmsgAfterPut_eq, ← hm]
  by_cases hfrees : o.ret ≥ 0 ∧ o.serializeMsgBuf = false
  · rw [if_pos hfrees, if_pos hfrees, freeAlone]
    by_cases hfreed : id ∈ m.freedBuffs
    · rw [if_pos hfreed]
      refine ⟨id, rfl, ?_⟩
      show 1 < (id :: m.freedBuffs).count id
      rw [List.count_cons_self]
      exact Nat.succ_lt_succ (List.count_pos_iff.mpr hfreed)
    · rw [if_neg hfreed]
      exact ⟨rfl, rfl⟩
  · rw [if_neg hfrees, if_neg hfrees]
    exact ⟨rfl, rfl⟩

/-- Numbers that are taken make no difference to the other packages. -/
theorem list_afterRecv_skip :
    (l.skip.afterRecv o fd teeIndex).list = (l.afterRecv o fd teeIndex).list := by
  rw [FdList.afterRecv, FdList.afterRecv]
  by_cases hret : o.ret ≤ 0
  · rw [if_pos hret, if_pos hret]
    cases o.releaseLock with
    | failed errno => rfl
    | acquired =>
        have hsame : fdListSearchPkg l.skip (asInt fd) teeIndex =
            fdListSearchPkg l (asInt fd) teeIndex := rfl
        simp only [fdListReleasePkgByIndex, hsame]
        cases fdListSearchPkg l (asInt fd) teeIndex with
        | none => rfl
        | some p =>
            dsimp only
            rw [derefPkg, derefPkg]
            split_ifs
            · rfl
            · rfl
  · rw [if_neg hret, if_neg hret]
    rfl

theorem endsAs_skipped (hl : l.WellFormed) :
    EndsAs (recvmsgAfterPut o (asInt fd) teeIndex l.next l.skip) fd teeIndex args
      (if o.ret ≥ 0 ∧ o.serializeMsgBuf = false then
        freeAlone none ((l.received none o.received).afterRecv o fd teeIndex)
          (recvmsgHandler fd teeIndex args (.done (-1)))
      else
        some { fdList := (l.received none o.received).afterRecv o fd teeIndex
               handlers := [recvmsgHandler fd teeIndex args (.done o.ret)] }) := by
  have hsame : l.skip.received (some l.next) o.received = l.skip := modifyPkg_skip hl _
  rw [recvmsgAfterPut_eq, hsame]
  by_cases hfrees : o.ret ≥ 0 ∧ o.serializeMsgBuf = false
  · rw [if_pos hfrees, if_pos hfrees]
    exact ⟨rfl, list_afterRecv_skip.symm⟩
  · rw [if_neg hfrees, if_neg hfrees]
    exact ⟨rfl, list_afterRecv_skip.symm⟩

end Request

/-- The handler, running alone, does what the request does. -/
theorem netRecvmsgWork_alone (lib : Securec) (o : RecvOutcome) (param : PosixProxyParam) (l : FdList)
    (hl : l.WellFormed) (fd teeIndex : UInt64) (args : List UInt8)
    (hrequest : recvmsgRequest param = some (asInt fd, teeIndex)) :
    ∃ n, EndsAs (netRecvmsgWork o param l) fd teeIndex args
      (aloneRun lib o.steps n l (recvmsgHandler fd teeIndex args .start)) := by
  rw [netRecvmsgWork, hrequest]
  dsimp only
  rw [RecvOutcome.steps]
  cases hbuff : o.constructMsg with
  | none =>
      refine ⟨1, ?_⟩
      rw [aloneRun_succ rfl, aloneRun_zero]
      exact ⟨rfl, rfl⟩
  | some buff =>
      have hstart : handlerStep lib { constructMsg := some buff } l
          (recvmsgHandler fd teeIndex args .start) =
            some (l, recvmsgHandler fd teeIndex args
              (.put buff (UInt64.ofNat buff.length))) := rfl
      by_cases hinserts : Inserts o (asInt fd) teeIndex l
      · obtain ⟨p, -, -, -, -, hput⟩ :=
          fdListPutPkg_inserts hinserts buff (UInt64.ofNat buff.length)
        have hfresh : ∀ id, some l.next = some id → id ∉ (l.insert p).freedBuffs := by
          intro id hid hmem
          exact absurd (hl.buffs_lt id hmem) (by rw [← Option.some.inj hid]; omega)
        obtain ⟨n, hn⟩ := @alone_afterPut lib o (l.insert p) fd teeIndex args (some l.next) hfresh
        refine ⟨n + 2, ?_⟩
        have hnext : ({ l.insert p with next := l.next + 1 } : FdList) = l.insert p := rfl
        simp only [hput]
        rw [aloneRun_succ hstart, aloneRun_succ (put_step hput), if_pos rfl, hn, hnext,
          if_neg (not_not.mpr rfl)]
        exact endsAs_inserted l.next rfl
      · obtain ⟨ret, hput, -⟩ := fdListPutPkg_refuses hinserts buff (UInt64.ofNat buff.length)
        have hnext : ({ l with next := l.next + 1 } : FdList) = l.skip := rfl
        simp only [hput, hnext]
        by_cases hret : ret = 0
        · obtain ⟨n, hn⟩ := @alone_afterPut lib o l fd teeIndex args none
            (fun _ h => absurd h.symm (Option.some_ne_none _))
          refine ⟨n + 2, ?_⟩
          rw [aloneRun_succ hstart, aloneRun_succ (put_step hput), if_pos hret, hn,
            if_neg (not_not.mpr hret)]
          exact endsAs_skipped hl
        · refine ⟨2, ?_⟩
          rw [aloneRun_succ hstart, aloneRun_succ (put_step hput), if_neg hret, aloneRun_zero,
            if_pos hret]
          exact ⟨rfl, rfl⟩

end ITrustee.Teleport
