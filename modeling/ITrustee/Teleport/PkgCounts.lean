import Mathlib.Tactic
import ITrustee.Teleport.PkgLedger

/-!
# Counts of the packages in the list

A package whose last reference is given back leaves the list at once, so the packages in the list have
positive counts. `PkgsStep` says what a step of a handler can do to the packages; the scan drops
references only.
-/

namespace ITrustee.Teleport

open RefCount

/-! ### What steps do -/

/-- What a step of a handler can do to the packages. -/
inductive PkgsStep (l : FdList) : FdList → Prop
  | keep {l' : FdList} (h : l'.list = l.list) : PkgsStep l l'
  /-- Data of a package is changed. -/
  | write (id : Nat) (f : PkgTmpBuf → PkgTmpBuf) (hcnt : ∀ q, (f q).refCnt = q.refCnt) :
      PkgsStep l (l.modifyPkg id f)
  | take (p : PkgTmpBuf) : PkgsStep l (refPkg p l)
  | drop {p : PkgTmpBuf} (hp : p ∈ l.list) : PkgsStep l (derefPkg p l)
  | put {p : PkgTmpBuf} (hcnt : p.refCnt = 1) {next : Nat} :
      PkgsStep l { l with list := l.list ++ [p], next := next }

section Handler

variable {lib : Securec} {o : Outcome} {l l' : FdList} {h h' : Handler}

theorem getPkg_pkgs : PkgsStep l (getPkg o l h).1 := by
  unfold getPkg fdListGetPkg
  cases o.lock with
  | failed errno => exact .keep rfl
  | acquired =>
      cases fdListSearchPkg l h.request.fd h.request.teeIndex with
      | none => exact .keep rfl
      | some p => exact .take p

theorem releaseByIndex_pkgs (lock : Lock) (fd : Int32) (teeIndex : UInt64) :
    PkgsStep l (fdListReleasePkgByIndex lock fd teeIndex l).2 := by
  unfold fdListReleasePkgByIndex
  cases lock with
  | failed errno => exact .keep rfl
  | acquired =>
      cases hsearch : fdListSearchPkg l fd teeIndex with
      | none => exact .keep rfl
      | some p => exact .drop (mem_of_fdListSearchPkg hsearch)

theorem release_pkgs {lock : Lock} {pkg : Option Nat} {ret : Int}
    (hrel : fdListReleasePkg lock pkg l = some (ret, l')) : PkgsStep l l' := by
  unfold fdListReleasePkg at hrel
  cases pkg with
  | none =>
      obtain ⟨-, rfl⟩ := Prod.mk.inj (Option.some.inj hrel)
      exact .keep rfl
  | some id =>
      cases lock with
      | failed errno =>
          obtain ⟨-, rfl⟩ := Prod.mk.inj (Option.some.inj hrel)
          exact .keep rfl
      | acquired =>
          obtain ⟨p, hp, heq⟩ := Option.map_eq_some_iff.mp hrel
          obtain ⟨-, rfl⟩ := Prod.mk.inj heq
          exact .drop (FdList.mem_of_pkg? hp).1

theorem putStep_pkgs (buff : List UInt8) (buffLen : UInt64) :
    PkgsStep l (putStep o buff buffLen l h).1 := by
  obtain ⟨pc, -, hput⟩ | ⟨creatTimeUs, hput⟩ := putStep_cases o buff buffLen l h
  · rw [hput]
    exact .keep rfl
  · rw [hput]
    exact .put rfl

theorem startStep_pkgs : PkgsStep l (startStep lib o l h).1 := by
  rw [startStep]
  cases h.request with
  | pkgSend fd teeIndex totalLen data offset blkSz =>
      dsimp only
      split_ifs
      · cases insertFirstPkg lib o data blkSz totalLen with
        | none => exact .keep rfl
        | some buff => exact .keep rfl
      · exact getPkg_pkgs
  | pkgRecv => exact getPkg_pkgs
  | pkgTerminate => exact releaseByIndex_pkgs o.lock _ _
  | netSendto fd len teeIndex =>
      dsimp only
      split_ifs
      · exact getPkg_pkgs
      · exact .keep rfl
  | netSendmsg fd bufLen teeIndex =>
      dsimp only
      split_ifs
      · exact getPkg_pkgs
      · cases o.constructMsg with
        | none => exact .keep rfl
        | some buff => exact .keep rfl
  | netRecvfrom fd len teeIndex =>
      dsimp only
      split_ifs <;> exact .keep rfl
  | netRecvmsg =>
      dsimp only
      cases o.constructMsg with
      | none => exact .keep rfl
      | some ioBuf => exact .keep rfl

theorem handlerStep_pkgs (hstep : handlerStep lib o l h = some (l', h')) : PkgsStep l l' := by
  cases handlerStep_cases hstep with
  | start hpc => exact startStep_pkgs
  | @put buff buffLen hpc => exact putStep_pkgs buff buffLen
  | @work id p hpc hp =>
      obtain ⟨hlist, -, -⟩ := workStep_cases lib o l h p
      cases hlist with
      | inl hsame => exact .keep (congrArg FdList.list hsame)
      | inr hmod =>
          obtain ⟨buff, hmod⟩ := hmod
          rw [hmod]
          exact .write p.id _ fun q => rfl
  | sent hpc => exact .keep rfl
  | release hpc hrel => exact release_pkgs hrel
  | releaseAgain hpc hrel => exact release_pkgs hrel
  | @received pkg hpc =>
      cases pkg with
      | none => exact .keep rfl
      | some id => exact .write id _ fun q => rfl
  | releaseIndex hpc hnext => exact releaseByIndex_pkgs o.lock _ _
  | serialize hpc => exact .keep rfl
  | @freeIoBuf pkg hpc =>
      refine .keep ?_
      cases pkg with
      | none => rfl
      | some id => rfl

end Handler

/-! ### Positive counts -/

section Counted

variable {lib : Securec} {l l' : FdList} {s s' : State}

theorem FdList.Counted.modifyPkg (hcnt : l.Counted) (id : Nat) {f : PkgTmpBuf → PkgTmpBuf}
    (hf : ∀ q ∈ l.list, q.id = id → 0 < (f q).refCnt) : (l.modifyPkg id f).Counted := by
  intro p hp
  rw [FdList.modifyPkg, List.mem_map] at hp
  obtain ⟨q, hq, rfl⟩ := hp
  by_cases hid : q.id = id
  · rw [if_pos hid]
    exact hf q hq hid
  · rw [if_neg hid]
    exact hcnt q hq

theorem FdList.Counted.derefPkg (hl : l.WellFormed) (hcnt : l.Counted) {p : PkgTmpBuf}
    (hp : p ∈ l.list) : (derefPkg p l).Counted := by
  rw [Teleport.derefPkg]
  by_cases hlast : p.refCnt = 1
  · rw [if_pos hlast]
    exact fun q hq => hcnt q (List.mem_of_mem_filter hq)
  · rw [if_neg hlast]
    refine hcnt.modifyPkg p.id fun q hq hid => ?_
    obtain rfl : q = p := List.inj_on_of_nodup_map hl.nodup hq hp hid
    have hpos := hcnt q hq
    show 0 < q.refCnt - 1
    omega

theorem PkgsStep.counted (hl : l.WellFormed) (hcnt : l.Counted) (h : PkgsStep l l') :
    l'.Counted := by
  cases h with
  | keep hlist =>
      rw [FdList.Counted, hlist]
      exact hcnt
  | write id f hsame =>
      refine hcnt.modifyPkg id fun q hq _ => ?_
      rw [hsame]
      exact hcnt q hq
  | take p => exact hcnt.modifyPkg p.id fun q _ _ => Nat.succ_pos _
  | drop hp => exact hcnt.derefPkg hl hp
  | put hone =>
      intro q hq
      rw [List.mem_append, List.mem_singleton] at hq
      cases hq with
      | inl hold => exact hcnt q hold
      | inr hnew =>
          rw [hnew, hone]
          exact Nat.one_pos

theorem fdListDelTimeoutPkg_counted (hl : l.WellFormed) (hcnt : l.Counted) (lock : Lock)
    (clock : List (Except Errno UInt64)) : (fdListDelTimeoutPkg lock clock l).2.Counted := by
  cases lock with
  | failed errno => exact hcnt
  | acquired =>
      obtain ⟨hwf, hspec⟩ := delTimeoutLoop_spec clock hl (fun p hp => hp) hl.nodup
      intro p hp
      have hnow := FdList.refCnt?_of_mem hwf hp
      cases hspec p.id with
      | inl hdropped =>
          obtain ⟨q, hq, -, hless⟩ := hdropped
          have hpos := hcnt q (mem_of_mem_timedOutPkgs hq)
          rw [hnow, less] at hless
          split_ifs at hless
          have heq := Option.some.inj hless
          omega
      | inr hkept =>
          rw [hkept.2] at hnow
          obtain ⟨q, hq, -, hsame⟩ := FdList.mem_of_refCnt? hnow
          rw [← hsame]
          exact hcnt q hq

/-- In every state that is reached, the packages have positive counts. -/
theorem counted_of_exec {actions : List Action}
    (hrun : Machine.exec (pkgStep lib) {} actions = some s) :
    s.fdList.WellFormed ∧ s.fdList.Counted := by
  have hinv : s.WellFormed ∧ s.fdList.Counted := by
    refine Machine.exec_invariant (fun s => s.WellFormed ∧ s.fdList.Counted) ?_ ?_ hrun
    · intro s a s' hs hstep
      obtain ⟨hwf, hcnt⟩ := hs
      refine ⟨pkgStep_wellFormed hwf hstep, ?_⟩
      cases a with
      | request r args =>
          obtain rfl := Option.some.inj hstep
          exact hcnt
      | run i o =>
          obtain ⟨h, l, h', -, hl, rfl⟩ := pkgStep_run hstep
          exact (handlerStep_pkgs hl).counted hwf.fdList hcnt
      | timeout lock clock =>
          obtain rfl := Option.some.inj hstep
          exact fdListDelTimeoutPkg_counted hwf.fdList hcnt lock clock
    · exact ⟨initial_wellFormed, fun p hp => absurd hp List.not_mem_nil⟩
  exact ⟨hinv.1.fdList, hinv.2⟩

end Counted

end ITrustee.Teleport
