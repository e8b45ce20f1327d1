import Mathlib.Tactic
import ITrustee.Teleport.PkgLedger

/-!
# Buffers of receives

A receive puts its buffer in the package list before it calls `recvfrom` or `recvmsg`, and it takes no
reference for itself. While it blocks, the base reference of the package is all that keeps the buffer:
the timeout scan, a release by index and a send that finds the package may drop it. After the call,
`NetRecvmsgWork` frees the buffer once more if `SerializeMsgBuf` fails, also when it has just released
the package because nothing was received. `recvSafe_of_receiveSpare` says that the buffer is safe in
every run that avoids both.
-/

namespace ITrustee.Teleport

open RefCount

/-- The buffer of a receive is not freed before the receive has finished with it. -/
def RecvSafe (s : State) : Prop :=
  ∀ h ∈ s.handlers, ∀ id, h.receiving = some id → id ∉ s.fdList.freedBuffs

/-- The packages whose buffers are in use by receives. -/
def received (s : State) : List Nat := s.handlers.filterMap Handler.receiving

/-- A step that takes the base reference of a package in use by a receive leaves the references that
the other handlers need, and no receive frees a buffer after releasing its package. -/
def ReceiveSpare (s : State) (a : Action) : Prop :=
  (∀ p ∈ baseTaken s a, p.id ∈ received s → needOfOthers 1 s a p.id < p.refCnt) ∧
    freesReleased s a = false

instance (s : State) (a : Action) : Decidable (ReceiveSpare s a) :=
  inferInstanceAs (Decidable (_ ∧ _))

/-! ### Which buffers a step frees -/

/-- Buffers are freed with their packages. -/
structure FreesWithPkg (l l' : FdList) : Prop where
  freed : ∀ id ∈ l.freed, id ∈ l'.freed
  buffs : ∀ id ∈ l'.freedBuffs, id ∈ l.freedBuffs ∨ id ∈ l'.freed

section Frees

variable {l l' l'' : FdList} {lib : Securec} {o : Outcome} {h h' : Handler}

theorem FreesWithPkg.refl (l : FdList) : FreesWithPkg l l := ⟨fun _ h => h, fun _ h => Or.inl h⟩

theorem FreesWithPkg.trans (h : FreesWithPkg l l') (h' : FreesWithPkg l' l'') :
    FreesWithPkg l l'' := by
  refine ⟨fun id hid => h'.freed id (h.freed id hid), fun id hid => ?_⟩
  cases h'.buffs id hid with
  | inl hold => exact (h.buffs id hold).imp_right (h'.freed id)
  | inr hnew => exact Or.inr hnew

theorem freesWithPkg_derefPkg (p : PkgTmpBuf) (l : FdList) : FreesWithPkg l (derefPkg p l) := by
  rw [derefPkg]
  by_cases hcnt : p.refCnt = 1
  · rw [if_pos hcnt]
    refine ⟨fun id hid => List.mem_cons_of_mem _ hid, fun id hid => ?_⟩
    cases hid with
    | head => exact Or.inr List.mem_cons_self
    | tail _ hid => exact Or.inl hid
  · rw [if_neg hcnt]
    exact ⟨fun _ h => h, fun _ h => Or.inl h⟩

theorem freesWithPkg_releaseByIndex (lock : Lock) (fd : Int32) (teeIndex : UInt64) (l : FdList) :
    FreesWithPkg l (fdListReleasePkgByIndex lock fd teeIndex l).2 := by
  cases lock with
  | failed errno => exact FreesWithPkg.refl l
  | acquired =>
      cases hsearch : fdListSearchPkg l fd teeIndex with
      | none =>
          simp only [fdListReleasePkgByIndex, hsearch]
          exact FreesWithPkg.refl l
      | some p =>
          simp only [fdListReleasePkgByIndex, hsearch]
          exact freesWithPkg_derefPkg p l

theorem freesWithPkg_release {lock : Lock} {pkg : Option Nat} {ret : Int}
    (hrel : fdListReleasePkg lock pkg l = some (ret, l')) : FreesWithPkg l l' := by
  cases pkg with
  | none =>
      obtain ⟨_, rfl⟩ := Prod.mk.inj (Option.some.inj hrel)
      exact FreesWithPkg.refl l
  | some id' =>
      cases lock with
      | failed errno =>
          obtain ⟨_, rfl⟩ := Prod.mk.inj (Option.some.inj hrel)
          exact FreesWithPkg.refl l
      | acquired =>
          obtain ⟨p, _, heq⟩ := Option.map_eq_some_iff.mp hrel
          obtain ⟨_, rfl⟩ := Prod.mk.inj heq
          exact freesWithPkg_derefPkg p l

theorem freesWithPkg_delTimeoutLoop (ps : List PkgTmpBuf) (clock : List (Except Errno UInt64))
    (l : FdList) : FreesWithPkg l (delTimeoutLoop ps clock l).2 := by
  fun_induction delTimeoutLoop ps clock l with
  | case1 => exact FreesWithPkg.refl _
  | case2 p ps currTime clock l ih =>
      refine FreesWithPkg.trans ?_ ih
      by_cases hout : isTimedOut currTime p
      · rw [if_pos hout]
        exact freesWithPkg_derefPkg p l
      · rw [if_neg hout]
        exact FreesWithPkg.refl l
  | case3 | case4 => exact FreesWithPkg.refl _

theorem startStep_recv (lib : Securec) (o : Outcome) (l : FdList) (h : Handler) :
    (startStep lib o l h).2.receiving = none ∧ FreesWithPkg l (startStep lib o l h).1 := by
  have hget : (getPkg o l h).2.receiving = none ∧ FreesWithPkg l (getPkg o l h).1 := by
    have hpc : ∀ ret pkg, Handler.receiving { h with
        pc := if ret = (0 : Int) then .working pkg else .done (-1) } = none := by
      intro ret pkg
      by_cases hret : ret = 0
      · rw [if_pos hret]
        rfl
      · rw [if_neg hret]
        rfl
    refine ⟨hpc _ _, ?_⟩
    rw [getPkg]
    cases o.lock with
    | failed errno => exact FreesWithPkg.refl l
    | acquired =>
        cases hsearch : fdListSearchPkg l h.request.fd h.request.teeIndex with
        | none =>
            simp only [fdListGetPkg, hsearch]
            exact FreesWithPkg.refl l
        | some p =>
            simp only [fdListGetPkg, hsearch]
            exact ⟨fun _ h => h, fun _ h => Or.inl h⟩
  rw [startStep]
  cases h.request with
  | pkgSend fd teeIndex totalLen data offset blkSz =>
      dsimp only
      split_ifs
      · cases insertFirstPkg lib o data blkSz totalLen with
        | none => exact ⟨rfl, FreesWithPkg.refl l⟩
        | some buff => exact ⟨rfl, FreesWithPkg.refl l⟩
      · exact hget
  | pkgRecv => exact hget
  | pkgTerminate => exact ⟨rfl, freesWithPkg_releaseByIndex _ _ _ l⟩
  | netSendto fd len teeIndex =>
      dsimp only
      split_ifs
      · exact hget
      · exact ⟨rfl, FreesWithPkg.refl l⟩
  | netSendmsg fd bufLen teeIndex =>
      dsimp only
      split_ifs
      · exact hget
      · cases o.constructMsg with
        | none => exact ⟨rfl, FreesWithPkg.refl l⟩
        | some buff => exact ⟨rfl, FreesWithPkg.refl l⟩
  | netRecvfrom fd len teeIndex =>
      dsimp only
      split_ifs <;> exact ⟨rfl, FreesWithPkg.refl l⟩
  | netRecvmsg =>
      cases o.constructMsg with
      | none => exact ⟨rfl, FreesWithPkg.refl l⟩
      | some ioBuf => exact ⟨rfl, FreesWithPkg.refl l⟩

theorem putStep_recv (o : Outcome) (l : FdList) (h : Handler) (buff : List UInt8)
    (buffLen : UInt64) :
    ((putStep o buff buffLen l h).2.receiving = none ∨
      (putStep o buff buffLen l h).2.receiving = some l.next) ∧
    FreesWithPkg l (putStep o buff buffLen l h).1 := by
  obtain ⟨pc, hpc, hput⟩ | ⟨creatTimeUs, hput⟩ := putStep_cases o buff buffLen l h
  · rw [hput]
    refine ⟨Or.inl ?_, FreesWithPkg.refl l⟩
    obtain ⟨ret, rfl⟩ | rfl := hpc
    · rfl
    · rfl
  · rw [hput]
    refine ⟨?_, fun _ h => h, fun _ h => Or.inl h⟩
    cases h.request with
    | pkgSend => exact Or.inl rfl
    | _ => exact Or.inr rfl

/-- A step of a handler starts a receive with a new buffer only, and frees no buffer without its
package but the one of `free(ioBuf)`. -/
theorem handlerStep_recv
    (hfree : ∀ id ret, h.pc = .serialize (some id) ret → ret ≤ 0 → o.serializeMsgBuf = true)
    (hstep : handlerStep lib o l h = some (l', h')) :
    (h'.receiving = none ∨ h'.receiving = h.receiving ∨ h'.receiving = some l.next) ∧
      (FreesWithPkg l l' ∨ ∃ id, h.receiving = some id ∧ h'.receiving = none ∧
        l'.freedBuffs = id :: l.freedBuffs) := by
  cases handlerStep_cases hstep with
  | start hpc =>
      obtain ⟨hrecv, hfrees⟩ := startStep_recv lib o l h
      exact ⟨Or.inl hrecv, Or.inl hfrees⟩
  | @put buff buffLen hpc =>
      obtain ⟨hrecv, hfrees⟩ := putStep_recv o l h buff buffLen
      exact ⟨hrecv.imp_right Or.inr, Or.inl hfrees⟩
  | @work id' p hpc hp =>
      obtain ⟨hlist, _, hpc'⟩ := workStep_cases lib o l h p
      rw [hpc] at hpc'
      have hrecv : (workStep lib o p l h).2.receiving = none := by
        rw [Handler.receiving]
        rcases hpc' with ⟨ret, hrel⟩ | hsend | hwork
        · rw [hrel]
        · rw [hsend]
        · rw [hwork]
      refine ⟨Or.inl hrecv, Or.inl ?_⟩
      cases hlist with
      | inl hsame =>
          rw [hsame]
          exact FreesWithPkg.refl l
      | inr hmod =>
          obtain ⟨buff, hmod⟩ := hmod
          rw [hmod]
          exact ⟨fun _ h => h, fun _ h => Or.inl h⟩
  | sent hpc => exact ⟨Or.inl rfl, Or.inl (FreesWithPkg.refl l)⟩
  | release hpc hrel =>
      refine ⟨Or.inl ?_, Or.inl (freesWithPkg_release hrel)⟩
      rw [Handler.receiving]
      dsimp only
      by_cases hsend : h.request.isSend = true
      · rw [if_pos hsend]
      · rw [if_neg hsend]
  | releaseAgain hpc hrel => exact ⟨Or.inl rfl, Or.inl (freesWithPkg_release hrel)⟩
  | @received pkg hpc =>
      have hrecv : Handler.receiving { h with pc := receivedPc h.request pkg o.ret } = none ∨
          Handler.receiving { h with pc := receivedPc h.request pkg o.ret } = h.receiving := by
        rw [Handler.receiving, Handler.receiving, hpc]
        dsimp only
        rcases receivedPc_cases h.request pkg o.ret with ⟨hpc', _⟩ | ⟨hpc', hret⟩ | hpc'
        · rw [hpc']
          exact Or.inr rfl
        · rw [hpc']
          exact Or.inr (if_pos hret)
        · rw [hpc']
          exact Or.inl rfl
      refine ⟨hrecv.imp_right Or.inl, Or.inl ?_⟩
      cases pkg with
      | none => exact FreesWithPkg.refl l
      | some id' => exact ⟨fun _ h => h, fun _ h => Or.inl h⟩
  | @releaseIndex pkg ret pc hpc hnext =>
      have hfrees := freesWithPkg_releaseByIndex o.lock h.request.fd h.request.teeIndex l
      have hrecv : h.receiving = pkg := by rw [Handler.receiving, hpc]
      refine ⟨?_, Or.inl hfrees⟩
      cases hnext with
      | inl hdone =>
          rw [hdone]
          exact Or.inl rfl
      | inr hserialize =>
          rw [hserialize.2, hrecv]
          by_cases hpos : 0 < ret
          · exact Or.inr (Or.inl (if_pos hpos))
          · exact Or.inl (if_neg hpos)
  | @serialize pkg ret hpc =>
      refine ⟨?_, Or.inl (FreesWithPkg.refl l)⟩
      rw [Handler.receiving, Handler.receiving, hpc]
      dsimp only
      by_cases hserialize : o.serializeMsgBuf = true
      · rw [if_pos hserialize]
        exact Or.inl rfl
      · rw [if_neg hserialize]
        by_cases hret : 0 < ret
        · exact Or.inr (Or.inl (if_pos hret).symm)
        · cases pkg with
          | none => exact Or.inl rfl
          | some id' => exact absurd (hfree id' ret hpc (not_lt.mp hret)) hserialize
  | @freeIoBuf pkg hpc =>
      cases pkg with
      | none => exact ⟨Or.inl rfl, Or.inl (FreesWithPkg.refl l)⟩
      | some id' =>
          refine ⟨Or.inl rfl, Or.inr ⟨id', ?_, rfl, rfl⟩⟩
          rw [Handler.receiving, hpc]

end Frees

/-! ### Runs -/

section System

variable {lib : Securec} {s s' : State} {a : Action}

theorem received_lt (hs : s.WellFormed) {id : Nat} (hid : id ∈ received s) :
    id < s.fdList.next := by
  obtain ⟨h, hmem, hrecv⟩ := List.mem_filterMap.mp hid
  exact (hs.handlers h hmem).pkg_lt id (pkg_of_receiving hrecv)

/-- The receives with the one of a handler set apart, before and after the handler's step. -/
theorem received_set {i : Nat} {h : Handler} (hh : s.handlers[i]? = some h) (l : FdList)
    (h' : Handler) : ∃ before after,
      received s = before ++ (h.receiving.toList ++ after) ∧
      received { fdList := l, handlers := s.handlers.set i h' } =
        before ++ (h'.receiving.toList ++ after) := by
  obtain ⟨hi, hget⟩ := List.getElem?_eq_some_iff.mp hh
  refine ⟨(s.handlers.take i).filterMap Handler.receiving,
    (s.handlers.drop (i + 1)).filterMap Handler.receiving, ?_, ?_⟩
  · have hsplit : s.handlers = s.handlers.take i ++ h :: s.handlers.drop (i + 1) := by
      rw [← hget, List.cons_getElem_drop_succ, List.take_append_drop]
    rw [received]
    nth_rewrite 1 [hsplit]
    rw [List.filterMap_append, List.filterMap_cons]
    cases h.receiving <;> rfl
  · rw [received]
    dsimp only
    rw [List.set_eq_take_append_cons_drop, if_pos hi, List.filterMap_append, List.filterMap_cons]
    cases h'.receiving <;> rfl

structure ReceiveInv (s : State) : Prop where
  wellFormed : s.WellFormed
  distinct : (received s).Nodup
  covered : ∀ id ∈ received s, Covered (account 1 s id)
  kept : ∀ id ∈ received s, id ∉ s.fdList.freedBuffs

/-- The account of a package that a receive uses, or that was not put yet. -/
theorem ReceiveInv.covered_of_mem (hs : ReceiveInv s) {id : Nat}
    (hid : id ∈ received s ∨ id = s.fdList.next) : Covered (account 1 s id) := by
  cases hid with
  | inl hrecv => exact hs.covered id hrecv
  | inr hnext =>
      have hnone : s.fdList.refCnt? id = none := by
        rw [FdList.refCnt?, Option.map_eq_none_iff, FdList.pkg?_eq_none]
        intro hmem
        obtain ⟨p, hp, hpid⟩ := List.mem_map.mp hmem
        have hlt := hs.wellFormed.fdList.lt_next p hp
        omega
      rw [account, hnone, need, hnext]
      exact total_weight_next hs.wellFormed.handlers

theorem ReceiveInv.kept_of_mem (hs : ReceiveInv s) {id : Nat}
    (hid : id ∈ received s ∨ id = s.fdList.next) : id ∉ s.fdList.freedBuffs := by
  cases hid with
  | inl hrecv => exact hs.kept id hrecv
  | inr hnext =>
      intro hfreed
      have hlt := hs.wellFormed.fdList.buffs_lt id hfreed
      omega

theorem mem_of_mem_baseTaken {p : PkgTmpBuf} (hp : p ∈ baseTaken s a) : p ∈ s.fdList.list := by
  cases a with
  | request r args => cases hp
  | run i o =>
      rw [baseTaken] at hp
      cases hh : s.handlers[i]? with
      | none => simp [hh] at hp
      | some h =>
          simp only [hh] at hp
          split_ifs at hp
          · exact mem_of_fdListSearchPkg (Option.mem_toList.mp hp)
          · cases hp
  | timeout lock clock =>
      rw [baseTaken] at hp
      split_ifs at hp
      · exact mem_of_mem_timedOutPkgs hp
      · cases hp

theorem covered_step (hs : ReceiveInv s) (hspare : ReceiveSpare s a)
    (hstep : pkgStep lib s a = some s') {id : Nat} (hid : id ∈ received s ∨ id = s.fdList.next) :
    Covered (account 1 s' id) := by
  apply Move.covered _ (hs.covered_of_mem hid)
  apply pkgStep_move le_rfl hs.wellFormed id _ (Or.inr hspare.2) hstep
  intro p hp hpid
  cases hid with
  | inl hrecv =>
      rw [← hpid] at hrecv ⊢
      exact hspare.1 p hp hrecv
  | inr hnext =>
      have hlt := hs.wellFormed.fdList.lt_next p (mem_of_mem_baseTaken hp)
      omega

/-- A package that a receive uses and that is covered was not freed. -/
theorem not_freed_of_covered (hs : s.WellFormed) {id : Nat} (hrecv : id ∈ received s)
    (hcov : Covered (account 1 s id)) : id ∉ s.fdList.freed := by
  intro hfreed
  obtain ⟨h, hmem, hreceiving⟩ := List.mem_filterMap.mp hrecv
  have hweight : 0 < h.weight 1 id := by
    rw [Handler.weight, if_pos hreceiving]
    exact Nat.succ_pos _
  have hneed : 0 < need 1 s id := hweight.trans_le (le_total hmem)
  obtain ⟨n, hn⟩ := hcov.exists_count hneed
  obtain ⟨p, hp, hpid, _⟩ := FdList.mem_of_refCnt? hn
  refine hs.fdList.freed_gone id hfreed ?_
  rw [← hpid]
  exact List.mem_map_of_mem hp

theorem ReceiveInv.of_frees (hs : ReceiveInv s) (hspare : ReceiveSpare s a)
    (hstep : pkgStep lib s a = some s') (hdistinct : (received s').Nodup)
    (hmem : ∀ id ∈ received s', id ∈ received s ∨ id = s.fdList.next)
    (hfrees : ∀ id ∈ received s', id ∈ s'.fdList.freedBuffs →
      id ∈ s.fdList.freedBuffs ∨ id ∈ s'.fdList.freed) : ReceiveInv s' := by
  have hwf := pkgStep_wellFormed hs.wellFormed hstep
  have hcov : ∀ id ∈ received s', Covered (account 1 s' id) :=
    fun id hid => covered_step hs hspare hstep (hmem id hid)
  refine ⟨hwf, hdistinct, hcov, fun id hid hbuff => ?_⟩
  cases hfrees id hid hbuff with
  | inl hold => exact hs.kept_of_mem (hmem id hid) hold
  | inr hfreed => exact not_freed_of_covered hwf hid (hcov id hid) hfreed

theorem ReceiveInv.step (hs : ReceiveInv s) (hspare : ReceiveSpare s a)
    (hstep : pkgStep lib s a = some s') : ReceiveInv s' := by
  cases a with
  | request r args =>
      have hreceived : received s' = received s := by
        obtain rfl := Option.some.inj hstep
        rw [received, List.filterMap_append]
        exact List.append_nil _
      refine hs.of_frees hspare hstep (by rw [hreceived]; exact hs.distinct) ?_ ?_
      · intro id hid
        rw [hreceived] at hid
        exact Or.inl hid
      · obtain rfl := Option.some.inj hstep
        exact fun id _ hbuff => Or.inl hbuff
  | timeout lock clock =>
      have hreceived : received s' = received s := by
        obtain rfl := Option.some.inj hstep
        rfl
      refine hs.of_frees hspare hstep (by rw [hreceived]; exact hs.distinct) ?_ ?_
      · intro id hid
        rw [hreceived] at hid
        exact Or.inl hid
      · obtain rfl := Option.some.inj hstep
        intro id _ hbuff
        cases lock with
        | failed errno => exact Or.inl hbuff
        | acquired => exact (freesWithPkg_delTimeoutLoop _ clock _).buffs id hbuff
  | run i o =>
      obtain ⟨h, l, h', hh, hl, hs'⟩ := pkgStep_run hstep
      obtain ⟨before, after, hold, hnew⟩ := received_set hh l h'
      rw [← hs'] at hnew
      have hfree : ∀ id ret, h.pc = .serialize (some id) ret → ret ≤ 0 →
          o.serializeMsgBuf = true := fun id ret => serialize_of_not_frees hh hspare.2
      obtain ⟨hrecv, hfrees⟩ := handlerStep_recv hfree hl
      have hdistinct := hs.distinct
      rw [hold] at hdistinct
      have hrest : (before ++ after).Nodup :=
        hdistinct.sublist ((List.sublist_append_right _ _).append_left before)
      have hnextNot : s.fdList.next ∉ before ++ after := by
        intro hmem
        have hreceived : s.fdList.next ∈ received s := by
          rw [hold]
          exact ((List.sublist_append_right _ _).append_left before).subset hmem
        exact lt_irrefl _ (received_lt hs.wellFormed hreceived)
      refine hs.of_frees hspare hstep ?_ ?_ ?_
      · rw [hnew]
        rcases hrecv with hnone | hsame | hnext
        · rw [hnone]
          exact hrest
        · rw [hsame]
          exact hdistinct
        · rw [hnext]
          exact List.nodup_middle.mpr (List.nodup_cons.mpr ⟨hnextNot, hrest⟩)
      · intro id hid
        rw [hnew] at hid
        rw [hold]
        rcases hrecv with hnone | hsame | hnext
        · rw [hnone] at hid
          exact Or.inl (((List.sublist_append_right _ _).append_left before).subset hid)
        · rw [hsame] at hid
          exact Or.inl hid
        · rw [hnext, List.mem_append, Option.toList_some, List.singleton_append,
            List.mem_cons] at hid
          simp only [List.mem_append]
          tauto
      · intro id hid hbuff
        rw [hs'] at hbuff ⊢
        cases hfrees with
        | inl hpkg => exact hpkg.buffs id hbuff
        | inr hio =>
            obtain ⟨own, hown, hdone, hbuffs⟩ := hio
            dsimp only at hbuff
            rw [hbuffs, List.mem_cons] at hbuff
            cases hbuff with
            | inl heq =>
                rw [hnew, hdone] at hid
                rw [hown] at hdistinct
                have hnot := (List.nodup_cons.mp (List.nodup_middle.mp hdistinct)).1
                rw [heq] at hid
                exact absurd hid hnot
            | inr hbefore => exact Or.inl hbefore

end System

/-- In a run whose steps leave the references the other handlers need, and in which no receive frees a
buffer it has released, the buffers of all receives are safe in every state. -/
theorem recvSafe_of_receiveSpare (lib : Securec) (actions : List Action) (s : State)
    (hspare : Machine.Along (pkgStep lib) ReceiveSpare {} actions)
    (hrun : Machine.exec (pkgStep lib) {} actions = some s) : RecvSafe s := by
  have hinv : ReceiveInv s := by
    refine Machine.exec_invariant_along ReceiveInv ?_ ?_ hspare hrun
    · intro s a s' hs hspare hstep
      exact hs.step hspare hstep
    · exact ⟨initial_wellFormed, List.nodup_nil, by simp [received], by simp [received]⟩
  intro h hmem id hreceiving
  exact hinv.kept id (List.mem_filterMap.mpr ⟨h, hmem, hreceiving⟩)

/-! ### A receive that blocks for longer than the timeout -/

/-- A receive of 100 bytes puts its buffer at time 0 and is in `recvfrom`. -/
def blockedReceive : List Action :=
  [.request (.netRecvfrom 3 100 1) [], .run 0 {}, .run 0 { created := .ok 0 }]

/-- Ten seconds later the timeout thread scans the list. -/
def timelyReceive : List Action := blockedReceive ++ [.timeout .acquired [.ok 10000000]]

/-- The receive still blocks, and its buffer is there. -/
theorem timelyReceive_safe : ∃ s,
    Machine.exec (pkgStep Securec.reference) {} timelyReceive = some s ∧
      s.handlers.map Handler.receiving = [some 0] ∧ RecvSafe s := by
  refine ⟨_, rfl, rfl, ?_⟩
  exact recvSafe_of_receiveSpare Securec.reference timelyReceive _ (by decide +kernel) rfl

/-- The scan comes a microsecond later. -/
def lateReceive : List Action := blockedReceive ++ [.timeout .acquired [.ok 10000001]]

/-- The buffer is freed while `recvfrom` writes to it. -/
theorem lateReceive_unsafe :
    ¬ ∀ s, Machine.exec (pkgStep Securec.reference) {} lateReceive = some s → RecvSafe s := by
  intro h
  obtain ⟨s, hs, hfreed, handler, hmem, hreceiving⟩ : ∃ s,
      Machine.exec (pkgStep Securec.reference) {} lateReceive = some s ∧
        0 ∈ s.fdList.freedBuffs ∧ ∃ h ∈ s.handlers, h.receiving = some 0 := by
    refine ⟨_, rfl, ?_⟩
    decide +kernel
  exact h s hs handler hmem 0 hreceiving hfreed

end ITrustee.Teleport
