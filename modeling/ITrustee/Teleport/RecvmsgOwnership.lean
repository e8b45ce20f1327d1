import Mathlib.Tactic
import ITrustee.Teleport.IoRegions
import ITrustee.Teleport.PkgLedger

/-!
# The buffer of `NetRecvmsgWork`

One request without others and without the timeout thread. The buffer that `ConstructMsg` allocates is
handed to a package before `recvmsg` is called. When the message cannot be serialized afterwards, the
handler frees the buffer itself: it was freed with the package if nothing was received, and it stays in
the package if something was.
-/

namespace ITrustee.Teleport

open CInt Serialize RefCount

/-! ### The handler -/

/-- What the calls of one request return. `constructMsg` is the buffer that `ConstructMsg` allocated. -/
structure RecvOutcome where
  constructMsg : Option (List UInt8)
  putLock : Lock := .acquired
  created : Except Errno UInt64 := .ok 0
  ret : Int
  received : List UInt8 := []
  releaseLock : Lock := .acquired
  serializeMsgBuf : Bool := true

/-- How a request ends. `ioBuf` is the number of the buffer, if one was allocated; the list knows how
often it was freed. -/
structure RecvEnd where
  ret : Int
  fdList : FdList
  ioBuf : Option Nat

/-- `free` of a buffer by the handler. -/
def FdList.freeBuff (id : Nat) (l : FdList) : FdList := { l with freedBuffs := id :: l.freedBuffs }

/-- The descriptor and the index of a request. -/
def recvmsgRequest (param : PosixProxyParam) : Option (Int32 × UInt64) :=
  match deSerialize [.integer true, .point true, .integer true, .integer true, .integer true]
      param.args param.argsSz.toUInt32 with
  | .ok [⟨_, .integer fd⟩, ⟨_, .point _ _⟩, ⟨_, .integer _⟩, ⟨_, .integer _⟩,
      ⟨_, .integer teeIndex⟩] => some (asInt fd, teeIndex)
  | _ => none

/-- What follows a successful `FdListPutPkg`. A buffer in no package is not written in the model. -/
def recvmsgAfterPut (o : RecvOutcome) (fd : Int32) (teeIndex : UInt64) (ioBuf : Nat) (l : FdList) :
    RecvEnd :=
  let l := l.modifyPkg ioBuf fun p => { p with buff := o.received ++ p.buff.drop o.received.length }
  let l := if o.ret ≤ 0 then (fdListReleasePkgByIndex o.releaseLock fd teeIndex l).2 else l
  if o.ret ≥ 0 ∧ o.serializeMsgBuf = false then ⟨-1, l.freeBuff ioBuf, some ioBuf⟩
  else ⟨o.ret, l, some ioBuf⟩

/-- `NetRecvmsgWork`. The buffer has the number that its package gets, whether there will be one or
not. -/
def netRecvmsgWork (o : RecvOutcome) (param : PosixProxyParam) (l : FdList) : RecvEnd :=
  match recvmsgRequest param with
  | none => ⟨-1, l, none⟩
  | some (fd, teeIndex) =>
      match o.constructMsg with
      | none => ⟨-1, l, none⟩
      | some buff =>
          let ioBuf := l.next
          let (ret, _, l) :=
            fdListPutPkg o.putLock o.created fd teeIndex buff (UInt64.ofNat buff.length) l
          let l := { l with next := ioBuf + 1 }
          if ret ≠ 0 then ⟨-1, l.freeBuff ioBuf, some ioBuf⟩
          else recvmsgAfterPut o fd teeIndex ioBuf l

/-! ### Ownership -/

/-- The buffer is in exactly one package and was not freed, or in none and was freed once. -/
def OwnedOnce (id : Nat) (l : FdList) : Prop :=
  (l.list.map PkgTmpBuf.id).count id = 1 ∧ l.freedBuffs.count id = 0 ∨
    (l.list.map PkgTmpBuf.id).count id = 0 ∧ l.freedBuffs.count id = 1

/-- The buffer has one owner or is freed, and a failed request leaves the packages as they were. -/
def RecvEnd.Settled (before : FdList) (e : RecvEnd) : Prop :=
  (∀ id, e.ioBuf = some id → OwnedOnce id e.fdList) ∧ (e.ret < 0 → e.fdList.list = before.list)

/-- The list takes the package. -/
def Inserts (o : RecvOutcome) (fd : Int32) (teeIndex : UInt64) (l : FdList) : Prop :=
  o.putLock = .acquired ∧ fdListSearchPkg l fd teeIndex = none ∧ o.created.isOk

/-- `FdListPutPkg` could not take the lock, and `errno` made it return 0. -/
def PutSkipped (o : RecvOutcome) : Prop := o.putLock = .failed 0

/-- With the package in the list, a failed `recvmsg` gets the lock again, and no other serialization
fails. Without it, the serialization has to fail, and no other package is released before. -/
def SettlesAfterPut (o : RecvOutcome) (fd : Int32) (teeIndex : UInt64) (l : FdList) : Prop :=
  (Inserts o fd teeIndex l →
    if o.ret < 0 then o.releaseLock = .acquired else o.serializeMsgBuf = true) ∧
  (PutSkipped o → o.ret ≥ 0 ∧ o.serializeMsgBuf = false ∧
    (o.ret = 0 → o.releaseLock = .acquired → fdListSearchPkg l fd teeIndex = none))

def Settles (o : RecvOutcome) (param : PosixProxyParam) (l : FdList) : Prop :=
  ∀ fd teeIndex, recvmsgRequest param = some (fd, teeIndex) → o.constructMsg.isSome →
    SettlesAfterPut o fd teeIndex l

/-! ### The list -/

section List

variable {l : FdList} {o : RecvOutcome} {fd : Int32} {teeIndex : UInt64}

theorem FdList.WellFormed.fresh (hl : l.WellFormed) :
    (l.list.map PkgTmpBuf.id).count l.next = 0 ∧ l.freedBuffs.count l.next = 0 := by
  constructor
  · refine List.count_eq_zero_of_not_mem fun hmem => ?_
    obtain ⟨p, hp, hid⟩ := List.mem_map.mp hmem
    exact absurd (hl.lt_next p hp) (by omega)
  · exact List.count_eq_zero_of_not_mem fun hmem => absurd (hl.buffs_lt _ hmem) (lt_irrefl _)

/-- The list with a new package behind the others. -/
def FdList.insert (l : FdList) (p : PkgTmpBuf) : FdList :=
  { l with list := l.list ++ [p], next := l.next + 1 }

/-- Numbers that are taken do not show in the packages. -/
def FdList.skip (l : FdList) : FdList := { l with next := l.next + 1 }

theorem fdListPutPkg_inserts (h : Inserts o fd teeIndex l) (buff : List UInt8) (buffLen : UInt64) :
    ∃ p : PkgTmpBuf, p.id = l.next ∧ p.fd = fd ∧ p.teeIndex = teeIndex ∧ p.refCnt = 1 ∧
      fdListPutPkg o.putLock o.created fd teeIndex buff buffLen l =
        (0, some l.next, l.insert p) := by
  obtain ⟨hlock, hsearch, hcreated⟩ := h
  obtain ⟨creatTimeUs, hcreated⟩ : ∃ creatTimeUs, o.created = .ok creatTimeUs := by
    cases hok : o.created with
    | error errno =>
        rw [hok] at hcreated
        cases hcreated
    | ok creatTimeUs => exact ⟨creatTimeUs, rfl⟩
  refine ⟨⟨l.next, fd, teeIndex, buff, buffLen, 1, creatTimeUs⟩, rfl, rfl, rfl, rfl, ?_⟩
  simp only [fdListPutPkg, hlock, hsearch, hcreated]
  rfl

theorem fdListPutPkg_refuses (h : ¬ Inserts o fd teeIndex l) (buff : List UInt8)
    (buffLen : UInt64) :
    ∃ ret, fdListPutPkg o.putLock o.created fd teeIndex buff buffLen l = (ret, none, l) ∧
      (ret = 0 ↔ PutSkipped o) := by
  rw [PutSkipped]
  cases hlock : o.putLock with
  | failed errno =>
      refine ⟨-errno, rfl, ?_⟩
      rw [Int.neg_eq_zero, Lock.failed.injEq]
  | acquired =>
      cases hsearch : fdListSearchPkg l fd teeIndex with
      | some p =>
          refine ⟨-eBadF, ?_, iff_of_false (by decide) Lock.noConfusion⟩
          simp only [fdListPutPkg, hsearch]
      | none =>
          cases hcreated : o.created with
          | error errno =>
              refine ⟨-errno, ?_, iff_of_false (by have := errno.2; omega) Lock.noConfusion⟩
              simp only [fdListPutPkg, hsearch]
          | ok creatTimeUs =>
              exact absurd ⟨hlock, hsearch, by rw [hcreated]; rfl⟩ h

theorem id_ne_next (hl : l.WellFormed) {q : PkgTmpBuf} (hq : q ∈ l.list) : q.id ≠ l.next :=
  (hl.lt_next q hq).ne

theorem modifyPkg_next (hl : l.WellFormed) (f : PkgTmpBuf → PkgTmpBuf) :
    l.list.map (fun q => if q.id = l.next then f q else q) = l.list := by
  refine List.map_congr_left (fun q hq => if_neg (id_ne_next hl hq)) |>.trans ?_
  exact List.map_id l.list

theorem modifyPkg_insert (hl : l.WellFormed) {p : PkgTmpBuf} (hid : p.id = l.next)
    (f : PkgTmpBuf → PkgTmpBuf) : (l.insert p).modifyPkg l.next f = l.insert (f p) := by
  rw [FdList.modifyPkg, FdList.insert, FdList.insert]
  simp only [List.map_append, modifyPkg_next hl, List.map_singleton, hid, if_true]

theorem modifyPkg_skip (hl : l.WellFormed) (f : PkgTmpBuf → PkgTmpBuf) :
    l.skip.modifyPkg l.next f = l.skip := by
  rw [FdList.modifyPkg, FdList.skip]
  simp only [modifyPkg_next hl]

theorem search_insert (h : fdListSearchPkg l fd teeIndex = none) {p : PkgTmpBuf} (hfd : p.fd = fd)
    (hindex : p.teeIndex = teeIndex) : fdListSearchPkg (l.insert p) fd teeIndex = some p := by
  rw [fdListSearchPkg] at h
  rw [fdListSearchPkg, FdList.insert, List.find?_append, h, Option.none_or,
    List.find?_singleton, if_pos (by simp [hfd, hindex])]

/-- The package gives back its reference and the buffer with it. -/
def FdList.releaseNew (l : FdList) : FdList :=
  { l.skip with freed := l.next :: l.freed, freedBuffs := l.next :: l.freedBuffs }

/-- Giving back the only reference of the new package frees its buffer and leaves the others. -/
theorem derefPkg_insert (hl : l.WellFormed) {p : PkgTmpBuf} (hid : p.id = l.next)
    (hcnt : p.refCnt = 1) :
    derefPkg p (l.insert p) = l.releaseNew := by
  have hold : l.list.filter (fun q => q.id ≠ l.next) = l.list :=
    List.filter_eq_self.mpr fun q hq => decide_eq_true (id_ne_next hl hq)
  rw [derefPkg, if_pos hcnt, fdListFreePkg, FdList.insert, FdList.releaseNew, FdList.skip, hid]
  simp only [List.filter_append, hold]
  simp [hid]

theorem count_insert (hl : l.WellFormed) {p : PkgTmpBuf} (hid : p.id = l.next) :
    ((l.insert p).list.map PkgTmpBuf.id).count l.next = 1 := by
  rw [FdList.insert, List.map_append, List.count_append, hl.fresh.1, List.map_singleton, hid,
    List.count_singleton_self]

theorem insert_list_ne (p : PkgTmpBuf) : (l.insert p).list ≠ l.list := by
  intro h
  have hlength := congrArg List.length h
  rw [FdList.insert, List.length_append, List.length_singleton] at hlength
  omega

end List

/-! ### After the package was put -/

section AfterPut

variable {l : FdList} {o : RecvOutcome} {fd : Int32} {teeIndex : UInt64}

theorem settled_iff {before m : FdList} {ret : Int} {id : Nat} :
    RecvEnd.Settled before ⟨ret, m, some id⟩ ↔
      OwnedOnce id m ∧ (ret < 0 → m.list = before.list) := by
  rw [RecvEnd.Settled]
  simp only [Option.some.injEq, forall_eq']

theorem ownedOnce_insert (hl : l.WellFormed) {p : PkgTmpBuf} (hid : p.id = l.next) :
    OwnedOnce l.next (l.insert p) := Or.inl ⟨count_insert hl hid, hl.fresh.2⟩

theorem ownedOnce_releaseNew (hl : l.WellFormed) : OwnedOnce l.next l.releaseNew := by
  refine Or.inr ⟨hl.fresh.1, ?_⟩
  show (l.next :: l.freedBuffs).count l.next = 1
  rw [List.count_cons_self, hl.fresh.2]

theorem not_ownedOnce_insert_freed (hl : l.WellFormed) {p : PkgTmpBuf} (hid : p.id = l.next) :
    ¬ OwnedOnce l.next ((l.insert p).freeBuff l.next) := by
  have hcount : ((((l.insert p).freeBuff l.next).list).map PkgTmpBuf.id).count l.next = 1 :=
    count_insert hl hid
  have hfrees : ((l.insert p).freeBuff l.next).freedBuffs.count l.next = 1 := by
    show (l.next :: l.freedBuffs).count l.next = 1
    rw [List.count_cons_self, hl.fresh.2]
  rw [OwnedOnce, hcount, hfrees]
  decide

/-- Freed with the package, and once more by the handler. -/
theorem not_ownedOnce_freed_twice (hl : l.WellFormed) :
    ¬ OwnedOnce l.next (l.releaseNew.freeBuff l.next) := by
  have hfrees : (l.releaseNew.freeBuff l.next).freedBuffs.count l.next = 2 := by
    show (l.next :: l.next :: l.freedBuffs).count l.next = 2
    rw [List.count_cons_self, List.count_cons_self, hl.fresh.2]
  rw [OwnedOnce, hfrees]
  omega

theorem releasePkg_insert (hl : l.WellFormed) (hsearch : fdListSearchPkg l fd teeIndex = none)
    {p : PkgTmpBuf} (hid : p.id = l.next) (hfd : p.fd = fd) (hindex : p.teeIndex = teeIndex)
    (hcnt : p.refCnt = 1) (lock : Lock) :
    (fdListReleasePkgByIndex lock fd teeIndex (l.insert p)).2 =
      if lock = .acquired then l.releaseNew else l.insert p := by
  cases lock with
  | failed errno => rw [if_neg Lock.noConfusion, fdListReleasePkgByIndex]
  | acquired =>
      rw [if_pos rfl]
      simp only [fdListReleasePkgByIndex, search_insert hsearch hfd hindex,
        derefPkg_insert hl hid hcnt]

/-- The buffer is in the new package when the call returns. -/
theorem afterPut_inserted (hl : l.WellFormed) {p : PkgTmpBuf} (hid : p.id = l.next)
    (hfd : p.fd = fd) (hindex : p.teeIndex = teeIndex) (hcnt : p.refCnt = 1)
    (hsearch : fdListSearchPkg l fd teeIndex = none) :
    (recvmsgAfterPut o fd teeIndex l.next (l.insert p)).Settled l ↔
      if o.ret < 0 then o.releaseLock = .acquired else o.serializeMsgBuf = true := by
  rw [recvmsgAfterPut, modifyPkg_insert hl hid]
  generalize hwritten : ({ p with
    buff := o.received ++ p.buff.drop o.received.length } : PkgTmpBuf) = q
  have hqid : q.id = l.next := by rw [← hwritten]; exact hid
  have hqfd : q.fd = fd := by rw [← hwritten]; exact hfd
  have hqindex : q.teeIndex = teeIndex := by rw [← hwritten]; exact hindex
  have hqcnt : q.refCnt = 1 := by rw [← hwritten]; exact hcnt
  rw [releasePkg_insert hl hsearch hqid hqfd hqindex hqcnt]
  by_cases hneg : o.ret < 0
  · rw [if_pos hneg, if_neg (by omega), if_pos hneg.le, settled_iff]
    by_cases hlock : o.releaseLock = .acquired
    · rw [if_pos hlock]
      exact iff_of_true ⟨ownedOnce_releaseNew hl, fun _ => rfl⟩ hlock
    · rw [if_neg hlock]
      exact iff_of_false (fun h => insert_list_ne q (h.2 hneg)) hlock
  · rw [if_neg hneg]
    by_cases hserialize : o.serializeMsgBuf = true
    · rw [if_neg (by simp [hserialize]), settled_iff]
      refine iff_of_true ⟨?_, fun h => absurd h hneg⟩ hserialize
      split_ifs
      · exact ownedOnce_releaseNew hl
      · exact ownedOnce_insert hl hqid
      · exact ownedOnce_insert hl hqid
    · have hfails : o.serializeMsgBuf = false := Bool.eq_false_of_not_eq_true hserialize
      rw [if_pos ⟨not_lt.mp hneg, hfails⟩, settled_iff]
      refine iff_of_false (fun h => ?_) hserialize
      have howned := h.1
      split_ifs at howned
      · exact not_ownedOnce_freed_twice hl howned
      · exact not_ownedOnce_insert_freed hl hqid howned
      · exact not_ownedOnce_insert_freed hl hqid howned

theorem FdList.WellFormed.skip (hl : l.WellFormed) : l.skip.WellFormed where
  nodup := hl.nodup
  lt_next p hp := Nat.lt_succ_of_lt (hl.lt_next p hp)
  freed_nodup := hl.freed_nodup
  freed_lt id hid := Nat.lt_succ_of_lt (hl.freed_lt id hid)
  freed_gone := hl.freed_gone
  buffs_lt id hid := Nat.lt_succ_of_lt (hl.buffs_lt id hid)

/-- Giving back a reference of a package shows in the list. -/
theorem derefPkg_list_ne (hl : l.WellFormed) {p : PkgTmpBuf} (hp : p ∈ l.list)
    (hcnt : 0 < p.refCnt) : (derefPkg p l).list ≠ l.list := by
  intro heq
  have hbefore := FdList.refCnt?_of_mem hl hp
  have hafter := refCnt?_derefPkg hl hp p.id
  rw [FdList.refCnt?, FdList.pkg?, heq] at hafter
  rw [FdList.refCnt?, FdList.pkg?, hafter, if_pos rfl, less] at hbefore
  split_ifs at hbefore
  have hsame := Option.some.inj hbefore
  omega

theorem derefPkg_others {p : PkgTmpBuf} {id : Nat} (hne : p.id ≠ id)
    (hids : (l.list.map PkgTmpBuf.id).count id = 0) (hfrees : l.freedBuffs.count id = 0) :
    ((derefPkg p l).list.map PkgTmpBuf.id).count id = 0 ∧
      (derefPkg p l).freedBuffs.count id = 0 := by
  rw [derefPkg]
  by_cases hcnt : p.refCnt = 1
  · rw [if_pos hcnt, fdListFreePkg]
    refine ⟨Nat.le_zero.mp ?_, ?_⟩
    · rw [← hids]
      exact (List.filter_sublist.map PkgTmpBuf.id).count_le id
    · rw [List.count_cons_of_ne hne, hfrees]
  · rw [if_neg hcnt, FdList.ids_modifyPkg p.id (by intro q; rfl)]
    exact ⟨hids, hfrees⟩

/-- What `FdListReleasePkgByIndex` leaves when the new package is not in the list. -/
theorem releasePkg_skip (hl : l.WellFormed) (hcnt : l.Counted) (lock : Lock)
    (fd : Int32) (teeIndex : UInt64) :
    ∃ m, (fdListReleasePkgByIndex lock fd teeIndex l.skip).2 = m ∧
      (m.list.map PkgTmpBuf.id).count l.next = 0 ∧ m.freedBuffs.count l.next = 0 ∧
      (m.list = l.list ↔ (lock = .acquired → fdListSearchPkg l fd teeIndex = none)) := by
  obtain ⟨hids, hfrees⟩ := hl.fresh
  cases lock with
  | failed errno => exact ⟨_, rfl, hids, hfrees, iff_of_true rfl Lock.noConfusion⟩
  | acquired =>
      have hsame : fdListSearchPkg l.skip fd teeIndex = fdListSearchPkg l fd teeIndex := rfl
      cases hsearch : fdListSearchPkg l fd teeIndex with
      | none =>
          refine ⟨l.skip, ?_, hids, hfrees, iff_of_true rfl fun _ => rfl⟩
          simp only [fdListReleasePkgByIndex, hsame, hsearch]
      | some p =>
          have hp := mem_of_fdListSearchPkg hsearch
          have hothers := derefPkg_others (l := l.skip) (id_ne_next hl hp) hids hfrees
          refine ⟨derefPkg p l.skip, ?_, hothers.1, hothers.2, iff_of_false ?_ ?_⟩
          · simp only [fdListReleasePkgByIndex, hsame, hsearch]
          · exact derefPkg_list_ne hl.skip hp (hcnt p hp)
          · intro h
            cases h rfl

/-- The call goes on although there is no package. -/
theorem afterPut_skipped (hl : l.WellFormed) (hcnt : l.Counted) :
    (recvmsgAfterPut o fd teeIndex l.next l.skip).Settled l ↔
      o.ret ≥ 0 ∧ o.serializeMsgBuf = false ∧
        (o.ret = 0 → o.releaseLock = .acquired → fdListSearchPkg l fd teeIndex = none) := by
  rw [recvmsgAfterPut, modifyPkg_skip hl]
  obtain ⟨m, hm, hids, hfrees, hlist⟩ :=
    releasePkg_skip hl hcnt o.releaseLock fd teeIndex
  obtain ⟨hfreshIds, hfreshFrees⟩ := hl.fresh
  rw [hm]
  by_cases hfreed : o.ret ≥ 0 ∧ o.serializeMsgBuf = false
  · rw [if_pos hfreed, settled_iff]
    by_cases hzero : o.ret ≤ 0
    · have hret : o.ret = 0 := le_antisymm hzero hfreed.1
      rw [if_pos hzero]
      have howned : OwnedOnce l.next (m.freeBuff l.next) := by
        refine Or.inr ⟨hids, ?_⟩
        rw [FdList.freeBuff, List.count_cons_self, hfrees]
      constructor
      · intro h
        exact ⟨hfreed.1, hfreed.2, fun _ => hlist.mp (h.2 (by decide))⟩
      · intro h
        exact ⟨howned, fun _ => hlist.mpr (h.2.2 hret)⟩
    · rw [if_neg hzero]
      refine iff_of_true ⟨Or.inr ⟨hfreshIds, ?_⟩, fun _ => rfl⟩
        ⟨hfreed.1, hfreed.2, fun h => absurd h.le hzero⟩
      rw [FdList.freeBuff, List.count_cons_self]
      exact congrArg (· + 1) hfreshFrees
  · rw [if_neg hfreed, settled_iff]
    refine iff_of_false (fun h => ?_) fun h => hfreed ⟨h.1, h.2.1⟩
    have howned := h.1
    rw [OwnedOnce] at howned
    split_ifs at howned
    · omega
    · have hnone : (l.skip.list.map PkgTmpBuf.id).count l.next = 0 := hfreshIds
      have hkept : l.skip.freedBuffs.count l.next = 0 := hfreshFrees
      omega

end AfterPut

section Request

variable (o : RecvOutcome) (param : PosixProxyParam) (l : FdList)

/-- The request settles its buffer exactly when the serialization that follows a put does not fail, and
the lock is had where it is needed. -/
theorem netRecvmsgWork_settled_iff (hl : l.WellFormed) (hcnt : l.Counted) :
    (netRecvmsgWork o param l).Settled l ↔ Settles o param l := by
  have hnothing : RecvEnd.Settled l ⟨-1, l, none⟩ :=
    ⟨fun id h => (Option.some_ne_none id h.symm).elim, fun _ => rfl⟩
  rw [netRecvmsgWork, Settles]
  cases hrequest : recvmsgRequest param with
  | none => exact iff_of_true hnothing fun fd teeIndex h => by cases h
  | some request =>
      obtain ⟨fd, teeIndex⟩ := request
      cases hbuff : o.constructMsg with
      | none => exact iff_of_true hnothing fun fd teeIndex _ h => by cases h
      | some buff =>
          have hall : (∀ fd' teeIndex', some (fd, teeIndex) = some (fd', teeIndex') →
              (some buff).isSome → SettlesAfterPut o fd' teeIndex' l) ↔
              SettlesAfterPut o fd teeIndex l := by
            constructor
            · exact fun h => h fd teeIndex rfl rfl
            · intro h fd' teeIndex' heq _
              obtain ⟨rfl, rfl⟩ := Prod.mk.inj (Option.some.inj heq)
              exact h
          rw [hall, SettlesAfterPut]
          by_cases hinserts : Inserts o fd teeIndex l
          · obtain ⟨p, hid, hfd, hindex, hpcnt, hput⟩ :=
              fdListPutPkg_inserts hinserts buff (UInt64.ofNat buff.length)
            have hskipped : ¬ PutSkipped o := by
              rw [PutSkipped, hinserts.1]
              exact Lock.noConfusion
            simp only [hput]
            rw [if_neg (not_not.mpr rfl)]
            have hnext : ({ l.insert p with next := l.next + 1 } : FdList) = l.insert p := rfl
            rw [hnext, afterPut_inserted hl hid hfd hindex hpcnt hinserts.2.1]
            exact ⟨fun h => ⟨fun _ => h, fun hskip => absurd hskip hskipped⟩,
              fun h => h.1 hinserts⟩
          · obtain ⟨ret, hput, hret⟩ :=
              fdListPutPkg_refuses hinserts buff (UInt64.ofNat buff.length)
            have hnext : ({ l with next := l.next + 1 } : FdList) = l.skip := rfl
            simp only [hput, hnext]
            by_cases hskipped : PutSkipped o
            · rw [if_neg (not_not.mpr (hret.mpr hskipped)), afterPut_skipped hl hcnt]
              exact ⟨fun h => ⟨fun hin => absurd hin hinserts, fun _ => h⟩,
                fun h => h.2 hskipped⟩
            · rw [if_pos (hret.not.mpr hskipped), settled_iff]
              refine iff_of_true ⟨Or.inr ⟨hl.fresh.1, ?_⟩, fun _ => rfl⟩
                ⟨fun hin => absurd hin hinserts, fun hskip => absurd hskip hskipped⟩
              show (l.next :: l.freedBuffs).count l.next = 1
              rw [List.count_cons_self, hl.fresh.2]

end Request

/-- The arguments of a request on descriptor 5 and index 7, without a message. -/
def recvmsgArgs : List UInt8 :=
  Bytes.le 4 5 ++ (Bytes.le 8 integerType ++ Bytes.le 8 5) ++ (Bytes.le 8 pointType ++ Bytes.le 8 0) ++
    (Bytes.le 8 integerType ++ Bytes.le 8 0) ++ (Bytes.le 8 integerType ++ Bytes.le 8 0) ++
      (Bytes.le 8 integerType ++ Bytes.le 8 7)

def recvmsgParam : PosixProxyParam := ⟨some recvmsgArgs, 84⟩

example : recvmsgRequest recvmsgParam = some (5, 7) := by decide +kernel

theorem receivedByte_settled :
    (netRecvmsgWork { constructMsg := some [0], ret := 1 } recvmsgParam {}).Settled {} := by
  refine (netRecvmsgWork_settled_iff { constructMsg := some [0], ret := 1 } recvmsgParam {}
    initial_wellFormed.fdList fun _ h => absurd h List.not_mem_nil).mpr ?_
  intro fd teeIndex _ _
  exact ⟨fun _ => rfl, Lock.noConfusion⟩

/-- Nothing is received and the message cannot be serialized: the buffer is freed twice. -/
theorem nothingReceived_freedTwice :
    (netRecvmsgWork { constructMsg := some [0], ret := 0, serializeMsgBuf := false } recvmsgParam
        {}).fdList.freedBuffs = [0, 0] ∧
      ¬ (netRecvmsgWork { constructMsg := some [0], ret := 0, serializeMsgBuf := false }
        recvmsgParam {}).Settled {} := by
  have hfreed : (netRecvmsgWork { constructMsg := some [0], ret := 0, serializeMsgBuf := false }
      recvmsgParam {}).fdList.freedBuffs = [0, 0] := by decide +kernel
  have hbuf : (netRecvmsgWork { constructMsg := some [0], ret := 0, serializeMsgBuf := false }
      recvmsgParam {}).ioBuf = some 0 := by decide +kernel
  refine ⟨hfreed, fun hsettled => ?_⟩
  have howned := hsettled.1 0 hbuf
  rw [OwnedOnce, hfreed] at howned
  revert howned
  decide

end ITrustee.Teleport
