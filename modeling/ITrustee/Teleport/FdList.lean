import Mathlib.Tactic
import ITrustee.Foundation.RefCount

/-!
# The package list

The list of package buffers in `fd_list.c`. A package is known by the number of its allocation, which
stands for the pointer to it and for the pointer to its buffer; the numbers of freed packages and of
freed buffers are kept, since the properties are about them. A package starts with one reference, its
base reference, which nobody in particular owns.

Every function runs under the list lock and is one step. `Lock.failed` is a failed
`pthread_mutex_lock`, which leaves `errno` as it was, so the function may even return 0 then.
-/

namespace ITrustee.Teleport

open RefCount

def eBadF : Int := 9
def eNoEnt : Int := 2

/-- What a call that fails leaves in `errno`. -/
abbrev Errno := { n : Int // 0 < n }

structure PkgTmpBuf where
  id : Nat
  fd : Int32
  teeIndex : UInt64
  buff : List UInt8
  buffLen : UInt64
  refCnt : Nat
  creatTimeUs : UInt64
  deriving DecidableEq

structure FdList where
  list : List PkgTmpBuf := []
  next : Nat := 0
  freed : List Nat := []
  freedBuffs : List Nat := []
  deriving DecidableEq

inductive Lock where
  | acquired
  | failed (errno : Int)
  deriving DecidableEq

def fdListSearchPkg (l : FdList) (fd : Int32) (teeIndex : UInt64) : Option PkgTmpBuf :=
  l.list.find? fun p => p.fd = fd ∧ p.teeIndex = teeIndex

/-- The package a pointer refers to, unless it was freed. -/
def FdList.pkg? (l : FdList) (id : Nat) : Option PkgTmpBuf := l.list.find? fun p => p.id = id

def FdList.modifyPkg (l : FdList) (id : Nat) (f : PkgTmpBuf → PkgTmpBuf) : FdList :=
  { l with list := l.list.map fun p => if p.id = id then f p else p }

/-- `ListRemoveEntry` and `FdListFreePkg`, which frees the buffer with the package. -/
def fdListFreePkg (p : PkgTmpBuf) (l : FdList) : FdList :=
  { l with
    list := l.list.filter fun q => q.id ≠ p.id
    freed := p.id :: l.freed
    freedBuffs := p.id :: l.freedBuffs }

def refPkg (p : PkgTmpBuf) (l : FdList) : FdList :=
  l.modifyPkg p.id fun q => { q with refCnt := q.refCnt + 1 }

def derefPkg (p : PkgTmpBuf) (l : FdList) : FdList :=
  if p.refCnt = 1 then fdListFreePkg p l
  else l.modifyPkg p.id fun q => { q with refCnt := q.refCnt - 1 }

/-- `FdListPutPkg`; `created` is the time `FdListCreatPkg` took, unless `malloc` or the clock failed.
Besides the result, the number of the package that was put. -/
def fdListPutPkg (lock : Lock) (created : Except Errno UInt64) (fd : Int32) (teeIndex : UInt64)
    (buff : List UInt8) (buffLen : UInt64) (l : FdList) : Int × Option Nat × FdList :=
  match lock with
  | .failed errno => (-errno, none, l)
  | .acquired =>
      match fdListSearchPkg l fd teeIndex with
      | some _ => (-eBadF, none, l)
      | none =>
          match created with
          | .error errno => (-errno, none, l)
          | .ok creatTimeUs =>
              let p : PkgTmpBuf := ⟨l.next, fd, teeIndex, buff, buffLen, 1, creatTimeUs⟩
              (0, some l.next, { l with list := l.list ++ [p], next := l.next + 1 })

def fdListGetPkg (lock : Lock) (fd : Int32) (teeIndex : UInt64) (l : FdList) :
    Int × Option Nat × FdList :=
  match lock with
  | .failed errno => (-errno, none, l)
  | .acquired =>
      match fdListSearchPkg l fd teeIndex with
      | none => (-eNoEnt, none, l)
      | some p => (0, some p.id, refPkg p l)

def fdListReleasePkgByIndex (lock : Lock) (fd : Int32) (teeIndex : UInt64) (l : FdList) :
    Int × FdList :=
  match lock with
  | .failed errno => (-errno, l)
  | .acquired =>
      match fdListSearchPkg l fd teeIndex with
      | none => (0, l)
      | some p => (0, derefPkg p l)

/-- `FdListReleasePkg`, undefined on a pointer to a freed package. -/
def fdListReleasePkg (lock : Lock) (pkg : Option Nat) (l : FdList) : Option (Int × FdList) :=
  match pkg with
  | none => some (0, l)
  | some id =>
      match lock with
      | .failed errno => some (-errno, l)
      | .acquired => (l.pkg? id).map fun p => (0, derefPkg p l)

/-! ### The timeout scan -/

def gb : UInt64 := 1024 * 1024 * 1024
def timeoutPerGbUs : UInt64 := 10000000

def getPkgTimeOutByLen (pkgBuffLen : UInt64) : UInt64 :=
  let numGB := pkgBuffLen / gb
  (if pkgBuffLen % gb ≠ 0 then numGB + 1 else numGB) * timeoutPerGbUs

def isTimedOut (currTime : UInt64) (p : PkgTmpBuf) : Bool :=
  currTime - p.creatTimeUs > getPkgTimeOutByLen p.buffLen

/-- The loop of `FdListDelTimeoutPkg` over the packages that follow. `clock` holds what
`GetTimestampUs` returns, turn by turn; the loop ends when it fails, and where the list ends. -/
def delTimeoutLoop : List PkgTmpBuf → List (Except Errno UInt64) → FdList → Int × FdList
  | [], _, l => (0, l)
  | p :: ps, .ok currTime :: clock, l =>
      delTimeoutLoop ps clock (if isTimedOut currTime p then derefPkg p l else l)
  | _ :: _, .error errno :: _, l => (-errno, l)
  | _ :: _, [], l => (0, l)

def fdListDelTimeoutPkg (lock : Lock) (clock : List (Except Errno UInt64)) (l : FdList) :
    Int × FdList :=
  match lock with
  | .failed errno => (-errno, l)
  | .acquired => delTimeoutLoop l.list clock l

/-- The packages whose reference the loop drops. -/
def timedOutPkgs : List PkgTmpBuf → List (Except Errno UInt64) → List PkgTmpBuf
  | p :: ps, .ok currTime :: clock =>
      if isTimedOut currTime p then p :: timedOutPkgs ps clock else timedOutPkgs ps clock
  | _, _ => []

/-! ### Numbers of packages -/

/-- Packages have their own numbers, below the next one, and freed packages are not in the list. -/
structure FdList.WellFormed (l : FdList) : Prop where
  nodup : (l.list.map PkgTmpBuf.id).Nodup
  lt_next : ∀ p ∈ l.list, p.id < l.next
  freed_nodup : l.freed.Nodup
  freed_lt : ∀ id ∈ l.freed, id < l.next
  freed_gone : ∀ id ∈ l.freed, id ∉ l.list.map PkgTmpBuf.id
  buffs_lt : ∀ id ∈ l.freedBuffs, id < l.next

/-- The packages in the list have references. -/
def FdList.Counted (l : FdList) : Prop := ∀ p ∈ l.list, 0 < p.refCnt

instance (l : FdList) : Decidable l.Counted :=
  inferInstanceAs (Decidable (∀ p ∈ l.list, 0 < p.refCnt))

/-- The reference count of a package, `none` if it is not in the list. -/
def FdList.refCnt? (l : FdList) (id : Nat) : Option Nat := (l.pkg? id).map PkgTmpBuf.refCnt

section Numbers

variable {l : FdList} {p : PkgTmpBuf} {f : PkgTmpBuf → PkgTmpBuf}

theorem FdList.mem_of_pkg? {id : Nat} (h : l.pkg? id = some p) : p ∈ l.list ∧ p.id = id :=
  ⟨List.mem_of_find?_eq_some h, by simpa using List.find?_some h⟩

theorem FdList.pkg?_of_mem (hl : l.WellFormed) (hp : p ∈ l.list) : l.pkg? p.id = some p := by
  have hnodup := hl.nodup
  rw [FdList.pkg?]
  generalize l.list = pkgs at hp hnodup
  induction pkgs with
  | nil => cases hp
  | cons q pkgs ih =>
      rw [List.map_cons, List.nodup_cons] at hnodup
      rw [List.find?_cons]
      cases hp with
      | head => simp
      | tail _ hp =>
          have hne : q.id ≠ p.id := by
            intro heq
            rw [heq] at hnodup
            exact hnodup.1 (List.mem_map_of_mem hp)
          simp only [hne, decide_false]
          exact ih hp hnodup.2

theorem FdList.pkg?_eq_none {id : Nat} :
    l.pkg? id = none ↔ id ∉ l.list.map PkgTmpBuf.id := by
  rw [FdList.pkg?, List.find?_eq_none, List.mem_map]
  simp

theorem FdList.refCnt?_of_mem (hl : l.WellFormed) (hp : p ∈ l.list) :
    l.refCnt? p.id = some p.refCnt := by
  rw [FdList.refCnt?, FdList.pkg?_of_mem hl hp]
  rfl

theorem FdList.mem_of_refCnt? {id n : Nat} (h : l.refCnt? id = some n) :
    ∃ p ∈ l.list, p.id = id ∧ p.refCnt = n := by
  obtain ⟨p, hp, hn⟩ := Option.map_eq_some_iff.mp h
  exact ⟨p, (FdList.mem_of_pkg? hp).1, (FdList.mem_of_pkg? hp).2, hn⟩

theorem FdList.ids_modifyPkg (id : Nat) (hf : ∀ q, (f q).id = q.id) :
    (l.modifyPkg id f).list.map PkgTmpBuf.id = l.list.map PkgTmpBuf.id := by
  rw [FdList.modifyPkg, List.map_map]
  apply List.map_congr_left
  intro q _
  rw [Function.comp_apply]
  by_cases hq : q.id = id
  · rw [if_pos hq, hf]
  · rw [if_neg hq]

theorem FdList.pkg?_modifyPkg (id id' : Nat) (hf : ∀ q, (f q).id = q.id) :
    (l.modifyPkg id f).pkg? id' =
      (l.pkg? id').map fun q => if q.id = id then f q else q := by
  rw [FdList.pkg?, FdList.modifyPkg, List.find?_map, FdList.pkg?]
  congr 2
  funext q
  rw [Function.comp_apply]
  by_cases hq : q.id = id
  · rw [if_pos hq, hf]
  · rw [if_neg hq]

/-- Changing other data of a package than its count. -/
theorem FdList.refCnt?_modifyPkg_same (id id' : Nat) (hf : ∀ q, (f q).id = q.id)
    (hcnt : ∀ q, (f q).refCnt = q.refCnt) : (l.modifyPkg id f).refCnt? id' = l.refCnt? id' := by
  rw [FdList.refCnt?, FdList.pkg?_modifyPkg id id' hf, Option.map_map, FdList.refCnt?]
  congr 1
  funext q
  rw [Function.comp_apply]
  by_cases hq : q.id = id
  · rw [if_pos hq, hcnt]
  · rw [if_neg hq]

/-- Changing a package of the list. -/
theorem FdList.refCnt?_modifyPkg (hl : l.WellFormed) (hp : p ∈ l.list)
    (hf : ∀ q, (f q).id = q.id) (id : Nat) :
    (l.modifyPkg p.id f).refCnt? id =
      if p.id = id then some (f p).refCnt else l.refCnt? id := by
  rw [FdList.refCnt?, FdList.pkg?_modifyPkg p.id id hf]
  by_cases hid : p.id = id
  · rw [if_pos hid, ← hid, FdList.pkg?_of_mem hl hp, Option.map_some, if_pos rfl]
    rfl
  · rw [if_neg hid, FdList.refCnt?]
    cases hq : l.pkg? id with
    | none => rfl
    | some q =>
        have hne : q.id ≠ p.id := by
          rw [(FdList.mem_of_pkg? hq).2]
          exact Ne.symm hid
        rw [Option.map_some, if_neg hne]

theorem refCnt?_refPkg (hl : l.WellFormed) (hp : p ∈ l.list) (id : Nat) :
    (refPkg p l).refCnt? id = if p.id = id then some (p.refCnt + 1) else l.refCnt? id := by
  rw [refPkg, FdList.refCnt?_modifyPkg hl hp (by intro q; rfl)]

theorem refCnt?_fdListFreePkg (id : Nat) :
    (fdListFreePkg p l).refCnt? id = if p.id = id then none else l.refCnt? id := by
  rw [FdList.refCnt?, FdList.pkg?, fdListFreePkg, List.find?_filter]
  by_cases hid : p.id = id
  · rw [if_pos hid, Option.map_eq_none_iff, List.find?_eq_none]
    intro q _
    simp [← hid]
  · rw [if_neg hid, FdList.refCnt?, FdList.pkg?]
    congr 2
    funext q
    by_cases hq : q.id = id
    · simp [hq, Ne.symm hid]
    · simp [hq]

/-- What dropping a reference of a package does to the counts. -/
theorem refCnt?_derefPkg (hl : l.WellFormed) (hp : p ∈ l.list) (id : Nat) :
    (derefPkg p l).refCnt? id = if p.id = id then less p.refCnt else l.refCnt? id := by
  rw [derefPkg, less]
  by_cases hcnt : p.refCnt = 1
  · rw [if_pos hcnt, if_pos hcnt, refCnt?_fdListFreePkg]
  · rw [if_neg hcnt, if_neg hcnt, FdList.refCnt?_modifyPkg hl hp (by intro q; rfl)]

theorem FdList.WellFormed.modifyPkg (hl : l.WellFormed) (id : Nat) (hf : ∀ q, (f q).id = q.id) :
    (l.modifyPkg id f).WellFormed := by
  have hids := FdList.ids_modifyPkg (l := l) id hf
  refine ⟨?_, ?_, hl.freed_nodup, hl.freed_lt, ?_, hl.buffs_lt⟩
  · rw [hids]
    exact hl.nodup
  · intro q hq
    have hmem := List.mem_map_of_mem (f := PkgTmpBuf.id) hq
    rw [hids, List.mem_map] at hmem
    obtain ⟨q', hq', heq⟩ := hmem
    rw [← heq]
    exact hl.lt_next q' hq'
  · rw [hids]
    exact hl.freed_gone

theorem FdList.WellFormed.freePkg (hl : l.WellFormed) (hp : p ∈ l.list) :
    (fdListFreePkg p l).WellFormed := by
  refine ⟨?_, ?_, ?_, ?_, ?_, ?_⟩
  · exact hl.nodup.sublist (List.filter_sublist.map _)
  · intro q hq
    exact hl.lt_next q (List.mem_of_mem_filter hq)
  · refine List.nodup_cons.mpr ⟨fun h => ?_, hl.freed_nodup⟩
    exact hl.freed_gone p.id h (List.mem_map_of_mem hp)
  · intro id hid
    cases hid with
    | head => exact hl.lt_next p hp
    | tail _ hid => exact hl.freed_lt id hid
  · intro id hid hmem
    obtain ⟨q, hq, hqid⟩ := List.mem_map.mp hmem
    rw [fdListFreePkg, List.mem_filter] at hq
    cases hid with
    | head => exact absurd hqid (by simpa using hq.2)
    | tail _ hid =>
        refine hl.freed_gone id hid ?_
        rw [← hqid]
        exact List.mem_map_of_mem hq.1
  · intro id hid
    cases hid with
    | head => exact hl.lt_next p hp
    | tail _ hid => exact hl.buffs_lt id hid

theorem FdList.WellFormed.refPkg (hl : l.WellFormed) (p : PkgTmpBuf) :
    (refPkg p l).WellFormed := hl.modifyPkg p.id (by intro q; rfl)

theorem FdList.WellFormed.derefPkg (hl : l.WellFormed) (hp : p ∈ l.list) :
    (derefPkg p l).WellFormed := by
  rw [Teleport.derefPkg]
  by_cases hcnt : p.refCnt = 1
  · rw [if_pos hcnt]
    exact hl.freePkg hp
  · rw [if_neg hcnt]
    exact hl.modifyPkg p.id (by intro q; rfl)

theorem next_derefPkg (p : PkgTmpBuf) (l : FdList) : (derefPkg p l).next = l.next := by
  rw [derefPkg]
  by_cases hcnt : p.refCnt = 1
  · rw [if_pos hcnt]
    rfl
  · rw [if_neg hcnt]
    rfl

/-- The list after a package was put, with a number that is new. -/
theorem pkg?_append (hl : l.WellFormed) (hid : p.id = l.next) (id : Nat) :
    ({ l with list := l.list ++ [p], next := l.next + 1 } : FdList).pkg? id =
      if p.id = id then some p else l.pkg? id := by
  rw [FdList.pkg?, List.find?_append, FdList.pkg?]
  by_cases hp : p.id = id
  · have hnone : l.list.find? (fun q => q.id = id) = none := by
      rw [List.find?_eq_none]
      intro q hq
      have hlt := hl.lt_next q hq
      have hne : q.id ≠ id := by omega
      simpa using hne
    rw [if_pos hp, hnone, List.find?_cons]
    simp [hp]
  · rw [if_neg hp, List.find?_cons]
    simp [hp]

theorem refCnt?_append (hl : l.WellFormed) (hid : p.id = l.next) (id : Nat) :
    ({ l with list := l.list ++ [p], next := l.next + 1 } : FdList).refCnt? id =
      if p.id = id then some p.refCnt else l.refCnt? id := by
  rw [FdList.refCnt?, pkg?_append hl hid, FdList.refCnt?]
  split_ifs
  · rfl
  · rfl

theorem FdList.WellFormed.append (hl : l.WellFormed) (hid : p.id = l.next) :
    ({ l with list := l.list ++ [p], next := l.next + 1 } : FdList).WellFormed := by
  have hnew : l.next ∉ l.list.map PkgTmpBuf.id := by
    intro hmem
    obtain ⟨q, hq, hqid⟩ := List.mem_map.mp hmem
    have hlt := hl.lt_next q hq
    omega
  refine ⟨?_, ?_, hl.freed_nodup, ?_, ?_, ?_⟩
  · rw [List.map_append, List.map_singleton, hid, ← List.concat_eq_append, List.nodup_concat]
    exact ⟨hnew, hl.nodup⟩
  · intro q hq
    rw [List.mem_append, List.mem_singleton] at hq
    cases hq with
    | inl hold => exact Nat.lt_succ_of_lt (hl.lt_next q hold)
    | inr hq =>
        rw [hq, hid]
        exact Nat.lt_succ_self _
  · exact fun id h => Nat.lt_succ_of_lt (hl.freed_lt id h)
  · intro id h hmem
    rw [List.map_append, List.map_singleton, List.mem_append, List.mem_singleton, hid] at hmem
    cases hmem with
    | inl hold => exact hl.freed_gone id h hold
    | inr hnext => exact absurd (hl.freed_lt id h) (by omega)
  · exact fun id h => Nat.lt_succ_of_lt (hl.buffs_lt id h)

/-! ### What the timeout scan does -/

theorem mem_of_mem_timedOutPkgs {ps : List PkgTmpBuf} {clock : List (Except Errno UInt64)}
    (h : p ∈ timedOutPkgs ps clock) : p ∈ ps := by
  fun_induction timedOutPkgs ps clock with
  | case1 q ps currTime clock hout ih =>
      cases h with
      | head => exact List.mem_cons_self
      | tail _ h => exact List.mem_cons_of_mem _ (ih h)
  | case2 q ps currTime clock hout ih => exact List.mem_cons_of_mem _ (ih h)
  | case3 => cases h

/-- Dropping a reference of one package leaves the others as they are. -/
theorem mem_derefPkg_of_ne {q : PkgTmpBuf} (hq : q ∈ l.list) (hne : q.id ≠ p.id) :
    q ∈ (derefPkg p l).list := by
  rw [derefPkg]
  by_cases hcnt : p.refCnt = 1
  · rw [if_pos hcnt, fdListFreePkg, List.mem_filter]
    exact ⟨hq, by simpa using hne⟩
  · rw [if_neg hcnt, FdList.modifyPkg, List.mem_map]
    exact ⟨q, hq, if_neg hne⟩

theorem next_delTimeoutLoop (ps : List PkgTmpBuf) (clock : List (Except Errno UInt64)) (l : FdList) :
    (delTimeoutLoop ps clock l).2.next = l.next := by
  fun_induction delTimeoutLoop ps clock l with
  | case1 => rfl
  | case2 p ps currTime clock l ih =>
      rw [ih]
      by_cases hout : isTimedOut currTime p
      · rw [if_pos hout, next_derefPkg]
      · rw [if_neg hout]
  | case3 | case4 => rfl

/-- The loop drops one reference of every package that timed out, and nothing else. -/
theorem delTimeoutLoop_spec {ps : List PkgTmpBuf} (clock : List (Except Errno UInt64))
    (hl : l.WellFormed) (hps : ∀ p ∈ ps, p ∈ l.list) (hnodup : (ps.map PkgTmpBuf.id).Nodup) :
    (delTimeoutLoop ps clock l).2.WellFormed ∧ (∀ id,
      (∃ p ∈ timedOutPkgs ps clock, p.id = id ∧
        (delTimeoutLoop ps clock l).2.refCnt? id = less p.refCnt) ∨
      ((∀ p ∈ timedOutPkgs ps clock, p.id ≠ id) ∧
        (delTimeoutLoop ps clock l).2.refCnt? id = l.refCnt? id)) := by
  fun_induction delTimeoutLoop ps clock l with
  | case1 => exact ⟨hl, fun id => Or.inr ⟨by simp [timedOutPkgs], rfl⟩⟩
  | case2 p ps currTime clock l ih =>
      rw [List.map_cons, List.nodup_cons] at hnodup
      have hp := hps p List.mem_cons_self
      have hne : ∀ q ∈ ps, q.id ≠ p.id := by
        intro q hq heq
        rw [← heq] at hnodup
        exact hnodup.1 (List.mem_map_of_mem hq)
      rw [timedOutPkgs]
      by_cases hout : isTimedOut currTime p
      · simp only [hout, if_true] at ih ⊢
        obtain ⟨hwf, hcnt⟩ := ih (hl.derefPkg hp)
          (fun q hq => mem_derefPkg_of_ne (hps q (List.mem_cons_of_mem _ hq)) (hne q hq)) hnodup.2
        refine ⟨hwf, fun id => ?_⟩
        cases hcnt id with
        | inl hlater =>
            obtain ⟨q, hq, hrest⟩ := hlater
            exact Or.inl ⟨q, List.mem_cons_of_mem _ hq, hrest⟩
        | inr hother =>
            obtain ⟨hnone, hsame⟩ := hother
            rw [refCnt?_derefPkg hl hp] at hsame
            by_cases hid : p.id = id
            · rw [if_pos hid] at hsame
              exact Or.inl ⟨p, List.mem_cons_self, hid, hsame⟩
            · rw [if_neg hid] at hsame
              refine Or.inr ⟨fun q hq => ?_, hsame⟩
              cases hq with
              | head => exact hid
              | tail _ hq => exact hnone q hq
      · simp only [hout] at ih ⊢
        exact ih hl (fun q hq => hps q (List.mem_cons_of_mem _ hq)) hnodup.2
  | case3 | case4 => exact ⟨hl, fun id => Or.inr ⟨by simp [timedOutPkgs], rfl⟩⟩

end Numbers

end ITrustee.Teleport
