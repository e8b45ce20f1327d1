import Mathlib.Tactic
import ITrustee.Teleport.PkgHandlers

/-!
# Who needs which package

The references of a package against what the running handlers still need, for one step of the system.
A handler that looked a package up owes the releases it is still to make: one, or two for a send, whose
second release drops the base reference. A receive owes nothing to the list, but it relies on the base
reference of the package it put; `need 1` counts these receives as well, `need 0` does not.

`pkgStep_move` is the inversion lemma for a step of the system, seen from a single package: every step is
a move of its account, provided the steps that take the base reference, `baseTaken`, leave enough for
the other handlers.
-/

namespace ITrustee.Teleport

open RefCount

/-- The package a handler holds a pointer to. -/
def Handler.held (h : Handler) : Option Nat :=
  match h.pc with
  | .working pkg | .sending pkg | .release pkg _ | .releaseAgain pkg _ => pkg
  | _ => none

/-- The releases a handler is still to make of the package it holds. -/
def Handler.owed (h : Handler) : Nat :=
  match h.pc with
  | .releaseAgain .. => 1
  | _ => if h.request.isSend then 2 else 1

/-- The package whose buffer a receive has not finished with. -/
def Handler.receiving (h : Handler) : Option Nat :=
  match h.pc with
  | .receiving pkg | .releaseIndex pkg _ | .freeIoBuf pkg => pkg
  | .serialize pkg ret => if 0 < ret then pkg else none
  | _ => none

/-- The package a handler refers to. -/
def Pc.pkg : Pc → Option Nat
  | .working pkg | .sending pkg | .release pkg _ | .releaseAgain pkg _ | .receiving pkg
  | .releaseIndex pkg _ | .serialize pkg _ | .freeIoBuf pkg => pkg
  | .start | .put .. | .done _ => none

def Handler.owes (h : Handler) (id : Nat) : Nat := if h.held = some id then h.owed else 0

def Handler.weight (k id : Nat) (h : Handler) : Nat :=
  h.owes id + if h.receiving = some id then k else 0

def need (k : Nat) (s : State) (id : Nat) : Nat := total (Handler.weight k id) s.handlers

def account (k : Nat) (s : State) (id : Nat) : Account := ⟨s.fdList.refCnt? id, need k s id⟩

/-- The next step of the handler drops the base reference of a package it searches for, or takes a
reference to give back two. -/
def Handler.takesBase (h : Handler) : Bool :=
  match h.pc with
  | .releaseIndex .. => true
  | .start =>
      match h.request with
      | .pkgTerminate .. => true
      | .netSendto _ _ teeIndex | .netSendmsg _ _ teeIndex => teeIndex > 0
      | _ => false
  | _ => false

/-- The packages whose base reference a step drops or lays claim to. -/
def baseTaken (s : State) : Action → List PkgTmpBuf
  | .request .. => []
  | .run i o =>
      match s.handlers[i]? with
      | none => []
      | some h =>
          if h.takesBase ∧ o.lock = .acquired then
            (fdListSearchPkg s.fdList h.request.fd h.request.teeIndex).toList
          else []
  | .timeout lock clock => if lock = .acquired then timedOutPkgs s.fdList.list clock else []

/-- What the handlers need of a package, the one that takes the step left out. -/
def needOfOthers (k : Nat) (s : State) (a : Action) (id : Nat) : Nat :=
  match a with
  | .run i _ => total (Handler.weight k id) (s.handlers.eraseIdx i)
  | _ => need k s id

/-- A receive turns to `free(ioBuf)` after it released the package, nothing having been received. -/
def freesReleased (s : State) : Action → Bool
  | .run i o =>
      match s.handlers[i]? with
      | some ⟨_, .serialize (some _) ret, _⟩ => ret ≤ 0 && !o.serializeMsgBuf
      | _ => false
  | _ => false

/-! ### Numbers known to the handlers -/

structure Handler.WellFormed (next : Nat) (h : Handler) : Prop where
  pkg_lt : ∀ id, h.pc.pkg = some id → id < next
  releaseIndex : ∀ pkg ret, h.pc = .releaseIndex pkg ret → ret ≤ 0

structure State.WellFormed (s : State) : Prop where
  fdList : s.fdList.WellFormed
  handlers : ∀ h ∈ s.handlers, h.WellFormed s.fdList.next

section Handler

variable {k id m : Nat} {lib : Securec} {o : Outcome} {l l' : FdList} {h h' : Handler}

theorem mem_of_fdListSearchPkg {fd : Int32} {teeIndex : UInt64} {p : PkgTmpBuf}
    (h : fdListSearchPkg l fd teeIndex = some p) : p ∈ l.list := List.mem_of_find?_eq_some h

/-- A handler that refers to no package needs none. -/
theorem weight_eq_zero (hheld : h.held = none) (hrecv : h.receiving = none) :
    h.weight k id = 0 := by
  rw [Handler.weight, Handler.owes, hheld, hrecv]
  rfl

/-- A handler that holds no pointer to a package needs it for a receive at most. -/
theorem weight_le (hheld : h.held = none) : h.weight k id ≤ k := by
  rw [Handler.weight, Handler.owes, hheld, if_neg (by simp), Nat.zero_add]
  by_cases hrecv : h.receiving = some id
  · rw [if_pos hrecv]
  · rw [if_neg hrecv]
    exact Nat.zero_le k

/-- A handler that looked a package up and has not released it yet. -/
theorem weight_holding (k id : Nat) (h : Handler) {p : Nat}
    (hpc : h.pc = .working (some p) ∨ h.pc = .sending (some p) ∨
      ∃ ret, h.pc = .release (some p) ret) :
    h.weight k id = if p = id then (if h.request.isSend then 2 else 1) else 0 := by
  rcases hpc with hpc | hpc | ⟨ret, hpc⟩ <;>
    simp [Handler.weight, Handler.owes, Handler.held, Handler.owed, Handler.receiving, hpc]

/-- Taking a reference of a package. -/
theorem refPkg_move (hl : l.WellFormed) {p : PkgTmpBuf} (hp : p ∈ l.list) (isSend : Bool)
    (hbase : isSend = true → p.id = id → m < p.refCnt) :
    Move ⟨l.refCnt? id, m⟩
      ⟨(refPkg p l).refCnt? id, m + if p.id = id then (if isSend then 2 else 1) else 0⟩ := by
  rw [refCnt?_refPkg hl hp]
  by_cases hid : p.id = id
  · have hcnt := FdList.refCnt?_of_mem hl hp
    rw [hid] at hcnt
    rw [if_pos hid, if_pos hid, hcnt]
    cases isSend with
    | false => exact Move.take
    | true => exact Move.claim (hbase rfl hid)
  · rw [if_neg hid, if_neg hid]
    exact Move.keep le_rfl

/-- Dropping a reference of a package that one of the users needed, or that none did. -/
theorem derefPkg_move (hl : l.WellFormed) {p : PkgTmpBuf} (hp : p ∈ l.list) {w w' : Nat}
    (hle : w' ≤ w) (hid : p.id = id → w = w' + 1 ∨ (w = w' ∧ m + w < p.refCnt)) :
    Move ⟨l.refCnt? id, m + w⟩ ⟨(derefPkg p l).refCnt? id, m + w'⟩ := by
  rw [refCnt?_derefPkg hl hp]
  by_cases heq : p.id = id
  · have hcnt := FdList.refCnt?_of_mem hl hp
    rw [heq] at hcnt
    rw [if_pos heq, hcnt]
    cases hid heq with
    | inl hsettle =>
        rw [hsettle, ← Nat.add_assoc]
        exact Move.settle
    | inr hdrop =>
        rw [← hdrop.1]
        exact Move.drop hdrop.2
  · rw [if_neg heq]
    exact Move.keep (Nat.add_le_add_left hle m)

theorem getPkg_move (hl : l.WellFormed) (hpc : h.pc = .start)
    (hbase : h.request.isSend = true → o.lock = .acquired →
      ∀ p, fdListSearchPkg l h.request.fd h.request.teeIndex = some p → p.id = id →
        m < p.refCnt) :
    Move ⟨l.refCnt? id, m + h.weight k id⟩
      ⟨(getPkg o l h).1.refCnt? id, m + (getPkg o l h).2.weight k id⟩ := by
  have hw : h.weight k id = 0 :=
    weight_eq_zero (by rw [Handler.held, hpc]) (by rw [Handler.receiving, hpc])
  rw [hw, getPkg]
  cases hlock : o.lock with
  | failed errno =>
      have hpkg : Handler.weight k id
          { h with pc := if -errno = 0 then .working none else .done (-1) } = 0 := by
        by_cases herrno : -errno = 0
        · rw [if_pos herrno]
          exact weight_eq_zero rfl rfl
        · rw [if_neg herrno]
          exact weight_eq_zero rfl rfl
      exact Move.keep (Nat.add_le_add_left (Nat.le_of_eq hpkg) m)
  | acquired =>
      cases hsearch : fdListSearchPkg l h.request.fd h.request.teeIndex with
      | none =>
          simp only [fdListGetPkg, hsearch]
          exact Move.keep (Nat.add_le_add_left (Nat.le_of_eq (weight_eq_zero rfl rfl)) m)
      | some p =>
          have hmove := refPkg_move (m := m) hl (mem_of_fdListSearchPkg hsearch)
            h.request.isSend (fun hsend => hbase hsend hlock p hsearch)
          have hweight := weight_holding k id { h with pc := .working (some p.id) } (Or.inl rfl)
          simp only [fdListGetPkg, hsearch, if_true, hweight]
          exact hmove

/-- A release by index, by a handler that needed at most one reference of the package. -/
theorem releaseByIndex_move (hl : l.WellFormed) {fd : Int32} {teeIndex : UInt64} {w : Nat}
    (hw : w ≤ 1) (hbase : o.lock = .acquired → ∀ p, fdListSearchPkg l fd teeIndex = some p →
      p.id = id → m < p.refCnt) :
    Move ⟨l.refCnt? id, m + w⟩
      ⟨(fdListReleasePkgByIndex o.lock fd teeIndex l).2.refCnt? id, m⟩ := by
  cases hlock : o.lock with
  | failed errno => exact Move.keep (Nat.le_add_right m w)
  | acquired =>
      cases hsearch : fdListSearchPkg l fd teeIndex with
      | none =>
          simp only [fdListReleasePkgByIndex, hsearch]
          exact Move.keep (Nat.le_add_right m w)
      | some p =>
          simp only [fdListReleasePkgByIndex, hsearch]
          apply derefPkg_move hl (mem_of_fdListSearchPkg hsearch) (Nat.zero_le w)
          intro hid
          have hspare := hbase hlock p hsearch hid
          omega

/-- A release of the package a handler holds, after which it owes one release less. -/
theorem release_move (hl : l.WellFormed) {pkg : Option Nat} {ret : Int} {w w' : Nat}
    (hrel : fdListReleasePkg o.lock pkg l = some (ret, l'))
    (hid : pkg = some id → w = w' + 1) (hother : pkg ≠ some id → w' ≤ w) :
    Move ⟨l.refCnt? id, m + w⟩ ⟨l'.refCnt? id, m + w'⟩ := by
  have hle : w' ≤ w := by
    by_cases hpkg : pkg = some id
    · rw [hid hpkg]
      exact Nat.le_succ w'
    · exact hother hpkg
  cases pkg with
  | none =>
      obtain ⟨_, rfl⟩ := Prod.mk.inj (Option.some.inj hrel)
      exact Move.keep (Nat.add_le_add_left hle m)
  | some id' =>
      cases hlock : o.lock with
      | failed errno =>
          rw [hlock] at hrel
          obtain ⟨_, rfl⟩ := Prod.mk.inj (Option.some.inj hrel)
          exact Move.keep (Nat.add_le_add_left hle m)
      | acquired =>
          rw [hlock] at hrel
          obtain ⟨p, hp, heq⟩ := Option.map_eq_some_iff.mp hrel
          obtain ⟨_, rfl⟩ := Prod.mk.inj heq
          obtain ⟨hmem, hpid⟩ := FdList.mem_of_pkg? hp
          apply derefPkg_move hl hmem hle
          intro heq
          rw [← hpid] at hid
          exact Or.inl (hid (congrArg some heq))

/-- Putting a package with a new number. -/
theorem putStep_move (hk : k ≤ 1) (hl : l.WellFormed) {buff : List UInt8} {buffLen : UInt64}
    (hpc : h.pc = .put buff buffLen) (hm : id = l.next → m = 0) :
    Move ⟨l.refCnt? id, m + h.weight k id⟩
      ⟨(putStep o buff buffLen l h).1.refCnt? id,
        m + (putStep o buff buffLen l h).2.weight k id⟩ := by
  have hw : h.weight k id = 0 :=
    weight_eq_zero (by rw [Handler.held, hpc]) (by rw [Handler.receiving, hpc])
  rw [hw]
  obtain ⟨pc, hpc', hput⟩ | ⟨creatTimeUs, hput⟩ := putStep_cases o buff buffLen l h
  · have hzero : Handler.weight k id { h with pc } = 0 := by
      obtain ⟨ret, rfl⟩ | rfl := hpc'
      · exact weight_eq_zero rfl rfl
      · exact weight_eq_zero rfl rfl
    rw [hput, hzero]
    exact Move.keep le_rfl
  · have hle : (putStep o buff buffLen l h).2.weight k id ≤ if l.next = id then k else 0 := by
      rw [hput]
      cases h.request <;>
        simp [putPc, Handler.weight, Handler.owes, Handler.held, Handler.receiving]
    have hlist : (putStep o buff buffLen l h).1.refCnt? id =
        if l.next = id then some 1 else l.refCnt? id := by
      rw [hput]
      exact refCnt?_append hl rfl id
    rw [hlist]
    by_cases hnext : l.next = id
    · have hnone : l.refCnt? id = none := by
        rw [FdList.refCnt?, Option.map_eq_none_iff, FdList.pkg?_eq_none]
        intro hmem
        obtain ⟨p, hp, hpid⟩ := List.mem_map.mp hmem
        have hlt := hl.lt_next p hp
        omega
      rw [if_pos hnext] at hle ⊢
      rw [hnone, hm hnext.symm, Nat.zero_add, Nat.zero_add]
      exact Move.create (hle.trans hk)
    · rw [if_neg hnext] at hle ⊢
      exact Move.keep (Nat.add_le_add_left hle m)

/-- What a handler does with the package it looked up leaves the counts alone, and the handler goes on
to the call or to the release. -/
theorem workStep_cases (lib : Securec) (o : Outcome) (l : FdList) (h : Handler) (p : PkgTmpBuf) :
    ((workStep lib o p l h).1 = l ∨ ∃ buff, (workStep lib o p l h).1 =
      l.modifyPkg p.id fun q => { q with buff := buff }) ∧
    (workStep lib o p l h).2.request = h.request ∧
    ((∃ ret, (workStep lib o p l h).2.pc = .release (some p.id) ret) ∨
      (workStep lib o p l h).2.pc = .sending (some p.id) ∨
      (workStep lib o p l h).2.pc = h.pc) := by
  rw [workStep]
  cases hreq : h.request with
  | pkgSend fd teeIndex totalLen data offset blkSz =>
      dsimp only
      split_ifs
      · exact ⟨Or.inl rfl, rfl, Or.inl ⟨_, rfl⟩⟩
      · exact ⟨Or.inl rfl, rfl, Or.inl ⟨_, rfl⟩⟩
      · exact ⟨Or.inr ⟨_, rfl⟩, rfl, Or.inl ⟨_, rfl⟩⟩
  | pkgRecv fd teeIndex totalLen offset blkSz =>
      dsimp only
      split_ifs <;> exact ⟨Or.inl rfl, rfl, Or.inl ⟨_, rfl⟩⟩
  | netSendto fd len teeIndex =>
      dsimp only
      split_ifs
      · exact ⟨Or.inl rfl, rfl, Or.inl ⟨_, rfl⟩⟩
      · exact ⟨Or.inl rfl, rfl, Or.inr (Or.inl rfl)⟩
  | netSendmsg fd bufLen teeIndex =>
      dsimp only
      split_ifs
      · exact ⟨Or.inl rfl, rfl, Or.inl ⟨_, rfl⟩⟩
      · cases o.constructMsg with
        | none => exact ⟨Or.inl rfl, rfl, Or.inl ⟨_, rfl⟩⟩
        | some buff => exact ⟨Or.inr ⟨buff, rfl⟩, rfl, Or.inr (Or.inl rfl)⟩
  | pkgTerminate | netRecvfrom | netRecvmsg => exact ⟨Or.inl rfl, hreq, Or.inr (Or.inr rfl)⟩

theorem weight_done (r : Request) (args : List UInt8) (ret : Int) :
    Handler.weight k id ⟨r, .done ret, args⟩ = 0 := weight_eq_zero rfl rfl

theorem receivedPc_cases (r : Request) (pkg : Option Nat) (ret : Int) :
    (receivedPc r pkg ret = .releaseIndex pkg ret ∧ ret ≤ 0) ∨
      (receivedPc r pkg ret = .serialize pkg ret ∧ 0 < ret) ∨
      receivedPc r pkg ret = .done ret := by
  cases r with
  | netRecvmsg fd teeIndex =>
      simp only [receivedPc]
      split_ifs with hret
      · exact Or.inl ⟨rfl, hret⟩
      · exact Or.inr (Or.inl ⟨rfl, not_le.mp hret⟩)
  | _ =>
      simp only [receivedPc]
      split_ifs with hret
      · exact Or.inl ⟨rfl, hret.1⟩
      · exact Or.inr (Or.inr rfl)

theorem startStep_move (hl : l.WellFormed) (hpc : h.pc = .start)
    (hbase : h.takesBase = true → o.lock = .acquired →
      ∀ p, fdListSearchPkg l h.request.fd h.request.teeIndex = some p → p.id = id →
        m < p.refCnt) :
    Move ⟨l.refCnt? id, m + h.weight k id⟩
      ⟨(startStep lib o l h).1.refCnt? id, m + (startStep lib o l h).2.weight k id⟩ := by
  have hw : h.weight k id = 0 :=
    weight_eq_zero (by rw [Handler.held, hpc]) (by rw [Handler.receiving, hpc])
  have hlocal (h' : Handler) (hheld : h'.held = none) (hrecv : h'.receiving = none) :
      Move ⟨l.refCnt? id, m + h.weight k id⟩ ⟨l.refCnt? id, m + h'.weight k id⟩ := by
    rw [hw, weight_eq_zero hheld hrecv]
    exact Move.keep le_rfl
  have hget (hsend : h.request.isSend = true → h.takesBase = true) :
      Move ⟨l.refCnt? id, m + h.weight k id⟩
        ⟨(getPkg o l h).1.refCnt? id, m + (getPkg o l h).2.weight k id⟩ := by
    apply getPkg_move hl hpc
    intro hisSend
    exact hbase (hsend hisSend)
  have htakes : h.takesBase = match h.request with
      | .pkgTerminate .. => true
      | .netSendto _ _ teeIndex | .netSendmsg _ _ teeIndex => teeIndex > 0
      | _ => false := by
    rw [Handler.takesBase, hpc]
  rw [startStep]
  cases hreq : h.request with
  | pkgSend fd teeIndex totalLen data offset blkSz =>
      dsimp only
      by_cases hoffset : offset = 0
      · rw [if_pos hoffset]
        cases insertFirstPkg lib o data blkSz totalLen with
        | none => exact hlocal _ rfl rfl
        | some buff => exact hlocal _ rfl rfl
      · rw [if_neg hoffset]
        exact hget (by rw [hreq]; exact fun hsend => nomatch hsend)
  | pkgRecv => exact hget (by rw [hreq]; exact fun hsend => nomatch hsend)
  | pkgTerminate fd teeIndex =>
      rw [hreq] at htakes hbase
      rw [hw]
      have hmove := releaseByIndex_move (m := m) hl (Nat.zero_le 1) (hbase htakes)
      dsimp only
      rw [weight_done]
      exact hmove
  | netSendto fd len teeIndex =>
      dsimp only
      rw [hreq] at htakes
      by_cases hindex : teeIndex > 0
      · rw [if_pos hindex]
        exact hget fun _ => by simpa [htakes] using hindex
      · rw [if_neg hindex]
        exact hlocal _ rfl rfl
  | netSendmsg fd bufLen teeIndex =>
      dsimp only
      rw [hreq] at htakes
      by_cases hindex : teeIndex > 0
      · rw [if_pos hindex]
        exact hget fun _ => by simpa [htakes] using hindex
      · rw [if_neg hindex]
        cases o.constructMsg with
        | none => exact hlocal _ rfl rfl
        | some buff => exact hlocal _ rfl rfl
  | netRecvfrom fd len teeIndex =>
      dsimp only
      split_ifs <;> exact hlocal _ rfl rfl
  | netRecvmsg fd teeIndex =>
      cases o.constructMsg with
      | none => exact hlocal _ rfl rfl
      | some ioBuf => exact hlocal _ rfl rfl

theorem refCnt?_received (pkg : Option Nat) (received : List UInt8) :
    (l.received pkg received).refCnt? id = l.refCnt? id := by
  cases pkg with
  | none => rfl
  | some id' => exact FdList.refCnt?_modifyPkg_same _ _ (by intro q; rfl) (by intro q; rfl)

/-- A step of a handler is a move of the account of every package. -/
theorem handlerStep_move (hk : k ≤ 1) (hl : l.WellFormed) (hh : h.WellFormed l.next)
    (hm : id = l.next → m = 0)
    (hbase : h.takesBase = true → o.lock = .acquired →
      ∀ p, fdListSearchPkg l h.request.fd h.request.teeIndex = some p → p.id = id →
        m < p.refCnt)
    (hfree : k = 0 ∨
      ∀ id ret, h.pc = .serialize (some id) ret → ret ≤ 0 → o.serializeMsgBuf = true)
    (hstep : handlerStep lib o l h = some (l', h')) :
    Move ⟨l.refCnt? id, m + h.weight k id⟩ ⟨l'.refCnt? id, m + h'.weight k id⟩ := by
  have hweight (pc : Pc) (hpc : h.pc = pc) : h.weight k id =
      Handler.weight k id { h with pc := pc } := by rw [← hpc]
  cases handlerStep_cases hstep with
  | start hpc => exact startStep_move hl hpc hbase
  | put hpc => exact putStep_move hk hl hpc hm
  | @work id' p hpc hp =>
      obtain ⟨hlist, hreq, hpc'⟩ := workStep_cases lib o l h p
      obtain ⟨-, rfl⟩ := FdList.mem_of_pkg? hp
      rw [hpc] at hpc'
      rw [weight_holding k id h (Or.inl hpc), weight_holding k id _ (by tauto), hreq]
      cases hlist with
      | inl hl' =>
          rw [hl']
          exact Move.keep le_rfl
      | inr hmod =>
          obtain ⟨buff, hl'⟩ := hmod
          rw [hl', FdList.refCnt?_modifyPkg_same _ _ (by intro q; rfl) (by intro q; rfl)]
          exact Move.keep le_rfl
  | @sent pkg hpc =>
      have hsame : Handler.weight k id { h with pc := .release pkg o.ret } = h.weight k id := by
        rw [hweight _ hpc]
        rfl
      rw [hsame]
      exact Move.keep le_rfl
  | release hpc hrel =>
      rw [hweight _ hpc]
      apply release_move hl hrel
      · intro hpkg
        cases hsend : h.request.isSend <;>
          simp [Handler.weight, Handler.owes, Handler.held, Handler.owed, Handler.receiving,
            hpkg, hsend]
      · intro hpkg
        cases hsend : h.request.isSend <;>
          simp [Handler.weight, Handler.owes, Handler.held, Handler.receiving, hpkg]
  | releaseAgain hpc hrel =>
      rw [hweight _ hpc, weight_done]
      apply release_move hl hrel
      · intro hpkg
        simp [Handler.weight, Handler.owes, Handler.held, Handler.owed, Handler.receiving, hpkg]
      · intro _
        exact Nat.zero_le _
  | @received pkg hpc =>
      have hle : Handler.weight k id { h with pc := receivedPc h.request pkg o.ret } ≤
          h.weight k id := by
        rw [hweight _ hpc]
        rcases receivedPc_cases h.request pkg o.ret with ⟨hpc', _⟩ | ⟨hpc', hret⟩ | hpc'
        · rw [hpc']
          exact le_rfl
        · rw [hpc']
          simp only [Handler.weight, Handler.owes, Handler.held, Handler.receiving, hret, if_true]
          exact le_rfl
        · rw [hpc', weight_done]
          exact Nat.zero_le _
      rw [refCnt?_received]
      exact Move.keep (Nat.add_le_add_left hle m)
  | @releaseIndex pkg ret pc hpc hnext =>
      have hret := hh.releaseIndex pkg ret hpc
      have hzero : Handler.weight k id { h with pc := pc } = 0 := by
        cases hnext with
        | inl hdone =>
            rw [hdone, weight_done]
        | inr hserialize =>
            rw [hserialize.2]
            exact weight_eq_zero rfl (if_neg (not_lt.mpr hret))
      have hw : h.weight k id ≤ 1 := (weight_le (by rw [Handler.held, hpc])).trans hk
      rw [hzero]
      exact releaseByIndex_move hl hw (hbase (by rw [Handler.takesBase, hpc]))
  | @serialize pkg ret hpc =>
      apply Move.keep
      apply Nat.add_le_add_left
      rw [hweight _ hpc]
      by_cases hserialize : o.serializeMsgBuf = true
      · rw [if_pos hserialize, weight_done]
        exact Nat.zero_le _
      · rw [if_neg hserialize]
        by_cases hret : 0 < ret
        · simp only [Handler.weight, Handler.owes, Handler.held, Handler.receiving, hret, if_true]
          exact le_rfl
        · cases pkg with
          | none =>
              rw [weight_eq_zero rfl rfl]
              exact Nat.zero_le _
          | some id' =>
              have hk0 : k = 0 := by
                cases hfree with
                | inl hk0 => exact hk0
                | inr hall => exact absurd (hall id' ret hpc (not_lt.mp hret)) hserialize
              simp [Handler.weight, Handler.owes, Handler.held, hk0]
  | @freeIoBuf pkg hpc =>
      have hsame : (l.freeIoBuf pkg).refCnt? id = l.refCnt? id := by cases pkg <;> rfl
      rw [weight_done, hsame]
      exact Move.keep (Nat.le_add_right m _)

/-! ### What a step of a handler keeps -/

theorem fdListReleasePkgByIndex_wellFormed (hl : l.WellFormed) (lock : Lock) (fd : Int32)
    (teeIndex : UInt64) : (fdListReleasePkgByIndex lock fd teeIndex l).2.WellFormed ∧
      (fdListReleasePkgByIndex lock fd teeIndex l).2.next = l.next := by
  cases lock with
  | failed errno => exact ⟨hl, rfl⟩
  | acquired =>
      cases hsearch : fdListSearchPkg l fd teeIndex with
      | none =>
          simp only [fdListReleasePkgByIndex, hsearch]
          exact ⟨hl, trivial⟩
      | some p =>
          simp only [fdListReleasePkgByIndex, hsearch]
          exact ⟨hl.derefPkg (mem_of_fdListSearchPkg hsearch), next_derefPkg p l⟩

theorem fdListReleasePkg_wellFormed (hl : l.WellFormed) {lock : Lock} {pkg : Option Nat}
    {ret : Int} (hrel : fdListReleasePkg lock pkg l = some (ret, l')) :
    l'.WellFormed ∧ l'.next = l.next := by
  cases pkg with
  | none =>
      obtain ⟨_, rfl⟩ := Prod.mk.inj (Option.some.inj hrel)
      exact ⟨hl, rfl⟩
  | some id' =>
      cases lock with
      | failed errno =>
          obtain ⟨_, rfl⟩ := Prod.mk.inj (Option.some.inj hrel)
          exact ⟨hl, rfl⟩
      | acquired =>
          obtain ⟨p, hp, heq⟩ := Option.map_eq_some_iff.mp hrel
          obtain ⟨_, rfl⟩ := Prod.mk.inj heq
          exact ⟨hl.derefPkg (FdList.mem_of_pkg? hp).1, next_derefPkg p l⟩

/-- The list stays well formed and the handler keeps to known packages. -/
def StepWellFormed (l : FdList) (result : FdList × Handler) : Prop :=
  result.1.WellFormed ∧ l.next ≤ result.1.next ∧ result.2.WellFormed result.1.next

/-- A step that leaves the list alone and goes on with the same package or none. -/
theorem stepWellFormed_same (hl : l.WellFormed) (hh : h.WellFormed l.next) {pc : Pc}
    {args : List UInt8} (hpkg : pc.pkg = none ∨ pc.pkg = h.pc.pkg)
    (hret : ∀ pkg ret, pc = .releaseIndex pkg ret → ret ≤ 0) :
    StepWellFormed l (l, ⟨h.request, pc, args⟩) := by
  refine ⟨hl, le_rfl, fun id' hid => ?_, hret⟩
  dsimp only at hid
  cases hpkg with
  | inl hnone =>
      rw [hnone] at hid
      cases hid
  | inr hsame => exact hh.pkg_lt id' (hsame ▸ hid)

theorem wellFormed_of_pkg_none {next : Nat} {r : Request} {pc : Pc} {args : List UInt8}
    (hpkg : pc.pkg = none) (hret : ∀ pkg ret, pc ≠ .releaseIndex pkg ret) :
    Handler.WellFormed next ⟨r, pc, args⟩ := by
  refine ⟨fun id' hid => ?_, fun pkg ret hpc => absurd hpc (hret pkg ret)⟩
  dsimp only at hid
  rw [hpkg] at hid
  cases hid

theorem getPkg_wellFormed (hl : l.WellFormed) : StepWellFormed l (getPkg o l h) := by
  rw [getPkg]
  cases hlock : o.lock with
  | failed errno =>
      refine ⟨hl, le_rfl, ?_⟩
      dsimp only [fdListGetPkg]
      by_cases herrno : -errno = 0
      · rw [if_pos herrno]
        exact wellFormed_of_pkg_none rfl (fun pkg ret hpc => nomatch hpc)
      · rw [if_neg herrno]
        exact wellFormed_of_pkg_none rfl (fun pkg ret hpc => nomatch hpc)
  | acquired =>
      cases hsearch : fdListSearchPkg l h.request.fd h.request.teeIndex with
      | none =>
          simp only [fdListGetPkg, hsearch]
          exact ⟨hl, le_rfl, fun id' hid => (nomatch hid), fun pkg ret hpc => (nomatch hpc)⟩
      | some p =>
          simp only [fdListGetPkg, hsearch, if_true]
          refine ⟨hl.refPkg p, le_rfl, fun id' hid => ?_, fun pkg ret hpc => (nomatch hpc)⟩
          obtain rfl := Option.some.inj hid
          exact hl.lt_next p (mem_of_fdListSearchPkg hsearch)

theorem putStep_wellFormed (hl : l.WellFormed) {buff : List UInt8} {buffLen : UInt64} :
    StepWellFormed l (putStep o buff buffLen l h) := by
  obtain ⟨pc, hpc, hput⟩ | ⟨creatTimeUs, hput⟩ := putStep_cases o buff buffLen l h
  · rw [hput]
    refine ⟨hl, le_rfl, ?_⟩
    obtain ⟨ret, rfl⟩ | rfl := hpc
    · exact wellFormed_of_pkg_none rfl (by simp)
    · exact wellFormed_of_pkg_none rfl (by simp)
  · rw [hput]
    refine ⟨hl.append rfl, Nat.le_succ _, ?_⟩
    have hnew : Handler.WellFormed (l.next + 1)
        ⟨h.request, .receiving (some l.next), h.args⟩ := by
      refine ⟨fun id' hid => ?_, by simp⟩
      obtain rfl := Option.some.inj hid
      exact Nat.lt_succ_self _
    cases hreq : h.request with
    | pkgSend => exact wellFormed_of_pkg_none rfl (by simp [putPc])
    | _ =>
        rw [hreq] at hnew
        exact hnew

theorem startStep_wellFormed (hl : l.WellFormed) (hh : h.WellFormed l.next) :
    StepWellFormed l (startStep lib o l h) := by
  have hlocal (pc : Pc) (hpkg : pc.pkg = none)
      (hret : ∀ pkg ret, pc = .releaseIndex pkg ret → ret ≤ 0) :
      StepWellFormed l (l, { h with pc := pc }) := stepWellFormed_same hl hh (Or.inl hpkg) hret
  rw [startStep]
  cases hreq : h.request with
  | pkgSend fd teeIndex totalLen data offset blkSz =>
      rw [hreq] at hlocal
      dsimp only
      split_ifs
      · cases insertFirstPkg lib o data blkSz totalLen with
        | none => exact hlocal _ rfl (fun pkg ret hpc => nomatch hpc)
        | some buff => exact hlocal _ rfl (fun pkg ret hpc => nomatch hpc)
      · exact getPkg_wellFormed hl
  | pkgRecv => exact getPkg_wellFormed hl
  | pkgTerminate fd teeIndex =>
      obtain ⟨hwf, hnext⟩ := fdListReleasePkgByIndex_wellFormed hl o.lock
        (Request.pkgTerminate fd teeIndex).fd (Request.pkgTerminate fd teeIndex).teeIndex
      exact ⟨hwf, hnext.ge, fun id' hid => (nomatch hid), fun pkg ret hpc => (nomatch hpc)⟩
  | netSendto fd len teeIndex =>
      rw [hreq] at hlocal
      dsimp only
      split_ifs
      · exact getPkg_wellFormed hl
      · exact hlocal _ rfl (fun pkg ret hpc => nomatch hpc)
  | netSendmsg fd bufLen teeIndex =>
      rw [hreq] at hlocal
      dsimp only
      split_ifs
      · exact getPkg_wellFormed hl
      · cases o.constructMsg with
        | none => exact hlocal _ rfl (fun pkg ret hpc => nomatch hpc)
        | some buff => exact hlocal _ rfl (fun pkg ret hpc => nomatch hpc)
  | netRecvfrom fd len teeIndex =>
      rw [hreq] at hlocal
      dsimp only
      split_ifs <;> exact hlocal _ rfl (fun pkg ret hpc => nomatch hpc)
  | netRecvmsg fd teeIndex =>
      rw [hreq] at hlocal
      cases o.constructMsg with
      | none => exact hlocal _ rfl (fun pkg ret hpc => nomatch hpc)
      | some ioBuf => exact hlocal _ rfl (fun pkg ret hpc => nomatch hpc)

theorem handlerStep_wellFormed (hl : l.WellFormed) (hh : h.WellFormed l.next)
    (hstep : handlerStep lib o l h = some (l', h')) : StepWellFormed l (l', h') := by
  have hsame (pc : Pc) (hpkg : pc.pkg = none ∨ pc.pkg = h.pc.pkg)
      (hret : ∀ pkg ret, pc = .releaseIndex pkg ret → ret ≤ 0) :
      h.WellFormed l.next → Handler.WellFormed l.next { h with pc := pc } :=
    fun hh => (stepWellFormed_same hl hh hpkg hret).2.2
  cases handlerStep_cases hstep with
  | start hpc => exact startStep_wellFormed hl hh
  | put hpc => exact putStep_wellFormed hl
  | @work id' p hpc hp =>
      obtain ⟨hlist, _, hpc'⟩ := workStep_cases lib o l h p
      obtain ⟨hmem, rfl⟩ := FdList.mem_of_pkg? hp
      rw [hpc] at hpc'
      have hpkg : (workStep lib o p l h).2.pc.pkg = some p.id ∧
          ∀ pkg ret, (workStep lib o p l h).2.pc ≠ .releaseIndex pkg ret := by
        rcases hpc' with ⟨ret, hrel⟩ | hsend | hwork
        · rw [hrel]
          exact ⟨rfl, fun pkg ret heq => nomatch heq⟩
        · rw [hsend]
          exact ⟨rfl, fun pkg ret heq => nomatch heq⟩
        · rw [hwork]
          exact ⟨rfl, fun pkg ret heq => nomatch heq⟩
      have hwf : Handler.WellFormed l.next (workStep lib o p l h).2 := by
        refine ⟨fun id' hid => ?_, fun pkg ret heq => absurd heq (hpkg.2 pkg ret)⟩
        rw [hpkg.1] at hid
        obtain rfl := Option.some.inj hid
        exact hl.lt_next p hmem
      cases hlist with
      | inl hl' =>
          rw [hl']
          exact ⟨hl, le_rfl, hwf⟩
      | inr hmod =>
          obtain ⟨buff, hl'⟩ := hmod
          rw [hl']
          exact ⟨hl.modifyPkg _ (by intro q; rfl), le_rfl, hwf⟩
  | @sent pkg hpc =>
      have hpkg : h.pc.pkg = pkg := by rw [hpc]; rfl
      exact stepWellFormed_same hl hh (Or.inr hpkg.symm) (fun pkg ret heq => nomatch heq)
  | @release pkg ret ret' l' hpc hrel =>
      have hpkg : h.pc.pkg = pkg := by rw [hpc]; rfl
      obtain ⟨hwf, hnext⟩ := fdListReleasePkg_wellFormed hl hrel
      refine ⟨hwf, hnext.ge, ?_⟩
      dsimp only at hwf hnext ⊢
      rw [hnext]
      by_cases hsend : h.request.isSend = true
      · rw [if_pos hsend]
        exact hsame _ (Or.inr hpkg.symm) (fun pkg ret heq => nomatch heq) hh
      · rw [if_neg hsend]
        exact hsame _ (Or.inl rfl) (fun pkg ret heq => nomatch heq) hh
  | releaseAgain hpc hrel =>
      obtain ⟨hwf, hnext⟩ := fdListReleasePkg_wellFormed hl hrel
      exact ⟨hwf, hnext.ge, wellFormed_of_pkg_none rfl (fun pkg ret heq => nomatch heq)⟩
  | @received pkg hpc =>
      have hpkg : h.pc.pkg = pkg := by rw [hpc]; rfl
      have hwf : Handler.WellFormed l.next { h with pc := receivedPc h.request pkg o.ret } := by
        rcases receivedPc_cases h.request pkg o.ret with ⟨hpc', hret⟩ | ⟨hpc', hret⟩ | hpc'
        · rw [hpc']
          refine hsame _ (Or.inr hpkg.symm) (fun pkg ret heq => ?_) hh
          obtain ⟨_, rfl⟩ := Pc.releaseIndex.inj heq
          exact hret
        · rw [hpc']
          exact hsame _ (Or.inr hpkg.symm) (fun pkg ret heq => nomatch heq) hh
        · rw [hpc']
          exact hsame _ (Or.inl rfl) (fun pkg ret heq => nomatch heq) hh
      cases pkg with
      | none => exact ⟨hl, le_rfl, hwf⟩
      | some id' => exact ⟨hl.modifyPkg _ (by intro q; rfl), le_rfl, hwf⟩
  | @releaseIndex pkg ret pc hpc hnextPc =>
      have hpkg : h.pc.pkg = pkg := by rw [hpc]; rfl
      obtain ⟨hwf, hnext⟩ := fdListReleasePkgByIndex_wellFormed hl o.lock h.request.fd
        h.request.teeIndex
      refine ⟨hwf, hnext.ge, ?_⟩
      dsimp only
      rw [hnext]
      cases hnextPc with
      | inl hdone =>
          rw [hdone]
          exact hsame _ (Or.inl rfl) (fun pkg ret heq => nomatch heq) hh
      | inr hserialize =>
          rw [hserialize.2]
          exact hsame _ (Or.inr hpkg.symm) (fun pkg ret heq => nomatch heq) hh
  | @serialize pkg ret hpc =>
      have hpkg : h.pc.pkg = pkg := by rw [hpc]; rfl
      refine ⟨hl, le_rfl, ?_⟩
      dsimp only
      by_cases hserialize : o.serializeMsgBuf = true
      · rw [if_pos hserialize]
        exact hsame _ (Or.inl rfl) (fun pkg ret heq => nomatch heq) hh
      · rw [if_neg hserialize]
        exact hsame _ (Or.inr hpkg.symm) (fun pkg ret heq => nomatch heq) hh
  | @freeIoBuf pkg hpc =>
      have hpkg : h.pc.pkg = pkg := by rw [hpc]; rfl
      cases pkg with
      | none => exact stepWellFormed_same hl hh (Or.inl rfl) (fun pkg ret heq => nomatch heq)
      | some id' =>
          refine ⟨⟨hl.nodup, hl.lt_next, hl.freed_nodup, hl.freed_lt, hl.freed_gone, ?_⟩, le_rfl,
            wellFormed_of_pkg_none rfl (fun pkg ret heq => nomatch heq)⟩
          intro id hid
          cases hid with
          | head => exact hh.pkg_lt id' hpkg
          | tail _ hid => exact hl.buffs_lt id hid

end Handler

/-! ### Steps of the system -/

section System

variable {k : Nat} {lib : Securec} {s s' : State} {a : Action}

theorem pkg_of_held {h : Handler} {id : Nat} (hheld : h.held = some id) :
    h.pc.pkg = some id := by
  rw [Handler.held] at hheld
  cases hpc : h.pc with
  | working | sending | release | releaseAgain =>
      rw [hpc] at hheld
      exact hheld
  | _ =>
      rw [hpc] at hheld
      cases hheld

theorem pkg_of_receiving {h : Handler} {id : Nat} (hrecv : h.receiving = some id) :
    h.pc.pkg = some id := by
  rw [Handler.receiving] at hrecv
  cases hpc : h.pc with
  | receiving | releaseIndex | freeIoBuf =>
      rw [hpc] at hrecv
      exact hrecv
  | serialize pkg ret =>
      rw [hpc] at hrecv
      dsimp only at hrecv
      split_ifs at hrecv
      exact hrecv
  | _ =>
      rw [hpc] at hrecv
      cases hrecv

/-- Nobody needs a package with a number that was not given out yet. -/
theorem total_weight_next {next : Nat} {handlers : List Handler}
    (hwf : ∀ h ∈ handlers, h.WellFormed next) : total (Handler.weight k next) handlers = 0 := by
  apply List.sum_eq_zero
  intro w hw
  obtain ⟨h, hmem, rfl⟩ := List.mem_map.mp hw
  have hpkg : h.pc.pkg ≠ some next := fun heq => lt_irrefl next ((hwf h hmem).pkg_lt next heq)
  rw [Handler.weight, Handler.owes, if_neg (fun heq => hpkg (pkg_of_held heq)),
    if_neg (fun heq => hpkg (pkg_of_receiving heq)), Nat.add_zero]

theorem serialize_of_not_frees {i : Nat} {o : Outcome} {h : Handler} (hh : s.handlers[i]? = some h)
    (hnot : freesReleased s (.run i o) = false) {id : Nat} {ret : Int}
    (hpc : h.pc = .serialize (some id) ret) (hret : ret ≤ 0) : o.serializeMsgBuf = true := by
  obtain ⟨r, pc, args⟩ := h
  dsimp only at hpc
  subst hpc
  simpa [freesReleased, hh, hret] using hnot

theorem pkgStep_run {i : Nat} {o : Outcome} (hstep : pkgStep lib s (.run i o) = some s') :
    ∃ h l h', s.handlers[i]? = some h ∧ handlerStep lib o s.fdList h = some (l, h') ∧
      s' = { fdList := l, handlers := s.handlers.set i h' } := by
  obtain ⟨h, hh, hrest⟩ := Option.bind_eq_some_iff.mp hstep
  obtain ⟨⟨l, h'⟩, hl, heq⟩ := Option.bind_eq_some_iff.mp hrest
  exact ⟨h, l, h', hh, hl, (Option.some.inj heq).symm⟩

theorem fdListDelTimeoutPkg_wellFormed (hs : s.fdList.WellFormed) (lock : Lock)
    (clock : List (Except Errno UInt64)) :
    (fdListDelTimeoutPkg lock clock s.fdList).2.WellFormed ∧
      (fdListDelTimeoutPkg lock clock s.fdList).2.next = s.fdList.next := by
  cases lock with
  | failed errno => exact ⟨hs, rfl⟩
  | acquired =>
      obtain ⟨hwf, _⟩ := delTimeoutLoop_spec clock hs (fun p hp => hp) hs.nodup
      exact ⟨hwf, next_delTimeoutLoop _ _ _⟩

theorem pkgStep_wellFormed (hs : s.WellFormed) (hstep : pkgStep lib s a = some s') :
    s'.WellFormed := by
  cases a with
  | request r args =>
      obtain rfl := Option.some.inj hstep
      refine ⟨hs.fdList, fun h hmem => ?_⟩
      rw [List.mem_append, List.mem_singleton] at hmem
      cases hmem with
      | inl hold => exact hs.handlers h hold
      | inr hnew =>
          rw [hnew]
          exact wellFormed_of_pkg_none rfl (fun pkg ret heq => nomatch heq)
  | run i o =>
      obtain ⟨h, l, h', hh, hl, rfl⟩ := pkgStep_run hstep
      have hmem := List.mem_of_getElem? hh
      obtain ⟨hwf, hnext, hnew⟩ := handlerStep_wellFormed hs.fdList (hs.handlers h hmem) hl
      refine ⟨hwf, fun h'' hmem'' => ?_⟩
      cases List.mem_or_eq_of_mem_set hmem'' with
      | inl hold =>
          have hwf'' := hs.handlers h'' hold
          exact ⟨fun id hid => (hwf''.pkg_lt id hid).trans_le hnext, hwf''.releaseIndex⟩
      | inr heq =>
          rw [heq]
          exact hnew
  | timeout lock clock =>
      obtain rfl := Option.some.inj hstep
      obtain ⟨hwf, hnext⟩ := fdListDelTimeoutPkg_wellFormed hs.fdList lock clock
      refine ⟨hwf, fun h hmem => ?_⟩
      dsimp only
      rw [hnext]
      exact hs.handlers h hmem

theorem initial_wellFormed : ({} : State).WellFormed :=
  ⟨⟨List.nodup_nil, by simp, List.nodup_nil, by simp, by simp, by simp⟩, by simp⟩

/-- A step of the system is a move of the account of every package. -/
theorem pkgStep_move (hk : k ≤ 1) (hs : s.WellFormed) (id : Nat)
    (hbase : ∀ p ∈ baseTaken s a, p.id = id → needOfOthers k s a id < p.refCnt)
    (hfree : k = 0 ∨ freesReleased s a = false) (hstep : pkgStep lib s a = some s') :
    Move (account k s id) (account k s' id) := by
  cases a with
  | request r args =>
      obtain rfl := Option.some.inj hstep
      have hneed : need k { s with handlers := s.handlers ++ [{ request := r, args := args }] } id =
          need k s id := total_append s.handlers _
      rw [account, account, hneed]
      exact Move.keep le_rfl
  | run i o =>
      obtain ⟨h, l, h', hh, hl, rfl⟩ := pkgStep_run hstep
      have hmem := List.mem_of_getElem? hh
      have hneed := total_eraseIdx (Handler.weight k id) hh
      have hneed' := total_eraseIdx (Handler.weight k id)
        (List.getElem?_set_self (a := h') (List.getElem?_eq_some_iff.mp hh).1)
      rw [List.eraseIdx_set_eq] at hneed'
      rw [account, account, need, need, hneed, hneed']
      apply handlerStep_move hk hs.fdList (hs.handlers h hmem) ?_ ?_ ?_ hl
      · intro hid
        rw [hid]
        exact total_weight_next fun h hmem => hs.handlers h (List.mem_of_mem_eraseIdx hmem)
      · intro htakes hlock p hp hid
        refine hbase p ?_ hid
        simp only [baseTaken, hh]
        rw [if_pos ⟨htakes, hlock⟩, hp]
        exact List.mem_singleton.mpr rfl
      · exact hfree.imp_right fun hnot id' ret => serialize_of_not_frees hh hnot
  | timeout lock clock =>
      obtain rfl := Option.some.inj hstep
      cases lock with
      | failed errno => exact Move.keep le_rfl
      | acquired =>
          obtain ⟨_, hcnt⟩ := delTimeoutLoop_spec clock hs.fdList (fun p hp => hp)
            hs.fdList.nodup
          cases hcnt id with
          | inl hdropped =>
              obtain ⟨p, hp, hid, hless⟩ := hdropped
              have hold := FdList.refCnt?_of_mem hs.fdList (mem_of_mem_timedOutPkgs hp)
              have hspare := hbase p (by simpa [baseTaken] using hp) hid
              rw [hid] at hold
              rw [account, account, hold]
              dsimp only [fdListDelTimeoutPkg]
              rw [hless]
              exact Move.drop hspare
          | inr hother =>
              rw [account, account]
              dsimp only [fdListDelTimeoutPkg]
              rw [hother.2]
              exact Move.keep le_rfl

end System

end ITrustee.Teleport
