import Mathlib.Tactic
import ITrustee.Libteec.SessionLists

/-!
# Closing a session that was not opened

`TEEC_OpenSession` stores the context in the client's structure before it can fail, so that
`TEEC_CloseSession` may be called after a failure, but it leaves the session id as it was. The close
then looks for that id in the list of the context. It does no harm as long as no other structure in the
list has the id.
-/

namespace ITrustee.Libteec

/-- The call closes a structure whose last `TEEC_OpenSession` failed. -/
def closesFailedOpen (m : SessionTable) (r : Request) : Bool :=
  r.isClose &&
    match m.lastOpen r.session with
    | some ret => ret != teecSuccess
    | none => false

/-- A step of such a close leaves the other structures in the list and their sessions open in the
driver. What the final release closes, when this call comes to run it, are the sessions of a context
that the client has finalized. -/
def HarmlessAfter (s : ClientState) : ClientAction → Prop
  | .call _ => True
  | .run k o => ∀ call ∈ s.calls[k]?, closesFailedOpen s.memory call.request = true →
      call.pc.finalizing = none → ∀ s', clientStep s (.run k o) = some s' →
        (∀ id, ∀ g ∈ s.memory.sessionList id, g ≠ call.request.session →
          g ∈ s'.memory.sessionList id) ∧
        ∀ l ∈ s.memory.live, l.owner ≠ call.request.session → l ∈ s'.memory.live

/-- When such a close looks for its session, no other structure in the list has the id that is left in
the structure. -/
def NoOtherWithId (s : ClientState) : ClientAction → Prop
  | .call _ => True
  | .run k o => ∀ call ∈ s.calls[k]?, closesFailedOpen s.memory call.request = true →
      match call.pc with
      | .finding id => o.locked = true → ∀ g ∈ s.memory.sessionList id, g ≠ call.request.session →
          (s.memory.sessions g).sessionId ≠ (s.memory.sessions call.request.session).sessionId
      | _ => True

instance (m : SessionTable) (o : Outcome) (pc : CallPc) : Decidable (freshReply m o pc) := by
  unfold freshReply
  split <;> infer_instance

instance (s : ClientState) (a : ClientAction) : Decidable (Disciplined s a) := by
  unfold Disciplined
  split <;> infer_instance

instance (s : ClientState) (a : ClientAction) : Decidable (NoOtherWithId s a) := by
  have (call : ClientCall) (o : Outcome) : Decidable (match call.pc with
      | .finding id => o.locked = true → ∀ g ∈ s.memory.sessionList id, g ≠ call.request.session →
          (s.memory.sessions g).sessionId ≠ (s.memory.sessions call.request.session).sessionId
      | _ => True) := by
    split <;> infer_instance
  unfold NoOtherWithId
  split <;> infer_instance

variable {s s' : ClientState} {call : ClientCall} {k h g id : Nat} {o : Outcome} {a : ClientAction}

/-! ### What the close finds -/

theorem findBnSession_spec {m : SessionTable} (hfind : findBnSession m h id = some g) :
    g ∈ m.sessionList id ∧ (m.sessions g).sessionId = (m.sessions h).sessionId := by
  rw [findBnSession] at hfind
  exact ⟨List.mem_of_find?_eq_some hfind, by simpa using List.find?_some hfind⟩

/-- A structure is closed only after it was given to `TEEC_OpenSession`. -/
def ClosesOpened (s : ClientState) : Prop :=
  ∀ call ∈ s.calls, call.request.isClose = true → s.memory.lastOpen call.request.session ≠ none

/-- A structure that was opened last is found by its own id. -/
theorem RunInv.found_of_opened (hrun : RunInv s) (hk : s.calls[k]? = some call)
    (hpc : call.pc = .finding id)
    (hlast : s.memory.lastOpen call.request.session = some teecSuccess)
    (hfind : findBnSession s.memory call.request.session id = some g) : g = call.request.session := by
  have hat := hrun.sessions.callAt k call hk
  have hfits := hat.fits
  rw [hpc] at hfits
  have hheld : call.pc.held = some id := by rw [hpc]; rfl
  obtain rfl := hrun.held_eq_zero hk hheld
  have huses : call.request.uses call.request.session = true := uses_session (Or.inr hfits)
  have hruns : call.runsOn call.request.session = true := by
    rw [ClientCall.runsOn, huses, hpc]
    rfl
  have hlisted : call.request.session ∈ s.memory.sessionList 0 := by
    obtain ⟨call', hmem, hopen, hruns'⟩ | hgood := hrun.sessions.good _ hlast
    · obtain ⟨j, hj⟩ := List.mem_iff_getElem?.mp hmem
      by_cases hjk : j = k
      · subst hjk
        obtain rfl := Option.some.inj (hk.symm.trans hj)
        cases hr : call.request with
        | openSession =>
            rw [hr] at hfits
            cases hfits
        | _ =>
            rw [hr] at hopen
            cases hopen
      · rw [hrun.runsOn_exclusive hk hj hjk hruns] at hruns'
        cases hruns'
    · refine hrun.listed_of_good hk (Or.inl ⟨0, hheld, hruns⟩)
        (by rw [ClientCall.touches, hpc]) ?_ hgood
      obtain hcontext | hreleased := hat.reading _ huses (by rw [hpc]; rfl)
      · exact hcontext
      · exact absurd hreleased (hrun.not_released_of_held hk hheld)
  obtain ⟨hg, hid⟩ := findBnSession_spec hfind
  have hlists := hrun.sessions.lists
  exact hlists.owner_eq (hlists.listed g hg) (hlists.listed _ hlisted) hid

theorem RunInv.ownSession (hrun : RunInv s) (hclosed : ClosesOpened s)
    (hother : NoOtherWithId s (.run k o)) : OwnSession s k o := by
  intro call hk id hpc hlocked g hfind
  have hfits := (hrun.sessions.callAt k call hk).fits
  rw [hpc] at hfits
  cases hlast : s.memory.lastOpen call.request.session with
  | none => exact absurd hlast (hclosed call (List.mem_of_getElem? hk) hfits)
  | some ret =>
      by_cases hret : ret = teecSuccess
      · exact hrun.found_of_opened hk hpc (hret ▸ hlast) hfind
      · by_contra hne
        have hfailed : closesFailedOpen s.memory call.request = true := by
          rw [closesFailedOpen, hlast, Bool.and_eq_true_iff]
          exact ⟨hfits, bne_iff_ne.mpr hret⟩
        have hids := hother call hk hfailed
        rw [hpc] at hids
        obtain ⟨hg, hid⟩ := findBnSession_spec hfind
        exact hids hlocked g hg hne hid

/-! ### One step -/

theorem callStep_finding (hk : s.calls[k]? = some call) (hpc : call.pc = .finding id) :
    clientStep s (.run k o) = some (s.advance k call s.table
      (findAndRemoveSessionStep o s.memory call.request.session id).1
      (findAndRemoveSessionStep o s.memory call.request.session id).2) := by
  rw [clientStep, hk, Option.bind_some, callStep, hpc]
  rfl

/-- Only the search for the session can touch another structure. -/
theorem RunInv.harmless_of_ne_finding (hrun : RunInv s) (hk : s.calls[k]? = some call)
    (hclose : call.request.isClose = true) (hfin : call.pc.finalizing = none)
    (hpc : ∀ id, call.pc ≠ .finding id) (hstep : clientStep s (.run k o) = some s') :
    (∀ id, ∀ g ∈ s.memory.sessionList id, g ∈ s'.memory.sessionList id) ∧
      ∀ l ∈ s.memory.live, l.owner ≠ call.request.session → l ∈ s'.memory.live := by
  have hat := hrun.sessions.callAt k call hk
  have hfits := hat.fits
  obtain ⟨h, hr⟩ : ∃ h, call.request = .closeSession h := by
    cases hr : call.request with
    | closeSession h => exact ⟨h, rfl⟩
    | _ =>
        rw [hr] at hclose
        cases hclose
  rw [clientStep, hk, Option.bind_some, callStep] at hstep
  split_ifs at hstep with htable
  · obtain ⟨⟨t, pc⟩, -, rfl⟩ := Option.map_eq_some_iff.mp hstep
    simp only [advance_sessionList, advance_live]
    exact ⟨fun _ _ hg => hg, fun _ hl _ => hl⟩
  · obtain ⟨⟨m, pc⟩, hmstep, rfl⟩ := Option.map_eq_some_iff.mp hstep
    simp only [advance_sessionList, advance_live]
    cases hcall : call.pc with
    | start =>
        rw [hcall, hr, memoryStep, startStep] at hmstep
        split at hmstep
        · obtain ⟨rfl, -⟩ := Prod.mk.inj (Option.some.inj hmstep)
          exact ⟨fun _ _ hg => hg, fun _ hl _ => hl⟩
        · split at hmstep <;> obtain ⟨rfl, -⟩ := Prod.mk.inj (Option.some.inj hmstep) <;>
            exact ⟨fun _ _ hg => hg, fun _ hl _ => hl⟩
    | finding id => exact absurd hcall (hpc id)
    | closing id =>
        rw [hcall] at hmstep
        obtain ⟨rfl, -⟩ := Prod.mk.inj (Option.some.inj hmstep)
        obtain rfl := hrun.held_eq_zero hk (by rw [hcall]; rfl : call.pc.held = some id)
        have hentry := hat.carried call.request.session (by rw [ClientCall.carries, hcall])
        refine ⟨fun _ _ hg => hg, fun l hl howner => ?_⟩
        refine (hrun.sessions.lists.mem_closeRequest hentry l).mpr ⟨hl, fun heq => howner ?_⟩
        exact congrArg LiveSession.owner heq
    | wiping id =>
        rw [hcall] at hmstep
        obtain ⟨rfl, -⟩ := Prod.mk.inj (Option.some.inj hmstep)
        exact ⟨fun _ _ hg => hg, fun _ hl _ => hl⟩
    | checking | opening | opened | adding | working =>
        rw [hcall, hr] at hfits
        simp [CallPc.Fits, Request.isOpen, Request.isClose] at hfits
    | releasing | releaseNext | releaseClosing | releaseWiping | releaseMemory | releaseFd =>
        rw [hcall] at hfin
        cases hfin
    | _ =>
        rw [hcall] at hmstep
        cases hmstep

theorem findAndRemoveSessionStep_cases (o : Outcome) (m : SessionTable) (h id : Nat) :
    (findAndRemoveSessionStep o m h id).1 = m ∨
      ∃ g, o.locked = true ∧ findBnSession m h id = some g ∧
        (findAndRemoveSessionStep o m h id).1 = m.setList id ((m.sessionList id).erase g) := by
  rw [findAndRemoveSessionStep]
  split_ifs with hlocked
  · exact Or.inl rfl
  · cases hfind : findBnSession m h id with
    | none => exact Or.inl rfl
    | some g => exact Or.inr ⟨g, by simpa using hlocked, rfl, rfl⟩

/-- The session removed is the one of the structure itself exactly when no other has its id. -/
theorem ListInv.remove_harmless_iff {m : SessionTable} (hlists : ListInv m) (o : Outcome) (h : Nat) :
    (∀ id, ∀ g ∈ m.sessionList id, g ≠ h →
        g ∈ (findAndRemoveSessionStep o m h 0).1.sessionList id) ↔
      (o.locked = true → ∀ g ∈ m.sessionList 0, g ≠ h →
        (m.sessions g).sessionId ≠ (m.sessions h).sessionId) := by
  constructor
  · intro hkept hlocked g hg hne hid
    obtain ⟨g₀, hfind⟩ : ∃ g₀, findBnSession m h 0 = some g₀ := by
      refine Option.isSome_iff_exists.mp (List.find?_isSome.mpr ⟨g, hg, decide_eq_true hid⟩)
    obtain ⟨hg₀, hid₀⟩ := findBnSession_spec hfind
    have hstep : (findAndRemoveSessionStep o m h 0).1 = m.setList 0 ((m.sessionList 0).erase g₀) := by
      rw [findAndRemoveSessionStep, hlocked, hfind]
      rfl
    have hself : g₀ = h := by
      by_contra hne₀
      have hmem := hkept 0 g₀ hg₀ hne₀
      rw [hstep, setList_self] at hmem
      exact hlists.list_nodup.not_mem_erase hmem
    subst hself
    exact hne (hlists.owner_eq (hlists.listed g hg) (hlists.listed g₀ hg₀) hid)
  · intro hids id g hg hne
    obtain hsame | ⟨g₀, hlocked, hfind, hstep⟩ := findAndRemoveSessionStep_cases o m h 0
    · rw [hsame]
      exact hg
    · obtain ⟨hg₀, hid₀⟩ := findBnSession_spec hfind
      have hself : g₀ = h := by
        by_contra hne₀
        exact hids hlocked g₀ hg₀ hne₀ hid₀
      subst hself
      rw [hstep]
      by_cases hzero : id = 0
      · subst hzero
        rw [setList_self]
        exact (List.mem_erase_of_ne hne).mpr hg
      · rw [setList_of_ne _ _ _ _ hzero]
        exact hg

theorem harmlessAfter_iff (hrun : RunInv s) (a : ClientAction) :
    HarmlessAfter s a ↔ NoOtherWithId s a := by
  cases a with
  | call r => exact Iff.rfl
  | run k o =>
      refine forall_congr' fun call => forall_congr' fun hk => forall_congr' fun hfailed => ?_
      have hclose : call.request.isClose = true := (Bool.and_eq_true_iff.mp hfailed).1
      by_cases hfinding : ∃ id, call.pc = .finding id
      · obtain ⟨id, hpc⟩ := hfinding
        obtain rfl := hrun.held_eq_zero hk (by rw [hpc]; rfl : call.pc.held = some id)
        have hiff := hrun.sessions.lists.remove_harmless_iff o call.request.session
        have hlive : (findAndRemoveSessionStep o s.memory call.request.session 0).1.live =
            s.memory.live := by
          obtain hsame | ⟨g, -, -, hstep⟩ :=
            findAndRemoveSessionStep_cases o s.memory call.request.session 0
          · rw [hsame]
          · rw [hstep, setList_live]
        rw [callStep_finding hk hpc, hpc]
        constructor
        · intro hharmless
          have hkept := (hharmless rfl _ rfl).1
          rw [advance_sessionList] at hkept
          exact hiff.mp hkept
        · intro hids _ s' hs'
          obtain rfl := Option.some.inj hs'
          rw [advance_sessionList, advance_live, hlive]
          exact ⟨hiff.mpr hids, fun _ hl _ => hl⟩
      · have hpc (id : Nat) : call.pc ≠ .finding id := fun hpc => hfinding ⟨id, hpc⟩
        refine iff_of_true (fun hfin s' hs' => ?_) ?_
        · obtain ⟨hlists, hlive⟩ := hrun.harmless_of_ne_finding hk hclose hfin hpc hs'
          exact ⟨fun id g hg _ => hlists id g hg, hlive⟩
        · split
          · next id hpc' => exact absurd hpc' (hpc id)
          · trivial

/-! ### Runs -/

theorem ClosesOpened.step (hclosed : ClosesOpened s) (hdisc : Disciplined s a)
    (hstep : clientStep s a = some s') : ClosesOpened s' := by
  cases a with
  | call r =>
      rw [clientStep] at hstep
      split_ifs at hstep
      obtain rfl := Option.some.inj hstep
      intro call hmem hclose
      obtain hmem | hmem := List.mem_append.mp hmem
      · exact hclosed call hmem hclose
      · obtain rfl := List.mem_singleton.mp hmem
        cases r with
        | closeSession h => exact hdisc.2
        | _ => cases hclose
  | run k o =>
      obtain ⟨call, hk, hstep⟩ := Option.bind_eq_some_iff.mp hstep
      obtain ⟨pc, hcalls, -, hlast⟩ := callStep_lastOpen hstep
      intro call' hmem hclose
      have hopened : s.memory.lastOpen call'.request.session ≠ none := by
        rw [hcalls] at hmem
        obtain hmem | rfl := List.mem_or_eq_of_mem_set hmem
        · exact hclosed call' hmem hclose
        · exact hclosed call (List.mem_of_getElem? hk) hclose
      obtain hsame | ⟨-, -, hnew⟩ := hlast call'.request.session
      · rw [hsame]
        exact hopened
      · exact hnew

theorem run_harmless_iff {clientFd : Nat → Int} {sessions : Nat → Session} {is : List ClientAction}
    (hdisc : Machine.Along clientStep Disciplined (.initial clientFd sessions) is) :
    Machine.Along clientStep HarmlessAfter (.initial clientFd sessions) is ↔
      Machine.Along clientStep NoOtherWithId (.initial clientFd sessions) is := by
  have hboth : Machine.Along clientStep (fun s a => Disciplined s a ∧ HarmlessAfter s a)
      (.initial clientFd sessions) is ↔
      Machine.Along clientStep (fun s a => Disciplined s a ∧ NoOtherWithId s a)
        (.initial clientFd sessions) is := by
    apply Machine.along_congr (fun s => RunInv s ∧ ClosesOpened s)
    · intro s a hinv
      exact and_congr_right fun _ => harmlessAfter_iff hinv.1 a
    · intro s a s' hinv hcond hstep
      refine ⟨hinv.1.clientStep_inv hcond.1 (fun k o ha => ?_) hstep, hinv.2.step hcond.1 hstep⟩
      subst ha
      exact hinv.1.ownSession hinv.2 ((harmlessAfter_iff hinv.1 _).mp hcond.2)
    · exact ⟨initial_runInv clientFd sessions, nofun⟩
  rw [Machine.along_and, Machine.along_and] at hboth
  constructor
  · exact fun h => (hboth.mp ⟨hdisc, h⟩).2
  · exact fun h => (hboth.mpr ⟨hdisc, h⟩).2

/-- The structure 1 is opened, the structure 2 fails to open, and `TEEC_CloseSession` of the structure
2 is about to look for its session. -/
def beforeClose : List ClientAction :=
  ([.call (.initializeContext 0)] : List ClientAction) ++
    (List.replicate 6 (.run 0 { fd := 3 }) : List ClientAction) ++
    ([.call (.openSession 0 1)] : List ClientAction) ++
    (List.replicate 8 (.run 1 { sessionId := 5 }) : List ClientAction) ++
    ([.call (.openSession 0 2)] : List ClientAction) ++
    (List.replicate 5 (.run 2 { ret := teecErrorBadParameters }) : List ClientAction) ++
    ([.call (.closeSession 2)] : List ClientAction) ++
    (List.replicate 3 (.run 3 {}) : List ClientAction)

/-- The structure 2 has an id that the driver has not given out, and the structure 1 stays open. -/
theorem zeroedStructure_harmless :
    ∃ s, Machine.exec clientStep (.initial (fun _ => -1) fun _ => ⟨0, none⟩)
        (beforeClose ++ [.run 3 {}]) = some s ∧ s.memory.sessionList 0 = [1] ∧
      Machine.Along clientStep HarmlessAfter (.initial (fun _ => -1) fun _ => ⟨0, none⟩)
        (beforeClose ++ [.run 3 {}]) := by
  have hdisc : Machine.Along clientStep Disciplined (.initial (fun _ => -1) fun _ => ⟨0, none⟩)
      (beforeClose ++ [.run 3 {}]) := by
    decide +kernel
  have hids : Machine.Along clientStep NoOtherWithId (.initial (fun _ => -1) fun _ => ⟨0, none⟩)
      (beforeClose ++ [.run 3 {}]) := by
    decide +kernel
  have hrun : (Machine.exec clientStep (.initial (fun _ => -1) fun _ => ⟨0, none⟩)
      (beforeClose ++ [.run 3 {}])).map (fun s => s.memory.sessionList 0) = some [1] := by
    decide +kernel
  obtain ⟨s, hexec, hlist⟩ := Option.map_eq_some_iff.mp hrun
  exact ⟨s, hexec, hlist, (run_harmless_iff hdisc).mpr hids⟩

/-- The structure 2 happens to have the id of the session of the structure 1, and the close takes that
session off the list. -/
theorem staleStructure_harmful :
    Machine.Along clientStep Disciplined (.initial (fun _ => -1) fun _ => ⟨5, none⟩)
        (beforeClose ++ [.run 3 {}]) ∧
      ¬ Machine.Along clientStep HarmlessAfter (.initial (fun _ => -1) fun _ => ⟨5, none⟩)
        (beforeClose ++ [.run 3 {}]) := by
  refine ⟨by decide +kernel, fun hall => ?_⟩
  have hrun : (Machine.exec clientStep (.initial (fun _ => -1) fun _ => ⟨5, none⟩) beforeClose).map
      (fun s => (s.calls[3]?, closesFailedOpen s.memory (.closeSession 2), s.memory.sessionList 0,
        (clientStep s (.run 3 {})).map fun s' => s'.memory.sessionList 0)) =
      some (some ⟨.closeSession 2, .finding 0⟩, true, [1], some []) := by
    decide +kernel
  obtain ⟨s, hexec, hstate⟩ := Option.map_eq_some_iff.mp hrun
  simp only [Prod.mk.injEq] at hstate
  obtain ⟨hcall, hfailed, hlist, hnext⟩ := hstate
  obtain ⟨s', hstep, hlist'⟩ := Option.map_eq_some_iff.mp hnext
  have hkept := (Machine.along_at hall hexec _ hcall hfailed rfl s' hstep).1 0 1
  rw [hlist, hlist'] at hkept
  exact absurd (hkept (List.mem_singleton_self 1) (by decide)) (by decide)

end ITrustee.Libteec
