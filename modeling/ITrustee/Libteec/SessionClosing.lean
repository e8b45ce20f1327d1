import Mathlib
import ITrustee.Libteec.StaleClose

/-!
# Every session is closed once

A client that opens only structures that are not open, and closes only structures whose open succeeded.
Each session that the driver has open then has one place: its structure is in the list of the context,
or in the hands of the one call that adds it to the list or closes it. When the final release has run,
there is no such place left.
-/

namespace ITrustee.Libteec

open RefCount

/-- The ids under which the driver has the structure open. -/
def SessionTable.liveOf (m : SessionTable) (h : Nat) : List UInt32 :=
  (m.live.filter fun l => l.owner == h).map LiveSession.sessionId

/-- A structure is opened only when it is not open and closed only when its open succeeded, and the
locks can be taken. -/
def Orderly (s : ClientState) (a : ClientAction) : Prop :=
  Disciplined s a ∧
    match a with
    | .call (.openSession _ h) => s.memory.liveOf h = []
    | .call (.closeSession h) => s.memory.lastOpen h = some teecSuccess
    | .call _ => True
    | .run _ o => o.locked = true

instance (s : ClientState) (a : ClientAction) : Decidable (Orderly s a) :=
  match a with
  | .call (.openSession c h) =>
      inferInstanceAs (Decidable (Disciplined s (.call (.openSession c h)) ∧ s.memory.liveOf h = []))
  | .call (.closeSession h) =>
      inferInstanceAs (Decidable (Disciplined s (.call (.closeSession h)) ∧
        s.memory.lastOpen h = some teecSuccess))
  | .call (.initializeContext _) | .call (.invokeCommand _) | .call (.allocateSharedMemory _)
  | .call (.releaseSharedMemory _) | .call (.finalizeContext _) =>
      inferInstanceAs (Decidable (Disciplined s _ ∧ True))
  | .run k o => inferInstanceAs (Decidable (Disciplined s (.run k o) ∧ o.locked = true))

/-- The requests to close a structure carry the ids that it was opened with, in the same order, and
come up to the last one at the latest when the final release has run. -/
structure ClosedOnce (s : ClientState) : Prop where
  closes : ∀ h, s.memory.opens h = s.memory.closes h ++ s.memory.liveOf h
  live_le : ∀ h, (s.memory.liveOf h).length ≤ 1
  finalized : ∀ id ∈ s.table.freed, ∀ h, s.memory.opens h = s.memory.closes h

/-! ### The places of a session -/

/-- The structure whose session is in the hands of the call. -/
def ClientCall.token (call : ClientCall) : Option Nat :=
  match call.pc with
  | .opened .. | .adding _ | .closing _ => some call.request.session
  | .releaseClosing _ h _ => some h
  | _ => none

/-- The driver has not opened the session of the call yet. -/
def CallPc.beforeOpen : CallPc → Bool
  | .start | .get _ | .counting .. | .checking _ | .opening .. => true
  | _ => false

/-- The loop of the final release is over. -/
def CallPc.emptied : CallPc → Bool
  | .releaseMemory .. | .releaseFd .. => true
  | _ => false

def tokens (calls : List ClientCall) (h : Nat) : Nat :=
  calls.countP fun call => call.token == some h

structure PlaceAt (s : ClientState) (call : ClientCall) : Prop where
  fresh : call.request.isOpen = true → call.pc.beforeOpen = true →
    s.memory.liveOf call.request.session = []
  last : call.request.isClose = true → call.pc.isReturned = false →
    s.memory.lastOpen call.request.session = some teecSuccess
  emptied : call.pc.emptied = true → s.memory.sessionList 0 = []

structure PlacesInv (s : ClientState) : Prop where
  closes : ∀ h, s.memory.opens h = s.memory.closes h ++ s.memory.liveOf h
  live_le : ∀ h, (s.memory.liveOf h).length ≤ 1
  places : ∀ h, (s.memory.liveOf h).length =
    (s.memory.sessionList 0).count h + tokens s.calls h
  callAt : ∀ (k : Nat) call, s.calls[k]? = some call → PlaceAt s call
  freed : 0 ∈ s.table.freed → s.memory.sessionList 0 = []

variable {s s' : ClientState} {t : ContextTable} {m : SessionTable} {call call' : ClientCall}
  {k j h g id : Nat} {pc : CallPc} {o : Outcome}

theorem liveOf_congr (hlive : m.live = s.memory.live) : m.liveOf h = s.memory.liveOf h := by
  rw [SessionTable.liveOf, hlive]
  rfl

theorem liveOf_snoc {m' : SessionTable} {l : LiveSession} (hlive : m'.live = m.live ++ [l]) (h : Nat) :
    m'.liveOf h = m.liveOf h ++ if l.owner = h then [l.sessionId] else [] := by
  rw [SessionTable.liveOf, SessionTable.liveOf, hlive, List.filter_append, List.map_append]
  by_cases hl : l.owner = h
  · simp [hl]
  · simp [hl]

theorem mem_liveOf {sessionId : UInt32} :
    sessionId ∈ m.liveOf h ↔ ∃ l ∈ m.live, l.owner = h ∧ l.sessionId = sessionId := by
  rw [SessionTable.liveOf, List.mem_map]
  refine exists_congr fun l => ?_
  rw [List.mem_filter, and_assoc, beq_iff_eq]

theorem tokens_set {calls : List ClientCall} (hk : calls[k]? = some call) (pc : CallPc) (h : Nat) :
    tokens (calls.set k { call with pc }) h + (call.token == some h).toNat =
      tokens calls h + (({ call with pc } : ClientCall).token == some h).toNat := by
  rw [tokens, tokens]
  exact countP_set_add (b := { call with pc }) (fun call => call.token == some h) hk

/-- A step of call `k` keeps every session in one place. -/
theorem PlacesInv.advance (hinv : PlacesInv s) (hrun : RunInv s) (hk : s.calls[k]? = some call)
    (hrunning : call.pc.isReturned = false) (hlast : m.lastOpen = s.memory.lastOpen)
    (hcloses : ∀ h, m.opens h = m.closes h ++ m.liveOf h)
    (hle : ∀ h, (m.liveOf h).length ≤ 1)
    (hplaces : ∀ h, (m.liveOf h).length + (s.memory.sessionList 0).count h +
      (call.token == some h).toNat = (s.memory.liveOf h).length + (m.sessionList 0).count h +
        (({ call with pc } : ClientCall).token == some h).toNat)
    (hfresh : ∀ h, s.memory.liveOf h = [] → m.liveOf h = [] ∨ call.runsOn h = true ∧
      pc.beforeOpen = false)
    (hbefore : call.request.isOpen = true → pc.beforeOpen = true → call.pc.beforeOpen = true)
    (hempty : s.memory.sessionList 0 = [] → m.sessionList 0 = [] ∨ ∃ id, call.pc.held = some id)
    (hemptied : pc.emptied = true → m.sessionList 0 = [])
    (hfreed : 0 ∈ t.freed → 0 ∈ s.table.freed ∨ m.sessionList 0 = []) :
    PlacesInv (s.advance k call t m pc) := by
  have hlt : k < s.calls.length := (List.getElem?_eq_some_iff.mp hk).1
  have hlive (h : Nat) : (s.advance k call t m pc).memory.liveOf h = m.liveOf h := by
    rw [SessionTable.liveOf, advance_live]
    rfl
  refine ⟨fun h => ?_, fun h => ?_, fun h => ?_, fun j call' hj => ?_, fun hmem => ?_⟩
  · rw [hlive, ClientState.advance, record_opens, record_closes]
    exact hcloses h
  · rw [hlive]
    exact hle h
  · have hset := tokens_set hk pc h
    have hold := hinv.places h
    have hmove := hplaces h
    rw [hlive, advance_sessionList]
    show (m.liveOf h).length =
      (m.sessionList 0).count h + tokens (s.calls.set k { call with pc }) h
    omega
  · by_cases hjk : j = k
    · subst hjk
      have hj' : (s.advance j call t m pc).calls[j]? = some { call with pc } :=
        List.getElem?_set_self hlt
      obtain rfl := Option.some.inj (hj'.symm.trans hj)
      have hat := hinv.callAt j call hk
      refine ⟨fun hopen hpc => ?_, fun hclose _ => ?_, fun hpc => ?_⟩
      · rw [hlive]
        obtain hnil | ⟨-, hnot⟩ := hfresh _ (hat.fresh hopen (hbefore hopen hpc))
        · exact hnil
        · rw [hpc] at hnot
          cases hnot
      · have hnot : ¬ (call.request.isOpen = true ∧
            call.request.uses call.request.session = true) := by
          intro hopen
          cases hr : call.request with
          | closeSession =>
              rw [hr] at hopen
              cases hopen.1
          | _ =>
              rw [hr] at hclose
              cases hclose
        have hsame := record_lastOpen_of_not m call.request pc hnot
        exact hsame.trans ((congrFun hlast _).trans (hat.last hclose hrunning))
      · rw [advance_sessionList]
        exact hemptied hpc
    · have hj' : s.calls[j]? = some call' := (List.getElem?_set_ne (Ne.symm hjk)).symm.trans hj
      have hat := hinv.callAt j call' hj'
      have hexcl (h : Nat) (hruns : call'.runsOn h = true) : call.runsOn h = false := by
        by_contra hnot
        rw [hrun.runsOn_exclusive hk hj' hjk (Bool.eq_true_of_not_eq_false hnot)] at hruns
        cases hruns
      refine ⟨fun hopen hpc => ?_, fun hclose hreturned => ?_, fun hpc => ?_⟩
      · have hruns : call'.runsOn call'.request.session = true := by
          rw [ClientCall.runsOn, uses_session (Or.inl hopen)]
          cases hpc' : call'.pc with
          | returned ret =>
              rw [hpc'] at hpc
              cases hpc
          | _ => rfl
        rw [hlive]
        obtain hnil | ⟨hruns', -⟩ := hfresh _ (hat.fresh hopen hpc)
        · exact hnil
        · rw [hexcl _ hruns] at hruns'
          cases hruns'
      · have hruns : call'.runsOn call'.request.session = true := by
          rw [ClientCall.runsOn, uses_session (Or.inr hclose), hreturned]
          rfl
        have hnot : ¬ (call.request.isOpen = true ∧
            call.request.uses call'.request.session = true) := by
          intro hopen
          have hruns' : call.runsOn call'.request.session = true := by
            rw [ClientCall.runsOn, hopen.2, hrunning]
            rfl
          rw [hexcl _ hruns] at hruns'
          cases hruns'
        have hsame := record_lastOpen_of_not m call.request pc hnot
        exact hsame.trans ((congrFun hlast _).trans (hat.last hclose hreturned))
      · rw [advance_sessionList]
        obtain hnil | ⟨id, hheld⟩ := hempty (hat.emptied hpc)
        · exact hnil
        · have hfin : ∃ id, call'.pc.finalizing = some id := by
            cases hpc' : call'.pc with
            | releaseMemory id ret | releaseFd id ret => exact ⟨id, rfl⟩
            | _ =>
                rw [hpc'] at hpc
                cases hpc
          obtain ⟨id', hfin⟩ := hfin
          exact absurd (hrun.released_of_finalizing hj' hfin) (hrun.not_released_of_held hk hheld)
  · rw [advance_sessionList]
    obtain hold | hnil := hfreed hmem
    · obtain hnil | ⟨id, hheld⟩ := hempty (hinv.freed hold)
      · exact hnil
      · obtain rfl := hrun.held_eq_zero hk hheld
        exact absurd hold ((hrun.contexts.callAt k call hk).held 0 hheld).2
    · exact hnil

/-- The lists, the driver and the requests are as they were. -/
structure SameSessions (m m' : SessionTable) : Prop where
  list : m'.sessionList = m.sessionList
  live : m'.live = m.live
  opens : m'.opens = m.opens
  closes : m'.closes = m.closes
  lastOpen : m'.lastOpen = m.lastOpen

theorem SameSessions.refl (m : SessionTable) : SameSessions m m := ⟨rfl, rfl, rfl, rfl, rfl⟩

theorem sameSessions_setSession (m : SessionTable) (h : Nat) (session : Session) :
    SameSessions m (m.setSession h session) := ⟨rfl, rfl, rfl, rfl, rfl⟩

theorem sameSessions_invokeStep (o : Outcome) (m : SessionTable) (r : Request) (c : Nat) :
    SameSessions m (invokeStep o m r c) := by
  cases r with
  | invokeCommand h =>
      rw [invokeStep]
      split_ifs
      · exact sameSessions_setSession ..
      · exact .refl _
  | _ => exact .refl _

theorem startStep_place (o : Outcome) (m : SessionTable) (r : Request) :
    SameSessions m (startStep o m r).1 ∧ (⟨r, (startStep o m r).2⟩ : ClientCall).token = none ∧
      (startStep o m r).2.emptied = false := by
  cases r with
  | openSession c h =>
      rw [startStep]
      split_ifs
      · exact ⟨.refl _, rfl, rfl⟩
      · exact ⟨sameSessions_setSession .., rfl, rfl⟩
  | closeSession h | invokeCommand h =>
      rw [startStep]
      split
      · exact ⟨.refl _, rfl, rfl⟩
      · split <;> exact ⟨.refl _, rfl, rfl⟩
  | _ =>
      rw [startStep]
      split_ifs <;> exact ⟨.refl _, rfl, rfl⟩

/-- What the call has in hand stays there. -/
structure SamePlace (s : ClientState) (call : ClientCall) (pc : CallPc) : Prop where
  token : ({ call with pc } : ClientCall).token = call.token
  before : call.request.isOpen = true → pc.beforeOpen = true → call.pc.beforeOpen = true
  emptied : pc.emptied = true → call.pc.emptied = true ∨ s.memory.sessionList 0 = []

/-- A point that is neither before the opening nor after the emptying of the list. -/
theorem SamePlace.away (htoken : ({ call with pc } : ClientCall).token = call.token)
    (hbefore : pc.beforeOpen = false) (hemptied : pc.emptied = false) : SamePlace s call pc := by
  refine ⟨htoken, fun _ h => ?_, fun h => ?_⟩
  · rw [hbefore] at h
    cases h
  · rw [hemptied] at h
    cases h

theorem PlacesInv.quiet (hinv : PlacesInv s) (hrun : RunInv s) (hk : s.calls[k]? = some call)
    (hrunning : call.pc.isReturned = false) (hsame : SameSessions s.memory m)
    (hplace : SamePlace s call pc)
    (hfreed : 0 ∈ t.freed → 0 ∈ s.table.freed ∨ call.pc.emptied = true) :
    PlacesInv (s.advance k call t m pc) := by
  have hlive (h : Nat) : m.liveOf h = s.memory.liveOf h := liveOf_congr hsame.live
  have hat := hinv.callAt k call hk
  refine hinv.advance hrun hk hrunning hsame.lastOpen (fun h => ?_) (fun h => ?_) (fun h => ?_)
    (fun h hnil => ?_) hplace.before (fun hnil => ?_) (fun hpc => ?_) fun hmem => ?_
  · rw [hsame.opens, hsame.closes, hlive]
    exact hinv.closes h
  · rw [hlive]
    exact hinv.live_le h
  · rw [hlive, hsame.list, hplace.token]
  · rw [hlive]
    exact Or.inl hnil
  · rw [hsame.list]
    exact Or.inl hnil
  · rw [hsame.list]
    obtain hpc | hnil := hplace.emptied hpc
    · exact hat.emptied hpc
    · exact hnil
  · rw [hsame.list]
    exact (hfreed hmem).imp_right hat.emptied

/-! ### The steps -/

theorem afterPut_place (r : Request) (ret : UInt32) :
    (⟨r, afterPut r ret⟩ : ClientCall).token = none ∧ (afterPut r ret).beforeOpen = false ∧
      (afterPut r ret).emptied = false := by
  cases r <;> exact ⟨rfl, rfl, rfl⟩

theorem samePlace_afterPut {ret : UInt32} (htoken : call.token = none) :
    SamePlace s call (afterPut call.request ret) := by
  obtain ⟨htoken', hbefore, hemptied⟩ := afterPut_place call.request ret
  exact .away (htoken'.trans htoken.symm) hbefore hemptied

theorem tableStep_samePlace (hlocked : o.locked = true) (hfits : call.pc.Fits call.request)
    (hstep : tableStep k o call.request s.table call.pc = some (t, pc)) :
    SamePlace s call pc ∧ (0 ∈ t.freed → 0 ∈ s.table.freed ∨ call.pc.emptied = true) := by
  have htoken : call.token = none := by
    rw [ClientCall.token]
    cases hpc : call.pc with
    | opened | adding | closing | releaseClosing =>
        rw [hpc] at hstep
        cases hstep
    | _ => rfl
  cases hpc : call.pc with
  | connect =>
      rw [hpc, tableStep, connectStep] at hstep
      split_ifs at hstep <;> obtain ⟨rfl, rfl⟩ := Prod.mk.inj (Option.some.inj hstep) <;>
        exact ⟨.away htoken.symm rfl rfl, Or.inl⟩
  | insert id =>
      rw [hpc, tableStep, insertStep, hlocked] at hstep
      simp only [Bool.not_true, Bool.false_eq_true, if_false] at hstep
      split_ifs at hstep
      obtain ⟨rfl, rfl⟩ := Prod.mk.inj (Option.some.inj hstep)
      rw [hpc] at hfits
      refine ⟨⟨htoken.symm, fun hopen _ => ?_, by rintro ⟨⟩⟩, Or.inl⟩
      rw [(initialize_not_open hfits).1] at hopen
      cases hopen
  | get c =>
      rw [hpc, tableStep, getBnContextStep] at hstep
      split_ifs at hstep
      · obtain ⟨rfl, rfl⟩ := Prod.mk.inj (Option.some.inj hstep)
        exact ⟨.away htoken.symm rfl rfl, Or.inl⟩
      · split at hstep <;> obtain ⟨rfl, rfl⟩ := Prod.mk.inj (Option.some.inj hstep)
        · exact ⟨.away htoken.symm rfl rfl, Or.inl⟩
        · exact ⟨⟨htoken.symm, fun _ _ => by rw [hpc]; rfl, by rintro ⟨⟩⟩, Or.inl⟩
  | counting c id =>
      rw [hpc] at hstep
      obtain ⟨rfl, rfl⟩ := Prod.mk.inj (Option.some.inj hstep)
      refine ⟨⟨?_, fun _ _ => by rw [hpc]; rfl, fun h => ?_⟩, Or.inl⟩
      · rw [htoken]
        cases call.request <;> rfl
      · cases hr : call.request <;> rw [hr] at h <;> cases h
  | handing | reset =>
      rw [hpc] at hstep
      obtain ⟨rfl, rfl⟩ := Prod.mk.inj (Option.some.inj hstep)
      exact ⟨.away htoken.symm rfl rfl, Or.inl⟩
  | put id ret =>
      rw [hpc, tableStep, putBnContextStep] at hstep
      split_ifs at hstep <;> obtain ⟨rfl, rfl⟩ := Prod.mk.inj (Option.some.inj hstep)
      · exact ⟨.away htoken.symm rfl rfl, Or.inl⟩
      · exact ⟨samePlace_afterPut htoken, Or.inl⟩
  | releaseFd id ret =>
      rw [hpc] at hstep
      obtain ⟨rfl, rfl⟩ := Prod.mk.inj (Option.some.inj hstep)
      exact ⟨samePlace_afterPut htoken, fun _ => Or.inr rfl⟩
  | remove c =>
      rw [hpc, tableStep, removeStep] at hstep
      split_ifs at hstep
      · obtain ⟨rfl, rfl⟩ := Prod.mk.inj (Option.some.inj hstep)
        exact ⟨.away htoken.symm rfl rfl, Or.inl⟩
      · split at hstep <;> obtain ⟨rfl, rfl⟩ := Prod.mk.inj (Option.some.inj hstep) <;>
          exact ⟨.away htoken.symm rfl rfl, Or.inl⟩
  | _ =>
      rw [hpc] at hstep
      cases hstep

/-- The reply that opens the session of a structure. -/
theorem PlacesInv.doOpenSessionStep_inv (hinv : PlacesInv s) (hrun : RunInv s)
    (hk : s.calls[k]? = some call) {i : Nat} (hpc : call.pc = .opening id i)
    (hstep : doOpenSessionStep o s.memory call.request.session id i = (m, pc)) :
    PlacesInv (s.advance k call s.table m pc) := by
  have hrunning : call.pc.isReturned = false := by rw [hpc]; rfl
  have htoken : call.token = none := by rw [ClientCall.token, hpc]
  have hfits := (hrun.sessions.callAt k call hk).fits
  rw [hpc] at hfits
  have hbefore : call.pc.beforeOpen = true := by rw [hpc]; rfl
  have hruns : call.runsOn call.request.session = true := by
    rw [ClientCall.runsOn, uses_session (Or.inl hfits), hpc]
    rfl
  have hnil := (hinv.callAt k call hk).fresh hfits hbefore
  rw [doOpenSessionStep] at hstep
  split_ifs at hstep with hretry hneg hpos hcode
  · obtain ⟨rfl, rfl⟩ := Prod.mk.inj hstep
    exact hinv.quiet hrun hk hrunning (.refl _) ⟨htoken.symm, fun _ _ => hbefore, by rintro ⟨⟩⟩ Or.inl
  · obtain ⟨rfl, rfl⟩ := Prod.mk.inj hstep
    exact hinv.quiet hrun hk hrunning (.refl _) (.away htoken.symm rfl rfl) Or.inl
  · obtain ⟨rfl, rfl⟩ := Prod.mk.inj hstep
    exact hinv.quiet hrun hk hrunning (.refl _) (.away htoken.symm rfl rfl) Or.inl
  · obtain ⟨rfl, rfl⟩ := Prod.mk.inj hstep
    exact hinv.quiet hrun hk hrunning (.refl _) (.away htoken.symm rfl rfl) Or.inl
  · obtain ⟨rfl, rfl⟩ := Prod.mk.inj hstep
    have hlive (g : Nat) : SessionTable.liveOf { s.memory with
        live := s.memory.live ++ [⟨id, o.sessionId, call.request.session⟩]
        opens := Function.update s.memory.opens call.request.session
          (s.memory.opens call.request.session ++ [o.sessionId]) } g =
        s.memory.liveOf g ++ if call.request.session = g then [o.sessionId] else [] :=
      liveOf_snoc (m := s.memory) (l := ⟨id, o.sessionId, call.request.session⟩) rfl g
    refine hinv.advance hrun hk hrunning rfl (fun g => ?_) (fun g => ?_) (fun g => ?_)
      (fun g hg => ?_) (by rintro _ ⟨⟩) Or.inl (by rintro ⟨⟩) Or.inl
    · rw [hlive]
      by_cases hg : call.request.session = g
      · subst hg
        rw [if_pos rfl, ← List.append_assoc, ← hinv.closes]
        exact Function.update_self ..
      · rw [if_neg hg, List.append_nil, ← hinv.closes]
        exact Function.update_of_ne (Ne.symm hg) ..
    · rw [hlive]
      by_cases hg : call.request.session = g
      · subst hg
        rw [if_pos rfl, hnil]
        exact le_rfl
      · rw [if_neg hg, List.append_nil]
        exact hinv.live_le g
    · rw [hlive, htoken]
      by_cases hg : call.request.session = g
      · subst hg
        rw [if_pos rfl, List.length_append]
        simp [ClientCall.token]
        omega
      · have hne : (some call.request.session == some g) = false :=
          beq_eq_false_iff_ne.mpr fun h => hg (Option.some.inj h)
        rw [if_neg hg, List.append_nil]
        simp [ClientCall.token, hne]
    · rw [hlive]
      by_cases hg' : call.request.session = g
      · subst hg'
        exact Or.inr ⟨hruns, rfl⟩
      · rw [if_neg hg', List.append_nil]
        exact Or.inl hg

theorem PlacesInv.addSessionListStep_inv (hinv : PlacesInv s) (hrun : RunInv s)
    (hk : s.calls[k]? = some call) (hlocked : o.locked = true) (hpc : call.pc = .adding id)
    (hstep : addSessionListStep o s.memory call.request.session id = (m, pc)) :
    PlacesInv (s.advance k call s.table m pc) := by
  have hrunning : call.pc.isReturned = false := by rw [hpc]; rfl
  have htoken : call.token = some call.request.session := by rw [ClientCall.token, hpc]
  have hheld : call.pc.held = some id := by rw [hpc]; rfl
  obtain rfl := hrun.held_eq_zero hk hheld
  have hunlisted : call.request.session ∉ s.memory.sessionList 0 := by
    intro hmem
    have hcount := List.count_pos_iff.mpr hmem
    have hpos : 0 < tokens s.calls call.request.session := List.countP_pos_iff.mpr
      ⟨call, List.mem_of_getElem? hk, beq_iff_eq.mpr htoken⟩
    have hplaces := hinv.places call.request.session
    have hle := hinv.live_le call.request.session
    omega
  rw [addSessionListStep, hlocked] at hstep
  obtain ⟨rfl, rfl⟩ := Prod.mk.inj hstep
  refine hinv.advance hrun hk hrunning rfl hinv.closes hinv.live_le (fun g => ?_)
    (fun g hg => Or.inl hg) (by rintro _ ⟨⟩) (fun _ => Or.inr ⟨0, hheld⟩) (by rintro ⟨⟩) Or.inl
  have hlive : SessionTable.liveOf (s.memory.setList 0 (((s.memory.sessionList 0).filter
      (· ≠ call.request.session)).concat call.request.session)) g = s.memory.liveOf g := rfl
  rw [hlive, setList_self, List.concat_eq_append, List.count_append, htoken]
  by_cases hg : call.request.session = g
  · subst hg
    have hzero : ((s.memory.sessionList 0).filter (· ≠ call.request.session)).count
        call.request.session = 0 := List.count_eq_zero.mpr fun hmem =>
      hunlisted (List.mem_filter.mp hmem).1
    rw [hzero, List.count_eq_zero.mpr hunlisted]
    simp [ClientCall.token]
  · have hne : (some call.request.session == some g) = false :=
      beq_eq_false_iff_ne.mpr fun h => hg (Option.some.inj h)
    rw [List.count_filter (by simpa using Ne.symm hg), List.count_singleton, hne]
    simp [ClientCall.token, hg]

theorem PlacesInv.findAndRemoveSessionStep_inv (hinv : PlacesInv s) (hrun : RunInv s)
    (hk : s.calls[k]? = some call) (hpc : call.pc = .finding id)
    (hown : ∀ g, findBnSession s.memory call.request.session id = some g →
      g = call.request.session)
    (hstep : findAndRemoveSessionStep o s.memory call.request.session id = (m, pc)) :
    PlacesInv (s.advance k call s.table m pc) := by
  have hrunning : call.pc.isReturned = false := by rw [hpc]; rfl
  have htoken : call.token = none := by rw [ClientCall.token, hpc]
  have hheld : call.pc.held = some id := by rw [hpc]; rfl
  obtain rfl := hrun.held_eq_zero hk hheld
  have hquiet : PlacesInv (s.advance k call s.table s.memory (.put 0 teecSuccess)) :=
    hinv.quiet hrun hk hrunning (.refl _) (.away htoken.symm rfl rfl) Or.inl
  rw [findAndRemoveSessionStep] at hstep
  split_ifs at hstep
  · obtain ⟨rfl, rfl⟩ := Prod.mk.inj hstep
    exact hquiet
  · cases hfind : findBnSession s.memory call.request.session 0 with
    | none =>
        rw [hfind] at hstep
        obtain ⟨rfl, rfl⟩ := Prod.mk.inj hstep
        exact hquiet
    | some g =>
        rw [hfind] at hstep
        obtain ⟨rfl, rfl⟩ := Prod.mk.inj hstep
        obtain rfl := hown g hfind
        have hlisted := (findBnSession_spec hfind).1
        refine hinv.advance hrun hk hrunning rfl hinv.closes hinv.live_le (fun g => ?_)
          (fun g hg => Or.inl hg) (by rintro _ ⟨⟩) (fun _ => Or.inr ⟨0, hheld⟩) (by rintro ⟨⟩) Or.inl
        have hlive : SessionTable.liveOf (s.memory.setList 0
            ((s.memory.sessionList 0).erase call.request.session)) g = s.memory.liveOf g := rfl
        rw [hlive, setList_self, htoken]
        by_cases hg : call.request.session = g
        · subst hg
          have hpos := List.count_pos_iff.mpr hlisted
          rw [List.count_erase_self]
          simp [ClientCall.token]
          omega
        · have hne : (some call.request.session == some g) = false :=
            beq_eq_false_iff_ne.mpr fun h => hg (Option.some.inj h)
          rw [List.count_erase_of_ne (Ne.symm hg)]
          simp [ClientCall.token, hne]

theorem liveOf_closeRequest_of_ne (hlists : ListInv m) (hh : m.entry h ∈ m.live) (hg : g ≠ h) :
    (closeRequest m h 0).liveOf g = m.liveOf g := by
  rw [SessionTable.liveOf, SessionTable.liveOf, closeRequest, List.filter_filter]
  refine congrArg _ (List.filter_congr fun l hl => ?_)
  by_cases howner : l.owner = g
  · have hne : ¬ (l.context = 0 ∧ l.sessionId = (m.sessions h).sessionId) := by
      intro hid
      have heq : l = m.entry h := List.inj_on_of_nodup_map hlists.live_nodup hl hh hid.2
      rw [heq] at howner
      exact hg howner.symm
    rw [decide_eq_true hne, Bool.and_true]
  · rw [beq_eq_false_iff_ne.mpr howner, Bool.false_and]

/-- The only session of a structure is the one under the id that is in it. -/
theorem liveOf_eq_singleton (hh : m.entry h ∈ m.live) (hle : (m.liveOf h).length ≤ 1) :
    m.liveOf h = [(m.sessions h).sessionId] := by
  have hmem : (m.sessions h).sessionId ∈ m.liveOf h := mem_liveOf.mpr ⟨_, hh, rfl, rfl⟩
  cases hlive : m.liveOf h with
  | nil =>
      rw [hlive] at hmem
      cases hmem
  | cons sessionId rest =>
      rw [hlive, List.length_cons] at hle
      obtain rfl := List.length_eq_zero_iff.mp (Nat.le_zero.mp (Nat.le_of_succ_le_succ hle))
      rw [hlive, List.mem_singleton] at hmem
      rw [hmem]

theorem liveOf_closeRequest_self (hlists : ListInv m) (hh : m.entry h ∈ m.live)
    (hle : (m.liveOf h).length ≤ 1) : (closeRequest m h 0).liveOf h = [] := by
  have hlive := liveOf_eq_singleton hh hle
  rw [List.eq_nil_iff_forall_not_mem]
  intro sessionId hmem
  obtain ⟨l, hl, howner, hid⟩ := mem_liveOf.mp hmem
  obtain ⟨hl, hkept⟩ := List.mem_filter.mp hl
  have hsame : sessionId = (m.sessions h).sessionId := by
    have hmem' : sessionId ∈ m.liveOf h := mem_liveOf.mpr ⟨l, hl, howner, hid⟩
    rw [hlive] at hmem'
    exact List.mem_singleton.mp hmem'
  exact absurd ⟨hlists.live_context l hl, hid.trans hsame⟩ (of_decide_eq_true hkept)

/-- The request to close the session that the call has in hand. -/
theorem PlacesInv.closeRequest_inv (hinv : PlacesInv s) (hrun : RunInv s)
    (hk : s.calls[k]? = some call) (hrunning : call.pc.isReturned = false)
    (hcarries : call.carries = some h) (htoken : call.token = some h)
    (htoken' : ({ call with pc } : ClientCall).token = none) (hbefore : pc.beforeOpen = false)
    (hemptied : pc.emptied = false) :
    PlacesInv (s.advance k call s.table (closeRequest s.memory h 0) pc) := by
  have hentry := (hrun.sessions.callAt k call hk).carried h hcarries
  have hself := liveOf_eq_singleton hentry (hinv.live_le h)
  have hclosed := liveOf_closeRequest_self hrun.sessions.lists hentry (hinv.live_le h)
  have hother (g : Nat) (hg : g ≠ h) := liveOf_closeRequest_of_ne hrun.sessions.lists hentry hg
  refine hinv.advance hrun hk hrunning rfl (fun g => ?_) (fun g => ?_) (fun g => ?_)
    (fun g hg => ?_) (by simp [hbefore]) Or.inl (by simp [hemptied]) Or.inl
  · by_cases hg : g = h
    · subst hg
      have hcloses : (closeRequest s.memory g 0).closes g =
          s.memory.closes g ++ [(s.memory.sessions g).sessionId] := Function.update_self ..
      rw [hclosed, List.append_nil, hcloses, ← hself]
      exact hinv.closes g
    · have hcloses : (closeRequest s.memory h 0).closes g = s.memory.closes g :=
        Function.update_of_ne hg ..
      rw [hother g hg, hcloses]
      exact hinv.closes g
  · by_cases hg : g = h
    · rw [hg, hclosed]
      exact Nat.zero_le 1
    · rw [hother g hg]
      exact hinv.live_le g
  · rw [closeRequest_sessionList, htoken, htoken']
    by_cases hg : g = h
    · subst hg
      rw [hclosed, hself]
      simp
      omega
    · have hne : (some h == some g) = false :=
        beq_eq_false_iff_ne.mpr fun heq => hg (Option.some.inj heq).symm
      rw [hother g hg, hne]
      rfl
  · by_cases hg' : g = h
    · rw [hg']
      exact Or.inl hclosed
    · rw [hother g hg']
      exact Or.inl hg

theorem PlacesInv.releaseNextStep_inv (hinv : PlacesInv s) (hrun : RunInv s)
    (hk : s.calls[k]? = some call) {ret : UInt32} (hpc : call.pc = .releaseNext id ret)
    (hstep : releaseNextStep s.memory id ret = (m, pc)) :
    PlacesInv (s.advance k call s.table m pc) := by
  have hrunning : call.pc.isReturned = false := by rw [hpc]; rfl
  have htoken : call.token = none := by rw [ClientCall.token, hpc]
  have hfin : call.pc.finalizing = some id := by rw [hpc]; rfl
  obtain rfl := hrun.finalizing_eq_zero hk hfin
  rw [releaseNextStep] at hstep
  cases hlist : s.memory.sessionList 0 with
  | nil =>
      rw [hlist] at hstep
      obtain ⟨rfl, rfl⟩ := Prod.mk.inj hstep
      exact hinv.quiet hrun hk hrunning (.refl _)
        ⟨htoken.symm, by rintro _ ⟨⟩, fun _ => Or.inr hlist⟩ Or.inl
  | cons h rest =>
      rw [hlist] at hstep
      obtain ⟨rfl, rfl⟩ := Prod.mk.inj hstep
      refine hinv.advance hrun hk hrunning rfl hinv.closes hinv.live_le (fun g => ?_)
        (fun g hg => Or.inl hg) (by rintro _ ⟨⟩) (fun hnil => ?_) (by rintro ⟨⟩) Or.inl
      · have hlive : SessionTable.liveOf (s.memory.setList 0 rest) g = s.memory.liveOf g := rfl
        rw [hlive, setList_self, htoken, hlist, List.count_cons]
        by_cases hg : h = g
        · subst hg
          simp [ClientCall.token]
          omega
        · have hne : (some h == some g) = false :=
            beq_eq_false_iff_ne.mpr fun heq => hg (Option.some.inj heq)
          simp [ClientCall.token, hne, hg]
      · rw [hlist] at hnil
        cases hnil

theorem PlacesInv.memoryStep_inv (hinv : PlacesInv s) (hrun : RunInv s)
    (hk : s.calls[k]? = some call) (hlocked : o.locked = true) (hown : OwnSession s k o)
    (hstep : memoryStep o call.request s.memory call.pc = some (m, pc)) :
    PlacesInv (s.advance k call s.table m pc) := by
  have hrunning := (memoryStep_quiet hstep).1
  cases hpc : call.pc with
  | start =>
      have hstart : startStep o s.memory call.request = (m, pc) := by
        rw [hpc] at hstep
        exact Option.some.inj hstep
      obtain ⟨hsame, htoken, hemptied⟩ := startStep_place o s.memory call.request
      rw [hstart] at hsame htoken hemptied
      refine hinv.quiet hrun hk hrunning hsame ⟨?_, fun _ _ => by rw [hpc]; rfl, fun h => ?_⟩ Or.inl
      · exact htoken.trans (by rw [ClientCall.token, hpc])
      · rw [hemptied] at h
        cases h
  | working c id =>
      rw [hpc] at hstep
      obtain ⟨rfl, rfl⟩ := Prod.mk.inj (Option.some.inj hstep)
      exact hinv.quiet hrun hk hrunning (sameSessions_invokeStep ..)
        (.away (by rw [ClientCall.token, ClientCall.token, hpc]) rfl rfl) Or.inl
  | checking id =>
      rw [hpc] at hstep
      obtain ⟨rfl, rfl⟩ := Prod.mk.inj (Option.some.inj hstep)
      have htoken : call.token = none := by rw [ClientCall.token, hpc]
      split_ifs
      · exact hinv.quiet hrun hk hrunning (.refl _) (.away htoken.symm rfl rfl) Or.inl
      · exact hinv.quiet hrun hk hrunning (.refl _)
          ⟨htoken.symm, fun _ _ => by rw [hpc]; rfl, by rintro ⟨⟩⟩ Or.inl
  | opening id i =>
      rw [hpc] at hstep
      exact hinv.doOpenSessionStep_inv hrun hk hpc (Option.some.inj hstep)
  | opened id sessionId =>
      rw [hpc] at hstep
      obtain ⟨rfl, rfl⟩ := Prod.mk.inj (Option.some.inj hstep)
      exact hinv.quiet hrun hk hrunning (sameSessions_setSession ..)
        (.away (by rw [ClientCall.token, ClientCall.token, hpc]) rfl rfl) Or.inl
  | adding id =>
      rw [hpc] at hstep
      exact hinv.addSessionListStep_inv hrun hk hlocked hpc (Option.some.inj hstep)
  | finding id =>
      rw [hpc] at hstep
      exact hinv.findAndRemoveSessionStep_inv hrun hk hpc (hown call hk id hpc hlocked)
        (Option.some.inj hstep)
  | closing id =>
      rw [hpc] at hstep
      obtain ⟨rfl, rfl⟩ := Prod.mk.inj (Option.some.inj hstep)
      obtain rfl := hrun.held_eq_zero hk (by rw [hpc]; rfl : call.pc.held = some id)
      exact hinv.closeRequest_inv hrun hk hrunning (by rw [ClientCall.carries, hpc])
        (by rw [ClientCall.token, hpc]) rfl rfl rfl
  | wiping id =>
      rw [hpc] at hstep
      obtain ⟨rfl, rfl⟩ := Prod.mk.inj (Option.some.inj hstep)
      exact hinv.quiet hrun hk hrunning (sameSessions_setSession ..)
        (.away (by rw [ClientCall.token, ClientCall.token, hpc]) rfl rfl) Or.inl
  | releasing id ret =>
      rw [hpc, memoryStep, hlocked] at hstep
      obtain ⟨rfl, rfl⟩ := Prod.mk.inj (Option.some.inj hstep)
      exact hinv.quiet hrun hk hrunning (.refl _)
        (.away (by rw [ClientCall.token, ClientCall.token, hpc]; rfl) rfl rfl) Or.inl
  | releaseNext id ret =>
      rw [hpc] at hstep
      exact hinv.releaseNextStep_inv hrun hk hpc (Option.some.inj hstep)
  | releaseClosing id h ret =>
      rw [hpc] at hstep
      obtain ⟨rfl, rfl⟩ := Prod.mk.inj (Option.some.inj hstep)
      obtain rfl := hrun.finalizing_eq_zero hk (by rw [hpc]; rfl : call.pc.finalizing = some id)
      exact hinv.closeRequest_inv hrun hk hrunning (by rw [ClientCall.carries, hpc])
        (by rw [ClientCall.token, hpc]) rfl rfl rfl
  | releaseWiping id h ret =>
      rw [hpc] at hstep
      obtain ⟨rfl, rfl⟩ := Prod.mk.inj (Option.some.inj hstep)
      exact hinv.quiet hrun hk hrunning (sameSessions_setSession ..)
        (.away (by rw [ClientCall.token, ClientCall.token, hpc]) rfl rfl) Or.inl
  | releaseMemory id ret =>
      rw [hpc, memoryStep, hlocked] at hstep
      obtain ⟨rfl, rfl⟩ := Prod.mk.inj (Option.some.inj hstep)
      exact hinv.quiet hrun hk hrunning (.refl _)
        ⟨by rw [ClientCall.token, ClientCall.token, hpc]; rfl, by rintro _ ⟨⟩,
          fun _ => Or.inl (by rw [hpc]; rfl)⟩ Or.inl
  | _ =>
      rw [hpc] at hstep
      cases hstep

/-! ### Runs -/

theorem PlacesInv.begin_inv (hinv : PlacesInv s) {r : Request} (hord : Orderly s (.call r)) :
    PlacesInv { s with calls := s.calls ++ [⟨r, .start⟩] } := by
  refine ⟨hinv.closes, hinv.live_le, fun h => ?_, fun j call hj => ?_, hinv.freed⟩
  · rw [tokens, List.countP_append]
    exact hinv.places h
  · rw [List.getElem?_append] at hj
    split_ifs at hj
    · have hat := hinv.callAt j call hj
      exact ⟨hat.fresh, hat.last, hat.emptied⟩
    · obtain rfl := List.mem_singleton.mp (List.mem_of_getElem? hj)
      refine ⟨fun hopen _ => ?_, fun hclose _ => ?_, nofun⟩
      · cases r with
        | openSession c h => exact hord.2
        | _ => cases hopen
      · cases r with
        | closeSession h => exact hord.2
        | _ => cases hclose

theorem PlacesInv.ownSession (hinv : PlacesInv s) (hrun : RunInv s) (k : Nat) (o : Outcome) :
    OwnSession s k o := by
  intro call hk id hpc _ g hfind
  have hfits := (hrun.sessions.callAt k call hk).fits
  rw [hpc] at hfits
  exact hrun.found_of_opened hk hpc ((hinv.callAt k call hk).last hfits (by rw [hpc]; rfl)) hfind

theorem PlacesInv.clientStep_inv {a : ClientAction} (hinv : PlacesInv s) (hrun : RunInv s)
    (hord : Orderly s a) (hstep : clientStep s a = some s') : RunInv s' ∧ PlacesInv s' := by
  refine ⟨hrun.clientStep_inv hord.1 (fun k o _ => hinv.ownSession hrun k o) hstep, ?_⟩
  cases a with
  | call r =>
      rw [clientStep] at hstep
      split_ifs at hstep
      obtain rfl := Option.some.inj hstep
      exact hinv.begin_inv hord
  | run k o =>
      obtain ⟨call, hk, hstep⟩ := Option.bind_eq_some_iff.mp hstep
      have hat := hrun.sessions.callAt k call hk
      rw [callStep] at hstep
      split_ifs at hstep with htable
      · obtain ⟨⟨t, pc⟩, htstep, rfl⟩ := Option.map_eq_some_iff.mp hstep
        obtain ⟨hplace, hfreed⟩ := tableStep_samePlace hord.2 hat.fits htstep
        refine hinv.quiet hrun hk ?_ (.refl _) hplace hfreed
        cases hpc : call.pc with
        | returned ret =>
            rw [hpc] at htable
            cases htable
        | _ => rfl
      · obtain ⟨⟨m, pc⟩, hmstep, rfl⟩ := Option.map_eq_some_iff.mp hstep
        exact hinv.memoryStep_inv hrun hk hord.2 (hinv.ownSession hrun k o) hmstep

theorem PlacesInv.closedOnce (hinv : PlacesInv s) (hrun : RunInv s) : ClosedOnce s := by
  refine ⟨hinv.closes, hinv.live_le, fun id hfreed h => ?_⟩
  obtain rfl : id = 0 := by
    have hlt := hrun.contexts.table.freed id hfreed
    have hle := hrun.single.next_le
    omega
  have htokens : tokens s.calls h = 0 := by
    rw [tokens, List.countP_eq_zero]
    intro call hmem htoken
    obtain ⟨j, hj⟩ := List.mem_iff_getElem?.mp hmem
    have hat := hrun.contexts.callAt j call hj
    have hused : (∃ id, call.pc.held = some id) ∨ ∃ id, call.pc.finalizing = some id := by
      rw [ClientCall.token] at htoken
      cases hpc : call.pc with
      | opened id _ | adding id | closing id => exact Or.inl ⟨id, rfl⟩
      | releaseClosing id _ _ => exact Or.inr ⟨id, rfl⟩
      | _ =>
          rw [hpc] at htoken
          cases htoken
    obtain ⟨id, hheld⟩ | ⟨id, hfin⟩ := hused
    · obtain rfl := hrun.held_eq_zero hj hheld
      exact (hat.held 0 hheld).2 hfreed
    · obtain rfl := hrun.finalizing_eq_zero hj hfin
      exact (hat.finalizing 0 hfin).2.2 hfreed
  have hplaces := hinv.places h
  rw [hinv.freed hfreed, htokens] at hplaces
  have hcloses := hinv.closes h
  rw [List.length_eq_zero_iff.mp hplaces, List.append_nil] at hcloses
  exact hcloses

theorem run_closedOnce {clientFd : Nat → Int} {sessions : Nat → Session} {is : List ClientAction}
    (hord : Machine.Along clientStep Orderly (.initial clientFd sessions) is)
    (hexec : Machine.exec clientStep (.initial clientFd sessions) is = some s) : ClosedOnce s := by
  have hinv : RunInv s ∧ PlacesInv s := by
    refine Machine.exec_invariant_along (fun s => RunInv s ∧ PlacesInv s)
      (fun s a s' h hord hstep => h.2.clientStep_inv h.1 hord hstep) ?_ hord hexec
    exact ⟨initial_runInv clientFd sessions, fun _ => rfl, fun _ => Nat.zero_le 1, fun _ => rfl,
      nofun, nofun⟩
  exact hinv.2.closedOnce hinv.1

/-- The structure 1 is opened and closed. The context is finalized while the driver opens the structure
2, and the call that opened it runs the final release. -/
def finalizeWhileOpening : List ClientAction :=
  ([.call (.initializeContext 0)] : List ClientAction) ++
    (List.replicate 6 (.run 0 { fd := 3 }) : List ClientAction) ++
    ([.call (.openSession 0 1)] : List ClientAction) ++
    (List.replicate 8 (.run 1 { sessionId := 5 }) : List ClientAction) ++
    ([.call (.openSession 0 2)] : List ClientAction) ++
    (List.replicate 4 (.run 2 {}) : List ClientAction) ++
    ([.call (.closeSession 1)] : List ClientAction) ++
    (List.replicate 7 (.run 3 {}) : List ClientAction) ++
    ([.call (.finalizeContext 0)] : List ClientAction) ++
    (List.replicate 4 (.run 4 {}) : List ClientAction) ++
    (List.replicate 11 (.run 2 { sessionId := 6 }) : List ClientAction)

theorem finalizeWhileOpening_closedOnce :
    ∃ s, Machine.exec clientStep (.initial (fun _ => -1) fun _ => ⟨9, none⟩) finalizeWhileOpening =
        some s ∧ s.table.freed = [0] ∧ s.memory.closes 1 = [5] ∧ s.memory.closes 2 = [6] ∧
      ClosedOnce s := by
  have hord : Machine.Along clientStep Orderly (.initial (fun _ => -1) fun _ => ⟨9, none⟩)
      finalizeWhileOpening := by
    decide +kernel
  have hrun : (Machine.exec clientStep (.initial (fun _ => -1) fun _ => ⟨9, none⟩)
      finalizeWhileOpening).map (fun s => (s.table.freed, s.memory.closes 1, s.memory.closes 2)) =
        some ([0], [5], [6]) := by
    decide +kernel
  obtain ⟨s, hexec, hstate⟩ := Option.map_eq_some_iff.mp hrun
  simp only [Prod.mk.injEq] at hstate
  exact ⟨s, hexec, hstate.1, hstate.2.1, hstate.2.2, run_closedOnce hord hexec⟩

end ITrustee.Libteec
