import Mathlib
import ITrustee.Libteec.ContextRefs

/-!
# The session list of a context

Runs of the calls on one context, by a client that does not run two calls on one session at a time and
closes a structure only after it was given to `TEEC_OpenSession`, with a driver whose session ids are
distinct among the open sessions of the context. A session in the list is then open in the driver under
the id in its structure, as long as `TEEC_CloseSession` takes no other structure than its own off the
list.
-/

namespace ITrustee.Libteec

open RefCount

/-! ### The client and the driver -/

/-- The call is one on the structure `h`. -/
def Request.uses (h : Nat) : Request → Bool
  | .openSession _ g | .closeSession g | .invokeCommand g => g == h
  | _ => false

def Request.isOpen : Request → Bool
  | .openSession .. => true
  | _ => false

def Request.isClose : Request → Bool
  | .closeSession _ => true
  | _ => false

def Request.isInitialize : Request → Bool
  | .initializeContext _ => true
  | _ => false

def Request.isFinalize : Request → Bool
  | .finalizeContext _ => true
  | _ => false

/-- The call runs on the structure `h`. -/
def ClientCall.runsOn (h : Nat) (call : ClientCall) : Bool :=
  call.request.uses h && !call.pc.isReturned

/-- An id that the driver returns is not that of a session open in the same context. -/
def freshReply (m : SessionTable) (o : Outcome) : CallPc → Prop
  | .opening id _ => o.ioctlRet = 0 → ∀ l ∈ m.live, l.context = id → l.sessionId ≠ o.sessionId
  | _ => True

/-- The calls are on one context, no two of them at once on the same structure, and a structure is
closed only after it was given to `TEEC_OpenSession`. -/
def Disciplined (s : ClientState) : ClientAction → Prop
  | .call (.initializeContext _) => s.calls = []
  | .call (.openSession _ h) | .call (.invokeCommand h) => ∀ call ∈ s.calls, call.runsOn h = false
  | .call (.closeSession h) =>
      (∀ call ∈ s.calls, call.runsOn h = false) ∧ s.memory.lastOpen h ≠ none
  | .call _ => True
  | .run k o => ∀ call ∈ s.calls[k]?, freshReply s.memory o call.pc

/-! ### Updates of the sessions -/

section Update

variable (m : SessionTable) (h g id : Nat) (session : Session) (list : List Nat)

@[simp] theorem setSession_self : (m.setSession h session).sessions h = session :=
  Function.update_self ..

theorem setSession_of_ne (hg : g ≠ h) : (m.setSession h session).sessions g = m.sessions g :=
  Function.update_of_ne hg ..

@[simp] theorem setSession_sessionList : (m.setSession h session).sessionList = m.sessionList := rfl

@[simp] theorem setSession_live : (m.setSession h session).live = m.live := rfl

@[simp] theorem setSession_lastOpen : (m.setSession h session).lastOpen = m.lastOpen := rfl

@[simp] theorem setList_self : (m.setList id list).sessionList id = list := Function.update_self ..

theorem setList_of_ne (hg : g ≠ id) : (m.setList id list).sessionList g = m.sessionList g :=
  Function.update_of_ne hg ..

@[simp] theorem setList_live : (m.setList id list).live = m.live := rfl

end Update

/-! ### What is recorded -/

section Record

variable (m : SessionTable) (r : Request) (pc : CallPc)

theorem record_eq : ∃ lastOpen, m.record r pc = { m with lastOpen } := by
  cases pc with
  | returned ret => cases r <;> exact ⟨_, rfl⟩
  | _ => exact ⟨_, rfl⟩

@[simp] theorem record_sessions : (m.record r pc).sessions = m.sessions := by
  obtain ⟨_, h⟩ := record_eq m r pc
  rw [h]

@[simp] theorem record_sessionList : (m.record r pc).sessionList = m.sessionList := by
  obtain ⟨_, h⟩ := record_eq m r pc
  rw [h]

@[simp] theorem record_live : (m.record r pc).live = m.live := by
  obtain ⟨_, h⟩ := record_eq m r pc
  rw [h]

@[simp] theorem record_opens : (m.record r pc).opens = m.opens := by
  obtain ⟨_, h⟩ := record_eq m r pc
  rw [h]

@[simp] theorem record_closes : (m.record r pc).closes = m.closes := by
  obtain ⟨_, h⟩ := record_eq m r pc
  rw [h]

variable (s : ClientState) (k : Nat) (call : ClientCall) (t : ContextTable)

@[simp] theorem advance_sessions : (s.advance k call t m pc).memory.sessions = m.sessions :=
  record_sessions ..

@[simp] theorem advance_sessionList :
    (s.advance k call t m pc).memory.sessionList = m.sessionList :=
  record_sessionList ..

@[simp] theorem advance_live : (s.advance k call t m pc).memory.live = m.live := record_live ..

theorem record_lastOpen_of_not {h : Nat} (hnot : ¬ (r.isOpen = true ∧ r.uses h = true)) :
    (m.record r pc).lastOpen h = m.lastOpen h := by
  cases pc with
  | returned ret =>
      cases r with
      | openSession c g =>
          have hne : h ≠ g := fun heq => hnot ⟨rfl, beq_iff_eq.mpr heq.symm⟩
          exact Function.update_of_ne hne ..
      | _ => rfl
  | _ => rfl

theorem record_lastOpen_returned {h : Nat} (hopen : r.isOpen = true) (huses : r.uses h = true)
    (ret : UInt32) : (m.record r (.returned ret)).lastOpen h = some ret := by
  cases r with
  | openSession c g =>
      obtain rfl : g = h := beq_iff_eq.mp huses
      exact Function.update_self ..
  | _ => cases hopen

end Record

/-! ### The invariant -/

/-- The pcs that only some calls reach. -/
def CallPc.Fits (r : Request) : CallPc → Prop
  | .checking _ | .opening .. | .opened .. | .adding _ => r.isOpen = true
  | .finding _ | .closing _ | .wiping _ => r.isClose = true
  | .remove _ | .reset _ => r.isFinalize = true
  | .connect | .insert _ | .handing .. => r.isInitialize = true
  | .working .. => r.isOpen = false ∧ r.isClose = false
  | _ => True

/-- The structure whose session the call adds to the list or closes. -/
def ClientCall.touches (call : ClientCall) : Option Nat :=
  match call.pc with
  | .opened .. | .adding _ | .closing _ | .wiping _ => some call.request.session
  | .releaseClosing _ h _ | .releaseWiping _ h _ => some h
  | _ => none

/-- The structure that the call has taken off the list. -/
def ClientCall.takes (call : ClientCall) : Option Nat :=
  match call.pc with
  | .closing _ | .wiping _ => some call.request.session
  | .releaseClosing _ h _ | .releaseWiping _ h _ => some h
  | _ => none

/-- The structure that the call has to list or to close under the id that is in it. -/
def ClientCall.carries (call : ClientCall) : Option Nat :=
  match call.pc with
  | .adding _ | .closing _ => some call.request.session
  | .releaseClosing _ h _ => some h
  | _ => none

/-- What the call will return. -/
def CallPc.result : CallPc → Option UInt32
  | .put _ ret | .releasing _ ret | .releaseNext _ ret | .releaseClosing _ _ ret
  | .releaseWiping _ _ ret | .releaseMemory _ ret | .releaseFd _ ret => some ret
  | _ => none

/-- The call has read the context of its structure and not yet used it. -/
def CallPc.reads : CallPc → Bool
  | .get _ | .counting .. | .working .. | .finding _ => true
  | _ => false

/-- The session of the structure `h`, as the driver knows it. -/
def SessionTable.entry (m : SessionTable) (h : Nat) : LiveSession :=
  ⟨0, (m.sessions h).sessionId, h⟩

/-- A structure that was opened is in the list, or it is cleared or about to be. -/
def Good (s : ClientState) (h : Nat) : Prop :=
  h ∈ s.memory.sessionList 0 ∨ (s.memory.sessions h).context = none ∨
    ∃ call ∈ s.calls, call.takes = some h

structure ListInv (m : SessionTable) : Prop where
  list_nodup : (m.sessionList 0).Nodup
  live_nodup : (m.live.map LiveSession.sessionId).Nodup
  live_context : ∀ l ∈ m.live, l.context = 0
  listed : ∀ h ∈ m.sessionList 0, m.entry h ∈ m.live

structure SessionAt (s : ClientState) (call : ClientCall) : Prop where
  fits : call.pc.Fits call.request
  opened : ∀ id sessionId, call.pc = .opened id sessionId →
    ⟨0, sessionId, call.request.session⟩ ∈ s.memory.live
  carried : ∀ h, call.carries = some h → s.memory.entry h ∈ s.memory.live
  taken : ∀ h, call.takes = some h → h ∉ s.memory.sessionList 0
  finished : call.request.isOpen = true → call.pc.result = some teecSuccess →
    Good s call.request.session
  reading : ∀ h, call.request.uses h = true → call.pc.reads = true →
    (s.memory.sessions h).context ≠ none ∨ 0 ∈ s.table.released

structure SessionsInv (s : ClientState) : Prop where
  lists : ListInv s.memory
  callAt : ∀ (k : Nat) call, s.calls[k]? = some call → SessionAt s call
  running_le : ∀ h, s.calls.countP (ClientCall.runsOn h) ≤ 1
  good : ∀ h, s.memory.lastOpen h = some teecSuccess →
    (∃ call ∈ s.calls, call.request.isOpen = true ∧ call.runsOn h = true) ∨ Good s h

variable {s s' : ClientState} {t : ContextTable} {m : SessionTable} {call call' : ClientCall}
  {k j h g id : Nat} {pc : CallPc} {o : Outcome}

theorem uses_session {r : Request} (hr : r.isOpen = true ∨ r.isClose = true) :
    r.uses r.session = true := by
  cases r with
  | openSession | closeSession => exact beq_self_eq_true _
  | _ => simp [Request.isOpen, Request.isClose] at hr

theorem session_of_uses {r : Request} (hr : r.uses h = true) : r.session = h := by
  cases r with
  | openSession | closeSession | invokeCommand => exact beq_iff_eq.mp hr
  | _ => cases hr

theorem touches_of_carries (hcarries : call.carries = some h) : call.touches = some h := by
  rw [ClientCall.carries] at hcarries
  rw [ClientCall.touches]
  cases hpc : call.pc with
  | adding | closing | releaseClosing =>
      rw [hpc] at hcarries
      exact hcarries
  | _ =>
      rw [hpc] at hcarries
      cases hcarries

theorem touches_of_takes (htakes : call.takes = some h) : call.touches = some h := by
  rw [ClientCall.takes] at htakes
  rw [ClientCall.touches]
  cases hpc : call.pc with
  | closing | wiping | releaseClosing | releaseWiping =>
      rw [hpc] at htakes
      exact htakes
  | _ =>
      rw [hpc] at htakes
      cases htakes

/-- What the call knows stays true when the structure it works on stays as it is, and the others are
not cleared behind its back. -/
theorem SessionAt.frame (hat : SessionAt s call)
    (htouch : ∀ h, call.touches = some h →
      (s'.memory.sessions h).sessionId = (s.memory.sessions h).sessionId ∧
        (h ∈ s'.memory.sessionList 0 → h ∈ s.memory.sessionList 0) ∧
          ∀ l ∈ s.memory.live, l.owner = h → l ∈ s'.memory.live)
    (hgood : ∀ h, call.runsOn h = true → Good s h → Good s' h)
    (hreading : ∀ h, call.runsOn h = true →
      (s.memory.sessions h).context ≠ none ∨ 0 ∈ s.table.released →
        (s'.memory.sessions h).context ≠ none ∨ 0 ∈ s'.table.released) :
    SessionAt s' call := by
  have hrunsOn (h : Nat) (huses : call.request.uses h = true) (hpc : call.pc.isReturned = false) :
      call.runsOn h = true := by
    rw [ClientCall.runsOn, huses, hpc]
    rfl
  refine ⟨hat.fits, fun id sessionId hpc => ?_, fun h hcarries => ?_, fun h htakes => ?_,
    fun hopen hresult => ?_, fun h huses hreads => ?_⟩
  · exact (htouch _ (by rw [ClientCall.touches, hpc])).2.2 _ (hat.opened id sessionId hpc) rfl
  · obtain ⟨hid, -, hlive⟩ := htouch h (touches_of_carries hcarries)
    rw [SessionTable.entry, hid]
    exact hlive _ (hat.carried h hcarries) rfl
  · exact fun hmem => hat.taken h htakes ((htouch h (touches_of_takes htakes)).2.1 hmem)
  · refine hgood _ (hrunsOn _ (uses_session (Or.inl hopen)) ?_) (hat.finished hopen hresult)
    cases hpc : call.pc with
    | returned ret =>
        rw [hpc] at hresult
        cases hresult
    | _ => rfl
  · refine hreading h (hrunsOn h huses ?_) (hat.reading h huses hreads)
    cases hpc : call.pc with
    | returned ret =>
        rw [hpc] at hreads
        cases hreads
    | _ => rfl

/-- A step of call `k` keeps the invariant when the list is in order after it and the calls can rely on
what they know. -/
theorem SessionsInv.advance (hinv : SessionsInv s) (hk : s.calls[k]? = some call)
    (hrunning : call.pc.isReturned = false) (hlists : ListInv m)
    (hlast : m.lastOpen = s.memory.lastOpen)
    (hnew : SessionAt (s.advance k call t m pc) { call with pc })
    (hothers : ∀ j call', j ≠ k → s.calls[j]? = some call' → SessionAt s call' →
      SessionAt (s.advance k call t m pc) call')
    (hgood : ∀ h, s.memory.lastOpen h = some teecSuccess → Good s h →
      call.request.isOpen = true ∧ call.request.uses h = true ∨ Good (s.advance k call t m pc) h)
    (hreturned : call.request.isOpen = true → pc = .returned teecSuccess →
      Good (s.advance k call t m pc) call.request.session) :
    SessionsInv (s.advance k call t m pc) := by
  have hlt : k < s.calls.length := (List.getElem?_eq_some_iff.mp hk).1
  have hself : (s.advance k call t m pc).calls[k]? = some { call with pc } :=
    List.getElem?_set_self hlt
  have hother (j : Nat) (hj : j ≠ k) : (s.advance k call t m pc).calls[j]? = s.calls[j]? :=
    List.getElem?_set_ne hj.symm
  refine ⟨⟨?_, ?_, ?_, ?_⟩, fun j call' hj => ?_, fun h => ?_, fun h hopen => ?_⟩
  · simpa using hlists.list_nodup
  · simpa using hlists.live_nodup
  · simpa using hlists.live_context
  · simpa [SessionTable.entry] using hlists.listed
  · by_cases hjk : j = k
    · subst hjk
      rw [hself] at hj
      obtain rfl := Option.some.inj hj
      exact hnew
    · rw [hother j hjk] at hj
      exact hothers j call' hjk hj (hinv.callAt j call' hj)
  · have hset := countP_set_add (b := { call with pc }) (ClientCall.runsOn h) hk
    have hle := hinv.running_le h
    have hmono : (ClientCall.runsOn h { call with pc }).toNat ≤ (call.runsOn h).toNat := by
      rw [ClientCall.runsOn, ClientCall.runsOn, hrunning]
      cases call.request.uses h <;> cases pc.isReturned <;> decide
    exact (Nat.le_of_add_le_add_right (hset.le.trans (Nat.add_le_add_left hmono _))).trans hle
  · by_cases hcall : call.request.isOpen = true ∧ call.request.uses h = true
    · cases hpc : pc.isReturned with
      | true =>
          obtain ⟨ret, rfl⟩ : ∃ ret, pc = .returned ret := by
            cases pc with
            | returned ret => exact ⟨ret, rfl⟩
            | _ => cases hpc
          have hret : some ret = some teecSuccess :=
            (record_lastOpen_returned m call.request hcall.1 hcall.2 ret).symm.trans hopen
          rw [← session_of_uses hcall.2]
          exact Or.inr (hreturned hcall.1 (congrArg CallPc.returned (Option.some.inj hret)))
      | false =>
          refine Or.inl ⟨_, List.mem_of_getElem? hself, hcall.1, ?_⟩
          rw [ClientCall.runsOn, hcall.2, hpc]
          rfl
    · have hlast' : s.memory.lastOpen h = some teecSuccess := by
        rw [← hlast, ← record_lastOpen_of_not m call.request pc hcall]
        exact hopen
      obtain ⟨call', hmem, hopens, hruns⟩ | hold := hinv.good h hlast'
      · obtain ⟨j, hj⟩ := List.mem_iff_getElem?.mp hmem
        have hjk : j ≠ k := by
          rintro rfl
          obtain rfl := Option.some.inj (hk.symm.trans hj)
          exact hcall ⟨hopens, (Bool.and_eq_true_iff.mp hruns).1⟩
        rw [← hother j hjk] at hj
        exact Or.inl ⟨call', List.mem_of_getElem? hj, hopens, hruns⟩
      · obtain hk' | hnew' := hgood h hlast' hold
        · exact absurd hk' hcall
        · exact Or.inr hnew'

theorem Good.advance (hk : s.calls[k]? = some call) (hgood : Good s g)
    (hlist : g ∈ s.memory.sessionList 0 → g ∈ m.sessionList 0 ∨ { call with pc }.takes = some g)
    (hcontext : (s.memory.sessions g).context = none → (m.sessions g).context = none)
    (htakes : call.takes = some g →
      { call with pc }.takes = some g ∨ (m.sessions g).context = none) :
    Good (s.advance k call t m pc) g := by
  have hself : ({ call with pc } : ClientCall) ∈ (s.advance k call t m pc).calls :=
    List.mem_of_getElem? (List.getElem?_set_self (List.getElem?_eq_some_iff.mp hk).1)
  have hnew (h : ({ call with pc } : ClientCall).takes = some g) :
      Good (s.advance k call t m pc) g := Or.inr (Or.inr ⟨_, hself, h⟩)
  have hclear (h : (m.sessions g).context = none) : Good (s.advance k call t m pc) g :=
    Or.inr (Or.inl (by simpa using h))
  obtain hmem | hnone | ⟨call', hmem, htakes'⟩ := hgood
  · obtain hmem | h := hlist hmem
    · exact Or.inl (by simpa using hmem)
    · exact hnew h
  · exact hclear (hcontext hnone)
  · obtain ⟨j, hj⟩ := List.mem_iff_getElem?.mp hmem
    by_cases hjk : j = k
    · subst hjk
      obtain rfl := Option.some.inj (hk.symm.trans hj)
      obtain h | h := htakes htakes'
      · exact hnew h
      · exact hclear h
    · have hj' : (s.advance k call t m pc).calls[j]? = some call' :=
        (List.getElem?_set_ne (Ne.symm hjk)).trans hj
      exact Or.inr (Or.inr ⟨call', List.mem_of_getElem? hj', htakes'⟩)

/-- A step that leaves the sessions alone. -/
theorem SessionsInv.quiet {p : CallPc} (hinv : SessionsInv s) (hk : s.calls[k]? = some call)
    (hrunning : call.pc.isReturned = false) (htakes : call.takes = none)
    (htouches : ({ call with pc := p } : ClientCall).touches = none) (hfits : p.Fits call.request)
    (hreleased : 0 ∈ s.table.released → 0 ∈ t.released)
    (hresult : call.request.isOpen = true →
      p.result = some teecSuccess ∨ p = .returned teecSuccess → Good s call.request.session)
    (hreading : ∀ h, call.request.uses h = true → p.reads = true →
      (s.memory.sessions h).context ≠ none ∨ 0 ∈ s.table.released) :
    SessionsInv (s.advance k call t s.memory p) := by
  have hgood (g : Nat) (hg : Good s g) : Good (s.advance k call t s.memory p) g :=
    hg.advance hk Or.inl id fun h => nomatch htakes.symm.trans h
  have hread (g : Nat) (hg : (s.memory.sessions g).context ≠ none ∨ 0 ∈ s.table.released) :
      ((s.advance k call t s.memory p).memory.sessions g).context ≠ none ∨ 0 ∈ t.released := by
    rw [advance_sessions]
    exact hg.imp_right hreleased
  have hsame (g : Nat) :
      (((s.advance k call t s.memory p).memory.sessions g).sessionId =
          (s.memory.sessions g).sessionId) ∧
        (g ∈ (s.advance k call t s.memory p).memory.sessionList 0 → g ∈ s.memory.sessionList 0) ∧
          ∀ l ∈ s.memory.live, l.owner = g → l ∈ (s.advance k call t s.memory p).memory.live := by
    rw [advance_sessions, advance_sessionList, advance_live]
    exact ⟨rfl, fun h => h, fun l hl _ => hl⟩
  refine hinv.advance hk hrunning hinv.lists rfl ⟨hfits, fun id sessionId hpc => ?_,
    fun h hcarries => ?_, fun h htakes => ?_, fun hopen hres => ?_, fun h huses hreads => ?_⟩
    (fun j call' _ _ hat => hat.frame (fun h _ => hsame h) (fun h _ => hgood h) fun h _ => hread h)
    (fun h _ hg => Or.inr (hgood h hg)) fun hopen hpc => hgood _ (hresult hopen (Or.inr hpc))
  · rw [ClientCall.touches, hpc] at htouches
    cases htouches
  · exact nomatch htouches.symm.trans (touches_of_carries hcarries)
  · exact nomatch htouches.symm.trans (touches_of_takes htakes)
  · exact hgood _ (hresult hopen (Or.inl hres))
  · exact hread h (hreading h huses hreads)

theorem initialize_not_open {r : Request} (h : r.isInitialize = true) :
    r.isOpen = false ∧ ∀ g, r.uses g = false := by
  cases r with
  | initializeContext => exact ⟨rfl, fun _ => rfl⟩
  | _ => cases h

theorem finalize_not_open {r : Request} (h : r.isFinalize = true) :
    r.isOpen = false ∧ ∀ g, r.uses g = false := by
  cases r with
  | finalizeContext => exact ⟨rfl, fun _ => rfl⟩
  | _ => cases h

theorem released_putBnContextStep {r : Request} {t t' : ContextTable} {ret : UInt32}
    (hstep : putBnContextStep r t id ret = (t', pc)) (h : g ∈ t.released) : g ∈ t'.released := by
  rw [putBnContextStep] at hstep
  split_ifs at hstep
  · obtain ⟨rfl, -⟩ := Prod.mk.inj hstep
    exact List.mem_append_left _ h
  · obtain ⟨rfl, -⟩ := Prod.mk.inj hstep
    exact h

/-- Where a call goes after it gave back the context, with the result it has. -/
theorem SessionsInv.afterPut (hinv : SessionsInv s) (hk : s.calls[k]? = some call)
    (hrunning : call.pc.isReturned = false) (htakes : call.takes = none) {ret : UInt32}
    (hresult : call.pc.result = some ret) (hreleased : 0 ∈ s.table.released → 0 ∈ t.released) :
    SessionsInv (s.advance k call t s.memory (ITrustee.Libteec.afterPut call.request ret)) := by
  have hat := hinv.callAt k call hk
  have hfin (hopen : call.request.isOpen = true) (hret : ret = teecSuccess) :
      Good s call.request.session := hat.finished hopen (by rw [hresult, hret])
  cases hr : call.request with
  | finalizeContext c =>
      refine hinv.quiet hk hrunning htakes rfl (by rw [hr]; rfl) hreleased (fun hopen => ?_)
        fun h huses => ?_
      · rw [hr] at hopen
        cases hopen
      · rw [hr] at huses
        cases huses
  | _ =>
      refine hinv.quiet hk hrunning htakes rfl trivial hreleased (fun hopen hret => ?_) nofun
      obtain hret | hret := hret
      · cases hret
      · exact hfin hopen (CallPc.returned.inj hret)

theorem SessionsInv.tableStep_inv (hinv : SessionsInv s) (hk : s.calls[k]? = some call)
    (hstep : tableStep k o call.request s.table call.pc = some (t, pc)) :
    SessionsInv (s.advance k call t s.memory pc) := by
  have hat := hinv.callAt k call hk
  have hfits := hat.fits
  have hreading := hat.reading
  cases hpc : call.pc with
  | connect =>
      rw [hpc] at hstep hfits
      have hinit := initialize_not_open hfits
      rw [tableStep, connectStep] at hstep
      split_ifs at hstep <;> obtain ⟨rfl, rfl⟩ := Prod.mk.inj (Option.some.inj hstep)
      · exact hinv.quiet hk (by rw [hpc]; rfl) (by rw [ClientCall.takes, hpc]) rfl trivial id
          (by simp [hinit.1]) (by rintro _ _ ⟨⟩)
      · exact hinv.quiet hk (by rw [hpc]; rfl) (by rw [ClientCall.takes, hpc]) rfl hfits id
          (by simp [hinit.1]) (by rintro _ _ ⟨⟩)
  | insert id =>
      rw [hpc] at hstep hfits
      have hinit := initialize_not_open hfits
      rw [tableStep, insertStep] at hstep
      split_ifs at hstep <;> obtain ⟨rfl, rfl⟩ := Prod.mk.inj (Option.some.inj hstep)
      · exact hinv.quiet hk (by rw [hpc]; rfl) (by rw [ClientCall.takes, hpc]) rfl trivial (fun h => h)
          (by simp [hinit.1]) (by rintro _ _ ⟨⟩)
      · exact hinv.quiet hk (by rw [hpc]; rfl) (by rw [ClientCall.takes, hpc]) rfl trivial (fun h => h)
          (by simp [hinit.1]) (by simp [hinit.2])
  | get c =>
      rw [hpc] at hstep hreading
      have hreturned : SessionsInv (s.advance k call s.table s.memory
          (.returned teecErrorBadParameters)) :=
        hinv.quiet hk (by rw [hpc]; rfl) (by rw [ClientCall.takes, hpc]) rfl trivial (fun h => h)
          (fun _ h => by simp [CallPc.result, teecErrorBadParameters, teecSuccess] at h)
          (by rintro _ _ ⟨⟩)
      rw [tableStep, getBnContextStep] at hstep
      split_ifs at hstep
      · obtain ⟨rfl, rfl⟩ := Prod.mk.inj (Option.some.inj hstep)
        exact hreturned
      · split at hstep <;> obtain ⟨rfl, rfl⟩ := Prod.mk.inj (Option.some.inj hstep)
        · exact hreturned
        · exact hinv.quiet hk (by rw [hpc]; rfl) (by rw [ClientCall.takes, hpc]) rfl trivial
            (fun h => h) (fun _ h => by simp [CallPc.result] at h) fun h huses _ => hreading h huses rfl
  | counting c id =>
      rw [hpc] at hstep hreading
      obtain ⟨rfl, rfl⟩ := Prod.mk.inj (Option.some.inj hstep)
      have hquiet := fun hfits htouches hresult => hinv.quiet (t := countStep s.table id)
        (p := afterGet call.request c id) hk (by rw [hpc]; rfl) (by rw [ClientCall.takes, hpc])
        htouches hfits (fun h => h) hresult fun h huses _ => hreading h huses rfl
      cases hr : call.request with
      | openSession =>
          rw [hr] at hquiet
          exact hquiet rfl rfl fun _ h => by simp [afterGet, CallPc.result] at h
      | finalizeContext | initializeContext =>
          rw [hr] at hquiet
          exact hquiet (by first | rfl | trivial) rfl (by simp [Request.isOpen])
      | _ =>
          rw [hr] at hquiet
          exact hquiet (by first | rfl | exact ⟨rfl, rfl⟩) rfl (by simp [Request.isOpen])
  | handing c id =>
      rw [hpc] at hstep hfits
      have hinit := initialize_not_open hfits
      obtain ⟨rfl, rfl⟩ := Prod.mk.inj (Option.some.inj hstep)
      exact hinv.quiet hk (by rw [hpc]; rfl) (by rw [ClientCall.takes, hpc]) rfl trivial (fun h => h)
        (by simp [hinit.1]) (by rintro _ _ ⟨⟩)
  | put id ret =>
      rw [hpc] at hstep
      have hput := Option.some.inj hstep
      have hreleased (h : 0 ∈ s.table.released) : 0 ∈ t.released := released_putBnContextStep hput h
      rw [putBnContextStep] at hput
      split_ifs at hput <;> obtain ⟨rfl, rfl⟩ := Prod.mk.inj hput
      · refine hinv.quiet hk (by rw [hpc]; rfl) (by rw [ClientCall.takes, hpc]) rfl trivial hreleased
          (fun hopen h => ?_) (by rintro _ _ ⟨⟩)
        obtain h | h := h
        · exact hat.finished hopen (by rw [hpc]; exact h)
        · cases h
      · exact hinv.afterPut hk (by rw [hpc]; rfl) (by rw [ClientCall.takes, hpc]) (by rw [hpc]; rfl)
          hreleased
  | releaseFd id ret =>
      rw [hpc] at hstep
      obtain ⟨rfl, rfl⟩ := Prod.mk.inj (Option.some.inj hstep)
      exact hinv.afterPut hk (by rw [hpc]; rfl) (by rw [ClientCall.takes, hpc]) (by rw [hpc]; rfl)
        fun h => h
  | remove c =>
      rw [hpc] at hstep hfits
      have hfinal := finalize_not_open hfits
      have hreset : SessionsInv (s.advance k call s.table s.memory (.reset c)) :=
        hinv.quiet hk (by rw [hpc]; rfl) (by rw [ClientCall.takes, hpc]) rfl hfits (fun h => h)
          (by simp [hfinal.1]) (by rintro _ _ ⟨⟩)
      rw [tableStep, removeStep] at hstep
      split_ifs at hstep
      · obtain ⟨rfl, rfl⟩ := Prod.mk.inj (Option.some.inj hstep)
        exact hreset
      · split at hstep <;> obtain ⟨rfl, rfl⟩ := Prod.mk.inj (Option.some.inj hstep)
        · exact hreset
        · exact hinv.quiet hk (by rw [hpc]; rfl) (by rw [ClientCall.takes, hpc]) rfl trivial
            (fun h => h) (by simp [hfinal.1]) (by rintro _ _ ⟨⟩)
  | reset c =>
      rw [hpc] at hstep hfits
      have hfinal := finalize_not_open hfits
      obtain ⟨rfl, rfl⟩ := Prod.mk.inj (Option.some.inj hstep)
      exact hinv.quiet hk (by rw [hpc]; rfl) (by rw [ClientCall.takes, hpc]) rfl trivial (fun h => h)
        (by simp [hfinal.1]) (by rintro _ _ ⟨⟩)
  | _ =>
      rw [hpc] at hstep
      cases hstep

/-! ### One call at a time on a structure -/

/-- Only the first call allocates a context. -/
structure SingleContext (s : ClientState) : Prop where
  next_le : s.table.next ≤ 1
  idle : s.calls = [] → s.table.next = 0
  first : ∀ (k : Nat) call, s.calls[k]? = some call →
    call.pc = .start ∧ call.request.isInitialize = true ∨ call.pc = .connect →
      k = 0 ∧ s.table.next = 0

structure RunInv (s : ClientState) : Prop where
  contexts : ContextInv s.table s.calls
  single : SingleContext s
  sessions : SessionsInv s

/-- The call is the client's call on the structure and holds the context, or it runs the final
release. -/
def ClientCall.Grips (call : ClientCall) (h : Nat) : Prop :=
  (∃ id, call.pc.held = some id ∧ call.runsOn h = true) ∨ ∃ id, call.pc.finalizing = some id

theorem grips_of_touches (hat : SessionAt s call) (htouches : call.touches = some h) :
    call.Grips h := by
  have hfits := hat.fits
  rw [ClientCall.touches] at htouches
  rw [ClientCall.Grips, ClientCall.runsOn]
  cases hpc : call.pc with
  | opened id _ | adding id =>
      rw [hpc] at htouches hfits
      obtain rfl := Option.some.inj htouches
      exact Or.inl ⟨id, rfl, by rw [uses_session (Or.inl hfits)]; rfl⟩
  | closing id | wiping id =>
      rw [hpc] at htouches hfits
      obtain rfl := Option.some.inj htouches
      exact Or.inl ⟨id, rfl, by rw [uses_session (Or.inr hfits)]; rfl⟩
  | releaseClosing id _ _ | releaseWiping id _ _ => exact Or.inr ⟨id, rfl⟩
  | _ =>
      rw [hpc] at htouches
      cases htouches

section Exclusion

variable (hrun : RunInv s) (hk : s.calls[k]? = some call) (hj : s.calls[j]? = some call')
include hrun hk

theorem RunInv.held_eq_zero (hheld : call.pc.held = some id) : id = 0 := by
  have hlt := ((hrun.contexts.callAt k call hk).held id hheld).1
  have hle := hrun.single.next_le
  omega

theorem RunInv.finalizing_eq_zero (hfin : call.pc.finalizing = some id) : id = 0 := by
  have hlt := ((hrun.contexts.callAt k call hk).finalizing id hfin).2.1
  have hle := hrun.single.next_le
  omega

theorem RunInv.not_released_of_held (hheld : call.pc.held = some id) : 0 ∉ s.table.released := by
  intro hmem
  obtain rfl := hrun.held_eq_zero hk hheld
  exact (hrun.contexts.sound.released_unheld 0 hmem call (List.mem_of_getElem? hk)).1 hheld

theorem RunInv.released_of_finalizing (hfin : call.pc.finalizing = some id) :
    0 ∈ s.table.released := by
  obtain rfl := hrun.finalizing_eq_zero hk hfin
  exact ((hrun.contexts.callAt k call hk).finalizing 0 hfin).1

include hj

theorem RunInv.runsOn_exclusive (hne : j ≠ k) (hruns : call.runsOn h = true) :
    call'.runsOn h = false := by
  by_contra hnot
  have htwo := two_le_countP (p := ClientCall.runsOn h) hj hk hne
    (Bool.eq_true_of_not_eq_false hnot) hruns
  exact absurd (hrun.sessions.running_le h) (Nat.not_le.mpr htwo)

theorem RunInv.finalizing_exclusive (hne : j ≠ k) (hfin : call.pc.finalizing = some id)
    {id' : Nat} : call'.pc.finalizing ≠ some id' := by
  intro hfin'
  obtain rfl := hrun.finalizing_eq_zero hk hfin
  obtain rfl := hrun.finalizing_eq_zero hj hfin'
  have htwo := two_le_countP (p := fun call : ClientCall => call.pc.finalizing == some 0) hj hk hne
    (beq_iff_eq.mpr hfin') (beq_iff_eq.mpr hfin)
  exact absurd (hrun.contexts.finalizers_le 0) (Nat.not_le.mpr htwo)

/-- Two calls never have the same structure in hand. -/
theorem RunInv.grips_exclusive (hne : j ≠ k) (hgrips : call.Grips h) : call'.touches ≠ some h := by
  intro htouches'
  have hgrips' := grips_of_touches (hrun.sessions.callAt j call' hj) htouches'
  obtain ⟨id, hheld, hruns⟩ | ⟨id, hfin⟩ := hgrips
  · obtain ⟨id', hheld', hruns'⟩ | ⟨id', hfin'⟩ := hgrips'
    · rw [hrun.runsOn_exclusive hk hj hne hruns] at hruns'
      cases hruns'
    · exact hrun.not_released_of_held hk hheld (hrun.released_of_finalizing hj hfin')
  · obtain ⟨id', hheld', hruns'⟩ | ⟨id', hfin'⟩ := hgrips'
    · exact hrun.not_released_of_held hj hheld' (hrun.released_of_finalizing hk hfin)
    · exact hrun.finalizing_exclusive hk hj hne hfin hfin'

end Exclusion

/-- Nothing but the structure `h` and its session changes. -/
structure SameExcept (m m' : SessionTable) (h : Nat) : Prop where
  sessions : ∀ g, g ≠ h → m'.sessions g = m.sessions g
  list : ∀ g, g ≠ h → (g ∈ m'.sessionList 0 ↔ g ∈ m.sessionList 0)
  live : ∀ l ∈ m.live, l.owner ≠ h → l ∈ m'.live
  lastOpen : m'.lastOpen = m.lastOpen

/-- A step on the structure that the call has in hand. -/
theorem RunInv.advance (hrun : RunInv s) (hk : s.calls[k]? = some call)
    (hrunning : call.pc.isReturned = false) (hgrips : call.Grips h)
    (htakes : ∀ g, call.takes = some g → g = h) (hsame : SameExcept s.memory m h)
    (hlists : ListInv m) (hnew : SessionAt (s.advance k call s.table m pc) { call with pc })
    (hgood : call.request.isOpen = true ∧ call.runsOn h = true ∨
      Good (s.advance k call s.table m pc) h)
    (hreading : call.runsOn h = true ∨ 0 ∈ s.table.released) (hpc : pc ≠ .returned teecSuccess) :
    SessionsInv (s.advance k call s.table m pc) := by
  have hothers (g : Nat) (hg : g ≠ h) (hold : Good s g) : Good (s.advance k call s.table m pc) g := by
    refine hold.advance hk (fun hmem => Or.inl ((hsame.list g hg).mpr hmem)) (fun hnone => ?_)
      fun h => absurd (htakes g h) hg
    rw [hsame.sessions g hg]
    exact hnone
  refine hrun.sessions.advance hk hrunning hlists hsame.lastOpen hnew (fun j call' hne hj hat => ?_)
    (fun g _ hg => ?_) fun _ h => absurd h hpc
  · refine hat.frame (fun g htouches => ?_) (fun g hruns hg => ?_) fun g hruns hg => ?_
    · have hgh : g ≠ h := by
        rintro rfl
        exact hrun.grips_exclusive hk hj hne hgrips htouches
      rw [advance_sessions, advance_sessionList, advance_live, hsame.sessions g hgh]
      refine ⟨rfl, (hsame.list g hgh).mp, fun l hl howner => hsame.live l hl ?_⟩
      rw [howner]
      exact hgh
    · by_cases hgh : g = h
      · subst hgh
        obtain ⟨-, hruns'⟩ | hgood := hgood
        · rw [hrun.runsOn_exclusive hk hj hne hruns'] at hruns
          cases hruns
        · exact hgood
      · exact hothers g hgh hg
    · by_cases hgh : g = h
      · subst hgh
        obtain hruns' | hreleased := hreading
        · rw [hrun.runsOn_exclusive hk hj hne hruns'] at hruns
          cases hruns
        · exact Or.inr hreleased
      · rw [advance_sessions, hsame.sessions g hgh]
        exact hg
  · by_cases hgh : g = h
    · subst hgh
      exact hgood.imp_left fun ⟨hopen, hruns⟩ => ⟨hopen, (Bool.and_eq_true_iff.mp hruns).1⟩
    · exact Or.inr (hothers g hgh hg)

/-- The client's call stores a context in its structure. -/
theorem RunInv.advance_context (hrun : RunInv s) (hk : s.calls[k]? = some call)
    (hruns : call.runsOn h = true) (htouches : call.touches = none)
    (htouches' : ({ call with pc } : ClientCall).touches = none) {c : Nat}
    (hm : m = s.memory.setSession h { s.memory.sessions h with context := some c })
    (hfits : pc.Fits call.request)
    (hgood : call.request.isOpen = true ∨ (Good s h → h ∈ s.memory.sessionList 0))
    (hfinished : call.request.isOpen = true → pc.result = none)
    (hpc : pc ≠ .returned teecSuccess) : SessionsInv (s.advance k call s.table m pc) := by
  have hrunning : call.pc.isReturned = false := by
    have hnot := (Bool.and_eq_true_iff.mp hruns).2
    rwa [Bool.not_eq_true'] at hnot
  have hid (g : Nat) : (m.sessions g).sessionId = (s.memory.sessions g).sessionId := by
    rw [hm]
    by_cases hg : g = h
    · rw [hg, setSession_self]
    · rw [setSession_of_ne _ _ _ _ hg]
  have hself : (m.sessions h).context = some c := by
    rw [hm, setSession_self]
  have hne (g : Nat) (hg : g ≠ h) : m.sessions g = s.memory.sessions g := by
    rw [hm, setSession_of_ne _ _ _ _ hg]
  have hlist : m.sessionList = s.memory.sessionList := by rw [hm, setSession_sessionList]
  have hlive : m.live = s.memory.live := by rw [hm, setSession_live]
  have hlast : m.lastOpen = s.memory.lastOpen := by rw [hm, setSession_lastOpen]
  have hlists : ListInv m := by
    obtain ⟨hnodup, hids, hcontext, hlisted⟩ := hrun.sessions.lists
    refine ⟨hlist ▸ hnodup, hlive ▸ hids, hlive ▸ hcontext, fun g hg => ?_⟩
    rw [SessionTable.entry, hid, hlive]
    exact hlisted g (hlist ▸ hg)
  have hothers (g : Nat) (hg : g ≠ h) (hold : Good s g) : Good (s.advance k call s.table m pc) g := by
    refine hold.advance hk (fun hmem => Or.inl (hlist ▸ hmem)) (fun hnone => ?_) fun htakes =>
      nomatch htouches.symm.trans (touches_of_takes htakes)
    rw [hne g hg]
    exact hnone
  have hreads (g : Nat) (hg : (s.memory.sessions g).context ≠ none ∨ 0 ∈ s.table.released) :
      ((s.advance k call s.table m pc).memory.sessions g).context ≠ none ∨ 0 ∈ s.table.released := by
    rw [advance_sessions]
    by_cases hgh : g = h
    · rw [hgh, hself]
      exact Or.inl nofun
    · rw [hne g hgh]
      exact hg
  refine hrun.sessions.advance hk hrunning hlists hlast ⟨hfits, fun id sessionId hpc => ?_,
    fun g hcarries => ?_, fun g htakes => ?_, fun hopen hres => ?_, fun g huses _ => ?_⟩
    (fun j call' hjk hj hat => ?_) (fun g _ hg => ?_) fun _ h => absurd h hpc
  · rw [ClientCall.touches, hpc] at htouches'
    cases htouches'
  · exact nomatch htouches'.symm.trans (touches_of_carries hcarries)
  · exact nomatch htouches'.symm.trans (touches_of_takes htakes)
  · rw [hfinished hopen] at hres
    cases hres
  · have hgh : g = h := (session_of_uses huses).symm.trans
      (session_of_uses (Bool.and_eq_true_iff.mp hruns).1)
    rw [advance_sessions, hgh, hself]
    exact Or.inl nofun
  · refine hat.frame (fun g _ => ?_) (fun g hruns' => hothers g ?_) fun g _ => hreads g
    · rw [advance_sessions, advance_sessionList, advance_live, hid, hlist, hlive]
      exact ⟨rfl, fun hmem => hmem, fun l hl _ => hl⟩
    · rintro rfl
      rw [hrun.runsOn_exclusive hk hj hjk hruns] at hruns'
      cases hruns'
  · by_cases hgh : g = h
    · subst hgh
      obtain hopen | hmem := hgood
      · exact Or.inl ⟨hopen, (Bool.and_eq_true_iff.mp hruns).1⟩
      · refine Or.inr (Or.inl ?_)
        rw [advance_sessionList, hlist]
        exact hmem hg
    · exact Or.inr (hothers g hgh hg)

/-! ### The steps on the sessions -/

theorem RunInv.startStep_inv (hrun : RunInv s) (hk : s.calls[k]? = some call)
    (hpc : call.pc = .start) (hstep : startStep o s.memory call.request = (m, pc)) :
    SessionsInv (s.advance k call s.table m pc) := by
  have hrunning : call.pc.isReturned = false := by rw [hpc]; rfl
  have htouches : call.touches = none := by rw [ClientCall.touches, hpc]
  have htakes : call.takes = none := by rw [ClientCall.takes, hpc]
  have hreturned (ret : UInt32) (hret : ret ≠ teecSuccess) :
      SessionsInv (s.advance k call s.table s.memory (.returned ret)) := by
    refine hrun.sessions.quiet hk hrunning htakes rfl trivial (fun h => h) (fun _ h => ?_)
      (by rintro _ _ ⟨⟩)
    obtain h | h := h
    · cases h
    · exact absurd (CallPc.returned.inj h) hret
  have hget (c : Nat) (hreads : ∀ h, call.request.uses h = true →
      (s.memory.sessions h).context ≠ none) :
      SessionsInv (s.advance k call s.table s.memory (.get c)) := by
    refine hrun.sessions.quiet hk hrunning htakes rfl trivial (fun h => h) (fun _ h => ?_)
      fun h huses _ => Or.inl (hreads h huses)
    obtain h | h := h <;> cases h
  cases hr : call.request with
  | initializeContext c =>
      rw [hr, startStep] at hstep
      split_ifs at hstep <;> obtain ⟨rfl, rfl⟩ := Prod.mk.inj hstep
      · exact hreturned _ (by decide)
      · exact hrun.sessions.quiet hk hrunning htakes rfl (by rw [hr]; rfl) (fun h => h)
          (by simp [hr, Request.isOpen]) (by rintro _ _ ⟨⟩)
  | openSession c h =>
      have hruns : call.runsOn h = true := by simp [ClientCall.runsOn, hr, hpc, Request.uses,
        CallPc.isReturned]
      rw [hr, startStep] at hstep
      split_ifs at hstep <;> obtain ⟨rfl, rfl⟩ := Prod.mk.inj hstep
      · exact hreturned _ (by decide)
      · exact hrun.advance_context hk hruns htouches rfl rfl trivial (Or.inl (by rw [hr]; rfl))
          (fun _ => rfl) (by rintro ⟨⟩)
  | closeSession h | invokeCommand h =>
      rw [hr, startStep] at hstep
      split_ifs at hstep
      · obtain ⟨rfl, rfl⟩ := Prod.mk.inj hstep
        exact hreturned _ (by decide)
      · cases hcontext : (s.memory.sessions h).context with
        | none =>
            rw [hcontext] at hstep
            obtain ⟨rfl, rfl⟩ := Prod.mk.inj hstep
            exact hreturned _ (by decide)
        | some c =>
            rw [hcontext] at hstep
            obtain ⟨rfl, rfl⟩ := Prod.mk.inj hstep
            refine hget c fun g huses => ?_
            rw [hr] at huses
            obtain rfl : h = g := beq_iff_eq.mp huses
            rw [hcontext]
            rintro ⟨⟩
  | allocateSharedMemory c =>
      rw [hr, startStep] at hstep
      split_ifs at hstep <;> obtain ⟨rfl, rfl⟩ := Prod.mk.inj hstep
      · exact hreturned _ (by decide)
      · exact hreturned _ (by decide)
      · exact hget c (by simp [hr, Request.uses])
  | releaseSharedMemory c =>
      rw [hr, startStep] at hstep
      split_ifs at hstep <;> obtain ⟨rfl, rfl⟩ := Prod.mk.inj hstep
      · exact hreturned _ (by decide)
      · exact hget c (by simp [hr, Request.uses])
  | finalizeContext c =>
      rw [hr, startStep] at hstep
      split_ifs at hstep <;> obtain ⟨rfl, rfl⟩ := Prod.mk.inj hstep
      · exact hreturned _ (by decide)
      · exact hrun.sessions.quiet hk hrunning htakes rfl (by rw [hr]; rfl) (fun h => h)
          (by simp [hr, Request.isOpen]) (by rintro _ _ ⟨⟩)

/-- A structure that was opened and is not cleared is in the list, unless the call that has it in hand
took it off. -/
theorem RunInv.listed_of_good (hrun : RunInv s) (hk : s.calls[k]? = some call)
    (hgrips : call.Grips h) (htouches : call.touches = none)
    (hcontext : (s.memory.sessions h).context ≠ none) (hgood : Good s h) :
    h ∈ s.memory.sessionList 0 := by
  obtain hmem | hnone | ⟨call', hmem, htakes⟩ := hgood
  · exact hmem
  · exact absurd hnone hcontext
  · obtain ⟨j, hj⟩ := List.mem_iff_getElem?.mp hmem
    have htouches' := touches_of_takes htakes
    by_cases hjk : j = k
    · subst hjk
      obtain rfl := Option.some.inj (hk.symm.trans hj)
      exact nomatch htouches.symm.trans htouches'
    · exact absurd htouches' (hrun.grips_exclusive hk hj hjk hgrips)

theorem RunInv.invokeStep_inv (hrun : RunInv s) (hk : s.calls[k]? = some call) {c : Nat}
    (hpc : call.pc = .working c id) :
    SessionsInv (s.advance k call s.table (invokeStep o s.memory call.request c) (.put id o.ret)) := by
  have hrunning : call.pc.isReturned = false := by rw [hpc]; rfl
  have htouches : call.touches = none := by rw [ClientCall.touches, hpc]
  have hat := hrun.sessions.callAt k call hk
  have hfits := hat.fits
  rw [hpc] at hfits
  have hquiet : SessionsInv (s.advance k call s.table s.memory (.put id o.ret)) :=
    hrun.sessions.quiet hk hrunning (by rw [ClientCall.takes, hpc]) rfl trivial (fun h => h)
      (by simp [hfits.1]) nofun
  cases hr : call.request with
  | invokeCommand h =>
      rw [invokeStep]
      split_ifs with hret
      · have hruns : call.runsOn h = true := by simp [ClientCall.runsOn, hr, hpc, Request.uses,
          CallPc.isReturned]
        refine hrun.advance_context hk hruns htouches rfl rfl trivial
          (Or.inr (hrun.listed_of_good hk (Or.inl ⟨id, by rw [hpc]; rfl, hruns⟩) htouches ?_))
          (by simp [hr, Request.isOpen]) nofun
        obtain hcontext | hreleased := hat.reading h (by rw [hr]; exact beq_self_eq_true h)
          (by rw [hpc]; rfl)
        · exact hcontext
        · exact absurd hreleased (hrun.not_released_of_held hk (by rw [hpc]; rfl))
      · exact hquiet
  | _ => exact hquiet

theorem translateRetValue_ne (ret : Int) : translateRetValue ret ≠ teecSuccess := by
  rw [translateRetValue]
  split_ifs <;> decide

/-- A step that fails an open, or leaves the sessions alone before the list is used. -/
theorem RunInv.open_quiet (hrun : RunInv s) (hk : s.calls[k]? = some call)
    (hrunning : call.pc.isReturned = false) (htakes : call.takes = none)
    (htouches : ({ call with pc } : ClientCall).touches = none) (hfits : pc.Fits call.request)
    (hresult : pc.result ≠ some teecSuccess) (hreads : pc.reads = false)
    (hpc : pc ≠ .returned teecSuccess) :
    SessionsInv (s.advance k call s.table s.memory pc) := by
  refine hrun.sessions.quiet hk hrunning htakes htouches hfits (fun h => h) (fun _ h => ?_)
    fun h _ hreads' => ?_
  · obtain h | h := h
    · exact absurd h hresult
    · exact absurd h hpc
  · rw [hreads] at hreads'
    cases hreads'

theorem RunInv.checking_inv (hrun : RunInv s) (hk : s.calls[k]? = some call)
    (hpc : call.pc = .checking id) : SessionsInv (s.advance k call s.table s.memory
      (if o.ret ≠ teecSuccess then .put id o.ret else .opening id caAuthRetryTimes)) := by
  have hfits := (hrun.sessions.callAt k call hk).fits
  rw [hpc] at hfits
  have hrunning : call.pc.isReturned = false := by rw [hpc]; rfl
  have htakes : call.takes = none := by rw [ClientCall.takes, hpc]
  split_ifs with hret
  · exact hrun.open_quiet hk hrunning htakes rfl trivial (fun h => hret (Option.some.inj h)) rfl nofun
  · exact hrun.open_quiet hk hrunning htakes rfl hfits nofun rfl nofun

theorem RunInv.doOpenSessionStep_inv (hrun : RunInv s) (hk : s.calls[k]? = some call) {i : Nat}
    (hpc : call.pc = .opening id i) (hfresh : freshReply s.memory o call.pc)
    (hstep : doOpenSessionStep o s.memory call.request.session id i = (m, pc)) :
    SessionsInv (s.advance k call s.table m pc) := by
  have hfits := (hrun.sessions.callAt k call hk).fits
  rw [hpc] at hfits hfresh
  have hrunning : call.pc.isReturned = false := by rw [hpc]; rfl
  have htakes : call.takes = none := by rw [ClientCall.takes, hpc]
  have hruns : call.runsOn call.request.session = true := by
    rw [ClientCall.runsOn, uses_session (Or.inl hfits), hpc]
    rfl
  have hid : id = 0 := hrun.held_eq_zero hk (by rw [hpc]; rfl)
  rw [doOpenSessionStep] at hstep
  split_ifs at hstep with hretry hneg hpos hcode
  · obtain ⟨rfl, rfl⟩ := Prod.mk.inj hstep
    exact hrun.open_quiet hk hrunning htakes rfl hfits (by rintro ⟨⟩) rfl (by rintro ⟨⟩)
  · obtain ⟨rfl, rfl⟩ := Prod.mk.inj hstep
    exact hrun.open_quiet hk hrunning htakes rfl trivial
      (fun h => translateRetValue_ne _ (Option.some.inj h)) rfl (by rintro ⟨⟩)
  · obtain ⟨rfl, rfl⟩ := Prod.mk.inj hstep
    exact hrun.open_quiet hk hrunning htakes rfl trivial (fun h => hcode (Option.some.inj h)) rfl
      (by rintro ⟨⟩)
  · obtain ⟨rfl, rfl⟩ := Prod.mk.inj hstep
    exact hrun.open_quiet hk hrunning htakes rfl trivial
      (fun h => absurd (Option.some.inj h) (by decide)) rfl (by rintro ⟨⟩)
  · obtain ⟨rfl, rfl⟩ := Prod.mk.inj hstep
    subst hid
    have hnew (l : LiveSession) (hl : l ∈ s.memory.live) : l.sessionId ≠ o.sessionId :=
      hfresh (by omega) l hl (hrun.sessions.lists.live_context l hl)
    obtain ⟨hnodup, hids, hcontext, hlisted⟩ := hrun.sessions.lists
    refine hrun.advance hk hrunning (Or.inl ⟨0, by rw [hpc]; rfl, hruns⟩)
      (fun g h => by cases htakes.symm.trans h) ⟨fun _ _ => rfl, fun _ _ => Iff.rfl,
      fun l hl _ => List.mem_append_left _ hl, rfl⟩ ⟨hnodup, ?_, fun l hl => ?_, fun g hg => ?_⟩
      ⟨hfits, fun id sessionId h => ?_, by rintro _ ⟨⟩, by rintro _ ⟨⟩, by rintro _ ⟨⟩, by rintro _ _ ⟨⟩⟩
      (Or.inl ⟨hfits, hruns⟩)
      (Or.inl hruns) (by rintro ⟨⟩)
    · rw [List.map_append]
      apply List.nodup_append_comm.mp
      refine List.nodup_cons.mpr ⟨fun hmem => ?_, hids⟩
      obtain ⟨l, hl, heq⟩ := List.mem_map.mp hmem
      exact hnew l hl heq
    · obtain hl | hl := List.mem_append.mp hl
      · exact hcontext l hl
      · rw [List.mem_singleton.mp hl]
    · exact List.mem_append_left _ (hlisted g hg)
    · obtain ⟨rfl, rfl⟩ := CallPc.opened.inj h
      exact List.mem_append_right _ (List.mem_singleton_self _)

theorem RunInv.opened_inv (hrun : RunInv s) (hk : s.calls[k]? = some call) {sessionId : UInt32}
    (hpc : call.pc = .opened id sessionId) :
    SessionsInv (s.advance k call s.table (s.memory.setSession call.request.session
      { s.memory.sessions call.request.session with sessionId }) (.adding id)) := by
  have hat := hrun.sessions.callAt k call hk
  have hfits := hat.fits
  rw [hpc] at hfits
  have hentry := hat.opened id sessionId hpc
  have hrunning : call.pc.isReturned = false := by rw [hpc]; rfl
  have hruns : call.runsOn call.request.session = true := by
    rw [ClientCall.runsOn, uses_session (Or.inl hfits), hpc]
    rfl
  have hself : (s.memory.setSession call.request.session { s.memory.sessions call.request.session
      with sessionId }).entry call.request.session ∈ s.memory.live := by
    rw [SessionTable.entry, setSession_self]
    exact hentry
  obtain ⟨hnodup, hids, hcontext, hlisted⟩ := hrun.sessions.lists
  refine hrun.advance hk hrunning (Or.inl ⟨id, by rw [hpc]; rfl, hruns⟩)
    (fun g h => nomatch ((by rw [ClientCall.takes, hpc] : call.takes = none).symm.trans h))
    ⟨fun g hg => setSession_of_ne _ _ _ _ hg, fun _ _ => Iff.rfl, fun l hl _ => hl, rfl⟩
    ⟨hnodup, hids, hcontext, fun g hg => ?_⟩ ⟨hfits, nofun, fun g hcarries => ?_, nofun, nofun, nofun⟩
    (Or.inl ⟨hfits, hruns⟩) (Or.inl hruns) nofun
  · by_cases hg' : g = call.request.session
    · rw [hg']
      exact hself
    · rw [SessionTable.entry, setSession_of_ne _ _ _ _ hg']
      exact hlisted g hg
  · obtain rfl := Option.some.inj hcarries
    exact hself

theorem RunInv.addSessionListStep_inv (hrun : RunInv s) (hk : s.calls[k]? = some call)
    (hpc : call.pc = .adding id)
    (hstep : addSessionListStep o s.memory call.request.session id = (m, pc)) :
    SessionsInv (s.advance k call s.table m pc) := by
  have hat := hrun.sessions.callAt k call hk
  have hfits := hat.fits
  rw [hpc] at hfits
  have hentry := hat.carried call.request.session (by rw [ClientCall.carries, hpc])
  have hrunning : call.pc.isReturned = false := by rw [hpc]; rfl
  have htakes : call.takes = none := by rw [ClientCall.takes, hpc]
  have hruns : call.runsOn call.request.session = true := by
    rw [ClientCall.runsOn, uses_session (Or.inl hfits), hpc]
    rfl
  have hid : id = 0 := hrun.held_eq_zero hk (by rw [hpc]; rfl)
  rw [addSessionListStep] at hstep
  split_ifs at hstep with hlocked
  · obtain ⟨rfl, rfl⟩ := Prod.mk.inj hstep
    exact hrun.open_quiet hk hrunning htakes rfl trivial
      (fun h => absurd (Option.some.inj h) (by decide)) rfl (by rintro ⟨⟩)
  · obtain ⟨rfl, rfl⟩ := Prod.mk.inj hstep
    subst hid
    obtain ⟨hnodup, hids, hcontext, hlisted⟩ := hrun.sessions.lists
    have hmem (g : Nat) : g ∈ ((s.memory.sessionList 0).filter (· ≠ call.request.session)).concat
        call.request.session ↔
          g ∈ s.memory.sessionList 0 ∧ g ≠ call.request.session ∨ g = call.request.session := by
      rw [List.concat_eq_append, List.mem_append, List.mem_filter, List.mem_singleton,
        decide_eq_true_iff]
    refine hrun.advance hk hrunning (Or.inl ⟨0, by rw [hpc]; rfl, hruns⟩)
      (fun g h => by cases htakes.symm.trans h) ⟨fun _ _ => rfl, fun g hg => ?_, fun l hl _ => hl, rfl⟩
      ⟨?_, hids, hcontext, fun g hg => ?_⟩
      ⟨trivial, by rintro _ _ ⟨⟩, by rintro _ ⟨⟩, by rintro _ ⟨⟩, fun _ _ => Or.inl ?_, by rintro _ _ ⟨⟩⟩
      (Or.inl ⟨hfits, hruns⟩) (Or.inl hruns) (by rintro ⟨⟩)
    · rw [setList_self, hmem]
      simp [hg]
    · rw [setList_self, List.concat_eq_append]
      refine List.nodup_append_comm.mp (List.nodup_cons.mpr ⟨fun h => ?_, hnodup.filter _⟩)
      exact absurd rfl (of_decide_eq_true (List.mem_filter.mp h).2)
    · rw [setList_self, hmem] at hg
      obtain ⟨hg, -⟩ | rfl := hg
      · exact hlisted g hg
      · exact hentry
    · rw [advance_sessionList, setList_self, hmem]
      exact Or.inr rfl

/-- Sessions that are open under the same id are the same. -/
theorem ListInv.owner_eq (hlists : ListInv m) (hg : m.entry g ∈ m.live) (hh : m.entry h ∈ m.live)
    (hid : (m.sessions g).sessionId = (m.sessions h).sessionId) : g = h :=
  congrArg LiveSession.owner (List.inj_on_of_nodup_map hlists.live_nodup hg hh hid)

theorem RunInv.findAndRemoveSessionStep_inv (hrun : RunInv s) (hk : s.calls[k]? = some call)
    (hpc : call.pc = .finding id)
    (hown : o.locked = true → ∀ g, findBnSession s.memory call.request.session id = some g →
      g = call.request.session)
    (hstep : findAndRemoveSessionStep o s.memory call.request.session id = (m, pc)) :
    SessionsInv (s.advance k call s.table m pc) := by
  have hfits := (hrun.sessions.callAt k call hk).fits
  rw [hpc] at hfits
  have hrunning : call.pc.isReturned = false := by rw [hpc]; rfl
  have htakes : call.takes = none := by rw [ClientCall.takes, hpc]
  have hruns : call.runsOn call.request.session = true := by
    rw [ClientCall.runsOn, uses_session (Or.inr hfits), hpc]
    rfl
  have hid : id = 0 := hrun.held_eq_zero hk (by rw [hpc]; rfl)
  have hquiet : SessionsInv (s.advance k call s.table s.memory (.put id teecSuccess)) := by
    refine hrun.sessions.quiet hk hrunning htakes rfl trivial (fun h => h) (fun hopen _ => ?_)
      (by rintro _ _ ⟨⟩)
    cases hr : call.request with
    | openSession =>
        rw [hr] at hfits
        cases hfits
    | _ =>
        rw [hr] at hopen
        cases hopen
  rw [findAndRemoveSessionStep] at hstep
  split_ifs at hstep with hlocked
  · obtain ⟨rfl, rfl⟩ := Prod.mk.inj hstep
    exact hquiet
  · cases hfind : findBnSession s.memory call.request.session id with
    | none =>
        rw [hfind] at hstep
        obtain ⟨rfl, rfl⟩ := Prod.mk.inj hstep
        exact hquiet
    | some g =>
        rw [hfind] at hstep
        obtain ⟨rfl, rfl⟩ := Prod.mk.inj hstep
        obtain rfl := hown (by simpa using hlocked) g hfind
        subst hid
        have hg : call.request.session ∈ s.memory.sessionList 0 := List.mem_of_find?_eq_some hfind
        obtain ⟨hnodup, hids, hcontext, hlisted⟩ := hrun.sessions.lists
        have hself : ({ call with pc := .closing 0 } : ClientCall) ∈
            (s.advance k call s.table (s.memory.setList 0
              ((s.memory.sessionList 0).erase call.request.session)) (.closing 0)).calls :=
          List.mem_of_getElem? (List.getElem?_set_self (List.getElem?_eq_some_iff.mp hk).1)
        refine hrun.advance hk hrunning (Or.inl ⟨0, by rw [hpc]; rfl, hruns⟩)
          (fun g h => by cases htakes.symm.trans h)
          ⟨fun _ _ => rfl, fun g hg => ?_, fun l hl _ => hl, rfl⟩
          ⟨?_, hids, hcontext, fun g hg => hlisted g ?_⟩
          ⟨hfits, by rintro _ _ ⟨⟩, fun g hcarries => ?_, fun g htakes => ?_, by rintro _ ⟨⟩,
            by rintro _ _ ⟨⟩⟩
          (Or.inr (Or.inr (Or.inr ⟨_, hself, rfl⟩))) (Or.inl hruns) (by rintro ⟨⟩)
        · rw [setList_self, List.mem_erase_of_ne hg]
        · rw [setList_self]
          exact hnodup.erase _
        · rw [setList_self] at hg
          exact List.mem_of_mem_erase hg
        · obtain rfl := Option.some.inj hcarries
          exact hlisted _ hg
        · obtain rfl := Option.some.inj htakes
          rw [advance_sessionList, setList_self]
          exact hnodup.not_mem_erase

@[simp] theorem closeRequest_sessionList : (closeRequest m h id).sessionList = m.sessionList := rfl

/-- The driver closes the session it knows under the id in the structure. -/
theorem ListInv.mem_closeRequest (hlists : ListInv m) (hh : m.entry h ∈ m.live) (l : LiveSession) :
    l ∈ (closeRequest m h 0).live ↔ l ∈ m.live ∧ l ≠ m.entry h := by
  have hmem : l ∈ (closeRequest m h 0).live ↔
      l ∈ m.live ∧ ¬ (l.context = 0 ∧ l.sessionId = (m.sessions h).sessionId) := by
    rw [closeRequest]
    exact List.mem_filter.trans (and_congr_right fun _ => decide_eq_true_iff)
  rw [hmem]
  refine and_congr_right fun hl => not_congr ⟨fun hid => ?_, fun heq => ?_⟩
  · exact List.inj_on_of_nodup_map hlists.live_nodup hl hh hid.2
  · rw [heq]
    exact ⟨rfl, rfl⟩

/-- The request to close a structure that the call took off the list. -/
theorem RunInv.closeRequest_inv (hrun : RunInv s) (hk : s.calls[k]? = some call)
    (hrunning : call.pc.isReturned = false) (hcarries : call.carries = some h)
    (htakes : call.takes = some h) (hreading : call.runsOn h = true ∨ 0 ∈ s.table.released)
    (hfits : pc.Fits call.request) (htakes' : ({ call with pc } : ClientCall).takes = some h)
    (hcarries' : ({ call with pc } : ClientCall).carries = none)
    (hresult : pc.result = some teecSuccess → call.pc.result = some teecSuccess)
    (hreads : pc.reads = false) :
    SessionsInv (s.advance k call s.table (closeRequest s.memory h 0) pc) := by
  have hat := hrun.sessions.callAt k call hk
  have hentry := hat.carried h hcarries
  have hmono (g : Nat) (hg : Good s g) :
      Good (s.advance k call s.table (closeRequest s.memory h 0) pc) g :=
    hg.advance hk Or.inl id fun hold => Or.inl (htakes'.trans (htakes.symm.trans hold))
  have hlive := hrun.sessions.lists.mem_closeRequest hentry
  have htaken : h ∉ s.memory.sessionList 0 := hat.taken h htakes
  have hpc : pc ≠ .returned teecSuccess := by
    rintro rfl
    cases htakes'
  obtain ⟨hnodup, hids, hcontext, hlisted⟩ := hrun.sessions.lists
  have hself : ({ call with pc } : ClientCall) ∈
      (s.advance k call s.table (closeRequest s.memory h 0) pc).calls :=
    List.mem_of_getElem? (List.getElem?_set_self (List.getElem?_eq_some_iff.mp hk).1)
  refine hrun.advance hk hrunning (grips_of_touches hat (touches_of_takes htakes))
    (fun g hg => Option.some.inj (hg.symm.trans htakes)) ⟨fun _ _ => rfl, fun _ _ => Iff.rfl,
    fun l hl howner => (hlive l).mpr ⟨hl, fun heq => howner (congrArg LiveSession.owner heq)⟩, rfl⟩
    ⟨hnodup, ?_, fun l hl => ?_, fun g hg => ?_⟩
    ⟨hfits, fun id sessionId heq => ?_, fun g hg => ?_, fun g hg => ?_, fun hopen hres => ?_,
      fun g _ hreads' => ?_⟩ (Or.inr (Or.inr (Or.inr ⟨_, hself, htakes'⟩))) hreading hpc
  · exact hids.sublist (List.filter_sublist.map _)
  · exact hcontext l ((hlive l).mp hl).1
  · refine (hlive _).mpr ⟨hlisted g hg, fun heq => htaken ?_⟩
    obtain rfl : g = h := congrArg LiveSession.owner heq
    exact hg
  · obtain rfl : pc = .opened id sessionId := heq
    cases htakes'
  · exact nomatch hcarries'.symm.trans hg
  · obtain rfl := Option.some.inj (htakes'.symm.trans hg)
    rw [advance_sessionList]
    exact htaken
  · exact hmono _ (hat.finished hopen (hresult hres))
  · rw [hreads] at hreads'
    cases hreads'

/-- The clearing of a structure that is not in the list. -/
theorem RunInv.wipeSession_inv (hrun : RunInv s) (hk : s.calls[k]? = some call)
    (hrunning : call.pc.isReturned = false) (htakes : call.takes = some h)
    (hreading : call.runsOn h = true ∨ 0 ∈ s.table.released) (hfits : pc.Fits call.request)
    (htouches : ({ call with pc } : ClientCall).touches = none)
    (hresult : call.request.isOpen = true → pc.result = some teecSuccess →
      call.pc.result = some teecSuccess)
    (hreads : pc.reads = false) (hpc : pc ≠ .returned teecSuccess) :
    SessionsInv (s.advance k call s.table (wipeSession s.memory h) pc) := by
  have hat := hrun.sessions.callAt k call hk
  have htaken : h ∉ s.memory.sessionList 0 := hat.taken h htakes
  have hself : ((wipeSession s.memory h).sessions h).context = none := by
    rw [wipeSession, setSession_self]
  have hcleared : Good (s.advance k call s.table (wipeSession s.memory h) pc) h := by
    refine Or.inr (Or.inl ?_)
    rw [advance_sessions]
    exact hself
  have hmono (g : Nat) (hg : Good s g) :
      Good (s.advance k call s.table (wipeSession s.memory h) pc) g := by
    by_cases hgh : g = h
    · rw [hgh]
      exact hcleared
    · refine hg.advance hk Or.inl (fun hnone => ?_) fun hold => ?_
      · rw [wipeSession, setSession_of_ne _ _ _ _ hgh]
        exact hnone
      · exact absurd (Option.some.inj (hold.symm.trans htakes)) hgh
  obtain ⟨hnodup, hids, hcontext, hlisted⟩ := hrun.sessions.lists
  refine hrun.advance hk hrunning (grips_of_touches hat (touches_of_takes htakes))
    (fun g hg => Option.some.inj (hg.symm.trans htakes))
    ⟨fun g hg => setSession_of_ne _ _ _ _ hg, fun _ _ => Iff.rfl, fun l hl _ => hl, rfl⟩
    ⟨hnodup, hids, hcontext, fun g hg => ?_⟩
    ⟨hfits, fun id sessionId heq => ?_, fun g hg => ?_, fun g hg => ?_, fun hopen hres => ?_,
      fun g _ hreads' => ?_⟩ (Or.inr hcleared) hreading hpc
  · have hgh : g ≠ h := by
      rintro rfl
      exact htaken hg
    rw [SessionTable.entry, wipeSession, setSession_of_ne _ _ _ _ hgh]
    exact hlisted g hg
  · obtain rfl : pc = .opened id sessionId := heq
    cases htouches
  · exact nomatch htouches.symm.trans (touches_of_carries hg)
  · exact nomatch htouches.symm.trans (touches_of_takes hg)
  · exact hmono _ (hat.finished hopen (hresult hopen hres))
  · rw [hreads] at hreads'
    cases hreads'

theorem RunInv.releaseNextStep_inv (hrun : RunInv s) (hk : s.calls[k]? = some call) {ret : UInt32}
    (hpc : call.pc = .releaseNext id ret) (hstep : releaseNextStep s.memory id ret = (m, pc)) :
    SessionsInv (s.advance k call s.table m pc) := by
  have hat := hrun.sessions.callAt k call hk
  have hrunning : call.pc.isReturned = false := by rw [hpc]; rfl
  have htakes : call.takes = none := by rw [ClientCall.takes, hpc]
  have hfin : call.pc.finalizing = some id := by rw [hpc]; rfl
  have hid : id = 0 := hrun.finalizing_eq_zero hk hfin
  have hresult (hopen : call.request.isOpen = true) (hret : ret = teecSuccess) :
      Good s call.request.session := hat.finished hopen (by rw [hpc, hret]; rfl)
  subst hid
  rw [releaseNextStep] at hstep
  cases hlist : s.memory.sessionList 0 with
  | nil =>
      rw [hlist] at hstep
      obtain ⟨rfl, rfl⟩ := Prod.mk.inj hstep
      refine hrun.sessions.quiet hk hrunning htakes rfl trivial (fun h => h) (fun hopen h => ?_)
        (by rintro _ _ ⟨⟩)
      obtain h | h := h
      · exact hresult hopen (Option.some.inj h)
      · cases h
  | cons h rest =>
      rw [hlist] at hstep
      obtain ⟨rfl, rfl⟩ := Prod.mk.inj hstep
      obtain ⟨hnodup, hids, hcontext, hlisted⟩ := hrun.sessions.lists
      rw [hlist] at hnodup hlisted
      obtain ⟨hnot, hnodup⟩ := List.nodup_cons.mp hnodup
      have hself : ({ call with pc := .releaseClosing 0 h ret } : ClientCall) ∈
          (s.advance k call s.table (s.memory.setList 0 rest) (.releaseClosing 0 h ret)).calls :=
        List.mem_of_getElem? (List.getElem?_set_self (List.getElem?_eq_some_iff.mp hk).1)
      have hmem (g : Nat) (hg : g ≠ h) : g ∈ rest ↔ g ∈ s.memory.sessionList 0 := by
        rw [hlist, List.mem_cons]
        exact (or_iff_right hg).symm
      have hmono (g : Nat) (hg : Good s g) :
          Good (s.advance k call s.table (s.memory.setList 0 rest) (.releaseClosing 0 h ret)) g := by
        refine hg.advance hk (fun hold => ?_) id fun hold => by cases htakes.symm.trans hold
        by_cases hgh : g = h
        · rw [hgh]
          exact Or.inr rfl
        · rw [setList_self]
          exact Or.inl ((hmem g hgh).mpr hold)
      refine hrun.advance hk hrunning (Or.inr ⟨0, hfin⟩) (fun g hg => by cases htakes.symm.trans hg)
        ⟨fun _ _ => rfl, fun g hg => ?_, fun l hl _ => hl, rfl⟩
        ⟨?_, hids, hcontext, fun g hg => ?_⟩
        ⟨trivial, by rintro _ _ ⟨⟩, fun g hg => ?_, fun g hg => ?_, fun hopen hres => ?_,
          by rintro _ _ ⟨⟩⟩
        (Or.inr (Or.inr (Or.inr ⟨_, hself, rfl⟩)))
        (Or.inr (hrun.released_of_finalizing hk hfin)) (by rintro ⟨⟩)
      · rw [setList_self]
        exact hmem g hg
      · rw [setList_self]
        exact hnodup
      · rw [setList_self] at hg
        exact hlisted g (List.mem_cons_of_mem h hg)
      · obtain rfl := Option.some.inj hg
        exact hlisted h List.mem_cons_self
      · obtain rfl := Option.some.inj hg
        rw [advance_sessionList, setList_self]
        exact hnot
      · exact hmono _ (hresult hopen (Option.some.inj hres))

/-- `FindAndRemoveSession` takes no other structure than its own off the list. -/
def OwnSession (s : ClientState) (k : Nat) (o : Outcome) : Prop :=
  ∀ call ∈ s.calls[k]?, ∀ id, call.pc = .finding id → o.locked = true →
    ∀ g, findBnSession s.memory call.request.session id = some g → g = call.request.session

theorem RunInv.memoryStep_inv (hrun : RunInv s) (hk : s.calls[k]? = some call)
    (hfresh : freshReply s.memory o call.pc) (hown : OwnSession s k o)
    (hstep : memoryStep o call.request s.memory call.pc = some (m, pc)) :
    SessionsInv (s.advance k call s.table m pc) := by
  have hat := hrun.sessions.callAt k call hk
  have hfits := hat.fits
  cases hpc : call.pc with
  | start =>
      rw [hpc] at hstep
      exact hrun.startStep_inv hk hpc (Option.some.inj hstep)
  | working c id =>
      rw [hpc] at hstep
      obtain ⟨rfl, rfl⟩ := Prod.mk.inj (Option.some.inj hstep)
      exact hrun.invokeStep_inv hk hpc
  | checking id =>
      rw [hpc] at hstep
      obtain ⟨rfl, rfl⟩ := Prod.mk.inj (Option.some.inj hstep)
      exact hrun.checking_inv hk hpc
  | opening id i =>
      rw [hpc] at hstep
      exact hrun.doOpenSessionStep_inv hk hpc hfresh (Option.some.inj hstep)
  | opened id sessionId =>
      rw [hpc] at hstep
      obtain ⟨rfl, rfl⟩ := Prod.mk.inj (Option.some.inj hstep)
      exact hrun.opened_inv hk hpc
  | adding id =>
      rw [hpc] at hstep
      exact hrun.addSessionListStep_inv hk hpc (Option.some.inj hstep)
  | finding id =>
      rw [hpc] at hstep
      exact hrun.findAndRemoveSessionStep_inv hk hpc (hown call hk id hpc) (Option.some.inj hstep)
  | closing id =>
      rw [hpc] at hstep hfits
      obtain ⟨rfl, rfl⟩ := Prod.mk.inj (Option.some.inj hstep)
      obtain rfl := hrun.held_eq_zero hk (by rw [hpc]; rfl : call.pc.held = some id)
      have hruns : call.runsOn call.request.session = true := by
        rw [ClientCall.runsOn, uses_session (Or.inr hfits), hpc]
        rfl
      exact hrun.closeRequest_inv hk (by rw [hpc]; rfl) (by rw [ClientCall.carries, hpc])
        (by rw [ClientCall.takes, hpc]) (Or.inl hruns) hfits rfl rfl nofun rfl
  | wiping id =>
      rw [hpc] at hstep hfits
      obtain ⟨rfl, rfl⟩ := Prod.mk.inj (Option.some.inj hstep)
      have hruns : call.runsOn call.request.session = true := by
        rw [ClientCall.runsOn, uses_session (Or.inr hfits), hpc]
        rfl
      refine hrun.wipeSession_inv hk (by rw [hpc]; rfl) (by rw [ClientCall.takes, hpc]) (Or.inl hruns)
        trivial rfl (fun hopen => ?_) rfl nofun
      cases hr : call.request with
      | openSession =>
          rw [hr] at hfits
          cases hfits
      | _ =>
          rw [hr] at hopen
          cases hopen
  | releasing id ret | releaseMemory id ret =>
      rw [hpc] at hstep
      obtain ⟨rfl, rfl⟩ := Prod.mk.inj (Option.some.inj hstep)
      split_ifs
      · exact hrun.sessions.afterPut hk (by rw [hpc]; rfl) (by rw [ClientCall.takes, hpc])
          (by rw [hpc]; rfl) fun h => h
      · refine hrun.sessions.quiet hk (by rw [hpc]; rfl) (by rw [ClientCall.takes, hpc]) rfl trivial
          (fun h => h) (fun hopen h => ?_) nofun
        obtain h | h := h
        · exact hat.finished hopen (by rw [hpc]; exact h)
        · cases h
  | releaseNext id ret =>
      rw [hpc] at hstep
      exact hrun.releaseNextStep_inv hk hpc (Option.some.inj hstep)
  | releaseClosing id h ret =>
      rw [hpc] at hstep
      obtain ⟨rfl, rfl⟩ := Prod.mk.inj (Option.some.inj hstep)
      have hfin : call.pc.finalizing = some id := by rw [hpc]; rfl
      obtain rfl := hrun.finalizing_eq_zero hk hfin
      exact hrun.closeRequest_inv hk (by rw [hpc]; rfl) (by rw [ClientCall.carries, hpc])
        (by rw [ClientCall.takes, hpc]) (Or.inr (hrun.released_of_finalizing hk hfin)) trivial rfl
        rfl (fun h => by rw [hpc]; exact h) rfl
  | releaseWiping id h ret =>
      rw [hpc] at hstep
      obtain ⟨rfl, rfl⟩ := Prod.mk.inj (Option.some.inj hstep)
      exact hrun.wipeSession_inv hk (by rw [hpc]; rfl) (by rw [ClientCall.takes, hpc])
        (Or.inr (hrun.released_of_finalizing hk (by rw [hpc]; rfl : call.pc.finalizing = some id)))
        trivial rfl (fun _ h => by rw [hpc]; exact h) rfl nofun
  | _ =>
      rw [hpc] at hstep
      cases hstep

/-! ### One context -/

theorem tableStep_next {r : Request} {t' : ContextTable} (hpc : pc ≠ .connect) {pc' : CallPc}
    (hstep : tableStep k o r t pc = some (t', pc')) : t'.next = t.next := by
  cases pc with
  | connect => exact absurd rfl hpc
  | insert id =>
      rw [tableStep, insertStep] at hstep
      split_ifs at hstep <;> obtain ⟨rfl, -⟩ := Prod.mk.inj (Option.some.inj hstep) <;> rfl
  | get c =>
      rw [tableStep, getBnContextStep] at hstep
      split_ifs at hstep
      · obtain ⟨rfl, -⟩ := Prod.mk.inj (Option.some.inj hstep)
        rfl
      · split at hstep <;> obtain ⟨rfl, -⟩ := Prod.mk.inj (Option.some.inj hstep) <;> rfl
  | remove c =>
      rw [tableStep, removeStep] at hstep
      split_ifs at hstep
      · obtain ⟨rfl, -⟩ := Prod.mk.inj (Option.some.inj hstep)
        rfl
      · split at hstep <;> obtain ⟨rfl, -⟩ := Prod.mk.inj (Option.some.inj hstep) <;> rfl
  | put id ret =>
      rw [tableStep, putBnContextStep] at hstep
      split_ifs at hstep <;> obtain ⟨rfl, -⟩ := Prod.mk.inj (Option.some.inj hstep) <;> rfl
  | counting | handing | releaseFd | reset =>
      obtain ⟨rfl, -⟩ := Prod.mk.inj (Option.some.inj hstep)
      rfl
  | _ => cases hstep

/-- Only a call of `TEEC_InitializeContext` comes to the point where a context is allocated, and it
comes there once. -/
def CallPc.Leads (r : Request) (pc pc' : CallPc) : Prop :=
  pc' ≠ .start ∧ (pc' = .connect → pc = .start ∧ r.isInitialize = true)

theorem CallPc.Leads.of_ne {r : Request} {pc pc' : CallPc} (hstart : pc' ≠ .start)
    (hconnect : pc' ≠ .connect) : pc.Leads r pc' :=
  ⟨hstart, fun h => absurd h hconnect⟩

theorem afterPut_leads (r : Request) (ret : UInt32) (pc : CallPc) : pc.Leads r (afterPut r ret) := by
  cases r <;> exact ⟨nofun, nofun⟩

theorem afterGet_leads (r : Request) (c id : Nat) (pc : CallPc) : pc.Leads r (afterGet r c id) := by
  cases r <;> exact ⟨nofun, nofun⟩

theorem tableStep_leads {r : Request} {t' : ContextTable} {pc' : CallPc}
    (hstep : tableStep k o r t pc = some (t', pc')) : pc.Leads r pc' := by
  cases pc with
  | connect =>
      rw [tableStep, connectStep] at hstep
      split_ifs at hstep <;> obtain ⟨-, rfl⟩ := Prod.mk.inj (Option.some.inj hstep) <;>
        exact .of_ne (by simp) (by simp)
  | insert id =>
      rw [tableStep, insertStep] at hstep
      split_ifs at hstep <;> obtain ⟨-, rfl⟩ := Prod.mk.inj (Option.some.inj hstep) <;>
        exact .of_ne (by simp) (by simp)
  | get c =>
      rw [tableStep, getBnContextStep] at hstep
      split_ifs at hstep
      · obtain ⟨-, rfl⟩ := Prod.mk.inj (Option.some.inj hstep)
        exact .of_ne (by simp) (by simp)
      · split at hstep <;> obtain ⟨-, rfl⟩ := Prod.mk.inj (Option.some.inj hstep) <;>
          exact .of_ne (by simp) (by simp)
  | remove c =>
      rw [tableStep, removeStep] at hstep
      split_ifs at hstep
      · obtain ⟨-, rfl⟩ := Prod.mk.inj (Option.some.inj hstep)
        exact .of_ne (by simp) (by simp)
      · split at hstep <;> obtain ⟨-, rfl⟩ := Prod.mk.inj (Option.some.inj hstep) <;>
          exact .of_ne (by simp) (by simp)
  | put id ret =>
      rw [tableStep, putBnContextStep] at hstep
      split_ifs at hstep <;> obtain ⟨-, rfl⟩ := Prod.mk.inj (Option.some.inj hstep)
      · exact .of_ne (by simp) (by simp)
      · exact afterPut_leads ..
  | counting c id =>
      obtain ⟨-, rfl⟩ := Prod.mk.inj (Option.some.inj hstep)
      exact afterGet_leads ..
  | releaseFd id ret =>
      obtain ⟨-, rfl⟩ := Prod.mk.inj (Option.some.inj hstep)
      exact afterPut_leads ..
  | handing | reset =>
      obtain ⟨-, rfl⟩ := Prod.mk.inj (Option.some.inj hstep)
      exact .of_ne (by simp) (by simp)
  | _ => cases hstep

theorem startStep_leads (o : Outcome) (m : SessionTable) (r : Request) :
    CallPc.Leads r .start (startStep o m r).2 := by
  cases r with
  | closeSession h | invokeCommand h =>
      rw [startStep]
      split
      · exact .of_ne (by simp) (by simp)
      · split <;> exact .of_ne (by simp) (by simp)
  | initializeContext c =>
      rw [startStep]
      split
      · exact .of_ne (by simp) (by simp)
      · exact ⟨by rintro ⟨⟩, fun _ => ⟨rfl, rfl⟩⟩
  | _ =>
      rw [startStep]
      split_ifs <;> exact .of_ne (by simp) (by simp)

theorem memoryStep_leads {r : Request} {m' : SessionTable} {pc' : CallPc}
    (hstep : memoryStep o r m pc = some (m', pc')) : pc.Leads r pc' := by
  cases pc with
  | start =>
      obtain rfl : (startStep o m r).2 = pc' := congrArg Prod.snd (Option.some.inj hstep)
      exact startStep_leads o m r
  | working | opened | closing | wiping | releaseClosing | releaseWiping =>
      obtain ⟨-, rfl⟩ := Prod.mk.inj (Option.some.inj hstep)
      exact .of_ne (by simp) (by simp)
  | checking id =>
      obtain ⟨-, rfl⟩ := Prod.mk.inj (Option.some.inj hstep)
      split_ifs <;> exact .of_ne (by simp) (by simp)
  | opening id i =>
      obtain rfl : (doOpenSessionStep o m r.session id i).2 = pc' :=
        congrArg Prod.snd (Option.some.inj hstep)
      rw [doOpenSessionStep]
      split_ifs <;> exact .of_ne (by simp) (by simp)
  | adding id =>
      obtain rfl : (addSessionListStep o m r.session id).2 = pc' :=
        congrArg Prod.snd (Option.some.inj hstep)
      rw [addSessionListStep]
      split_ifs <;> exact .of_ne (by simp) (by simp)
  | finding id =>
      obtain rfl : (findAndRemoveSessionStep o m r.session id).2 = pc' :=
        congrArg Prod.snd (Option.some.inj hstep)
      rw [findAndRemoveSessionStep]
      split_ifs
      · exact .of_ne (by simp) (by simp)
      · split <;> exact .of_ne (by simp) (by simp)
  | releasing id ret | releaseMemory id ret =>
      obtain ⟨-, rfl⟩ := Prod.mk.inj (Option.some.inj hstep)
      split_ifs
      · exact afterPut_leads ..
      · exact .of_ne (by simp) (by simp)
  | releaseNext id ret =>
      obtain rfl : (releaseNextStep m id ret).2 = pc' := congrArg Prod.snd (Option.some.inj hstep)
      rw [releaseNextStep]
      split <;> exact .of_ne (by simp) (by simp)
  | _ => cases hstep

/-- A call of one context goes on. -/
theorem SingleContext.advance (hsingle : SingleContext s) (hk : s.calls[k]? = some call)
    (hleads : call.pc.Leads call.request pc)
    (hnext : t.next = s.table.next ∨ call.pc = .connect ∧ t.next = s.table.next + 1) :
    SingleContext (s.advance k call t m pc) := by
  have hlt : k < s.calls.length := (List.getElem?_eq_some_iff.mp hk).1
  have hfirst := hsingle.first k call hk
  refine ⟨?_, fun hnil => ?_, fun j call' hj hstart => ?_⟩
  · obtain heq | ⟨hpc, heq⟩ := hnext
    · exact heq.le.trans hsingle.next_le
    · have hzero := (hfirst (Or.inr hpc)).2
      exact heq.le.trans (by omega)
  · have hlen : (s.advance k call t m pc).calls.length = s.calls.length := List.length_set
    rw [hnil, List.length_nil] at hlen
    omega
  · have hold (hne : call.pc ≠ .connect) : t.next = s.table.next := by
      obtain heq | ⟨hpc, -⟩ := hnext
      · exact heq
      · exact absurd hpc hne
    rw [ClientState.advance] at hj
    obtain ⟨rfl, rfl⟩ | ⟨hjk, hj⟩ := getElem?_set_cases hj
    · obtain ⟨h, -⟩ | h := hstart
      · exact absurd h hleads.1
      · have hstart := hleads.2 h
        obtain ⟨hzero, hnext'⟩ := hfirst (Or.inl hstart)
        exact ⟨hzero, (hold (by rw [hstart.1]; exact nofun)).trans hnext'⟩
    · obtain ⟨hzero, hnext'⟩ := hsingle.first j call' hj hstart
      refine ⟨hzero, (hold fun hpc => ?_).trans hnext'⟩
      exact hjk ((hfirst (Or.inr hpc)).1.trans hzero.symm)

theorem tableStep_next_connect {r : Request} {t' : ContextTable} {pc' : CallPc}
    (hstep : tableStep k o r t pc = some (t', pc')) :
    t'.next = t.next ∨ pc = .connect ∧ t'.next = t.next + 1 := by
  by_cases hpc : pc = .connect
  · subst hpc
    rw [tableStep, connectStep] at hstep
    split_ifs at hstep <;> obtain ⟨rfl, -⟩ := Prod.mk.inj (Option.some.inj hstep)
    · exact Or.inl rfl
    · exact Or.inr ⟨rfl, rfl⟩
  · exact Or.inl (tableStep_next hpc hstep)

/-! ### What `TEEC_OpenSession` returned last -/

theorem memoryStep_lastOpen {r : Request} {m' : SessionTable} {pc' : CallPc}
    (hstep : memoryStep o r m pc = some (m', pc')) : m'.lastOpen = m.lastOpen := by
  cases pc with
  | start =>
      obtain rfl : (startStep o m r).1 = m' := congrArg Prod.fst (Option.some.inj hstep)
      cases r with
      | closeSession h | invokeCommand h =>
          rw [startStep]
          split
          · rfl
          · split <;> rfl
      | _ =>
          rw [startStep]
          split_ifs <;> rfl
  | working c id =>
      obtain ⟨rfl, -⟩ := Prod.mk.inj (Option.some.inj hstep)
      cases r with
      | invokeCommand h =>
          rw [invokeStep]
          split_ifs <;> rfl
      | _ => rfl
  | opened | closing | wiping | releaseClosing | releaseWiping | checking | releasing
  | releaseMemory =>
      obtain ⟨rfl, -⟩ := Prod.mk.inj (Option.some.inj hstep)
      rfl
  | opening id i =>
      obtain rfl : (doOpenSessionStep o m r.session id i).1 = m' :=
        congrArg Prod.fst (Option.some.inj hstep)
      rw [doOpenSessionStep]
      split_ifs <;> rfl
  | adding id =>
      obtain rfl : (addSessionListStep o m r.session id).1 = m' :=
        congrArg Prod.fst (Option.some.inj hstep)
      rw [addSessionListStep]
      split_ifs <;> rfl
  | finding id =>
      obtain rfl : (findAndRemoveSessionStep o m r.session id).1 = m' :=
        congrArg Prod.fst (Option.some.inj hstep)
      rw [findAndRemoveSessionStep]
      split_ifs
      · rfl
      · split <;> rfl
  | releaseNext id ret =>
      obtain rfl : (releaseNextStep m id ret).1 = m' := congrArg Prod.fst (Option.some.inj hstep)
      rw [releaseNextStep]
      split <;> rfl
  | _ => cases hstep

/-- The calls go on, and only a call of `TEEC_OpenSession` that returns changes what is recorded for
its structure. -/
theorem callStep_lastOpen (hstep : callStep k o s call = some s') :
    ∃ pc, s'.calls = s.calls.set k { call with pc } ∧ call.pc.isReturned = false ∧ ∀ h,
      s'.memory.lastOpen h = s.memory.lastOpen h ∨
        call.request.isOpen = true ∧ call.request.uses h = true ∧ s'.memory.lastOpen h ≠ none := by
  have hrecord (m : SessionTable) (hm : m.lastOpen = s.memory.lastOpen) (pc : CallPc) (h : Nat) :
      (m.record call.request pc).lastOpen h = s.memory.lastOpen h ∨ call.request.isOpen = true ∧
        call.request.uses h = true ∧ (m.record call.request pc).lastOpen h ≠ none := by
    by_cases hcall : call.request.isOpen = true ∧ call.request.uses h = true
    · cases pc with
      | returned ret =>
          refine Or.inr ⟨hcall.1, hcall.2, ?_⟩
          rw [record_lastOpen_returned m call.request hcall.1 hcall.2 ret]
          exact nofun
      | _ => exact Or.inl (congrFun hm h)
    · rw [record_lastOpen_of_not m call.request pc hcall, hm]
      exact Or.inl rfl
  rw [callStep] at hstep
  split_ifs at hstep with htable
  · obtain ⟨⟨t, pc⟩, -, rfl⟩ := Option.map_eq_some_iff.mp hstep
    refine ⟨pc, rfl, ?_, hrecord s.memory rfl pc⟩
    cases hpc : call.pc with
    | returned ret =>
        rw [hpc] at htable
        cases htable
    | _ => rfl
  · obtain ⟨⟨m, pc⟩, hmstep, rfl⟩ := Option.map_eq_some_iff.mp hstep
    exact ⟨pc, rfl, (memoryStep_quiet hmstep).1, hrecord m (memoryStep_lastOpen hmstep) pc⟩

/-! ### Steps and runs -/

/-- The beginning of a call. -/
theorem RunInv.begin_inv (hrun : RunInv s) {r : Request} (hdisc : Disciplined s (.call r))
    (hrunning : running s.calls < maxThreads) :
    RunInv { s with calls := s.calls ++ [⟨r, .start⟩] } := by
  have hgood (g : Nat) (hg : Good s g) : Good { s with calls := s.calls ++ [⟨r, .start⟩] } g :=
    hg.imp_right fun h => h.imp_right fun ⟨call, hmem, htakes⟩ =>
      ⟨call, List.mem_append_left _ hmem, htakes⟩
  have hcases {j : Nat} {call' : ClientCall} (hj : (s.calls ++ [⟨r, .start⟩])[j]? = some call') :
      s.calls[j]? = some call' ∨ j = s.calls.length ∧ call' = ⟨r, .start⟩ := by
    rw [List.getElem?_append] at hj
    split_ifs at hj with hlt
    · exact Or.inl hj
    · have hlt' := (List.getElem?_eq_some_iff.mp hj).1
      rw [List.length_singleton] at hlt'
      exact Or.inr ⟨by omega, List.mem_singleton.mp (List.mem_of_getElem? hj)⟩
  refine ⟨hrun.contexts.begin_inv r hrunning, ⟨hrun.single.next_le, fun hnil => ?_,
    fun j call' hj hstart => ?_⟩, ⟨hrun.sessions.lists, fun j call' hj => ?_, fun h => ?_,
    fun h hopen => ?_⟩⟩
  · simp at hnil
  · obtain hj | ⟨rfl, rfl⟩ := hcases hj
    · exact hrun.single.first j call' hj hstart
    · obtain ⟨-, hinit⟩ | h := hstart
      · cases r with
        | initializeContext c =>
            have hnil : s.calls = [] := hdisc
            exact ⟨by rw [hnil]; rfl, hrun.single.idle hnil⟩
        | _ => cases hinit
      · cases h
  · obtain hj | ⟨-, rfl⟩ := hcases hj
    · exact (hrun.sessions.callAt j call' hj).frame (fun h _ => ⟨rfl, fun hmem => hmem,
        fun l hl _ => hl⟩) (fun h _ => hgood h) fun h _ hreading => hreading
    · exact ⟨trivial, nofun, nofun, nofun, nofun, nofun⟩
  · rw [List.countP_append, List.countP_singleton]
    have hle := hrun.sessions.running_le h
    split_ifs with hruns
    · have hzero : s.calls.countP (ClientCall.runsOn h) = 0 := by
        rw [List.countP_eq_zero]
        intro call' hmem
        have huses : r.uses h = true := (Bool.and_eq_true_iff.mp hruns).1
        cases r with
        | openSession c g | invokeCommand g =>
            obtain rfl : g = h := beq_iff_eq.mp huses
            rw [hdisc call' hmem]
            exact Bool.false_ne_true
        | closeSession g =>
            obtain rfl : g = h := beq_iff_eq.mp huses
            rw [hdisc.1 call' hmem]
            exact Bool.false_ne_true
        | _ => cases huses
      omega
    · exact hle
  · refine (hrun.sessions.good h hopen).imp (fun ⟨call, hmem, hcall⟩ => ?_) (hgood h)
    exact ⟨call, List.mem_append_left _ hmem, hcall⟩

theorem RunInv.callStep_inv (hrun : RunInv s) (hk : s.calls[k]? = some call)
    (hfresh : freshReply s.memory o call.pc) (hown : OwnSession s k o)
    (hstep : callStep k o s call = some s') : RunInv s' := by
  have hcontexts := hrun.contexts.callStep_inv hk hstep
  rw [callStep] at hstep
  split_ifs at hstep with htable
  · obtain ⟨⟨t, pc⟩, htstep, rfl⟩ := Option.map_eq_some_iff.mp hstep
    exact ⟨hcontexts, hrun.single.advance hk (tableStep_leads htstep) (tableStep_next_connect htstep),
      hrun.sessions.tableStep_inv hk htstep⟩
  · obtain ⟨⟨m, pc⟩, hmstep, rfl⟩ := Option.map_eq_some_iff.mp hstep
    exact ⟨hcontexts, hrun.single.advance hk (memoryStep_leads hmstep) (Or.inl rfl),
      hrun.memoryStep_inv hk hfresh hown hmstep⟩

theorem RunInv.clientStep_inv (hrun : RunInv s) {a : ClientAction} (hdisc : Disciplined s a)
    (hown : ∀ k o, a = .run k o → OwnSession s k o) (hstep : clientStep s a = some s') :
    RunInv s' := by
  cases a with
  | call r =>
      rw [clientStep] at hstep
      split_ifs at hstep with hrunning
      obtain rfl := Option.some.inj hstep
      exact hrun.begin_inv hdisc hrunning
  | run k o =>
      obtain ⟨call, hk, hstep⟩ := Option.bind_eq_some_iff.mp hstep
      exact hrun.callStep_inv hk (hdisc call hk) (hown k o rfl) hstep

theorem initial_runInv (clientFd : Nat → Int) (sessions : Nat → Session) :
    RunInv (.initial clientFd sessions) :=
  ⟨initial_contextInv clientFd sessions, ⟨Nat.zero_le 1, fun _ => rfl, nofun⟩,
    ⟨⟨List.nodup_nil, List.nodup_nil, nofun, nofun⟩, nofun, fun _ => Nat.zero_le 1, nofun⟩⟩

end ITrustee.Libteec
