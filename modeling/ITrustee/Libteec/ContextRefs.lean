import Mathlib.Tactic
import ITrustee.Foundation.RefCount
import ITrustee.Libteec.ContextCalls

/-!
# The reference counts of the contexts

The count of a context is the number of calls that hold a reference on it, and one more for the list
while the context is in it. `GetBnContext` finds a context in the list under the lock, and the lock is
what keeps it there until it is counted. So a count that reaches zero stays zero, and the call that
brought it there is the only one to release the context.
-/

namespace ITrustee.Libteec

open RefCount

/-- The context that the call holds a reference on. -/
def CallPc.held : CallPc → Option Nat
  | .insert id | .handing _ id | .working _ id | .checking id | .opening id _ | .opened id _
  | .adding id | .finding id | .closing id | .wiping id | .put id _ => some id
  | _ => none

/-- The context that the call is about to count. -/
def CallPc.locking : CallPc → Option Nat
  | .counting _ id => some id
  | _ => none

/-- The context that the call is about to list. -/
def CallPc.inserting : CallPc → Option Nat
  | .insert id => some id
  | _ => none

/-- The context whose final release the call runs. -/
def CallPc.finalizing : CallPc → Option Nat
  | .releasing id _ | .releaseNext id _ | .releaseClosing id _ _ | .releaseWiping id _ _
  | .releaseMemory id _ | .releaseFd id _ => some id
  | _ => none

/-- A final release begins once, after the context has left the list and no call holds it, and the
contexts in the list have different descriptors. -/
structure ContextsSound (s : ClientState) : Prop where
  released_once : s.table.released.Nodup
  released_unlisted : ∀ id ∈ s.table.released, id ∉ s.table.teecContextList
  released_unheld : ∀ id ∈ s.table.released, ∀ call ∈ s.calls,
    call.pc.held ≠ some id ∧ call.pc.locking ≠ some id
  fds_distinct : (s.table.teecContextList.map fun id => (s.table.contexts id).fd).Nodup

/-! ### Updates of the contexts -/

section Updates

variable (t : ContextTable) (id j : Nat) (opsCnt : UInt32) (fd : Int)

theorem setOpsCnt_contexts : (t.setOpsCnt id opsCnt).contexts j =
    if j = id then { t.contexts id with opsCnt } else t.contexts j :=
  Function.update_apply ..

@[simp] theorem setOpsCnt_fd : ((t.setOpsCnt id opsCnt).contexts j).fd = (t.contexts j).fd := by
  rw [setOpsCnt_contexts]
  split_ifs with hj
  · rw [hj]
  · rfl

theorem setOpsCnt_opsCnt :
    ((t.setOpsCnt id opsCnt).contexts j).opsCnt = if j = id then opsCnt else (t.contexts j).opsCnt := by
  rw [setOpsCnt_contexts]
  split_ifs <;> rfl

theorem allocate_contexts :
    (t.allocate fd).contexts j = if j = t.next then { fd, opsCnt := 1 } else t.contexts j :=
  Function.update_apply ..

end Updates

/-! ### The invariant -/

theorem CallPc.held_of_inserting {pc : CallPc} {id : Nat} (h : pc.inserting = some id) :
    pc.held = some id := by
  cases pc with
  | insert => exact h
  | _ => cases h

def holders (calls : List ClientCall) (id : Nat) : Nat :=
  calls.countP fun call => call.pc.held == some id

def finalizers (calls : List ClientCall) (id : Nat) : Nat :=
  calls.countP fun call => call.pc.finalizing == some id

def running (calls : List ClientCall) : Nat := calls.countP fun call => !call.pc.isReturned

/-- The context is allocated and not given back. -/
def ContextTable.Alive (t : ContextTable) (id : Nat) : Prop := id < t.next ∧ id ∉ t.freed

structure TableInv (t : ContextTable) : Prop where
  list_nodup : t.teecContextList.Nodup
  listed : ∀ id ∈ t.teecContextList, t.Alive id
  released_nodup : t.released.Nodup
  released : ∀ id ∈ t.released, id < t.next ∧ (t.contexts id).opsCnt = 0
  freed : ∀ id ∈ t.freed, id < t.next
  fd_open : ∀ id, t.Alive id → (t.contexts id).fd ∈ t.openFds
  fd_inj : ∀ id id', t.Alive id → t.Alive id' → (t.contexts id).fd = (t.contexts id').fd → id = id'

/-- What call `k` relies on when it is at `pc`. -/
structure CallAt (t : ContextTable) (k : Nat) (pc : CallPc) : Prop where
  held : ∀ id, pc.held = some id → t.Alive id
  locking : ∀ id, pc.locking = some id → t.mutexTeecContext = some k ∧ id ∈ t.teecContextList
  inserting : ∀ id, pc.inserting = some id →
    id ∉ t.teecContextList ∧ (t.contexts id).opsCnt = 1
  finalizing : ∀ id, pc.finalizing = some id → id ∈ t.released ∧ t.Alive id

structure ContextInv (t : ContextTable) (calls : List ClientCall) : Prop where
  table : TableInv t
  callAt : ∀ k call, calls[k]? = some call → CallAt t k call.pc
  balance : ∀ id, id ∉ t.freed →
    (t.contexts id).opsCnt.toNat = holders calls id + t.teecContextList.count id
  finalizers_le : ∀ id, finalizers calls id ≤ 1
  running_le : running calls ≤ maxThreads

variable {t t' : ContextTable} {calls : List ClientCall} {call : ClientCall} {k c id : Nat}
  {pc : CallPc} {o : Outcome}

theorem holders_pos (h : call ∈ calls) (hheld : call.pc.held = some id) : 0 < holders calls id :=
  List.countP_pos_iff.mpr ⟨call, h, beq_iff_eq.mpr hheld⟩

theorem holders_set (hk : calls[k]? = some call) (pc : CallPc) (id : Nat) :
    holders (calls.set k { call with pc }) id + (call.pc.held == some id).toNat =
      holders calls id + (pc.held == some id).toNat := by
  rw [holders, holders]
  exact countP_set_add (b := { call with pc }) (fun call => call.pc.held == some id) hk

theorem holders_le_running (calls : List ClientCall) (id : Nat) :
    holders calls id ≤ running calls := by
  apply List.countP_mono_left
  intro call _ hheld
  cases hpc : call.pc with
  | returned ret =>
      rw [hpc] at hheld
      cases hheld
  | _ => rfl

theorem running_set_le (hk : calls[k]? = some call) (hrunning : call.pc.isReturned = false) :
    running (calls.set k { call with pc }) ≤ running calls := by
  have hset := countP_set_add (b := { call with pc }) (fun call => !call.pc.isReturned) hk
  have hle : (!pc.isReturned).toNat ≤ 1 := Bool.toNat_le _
  simp only [hrunning, Bool.not_false, Bool.toNat_true] at hset
  rw [running, running]
  omega

theorem finalizers_set_le (hk : calls[k]? = some call) (hle : finalizers calls id ≤ 1)
    (hnew : pc.finalizing = some id → call.pc.finalizing = some id ∨ finalizers calls id = 0) :
    finalizers (calls.set k { call with pc }) id ≤ 1 := by
  have hset := countP_set_add (b := { call with pc }) (fun call => call.pc.finalizing == some id) hk
  rw [finalizers] at hle hnew ⊢
  by_cases hpc : pc.finalizing = some id
  · simp only [hpc, beq_self_eq_true, Bool.toNat_true] at hset
    obtain hold | hzero := hnew hpc
    · simp only [hold, beq_self_eq_true, Bool.toNat_true] at hset
      omega
    · omega
  · rw [beq_eq_false_iff_ne.mpr hpc] at hset
    simp only [Bool.toNat_false] at hset
    omega

/-- A step of call `k` keeps the invariant when the contexts are in order after it, the other calls can
still rely on them, and the count moved with the reference of the call and that of the list. -/
theorem ContextInv.move (h : ContextInv t calls) (hk : calls[k]? = some call)
    (hrunning : call.pc.isReturned = false) (htable : TableInv t') (hnew : CallAt t' k pc)
    (hothers : ∀ j call', j ≠ k → calls[j]? = some call' → CallAt t j call'.pc → CallAt t' j call'.pc)
    (hfreed : ∀ id ∈ t.freed, id ∈ t'.freed)
    (hbalance : ∀ id, id ∉ t'.freed →
      (t'.contexts id).opsCnt.toNat + (call.pc.held == some id).toNat + t.teecContextList.count id =
        (t.contexts id).opsCnt.toNat + (pc.held == some id).toNat + t'.teecContextList.count id)
    (hfinalizing : ∀ id, pc.finalizing = some id →
      call.pc.finalizing = some id ∨ finalizers calls id = 0) :
    ContextInv t' (calls.set k { call with pc }) := by
  refine ⟨htable, fun j call' hj => ?_, fun id hid => ?_, fun id => ?_, ?_⟩
  · obtain ⟨rfl, rfl⟩ | ⟨hjk, hj⟩ := getElem?_set_cases hj
    · exact hnew
    · exact hothers j call' (Ne.symm hjk) hj (h.callAt j call' hj)
  · have hset := holders_set hk pc id
    have hold := h.balance id fun hmem => hid (hfreed id hmem)
    have hmove := hbalance id hid
    omega
  · exact finalizers_set_le hk (h.finalizers_le id) (hfinalizing id)
  · exact (running_set_le hk hrunning).trans h.running_le

/-- A counted context is not one whose release has begun. -/
theorem ContextInv.not_released (h : ContextInv t calls) (hid : id ∉ t.freed)
    (hpos : 0 < holders calls id + t.teecContextList.count id) : id ∉ t.released := by
  intro hmem
  have hbalance := h.balance id hid
  rw [(h.table.released id hmem).2] at hbalance
  exact absurd hbalance (Nat.ne_of_lt hpos)

theorem ContextInv.finalizers_eq_zero (h : ContextInv t calls) (hid : id ∉ t.released) :
    finalizers calls id = 0 := by
  rw [finalizers, List.countP_eq_zero]
  intro call hmem hfinalizing
  obtain ⟨j, hj⟩ := List.mem_iff_getElem?.mp hmem
  exact hid ((h.callAt j call hj).finalizing id (beq_iff_eq.mp hfinalizing)).1

/-- A context that the list has lost and that counts one reference is held by nobody else. -/
theorem ContextInv.sole_holder (h : ContextInv t calls) {j : Nat} {call' : ClientCall}
    (hk : calls[k]? = some call) (hheld : call.pc.held = some id) (hj : calls[j]? = some call')
    (hne : j ≠ k) (hone : (t.contexts id).opsCnt.toNat ≤ 1) : call'.pc.held ≠ some id := by
  intro hheld'
  have halive := (h.callAt k call hk).held id hheld
  have htwo := two_le_countP (p := fun call => call.pc.held == some id) hj hk hne
    (beq_iff_eq.mpr hheld') (beq_iff_eq.mpr hheld)
  have hbalance := h.balance id halive.2
  rw [holders] at hbalance
  omega

theorem TableInv.congr (h : TableInv t) (hlist : t'.teecContextList = t.teecContextList)
    (hnext : t'.next = t.next) (hfreed : t'.freed = t.freed) (hopen : t'.openFds = t.openFds)
    (hfd : ∀ id, (t'.contexts id).fd = (t.contexts id).fd) (hnodup : t'.released.Nodup)
    (hreleased : ∀ id ∈ t'.released, id < t.next ∧ (t'.contexts id).opsCnt = 0) : TableInv t' := by
  have halive (id : Nat) : t'.Alive id ↔ t.Alive id := by
    rw [ContextTable.Alive, ContextTable.Alive, hnext, hfreed]
  refine ⟨hlist ▸ h.list_nodup, fun id hid => ?_, hnodup, fun id hid => ?_, fun id hid => ?_,
    fun id hid => ?_, fun i j hi hj hij => ?_⟩
  · exact (halive id).mpr (h.listed id (hlist ▸ hid))
  · rw [hnext]
    exact hreleased id hid
  · rw [hnext]
    exact h.freed id (hfreed ▸ hid)
  · rw [hfd, hopen]
    exact h.fd_open id ((halive id).mp hid)
  · rw [hfd, hfd] at hij
    exact h.fd_inj i j ((halive i).mp hi) ((halive j).mp hj) hij

theorem TableInv.closeFd (h : TableInv t) (hid : t.Alive id) (hlist : id ∉ t.teecContextList) :
    TableInv (closeFd t id) := by
  have halive (j : Nat) (hj : (ITrustee.Libteec.closeFd t id).Alive j) : t.Alive j ∧ j ≠ id := by
    obtain ⟨hlt, hnot⟩ := hj
    rw [ITrustee.Libteec.closeFd, List.mem_append, List.mem_singleton, not_or] at hnot
    exact ⟨⟨hlt, hnot.1⟩, hnot.2⟩
  refine ⟨h.list_nodup, fun j hj => ?_, h.released_nodup, h.released, fun j hj => ?_,
    fun j hj => ?_, fun i j hi hj => ?_⟩
  · obtain ⟨hlt, hnot⟩ := h.listed j hj
    refine ⟨hlt, fun hmem => ?_⟩
    obtain hmem | hmem := List.mem_append.mp hmem
    · exact hnot hmem
    · exact hlist (List.mem_singleton.mp hmem ▸ hj)
  · obtain hmem | hmem := List.mem_append.mp hj
    · exact h.freed j hmem
    · exact List.mem_singleton.mp hmem ▸ hid.1
  · obtain ⟨hj, hne⟩ := halive j hj
    refine (List.mem_erase_of_ne fun heq => ?_).mpr (h.fd_open j hj)
    exact hne (h.fd_inj j id hj hid heq)
  · exact h.fd_inj i j (halive i hi).1 (halive j hj).1

theorem TableInv.allocate (h : TableInv t) {fd : Int} (hfd : fd ∉ t.openFds) :
    TableInv (t.allocate fd) := by
  have hcases (j : Nat) (hj : (t.allocate fd).Alive j) :
      j = t.next ∧ ((t.allocate fd).contexts j).fd = fd ∨
        t.Alive j ∧ ((t.allocate fd).contexts j).fd = (t.contexts j).fd := by
    rw [allocate_contexts]
    obtain ⟨hlt, hnot⟩ := hj
    obtain heq | hlt := Nat.eq_or_lt_of_le (Nat.le_of_lt_succ hlt)
    · rw [if_pos heq]
      exact Or.inl ⟨heq, rfl⟩
    · rw [if_neg (Nat.ne_of_lt hlt)]
      exact Or.inr ⟨⟨hlt, hnot⟩, rfl⟩
  refine ⟨h.list_nodup, fun j hj => ?_, h.released_nodup, fun j hj => ?_,
    fun j hj => Nat.lt_succ_of_lt (h.freed j hj), fun j hj => ?_, fun i j hi hj hij => ?_⟩
  · obtain ⟨hlt, hnot⟩ := h.listed j hj
    exact ⟨Nat.lt_succ_of_lt hlt, hnot⟩
  · obtain ⟨hlt, hzero⟩ := h.released j hj
    rw [allocate_contexts, if_neg (Nat.ne_of_lt hlt)]
    exact ⟨Nat.lt_succ_of_lt hlt, hzero⟩
  · apply List.mem_append.mpr
    obtain ⟨-, heq⟩ | ⟨hj, heq⟩ := hcases j hj
    · rw [heq]
      exact Or.inr (List.mem_singleton_self fd)
    · rw [heq]
      exact Or.inl (h.fd_open j hj)
  · obtain ⟨rfl, hi'⟩ | ⟨hi, hi'⟩ := hcases i hi
    · obtain ⟨rfl, -⟩ | ⟨hj, hj'⟩ := hcases j hj
      · rfl
      · rw [hi', hj'] at hij
        exact absurd (hij ▸ h.fd_open j hj) hfd
    · obtain ⟨rfl, hj'⟩ | ⟨hj, hj'⟩ := hcases j hj
      · rw [hi', hj'] at hij
        exact absurd (hij ▸ h.fd_open i hi) hfd
      · rw [hi', hj'] at hij
        exact h.fd_inj i j hi hj hij

/-! ### The steps of one call -/

/-- The call goes on with the references it has, and its step leaves the contexts alone. -/
structure QuietMove (pc pc' : CallPc) : Prop where
  held : pc'.held = pc.held
  locking : pc'.locking = none
  inserting : pc'.inserting = none
  finalizing : pc'.finalizing = none ∨ pc'.finalizing = pc.finalizing

theorem ContextInv.quiet (h : ContextInv t calls) (hk : calls[k]? = some call)
    (hrunning : call.pc.isReturned = false) (hmove : QuietMove call.pc pc) (clientFd : Nat → Int) :
    ContextInv { t with clientFd } (calls.set k { call with pc }) := by
  have hat := h.callAt k call hk
  refine h.move hk hrunning ⟨h.table.list_nodup, h.table.listed, h.table.released_nodup,
    h.table.released, h.table.freed, h.table.fd_open, h.table.fd_inj⟩ ⟨fun id hid => ?_, fun id hid => ?_,
    fun id hid => ?_, fun id hid => ?_⟩ (fun j call' _ _ hat => ⟨hat.held, hat.locking, hat.inserting,
    hat.finalizing⟩) (fun id hid => hid) (fun id _ => ?_) fun id hid => ?_
  · exact hat.held id (hmove.held ▸ hid)
  · rw [hmove.locking] at hid
    cases hid
  · rw [hmove.inserting] at hid
    cases hid
  · obtain hnone | hsame := hmove.finalizing
    · rw [hnone] at hid
      cases hid
    · exact hat.finalizing id (hsame ▸ hid)
  · rw [hmove.held]
  · obtain hnone | hsame := hmove.finalizing
    · rw [hnone] at hid
      cases hid
    · exact Or.inl (hsame ▸ hid)

theorem ContextInv.connectStep_inv (h : ContextInv t calls) (hk : calls[k]? = some call)
    (hpc : call.pc = .connect) (hstep : connectStep o t = some (t', pc)) :
    ContextInv t' (calls.set k { call with pc }) := by
  have hrunning : call.pc.isReturned = false := by rw [hpc]; rfl
  rw [connectStep] at hstep
  split_ifs at hstep with herror hopen
  · obtain ⟨rfl, rfl⟩ := Prod.mk.inj (Option.some.inj hstep)
    exact h.quiet hk hrunning (by rw [hpc]; exact ⟨rfl, rfl, rfl, Or.inl rfl⟩) t.clientFd
  · obtain ⟨rfl, rfl⟩ := Prod.mk.inj (Option.some.inj hstep)
    have hnew : t.next ∉ t.freed := fun hid => Nat.lt_irrefl _ (h.table.freed _ hid)
    have hunlisted : t.next ∉ t.teecContextList := fun hid =>
      Nat.lt_irrefl _ (h.table.listed _ hid).1
    have hold (id : Nat) (hid : t.Alive id) : (t.allocate o.fd).Alive id ∧
        (t.allocate o.fd).contexts id = t.contexts id := by
      rw [allocate_contexts, if_neg (Nat.ne_of_lt hid.1)]
      exact ⟨⟨Nat.lt_succ_of_lt hid.1, hid.2⟩, rfl⟩
    have hunheld : holders calls t.next = 0 := by
      rw [holders, List.countP_eq_zero]
      intro call' hmem hheld
      obtain ⟨j, hj⟩ := List.mem_iff_getElem?.mp hmem
      exact Nat.lt_irrefl _ ((h.callAt j call' hj).held _ (beq_iff_eq.mp hheld)).1
    refine h.move hk hrunning (h.table.allocate hopen) ⟨fun id hid => ?_, nofun, fun id hid => ?_,
      nofun⟩ (fun j call' hne hj hat => ⟨fun id hid => ?_, hat.locking, fun id hid => ?_,
      fun id hid => ?_⟩) (fun id hid => hid) (fun id hid => ?_) nofun
    · obtain rfl := Option.some.inj hid
      exact ⟨Nat.lt_succ_self _, hnew⟩
    · obtain rfl := Option.some.inj hid
      rw [allocate_contexts, if_pos rfl]
      exact ⟨hunlisted, rfl⟩
    · exact (hold id (hat.held id hid)).1
    · rw [(hold id (hat.held id (CallPc.held_of_inserting hid))).2]
      exact hat.inserting id hid
    · exact ⟨(hat.finalizing id hid).1, (hold id (hat.finalizing id hid).2).1⟩
    · have hbalance := h.balance id hid
      rw [allocate_contexts, hpc]
      by_cases heq : id = t.next
      · subst heq
        rw [hunheld, List.count_eq_zero.mpr hunlisted] at hbalance
        rw [if_pos rfl, hbalance]
        simp [CallPc.held, ContextTable.allocate]
      · rw [if_neg heq]
        have hne : (some t.next == some id) = false := beq_eq_false_iff_ne.mpr fun h =>
          heq (Option.some.inj h).symm
        simp [CallPc.held, ContextTable.allocate, hne]

/-- A context goes back to the system when nobody but the call that does it can use it. -/
theorem ContextInv.closeFd (h : ContextInv t calls) (hk : calls[k]? = some call)
    (hrunning : call.pc.isReturned = false) (hid : t.Alive id) (hunlisted : id ∉ t.teecContextList)
    (hothers : ∀ j call', j ≠ k → calls[j]? = some call' →
      call'.pc.held ≠ some id ∧ call'.pc.finalizing ≠ some id)
    (hheld : ∀ j, call.pc.held = some j → j = id)
    (hpc : pc.held = none) (hlocking : pc.locking = none) (hinserting : pc.inserting = none)
    (hfinalizing : pc.finalizing = none) :
    ContextInv (closeFd t id) (calls.set k { call with pc }) := by
  have hstays (j : Nat) (hj : t.Alive j) (hne : j ≠ id) : (ITrustee.Libteec.closeFd t id).Alive j := by
    refine ⟨hj.1, fun hmem => ?_⟩
    obtain hmem | hmem := List.mem_append.mp hmem
    · exact hj.2 hmem
    · exact hne (List.mem_singleton.mp hmem)
  refine h.move hk hrunning (h.table.closeFd hid hunlisted) ⟨by simp [hpc], by simp [hlocking],
    by simp [hinserting], by simp [hfinalizing]⟩ (fun j call' hne hj hat => ⟨fun i hi => ?_, hat.locking,
    hat.inserting, fun i hi => ?_⟩) (fun i hi => List.mem_append_left _ hi) (fun i hi => ?_)
    (by simp [hfinalizing])
  · refine hstays i (hat.held i hi) fun heq => ?_
    exact (hothers j call' hne hj).1 (heq ▸ hi)
  · refine ⟨(hat.finalizing i hi).1, hstays i (hat.finalizing i hi).2 fun heq => ?_⟩
    exact (hothers j call' hne hj).2 (heq ▸ hi)
  · have hne : i ≠ id := fun heq => hi (List.mem_append_right _ (List.mem_singleton.mpr heq))
    have hold : (call.pc.held == some i) = false := beq_eq_false_iff_ne.mpr fun heq => hne (hheld i heq)
    rw [hpc, hold]
    rfl

theorem ContextInv.insertStep_inv (h : ContextInv t calls) (hk : calls[k]? = some call)
    (hpc : call.pc = .insert id) (hstep : insertStep k o c t id = some (t', pc)) :
    ContextInv t' (calls.set k { call with pc }) := by
  have hrunning : call.pc.isReturned = false := by rw [hpc]; rfl
  have hat := h.callAt k call hk
  rw [hpc] at hat
  have halive := hat.held id rfl
  obtain ⟨hunlisted, hone⟩ := hat.inserting id rfl
  have hsole (j : Nat) (call' : ClientCall) (hne : j ≠ k) (hj : calls[j]? = some call') :
      call'.pc.held ≠ some id :=
    h.sole_holder hk (by rw [hpc]; rfl) hj hne (by rw [hone]; decide)
  rw [insertStep] at hstep
  split_ifs at hstep with hlocked hmutex
  · obtain ⟨rfl, rfl⟩ := Prod.mk.inj (Option.some.inj hstep)
    refine h.closeFd hk hrunning halive hunlisted (fun j call' hne hj => ⟨hsole j call' hne hj,
      fun hfin => ?_⟩) (fun j hj => ?_) rfl rfl rfl rfl
    · have hzero := (h.table.released id ((h.callAt j call' hj).finalizing id hfin).1).2
      rw [hone] at hzero
      exact absurd hzero (by decide)
    · rw [hpc] at hj
      exact (Option.some.inj hj).symm
  · obtain ⟨rfl, rfl⟩ := Prod.mk.inj (Option.some.inj hstep)
    have htable : TableInv { t with
        teecContextList := t.teecContextList ++ [id], mutexTeecContext := some k } := by
      refine ⟨?_, fun j hj => ?_, h.table.released_nodup, h.table.released, h.table.freed,
        h.table.fd_open, h.table.fd_inj⟩
      · exact List.nodup_append_comm.mp (List.nodup_cons.mpr ⟨hunlisted, h.table.list_nodup⟩)
      · obtain hj | hj := List.mem_append.mp hj
        · exact h.table.listed j hj
        · exact List.mem_singleton.mp hj ▸ halive
    refine h.move hk hrunning htable ⟨nofun, fun j hj => ?_, nofun, nofun⟩
      (fun j call' hne hj hat => ⟨hat.held, fun i hi => ?_, fun i hi => ?_, hat.finalizing⟩)
      (fun j hj => hj) (fun j hj => ?_) nofun
    · obtain rfl := Option.some.inj hj
      exact ⟨rfl, List.mem_append_right _ (List.mem_singleton_self id)⟩
    · rw [(hat.locking i hi).1] at hmutex
      exact absurd nofun hmutex
    · obtain ⟨hnot, hopsCnt⟩ := hat.inserting i hi
      refine ⟨fun hmem => ?_, hopsCnt⟩
      obtain hmem | hmem := List.mem_append.mp hmem
      · exact hnot hmem
      · rw [List.mem_singleton] at hmem
        exact hsole j call' hne hj (hmem ▸ CallPc.held_of_inserting hi)
    · rw [hpc, List.count_append, List.count_singleton]
      simp only [CallPc.held]
      by_cases heq : id = j
      · subst heq
        simp
        omega
      · have hne : (id == j) = false := beq_eq_false_iff_ne.mpr heq
        simp [hne]

theorem ContextInv.getBnContextStep_inv (h : ContextInv t calls) (hk : calls[k]? = some call)
    (hpc : call.pc = .get c) (hstep : getBnContextStep k o t c = some (t', pc)) :
    ContextInv t' (calls.set k { call with pc }) := by
  have hrunning : call.pc.isReturned = false := by rw [hpc]; rfl
  have hquiet (ret : UInt32) : QuietMove call.pc (.returned ret) := by
    rw [hpc]
    exact ⟨rfl, rfl, rfl, Or.inl rfl⟩
  rw [getBnContextStep] at hstep
  split_ifs at hstep with hlocked hmutex
  · obtain ⟨rfl, rfl⟩ := Prod.mk.inj (Option.some.inj hstep)
    exact h.quiet hk hrunning (hquiet _) t.clientFd
  · cases hfind : findBnContext t c with
    | none =>
        rw [hfind] at hstep
        obtain ⟨rfl, rfl⟩ := Prod.mk.inj (Option.some.inj hstep)
        exact h.quiet hk hrunning (hquiet _) t.clientFd
    | some id =>
        rw [hfind] at hstep
        obtain ⟨rfl, rfl⟩ := Prod.mk.inj (Option.some.inj hstep)
        have hlisted : id ∈ t.teecContextList := List.mem_of_find?_eq_some hfind
        have htable : TableInv { t with mutexTeecContext := some k } :=
          h.table.congr rfl rfl rfl rfl (fun _ => rfl) h.table.released_nodup h.table.released
        refine h.move hk hrunning htable ⟨nofun, fun j hj => ?_, nofun, nofun⟩
          (fun j call' hne hj hat => ⟨hat.held, fun i hi => ?_, hat.inserting, hat.finalizing⟩)
          (fun j hj => hj) (fun j hj => by rw [hpc]; rfl) nofun
        · obtain rfl := Option.some.inj hj
          exact ⟨rfl, hlisted⟩
        · rw [(hat.locking i hi).1] at hmutex
          exact absurd nofun hmutex

theorem afterGet_at (r : Request) (c id : Nat) : (afterGet r c id).held = some id ∧
    (afterGet r c id).locking = none ∧ (afterGet r c id).inserting = none ∧
      (afterGet r c id).finalizing = none := by
  cases r <;> exact ⟨rfl, rfl, rfl, rfl⟩

theorem afterPut_at (r : Request) (ret : UInt32) : (afterPut r ret).held = none ∧
    (afterPut r ret).locking = none ∧ (afterPut r ret).inserting = none ∧
      (afterPut r ret).finalizing = none := by
  cases r <;> exact ⟨rfl, rfl, rfl, rfl⟩

theorem ContextInv.countStep_inv (h : ContextInv t calls) (hk : calls[k]? = some call)
    (hpc : call.pc = .counting c id) :
    ContextInv (countStep t id)
      (calls.set k { call with pc := afterGet call.request c id }) := by
  have hrunning : call.pc.isReturned = false := by rw [hpc]; rfl
  have hat := h.callAt k call hk
  rw [hpc] at hat
  obtain ⟨hmutex, hlisted⟩ := hat.locking id rfl
  have halive := h.table.listed id hlisted
  have hcount : t.teecContextList.count id = 1 :=
    List.count_eq_one_of_mem h.table.list_nodup hlisted
  have hnot : id ∉ t.released := h.not_released halive.2 (by omega)
  have hsucc : ((t.contexts id).opsCnt + 1).toNat = (t.contexts id).opsCnt.toNat + 1 := by
    have hbalance := h.balance id halive.2
    have hle := (holders_le_running calls id).trans h.running_le
    have hmax : maxThreads = 0x7fffffff := rfl
    rw [UInt32.toNat_add, UInt32.toNat_one, Nat.mod_eq_of_lt]
    omega
  obtain ⟨hheld, hlocking, hinserting, hfinalizing⟩ := afterGet_at call.request c id
  have htable : TableInv (countStep t id) := by
    refine h.table.congr rfl rfl rfl rfl (fun j => setOpsCnt_fd ..) h.table.released_nodup
      fun j hj => ?_
    have hne : j ≠ id := fun heq => hnot (heq ▸ hj)
    exact ⟨(h.table.released j hj).1, ((setOpsCnt_opsCnt ..).trans (if_neg hne)).trans
      (h.table.released j hj).2⟩
  refine h.move hk hrunning htable ⟨fun j hj => ?_, by simp [hlocking], by simp [hinserting],
    by simp [hfinalizing]⟩ (fun j call' hne hj hat => ⟨hat.held, fun i hi => ?_, fun i hi => ?_,
    hat.finalizing⟩) (fun j hj => hj) (fun j hj => ?_) (by simp [hfinalizing])
  · rw [hheld] at hj
    obtain rfl := Option.some.inj hj
    exact halive
  · have hmutex' := (hat.locking i hi).1
    rw [hmutex] at hmutex'
    exact absurd (Option.some.inj hmutex') hne.symm
  · obtain ⟨hunlisted, hone⟩ := hat.inserting i hi
    have hne : i ≠ id := fun heq => hunlisted (heq ▸ hlisted)
    exact ⟨hunlisted, ((setOpsCnt_opsCnt ..).trans (if_neg hne)).trans hone⟩
  · have hops : ((countStep t id).contexts j).opsCnt =
        if j = id then (t.contexts id).opsCnt + 1 else (t.contexts j).opsCnt := setOpsCnt_opsCnt ..
    have hlist : (countStep t id).teecContextList = t.teecContextList := rfl
    rw [hops, hlist, hpc, hheld]
    simp only [CallPc.held]
    by_cases heq : j = id
    · subst heq
      rw [if_pos rfl, hsucc]
      simp
    · have hne : (some id == some j) = false :=
        beq_eq_false_iff_ne.mpr fun h => heq (Option.some.inj h).symm
      rw [if_neg heq, hne]
      rfl

theorem ContextInv.putBnContextStep_inv (h : ContextInv t calls) (hk : calls[k]? = some call)
    {ret : UInt32} (hpc : call.pc = .put id ret)
    (hstep : putBnContextStep call.request t id ret = (t', pc)) :
    ContextInv t' (calls.set k { call with pc }) := by
  have hrunning : call.pc.isReturned = false := by rw [hpc]; rfl
  have hat := h.callAt k call hk
  rw [hpc] at hat
  have halive := hat.held id rfl
  have hpos := holders_pos (List.mem_of_getElem? hk) (by rw [hpc]; rfl : call.pc.held = some id)
  have hbalance := h.balance id halive.2
  have hnot : id ∉ t.released := h.not_released halive.2 (by omega)
  have hpred : ((t.contexts id).opsCnt - 1).toNat = (t.contexts id).opsCnt.toNat - 1 :=
    UInt32.toNat_sub_of_le _ _ (UInt32.le_iff_toNat_le.mpr (by simp; omega))
  have hops (j : Nat) : ((t.setOpsCnt id ((t.contexts id).opsCnt - 1)).contexts j).opsCnt =
      if j = id then (t.contexts id).opsCnt - 1 else (t.contexts j).opsCnt := setOpsCnt_opsCnt ..
  have hinserting (j : Nat) (call' : ClientCall) (hne : j ≠ k) (hj : calls[j]? = some call')
      (hat : CallAt t j call'.pc) (i : Nat) (hi : call'.pc.inserting = some i) :
      i ∉ t.teecContextList ∧
        ((t.setOpsCnt id ((t.contexts id).opsCnt - 1)).contexts i).opsCnt = 1 := by
    obtain ⟨hunlisted, hone⟩ := hat.inserting i hi
    have hne : i ≠ id := by
      rintro rfl
      refine h.sole_holder hk (by rw [hpc]; rfl) hj hne ?_ (CallPc.held_of_inserting hi)
      rw [hone]
      decide
    rw [hops, if_neg hne]
    exact ⟨hunlisted, hone⟩
  have hmove (j : Nat) : ((t.setOpsCnt id ((t.contexts id).opsCnt - 1)).contexts j).opsCnt.toNat +
      (call.pc.held == some j).toNat + t.teecContextList.count j =
        (t.contexts j).opsCnt.toNat + ((none : Option Nat) == some j).toNat +
          t.teecContextList.count j := by
    rw [hops, hpc]
    simp only [CallPc.held]
    by_cases heq : j = id
    · subst heq
      rw [if_pos rfl, hpred]
      simp
      omega
    · have hne : (some id == some j) = false :=
        beq_eq_false_iff_ne.mpr fun h => heq (Option.some.inj h).symm
      rw [if_neg heq, hne]
      rfl
  rw [putBnContextStep] at hstep
  split_ifs at hstep with hzero
  · obtain ⟨rfl, rfl⟩ := Prod.mk.inj hstep
    have htable : TableInv { t.setOpsCnt id ((t.contexts id).opsCnt - 1) with
        released := t.released ++ [id] } := by
      refine h.table.congr rfl rfl rfl rfl (fun j => setOpsCnt_fd ..) ?_ fun j hj => ?_
      · exact List.nodup_append_comm.mp (List.nodup_cons.mpr ⟨hnot, h.table.released_nodup⟩)
      · rw [hops]
        obtain hj | hj := List.mem_append.mp hj
        · have hne : j ≠ id := fun heq => hnot (heq ▸ hj)
          rw [if_neg hne]
          exact h.table.released j hj
        · rw [List.mem_singleton] at hj
          rw [if_pos hj, hj]
          exact ⟨halive.1, hzero⟩
    refine h.move hk hrunning htable ⟨nofun, nofun, nofun, fun j hj => ?_⟩
      (fun j call' hne hj hat => ⟨hat.held, hat.locking, hinserting j call' hne hj hat,
        fun i hi => ?_⟩) (fun j hj => hj) (fun j _ => hmove j) fun j hj => ?_
    · obtain rfl := Option.some.inj hj
      exact ⟨List.mem_append_right _ (List.mem_singleton_self id), halive⟩
    · exact ⟨List.mem_append_left _ (hat.finalizing i hi).1, (hat.finalizing i hi).2⟩
    · obtain rfl := Option.some.inj hj
      exact Or.inr (h.finalizers_eq_zero hnot)
  · obtain ⟨rfl, rfl⟩ := Prod.mk.inj hstep
    obtain ⟨hheld, hlocking, hins, hfinalizing⟩ := afterPut_at call.request ret
    have htable : TableInv (t.setOpsCnt id ((t.contexts id).opsCnt - 1)) := by
      refine h.table.congr rfl rfl rfl rfl (fun j => setOpsCnt_fd ..) h.table.released_nodup
        fun j hj => ?_
      have hne : j ≠ id := fun heq => hnot (heq ▸ hj)
      rw [hops, if_neg hne]
      exact h.table.released j hj
    refine h.move hk hrunning htable ⟨by simp [hheld], by simp [hlocking], by simp [hins],
      by simp [hfinalizing]⟩ (fun j call' hne hj hat => ⟨hat.held, hat.locking,
      hinserting j call' hne hj hat, hat.finalizing⟩) (fun j hj => hj) (fun j _ => ?_)
      (by simp [hfinalizing])
    rw [hheld]
    exact hmove j

theorem ContextInv.removeStep_inv (h : ContextInv t calls) (hk : calls[k]? = some call)
    (hpc : call.pc = .remove c) (hstep : removeStep o t c = some (t', pc)) :
    ContextInv t' (calls.set k { call with pc }) := by
  have hrunning : call.pc.isReturned = false := by rw [hpc]; rfl
  have hquiet : QuietMove call.pc (.reset c) := by
    rw [hpc]
    exact ⟨rfl, rfl, rfl, Or.inl rfl⟩
  rw [removeStep] at hstep
  split_ifs at hstep with hlocked hmutex
  · obtain ⟨rfl, rfl⟩ := Prod.mk.inj (Option.some.inj hstep)
    exact h.quiet hk hrunning hquiet t.clientFd
  · cases hfind : findBnContext t c with
    | none =>
        rw [hfind] at hstep
        obtain ⟨rfl, rfl⟩ := Prod.mk.inj (Option.some.inj hstep)
        exact h.quiet hk hrunning hquiet t.clientFd
    | some id =>
        rw [hfind] at hstep
        obtain ⟨rfl, rfl⟩ := Prod.mk.inj (Option.some.inj hstep)
        have hlisted : id ∈ t.teecContextList := List.mem_of_find?_eq_some hfind
        have hsub (i : Nat) (hi : i ∈ t.teecContextList.erase id) : i ∈ t.teecContextList :=
          List.mem_of_mem_erase hi
        have htable : TableInv { t with teecContextList := t.teecContextList.erase id } :=
          ⟨h.table.list_nodup.erase id, fun i hi => h.table.listed i (hsub i hi),
            h.table.released_nodup, h.table.released, h.table.freed, h.table.fd_open,
            h.table.fd_inj⟩
        refine h.move hk hrunning htable ⟨fun j hj => ?_, nofun, nofun, nofun⟩
          (fun j call' hne hj hat => ⟨hat.held, fun i hi => ?_, fun i hi => ?_, hat.finalizing⟩)
          (fun j hj => hj) (fun j hj => ?_) nofun
        · obtain rfl := Option.some.inj hj
          exact h.table.listed id hlisted
        · rw [(hat.locking i hi).1] at hmutex
          exact absurd nofun hmutex
        · obtain ⟨hunlisted, hone⟩ := hat.inserting i hi
          exact ⟨fun hmem => hunlisted (hsub i hmem), hone⟩
        · rw [hpc]
          simp only [CallPc.held]
          by_cases heq : j = id
          · subst heq
            rw [List.count_erase_self, List.count_eq_one_of_mem h.table.list_nodup hlisted]
            simp
          · have hne : (some id == some j) = false :=
              beq_eq_false_iff_ne.mpr fun h => heq (Option.some.inj h).symm
            rw [List.count_erase_of_ne heq, hne]
            rfl

theorem ContextInv.releaseFd_inv (h : ContextInv t calls) (hk : calls[k]? = some call)
    {ret : UInt32} (hpc : call.pc = .releaseFd id ret) :
    ContextInv (ITrustee.Libteec.closeFd t id)
      (calls.set k { call with pc := afterPut call.request ret }) := by
  have hrunning : call.pc.isReturned = false := by rw [hpc]; rfl
  have hat := h.callAt k call hk
  rw [hpc] at hat
  obtain ⟨hreleased, halive⟩ := hat.finalizing id rfl
  have hidle : ¬ 0 < holders calls id + t.teecContextList.count id := fun hpos =>
    h.not_released halive.2 hpos hreleased
  have hunlisted : id ∉ t.teecContextList := fun hmem => hidle
    (Nat.lt_add_left _ (List.count_pos_iff.mpr hmem))
  obtain ⟨hheld, hlocking, hinserting, hfinalizing⟩ := afterPut_at call.request ret
  refine h.closeFd hk hrunning halive hunlisted (fun j call' hne hj => ⟨fun hheld' => ?_,
    fun hfin => ?_⟩) (fun j hj => ?_) hheld hlocking hinserting hfinalizing
  · exact hidle (Nat.lt_add_right _ (holders_pos (List.mem_of_getElem? hj) hheld'))
  · have htwo := two_le_countP (p := fun call => call.pc.finalizing == some id) hj hk hne
      (beq_iff_eq.mpr hfin) (by rw [hpc]; exact beq_self_eq_true _)
    exact absurd (h.finalizers_le id) (Nat.not_le.mpr htwo)
  · rw [hpc] at hj
    cases hj

theorem quiet_afterPut {r : Request} {ret : UInt32} (hheld : pc.held = none) :
    QuietMove pc (afterPut r ret) := by
  obtain ⟨h, hlocking, hinserting, hfinalizing⟩ := afterPut_at r ret
  exact ⟨h.trans hheld.symm, hlocking, hinserting, Or.inl hfinalizing⟩

theorem startStep_quiet (o : Outcome) (m : SessionTable) (r : Request) :
    QuietMove .start (startStep o m r).2 := by
  cases r with
  | closeSession h | invokeCommand h =>
      rw [startStep]
      split
      · exact ⟨rfl, rfl, rfl, Or.inl rfl⟩
      · split <;> exact ⟨rfl, rfl, rfl, Or.inl rfl⟩
  | _ =>
      rw [startStep]
      split_ifs <;> exact ⟨rfl, rfl, rfl, Or.inl rfl⟩

/-- The steps on the sessions leave the references alone. -/
theorem memoryStep_quiet {r : Request} {m m' : SessionTable} {pc' : CallPc}
    (hstep : memoryStep o r m pc = some (m', pc')) : pc.isReturned = false ∧ QuietMove pc pc' := by
  cases pc with
  | start =>
      obtain rfl : (startStep o m r).2 = pc' := congrArg Prod.snd (Option.some.inj hstep)
      exact ⟨rfl, startStep_quiet o m r⟩
  | working c id | opened id sessionId | closing id | wiping id =>
      obtain ⟨rfl, rfl⟩ := Prod.mk.inj (Option.some.inj hstep)
      exact ⟨rfl, rfl, rfl, rfl, Or.inl rfl⟩
  | checking id =>
      obtain ⟨rfl, rfl⟩ := Prod.mk.inj (Option.some.inj hstep)
      refine ⟨rfl, ?_⟩
      split_ifs <;> exact ⟨rfl, rfl, rfl, Or.inl rfl⟩
  | opening id i =>
      obtain rfl : (doOpenSessionStep o m r.session id i).2 = pc' :=
        congrArg Prod.snd (Option.some.inj hstep)
      refine ⟨rfl, ?_⟩
      rw [doOpenSessionStep]
      split_ifs <;> exact ⟨rfl, rfl, rfl, Or.inl rfl⟩
  | adding id =>
      obtain rfl : (addSessionListStep o m r.session id).2 = pc' :=
        congrArg Prod.snd (Option.some.inj hstep)
      refine ⟨rfl, ?_⟩
      rw [addSessionListStep]
      split_ifs <;> exact ⟨rfl, rfl, rfl, Or.inl rfl⟩
  | finding id =>
      obtain rfl : (findAndRemoveSessionStep o m r.session id).2 = pc' :=
        congrArg Prod.snd (Option.some.inj hstep)
      refine ⟨rfl, ?_⟩
      rw [findAndRemoveSessionStep]
      split_ifs
      · exact ⟨rfl, rfl, rfl, Or.inl rfl⟩
      · split <;> exact ⟨rfl, rfl, rfl, Or.inl rfl⟩
  | releasing id ret | releaseMemory id ret =>
      obtain ⟨rfl, rfl⟩ := Prod.mk.inj (Option.some.inj hstep)
      refine ⟨rfl, ?_⟩
      split_ifs
      · exact quiet_afterPut rfl
      · exact ⟨rfl, rfl, rfl, Or.inr rfl⟩
  | releaseNext id ret =>
      obtain rfl : (releaseNextStep m id ret).2 = pc' := congrArg Prod.snd (Option.some.inj hstep)
      refine ⟨rfl, ?_⟩
      rw [releaseNextStep]
      split <;> exact ⟨rfl, rfl, rfl, Or.inr rfl⟩
  | releaseClosing id h ret | releaseWiping id h ret =>
      obtain ⟨rfl, rfl⟩ := Prod.mk.inj (Option.some.inj hstep)
      exact ⟨rfl, rfl, rfl, rfl, Or.inr rfl⟩
  | _ => cases hstep

theorem ContextInv.tableStep_inv (h : ContextInv t calls) (hk : calls[k]? = some call)
    (hstep : tableStep k o call.request t call.pc = some (t', pc)) :
    ContextInv t' (calls.set k { call with pc }) := by
  cases hpc : call.pc with
  | connect =>
      rw [hpc] at hstep
      exact h.connectStep_inv hk hpc hstep
  | insert id =>
      rw [hpc] at hstep
      exact h.insertStep_inv hk hpc hstep
  | get c =>
      rw [hpc] at hstep
      exact h.getBnContextStep_inv hk hpc hstep
  | counting c id =>
      rw [hpc] at hstep
      obtain ⟨rfl, rfl⟩ := Prod.mk.inj (Option.some.inj hstep)
      exact h.countStep_inv hk hpc
  | handing c id =>
      rw [hpc] at hstep
      obtain ⟨rfl, rfl⟩ := Prod.mk.inj (Option.some.inj hstep)
      exact h.quiet hk (by rw [hpc]; rfl) (by rw [hpc]; exact ⟨rfl, rfl, rfl, Or.inl rfl⟩) _
  | put id ret =>
      rw [hpc] at hstep
      exact h.putBnContextStep_inv hk hpc (Option.some.inj hstep)
  | releaseFd id ret =>
      rw [hpc] at hstep
      obtain ⟨rfl, rfl⟩ := Prod.mk.inj (Option.some.inj hstep)
      exact h.releaseFd_inv hk hpc
  | remove c =>
      rw [hpc] at hstep
      exact h.removeStep_inv hk hpc hstep
  | reset c =>
      rw [hpc] at hstep
      obtain ⟨rfl, rfl⟩ := Prod.mk.inj (Option.some.inj hstep)
      exact h.quiet hk (by rw [hpc]; rfl) (by rw [hpc]; exact ⟨rfl, rfl, rfl, Or.inl rfl⟩) _
  | _ =>
      rw [hpc] at hstep
      cases hstep

/-! ### Runs -/

/-- The beginning of a call. -/
theorem ContextInv.begin_inv (h : ContextInv t calls) (r : Request)
    (hrunning : running calls < maxThreads) : ContextInv t (calls ++ [⟨r, .start⟩]) := by
  refine ⟨h.table, fun j call hj => ?_, fun id hid => ?_, fun id => ?_, ?_⟩
  · rw [List.getElem?_append] at hj
    split_ifs at hj
    · exact h.callAt j call hj
    · obtain rfl := List.mem_singleton.mp (List.mem_of_getElem? hj)
      exact ⟨nofun, nofun, nofun, nofun⟩
  · rw [holders, List.countP_append]
    exact h.balance id hid
  · rw [finalizers, List.countP_append]
    exact h.finalizers_le id
  · rw [running, List.countP_append]
    exact hrunning

theorem ContextInv.callStep_inv {s s' : ClientState} (h : ContextInv s.table s.calls)
    (hk : s.calls[k]? = some call) (hstep : callStep k o s call = some s') :
    ContextInv s'.table s'.calls := by
  rw [callStep] at hstep
  split_ifs at hstep with htable
  · obtain ⟨⟨t', pc⟩, htstep, rfl⟩ := Option.map_eq_some_iff.mp hstep
    exact h.tableStep_inv hk htstep
  · obtain ⟨⟨m', pc⟩, hmstep, rfl⟩ := Option.map_eq_some_iff.mp hstep
    obtain ⟨hrunning, hquiet⟩ := memoryStep_quiet hmstep
    exact h.quiet hk hrunning hquiet s.table.clientFd

theorem ContextInv.clientStep_inv {s s' : ClientState} {a : ClientAction}
    (h : ContextInv s.table s.calls) (hstep : clientStep s a = some s') :
    ContextInv s'.table s'.calls := by
  cases a with
  | call r =>
      rw [clientStep] at hstep
      split_ifs at hstep with hrunning
      obtain rfl := Option.some.inj hstep
      exact h.begin_inv r hrunning
  | run k o =>
      obtain ⟨call, hk, hstep⟩ := Option.bind_eq_some_iff.mp hstep
      exact h.callStep_inv hk hstep

theorem ContextInv.sound {s : ClientState} (h : ContextInv s.table s.calls) : ContextsSound s := by
  have hunlisted (id : Nat) (hid : id ∈ s.table.released) : id ∉ s.table.teecContextList := by
    intro hmem
    exact h.not_released (h.table.listed id hmem).2
      (Nat.lt_add_left _ (List.count_pos_iff.mpr hmem)) hid
  refine ⟨h.table.released_nodup, hunlisted, fun id hid call hmem => ?_, ?_⟩
  · obtain ⟨j, hj⟩ := List.mem_iff_getElem?.mp hmem
    have hat := h.callAt j call hj
    refine ⟨fun hheld => ?_, fun hlocking => ?_⟩
    · exact h.not_released (hat.held id hheld).2
        (Nat.lt_add_right _ (holders_pos hmem hheld)) hid
    · exact hunlisted id hid (hat.locking id hlocking).2
  · refine h.table.list_nodup.map_on fun i hi j hj heq => ?_
    exact h.table.fd_inj i j (h.table.listed i hi) (h.table.listed j hj) heq

theorem initial_contextInv (clientFd : Nat → Int) (sessions : Nat → Session) :
    ContextInv (ClientState.initial clientFd sessions).table
      (ClientState.initial clientFd sessions).calls :=
  ⟨⟨List.nodup_nil, nofun, List.nodup_nil, nofun, nofun, nofun, nofun⟩, nofun, fun _ _ => rfl,
    fun _ => Nat.zero_le _, Nat.zero_le _⟩

theorem run_contextsSound {clientFd : Nat → Int} {sessions : Nat → Session} {is : List ClientAction}
    {s : ClientState} (hexec : Machine.exec clientStep (.initial clientFd sessions) is = some s) :
    ContextsSound s :=
  (Machine.exec_invariant (fun s => ContextInv s.table s.calls)
    (fun _ _ _ h hstep => h.clientStep_inv hstep) (initial_contextInv clientFd sessions) hexec).sound

/-- A context is finalized while a call works on it. That call runs the final release, and the next
context gets the same descriptor. -/
def finalizeWhileHeld : List ClientAction :=
  ([.call (.initializeContext 0)] : List ClientAction) ++
    (List.replicate 6 (.run 0 { fd := 3 }) : List ClientAction) ++
    ([.call (.allocateSharedMemory 0)] : List ClientAction) ++
    (List.replicate 3 (.run 1 {}) : List ClientAction) ++
    ([.call (.finalizeContext 0)] : List ClientAction) ++
    (List.replicate 4 (.run 2 {}) : List ClientAction) ++
    (List.replicate 6 (.run 1 {}) : List ClientAction) ++
    ([.call (.initializeContext 1)] : List ClientAction) ++
    (List.replicate 6 (.run 3 { fd := 3 }) : List ClientAction)

theorem finalizeWhileHeld_sound :
    ∃ s, Machine.exec clientStep (.initial (fun _ => -1) fun _ => ⟨0, none⟩) finalizeWhileHeld =
        some s ∧ s.table.released = [0] ∧ s.table.teecContextList = [1] ∧ ContextsSound s := by
  have hrun : (Machine.exec clientStep (.initial (fun _ => -1) fun _ => ⟨0, none⟩)
      finalizeWhileHeld).map (fun s => (s.table.released, s.table.teecContextList)) =
        some ([0], [1]) := by
    decide +kernel
  obtain ⟨s, hexec, hlists⟩ := Option.map_eq_some_iff.mp hrun
  obtain ⟨hreleased, hlisted⟩ := Prod.mk.inj hlists
  exact ⟨s, hexec, hreleased, hlisted, run_contextsSound hexec⟩

end ITrustee.Libteec
