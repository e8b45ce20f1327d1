import Mathlib
import ITrustee.Foundation.Machine
import ITrustee.Teleport.FileDescriptors
import ITrustee.Teleport.SerializeRoundTrip

/-!
# The protected descriptors

Requests must leave the descriptor of the device and, from its creation on, the pre-close descriptor
alone: neither entry may be closed or replaced, and the device must not get a second number. Every
branch of the three handlers checks its arguments for this except one: `FileDup2Work` with -1 for
`oldfd` duplicates the pre-close descriptor onto whatever `newfd` says, the device included.
`run_descriptorsKept_iff` says that this is the only way the protection fails.
-/

namespace ITrustee.Teleport

open Machine Serialize

/-- What may not change between two states: the entries of the protected descriptors, and which numbers
refer to the description of the device. -/
structure DescriptorsKept (p q : FdProxy) : Prop where
  device : q.g_reePosixProxyDevFD = p.g_reePosixProxyDevFD
  deviceEntry : q.table.entry p.g_reePosixProxyDevFD = p.table.entry p.g_reePosixProxyDevFD
  notDuplicated : ∀ fd, fd ≠ p.g_reePosixProxyDevFD →
    q.table.entry fd = p.table.entry p.g_reePosixProxyDevFD →
      p.table.entry fd = p.table.entry p.g_reePosixProxyDevFD
  preClose : p.g_reePreCloseFD ≠ -1 → q.g_reePreCloseFD = p.g_reePreCloseFD ∧
    q.table.entry p.g_reePreCloseFD = p.table.entry p.g_reePreCloseFD

/-- The pre-close descriptor exists, or the request can create it. -/
def PreCloseAvailable (p : FdProxy) (r : Refusals) : Prop :=
  p.g_reePreCloseFD ≠ -1 ∨
    r.mutexLock = false ∧ r.socketpair = none ∧ p.table.socketpair.toBool = true

/-- The request duplicates the pre-close descriptor onto the device. -/
def ReplacesDevice (p : FdProxy) (r : FileRequest) : Prop :=
  match r.func, deSerializeIntegers 2 r.param with
  | .fileDup2, some [oldfd, newfd] =>
      asInt oldfd = -1 ∧ asInt newfd = p.g_reePosixProxyDevFD ∧
        PreCloseAvailable p r.refusals ∧ r.refusals.dup2 = none
  | _, _ => False

instance (p : FdProxy) (r : Refusals) : Decidable (PreCloseAvailable p r) := by
  unfold PreCloseAvailable
  infer_instance

instance (p : FdProxy) (r : FileRequest) : Decidable (ReplacesDevice p r) := by
  unfold ReplacesDevice
  split <;> infer_instance

/-- The parameters with which a request reaches its handler. -/
def serializedParam (args : List UInt64) : PosixProxyParam where
  args := some (message (args.map Value.integer))
  argsSz := UInt64.ofNat (totalSize (args.map Value.integer))

/-- Every list of 64-bit values reaches a handler, up to the largest size of a request. -/
theorem deSerializeIntegers_serializedParam (args : List UInt64)
    (hsize : totalSize (args.map Value.integer) < 2 ^ 32) :
    deSerializeIntegers args.length (serializedParam args) = some args := by
  have hsz : (serializedParam args).argsSz.toUInt32.toNat = totalSize (args.map Value.integer) := by
    rw [serializedParam, UInt64.toNat_toUInt32, UInt64.toNat_ofNat']
    omega
  have hrefs : (args.map Value.integer).map Value.ref =
      List.replicate args.length (.integer true) := by
    rw [List.map_map, List.eq_replicate_iff, List.length_map]
    refine ⟨rfl, fun b hb => ?_⟩
    obtain ⟨a, -, rfl⟩ := List.mem_map.mp hb
    rfl
  obtain ⟨out, hout, hdecoded⟩ := deSerialize_message (args.map Value.integer) []
    (serializedParam args).argsSz.toUInt32 hsz.ge
  rw [List.append_nil, hrefs] at hout
  have hargs : (serializedParam args).args = some (message (args.map Value.integer)) := rfl
  rw [deSerializeIntegers, hargs, hout]
  simp only [Option.some.injEq]
  clear hout hrefs hsz hsize hargs
  generalize message (args.map Value.integer) ++ [] = buf at hdecoded
  induction args generalizing out with
  | nil =>
      rw [List.map_nil, List.forall₂_nil_left_iff] at hdecoded
      rw [hdecoded]
      rfl
  | cons a args ih =>
      rw [List.map_cons, List.forall₂_cons_left_iff] at hdecoded
      obtain ⟨d, rest, hd, hrest, rfl⟩ := hdecoded
      have harg : d.arg = .integer a := hd
      rw [List.filterMap_cons, harg]
      exact congrArg _ (ih rest hrest)

/-! ### The preorder of states -/

theorem DescriptorsKept.refl (p : FdProxy) : DescriptorsKept p p :=
  ⟨rfl, rfl, fun _ _ h => h, fun _ => ⟨rfl, rfl⟩⟩

theorem DescriptorsKept.trans {p q r : FdProxy} (hpq : DescriptorsKept p q)
    (hqr : DescriptorsKept q r) : DescriptorsKept p r := by
  have hentry := hqr.deviceEntry
  have hduplicated := hqr.notDuplicated
  rw [hpq.device] at hentry hduplicated
  refine ⟨hqr.device.trans hpq.device, hentry.trans hpq.deviceEntry, fun fd hfd h => ?_,
    fun hpre => ?_⟩
  · refine hpq.notDuplicated fd hfd ((hduplicated fd hfd ?_).trans hpq.deviceEntry)
    rw [h, hpq.deviceEntry]
  · obtain ⟨hsame, hkept⟩ := hpq.preClose hpre
    have hlater := hqr.preClose (by rw [hsame]; exact hpre)
    rw [hsame] at hlater
    exact ⟨hlater.1, hlater.2.trans hkept⟩

/-! ### The invariant -/

/-- The device is open under one number only, and the pre-close descriptor is open under another. -/
structure ProxySound (p : FdProxy) : Prop where
  device_nonneg : 0 ≤ p.g_reePosixProxyDevFD
  device_lt : p.g_reePosixProxyDevFD.toInt < p.table.limit
  device_open : p.table.entry p.g_reePosixProxyDevFD ≠ none
  unshared : ∀ fd, fd ≠ p.g_reePosixProxyDevFD →
    p.table.entry fd ≠ p.table.entry p.g_reePosixProxyDevFD
  preClose : p.g_reePreCloseFD ≠ -1 →
    p.g_reePreCloseFD ≠ p.g_reePosixProxyDevFD ∧ p.table.entry p.g_reePreCloseFD ≠ none

/-- A change that keeps the protected descriptors and the invariant. -/
structure StaysSound (p q : FdProxy) : Prop where
  kept : DescriptorsKept p q
  sound : ProxySound q

variable {p q : FdProxy} {r : Refusals} {param : PosixProxyParam}

theorem StaysSound.trans {o : FdProxy} (hop : StaysSound o p) (hpq : StaysSound p q) :
    StaysSound o q :=
  ⟨hop.kept.trans hpq.kept, hpq.sound⟩

theorem ProxySound.setErrno (h : ProxySound p) (errno : Int32) : StaysSound p { p with errno } :=
  ⟨⟨rfl, rfl, fun _ _ h => h, fun _ => ⟨rfl, rfl⟩⟩,
    ⟨h.device_nonneg, h.device_lt, h.device_open, h.unshared, h.preClose⟩⟩

theorem ProxySound.clear (h : ProxySound p) {fd : Int32} (hdev : fd ≠ p.g_reePosixProxyDevFD)
    (hpre : fd ≠ p.g_reePreCloseFD) (errno : Int32) :
    StaysSound p { p with table := p.table.clear fd, errno } := by
  have hentry (n : Int32) (hn : fd ≠ n) : (p.table.clear fd).entry n = p.table.entry n := by
    rw [DescriptorTable.clear_entry, if_neg hn.symm]
  have hduplicated (n : Int32)
      (hn : (p.table.clear fd).entry n = p.table.entry p.g_reePosixProxyDevFD) :
      p.table.entry n = p.table.entry p.g_reePosixProxyDevFD := by
    by_cases hfd : n = fd
    · rw [DescriptorTable.clear_entry, if_pos hfd] at hn
      exact absurd hn.symm h.device_open
    · rw [← hentry n (Ne.symm hfd)]
      exact hn
  refine ⟨⟨rfl, hentry _ hdev, fun n _ hn => hduplicated n hn, fun _ => ⟨rfl, hentry _ hpre⟩⟩,
    ⟨h.device_nonneg, h.device_lt, ?_, fun n hn heq => ?_, fun hset => ?_⟩⟩
  · change (p.table.clear fd).entry p.g_reePosixProxyDevFD ≠ none
    rw [hentry _ hdev]
    exact h.device_open
  · change (p.table.clear fd).entry n = (p.table.clear fd).entry p.g_reePosixProxyDevFD at heq
    rw [hentry _ hdev] at heq
    exact h.unshared n hn (hduplicated n heq)
  · change p.g_reePreCloseFD ≠ p.g_reePosixProxyDevFD ∧
      (p.table.clear fd).entry p.g_reePreCloseFD ≠ none
    rw [hentry _ hpre]
    exact h.preClose hset

/-- A table of the same size with the two protected descriptors, in which no other number is the
device. -/
theorem ProxySound.replace (h : ProxySound p) {table : DescriptorTable}
    (hlimit : table.limit = p.table.limit)
    (hdevice : table.entry p.g_reePosixProxyDevFD = p.table.entry p.g_reePosixProxyDevFD)
    (hshared : ∀ n, n ≠ p.g_reePosixProxyDevFD →
      table.entry n ≠ p.table.entry p.g_reePosixProxyDevFD)
    (hpreClose : p.g_reePreCloseFD ≠ -1 →
      table.entry p.g_reePreCloseFD = p.table.entry p.g_reePreCloseFD) :
    StaysSound p { p with table } := by
  refine ⟨⟨rfl, hdevice, fun n hn heq => absurd heq (hshared n hn), fun hset =>
      ⟨rfl, hpreClose hset⟩⟩, ⟨h.device_nonneg, ?_, ?_, fun n hn => ?_, fun hset => ?_⟩⟩
  · change p.g_reePosixProxyDevFD.toInt < table.limit
    rw [hlimit]
    exact h.device_lt
  · change table.entry p.g_reePosixProxyDevFD ≠ none
    rw [hdevice]
    exact h.device_open
  · change table.entry n ≠ table.entry p.g_reePosixProxyDevFD
    rw [hdevice]
    exact hshared n hn
  · change p.g_reePreCloseFD ≠ p.g_reePosixProxyDevFD ∧ table.entry p.g_reePreCloseFD ≠ none
    rw [hpreClose hset]
    exact h.preClose hset

/-- Another number than the device may become a duplicate of another descriptor than the device. -/
theorem ProxySound.copy (h : ProxySound p) {table : DescriptorTable} {old new : Int32}
    (hlimit : table.limit = p.table.limit)
    (hentry : ∀ n, table.entry n = if n = new then p.table.entry old else p.table.entry n)
    (hold : old ≠ p.g_reePosixProxyDevFD) (hnew : new ≠ p.g_reePosixProxyDevFD)
    (hpre : new = p.g_reePreCloseFD → p.g_reePreCloseFD ≠ -1 → old = p.g_reePreCloseFD) :
    StaysSound p { p with table } := by
  have hdevice : table.entry p.g_reePosixProxyDevFD = p.table.entry p.g_reePosixProxyDevFD := by
    rw [hentry, if_neg hnew.symm]
  have hshared (n : Int32) (hn : n ≠ p.g_reePosixProxyDevFD) :
      table.entry n ≠ p.table.entry p.g_reePosixProxyDevFD := by
    rw [hentry]
    split_ifs
    · exact h.unshared old hold
    · exact h.unshared n hn
  have hpreClose (hset : p.g_reePreCloseFD ≠ -1) :
      table.entry p.g_reePreCloseFD = p.table.entry p.g_reePreCloseFD := by
    rw [hentry]
    split_ifs with heq
    · rw [hpre heq.symm hset]
    · rfl
  exact h.replace hlimit hdevice hshared hpreClose

/-- A new description under a number that was free. -/
theorem ProxySound.install (h : ProxySound p) {table : DescriptorTable} {new : Int32}
    (hok : p.table.install = .ok (new, table)) :
    StaysSound p { p with table } ∧ 0 ≤ new ∧ p.table.entry new = none ∧ table.entry new ≠ none := by
  obtain ⟨hnonneg, -, hfree, hlimit, file, hfresh, hentry⟩ := DescriptorTable.install_ok hok
  have hsame (n : Int32) (hn : p.table.entry n ≠ none) : table.entry n = p.table.entry n := by
    rw [hentry, if_neg]
    rintro rfl
    exact hn hfree
  have hdevice := hsame _ h.device_open
  have hshared (n : Int32) (hn : n ≠ p.g_reePosixProxyDevFD) :
      table.entry n ≠ p.table.entry p.g_reePosixProxyDevFD := by
    rw [hentry]
    split_ifs
    · exact (hfresh _).symm
    · exact h.unshared n hn
  refine ⟨h.replace hlimit hdevice hshared fun hset => hsame _ (h.preClose hset).2, hnonneg, hfree, ?_⟩
  rw [hentry, if_pos rfl]
  exact Option.some_ne_none file

/-! ### Requests -/

theorem not_isProtected {fd : UInt64} (h : isProtected p fd = false) :
    asInt fd ≠ p.g_reePosixProxyDevFD ∧ asInt fd ≠ p.g_reePreCloseFD := by
  rw [isProtected, Bool.or_eq_false_iff] at h
  exact ⟨of_decide_eq_false h.1, of_decide_eq_false h.2⟩

theorem refusedOr_ok {α : Type} {refused : Option Int32} {call : Except Int32 α} {a : α}
    (h : refusedOr refused call = .ok a) : refused = none ∧ call = .ok a := by
  cases refused with
  | none => exact ⟨rfl, h⟩
  | some errno => cases h

theorem socketpair_ok {t t' : DescriptorTable} {sp0 sp1 : Int32}
    (h : t.socketpair = .ok (sp0, sp1, t')) :
    ∃ u, t.install = .ok (sp0, u) ∧ u.install = .ok (sp1, t') := by
  rw [DescriptorTable.socketpair] at h
  cases hfirst : t.install with
  | error errno => simp [hfirst, bind, Except.bind] at h
  | ok first =>
      cases hsecond : first.2.install with
      | error errno => simp [hfirst, hsecond, bind, Except.bind] at h
      | ok second =>
          simp only [hfirst, hsecond, bind, Except.bind, pure, Except.pure, Except.ok.injEq,
            Prod.mk.injEq] at h
          obtain ⟨rfl, rfl, rfl⟩ := h
          exact ⟨first.2, rfl, hsecond⟩

/-- The pre-close descriptor is created with two free numbers, one of which is given back. -/
theorem ProxySound.create (h : ProxySound p) (hunset : p.g_reePreCloseFD = -1) {sp0 sp1 : Int32}
    {table : DescriptorTable} (hok : p.table.socketpair = .ok (sp0, sp1, table)) :
    StaysSound p { p with table := table.clear sp1, g_reePreCloseFD := sp0 } ∧ sp0 ≠ -1 := by
  obtain ⟨u, hfirst, hsecond⟩ := socketpair_ok hok
  obtain ⟨hsound, hnonneg, hfree, hopen⟩ := h.install hfirst
  have hset : sp0 ≠ -1 := by
    rintro rfl
    exact absurd hnonneg (by decide)
  have hdevice : sp0 ≠ p.g_reePosixProxyDevFD := by
    rintro rfl
    exact h.device_open hfree
  have hcreated : StaysSound p { p with table := u, g_reePreCloseFD := sp0 } := by
    have hs := hsound.sound
    exact ⟨⟨rfl, hsound.kept.deviceEntry, hsound.kept.notDuplicated, fun hpre => absurd hunset hpre⟩,
      hs.device_nonneg, hs.device_lt, hs.device_open, hs.unshared, fun _ => ⟨hdevice, hopen⟩⟩
  obtain ⟨hsound', -, hfree', -⟩ := hcreated.sound.install hsecond
  have hother : sp1 ≠ sp0 := by
    rintro rfl
    exact hopen hfree'
  have hdevice' : sp1 ≠ p.g_reePosixProxyDevFD := by
    rintro rfl
    exact hcreated.sound.device_open hfree'
  have hclosed := hsound'.sound.clear hdevice' hother p.errno
  exact ⟨(hcreated.trans hsound').trans hclosed, hset⟩

theorem getReePreCloseFD_sound (h : ProxySound p) :
    StaysSound p (getReePreCloseFD r p).1 ∧
      (getReePreCloseFD r p).2 = (getReePreCloseFD r p).1.g_reePreCloseFD ∧
        ((getReePreCloseFD r p).2 ≠ -1 ↔ PreCloseAvailable p r) := by
  rw [getReePreCloseFD]
  split_ifs with hunset hlock
  · refine ⟨h.setErrno p.errno, hunset.symm, fun hne => absurd rfl hne, fun havail => ?_⟩
    obtain hset | ⟨hunlocked, -⟩ := havail
    · exact absurd hunset hset
    · rw [hlock] at hunlocked
      cases hunlocked
  · split
    · next errno herror =>
        refine ⟨h.setErrno errno, hunset.symm, fun hne => absurd rfl hne, fun havail => ?_⟩
        obtain hset | ⟨-, hgranted, hok⟩ := havail
        · exact absurd hunset hset
        · simp only [refusedOr, hgranted] at herror
          rw [herror] at hok
          cases hok
    · next sp0 sp1 table hok =>
        obtain ⟨hgranted, hpair⟩ := refusedOr_ok hok
        obtain ⟨hsound, hset⟩ := h.create hunset hpair
        refine ⟨hsound, rfl, fun _ => Or.inr ⟨by simpa using hlock, hgranted, ?_⟩, fun _ => hset⟩
        rw [hpair]
        rfl
  · exact ⟨h.setErrno p.errno, rfl, fun hne => Or.inl hne, fun _ => hunset⟩

theorem fileCloseWork_sound (h : ProxySound p) :
    StaysSound p (fileCloseWork r param p).1 := by
  rw [fileCloseWork]
  split
  · next fd _ =>
      cases hprotected : isProtected p fd with
      | true => exact h.setErrno _
      | false =>
          obtain ⟨hdev, hpre⟩ := not_isProtected hprotected
          rw [if_neg Bool.false_ne_true]
          split
          · exact h.setErrno _
          · next table hok =>
              obtain rfl := DescriptorTable.close_ok hok
              split
              · exact h.clear hdev hpre _
              · exact h.clear hdev hpre p.errno
  · exact h.setErrno _

theorem fileDupWork_sound (h : ProxySound p) : StaysSound p (fileDupWork r param p).1 := by
  rw [fileDupWork]
  split
  · next fd _ =>
      cases hprotected : isProtected p fd with
      | true => exact h.setErrno _
      | false =>
          obtain ⟨hdev, -⟩ := not_isProtected hprotected
          rw [if_neg Bool.false_ne_true]
          split
          · exact h.setErrno _
          · next new table hok =>
              obtain ⟨-, hfree, hlimit, hentry⟩ := DescriptorTable.dup_ok (refusedOr_ok hok).2
              refine h.copy hlimit hentry hdev ?_ fun heq hset => ?_
              · rintro rfl
                exact h.device_open hfree
              · rw [heq] at hfree
                exact absurd hfree (h.preClose hset).2
  · exact h.setErrno _

/-- `dup2` from another descriptor than the device onto another descriptor than the device. -/
theorem callDup2_sound (h : ProxySound p) {old new : Int32} (hold : old ≠ p.g_reePosixProxyDevFD)
    (hnew : new ≠ p.g_reePosixProxyDevFD)
    (hpre : new = p.g_reePreCloseFD → p.g_reePreCloseFD ≠ -1 → old = p.g_reePreCloseFD) :
    StaysSound p (callDup2 r old new p).1 := by
  rw [callDup2]
  split
  · exact h.setErrno _
  · next table hok =>
      obtain ⟨hlimit, -, hentry⟩ := DescriptorTable.dup2_ok (refusedOr_ok hok).2
      exact h.copy hlimit hentry hold hnew hpre

/-- `dup2` from another descriptor onto the device. -/
theorem callDup2_device_iff (h : ProxySound p) {old : Int32}
    (hold : old ≠ p.g_reePosixProxyDevFD) (hopen : p.table.entry old ≠ none) :
    (callDup2 r old p.g_reePosixProxyDevFD p).1.table.entry p.g_reePosixProxyDevFD =
      p.table.entry p.g_reePosixProxyDevFD ↔ r.dup2 ≠ none := by
  rw [callDup2]
  cases hrefused : r.dup2 with
  | some errno => exact ⟨fun _ => Option.some_ne_none errno, fun _ => rfl⟩
  | none =>
      obtain ⟨table, hok⟩ := DescriptorTable.dup2_isOk hopen h.device_nonneg h.device_lt
      obtain ⟨-, -, hentry⟩ := DescriptorTable.dup2_ok hok
      rw [refusedOr, hok]
      refine ⟨fun heq => absurd heq ?_, fun hne => absurd rfl hne⟩
      change table.entry p.g_reePosixProxyDevFD ≠ _
      rw [hentry, if_pos rfl]
      exact h.unshared old hold

theorem replacesDevice_dup2 {oldfd newfd : UInt64}
    (hargs : deSerializeIntegers 2 param = some [oldfd, newfd]) :
    ReplacesDevice p ⟨.fileDup2, param, r⟩ ↔
      asInt oldfd = -1 ∧ asInt newfd = p.g_reePosixProxyDevFD ∧
        PreCloseAvailable p r ∧ r.dup2 = none := by
  simp only [ReplacesDevice, hargs]

theorem fileDup2Work_sound (h : ProxySound p) (hr : ¬ReplacesDevice p ⟨.fileDup2, param, r⟩) :
    StaysSound p (fileDup2Work r param p).1 := by
  rw [fileDup2Work]
  split
  · next oldfd newfd hargs =>
      rw [replacesDevice_dup2 hargs] at hr
      by_cases hold : asInt oldfd = -1
      · rw [if_pos hold]
        obtain ⟨hsound, hret, havail⟩ := getReePreCloseFD_sound (r := r) h
        dsimp only
        split_ifs with hfailed
        · exact hsound.trans (hsound.sound.setErrno _)
        · refine hsound.trans ?_
          have hset := hfailed
          rw [hret] at hset ⊢
          by_cases hnew : asInt newfd = p.g_reePosixProxyDevFD
          · have hrefused : r.dup2 ≠ none := fun hnone =>
              hr ⟨hold, hnew, havail.mp hfailed, hnone⟩
            obtain ⟨errno, herrno⟩ := Option.ne_none_iff_exists'.mp hrefused
            simp only [callDup2, herrno, refusedOr]
            exact hsound.sound.setErrno errno
          · refine callDup2_sound hsound.sound (hsound.sound.preClose hset).1 ?_ fun _ _ => rfl
            rw [hsound.kept.device]
            exact hnew
      · rw [if_neg hold]
        split_ifs with hprotected
        · exact h.setErrno _
        · obtain ⟨hsource, htarget⟩ := Bool.or_eq_false_iff.mp (Bool.eq_false_iff.mpr hprotected)
          obtain ⟨hnew, hpre⟩ := not_isProtected htarget
          exact callDup2_sound h (not_isProtected hsource).1 hnew fun heq => absurd heq hpre
  · exact h.setErrno _

theorem fileDup2Work_replaces (h : ProxySound p) (hr : ReplacesDevice p ⟨.fileDup2, param, r⟩) :
    ¬DescriptorsKept p (fileDup2Work r param p).1 := by
  intro hkept
  rw [fileDup2Work] at hkept
  split at hkept
  · next oldfd newfd hargs =>
      rw [replacesDevice_dup2 hargs] at hr
      obtain ⟨hold, hnew, havail, hgranted⟩ := hr
      obtain ⟨hsound, hret, hiff⟩ := getReePreCloseFD_sound (r := r) h
      have hset := hiff.mpr havail
      rw [if_pos hold] at hkept
      dsimp only at hkept
      rw [if_neg hset, hnew] at hkept
      rw [hret] at hset hkept
      have hpre := hsound.sound.preClose hset
      have hentry := hkept.deviceEntry
      have hrefused := (callDup2_device_iff hsound.sound hpre.1 hpre.2 (r := r)).mp ?_
      · exact hrefused hgranted
      · rw [hsound.kept.device, hentry, hsound.kept.deviceEntry]
  · next hargs =>
      simp only [ReplacesDevice] at hr
      split at hr
      · next oldfd newfd _ heq => exact hargs oldfd newfd heq
      · exact hr

theorem fileWork_sound {req : FileRequest} (h : ProxySound p) (hr : ¬ReplacesDevice p req) :
    StaysSound p (fileWork p req).1 := by
  obtain ⟨func, param, r⟩ := req
  cases func with
  | fileClose => exact fileCloseWork_sound h
  | fileDup2 => exact fileDup2Work_sound h hr
  | fileDup => exact fileDupWork_sound h

/-- A request keeps the protected descriptors unless it replaces the device. -/
theorem descriptorsKept_iff {req : FileRequest} (h : ProxySound p) :
    (∀ q, fileStep p req = some q → DescriptorsKept p q) ↔ ¬ReplacesDevice p req := by
  constructor
  · intro hkept hr
    obtain ⟨func, param, r⟩ := req
    cases func with
    | fileDup2 => exact fileDup2Work_replaces h hr (hkept _ rfl)
    | fileClose | fileDup => exact hr
  · rintro hr q hq
    obtain rfl := Option.some.inj hq
    exact (fileWork_sound h hr).kept

/-! ### Runs -/

/-- `open` leaves the proxy with a description that no other number refers to. -/
theorem posixProxyInitDev_sound {s : FdProxy} {devFd : Int32}
    (hpre : p.g_reePreCloseFD = -1 ∨ p.table.entry p.g_reePreCloseFD ≠ none)
    (hinit : posixProxyInitDev p = (s, devFd)) (hopen : 0 ≤ devFd) : ProxySound s := by
  rw [posixProxyInitDev] at hinit
  split at hinit
  · cases hinit
    exact absurd hopen (by decide)
  · next table hok =>
      cases hinit
      obtain ⟨-, hlimit, hfree, hsame, file, hfresh, hentry⟩ := DescriptorTable.install_ok hok
      have hdevice : table.entry devFd = some file := by rw [hentry, if_pos rfl]
      refine ⟨hopen, ?_, ?_, fun fd hfd => ?_, fun hset => ?_⟩
      · change devFd.toInt < table.limit
        rw [hsame]
        exact hlimit
      · change table.entry devFd ≠ none
        rw [hdevice]
        exact Option.some_ne_none file
      · have hother : fd ≠ devFd := hfd
        change table.entry fd ≠ table.entry devFd
        rw [hdevice, hentry, if_neg hother]
        exact hfresh fd
      · obtain hunset | hinUse := hpre
        · exact absurd hunset hset
        · have hother : p.g_reePreCloseFD ≠ devFd := by
            intro heq
            rw [heq] at hinUse
            exact hinUse hfree
          refine ⟨hother, ?_⟩
          change table.entry p.g_reePreCloseFD ≠ none
          rw [hentry, if_neg hother]
          exact hinUse

/-- From `PosixProxyInitDev` on the protected descriptors are left alone exactly as long as no request
duplicates the pre-close descriptor onto the device. -/
theorem run_descriptorsKept_iff {s : FdProxy} {devFd : Int32}
    (hpre : p.g_reePreCloseFD = -1 ∨ p.table.entry p.g_reePreCloseFD ≠ none)
    (hinit : posixProxyInitDev p = (s, devFd)) (hopen : 0 ≤ devFd) (requests : List FileRequest) :
    Throughout fileStep DescriptorsKept s requests ↔
      Along fileStep (fun q req => ¬ReplacesDevice q req) s requests := by
  rw [throughout_iff DescriptorsKept.refl fun _ _ _ => DescriptorsKept.trans]
  refine along_congr ProxySound (fun q req hq => descriptorsKept_iff hq) ?_
    (posixProxyInitDev_sound hpre hinit hopen)
  intro q req q' hq hkept hstep
  obtain rfl := Option.some.inj hstep
  exact (fileWork_sound hq ((descriptorsKept_iff hq).mp hkept)).sound

/-- The device is number 0. Its close and its duplication are refused, the pre-close descriptor gets
number 1 and is duplicated to 5, and 5 is duplicated and closed. -/
theorem refusedRequests_descriptorsKept :
    Throughout fileStep DescriptorsKept
      (posixProxyInitDev { table := DescriptorTable.empty 1024 (by decide) }).1
      [⟨.fileClose, serializedParam [2 ^ 32], {}⟩, ⟨.fileDup2, serializedParam [2 ^ 64 - 1, 5], {}⟩,
        ⟨.fileDup2, serializedParam [5, 1], {}⟩, ⟨.fileDup, serializedParam [0], {}⟩,
        ⟨.fileDup, serializedParam [5], {}⟩, ⟨.fileClose, serializedParam [5], {}⟩] :=
  (run_descriptorsKept_iff (Or.inl rfl) Prod.mk.eta.symm (by decide +kernel) _).mpr (by decide +kernel)

/-- One request with -1 for `oldfd` and the device for `newfd` replaces the device. -/
theorem preCloseOntoDevice_replaces :
    ¬Throughout fileStep DescriptorsKept
      (posixProxyInitDev { table := DescriptorTable.empty 1024 (by decide) }).1
      [⟨.fileDup2, serializedParam [2 ^ 64 - 1, 0], {}⟩] := by
  intro h
  rw [throughout_iff DescriptorsKept.refl fun _ _ _ => DescriptorsKept.trans, along_cons] at h
  exact absurd (h.1 _ rfl).deviceEntry (by decide +kernel)

end ITrustee.Teleport
