import Mathlib.Tactic
import ITrustee.Foundation.Machine
import ITrustee.Teecd.LoginMessages

/-!
# What a process gets from the daemon

The threads inside the library, which wait for replies on connections of their own. `login_sound` is about
all runs of the daemon with any processes: whoever has a descriptor of the device is the one that the
driver knows its file by, the library asks for one only if the versions match, what it returns is one or
an error, and the daemon keeps nothing of a connection that it is done with.
-/

namespace ITrustee.Teecd.Login

section Threads

variable (S : System)

/-- The library may talk to a daemon of that version. -/
def Compatible : Prop := S.libteec.major = S.teecd.major ∧ S.libteec.minor ≤ S.teecd.minor

/-- What `CaDaemonConnectWithCaInfo` returns: an error, the version of the TEE, or a descriptor. -/
structure Outcome (s : State) (p : ProcId) (call : Call) (ret : Int) : Prop where
  version : call.cmd = getTeeVersion → ret = -1 ∨ ret = -4 ∨ ret = S.teeVersion.toInt32.toInt
  file : isVersionCmd call.cmd = false → ret = -1 ∨ ret = -4 ∨ 0 ≤ ret ∧ (s.fds p ret).isSome = true

/-- A connection of the thread. -/
structure Mine (s : State) (p : ProcId) (t : ThreadId) (c : ConnId) (k : Conn) : Prop where
  conn : s.conns c = some k
  peer : k.peer = p
  owner : k.owner = some t

def ThreadState (s : State) (p : ProcId) (t : ThreadId) : ThreadPc → Prop
  | .sending _ _ c => ∃ k, Mine s p t c k ∧ k.sent = []
  | .receiving phase call c => ∃ k malloc m n, Mine s p t c k ∧
      fillMsgBuffer malloc call (phase.cmd call) = some m ∧ k.sent = m.take n
  | .closing .version _ c _ => ∃ k, Mine s p t c k
  | .closing .request call c ret => (∃ k, Mine s p t c k) ∧ Outcome S s p call ret
  | .connected .request call ret | .returned call ret => Outcome S s p call ret
  | _ => True

/-- The thread asks for what it was called for. -/
def ThreadPc.requesting : ThreadPc → Bool
  | .connecting .request _ _ | .sending .request _ _ | .receiving .request _ _
  | .closing .request _ _ _ | .connected .request _ _ => true
  | _ => false

structure ThreadsSound (s : State) : Prop where
  threads : ∀ p t, ThreadState S s p t (s.threads p t)
  checked : ∀ p, s.checkResult p = 0 → Compatible S
  requests : ∀ p t, (s.threads p t).requesting = true → Compatible S

/-- A step that is none of the thread's. -/
structure Stays (s s' : State) (p : ProcId) (t : ThreadId) : Prop where
  conns : ∀ c k, Mine s p t c k → ∃ k', Mine s' p t c k' ∧ k'.sent = k.sent
  fds : ∀ fd, (s.fds p fd).isSome = true → (s'.fds p fd).isSome = true

variable {S} {s s' : State} {p : ProcId} {t : ThreadId}

theorem Outcome.stays {call : Call} {ret : Int} (h : Outcome S s p call ret)
    (hfds : ∀ fd, (s.fds p fd).isSome = true → (s'.fds p fd).isSome = true) :
    Outcome S s' p call ret where
  version := h.version
  file hcmd := (h.file hcmd).imp_right fun h => h.imp_right fun h => ⟨h.1, hfds ret h.2⟩

theorem outcome_error {call : Call} {ret : Int} (h : ret = -1 ∨ ret = -4) : Outcome S s p call ret where
  version _ := h.imp_right Or.inl
  file _ := h.imp_right Or.inl

theorem ThreadState.stays {pc : ThreadPc} (h : ThreadState S s p t pc) (hstays : Stays s s' p t) :
    ThreadState S s' p t pc := by
  have hmine {c : ConnId} (hk : ∃ k, Mine s p t c k) : ∃ k, Mine s' p t c k := by
    obtain ⟨k, hk⟩ := hk
    obtain ⟨k', hk', -⟩ := hstays.conns c k hk
    exact ⟨k', hk'⟩
  cases pc with
  | sending phase call c =>
      obtain ⟨k, hk, hsent⟩ := h
      obtain ⟨k', hk', hsame⟩ := hstays.conns c k hk
      exact ⟨k', hk', hsame.trans hsent⟩
  | receiving phase call c =>
      obtain ⟨k, malloc, m, n, hk, hfill, hsent⟩ := h
      obtain ⟨k', hk', hsame⟩ := hstays.conns c k hk
      exact ⟨k', malloc, m, n, hk', hfill, hsame.trans hsent⟩
  | closing phase call c ret =>
      cases phase with
      | version => exact hmine h
      | request => exact ⟨hmine h.1, h.2.stays hstays.fds⟩
  | connected phase call ret =>
      cases phase with
      | version => trivial
      | request => exact Outcome.stays h hstays.fds
  | returned call ret => exact Outcome.stays h hstays.fds
  | _ => trivial

/-- A step in which no thread takes part. -/
theorem ThreadsSound.stays (hs : ThreadsSound S s) (hthreads : s'.threads = s.threads)
    (hchecked : s'.checkResult = s.checkResult) (hstays : ∀ p t, Stays s s' p t) :
    ThreadsSound S s' where
  threads p t := by
    rw [hthreads]
    exact (hs.threads p t).stays (hstays p t)
  checked p := by
    rw [hchecked]
    exact hs.checked p
  requests p t := by
    rw [hthreads]
    exact hs.requests p t

/-- A step of one thread. -/
theorem ThreadsSound.turn {pc : ThreadPc} (hs : ThreadsSound S s)
    (hthreads : s'.threads = Function.update s.threads p (Function.update (s.threads p) t pc))
    (hstays : ∀ q u, (q, u) ≠ (p, t) → Stays s s' q u) (hpc : ThreadState S s' p t pc)
    (hchecked : ∀ q, s'.checkResult q = 0 → Compatible S)
    (hrequests : pc.requesting = true → Compatible S) : ThreadsSound S s' := by
  have hother (q : ProcId) (u : ThreadId) :
      s'.threads q u = if (q, u) = (p, t) then pc else s.threads q u := by
    rw [hthreads, Function.update_apply]
    by_cases hq : q = p
    · rw [if_pos hq, Function.update_apply, hq]
      by_cases hu : u = t
      · rw [if_pos hu, if_pos (by rw [hu])]
      · rw [if_neg hu, if_neg fun heq => hu (Prod.mk.inj heq).2]
    · rw [if_neg hq, if_neg fun heq => hq (Prod.mk.inj heq).1]
  refine ⟨fun q u => ?_, hchecked, fun q u hreq => ?_⟩
  · rw [hother]
    by_cases heq : (q, u) = (p, t)
    · rw [if_pos heq]
      obtain ⟨rfl, rfl⟩ := Prod.mk.inj heq
      exact hpc
    · rw [if_neg heq]
      exact (hs.threads q u).stays (hstays q u heq)
  · rw [hother] at hreq
    split_ifs at hreq
    · exact hrequests hreq
    · exact hs.requests q u hreq

/-- What is done to a connection of a thread is nothing to another one. -/
theorem stays_setConn {q : ProcId} {u : ThreadId} {c : ConnId} {k : Conn} {f : Conn → Conn}
    (hk : Mine s p t c k) (hne : (q, u) ≠ (p, t)) : Stays s (s.setConn c f) q u where
  conns c' k' hk' := by
    have hc : c' ≠ c := by
      rintro rfl
      have heq := hk'.conn.symm.trans hk.conn
      obtain rfl := Option.some.inj heq
      refine hne ?_
      rw [← hk'.peer, ← hk.peer, Option.some.inj (hk'.owner.symm.trans hk.owner)]
    exact ⟨k', ⟨by rw [conns_setConn, if_neg hc]; exact hk'.conn, hk'.peer, hk'.owner⟩, rfl⟩
  fds _ h := h

/-- What is done to a connection besides sending is nothing to any thread. -/
theorem stays_setConn_sent {q : ProcId} {u : ThreadId} {c : ConnId} {f : Conn → Conn}
    (hpeer : ∀ k, (f k).peer = k.peer) (howner : ∀ k, (f k).owner = k.owner)
    (hsent : ∀ k, (f k).sent = k.sent) : Stays s (s.setConn c f) q u where
  conns c' k hk := by
    by_cases hc : c' = c
    · refine ⟨f k, ⟨?_, (hpeer k).trans hk.peer, (howner k).trans hk.owner⟩, hsent k⟩
      rw [conns_setConn, if_pos hc, ← hc, hk.conn]
      rfl
    · exact ⟨k, ⟨by rw [conns_setConn, if_neg hc]; exact hk.conn, hk.peer, hk.owner⟩, rfl⟩
  fds _ h := h

theorem stays_of_eq {q : ProcId} {u : ThreadId} (hconns : s'.conns = s.conns) (hfds : s'.fds = s.fds) :
    Stays s s' q u where
  conns c k hk := ⟨k, ⟨by rw [hconns]; exact hk.conn, hk.peer, hk.owner⟩, rfl⟩
  fds fd h := by
    rw [hfds]
    exact h

theorem Stays.trans {s'' : State} (h : Stays s s' p t) (h' : Stays s' s'' p t) : Stays s s'' p t where
  conns c k hk := by
    obtain ⟨k', hk', hsent⟩ := h.conns c k hk
    obtain ⟨k'', hk'', hsent'⟩ := h'.conns c k' hk'
    exact ⟨k'', hk'', hsent'.trans hsent⟩
  fds fd hfd := h'.fds fd (h.fds fd hfd)

theorem stays_addConn {q : ProcId} {u : ThreadId} {owner : Option ThreadId}
    (hfresh : ∀ c, s.nextConn ≤ c → s.conns c = none) : Stays s (addConn s p owner) q u where
  conns c k hk := by
    have hne : c ≠ s.nextConn := by
      rintro rfl
      have hnone := hfresh s.nextConn le_rfl
      rw [hk.conn] at hnone
      cases hnone
    refine ⟨k, ⟨?_, hk.peer, hk.owner⟩, rfl⟩
    rw [addConn]
    dsimp only
    rw [Function.update_of_ne hne]
    exact hk.conn
  fds _ h := h

theorem daemonTurn_threads {pc : DaemonPc} (hs : ThreadsSound S s) (hturn : DaemonTurn S s pc s') :
    ThreadsSound S s' := by
  have hsame {s' : State} (hconns : s'.conns = s.conns) (hfds : s'.fds = s.fds)
      (hthreads : s'.threads = s.threads) (hchecked : s'.checkResult = s.checkResult) :
      ThreadsSound S s' := hs.stays hthreads hchecked fun _ _ => stays_of_eq hconns hfds
  have hconn {c : ConnId} {f : Conn → Conn} {pc : DaemonPc} (hpeer : ∀ k, (f k).peer = k.peer)
      (howner : ∀ k, (f k).owner = k.owner) (hsent : ∀ k, (f k).sent = k.sent) :
      ThreadsSound S { s.setConn c f with daemon := pc } :=
    hs.stays rfl rfl fun _ _ => (stays_setConn_sent hpeer howner hsent).trans (stays_of_eq rfl rfl)
  cases hturn with
  | quiet => exact hsame rfl rfl rfl rfl
  | acceptFails => exact hs
  | accept => exact hconn (fun _ => rfl) (fun _ => rfl) fun _ => rfl
  | peerCred => exact hsame rfl rfl rfl rfl
  | recv => exact hsame rfl rfl rfl rfl
  | sendVersion => exact hconn (fun _ => rfl) (fun _ => rfl) fun _ => rfl
  | openFile => exact hsame rfl rfl rfl rfl
  | loginNull => exact hsame rfl rfl rfl rfl
  | login => exact hsame rfl rfl rfl rfl
  | send => exact hconn (fun _ => rfl) (fun _ => rfl) fun _ => rfl
  | closeFd => exact hsame rfl rfl rfl rfl
  | closeSocket => exact hconn (fun _ => rfl) (fun _ => rfl) fun _ => rfl
  | closeEarly => exact hconn (fun _ => rfl) (fun _ => rfl) fun _ => rfl
  | clear => exact hsame rfl rfl rfl rfl

/-! ### Versions -/

theorem checkTeecdVersion_iff :
    checkTeecdVersion S.libteec (versionReply S getTeecdVersion).base = 0 ↔ Compatible S := by
  have hbase : (versionReply S getTeecdVersion).base =
      Bytes.le 2 S.teecd.major.toNat ++ Bytes.le 2 S.teecd.minor.toNat := rfl
  have hmajor : UInt16.ofNat (Bytes.load 2 (versionReply S getTeecdVersion).base 0) =
      S.teecd.major := by
    rw [hbase, Bytes.load_le_append, Nat.mod_eq_of_lt (show _ < 256 ^ 2 from S.teecd.major.toNat_lt),
      UInt16.ofNat_toNat]
  have hminor : UInt16.ofNat (Bytes.load 2 (versionReply S getTeecdVersion).base 2) =
      S.teecd.minor := by
    have hload := Bytes.load_append 2 (Bytes.le 2 S.teecd.major.toNat)
      (Bytes.le 2 S.teecd.minor.toNat) 0
    rw [Bytes.le_length] at hload
    rw [hbase, hload]
    have hle := Bytes.load_le_append 2 S.teecd.minor.toNat []
    rw [List.append_nil] at hle
    rw [hle, Nat.mod_eq_of_lt (show _ < 256 ^ 2 from S.teecd.minor.toNat_lt), UInt16.ofNat_toNat]
  rw [checkTeecdVersion, hmajor, hminor, Compatible]
  by_cases hm : S.libteec.major = S.teecd.major
  · rw [if_neg (not_not.mpr hm.symm)]
    by_cases hn : S.teecd.minor < S.libteec.minor
    · rw [if_pos hn]
      exact iff_of_false (by decide) fun h => UInt16.not_le.mpr hn h.2
    · rw [if_neg hn]
      exact iff_of_true rfl ⟨hm, UInt16.not_lt.mp hn⟩
  · rw [if_pos (Ne.symm hm)]
    exact iff_of_false (by decide) fun h => hm h.1

/-- What comes back for a command that is answered with a number. -/
theorem reply_of_version {c : ConnId} {k : Conn} {r : Reply} {malloc : Bool} {call : Call}
    {cmd : UInt32} {m : List UInt8} {n : Nat} (hwire : WireSound S s) (hk : s.conns c = some k)
    (hr : k.reply = some r) (hcmd : isVersionCmd cmd = true)
    (hfill : fillMsgBuffer malloc call cmd = some m) (hsent : k.sent = m.take n) :
    r = versionReply S cmd := by
  obtain ⟨msg, hread, hans⟩ := hwire.replies c k r hk hr
  have hlt : cmd.toNat < 256 := by
    rw [isVersionCmd, Bool.or_eq_true, decide_eq_true_iff, decide_eq_true_iff] at hcmd
    rcases hcmd with rfl | rfl <;> decide
  rw [Answers, msgCmd_read hlt hfill hsent hread, if_pos hcmd] at hans
  exact hans

theorem teeVersion_reply :
    (UInt32.ofNat (Bytes.load 4 (versionReply S getTeeVersion).base 0)).toInt32.toInt =
      S.teeVersion.toInt32.toInt := by
  have hle := Bytes.load_le_append 4 S.teeVersion.toNat []
  rw [List.append_nil] at hle
  have hbase : (versionReply S getTeeVersion).base = Bytes.le 4 S.teeVersion.toNat := rfl
  rw [hbase, hle, Nat.mod_eq_of_lt (show _ < 256 ^ 4 from S.teeVersion.toNat_lt), UInt32.ofNat_toNat]

/-! ### Everything together -/

variable (S) in
structure Sound (s : State) : Prop where
  files : FilesSound S s
  wire : WireSound S s
  threads : ThreadsSound S s
  tidy : Tidy s

/-- A step that moves no file, and is none of the daemon's. -/
theorem Sound.step (hs : Sound S s) (hframe : Frame s s') (hothers : Others s s')
    (hthreads : ThreadsSound S s') : Sound S s' where
  files := hs.files.frame hframe (by rw [hothers.daemon]; exact hframe.daemonFile hs.files.daemon)
  wire := hs.wire.others hothers
  threads := hthreads
  tidy := hs.tidy.others hothers

theorem frame_setThread {pc : ThreadPc} : Frame s (setThread s p t pc) :=
  frame_of_eq rfl rfl rfl rfl rfl

theorem others_setThread {pc : ThreadPc} : Others s (setThread s p t pc) :=
  others_of_eq rfl rfl rfl rfl

/-- A step of a thread that changes nothing but its place, and the globals of the library. -/
theorem Sound.moves {pc : ThreadPc} (hs : Sound S s) (hpc : ThreadState S s p t pc)
    (hrequests : pc.requesting = true → Compatible S) : Sound S (setThread s p t pc) :=
  hs.step frame_setThread others_setThread
    (hs.threads.turn rfl (fun _ _ _ => stays_of_eq rfl rfl) (hpc.stays (stays_of_eq rfl rfl))
      hs.threads.checked hrequests)

/-- A step of a thread with its connection. -/
theorem Sound.onConn {c : ConnId} {k : Conn} {f : Conn → Conn} {pc : ThreadPc} (hs : Sound S s)
    (hmine : Mine s p t c k) (hgrows : Grows k (f k)) (hpeer : ∀ k, (f k).peer = k.peer)
    (hreply : ∀ k, (f k).reply.bind Reply.file = k.reply.bind Reply.file ∨
      (f k).reply.bind Reply.file = none)
    (hpc : ThreadState S (s.setConn c f) p t pc) (hrequests : pc.requesting = true → Compatible S) :
    Sound S (setThread (s.setConn c f) p t pc) := by
  have hothers : Others s (s.setConn c f) := others_setConn fun k' hk' => by
    rw [hmine.conn] at hk'
    cases hk'
    exact hgrows
  exact hs.step ((frame_setConn hpeer hreply).trans frame_setThread)
    (hothers.trans others_setThread)
    (hs.threads.turn rfl (fun _ _ hne => (stays_setConn hmine hne).trans (stays_of_eq rfl rfl))
      (hpc.stays (stays_of_eq rfl rfl)) hs.threads.checked hrequests)

theorem mine_setConn {c : ConnId} {k : Conn} {f : Conn → Conn} (hmine : Mine s p t c k)
    (hpeer : (f k).peer = k.peer) (howner : (f k).owner = k.owner) :
    Mine (s.setConn c f) p t c (f k) where
  conn := by
    rw [conns_setConn, if_pos rfl, hmine.conn]
    rfl
  peer := hpeer.trans hmine.peer
  owner := howner.trans hmine.owner

/-- What a descriptor for a received file changes. -/
theorem installFd_some {fd : Int} {file : DeviceFile} (h : installFd s p fd file = some s') :
    0 ≤ fd ∧ (s'.fds p fd).isSome = true ∧
      (∀ q fd', (s.fds q fd').isSome = true → (s'.fds q fd').isSome = true) ∧
        s' = { s with fds := s'.fds } := by
  rw [installFd] at h
  split_ifs at h with hfree
  cases h
  refine ⟨hfree.1, ?_, fun q fd' hsome => ?_, rfl⟩
  · dsimp only
    rw [Function.update_self, Function.update_self]
    rfl
  · dsimp only
    rw [Function.update_apply]
    split_ifs with hq
    · rw [Function.update_apply]
      split_ifs
      · rfl
      · exact hq ▸ hsome
    · exact hsome

/-- The thread has a reply. -/
theorem receive_sound {phase : Phase} {call : Call} {c : ConnId} {k : Conn} {r : Reply} {fd msgRet : Int}
    {malloc : Bool} {m : List UInt8} {n : Nat} (hs : Sound S s)
    (hpc : s.threads p t = .receiving phase call c) (hmine : Mine s p t c k) (hr : k.reply = some r)
    (hfill : fillMsgBuffer malloc call (phase.cmd call) = some m) (hsent : k.sent = m.take n)
    (hrecv : recvSockMsg S (s.setConn c fun k => { k with reply := none }) p (phase.cmd call) r fd =
      some (msgRet, s')) : Sound S (setThread s' p t (.closing phase call c msgRet)) := by
  have hmine' : Mine (s.setConn c fun k => { k with reply := none }) p t c { k with reply := none } :=
    mine_setConn hmine rfl rfl
  have hversion (hcmd : isVersionCmd (phase.cmd call) = true) : r = versionReply S (phase.cmd call) :=
    reply_of_version hs.wire hmine.conn hr hcmd hfill hsent
  have hrequests (h : (ThreadPc.closing phase call c msgRet).requesting = true) : Compatible S := by
    refine hs.threads.requests p t ?_
    rw [hpc]
    cases phase with
    | version => exact h
    | request => rfl
  -- for a request, the outcome is all that is left to show
  have hstate {s' : State} (hmine : ∃ k, Mine s' p t c k)
      (houtcome : phase = .request → Outcome S s' p call msgRet) :
      ThreadState S s' p t (.closing phase call c msgRet) := by
    cases phase with
    | version => exact hmine
    | request => exact ⟨hmine, houtcome rfl⟩
  have hdrop (houtcome : phase = .request → Outcome S (s.setConn c fun k => { k with reply := none }) p
      call msgRet) :
      Sound S (setThread (s.setConn c fun k => { k with reply := none }) p t
        (.closing phase call c msgRet)) :=
    hs.onConn hmine ⟨rfl, rfl, List.prefix_rfl, Or.inr rfl, rfl⟩ (fun _ => rfl) (fun _ => Or.inr rfl)
      (hstate ⟨_, hmine'⟩ houtcome) hrequests
  have hothers : Others s (s.setConn c fun k => { k with reply := none }) :=
    others_setConn fun _ _ => ⟨rfl, rfl, List.prefix_rfl, Or.inr rfl, rfl⟩
  have hframe : Frame s (s.setConn c fun k => { k with reply := none }) :=
    frame_setConn (fun _ => rfl) fun _ => Or.inr rfl
  rw [recvSockMsg] at hrecv
  by_cases htee : phase.cmd call = getTeeVersion
  · rw [if_pos htee] at hrecv
    cases hrecv
    refine hdrop fun hrequest => ⟨fun _ => Or.inr (Or.inr ?_), fun hcmd => ?_⟩
    · rw [hversion (by rw [htee]; rfl), htee]
      exact teeVersion_reply
    · subst hrequest
      rw [show call.cmd = getTeeVersion from htee] at hcmd
      cases hcmd
  rw [if_neg htee] at hrecv
  by_cases hteecd : phase.cmd call = getTeecdVersion
  · rw [if_pos hteecd] at hrecv
    cases hrecv
    have hreply := hversion (by rw [hteecd]; rfl)
    rw [hteecd] at hreply
    refine hs.step (hframe.trans (frame_of_eq rfl rfl rfl rfl rfl))
      (hothers.trans (others_of_eq rfl rfl rfl rfl))
      (hs.threads.turn rfl (fun q u hne => (stays_setConn hmine hne).trans (stays_of_eq rfl rfl)) ?_
        (fun q hq => ?_) hrequests)
    · refine (hstate ⟨_, hmine'⟩ fun hrequest => ?_).stays (stays_of_eq rfl rfl)
      subst hrequest
      refine ⟨fun hcmd => absurd hcmd htee, fun hcmd => ?_⟩
      rw [show call.cmd = getTeecdVersion from hteecd] at hcmd
      cases hcmd
    · have hq' : Function.update s.checkResult p (checkTeecdVersion S.libteec r.base) q = 0 := hq
      rw [Function.update_apply] at hq'
      split_ifs at hq'
      · rw [hreply] at hq'
        exact checkTeecdVersion_iff.mp hq'
      · exact hs.threads.checked q hq'
  rw [if_neg hteecd] at hrecv
  cases hfile : r.file with
  | none =>
      rw [hfile] at hrecv
      cases hrecv
      exact hdrop fun _ => outcome_error (Or.inl rfl)
  | some file =>
      rw [hfile] at hrecv
      obtain ⟨s₁, hinstall, hrecv⟩ := Option.map_eq_some_iff.mp hrecv
      obtain ⟨rfl, rfl⟩ := Prod.mk.inj hrecv
      obtain ⟨hpos, hsome, hfds, hrest⟩ := installFd_some hinstall
      have hfiles : FilesSound S s₁ :=
        installFd_files hs.files hmine.conn hr hfile (hmine.peer.symm ▸ hinstall)
      have hothers' : Others s s₁ := hothers.trans (by rw [hrest]; exact others_of_eq rfl rfl rfl rfl)
      have hstays {q : ProcId} {u : ThreadId}
          (h : Stays s (s.setConn c fun k => { k with reply := none }) q u) : Stays s s₁ q u := by
        refine h.trans ⟨fun c' k' hk' => ⟨k', ⟨?_, hk'.peer, hk'.owner⟩, rfl⟩, fun fd' h => hfds q fd' h⟩
        rw [hrest]
        exact hk'.conn
      have hmine₁ : ∃ k, Mine s₁ p t c k := by
        refine ⟨_, ?_, hmine'.peer, hmine'.owner⟩
        rw [hrest]
        exact hmine'.conn
      have hthreads : s₁.threads = s.threads := by rw [hrest]; rfl
      have hchecked : s₁.checkResult = s.checkResult := by rw [hrest]; rfl
      refine ⟨hfiles.frame frame_setThread (frame_setThread.daemonFile hfiles.daemon),
        (hs.wire.others hothers').others others_setThread, ?_,
        (hs.tidy.others hothers').others others_setThread⟩
      refine hs.threads.turn (by rw [← hthreads]; rfl)
        (fun q u hne => (hstays (stays_setConn hmine hne)).trans (stays_of_eq rfl rfl)) ?_
        (fun q hq => hs.threads.checked q (by rw [← hchecked]; exact hq)) hrequests
      refine (hstate hmine₁ fun hrequest => ?_).stays (stays_of_eq rfl rfl)
      exact ⟨fun hcmd => absurd (by subst hrequest; exact hcmd) htee,
        fun _ => Or.inr (Or.inr ⟨hpos, hsome⟩)⟩

/-- Every step of a thread inside the library. -/
theorem threadStep_sound {o : ThreadCalls} (hs : Sound S s) (hstep : threadStep S s p t o = some s') :
    Sound S s' := by
  have hstate := hs.threads.threads p t
  have hrequests := hs.threads.requests p t
  have hfresh := hs.files.fresh
  rw [threadStep.eq_def] at hstep
  cases hpc : s.threads p t <;> rw [hpc] at hstep hstate hrequests <;> dsimp only at hstep
  case idle =>
      obtain ⟨call, -, rfl⟩ := Option.map_eq_some_iff.mp hstep
      exact hs.moves trivial fun h => by cases h
  case returned call ret =>
      obtain ⟨call, -, rfl⟩ := Option.map_eq_some_iff.mp hstep
      exact hs.moves trivial fun h => by cases h
  case entering call =>
      cases hstep
      split_ifs
      · exact hs.moves trivial fun h => by cases h
      · exact hs.moves trivial fun h => by cases h
  case connecting phase call failCount =>
      have hfails : Sound S (setThread s p t (.connected phase call (-1))) := by
        cases phase with
        | version => exact hs.moves trivial fun h => by cases h
        | request => exact hs.moves (outcome_error (Or.inl rfl)) hrequests
      split_ifs at hstep
      · cases hconnect : o.connect with
        | connected =>
            rw [hconnect] at hstep
            cases hstep
            refine hs.step ((frame_addConn hfresh).trans frame_setThread)
              ((others_addConn hfresh).trans others_setThread)
              (hs.threads.turn rfl
                (fun _ _ _ => (stays_addConn hfresh).trans (stays_of_eq rfl rfl))
                ⟨{ peer := p, owner := some t }, ⟨Function.update_self .., rfl, rfl⟩, rfl⟩
                hs.threads.checked fun h => ?_)
            cases phase with
            | version => cases h
            | request => exact hrequests rfl
        | accessDenied =>
            rw [hconnect] at hstep
            cases hstep
            exact hfails
        | failed =>
            rw [hconnect] at hstep
            cases hstep
            refine hs.moves trivial fun h => ?_
            cases phase with
            | version => cases h
            | request => exact hrequests rfl
      · cases hstep
        exact hfails
  case sending phase call c =>
      obtain ⟨k, hmine, hsent⟩ := hstate
      have hfails (ret : Int) (hret : ret = -1 ∨ ret = -4) :
          Sound S (setThread s p t (.closing phase call c ret)) := by
        cases phase with
        | version => exact hs.moves ⟨k, hmine⟩ fun h => by cases h
        | request => exact hs.moves ⟨⟨k, hmine⟩, outcome_error hret⟩ hrequests
      cases hfill : fillMsgBuffer o.malloc call (phase.cmd call) with
      | none =>
          rw [hfill] at hstep
          cases hstep
          exact hfails (-1) (Or.inl rfl)
      | some msg =>
          rw [hfill] at hstep
          dsimp only at hstep
          split_ifs at hstep <;> cases hstep
          · refine hs.onConn hmine ⟨rfl, rfl, by rw [hsent]; exact List.nil_prefix, Or.inl rfl, rfl⟩
              (fun _ => rfl) (fun _ => Or.inl rfl)
              ⟨_, o.malloc, msg, o.count, mine_setConn hmine rfl rfl, hfill, rfl⟩ fun h => ?_
            cases phase with
            | version => cases h
            | request => exact hrequests rfl
          · exact hfails (-4) (Or.inr rfl)
  case receiving phase call c =>
      obtain ⟨k, malloc, m, n, hmine, hfill, hsent⟩ := hstate
      split_ifs at hstep
      · cases hr : k.reply with
        | none =>
            rw [hmine.conn, Option.bind_some, hr] at hstep
            cases hstep
        | some r =>
            rw [hmine.conn, Option.bind_some, hr] at hstep
            obtain ⟨⟨msgRet, s₁⟩, hrecv, rfl⟩ := Option.map_eq_some_iff.mp hstep
            exact receive_sound hs hpc hmine hr hfill hsent hrecv
      · cases hstep
        cases phase with
        | version => exact hs.moves ⟨k, hmine⟩ fun h => by cases h
        | request => exact hs.moves ⟨⟨k, hmine⟩, outcome_error (Or.inl rfl)⟩ hrequests
  case closing phase call c msgRet =>
      cases hstep
      cases phase with
      | version =>
          obtain ⟨k, hmine⟩ := hstate
          exact hs.onConn hmine ⟨rfl, rfl, List.prefix_rfl, Or.inl rfl, rfl⟩ (fun _ => rfl)
            (fun _ => Or.inl rfl) trivial fun h => by cases h
      | request =>
          obtain ⟨⟨k, hmine⟩, houtcome⟩ := hstate
          exact hs.onConn hmine ⟨rfl, rfl, List.prefix_rfl, Or.inl rfl, rfl⟩ (fun _ => rfl)
            (fun _ => Or.inl rfl) (houtcome.stays fun _ h => h) hrequests
  case connected phase call ret =>
      cases phase with
      | version =>
          dsimp only at hstep
          split_ifs at hstep <;> cases hstep
          · exact hs.moves (outcome_error (Or.inl rfl)) fun h => by cases h
          · exact hs.step (frame_of_eq rfl rfl rfl rfl rfl) (others_of_eq rfl rfl rfl rfl)
              (hs.threads.turn rfl (fun _ _ _ => stays_of_eq rfl rfl) trivial hs.threads.checked
                fun h => by cases h)
      | request =>
          cases hstep
          exact hs.moves hstate fun h => by cases h
  case checking call =>
      cases hstep
      by_cases hchecked : s.checkResult p = 0
      · rw [if_neg (not_not.mpr hchecked)]
        exact hs.moves trivial fun _ => hs.threads.checked p hchecked
      · rw [if_pos hchecked]
        exact hs.moves (outcome_error (Or.inl rfl)) fun h => by cases h

/-- A process does something with a connection that the library has not made. -/
theorem rawConn_sound {c : ConnId} {k : Conn} {f : Conn → Conn} (hs : Sound S s)
    (hk : s.conns c = some k) (hraw : k.owner = none) (hgrows : Grows k (f k))
    (hpeer : ∀ k, (f k).peer = k.peer)
    (hreply : ∀ k, (f k).reply.bind Reply.file = k.reply.bind Reply.file ∨
      (f k).reply.bind Reply.file = none) : Sound S (s.setConn c f) := by
  have hothers : Others s (s.setConn c f) := others_setConn fun k' hk' => by
    rw [hk] at hk'
    cases hk'
    exact hgrows
  refine hs.step (frame_setConn hpeer hreply) hothers
    (hs.threads.stays rfl rfl fun p t => ⟨fun c' k' hk' => ⟨k', ⟨?_, hk'.peer, hk'.owner⟩, rfl⟩,
      fun _ h => h⟩)
  have hne : c' ≠ c := by
    rintro rfl
    obtain rfl := Option.some.inj (hk'.conn.symm.trans hk)
    have howner := hk'.owner
    rw [hraw] at howner
    cases howner
  rw [conns_setConn, if_neg hne]
  exact hk'.conn

theorem step_sound {a : Action} (hs : Sound S s) (hstep : step S s a = some s') : Sound S s' := by
  cases a with
  | daemon o =>
      have hturn := daemonStep_turn hstep
      exact ⟨daemonTurn_files hs.files rfl hturn, daemonTurn_wire hs.wire rfl hturn,
        daemonTurn_threads hs.threads hturn, daemonTurn_tidy hs.tidy rfl hturn⟩
  | thread p t o => exact threadStep_sound hs hstep
  | rawConnect p =>
      cases hstep
      have hfresh := hs.files.fresh
      exact hs.step (frame_addConn hfresh) (others_addConn hfresh)
        (hs.threads.stays rfl rfl fun _ _ => stays_addConn hfresh)
  | rawSend c bytes =>
      rw [step] at hstep
      split at hstep
      · next hk =>
          cases hstep
          exact rawConn_sound hs hk rfl ⟨rfl, rfl, List.prefix_append _ _, Or.inl rfl, rfl⟩
            (fun _ => rfl) fun _ => Or.inl rfl
      · cases hstep
  | rawRecv c fd =>
      rw [step] at hstep
      split at hstep
      · next peer sent r accepted daemonOpen clientOpen hk =>
          have hdrop : Sound S (s.setConn c fun k => { k with reply := none }) :=
            rawConn_sound hs hk rfl ⟨rfl, rfl, List.prefix_rfl, Or.inr rfl, rfl⟩ (fun _ => rfl)
              fun _ => Or.inr rfl
          dsimp only at hstep
          cases hfile : r.file with
          | none =>
              rw [hfile] at hstep
              cases hstep
              exact hdrop
          | some file =>
              rw [hfile] at hstep
              obtain ⟨-, -, hfds, hrest⟩ := installFd_some hstep
              refine ⟨installFd_files hs.files hk rfl hfile hstep,
                hdrop.wire.others (by rw [hrest]; exact others_of_eq rfl rfl rfl rfl), ?_,
                hdrop.tidy.others (by rw [hrest]; exact others_of_eq rfl rfl rfl rfl)⟩
              refine hdrop.threads.stays (by rw [hrest]) (by rw [hrest]) fun p t => ⟨?_, hfds p⟩
              intro c' k' hk'
              refine ⟨k', ⟨?_, hk'.peer, hk'.owner⟩, rfl⟩
              rw [hrest]
              exact hk'.conn
      · cases hstep
  | rawClose c =>
      rw [step] at hstep
      split at hstep
      · next hk =>
          cases hstep
          exact rawConn_sound hs hk rfl ⟨rfl, rfl, List.prefix_rfl, Or.inl rfl, rfl⟩ (fun _ => rfl)
            fun _ => Or.inl rfl
      · cases hstep

variable (S) in
/-- What holds of the whole system at any time. -/
structure LoggedIn (s : State) : Prop where
  /-- Whoever has a descriptor of the device is the one that its file was logged in for. -/
  identified : ∀ p fd file, s.fds p fd = some file → Identified S s p file
  /-- No file has two descriptors. -/
  exclusive : ∀ p fd p' fd' file, s.fds p fd = some file → s.fds p' fd' = some file →
    p = p' ∧ fd = fd'
  outcome : ∀ p t call ret, s.threads p t = .returned call ret → Outcome S s p call ret
  versions : ∀ p t, (s.threads p t).requesting = true → Compatible S
  /-- Between two connections the daemon has nothing open, and nothing of a message is left. -/
  idle : s.daemon = .accepting → s.daemonFds = [] ∧ s.caInfo = List.replicate caRevMsgSize 0 ∧
    ∀ c k, s.conns c = some k → k.daemonOpen = false

theorem Sound.loggedIn (hs : Sound S s) : LoggedIn S s where
  identified p fd file h := by
    obtain ⟨-, q, hq, hid⟩ := hs.files.identified (.descriptor p fd) file h
    cases hq
    exact hid
  exclusive p fd p' fd' file h h' :=
    Place.descriptor.inj (hs.files.unique (.descriptor p fd) (.descriptor p' fd') file h h')
  outcome p t call ret h := by
    have hstate := hs.threads.threads p t
    rw [h] at hstate
    exact hstate
  versions := hs.threads.requests
  idle hidle := by
    have hfds := hs.tidy.fds
    have hmsg := hs.wire.daemon
    rw [hidle] at hfds hmsg
    refine ⟨hfds, hmsg, fun c k hk => Bool.eq_false_of_not_eq_true fun hopen => ?_⟩
    have hconn := hs.tidy.conns c k hk hopen
    rw [hidle] at hconn
    cases hconn

theorem sound_init : Sound S {} where
  files :=
    { fresh := fun _ _ => rfl
      identified := fun pl fd h => by cases pl <;> cases h
      unique := fun pl pl' fd h _ => by cases pl <;> cases h
      daemon := trivial }
  wire :=
    { replies := fun _ _ _ hk _ => by cases hk
      daemon := rfl }
  threads := ⟨fun _ _ => trivial, fun _ h => absurd h (show (-1 : Int) ≠ 0 by decide),
    fun _ _ h => Bool.noConfusion h⟩
  tidy :=
    { fds := rfl
      conns := fun _ _ hk _ => by cases hk }

/-- In any run, with any processes. -/
theorem login_sound (S : System) (actions : List Action) (s : State)
    (hexec : Machine.exec (step S) {} actions = some s) : LoggedIn S s :=
  (Machine.exec_invariant (Sound S) (fun _ _ _ hs hstep => step_sound hs hstep) sound_init
    hexec).loggedIn

end Threads

/-- The process 1 runs `a` for the user `u`, and the others run `b` for `v`. -/
def userSystem : System where
  cred p := if p = 1 then ⟨9, 5⟩ else ⟨11, 6⟩
  proc pid :=
    if pid = 9 then ⟨[97, 0], [117, 58, 120, 58, 53, 58, 53, 58, 58, 58, 10]⟩
    else ⟨[98, 0], [118, 58, 120, 58, 54, 58, 54, 58, 58, 58, 10]⟩
  mem := Securec.Memory.reference
  lib := Securec.reference
  teecd := ⟨3, 0⟩
  libteec := ⟨3, 0⟩
  teeVersion := 12

def getFdCall : Call where
  caInfo := List.replicate 4108 0 ++ Bytes.le 4 nonHidlSide
  cmd := getFd
  caInfo_length := by rw [List.length_append, List.length_replicate]; rfl

/-- A process asks for the version of the daemon, and then for a file. -/
def getFdActions (p : ProcId) (c : ConnId) (fd : Int) : List Action :=
  [.thread p 0 { call := some getFdCall }, .thread p 0 {}, .thread p 0 {},
    .thread p 0 { count := caRevMsgSize },
    .daemon { conn := c }, .daemon {}, .daemon { count := caRevMsgSize }, .daemon {}, .daemon {},
    .thread p 0 {}, .daemon {}, .thread p 0 {}, .daemon {}, .thread p 0 {}, .thread p 0 {},
    .thread p 0 {}, .thread p 0 { count := caRevMsgSize },
    .daemon { conn := c + 1 }, .daemon {}, .daemon { count := caRevMsgSize }, .daemon {}, .daemon {},
    .daemon { fuel := 12 }, .daemon {}, .daemon {}, .thread p 0 { fd }, .daemon {}, .daemon {},
    .daemon {}, .thread p 0 {}, .thread p 0 {}]

/-- Two processes of different users, one after the other. -/
def twoUsersActions : List Action := getFdActions 1 0 7 ++ getFdActions 2 2 4

def twoUsersRun : Option State := Machine.exec (step userSystem) {} twoUsersActions

theorem twoUsersRun_isSome : twoUsersRun.isSome = true := by decide +kernel

/-- The package and the user in the certificate of a file. -/
def LoginState.names : LoginState → Option (List UInt8 × List UInt8)
  | .fresh | .refused => none
  | .cert buf => some (Authentication.decodeCert buf)

/-- Each of them has a file that the driver knows by its own package and user. -/
theorem login_sound_twoUsers :
    LoggedIn userSystem (twoUsersRun.get twoUsersRun_isSome) ∧
      (twoUsersRun.get twoUsersRun_isSome).fds 1 7 = some 0 ∧
        (twoUsersRun.get twoUsersRun_isSome).fds 2 4 = some 1 ∧
          ((twoUsersRun.get twoUsersRun_isSome).login 0).names = some ([97], [117]) ∧
            ((twoUsersRun.get twoUsersRun_isSome).login 1).names = some ([98], [118]) :=
  ⟨login_sound userSystem twoUsersActions _ (Option.some_get twoUsersRun_isSome).symm,
    by decide +kernel⟩

end ITrustee.Teecd.Login
