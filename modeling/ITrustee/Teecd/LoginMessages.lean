import Mathlib.Tactic
import ITrustee.Teecd.LoginFiles

/-!
# What the daemon reads and answers

The daemon reads a message into a buffer that holds zeros, and answers what it has read. In between it
has one connection open and at most one file, and nothing of either is left afterwards.
-/

namespace ITrustee.Teecd.Login

/-! ### What is on the wire -/

section Wire

variable (S : System)

/-- What the daemon reads of what was sent, over the zeros that were there. -/
def Read (k : Conn) (msg : List UInt8) : Prop :=
  ∃ n, 1 ≤ n ∧ n ≤ k.sent.length ∧ msg = received (k.sent.take n) (List.replicate caRevMsgSize 0)

/-- The answer of the daemon to a message. -/
def Answers (msg : List UInt8) (r : Reply) : Prop :=
  if isVersionCmd (msgCmd msg) then r = versionReply S (msgCmd msg)
  else fromHidlSide msg = nonHidlSide ∧ ∃ fd, r = fileReply fd

def ReadAt (s : State) (c : ConnId) : Prop := ∃ k, s.conns c = some k ∧ Read k s.caInfo

def DaemonMsg (s : State) : DaemonPc → Prop
  | .accepting | .accepted _ | .receiving _ _ | .closingEarly _ =>
      s.caInfo = List.replicate caRevMsgSize 0
  | .processing c _ => ReadAt s c
  | .sendingVersion c => ReadAt s c ∧ isVersionCmd (msgCmd s.caInfo) = true
  | .opening c _ | .gettingLogin c _ _ => ReadAt s c ∧ isVersionCmd (msgCmd s.caInfo) = false
  | .login c _ _ | .sending c _ => ReadAt s c ∧ isVersionCmd (msgCmd s.caInfo) = false ∧
      fromHidlSide s.caInfo = nonHidlSide
  | _ => True

structure WireSound (s : State) : Prop where
  replies : ∀ c k r, s.conns c = some k → k.reply = some r → ∃ msg, Read k msg ∧ Answers S msg r
  daemon : DaemonMsg s s.daemon

/-- What a connection may become without the daemon. -/
structure Grows (k k' : Conn) : Prop where
  peer : k'.peer = k.peer
  owner : k'.owner = k.owner
  sent : k.sent <+: k'.sent
  reply : k'.reply = k.reply ∨ k'.reply = none
  daemonOpen : k'.daemonOpen = k.daemonOpen

variable {S} {s s' : State}

theorem Grows.refl (k : Conn) : Grows k k := ⟨rfl, rfl, List.prefix_rfl, Or.inl rfl, rfl⟩

theorem Grows.trans {k k' k'' : Conn} (h : Grows k k') (h' : Grows k' k'') : Grows k k'' where
  peer := h'.peer.trans h.peer
  owner := h'.owner.trans h.owner
  sent := h.sent.trans h'.sent
  reply := by
    rcases h'.reply with hr | hr
    · rw [hr]
      exact h.reply
    · exact Or.inr hr
  daemonOpen := h'.daemonOpen.trans h.daemonOpen

theorem Read.grows {k k' : Conn} {msg : List UInt8} (h : Read k msg) (hsent : k.sent <+: k'.sent) :
    Read k' msg := by
  obtain ⟨n, hn, hle, rfl⟩ := h
  obtain ⟨rest, hrest⟩ := hsent
  refine ⟨n, hn, ?_, ?_⟩
  · rw [← hrest, List.length_append]
    omega
  · rw [← hrest, List.take_append_of_le_length hle]

/-- A step of somebody else than the daemon. -/
structure Others (s s' : State) : Prop where
  daemon : s'.daemon = s.daemon
  caInfo : s'.caInfo = s.caInfo
  daemonFds : s'.daemonFds = s.daemonFds
  conns : ∀ c k, s.conns c = some k → ∃ k', s'.conns c = some k' ∧ Grows k k'
  new : ∀ c k', s'.conns c = some k' →
    (∃ k, s.conns c = some k ∧ Grows k k') ∨ k'.reply = none ∧ k'.daemonOpen = false

theorem WireSound.others (hs : WireSound S s) (h : Others s s') : WireSound S s' where
  replies c k' r hk' hr := by
    rcases h.new c k' hk' with ⟨k, hk, hgrows⟩ | ⟨hnone, -⟩
    · rcases hgrows.reply with hsame | hnone
      · obtain ⟨msg, hread, hans⟩ := hs.replies c k r hk (hsame ▸ hr)
        exact ⟨msg, hread.grows hgrows.sent, hans⟩
      · rw [hnone] at hr
        cases hr
    · rw [hnone] at hr
      cases hr
  daemon := by
    have hd := hs.daemon
    have hread {c : ConnId} (hr : ReadAt s c) : ReadAt s' c := by
      obtain ⟨k, hk, hr⟩ := hr
      obtain ⟨k', hk', hgrows⟩ := h.conns c k hk
      exact ⟨k', hk', h.caInfo ▸ hr.grows hgrows.sent⟩
    rw [h.daemon]
    cases hpc : s.daemon with
    | accepting | accepted c | receiving c cr | closingEarly c =>
        rw [hpc] at hd
        exact h.caInfo.trans hd
    | processing c cr =>
        rw [hpc] at hd
        exact hread hd
    | sendingVersion c | opening c cr | gettingLogin c cr fd =>
        rw [hpc] at hd
        exact ⟨hread hd.1, h.caInfo ▸ hd.2⟩
    | login c fd buf | sending c fd =>
        rw [hpc] at hd
        exact ⟨hread hd.1, h.caInfo ▸ hd.2⟩
    | _ => trivial

theorem others_of_eq (hdaemon : s'.daemon = s.daemon) (hcaInfo : s'.caInfo = s.caInfo)
    (hfds : s'.daemonFds = s.daemonFds) (hconns : s'.conns = s.conns) : Others s s' where
  daemon := hdaemon
  caInfo := hcaInfo
  daemonFds := hfds
  conns c k hk := ⟨k, by rw [hconns]; exact hk, Grows.refl k⟩
  new c k hk := Or.inl ⟨k, by rw [← hconns]; exact hk, Grows.refl k⟩

theorem others_setConn {c : ConnId} {f : Conn → Conn} (hgrows : ∀ k, s.conns c = some k → Grows k (f k)) :
    Others s (s.setConn c f) where
  daemon := rfl
  caInfo := rfl
  daemonFds := rfl
  conns c' k hk := by
    rw [conns_setConn]
    by_cases hc : c' = c
    · rw [if_pos hc, ← hc, hk]
      exact ⟨f k, rfl, hgrows k (hc ▸ hk)⟩
    · rw [if_neg hc]
      exact ⟨k, hk, Grows.refl k⟩
  new c' k' hk' := by
    rw [conns_setConn] at hk'
    split_ifs at hk' with hc
    · obtain ⟨k, hk, rfl⟩ := Option.map_eq_some_iff.mp hk'
      exact Or.inl ⟨k, hc ▸ hk, hgrows k hk⟩
    · exact Or.inl ⟨k', hk', Grows.refl k'⟩

theorem others_addConn {p : ProcId} {owner : Option ThreadId}
    (hfresh : ∀ c, s.nextConn ≤ c → s.conns c = none) : Others s (addConn s p owner) where
  daemon := rfl
  caInfo := rfl
  daemonFds := rfl
  conns c k hk := by
    have hne : c ≠ s.nextConn := by
      rintro rfl
      rw [hfresh s.nextConn le_rfl] at hk
      cases hk
    refine ⟨k, ?_, Grows.refl k⟩
    rw [addConn]
    dsimp only
    rw [Function.update_of_ne hne]
    exact hk
  new c k hk := by
    rw [addConn] at hk
    dsimp only at hk
    rw [Function.update_apply] at hk
    split_ifs at hk
    · cases hk
      exact Or.inr ⟨rfl, rfl⟩
    · exact Or.inl ⟨k, hk, Grows.refl k⟩

theorem Others.trans {s'' : State} (h : Others s s') (h' : Others s' s'') : Others s s'' where
  daemon := h'.daemon.trans h.daemon
  caInfo := h'.caInfo.trans h.caInfo
  daemonFds := h'.daemonFds.trans h.daemonFds
  conns c k hk := by
    obtain ⟨k', hk', hgrows⟩ := h.conns c k hk
    obtain ⟨k'', hk'', hgrows'⟩ := h'.conns c k' hk'
    exact ⟨k'', hk'', hgrows.trans hgrows'⟩
  new c k'' hk'' := by
    rcases h'.new c k'' hk'' with ⟨k', hk', hgrows'⟩ | hnew
    · rcases h.new c k' hk' with ⟨k, hk, hgrows⟩ | ⟨hreply, hopen⟩
      · exact Or.inl ⟨k, hk, hgrows.trans hgrows'⟩
      · refine Or.inr ⟨?_, hgrows'.daemonOpen.trans hopen⟩
        rcases hgrows'.reply with hr | hr
        · exact hr.trans hreply
        · exact hr
    · exact Or.inr hnew

/-- The daemon changes of a connection what is not on the wire, or its reply. -/
theorem replies_setConn {c : ConnId} {f : Conn → Conn} (hs : WireSound S s)
    (hsent : ∀ k, (f k).sent = k.sent)
    (hreply : ∀ k r, s.conns c = some k → (f k).reply = some r →
      k.reply = some r ∨ ∃ msg, Read k msg ∧ Answers S msg r) :
    ∀ c' k r, (s.setConn c f).conns c' = some k → k.reply = some r →
      ∃ msg, Read k msg ∧ Answers S msg r := by
  intro c' k' r hk' hr
  rw [conns_setConn] at hk'
  split_ifs at hk' with heq
  · obtain ⟨k, hk, rfl⟩ := Option.map_eq_some_iff.mp hk'
    have hread {msg : List UInt8} (h : Read k msg) : Read (f k) msg :=
      h.grows (by rw [hsent])
    rcases hreply k r hk hr with hold | ⟨msg, hread', hans⟩
    · obtain ⟨msg, hread', hans⟩ := hs.replies c k r hk hold
      exact ⟨msg, hread hread', hans⟩
    · exact ⟨msg, hread hread', hans⟩
  · exact hs.replies c' k' r hk' hr

theorem daemonTurn_wire {pc : DaemonPc} (hs : WireSound S s) (hpc : s.daemon = pc)
    (hturn : DaemonTurn S s pc s') : WireSound S s' := by
  have hd := hs.daemon
  rw [hpc] at hd
  have hsame {c : ConnId} {k' : Conn} (hread : ReadAt s c) (hk' : s.conns c = some k') :
      Read k' s.caInfo := by
    obtain ⟨k, hk, hread⟩ := hread
    rw [hk] at hk'
    cases hk'
    exact hread
  cases hturn with
  | quiet hquiet =>
      refine ⟨hs.replies, ?_⟩
      cases hquiet with
      | recvFails | versionFails | openFails | noLogin | noCert | nullFails | loginFails
      | sendFails => trivial
      | peerCredFails => exact hd
      | version c cr hcmd | file c cr hcmd => exact ⟨hd, hcmd⟩
      | cert c cr fd buf hside => exact ⟨hd.1, hd.2, hside⟩
  | acceptFails => exact hs
  | accept => exact ⟨replies_setConn hs (fun _ => rfl) fun _ _ _ h => Or.inl h, hd⟩
  | peerCred => exact ⟨hs.replies, hd⟩
  | @recv c cr k n hk hpos hle =>
      refine ⟨hs.replies, k, hk, n, hpos, hle, ?_⟩
      rw [show s.caInfo = List.replicate caRevMsgSize 0 from hd]
  | sendVersion =>
      obtain ⟨hread, hcmd⟩ := hd
      refine ⟨replies_setConn hs (fun _ => rfl) fun k r hk hr =>
        Or.inr ⟨s.caInfo, hsame hread hk, ?_⟩, trivial⟩
      cases hr
      rw [Answers, if_pos hcmd]
  | openFile => exact ⟨hs.replies, hd⟩
  | loginNull => exact ⟨hs.replies, trivial⟩
  | login => exact ⟨hs.replies, hd⟩
  | @send c fd =>
      obtain ⟨hread, hcmd, hside⟩ := hd
      refine ⟨replies_setConn hs (fun _ => rfl) fun k r hk hr =>
        Or.inr ⟨s.caInfo, hsame hread hk, ?_⟩, trivial⟩
      cases hr
      rw [Answers, hcmd, if_neg Bool.false_ne_true]
      exact ⟨hside, fd, rfl⟩
  | closeFd => exact ⟨hs.replies, trivial⟩
  | closeSocket => exact ⟨replies_setConn hs (fun _ => rfl) fun _ _ _ h => Or.inl h, trivial⟩
  | closeEarly => exact ⟨replies_setConn hs (fun _ => rfl) fun _ _ _ h => Or.inl h, hd⟩
  | clear => exact ⟨hs.replies, rfl⟩

/-! ### The command of a message -/

theorem fillMsgBuffer_cmd {malloc : Bool} {call : Call} {cmd : UInt32} {m : List UInt8}
    (h : fillMsgBuffer malloc call cmd = some m) : ∃ rest, m = Bytes.le 4 cmd.toNat ++ rest := by
  rw [fillMsgBuffer] at h
  by_cases hmalloc : malloc = false
  · rw [if_pos hmalloc] at h
    cases h
  rw [if_neg hmalloc] at h
  dsimp only at h
  cases hxml : if cmd = setSysXml then call.xml else none with
  | none =>
      rw [hxml] at h
      cases h
      exact ⟨_, List.append_assoc ..⟩
  | some xml =>
      obtain ⟨fileSize, fileBuf⟩ := xml
      rw [hxml] at h
      dsimp only at h
      split_ifs at h
      cases h
      exact ⟨_, by rw [List.append_assoc, List.append_assoc]⟩

/-- The first four bytes, if a number below 256 starts there and zeros fill up what is missing. -/
theorem load_received {b : UInt8} {rest : List UInt8} {i : Nat} (hi : 1 ≤ i) :
    Bytes.load 4 (received ((b :: 0 :: 0 :: 0 :: rest).take i) (List.replicate caRevMsgSize 0)) 0 =
      b.toNat := by
  have hvalue : Bytes.value [b, 0, 0, 0] = b.toNat := by simp [Bytes.value]
  have hzeros : ∃ zeros, List.replicate caRevMsgSize (0 : UInt8) = 0 :: 0 :: 0 :: 0 :: zeros :=
    ⟨List.replicate 20500 0, List.replicate_add 4 20500 0⟩
  obtain ⟨zeros, hzeros⟩ := hzeros
  rw [Bytes.load, List.drop_zero, received, hzeros, ← hvalue]
  congr 1
  obtain rfl | rfl | rfl | hfour : i = 1 ∨ i = 2 ∨ i = 3 ∨ 4 ≤ i := by omega
  · rfl
  · rfl
  · rfl
  · obtain ⟨j, rfl⟩ := Nat.exists_eq_add_of_le' hfour
    rfl

/-- However little of a message is sent and received, its command is what it was, if one byte tells it. -/
theorem msgCmd_read {k : Conn} {msg m : List UInt8} {malloc : Bool} {call : Call} {cmd : UInt32} {n : Nat}
    (hcmd : cmd.toNat < 256) (hfill : fillMsgBuffer malloc call cmd = some m) (hsent : k.sent = m.take n)
    (hread : Read k msg) : msgCmd msg = cmd := by
  obtain ⟨i, hi, hle, rfl⟩ := hread
  obtain ⟨rest, rfl⟩ := fillMsgBuffer_cmd hfill
  have hbytes : Bytes.le 4 cmd.toNat = [.ofNat cmd.toNat, 0, 0, 0] := by
    simp only [Bytes.le, Nat.div_eq_of_lt hcmd]
    rfl
  rw [hsent, List.length_take] at hle
  rw [msgCmd, hsent, List.take_take, Nat.min_eq_left (by omega), hbytes]
  rw [show [UInt8.ofNat cmd.toNat, 0, 0, 0] ++ rest = .ofNat cmd.toNat :: 0 :: 0 :: 0 :: rest from rfl,
    load_received hi, UInt8.toNat_ofNat', Nat.mod_eq_of_lt hcmd, UInt32.ofNat_toNat]

end Wire

/-! ### What the daemon keeps -/

/-- The file that the daemon has open. -/
def DaemonPc.fd : DaemonPc → Option DeviceFile
  | .gettingLogin _ _ fd | .loginNull _ fd | .login _ fd _ | .sending _ fd | .closingFd _ fd => some fd
  | _ => none

/-- The connection that the daemon has open. -/
def DaemonPc.conn : DaemonPc → Option ConnId
  | .accepting | .clearing => none
  | .accepted c | .receiving c _ | .processing c _ | .sendingVersion c | .opening c _
  | .gettingLogin c _ _ | .loginNull c _ | .login c _ _ | .sending c _ | .closingFd c _
  | .closingSocket c | .closingEarly c => some c

structure Tidy (s : State) : Prop where
  fds : s.daemonFds = s.daemon.fd.toList
  conns : ∀ c k, s.conns c = some k → k.daemonOpen = true → s.daemon.conn = some c

section Tidy

variable {S : System} {s s' : State}

theorem Tidy.others (hs : Tidy s) (h : Others s s') : Tidy s' where
  fds := by
    rw [h.daemonFds, h.daemon]
    exact hs.fds
  conns c k' hk' hopen := by
    rw [h.daemon]
    rcases h.new c k' hk' with ⟨k, hk, hgrows⟩ | ⟨-, hclosed⟩
    · exact hs.conns c k hk (hgrows.daemonOpen ▸ hopen)
    · rw [hclosed] at hopen
      cases hopen

/-- A step of the daemon with one connection, which it has open afterwards if it is open. -/
theorem tidy_setConn {c : ConnId} {f : Conn → Conn} {pc : DaemonPc} (hs : Tidy s)
    (hconn : s.daemon.conn = some c ∨ s.daemon.conn = none) (hfd : s.daemon.fd = pc.fd)
    (hpc : ∀ k, s.conns c = some k → (f k).daemonOpen = true → pc.conn = some c) :
    Tidy { s.setConn c f with daemon := pc } where
  fds := by
    dsimp only
    rw [← hfd]
    exact hs.fds
  conns c' k' hk' hopen := by
    dsimp only at hk' ⊢
    rw [conns_setConn] at hk'
    split_ifs at hk' with heq
    · obtain ⟨k, hk, rfl⟩ := Option.map_eq_some_iff.mp hk'
      rw [heq]
      exact hpc k hk hopen
    · have hopen' := hs.conns c' k' hk' hopen
      rcases hconn with hconn | hconn <;> rw [hconn] at hopen'
      · exact absurd (Option.some.inj hopen').symm heq
      · cases hopen'

/-- A step of the daemon within one connection. -/
theorem Tidy.within {pc : DaemonPc} (hs : Tidy s) (hconns : s'.conns = s.conns) (hdaemon : s'.daemon = pc)
    (hconn : s.daemon.conn = pc.conn) (hfds : s'.daemonFds = pc.fd.toList) : Tidy s' where
  fds := by
    rw [hdaemon]
    exact hfds
  conns c k hk hopen := by
    rw [hdaemon, ← hconn]
    exact hs.conns c k (hconns ▸ hk) hopen

/-- Only `open` and `close` change which file the daemon has open, and `accept` and `close` which
connection. -/
theorem Quiet.keeps {pc pc' : DaemonPc} (h : Quiet S s pc pc') :
    pc'.conn = pc.conn ∧ pc'.fd = pc.fd := by
  cases h <;> exact ⟨rfl, rfl⟩

theorem daemonTurn_tidy {pc : DaemonPc} (hs : Tidy s) (hpc : s.daemon = pc)
    (hturn : DaemonTurn S s pc s') : Tidy s' := by
  have hfds := hs.fds
  have hconn : s.daemon.conn = pc.conn := by rw [hpc]
  have hfd : s.daemon.fd = pc.fd := by rw [hpc]
  rw [hpc] at hfds
  cases hturn with
  | quiet hquiet =>
      obtain ⟨hsameConn, hsameFd⟩ := hquiet.keeps
      exact hs.within rfl rfl (hconn.trans hsameConn.symm) (by rw [hsameFd]; exact hfds)
  | acceptFails => exact hs
  | accept => exact tidy_setConn hs (Or.inr hconn) hfd fun _ _ _ => rfl
  | peerCred => exact hs.within rfl rfl hconn hfds
  | recv => exact hs.within rfl rfl hconn hfds
  | sendVersion => exact tidy_setConn hs (Or.inl hconn) hfd fun _ _ _ => rfl
  | openFile =>
      refine hs.within rfl rfl hconn ?_
      dsimp only
      rw [hfds]
      rfl
  | loginNull => exact hs.within rfl rfl hconn hfds
  | login => exact hs.within rfl rfl hconn hfds
  | send => exact tidy_setConn hs (Or.inl hconn) hfd fun _ _ _ => rfl
  | @closeFd c fd =>
      refine hs.within rfl rfl hconn ?_
      dsimp only
      rw [hfds]
      exact List.erase_cons_head fd []
  | closeSocket => exact tidy_setConn hs (Or.inl hconn) hfd fun _ _ h => by cases h
  | closeEarly => exact tidy_setConn hs (Or.inl hconn) hfd fun _ _ h => by cases h
  | clear => exact hs.within rfl rfl hconn hfds

end Tidy

end ITrustee.Teecd.Login
