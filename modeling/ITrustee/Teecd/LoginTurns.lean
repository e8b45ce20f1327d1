import Mathlib.Tactic
import ITrustee.Teecd.LoginProtocol

/-!
# What the daemon does in one step

Every step of the daemon, by what it changes. A call that fails changes nothing but the place in the
code, and so do the two decisions that are not calls.
-/

namespace ITrustee.Teecd.Login

open Authentication

variable (S : System)

/-- What `TeeGetNativeCert` writes for a process and its user: the certificate of its command line and of
the name that its own passwd file gives the user. -/
def CertOf (cr : Ucred) (buf : List UInt8) : Prop :=
  ∃ fuel len,
    teeGetNativeCert S.mem S.lib (some ⟨(S.proc cr.pid).cmdline, false⟩) (some (S.proc cr.pid).passwd)
      cr.uid fuel (some (.ofNat bufMaxSize, List.replicate bufMaxSize 0)) = some (0, some (len, buf))

/-- From one place to the next, and nothing else. -/
inductive Quiet (s : State) : DaemonPc → DaemonPc → Prop
  | peerCredFails (c : ConnId) : Quiet s (.accepted c) (.closingEarly c)
  | recvFails (c : ConnId) (cr : Ucred) : Quiet s (.receiving c cr) (.closingSocket c)
  | version (c : ConnId) (cr : Ucred) :
      isVersionCmd (msgCmd s.caInfo) = true → Quiet s (.processing c cr) (.sendingVersion c)
  | file (c : ConnId) (cr : Ucred) :
      isVersionCmd (msgCmd s.caInfo) = false → Quiet s (.processing c cr) (.opening c cr)
  | versionFails (c : ConnId) : Quiet s (.sendingVersion c) (.closingSocket c)
  | openFails (c : ConnId) (cr : Ucred) : Quiet s (.opening c cr) (.closingSocket c)
  | noLogin (c : ConnId) (cr : Ucred) (fd : DeviceFile) :
      Quiet s (.gettingLogin c cr fd) (.closingFd c fd)
  | noCert (c : ConnId) (cr : Ucred) (fd : DeviceFile) :
      Quiet s (.gettingLogin c cr fd) (.loginNull c fd)
  | cert (c : ConnId) (cr : Ucred) (fd : DeviceFile) (buf : List UInt8) :
      fromHidlSide s.caInfo = nonHidlSide → CertOf S cr buf →
        Quiet s (.gettingLogin c cr fd) (.login c fd buf)
  | nullFails (c : ConnId) (fd : DeviceFile) : Quiet s (.loginNull c fd) (.closingFd c fd)
  | loginFails (c : ConnId) (fd : DeviceFile) (buf : List UInt8) :
      Quiet s (.login c fd buf) (.closingFd c fd)
  | sendFails (c : ConnId) (fd : DeviceFile) : Quiet s (.sending c fd) (.closingFd c fd)

inductive DaemonTurn (s : State) : DaemonPc → State → Prop
  | quiet {pc pc' : DaemonPc} : Quiet S s pc pc' → DaemonTurn s pc { s with daemon := pc' }
  | acceptFails : DaemonTurn s .accepting s
  | accept {c : ConnId} {k : Conn} : s.conns c = some k → DaemonTurn s .accepting
      { s.setConn c (fun k => { k with accepted := true, daemonOpen := true }) with
        daemon := .accepted c }
  | peerCred {c : ConnId} {k : Conn} : s.conns c = some k →
      DaemonTurn s (.accepted c) { s with daemon := .receiving c (S.cred k.peer) }
  | recv {c : ConnId} {cr : Ucred} {k : Conn} {n : Nat} :
      s.conns c = some k → 1 ≤ n → n ≤ k.sent.length → DaemonTurn s (.receiving c cr)
        { s with caInfo := received (k.sent.take n) s.caInfo, daemon := .processing c cr }
  | sendVersion {c : ConnId} : DaemonTurn s (.sendingVersion c)
      { setReply s c (versionReply S (msgCmd s.caInfo)) with daemon := .closingSocket c }
  | openFile {c : ConnId} {cr : Ucred} : DaemonTurn s (.opening c cr)
      { setLogin s s.nextFile .fresh with
        nextFile := s.nextFile + 1
        daemonFds := s.nextFile :: s.daemonFds
        daemon := .gettingLogin c cr s.nextFile }
  | loginNull {c : ConnId} {fd : DeviceFile} : DaemonTurn s (.loginNull c fd)
      { setLogin s fd .refused with daemon := .closingFd c fd }
  | login {c : ConnId} {fd : DeviceFile} {buf : List UInt8} : DaemonTurn s (.login c fd buf)
      { setLogin s fd (.cert buf) with daemon := .sending c fd }
  | send {c : ConnId} {fd : DeviceFile} : DaemonTurn s (.sending c fd)
      { setReply s c (fileReply fd) with daemon := .closingFd c fd }
  | closeFd {c : ConnId} {fd : DeviceFile} : DaemonTurn s (.closingFd c fd)
      { s with daemonFds := s.daemonFds.erase fd, daemon := .closingSocket c }
  | closeSocket {c : ConnId} : DaemonTurn s (.closingSocket c)
      { s.setConn c (fun k => { k with daemonOpen := false }) with daemon := .clearing }
  | closeEarly {c : ConnId} : DaemonTurn s (.closingEarly c)
      { s.setConn c (fun k => { k with daemonOpen := false }) with daemon := .accepting }
  | clear : DaemonTurn s .clearing
      { s with caInfo := List.replicate caRevMsgSize 0, daemon := .accepting }

variable {S} {s s' : State}

theorem getLoginInfo_cert {cr : Ucred} {caInfo buf : List UInt8} {o : DaemonCalls}
    (h : getLoginInfo S cr caInfo o = some (.cert buf)) :
    fromHidlSide caInfo = nonHidlSide ∧ CertOf S cr buf := by
  rw [getLoginInfo] at h
  by_cases hok : o.ok = false
  · rw [if_pos hok] at h
    cases h
  by_cases hside : fromHidlSide caInfo = nonHidlSide
  swap
  · rw [if_neg hok, if_pos hside] at h
    cases h
  rw [if_neg hok, if_neg (not_not.mpr hside)] at h
  dsimp only at h
  obtain ⟨⟨ret, out⟩, hrun, h⟩ := Option.map_eq_some_iff.mp h
  cases out with
  | none => cases h
  | some out =>
      obtain ⟨len, buf'⟩ := out
      dsimp only at h
      split_ifs at h with hret
      obtain rfl := LoginInfo.cert.inj h
      rw [not_not] at hret
      subst hret
      obtain ⟨⟨content, hcontent⟩, ⟨file, hfile⟩⟩ := teeGetNativeCert_reads hrun
      split_ifs at hcontent hfile with hcmdline hpasswd
      obtain ⟨-, hferror⟩ := CmdLine.mk.inj (Option.some.inj hcontent)
      rw [if_pos hcmdline, if_pos hpasswd, hferror] at hrun
      exact ⟨hside, o.fuel, len, hrun⟩

theorem daemonStep_turn {o : DaemonCalls} (hstep : daemonStep S s o = some s') :
    DaemonTurn S s s.daemon s' := by
  rw [daemonStep] at hstep
  cases hpc : s.daemon <;> rw [hpc] at hstep <;> dsimp only at hstep
  case accepting =>
      split_ifs at hstep
      · cases hk : s.conns o.conn with
        | none =>
            rw [hk] at hstep
            cases hstep
        | some k =>
            rw [hk] at hstep
            dsimp only at hstep
            split_ifs at hstep
            cases hstep
            exact .accept hk
      · cases hstep
        exact .acceptFails
  case accepted c =>
      split_ifs at hstep
      · obtain ⟨k, hk, rfl⟩ := Option.map_eq_some_iff.mp hstep
        exact .peerCred hk
      · cases hstep
        exact .quiet (.peerCredFails c)
  case receiving c cr =>
      split_ifs at hstep
      · cases hk : s.conns c with
        | none =>
            rw [hk] at hstep
            cases hstep
        | some k =>
            rw [hk] at hstep
            dsimp only at hstep
            split_ifs at hstep with hcount
            cases hstep
            exact .recv hk hcount.1 hcount.2.1
      · cases hstep
        exact .quiet (.recvFails c cr)
  case processing c cr =>
      cases hstep
      by_cases hcmd : isVersionCmd (msgCmd s.caInfo) = true
      · rw [if_pos hcmd]
        exact .quiet (.version c cr hcmd)
      · rw [if_neg hcmd]
        exact .quiet (.file c cr (Bool.eq_false_of_not_eq_true hcmd))
  case sendingVersion c =>
      split_ifs at hstep <;> cases hstep
      · exact .sendVersion
      · exact .quiet (.versionFails c)
  case opening c cr =>
      split_ifs at hstep <;> cases hstep
      · exact .openFile
      · exact .quiet (.openFails c cr)
  case gettingLogin c cr fd =>
      obtain ⟨info, hinfo, hstep⟩ := Option.map_eq_some_iff.mp hstep
      cases info <;> cases hstep
      case failed => exact .quiet (.noLogin c cr fd)
      case noCert => exact .quiet (.noCert c cr fd)
      case cert buf =>
          obtain ⟨hside, hcert⟩ := getLoginInfo_cert hinfo
          exact .quiet (.cert c cr fd buf hside hcert)
  case loginNull c fd =>
      cases hstep
      by_cases hok : o.ok = true
      · rw [if_pos hok]
        exact .loginNull
      · rw [if_neg hok]
        exact .quiet (.nullFails c fd)
  case login c fd buf =>
      split_ifs at hstep <;> cases hstep
      · exact .login
      · exact .quiet (.loginFails c fd buf)
  case sending c fd =>
      split_ifs at hstep <;> cases hstep
      · exact .send
      · exact .quiet (.sendFails c fd)
  case closingFd c fd =>
      cases hstep
      exact .closeFd
  case closingSocket c =>
      cases hstep
      exact .closeSocket
  case clearing =>
      cases hstep
      exact .clear
  case closingEarly c =>
      cases hstep
      exact .closeEarly

end ITrustee.Teecd.Login
