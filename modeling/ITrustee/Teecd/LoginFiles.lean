import Mathlib.Tactic
import ITrustee.Teecd.LoginTurns

/-!
# Where the files of the device are

A file of the device is in one place at a time: with the daemon, which has just opened it, in a reply that
is on its way, or behind a descriptor of a process. The daemon logs it in before it lets it go, with the
certificate of the process at the other end, and nobody takes it from there to another process.
-/

namespace ITrustee.Teecd.Login

/-! ### Places of files -/

inductive Place where
  | descriptor (p : ProcId) (fd : Int)
  | message (c : ConnId)
  deriving DecidableEq

def State.at (s : State) : Place → Option DeviceFile
  | .descriptor p fd => s.fds p fd
  | .message c => ((s.conns c).bind Conn.reply).bind Reply.file

/-- The process that a place belongs to. -/
def State.owner (s : State) : Place → Option ProcId
  | .descriptor p _ => some p
  | .message c => (s.conns c).map Conn.peer

section Files

variable (S : System)

/-- The driver knows the file by the certificate of that process. -/
def Identified (s : State) (p : ProcId) (fd : DeviceFile) : Prop :=
  ∃ buf, s.login fd = .cert buf ∧ CertOf S (S.cred p) buf

/-- Nobody but the daemon has the file. -/
structure Private (s : State) (fd : DeviceFile) : Prop where
  lt_next : fd < s.nextFile
  nowhere : ∀ pl, s.at pl ≠ some fd

/-- The peer of the connection that is served has these credentials. -/
def Peer (s : State) (c : ConnId) (cr : Ucred) : Prop :=
  ∃ p, s.owner (.message c) = some p ∧ S.cred p = cr

def DaemonFile (s : State) : DaemonPc → Prop
  | .receiving c cr | .processing c cr | .opening c cr => Peer S s c cr
  | .gettingLogin c cr fd => Peer S s c cr ∧ Private s fd
  | .loginNull _ fd => Private s fd
  | .login c fd buf => Private s fd ∧ ∃ cr, Peer S s c cr ∧ CertOf S cr buf
  | .sending c fd => Private s fd ∧ ∃ p, s.owner (.message c) = some p ∧ Identified S s p fd
  | _ => True

structure FilesSound (s : State) : Prop where
  fresh : ∀ c, s.nextConn ≤ c → s.conns c = none
  identified : ∀ pl fd, s.at pl = some fd →
    fd < s.nextFile ∧ ∃ p, s.owner pl = some p ∧ Identified S s p fd
  unique : ∀ pl pl' fd, s.at pl = some fd → s.at pl' = some fd → pl = pl'
  daemon : DaemonFile S s s.daemon

/-- A step that moves no file, but may drop one that is on its way. -/
structure Frame (s s' : State) : Prop where
  fresh : (∀ c, s.nextConn ≤ c → s.conns c = none) → ∀ c, s'.nextConn ≤ c → s'.conns c = none
  at_le : ∀ pl fd, s'.at pl = some fd → s.at pl = some fd
  owner_le : ∀ pl p, s.owner pl = some p → s'.owner pl = some p
  login : s'.login = s.login
  nextFile : s'.nextFile = s.nextFile

variable {S} {s s' s'' : State}

theorem DaemonFile.mono {pc : DaemonPc} (hd : DaemonFile S s pc)
    (howner : ∀ pl p, s.owner pl = some p → s'.owner pl = some p)
    (hprivate : ∀ fd, Private s fd → Private s' fd)
    (hid : ∀ p fd, Identified S s' p fd ↔ Identified S s p fd) : DaemonFile S s' pc := by
  have hpeer {c : ConnId} {cr : Ucred} (hp : Peer S s c cr) : Peer S s' c cr := by
    obtain ⟨p, hp, hcr⟩ := hp
    exact ⟨p, howner _ p hp, hcr⟩
  cases pc with
  | receiving c cr | processing c cr | opening c cr => exact hpeer hd
  | gettingLogin c cr fd => exact ⟨hpeer hd.1, hprivate fd hd.2⟩
  | loginNull c fd => exact hprivate fd hd
  | login c fd buf =>
      obtain ⟨hp, cr, hcr, hcert⟩ := hd
      exact ⟨hprivate fd hp, cr, hpeer hcr, hcert⟩
  | sending c fd =>
      obtain ⟨hp, p, hpo, hident⟩ := hd
      exact ⟨hprivate fd hp, p, howner _ p hpo, (hid p fd).mpr hident⟩
  | _ => trivial

theorem Frame.refl (s : State) : Frame s s :=
  ⟨fun h => h, fun _ _ h => h, fun _ _ h => h, rfl, rfl⟩

theorem Frame.trans (h : Frame s s') (h' : Frame s' s'') : Frame s s'' where
  fresh hs := h'.fresh (h.fresh hs)
  at_le pl fd hat := h.at_le pl fd (h'.at_le pl fd hat)
  owner_le pl p howner := h'.owner_le pl p (h.owner_le pl p howner)
  login := h'.login.trans h.login
  nextFile := h'.nextFile.trans h.nextFile

theorem Frame.private {fd : DeviceFile} (h : Frame s s') (hp : Private s fd) : Private s' fd where
  lt_next := h.nextFile ▸ hp.lt_next
  nowhere pl hat := hp.nowhere pl (h.at_le pl fd hat)

theorem Frame.peer {c : ConnId} {cr : Ucred} (h : Frame s s') (hp : Peer S s c cr) : Peer S s' c cr := by
  obtain ⟨p, howner, hcr⟩ := hp
  exact ⟨p, h.owner_le _ p howner, hcr⟩

theorem Frame.identified_iff {p : ProcId} {fd : DeviceFile} (h : Frame s s') :
    Identified S s' p fd ↔ Identified S s p fd := by
  rw [Identified, Identified, h.login]

theorem Frame.daemonFile {pc : DaemonPc} (h : Frame s s') (hd : DaemonFile S s pc) :
    DaemonFile S s' pc :=
  hd.mono h.owner_le (fun _ hp => h.private hp) fun _ _ => h.identified_iff

/-- The files stay sound if the daemon knows of its file what it needs to. -/
theorem FilesSound.frame (hs : FilesSound S s) (h : Frame s s') (hd : DaemonFile S s' s'.daemon) :
    FilesSound S s' where
  fresh := h.fresh hs.fresh
  identified pl fd hat := by
    obtain ⟨hlt, p, howner, hid⟩ := hs.identified pl fd (h.at_le pl fd hat)
    exact ⟨h.nextFile ▸ hlt, p, h.owner_le pl p howner, h.identified_iff.mpr hid⟩
  unique pl pl' fd hat hat' := hs.unique pl pl' fd (h.at_le pl fd hat) (h.at_le pl' fd hat')
  daemon := hd

/-! ### Steps that move no file -/

theorem conns_setConn (s : State) (c c' : ConnId) (f : Conn → Conn) :
    (s.setConn c f).conns c' = if c' = c then (s.conns c).map f else s.conns c' := by
  rw [State.setConn]
  dsimp only
  rw [Function.update_apply]

theorem frame_setConn {c : ConnId} {f : Conn → Conn} (hpeer : ∀ k, (f k).peer = k.peer)
    (hreply : ∀ k, (f k).reply.bind Reply.file = k.reply.bind Reply.file ∨
      (f k).reply.bind Reply.file = none) : Frame s (s.setConn c f) where
  fresh hs c' hc' := by
    rw [conns_setConn]
    split_ifs with heq
    · rw [hs c (heq ▸ hc'), Option.map_none]
    · exact hs c' hc'
  at_le pl fd hat := by
    cases pl with
    | descriptor p d => exact hat
    | message c' =>
        rw [State.at, conns_setConn] at hat
        rw [State.at]
        split_ifs at hat with heq
        · rw [heq]
          cases hk : s.conns c with
          | none =>
              rw [hk] at hat
              exact hat
          | some k =>
              rw [hk, Option.map_some, Option.bind_some] at hat
              rw [Option.bind_some]
              rcases hreply k with hr | hr
              · exact hr ▸ hat
              · rw [hr] at hat
                cases hat
        · exact hat
  owner_le pl p howner := by
    cases pl with
    | descriptor q d => exact howner
    | message c' =>
        rw [State.owner] at howner
        rw [State.owner, conns_setConn]
        split_ifs with heq
        · rw [heq] at howner
          rw [Option.map_map, ← howner]
          exact congrArg (fun g => Option.map g (s.conns c)) (funext hpeer)
        · exact howner
  login := rfl
  nextFile := rfl

theorem frame_addConn {p : ProcId} {owner : Option ThreadId}
    (hfresh : ∀ c, s.nextConn ≤ c → s.conns c = none) : Frame s (addConn s p owner) where
  fresh hs c hc := by
    have hlt : s.nextConn < c := hc
    rw [addConn]
    dsimp only
    rw [Function.update_of_ne (Nat.ne_of_gt hlt)]
    exact hs c (Nat.le_of_lt hlt)
  at_le pl fd hat := by
    cases pl with
    | descriptor q d => exact hat
    | message c =>
        rw [State.at, addConn] at hat
        dsimp only at hat
        rw [Function.update_apply] at hat
        split_ifs at hat with heq
        · cases hat
        · exact hat
  owner_le pl q howner := by
    cases pl with
    | descriptor q d => exact howner
    | message c =>
        rw [State.owner] at howner
        have hne : c ≠ s.nextConn := by
          rintro rfl
          rw [hfresh s.nextConn le_rfl] at howner
          cases howner
        rw [State.owner, addConn]
        dsimp only
        rw [Function.update_of_ne hne]
        exact howner
  login := rfl
  nextFile := rfl

theorem frame_of_eq (hconns : s'.conns = s.conns) (hnext : s'.nextConn = s.nextConn)
    (hfds : s'.fds = s.fds) (hlogin : s'.login = s.login) (hfile : s'.nextFile = s.nextFile) :
    Frame s s' where
  fresh hs c hc := by
    rw [hconns]
    exact hs c (hnext ▸ hc)
  at_le pl fd hat := by
    cases pl with
    | descriptor p d =>
        rw [State.at, hfds] at hat
        exact hat
    | message c =>
        rw [State.at, hconns] at hat
        exact hat
  owner_le pl p howner := by
    cases pl with
    | descriptor q d => exact howner
    | message c =>
        rw [State.owner, hconns]
        exact howner
  login := hlogin
  nextFile := hfile

/-! ### Steps that move files -/

/-- What the driver is told of a file that is nowhere yet. -/
theorem FilesSound.relogin (hs : FilesSound S s) {fd : DeviceFile} {l : LoginState}
    (hnowhere : ∀ pl, s.at pl ≠ some fd) (hat : s'.at = s.at) (howner : s'.owner = s.owner)
    (hlogin : s'.login = Function.update s.login fd l) (hnext : s.nextFile ≤ s'.nextFile)
    (hfresh : ∀ c, s'.nextConn ≤ c → s'.conns c = none) (hd : DaemonFile S s' s'.daemon) :
    FilesSound S s' where
  fresh := hfresh
  identified pl fd' h := by
    rw [hat] at h
    obtain ⟨hlt, p, hp, buf, hbuf, hcert⟩ := hs.identified pl fd' h
    have hne : fd' ≠ fd := by
      rintro rfl
      exact hnowhere pl h
    refine ⟨Nat.lt_of_lt_of_le hlt hnext, p, by rw [howner]; exact hp, buf, ?_, hcert⟩
    rw [hlogin, Function.update_of_ne hne]
    exact hbuf
  unique pl pl' fd' h h' := by
    rw [hat] at h h'
    exact hs.unique pl pl' fd' h h'
  daemon := hd

/-- The daemon passes its file on. -/
theorem FilesSound.send (hs : FilesSound S s) {c : ConnId} {fd : DeviceFile} {pc : DaemonPc}
    (hpc : s.daemon = .sending c fd) (hd : DaemonFile S { setReply s c (fileReply fd) with daemon := pc } pc) :
    FilesSound S { setReply s c (fileReply fd) with daemon := pc } := by
  have hfile := hs.daemon
  rw [hpc] at hfile
  obtain ⟨hprivate, p, howner, hid⟩ := hfile
  obtain ⟨k, hk, rfl⟩ := Option.map_eq_some_iff.mp howner
  have hconns (c' : ConnId) : (setReply s c (fileReply fd)).conns c' =
      if c' = c then some { k with reply := some (fileReply fd) } else s.conns c' := by
    rw [setReply, conns_setConn, hk, Option.map_some]
  have hat (pl : Place) : State.at { setReply s c (fileReply fd) with daemon := pc } pl =
      if pl = .message c then some fd else s.at pl := by
    cases pl with
    | descriptor q d => rw [if_neg Place.noConfusion]; rfl
    | message c' =>
        rw [State.at]
        dsimp only
        rw [hconns]
        by_cases heq : c' = c
        · rw [if_pos heq, if_pos (by rw [heq])]
          rfl
        · rw [if_neg heq, if_neg fun h => heq (Place.message.inj h)]
          rfl
  have hownerEq (pl : Place) :
      State.owner { setReply s c (fileReply fd) with daemon := pc } pl = s.owner pl := by
    cases pl with
    | descriptor q d => rfl
    | message c' =>
        rw [State.owner, State.owner]
        dsimp only
        rw [hconns]
        split_ifs with heq
        · rw [heq, hk]
          rfl
        · rfl
  refine ⟨fun c' hc' => ?_, fun pl fd' h => ?_, fun pl pl' fd' h h' => ?_, hd⟩
  · dsimp only
    rw [hconns, if_neg]
    · exact hs.fresh c' hc'
    · rintro rfl
      rw [hs.fresh c' hc'] at hk
      cases hk
  · rw [hat] at h
    rw [hownerEq]
    split_ifs at h with hpl
    · obtain rfl := Option.some.inj h
      exact ⟨hprivate.lt_next, k.peer, by rw [hpl, State.owner, hk]; rfl, hid⟩
    · exact hs.identified pl fd' h
  · rw [hat] at h h'
    split_ifs at h h' with hpl hpl' hpl'
    · rw [hpl, hpl']
    · exact absurd (h.trans h'.symm ▸ h' : s.at pl' = some fd') fun hold =>
        hprivate.nowhere pl' (hold.trans h.symm)
    · exact absurd (h.trans h'.symm) (hprivate.nowhere pl)
    · exact hs.unique pl pl' fd' h h'

/-- The file goes from its place to another one of the same process. -/
theorem FilesSound.move (hs : FilesSound S s) {src dst : Place} {fd : DeviceFile} {p : ProcId}
    (hsrc : s.at src = some fd) (howner : s.owner src = some p) (hdst : s'.owner dst = some p)
    (hat : ∀ pl, s'.at pl = if pl = dst then some fd else if pl = src then none else s.at pl)
    (hframe : ∀ pl q, s.owner pl = some q → s'.owner pl = some q)
    (hlogin : s'.login = s.login) (hnext : s'.nextFile = s.nextFile)
    (hfresh : ∀ c, s'.nextConn ≤ c → s'.conns c = none) (hdaemon : s'.daemon = s.daemon) :
    FilesSound S s' := by
  have hback (pl : Place) (fd' : DeviceFile) (h : s'.at pl = some fd') :
      pl = dst ∧ fd' = fd ∨ pl ≠ src ∧ s.at pl = some fd' := by
    rw [hat] at h
    split_ifs at h with hd hsrc'
    · exact Or.inl ⟨hd, (Option.some.inj h).symm⟩
    · exact Or.inr ⟨hsrc', h⟩
  have hprivate (fd' : DeviceFile) (hp : Private s fd') : Private s' fd' := by
    refine ⟨hnext ▸ hp.lt_next, fun pl h => ?_⟩
    rcases hback pl fd' h with ⟨-, rfl⟩ | ⟨-, h⟩
    · exact hp.nowhere src hsrc
    · exact hp.nowhere pl h
  have hid (q : ProcId) (fd' : DeviceFile) : Identified S s' q fd' ↔ Identified S s q fd' := by
    rw [Identified, Identified, hlogin]
  refine ⟨hfresh, fun pl fd' h => ?_, fun pl pl' fd' h h' => ?_, ?_⟩
  · rcases hback pl fd' h with ⟨rfl, rfl⟩ | ⟨-, h⟩
    · obtain ⟨hlt, q, hq, hident⟩ := hs.identified src fd' hsrc
      rw [howner] at hq
      obtain rfl := Option.some.inj hq
      exact ⟨hnext ▸ hlt, p, hdst, (hid p fd').mpr hident⟩
    · obtain ⟨hlt, q, hq, hident⟩ := hs.identified pl fd' h
      exact ⟨hnext ▸ hlt, q, hframe pl q hq, (hid q fd').mpr hident⟩
  · rcases hback pl fd' h with ⟨rfl, rfl⟩ | ⟨hne, hold⟩ <;>
      rcases hback pl' _ h' with ⟨rfl, hfd⟩ | ⟨hne', hold'⟩
    · rfl
    · exact absurd (hs.unique _ _ _ hold' hsrc) hne'
    · exact absurd (hs.unique _ _ _ hold (hfd ▸ hsrc)) hne
    · exact hs.unique _ _ _ hold hold'
  · rw [hdaemon]
    exact hs.daemon.mono hframe hprivate hid

/-! ### Files, step by step -/

theorem daemonTurn_files {pc : DaemonPc} (hs : FilesSound S s) (hpc : s.daemon = pc)
    (hturn : DaemonTurn S s pc s') : FilesSound S s' := by
  have hd := hs.daemon
  rw [hpc] at hd
  have hframe (pc : DaemonPc) : Frame s { s with daemon := pc } := frame_of_eq rfl rfl rfl rfl rfl
  cases hturn with
  | quiet hquiet =>
      refine hs.frame (hframe _) ?_
      cases hquiet with
      | peerCredFails | recvFails | version | versionFails | openFails | noLogin | nullFails
      | loginFails | sendFails => trivial
      | file c cr => exact (hframe _).peer hd
      | noCert c cr fd => exact (hframe _).private hd.2
      | cert c cr fd buf hside hcert => exact ⟨(hframe _).private hd.2, cr, (hframe _).peer hd.1, hcert⟩
  | acceptFails => exact hs
  | @accept c k hk =>
      have hconn := @frame_setConn s c (fun k => { k with accepted := true, daemonOpen := true })
        (fun _ => rfl) fun _ => Or.inl rfl
      exact hs.frame (hconn.trans (frame_of_eq rfl rfl rfl rfl rfl)) trivial
  | @peerCred c k hk =>
      refine hs.frame (hframe _) ⟨k.peer, ?_, rfl⟩
      rw [State.owner]
      dsimp only
      rw [hk]
      rfl
  | @recv c cr k n hk =>
      have hrecv : Frame s
          { s with caInfo := received (k.sent.take n) s.caInfo, daemon := .processing c cr } :=
        frame_of_eq rfl rfl rfl rfl rfl
      exact hs.frame hrecv (hrecv.peer hd)
  | @sendVersion c =>
      have hsend : Frame s (setReply s c (versionReply S (msgCmd s.caInfo))) :=
        frame_setConn (fun _ => rfl) fun _ => Or.inr rfl
      exact hs.frame (hsend.trans (frame_of_eq rfl rfl rfl rfl rfl)) trivial
  | openFile =>
      have hnowhere (pl : Place) : s.at pl ≠ some s.nextFile :=
        fun h => absurd (hs.identified pl s.nextFile h).1 (Nat.lt_irrefl _)
      exact hs.relogin hnowhere rfl rfl rfl (Nat.le_succ _) hs.fresh
        ⟨hd, ⟨Nat.lt_succ_self _, hnowhere⟩⟩
  | loginNull => exact hs.relogin hd.nowhere rfl rfl rfl le_rfl hs.fresh trivial
  | @login c fd buf =>
      obtain ⟨hprivate, cr, ⟨p, hp, rfl⟩, hcert⟩ := hd
      exact hs.relogin hprivate.nowhere rfl rfl rfl le_rfl hs.fresh
        ⟨⟨hprivate.lt_next, hprivate.nowhere⟩, p, hp, buf, Function.update_self .., hcert⟩
  | send => exact hs.send hpc trivial
  | closeFd => exact hs.frame (frame_of_eq rfl rfl rfl rfl rfl) trivial
  | @closeSocket c | @closeEarly c =>
      have hconn := @frame_setConn s c (fun k => { k with daemonOpen := false }) (fun _ => rfl)
        fun _ => Or.inl rfl
      exact hs.frame (hconn.trans (frame_of_eq rfl rfl rfl rfl rfl)) trivial
  | clear => exact hs.frame (frame_of_eq rfl rfl rfl rfl rfl) trivial

/-- A process takes a file off a connection of its own. -/
theorem installFd_files {c : ConnId} {k : Conn} {r : Reply} {fd : Int} {file : DeviceFile}
    (hs : FilesSound S s) (hk : s.conns c = some k) (hr : k.reply = some r)
    (hfile : r.file = some file)
    (h : installFd (s.setConn c fun k => { k with reply := none }) k.peer fd file = some s') :
    FilesSound S s' := by
  rw [installFd] at h
  split_ifs at h with hfree
  cases h
  have hframe := @frame_setConn s c (fun k => { k with reply := none }) (fun _ => rfl)
    fun _ => Or.inr rfl
  have hsrc : s.at (.message c) = some file := by
    rw [State.at, hk, Option.bind_some, hr]
    exact hfile
  have howner : s.owner (.message c) = some k.peer := by
    rw [State.owner, hk]
    rfl
  refine @FilesSound.move S s _ hs _ (.descriptor k.peer fd) _ _ hsrc howner rfl (fun pl => ?_)
    (fun pl q hq => hframe.owner_le pl q hq) rfl rfl (hframe.fresh hs.fresh) rfl
  cases pl with
  | descriptor q d =>
      rw [State.at]
      dsimp only
      rw [Function.update_apply]
      by_cases hq : q = k.peer
      · rw [if_pos hq, Function.update_apply]
        by_cases hd : d = fd
        · rw [if_pos hd, if_pos (by rw [hq, hd])]
        · rw [if_neg hd, if_neg fun heq => hd (Place.descriptor.inj heq).2, if_neg Place.noConfusion,
            hq]
          rfl
      · rw [if_neg hq, if_neg fun heq => hq (Place.descriptor.inj heq).1, if_neg Place.noConfusion]
        rfl
  | message c' =>
      rw [State.at]
      dsimp only
      rw [conns_setConn, if_neg (Place.noConfusion : Place.message c' = .descriptor k.peer fd → False)]
      by_cases hc : c' = c
      · rw [if_pos hc, if_pos (by rw [hc]), hk]
        rfl
      · rw [if_neg hc, if_neg fun heq => hc (Place.message.inj heq)]
        rfl

end Files

end ITrustee.Teecd.Login
