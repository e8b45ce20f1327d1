import Mathlib.Tactic
import ITrustee.Authentication.NativeCert

/-!
# How a client is logged in

A client process does not open the device itself. The library connects to the daemon, which looks up who
the peer of the connection is, opens the device, logs the new file in with the certificate of the peer,
and passes the file back over the connection. `tee_ca_daemon.c`, `tee_ca_auth.c` and `RecvCaMsg` are the
daemon, `tee_client_socket.c` is the library. Before a process asks for anything else, the library
compares its version with that of the daemon, and keeps the result.

The daemon serves one connection after the other. Any number of processes connect to it, each with any
number of threads inside the library, and any process may also make connections by itself, send on them
what it likes, and use what it gets back; it keeps the descriptors that it is given. Every call may fail;
a message of the library may be sent and received in part.
-/

namespace ITrustee.Teecd.Login

open Authentication

abbrev ProcId := Nat
abbrev ThreadId := Nat
abbrev ConnId := Nat

/-- An open file of the device, which descriptors of several processes may refer to. -/
abbrev DeviceFile := Nat

structure Ucred where
  pid : UInt32
  uid : UInt32
  deriving DecidableEq

/-! ### Messages -/

def getFd : UInt32 := 0
def getTeeVersion : UInt32 := 1
def setSysXml : UInt32 := 2
def getTeecdVersion : UInt32 := 3

def nonHidlSide : Nat := 0xffe1
def bufMaxSize : Nat := 4096
def hashFileMaxSize : Nat := 16 * 1024

/-- `sizeof(CaAuthInfo)` -/
def caAuthInfoSize : Nat := 4112

/-- `sizeof(CaRevMsg)`, and where `fromHidlSide` stands in it. -/
def caRevMsgSize : Nat := 20504
def fromHidlSideAt : Nat := 4112

def msgCmd (msg : List UInt8) : UInt32 := .ofNat (Bytes.load 4 msg 0)

def fromHidlSide (msg : List UInt8) : Nat := Bytes.load 4 msg fromHidlSideAt

/-- The commands that are answered with a number and not with a file. -/
def isVersionCmd (cmd : UInt32) : Bool := cmd = getTeeVersion || cmd = getTeecdVersion

/-- What `recvmsg` leaves of a buffer. -/
def received (bytes buffer : List UInt8) : List UInt8 := bytes ++ buffer.drop bytes.length

/-- A `RecvTeecdMsg` and the file behind it, if one is passed. -/
structure Reply where
  base : List UInt8
  file : Option DeviceFile
  deriving DecidableEq

structure Version where
  major : UInt16
  minor : UInt16
  deriving DecidableEq

/-- `CheckTeecdVersion` of the library on what it received. -/
def checkTeecdVersion (self : Version) (base : List UInt8) : Int :=
  if UInt16.ofNat (Bytes.load 2 base 0) ≠ self.major then -1
  else if UInt16.ofNat (Bytes.load 2 base 2) < self.minor then -1
  else 0

/-! ### The system -/

/-- What `/proc/<pid>` shows of a process: its command line, and the users in the passwd file below its
root. -/
structure ProcFiles where
  cmdline : List UInt8
  passwd : List UInt8

/-- What does not change while the system runs. -/
structure System where
  cred : ProcId → Ucred
  /-- By the number of the process. -/
  proc : UInt32 → ProcFiles
  mem : Securec.Memory
  lib : Securec
  /-- The versions that the daemon and the library were built with. -/
  teecd : Version
  libteec : Version
  /-- `g_version` of the daemon. -/
  teeVersion : UInt32

structure Conn where
  peer : ProcId
  /-- The thread inside the library that made the connection; another one is made by the process. -/
  owner : Option ThreadId
  sent : List UInt8 := []
  reply : Option Reply := none
  accepted : Bool := false
  daemonOpen : Bool := false
  clientOpen : Bool := true

/-- What the driver knows of a file: nothing, that there is no certificate, or the certificate. -/
inductive LoginState where
  | fresh | refused
  | cert (buf : List UInt8)
  deriving DecidableEq

/-- Where the daemon stands in `ProcessAccept`. -/
inductive DaemonPc where
  | accepting
  | accepted (c : ConnId)
  | receiving (c : ConnId) (cr : Ucred)
  | processing (c : ConnId) (cr : Ucred)
  | sendingVersion (c : ConnId)
  | opening (c : ConnId) (cr : Ucred)
  /-- In `SendLoginInfo`, before the first `ioctl`. -/
  | gettingLogin (c : ConnId) (cr : Ucred) (fd : DeviceFile)
  | loginNull (c : ConnId) (fd : DeviceFile)
  | login (c : ConnId) (fd : DeviceFile) (buf : List UInt8)
  | sending (c : ConnId) (fd : DeviceFile)
  | closingFd (c : ConnId) (fd : DeviceFile)
  /-- At `CLOSE_SOCKET`. -/
  | closingSocket (c : ConnId)
  | clearing
  /-- `close` before `continue`, where no message was read. -/
  | closingEarly (c : ConnId)
  deriving DecidableEq

inductive Phase where
  | version | request
  deriving DecidableEq

/-- The arguments of `CaDaemonConnectWithCaInfo`. -/
structure Call where
  /-- The bytes of a `CaAuthInfo`. -/
  caInfo : List UInt8
  cmd : UInt32
  /-- `halXmlPtr`, with `fileSize`. -/
  xml : Option (UInt32 × List UInt8) := none
  caInfo_length : caInfo.length = caAuthInfoSize

def Phase.cmd (call : Call) : Phase → UInt32
  | .version => getTeecdVersion
  | .request => call.cmd

/-- Where a thread stands in `CaDaemonConnectWithCaInfo`; `connecting` to `closing` are in
`CaDaemonConnect`. -/
inductive ThreadPc where
  | idle
  | entering (call : Call)
  | connecting (phase : Phase) (call : Call) (failCount : Nat)
  | sending (phase : Phase) (call : Call) (c : ConnId)
  | receiving (phase : Phase) (call : Call) (c : ConnId)
  | closing (phase : Phase) (call : Call) (c : ConnId) (msgRet : Int)
  | connected (phase : Phase) (call : Call) (ret : Int)
  | checking (call : Call)
  | returned (call : Call) (ret : Int)

structure State where
  daemon : DaemonPc := .accepting
  caInfo : List UInt8 := List.replicate caRevMsgSize 0
  /-- The descriptors of the device that the daemon has open. -/
  daemonFds : List DeviceFile := []
  conns : ConnId → Option Conn := fun _ => none
  nextConn : ConnId := 0
  login : DeviceFile → LoginState := fun _ => .fresh
  nextFile : DeviceFile := 0
  fds : ProcId → Int → Option DeviceFile := fun _ _ => none
  /-- `g_firstConnectTeecd` and `g_teecVersionCheckResult` of each process. -/
  first : ProcId → Bool := fun _ => true
  checkResult : ProcId → Int := fun _ => -1
  threads : ProcId → ThreadId → ThreadPc := fun _ _ => .idle

def State.setConn (s : State) (c : ConnId) (f : Conn → Conn) : State :=
  { s with conns := Function.update s.conns c ((s.conns c).map f) }

/-! ### The daemon -/

section Daemon

variable (S : System)

/-- What `SendFileDescriptor` passes for a command without a file. -/
def versionReply (cmd : UInt32) : Reply where
  base := if cmd = getTeeVersion then Bytes.le 4 S.teeVersion.toNat
    else Bytes.le 2 S.teecd.major.toNat ++ Bytes.le 2 S.teecd.minor.toNat
  file := none

def fileReply (fd : DeviceFile) : Reply := ⟨List.replicate 4 0, some fd⟩

/-- What the calls of one step return. -/
structure DaemonCalls where
  ok : Bool := true
  conn : ConnId := 0
  /-- How much of the message is received. -/
  count : Nat := 0
  /-- `fopen` of the two files of the peer; a passwd file that cannot be read up to the user's line is as
  good as one that cannot be opened. -/
  openCmdline : Bool := true
  openPasswd : Bool := true
  /-- Of the command line. -/
  ferror : Bool := false
  fuel : Nat := 0

inductive LoginInfo where
  | failed
  /-- There is no certificate, which the driver is told. -/
  | noCert
  | cert (buf : List UInt8)

/-- `SendLoginInfo` up to the `ioctl`, with `GetLoginInfo`. -/
def getLoginInfo (cr : Ucred) (caInfo : List UInt8) (o : DaemonCalls) : Option LoginInfo :=
  if o.ok = false then some .failed
  else if fromHidlSide caInfo ≠ nonHidlSide then some .failed
  else
    let files := S.proc cr.pid
    (teeGetNativeCert S.mem S.lib (if o.openCmdline then some ⟨files.cmdline, o.ferror⟩ else none)
      (if o.openPasswd then some files.passwd else none) cr.uid o.fuel
      (some (.ofNat bufMaxSize, List.replicate bufMaxSize 0))).map fun (ret, out) =>
        match out with
        | none => .noCert
        | some (_, buf) => if ret ≠ 0 then .noCert else .cert buf

def setReply (s : State) (c : ConnId) (reply : Reply) : State :=
  s.setConn c fun k => { k with reply := some reply }

def setLogin (s : State) (fd : DeviceFile) (l : LoginState) : State :=
  { s with login := Function.update s.login fd l }

def daemonStep (s : State) (o : DaemonCalls) : Option State :=
  match s.daemon with
  | .accepting =>
      if o.ok then
        match s.conns o.conn with
        | none => none
        | some k =>
            if k.accepted then none
            else
              some { s.setConn o.conn (fun k => { k with accepted := true, daemonOpen := true }) with
                daemon := .accepted o.conn }
      else some s
  | .accepted c =>
      if o.ok then (s.conns c).map fun k => { s with daemon := .receiving c (S.cred k.peer) }
      else some { s with daemon := .closingEarly c }
  | .receiving c cr =>
      if o.ok then
        match s.conns c with
        | none => none
        | some k =>
            if 1 ≤ o.count ∧ o.count ≤ k.sent.length ∧ o.count ≤ caRevMsgSize then
              some { s with
                caInfo := received (k.sent.take o.count) s.caInfo, daemon := .processing c cr }
            else none
      else some { s with daemon := .closingSocket c }
  | .processing c cr =>
      some { s with daemon := if isVersionCmd (msgCmd s.caInfo) then .sendingVersion c else .opening c cr }
  | .sendingVersion c =>
      if o.ok then
        some { setReply s c (versionReply S (msgCmd s.caInfo)) with daemon := .closingSocket c }
      else some { s with daemon := .closingSocket c }
  | .opening c cr =>
      if o.ok then
        some { setLogin s s.nextFile .fresh with
          nextFile := s.nextFile + 1
          daemonFds := s.nextFile :: s.daemonFds
          daemon := .gettingLogin c cr s.nextFile }
      else some { s with daemon := .closingSocket c }
  | .gettingLogin c cr fd =>
      (getLoginInfo S cr s.caInfo o).map fun
        | .failed => { s with daemon := .closingFd c fd }
        | .noCert => { s with daemon := .loginNull c fd }
        | .cert buf => { s with daemon := .login c fd buf }
  | .loginNull c fd =>
      some { (if o.ok then setLogin s fd .refused else s) with daemon := .closingFd c fd }
  | .login c fd buf =>
      if o.ok then some { setLogin s fd (.cert buf) with daemon := .sending c fd }
      else some { s with daemon := .closingFd c fd }
  | .sending c fd =>
      if o.ok then some { setReply s c (fileReply fd) with daemon := .closingFd c fd }
      else some { s with daemon := .closingFd c fd }
  | .closingFd c fd =>
      some { s with daemonFds := s.daemonFds.erase fd, daemon := .closingSocket c }
  | .closingSocket c =>
      some { s.setConn c (fun k => { k with daemonOpen := false }) with daemon := .clearing }
  | .clearing => some { s with caInfo := List.replicate caRevMsgSize 0, daemon := .accepting }
  | .closingEarly c =>
      some { s.setConn c (fun k => { k with daemonOpen := false }) with daemon := .accepting }

end Daemon

/-! ### The library -/

section Library

variable (S : System)

def sleepCount : Nat := 50

inductive Connect where
  | connected | accessDenied | failed

/-- What the calls of one step return. -/
structure ThreadCalls where
  call : Option Call := none
  connect : Connect := .connected
  malloc : Bool := true
  ok : Bool := true
  /-- How much of the message is sent. -/
  count : Nat := 0
  /-- The descriptor that a received file is given. -/
  fd : Int := 0

/-- `FillMsgBuffer` -/
def fillMsgBuffer (malloc : Bool) (call : Call) (cmd : UInt32) : Option (List UInt8) :=
  if malloc = false then none
  else
    let head := Bytes.le 4 cmd.toNat ++ call.caInfo
    match if cmd = setSysXml then call.xml else none with
    | none => some (head ++ List.replicate (4 + hashFileMaxSize) 0)
    | some (fileSize, fileBuf) =>
        if hashFileMaxSize < fileSize.toNat then none
        else
          some (head ++ Bytes.le 4 fileSize.toNat ++
            received (fileBuf.take fileSize.toNat) (List.replicate hashFileMaxSize 0))

def setThread (s : State) (p : ProcId) (t : ThreadId) (pc : ThreadPc) : State :=
  { s with threads := Function.update s.threads p (Function.update (s.threads p) t pc) }

/-- A new connection, which waits to be accepted. -/
def addConn (s : State) (p : ProcId) (owner : Option ThreadId) : State :=
  { s with
    conns := Function.update s.conns s.nextConn (some { peer := p, owner })
    nextConn := s.nextConn + 1 }

/-- The system gives the process a descriptor for a file that it receives. -/
def installFd (s : State) (p : ProcId) (fd : Int) (file : DeviceFile) : Option State :=
  if 0 ≤ fd ∧ s.fds p fd = none then
    some { s with fds := Function.update s.fds p (Function.update (s.fds p) fd (some file)) }
  else none

/-- `RecvSockMsg` on a reply: what it returns. The result of the version check is kept. -/
def recvSockMsg (s : State) (p : ProcId) (cmd : UInt32) (reply : Reply) (fd : Int) :
    Option (Int × State) :=
  if cmd = getTeeVersion then some ((UInt32.ofNat (Bytes.load 4 reply.base 0)).toInt32.toInt, s)
  else if cmd = getTeecdVersion then
    some (0, { s with
      checkResult := Function.update s.checkResult p (checkTeecdVersion S.libteec reply.base) })
  else
    match reply.file with
    | none => some (-1, s)
    | some file => (installFd s p fd file).map fun s => (fd, s)

def threadStep (s : State) (p : ProcId) (t : ThreadId) (o : ThreadCalls) : Option State :=
  match s.threads p t with
  | .idle | .returned _ _ => o.call.map fun call => setThread s p t (.entering call)
  | .entering call =>
      some (setThread s p t (if s.first p then .connecting .version call 0 else .checking call))
  | .connecting phase call failCount =>
      if failCount < sleepCount then
        match o.connect with
        | .connected => some (setThread (addConn s p (some t)) p t (.sending phase call s.nextConn))
        | .accessDenied => some (setThread s p t (.connected phase call (-1)))
        | .failed => some (setThread s p t (.connecting phase call (failCount + 1)))
      else some (setThread s p t (.connected phase call (-1)))
  | .sending phase call c =>
      match fillMsgBuffer o.malloc call (phase.cmd call) with
      | none => some (setThread s p t (.closing phase call c (-1)))
      | some msg =>
          if o.ok then
            some (setThread (s.setConn c fun k => { k with sent := msg.take o.count }) p t
              (.receiving phase call c))
          else some (setThread s p t (.closing phase call c (-4)))
  | .receiving phase call c =>
      if o.ok then
        match (s.conns c).bind Conn.reply with
        | none => none
        | some reply =>
            (recvSockMsg S (s.setConn c fun k => { k with reply := none }) p (phase.cmd call) reply
              o.fd).map fun (msgRet, s) => setThread s p t (.closing phase call c msgRet)
      else some (setThread s p t (.closing phase call c (-1)))
  | .closing phase call c msgRet =>
      some (setThread (s.setConn c fun k => { k with clientOpen := false }) p t
        (.connected phase call msgRet))
  | .connected .version call ret =>
      if ret ≠ 0 then some (setThread s p t (.returned call (-1)))
      else some (setThread { s with first := Function.update s.first p false } p t (.checking call))
  | .connected .request call ret => some (setThread s p t (.returned call ret))
  | .checking call =>
      some (setThread s p t
        (if s.checkResult p ≠ 0 then .returned call (-1) else .connecting .request call 0))

end Library

/-! ### Everything together -/

inductive Action where
  | daemon (o : DaemonCalls)
  | thread (p : ProcId) (t : ThreadId) (o : ThreadCalls)
  /-- A process without the library. -/
  | rawConnect (p : ProcId)
  | rawSend (c : ConnId) (bytes : List UInt8)
  | rawRecv (c : ConnId) (fd : Int)
  | rawClose (c : ConnId)

def step (S : System) (s : State) : Action → Option State
  | .daemon o => daemonStep S s o
  | .thread p t o => threadStep S s p t o
  | .rawConnect p => some (addConn s p none)
  | .rawSend c bytes =>
      match s.conns c with
      | some { owner := none, .. } => some (s.setConn c fun k => { k with sent := k.sent ++ bytes })
      | _ => none
  | .rawRecv c fd =>
      match s.conns c with
      | some { peer, owner := none, reply := some reply, .. } =>
          let s := s.setConn c fun k => { k with reply := none }
          match reply.file with
          | none => some s
          | some file => installFd s peer fd file
      | _ => none
  | .rawClose c =>
      match s.conns c with
      | some { owner := none, .. } => some (s.setConn c fun k => { k with clientOpen := false })
      | _ => none

end ITrustee.Teecd.Login
