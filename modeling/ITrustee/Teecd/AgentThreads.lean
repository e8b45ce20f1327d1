import Mathlib.Tactic
import ITrustee.Foundation.RequestLoop
import ITrustee.Teecd.Agents
import ITrustee.Teecd.StorageDescriptors

/-!
# The threads of the agents

`FsWorkThread` and `MiscWorkThread` with `GetTimeWork`, as servers of the blocks they share with the
secure world; the third agent is in `SecLoadAgent`. The storage agent is the only one with a memory.
-/

namespace ITrustee.Teecd.Agents

open RequestLoop

/-! ### Secure storage -/

/-- `SecStorageType` with its `magic`. -/
structure FsControl where
  magic : UInt32 := 0
  transControl : SecStorageType
  deriving DecidableEq

/-- One turn of the loop of `FsWorkThread`; `IsUserDataReady` returns 1. -/
def fsThreadWork (lib : Securec) (calls : Calls) (s : FsState) (c : FsControl) :
    Option (FsState × FsControl) :=
  (fsWork lib calls s c.transControl).map fun (s, t) =>
    (s, { magic := AgentId.fs.number, transControl := t })

/-- What the table of descriptors allows, with the `magic` of the agent. -/
def FsAllows (fds : Finset Int32) (h : Calls × FsControl) (answer : FsControl) (fds' : Finset Int32) :
    Prop :=
  answer.magic = AgentId.fs.number ∧ Allows h.1 fds h.2.transControl answer.transControl fds'

/-- The calls made for a request behave as the table relies on: those that fail say why, and `fclose`
does not fail. -/
structure Reliable (h : Calls × FsControl) : Prop where
  saysWhy : SaysWhy h.1
  closes : h.2.transControl.cmd = .secClose → h.1.fclose = 0

instance (h : Calls × FsControl) : Decidable (Reliable h) :=
  decidable_of_iff ((h.1.realpath = none ∨ h.1.fopen = none → h.1.errno ≠ 0) ∧
      (h.2.transControl.cmd = .secClose → h.1.fclose = 0))
    ⟨fun h => ⟨h.1, h.2⟩, fun h => ⟨h.saysWhy, h.closes⟩⟩

theorem fsThreadWork_allows {lib : Securec} {calls : Calls} {s s' : FsState} {c c' : FsControl}
    {fds : Finset Int32} (hs : OpenFilesSound s ∧ descriptors s = fds) (hcalls : Reliable (calls, c))
    (h : fsThreadWork lib calls s c = some (s', c')) :
    ∃ fds', FsAllows fds (calls, c) c' fds' ∧ OpenFilesSound s' ∧ descriptors s' = fds' := by
  obtain ⟨⟨u, t⟩, hwork, h⟩ := Option.map_eq_some_iff.mp h
  obtain ⟨rfl, rfl⟩ := Prod.mk.inj h
  obtain ⟨hsound, rfl⟩ := hs
  exact ⟨_, ⟨rfl, fsWork_allows hsound hcalls.saysWhy hcalls.closes hwork⟩,
    fsWork_sound hsound hcalls.closes hwork, rfl⟩

/-- A run of `FsWorkThread` from its start. -/
structure KeepsTable (s : State FsState FsControl Calls) : Prop where
  /-- The answers are in the order of the requests, and such that the table of descriptors allows them;
  it is the table of the list that is there now. -/
  served : ∃ outs, InOrder s outs ∧ Serves FsAllows ∅ s.handled outs (descriptors s.memory)
  sound : OpenFilesSound s.memory

/-- The storage agent keeps the descriptors of the secure world: what is opened gets a new one, a closed
one is gone, and any other is refused. -/
theorem fsWorkThread_keepsTable (lib : Securec) (block₀ : FsControl)
    (actions : List (Action FsControl Calls)) (s : State FsState FsControl Calls)
    (hexec : Machine.exec (step (fsThreadWork lib)) { memory := {}, block := block₀ } actions = some s)
    (hcalls : ∀ h ∈ s.handled, Reliable h) : KeepsTable s := by
  obtain ⟨outs, hserved, horder⟩ := (run_sequential hexec).inOrder
  have hstart : OpenFilesSound {} ∧ descriptors {} = ∅ :=
    ⟨⟨by simp, List.Pairwise.nil⟩, rfl⟩
  obtain ⟨fds, hserves, hsound, rfl⟩ := serveAll_simulates
    (A := fun s fds => OpenFilesSound s ∧ descriptors s = fds)
    (fun _ _ _ _ _ _ hs hcalls hwork => fsThreadWork_allows hs hcalls hwork) hstart hcalls hserved
  exact ⟨⟨outs, horder, hserves⟩, hsound⟩

/-- A file is opened, read and closed, and read again. -/
def tableActions : List (Action FsControl Calls) :=
  let calls : Calls :=
    { realpath := some "/var/itrustee/sec_storage_data/a".toList, fopen := some ⟨0x1000, 5⟩, fread := [7] }
  let read : FsControl := { transControl := { cmd := .secRead, args := { fd := 5, count := 1 } } }
  [.wake { transControl := openRequest.transControl }, .work calls, .respond,
    .wake read, .work calls, .respond, .wake { transControl := closeRequest.transControl }, .work calls,
    .respond, .wake read, .work calls, .respond]

def tableRun : Option (State FsState FsControl Calls) :=
  Machine.exec (step (fsThreadWork Securec.reference))
    { memory := {}, block := { transControl := openRequest.transControl } } tableActions

theorem tableRun_isSome : tableRun.isSome = true := by decide +kernel

theorem fsWorkThread_keepsTable_closed :
    KeepsTable (tableRun.get tableRun_isSome) ∧
      (tableRun.get tableRun_isSome).answers.map (fun c => (c.transControl.ret, c.transControl.error)) =
        [(5, 0), (1, 0), (0, 0), (0, eBadF)] :=
  ⟨fsWorkThread_keepsTable Securec.reference _ tableActions _ (Option.some_get tableRun_isSome).symm
    (by decide +kernel), by decide +kernel⟩

/-! ### Time -/

inductive MiscCmdType where
  | secNvInfo | secGetTime
  | other (cmd : UInt32)
  deriving DecidableEq

/-- `MiscControlType`, with `Args` as `GetTime`. -/
structure MiscControlType where
  cmd : MiscCmdType
  ret : Int32 := 0
  magic : UInt32 := 0
  seconds : UInt32 := 0
  millis : UInt32 := 0
  timeStr : List Char := []
  deriving DecidableEq

structure Timeval where
  sec : Nat
  usec : Nat
  usec_lt : usec < 1000000

/-- `struct tm`; `year` and `mon` as they are printed. -/
structure Tm where
  year : Nat
  mon : Fin 100
  mday : Fin 100
  hour : Fin 100
  min : Fin 100
  sec : Fin 100

structure MiscCalls where
  gettimeofday : Option Timeval
  localtime : Option Tm
  /-- What `snprintf_s` leaves when the text does not fit. -/
  garbage : List Char := []

def miscControlTimeStrLen : Nat := 30

/-- `%0<width>d` -/
def decimal (width n : Nat) : List Char :=
  let digits := Nat.toDigits 10 n
  List.replicate (width - digits.length) '0' ++ digits

/-- `%04d-%02d-%02d %02d:%02d:%02d.%03d ` -/
def timeText (tm : Tm) (millis : Nat) : List Char :=
  decimal 4 tm.year ++ "-".toList ++ decimal 2 tm.mon ++ "-".toList ++ decimal 2 tm.mday ++
    " ".toList ++ decimal 2 tm.hour ++ ":".toList ++ decimal 2 tm.min ++ ":".toList ++
      decimal 2 tm.sec ++ ".".toList ++ decimal 3 millis ++ " ".toList

def getTimeWork (calls : MiscCalls) (c : MiscControlType) : MiscControlType :=
  match calls.gettimeofday with
  | none => { c with ret := -1, seconds := 0, millis := 0 }
  | some timeVal =>
      let c := { c with
        ret := 0, seconds := .ofNat timeVal.sec, millis := .ofNat (timeVal.usec / 1000) }
      match calls.localtime with
      | none => c
      | some tm =>
          let text := timeText tm (timeVal.usec / 1000)
          if text.length < miscControlTimeStrLen then { c with timeStr := text }
          else { c with ret := -1, timeStr := calls.garbage }

/-- The switch of `MiscWorkThread`. -/
def miscWork (calls : MiscCalls) (c : MiscControlType) : MiscControlType :=
  match c.cmd with
  | .secGetTime => getTimeWork calls c
  | .secNvInfo | .other _ => c

/-- One turn of the loop of `MiscWorkThread`. -/
def miscThreadWork (calls : MiscCalls) (_ : Unit) (c : MiscControlType) :
    Option (Unit × MiscControlType) :=
  some ((), { miscWork calls c with magic := AgentId.misc.number })

theorem decimal_length {width n : Nat} (hpos : 0 < width) (h : n < 10 ^ width) :
    (decimal width n).length = width := by
  have hdigits := Nat.toDigits_length 10 n width hpos h
  rw [decimal, List.length_append, List.length_replicate]
  omega

theorem decimal_length_le {width n bound : Nat} (hwidth : width ≤ bound) (hpos : 0 < bound)
    (h : n < 10 ^ bound) : (decimal width n).length ≤ bound := by
  have hdigits := Nat.toDigits_length 10 n bound hpos h
  rw [decimal, List.length_append, List.length_replicate]
  omega

/-- The text of a time fits for any year of at most nine digits. -/
theorem timeText_fits {tm : Tm} {millis : Nat} (hyear : tm.year < 10 ^ 9) (hmillis : millis < 1000) :
    (timeText tm millis).length < miscControlTimeStrLen := by
  have hyearLen : (decimal 4 tm.year).length ≤ 9 := decimal_length_le (by decide) (by decide) hyear
  have htwo (n : Fin 100) : (decimal 2 n).length = 2 := decimal_length (by decide) n.isLt
  have hthree : (decimal 3 millis).length = 3 := decimal_length (by decide) hmillis
  simp only [timeText, List.length_append, htwo, hthree]
  show (decimal 4 tm.year).length + 1 + 2 + 1 + 2 + 1 + 2 + 1 + 2 + 1 + 2 + 1 + 3 + 1 < 30
  omega

/-- The answer to a request for the time, at the time that the clock gives. -/
structure TellsTime (h : MiscCalls × MiscControlType) (answer : MiscControlType) : Prop where
  magic : answer.magic = AgentId.misc.number
  other : h.2.cmd ≠ .secGetTime → answer = { h.2 with magic := AgentId.misc.number }
  noClock : h.2.cmd = .secGetTime → h.1.gettimeofday = none → answer.ret = -1
  time : h.2.cmd = .secGetTime → ∀ timeVal, h.1.gettimeofday = some timeVal →
    (∀ tm, h.1.localtime = some tm → tm.year < 10 ^ 9) →
      answer.ret = 0 ∧ answer.seconds.toNat = timeVal.sec % 2 ^ 32 ∧ answer.millis.toNat < 1000 ∧
        ∀ tm, h.1.localtime = some tm → answer.timeStr = timeText tm answer.millis.toNat

theorem miscThreadWork_tellsTime {calls : MiscCalls} {c c' : MiscControlType} {u : Unit}
    (h : miscThreadWork calls () c = some (u, c')) : TellsTime (calls, c) c' := by
  obtain ⟨-, rfl⟩ := Prod.mk.inj (Option.some.inj h)
  refine ⟨rfl, fun hcmd => ?_, fun hcmd hclock => ?_, fun hcmd timeVal hclock hyear => ?_⟩
  · have hwork : miscWork calls c = c := by
      rw [miscWork]
      cases hc : c.cmd with
      | secGetTime => exact absurd hc hcmd
      | secNvInfo => rfl
      | other cmd => rfl
    rw [hwork]
  · dsimp only at hcmd hclock ⊢
    rw [miscWork, hcmd]
    dsimp only
    rw [getTimeWork, hclock]
  · dsimp only at hcmd hclock hyear ⊢
    rw [miscWork, hcmd]
    dsimp only
    rw [getTimeWork, hclock]
    have hmillis : timeVal.usec / 1000 < 1000 := by
      have := timeVal.usec_lt
      omega
    have htoNat : (UInt32.ofNat (timeVal.usec / 1000)).toNat = timeVal.usec / 1000 :=
      UInt32.toNat_ofNat_of_lt' (by rw [UInt32.size]; omega)
    cases htm : calls.localtime with
    | none => exact ⟨rfl, UInt32.toNat_ofNat', by rw [htoNat]; exact hmillis, fun tm h => by cases h⟩
    | some tm =>
        dsimp only
        rw [if_pos (timeText_fits (hyear tm htm) hmillis)]
        dsimp only
        rw [htoNat]
        exact ⟨rfl, UInt32.toNat_ofNat', hmillis, fun tm' h => by cases h; rfl⟩

/-- Every request for the time is answered with it, in the order of the requests. -/
theorem miscWorkThread_tellsTime (block₀ : MiscControlType)
    (actions : List (Action MiscControlType MiscCalls)) (s : State Unit MiscControlType MiscCalls)
    (hexec : Machine.exec (step miscThreadWork) { memory := (), block := block₀ } actions = some s) :
    ∃ outs, InOrder s outs ∧ List.Forall₂ TellsTime s.handled outs := by
  obtain ⟨outs, hserved, horder⟩ := (run_sequential hexec).inOrder
  obtain ⟨-, htells⟩ := serveAll_related (I := fun _ => True)
    (fun _ _ _ _ _ _ hwork => ⟨trivial, miscThreadWork_tellsTime hwork⟩) trivial hserved
  exact ⟨outs, horder, htells⟩

end ITrustee.Teecd.Agents
