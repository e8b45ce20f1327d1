import Mathlib.Tactic
import ITrustee.Foundation.CInt
import ITrustee.Foundation.Securec
import ITrustee.Foundation.Strtol
import ITrustee.TeeTeleport.Scp

/-!
# Group ids and namespace ids

The three commands of `tee_teleport.c` that send an id to the TEE: `DoCleanGroupId`, `DoRconfig` and
`DoContainer`, with the functions of `scp.c` that fill the portal. Each of them parses the id with
`ParseStr`, which leaves it to its caller to look at what follows the number, and returns the result of
`ParseStr` also when only that is wrong. The number is then converted to the type of the portal.
-/

namespace ITrustee.TeeTeleport

open CInt Strtol

def eInval : Int32 := 22

def paramLen : Nat := 64

def containerIdLen : Nat := 64

def containerOpen : UInt32 := 1

/-- What a call of the portal is given by. -/
structure PortalCalls where
  /-- `GetPortal` finds the portal. -/
  getPortal : Bool
  getuid : UInt32
  trigger : Int32
  /-- The result that the TEE leaves in the portal. -/
  ret : Int32

structure RConfig where
  vmid : Int := 0
  cpus : List Char := []
  memSize : List Char := []
  cpuset : List Char := []
  diskSize : List Char := []
  deriving DecidableEq

inductive RequestArgs where
  | clean (grpId : Int)
  | rconfig (nsId : Nat) (config : RConfig)
  | containerMsg (nsId : Nat) (mode : UInt32) (containerId : List UInt8)
  deriving DecidableEq

/-- A portal that is handed over. -/
structure PortalRequest where
  reeUID : UInt32
  sessionID : UInt32 := 0
  args : RequestArgs
  deriving DecidableEq

/-- The id that the TEE is sent. -/
def PortalRequest.id (r : PortalRequest) : Int :=
  match r.args with
  | .clean grpId => grpId
  | .rconfig nsId _ => nsId
  | .containerMsg nsId .. => nsId

structure TeleportArgs where
  grpId : List Char := []
  nsId : List Char := []
  mem : List Char := []
  cpuset : List Char := []
  cpus : List Char := []
  diskSize : List Char := []
  containerMsg : List UInt8 := []

/-! ### The portal -/

section Portal

variable (lib : Securec) (strings : Securec.Strings) (calls : PortalCalls)

def teeClean (grpId : Int) : Int32 × List PortalRequest :=
  if grpId < 0 then (-1, [])
  else if calls.getPortal = false then (-eFault, [])
  else
    let request : PortalRequest := { reeUID := calls.getuid, args := .clean grpId }
    if calls.trigger ≠ 0 then (calls.trigger, [request])
    else if calls.ret ≠ 0 then (calls.ret, [request])
    else (0, [request])

/-- The copies of `TeeRconfig` into the portal. -/
def copyRConfig (config : RConfig) : Option RConfig := do
  let cpus ← strings.strcpyS paramLen config.cpus
  let memSize ← strings.strcpyS paramLen config.memSize
  let diskSize ← strings.strcpyS paramLen config.diskSize
  let cpuset ← strings.strcpyS paramLen config.cpuset
  return { vmid := config.vmid, cpus, memSize, diskSize, cpuset }

def teeRconfig (config : RConfig) (nsid : Int) : Int32 × List PortalRequest :=
  if calls.getPortal = false then (-eFault, [])
  else
    match copyRConfig strings config with
    | none => (-eFault, [])
    | some config =>
        let request : PortalRequest :=
          { reeUID := calls.getuid, args := .rconfig (toU32 nsid) config }
        if calls.trigger ≠ 0 then (-1, [request]) else (calls.ret, [request])

structure ContainerConfig where
  nsid : Nat := 0
  containerid : List UInt8 := List.replicate containerIdLen 0

def sendContainerMsg (config : ContainerConfig) (mode : UInt32) : Int32 × List PortalRequest :=
  let containerId := lib.memcpyS (List.replicate containerIdLen 0) containerIdLen config.containerid
    containerIdLen
  if containerId.1 ≠ 0 then (-eFault, [])
  else (calls.trigger,
    [{ reeUID := calls.getuid, args := .containerMsg config.nsid mode containerId.2 }])

def teeSendContainerMsg (config : ContainerConfig) (mode : UInt32) : Int32 × List PortalRequest :=
  if calls.getPortal = false then (-eFault, [])
  else
    let sent := sendContainerMsg lib calls config mode
    if sent.1 ≠ 0 then (-eFault, sent.2) else (calls.ret, sent.2)

end Portal

/-! ### The commands -/

structure Parsed where
  ret : Int32
  num : Int
  endPtr : List Char

/-- `ParseStr` in base 10; `num` is what the caller's variable holds before. -/
def parseStr (str : List Char) (num : Int) : Parsed :=
  let res := strtol str
  if (res.erange ∧ (res.value = longMax ∨ res.value = longMin)) ∨ (res.erange ∧ res.value = 0) ∨
      res.rest = str then
    ⟨-eInval, num, res.rest⟩
  else ⟨0, res.value, res.rest⟩

def isMemConfigValid (memSize : List Char) : Int32 :=
  if memSize = [] then -eInval
  else
    let parsed := parseStr memSize 0
    if parsed.ret ≠ 0 then parsed.ret
    else if parsed.endPtr.head?.any fun c => c ∈ ['K', 'k', 'M', 'm', 'G', 'g'] then 0
    else -eInval

def isxdigit (b : UInt8) : Bool :=
  (48 ≤ b && b ≤ 57) || (65 ≤ b && b ≤ 70) || (97 ≤ b && b ≤ 102)

def checkContainerId (containerMsg : List UInt8) : Int32 :=
  if containerMsg.length ≠ containerIdLen then -eInval
  else if containerMsg.all isxdigit then 0
  else -eInval

section Commands

variable (lib : Securec) (strings : Securec.Strings) (calls : PortalCalls) (args : TeleportArgs)

def doCleanGroupId : Int32 × List PortalRequest :=
  let parsed := parseStr args.grpId (-1)
  if parsed.ret ≠ 0 ∨ parsed.endPtr ≠ [] then (parsed.ret, [])
  else teeClean calls (i32 parsed.num)

/-- The configuration that `DoRconfig` puts together; what cannot be copied stays empty. -/
def rconfigOf : RConfig where
  cpus := if args.cpus ≠ [] then (strings.strcpyS paramLen args.cpus).getD [] else []
  memSize :=
    if isMemConfigValid args.mem = 0 then (strings.strcpyS paramLen args.mem).getD [] else []
  diskSize :=
    if isMemConfigValid args.diskSize = 0 then (strings.strcpyS paramLen args.diskSize).getD []
    else []
  cpuset := if args.cpuset ≠ [] then (strings.strcpyS paramLen args.cpuset).getD [] else []

def doRconfig : Int32 × List PortalRequest :=
  let parsed := parseStr args.nsId 0
  if parsed.ret = -eInval ∨ parsed.endPtr ≠ [] then (parsed.ret, [])
  else teeRconfig strings calls (rconfigOf strings args) parsed.num

/-- `CheckParams`; the result comes with the configuration that it leaves. -/
def checkParams (config : ContainerConfig) : Int32 × ContainerConfig :=
  let parsed := parseStr args.nsId 0
  if parsed.ret = -eInval ∨ parsed.endPtr ≠ [] then (parsed.ret, config)
  else
    let config := { config with nsid := toU32 parsed.num }
    if checkContainerId args.containerMsg ≠ 0 then (-eInval, config)
    else
      let containerid := lib.memcpyS config.containerid containerIdLen args.containerMsg containerIdLen
      if containerid.1 ≠ 0 then (-eInval, { config with containerid := containerid.2 })
      else (0, { config with containerid := containerid.2 })

def doContainer : Int32 × List PortalRequest :=
  let checked := checkParams lib args {}
  if checked.1 ≠ 0 then (-eInval, [])
  else teeSendContainerMsg lib calls checked.2 containerOpen

end Commands

/-! ### What should hold -/

def InInt (n : Int) : Prop := -2 ^ 31 ≤ n ∧ n < 2 ^ 31

def InU32 (n : Int) : Prop := 0 ≤ n ∧ n < 2 ^ 32

/-- A string that is no integer of the type is refused, and otherwise what it writes is sent. A group id
below 0 is never sent. -/
def Respects (s : List Char) (fits : Int → Prop) (run : PortalCalls → Int32 × List PortalRequest) :
    Prop :=
  ((¬ ∃ n, Denotes s n ∧ fits n) → ∀ calls, (run calls).1 ≠ 0 ∧ (run calls).2 = []) ∧
    ∀ n, Denotes s n → fits n → ∀ calls, (run calls).2.map PortalRequest.id =
      if calls.getPortal = true ∧ 0 ≤ n then [n] else []

def IdsRespected (lib : Securec) (strings : Securec.Strings) (args : TeleportArgs) : Prop :=
  Respects args.grpId InInt (fun calls => doCleanGroupId calls args) ∧
    Respects args.nsId InU32 (fun calls => doRconfig strings calls args) ∧
      Respects args.nsId InU32 (fun calls => doContainer lib calls args)

/-- If the string begins with an integer of type `long`, possibly behind white space, then it is that
integer, and a namespace id. -/
def NsIdWhole (s : List Char) : Prop :=
  ∀ n rest, Begins s n rest → InLong n → Denotes s n ∧ InU32 n

/-- The same of a group id; or nothing follows the integer, and its low 32 bits are a negative number. -/
def GroupIdWhole (s : List Char) : Prop :=
  ∀ n rest, Begins s n rest → InLong n → Denotes s n ∧ InInt n ∨ rest = [] ∧ i32 n < 0

/-! ### Parsing -/

section Parse

variable {s rest : List Char} {n num : Int}

theorem parseStr_of_begins (h : Begins s n rest) (hlong : InLong n) :
    parseStr s num = ⟨0, n, rest⟩ := by
  rw [parseStr, strtol_of_begins h hlong, if_neg]
  rintro (⟨herange, -⟩ | ⟨herange, -⟩ | hrest)
  · cases herange
  · cases herange
  · exact h.rest_ne hrest

theorem parseStr_refused (h : ∀ n rest, Begins s n rest → ¬ InLong n) :
    (parseStr s num).ret = -eInval := by
  rw [parseStr, if_pos]
  by_cases hbegins : ∃ n rest, Begins s n rest
  · obtain ⟨n, rest, hbegins⟩ := hbegins
    exact Or.inl (strtol_of_begins_out hbegins (h n rest hbegins))
  · rw [strtol_of_none fun n rest hn => hbegins ⟨n, rest, hn⟩]
    exact Or.inr (Or.inr rfl)

/-- An integer that the whole string writes is the one it begins with. -/
theorem begins_of_denotes {m : Int} (hm : Denotes s m) (hmlong : InLong m) (hn : Begins s n rest)
    (hnlong : InLong n) : n = m ∧ rest = [] := by
  have heq := (strtol_of_begins hn hnlong).symm.trans (strtol_of_begins hm.begins hmlong)
  obtain ⟨rfl, rfl, -⟩ := Result.mk.inj heq
  exact ⟨rfl, rfl⟩

end Parse

/-- What a command does with an id that it converts by `conv`, and when that is right. -/
theorem respects_iff {s : List Char} {fits : Int → Prop} {conv : Int → Int}
    {run : PortalCalls → Int32 × List PortalRequest} (hlong : ∀ n, fits n → InLong n)
    (hconv : ∀ n, fits n → conv n = n)
    (hrefused : (∀ n rest, Begins s n rest → ¬ InLong n) →
      ∀ calls, (run calls).1 ≠ 0 ∧ (run calls).2 = [])
    (htrailing : ∀ n rest, Begins s n rest → InLong n → rest ≠ [] → ∃ calls, (run calls).1 = 0)
    (hwhole : ∀ n calls, Begins s n [] → InLong n → (run calls).2.map PortalRequest.id =
      if calls.getPortal = true ∧ 0 ≤ conv n then [conv n] else [])
    (hnegative : ∀ n calls, Begins s n [] → InLong n → conv n < 0 → (run calls).1 ≠ 0) :
    Respects s fits run ↔
      ∀ n rest, Begins s n rest → InLong n → Denotes s n ∧ fits n ∨ rest = [] ∧ conv n < 0 := by
  constructor
  · rintro ⟨hnone, -⟩ n rest hbegins hn
    by_cases hdenotes : ∃ m, Denotes s m ∧ fits m
    · obtain ⟨m, hm, hfits⟩ := hdenotes
      obtain ⟨rfl, -⟩ := begins_of_denotes hm (hlong m hfits) hbegins hn
      exact Or.inl ⟨hm, hfits⟩
    · have hcalls := hnone hdenotes
      have hrest : rest = [] := by
        by_contra hne
        obtain ⟨calls, hret⟩ := htrailing n rest hbegins hn hne
        exact (hcalls calls).1 hret
      subst hrest
      refine Or.inr ⟨rfl, ?_⟩
      by_contra hpos
      have hsent := hwhole n ⟨true, 0, 0, 0⟩ hbegins hn
      rw [(hcalls _).2, if_pos ⟨rfl, not_lt.mp hpos⟩] at hsent
      cases hsent
  · intro h
    constructor
    · intro hnone calls
      by_cases hlongs : ∃ n rest, Begins s n rest ∧ InLong n
      · obtain ⟨n, rest, hbegins, hn⟩ := hlongs
        obtain hdenotes | ⟨rfl, hneg⟩ := h n rest hbegins hn
        · exact absurd ⟨n, hdenotes⟩ hnone
        · refine ⟨hnegative n calls hbegins hn hneg, ?_⟩
          have hsent := hwhole n calls hbegins hn
          rw [if_neg fun hpos => not_lt.mpr hpos.2 hneg] at hsent
          exact List.map_eq_nil_iff.mp hsent
      · exact hrefused (fun n rest hbegins hn => hlongs ⟨n, rest, hbegins, hn⟩) calls
    · intro n hdenotes hfits calls
      have hsent := hwhole n calls hdenotes.begins (hlong n hfits)
      rw [hconv n hfits] at hsent
      exact hsent

/-! ### The three commands -/

section Sent

variable {lib : Securec} {strings : Securec.Strings} {calls : PortalCalls}

theorem teeClean_sent (grpId : Int) : (teeClean calls grpId).2.map PortalRequest.id =
    if calls.getPortal = true ∧ 0 ≤ grpId then [grpId] else [] := by
  rw [teeClean]
  by_cases hneg : grpId < 0
  · rw [if_pos hneg, if_neg fun h => absurd h.2 (not_le.mpr hneg)]
    rfl
  · rw [if_neg hneg]
    cases hportal : calls.getPortal with
    | false => simp
    | true =>
        have hsent : (if true = true ∧ 0 ≤ grpId then [grpId] else []) = [grpId] :=
          if_pos ⟨rfl, not_lt.mp hneg⟩
        rw [if_neg (by decide), hsent]
        dsimp only
        split_ifs <;> rfl

theorem rconfig_fits (hlib : strings.JoinsWhole) (args : TeleportArgs) :
    ((rconfigOf strings args).cpus.length < paramLen ∧
        (rconfigOf strings args).memSize.length < paramLen) ∧
      (rconfigOf strings args).diskSize.length < paramLen ∧
        (rconfigOf strings args).cpuset.length < paramLen := by
  have hcopy (src : List Char) : ((strings.strcpyS paramLen src).getD []).length < paramLen := by
    rw [hlib.copies]
    split_ifs with hfits
    · exact hfits.2
    · exact (by decide : 0 < paramLen)
  have hif (p : Prop) [Decidable p] (src : List Char) :
      (if p then (strings.strcpyS paramLen src).getD [] else []).length < paramLen := by
    split_ifs
    · exact hcopy src
    · exact (by decide : 0 < paramLen)
  exact ⟨⟨hif _ _, hif _ _⟩, hif _ _, hif _ _⟩

theorem teeRconfig_sent (hlib : strings.JoinsWhole) (args : TeleportArgs) (nsid : Int) :
    (teeRconfig strings calls (rconfigOf strings args) nsid).2.map PortalRequest.id =
      if calls.getPortal = true ∧ 0 ≤ (toU32 nsid : Int) then [(toU32 nsid : Int)] else [] := by
  have hcopied (src : List Char) (hfits : src.length < paramLen) :
      strings.strcpyS paramLen src = some src := by
    rw [hlib.copies, if_pos ⟨by decide, hfits⟩]
  obtain ⟨⟨hcpus, hmem⟩, hdisk, hcpuset⟩ := rconfig_fits hlib args
  rw [teeRconfig, copyRConfig, hcopied _ hcpus, hcopied _ hmem, hcopied _ hdisk, hcopied _ hcpuset]
  cases hportal : calls.getPortal with
  | false => simp
  | true =>
      have hsent : (if true = true ∧ 0 ≤ (toU32 nsid : Int) then [(toU32 nsid : Int)] else []) =
          [(toU32 nsid : Int)] := if_pos ⟨rfl, Int.natCast_nonneg _⟩
      rw [if_neg (by decide), hsent]
      dsimp only [Option.bind_eq_bind, Option.bind_some]
      show (if calls.trigger ≠ 0 then _ else _ : Int32 × List PortalRequest).2.map _ = _
      split_ifs <;> rfl

theorem sendContainerMsg_eq (hlib : lib.CopiesWithinMax) (config : ContainerConfig) (mode : UInt32) :
    ∃ containerId, sendContainerMsg lib calls config mode =
      (calls.trigger, [{ reeUID := calls.getuid, args := .containerMsg config.nsid mode containerId }]) := by
  rw [sendContainerMsg, hlib.copies _ _ _ _ (by decide) (by decide) le_rfl]
  exact ⟨_, if_neg fun h => h rfl⟩

theorem teeSendContainerMsg_sent (hlib : lib.CopiesWithinMax) (config : ContainerConfig)
    (mode : UInt32) :
    (teeSendContainerMsg lib calls config mode).2.map PortalRequest.id =
      if calls.getPortal = true ∧ 0 ≤ (config.nsid : Int) then [(config.nsid : Int)] else [] := by
  obtain ⟨containerId, hsend⟩ : ∃ containerId, sendContainerMsg lib calls config mode = _ :=
    sendContainerMsg_eq hlib config mode
  rw [teeSendContainerMsg, hsend]
  cases hportal : calls.getPortal with
  | false => simp
  | true =>
      have hsent : (if true = true ∧ 0 ≤ (config.nsid : Int) then [(config.nsid : Int)] else []) =
          [(config.nsid : Int)] := if_pos ⟨rfl, Int.natCast_nonneg _⟩
      rw [if_neg (by decide), hsent]
      dsimp only
      split_ifs <;> rfl

end Sent

theorem doCleanGroupId_respects_iff (args : TeleportArgs) :
    Respects args.grpId InInt (fun calls => doCleanGroupId calls args) ↔ GroupIdWhole args.grpId := by
  have hmax : longMax = 2 ^ 63 - 1 := rfl
  have hmin : longMin = -2 ^ 63 := rfl
  refine respects_iff (fun n hn => ?_) (fun n hn => i32_of_range hn.1 hn.2) ?_ ?_ ?_ ?_
  · obtain ⟨hlow, hhigh⟩ := hn
    constructor <;> omega
  · intro hrefused calls
    have hret : (parseStr args.grpId (-1)).ret = -eInval := parseStr_refused hrefused
    rw [doCleanGroupId, if_pos (Or.inl (by rw [hret]; decide)), hret]
    exact ⟨by decide, rfl⟩
  · intro n rest hbegins hn hrest
    refine ⟨⟨true, 0, 0, 0⟩, ?_⟩
    rw [doCleanGroupId, parseStr_of_begins hbegins hn, if_pos (Or.inr hrest)]
  · intro n calls hbegins hn
    rw [doCleanGroupId, parseStr_of_begins hbegins hn, if_neg (by simp)]
    exact teeClean_sent (i32 n)
  · intro n calls hbegins hn hneg
    rw [doCleanGroupId, parseStr_of_begins hbegins hn, if_neg (by simp), teeClean, if_pos hneg]
    decide

/-- A namespace id is converted to `uint32_t`, so that something is sent for every integer. -/
theorem respects_ns_iff {s : List Char} {run : PortalCalls → Int32 × List PortalRequest}
    (hrefused : (∀ n rest, Begins s n rest → ¬ InLong n) →
      ∀ calls, (run calls).1 ≠ 0 ∧ (run calls).2 = [])
    (htrailing : ∀ n rest, Begins s n rest → InLong n → rest ≠ [] → ∃ calls, (run calls).1 = 0)
    (hwhole : ∀ n calls, Begins s n [] → InLong n → (run calls).2.map PortalRequest.id =
      if calls.getPortal = true ∧ 0 ≤ (toU32 n : Int) then [(toU32 n : Int)] else []) :
    Respects s InU32 run ↔ NsIdWhole s := by
  have hmax : longMax = 2 ^ 63 - 1 := rfl
  have hmin : longMin = -2 ^ 63 := rfl
  have hnonneg (n : Int) : ¬ (toU32 n : Int) < 0 := not_lt.mpr (Int.natCast_nonneg _)
  rw [respects_iff (fun n hn => ?_) (fun n hn => ?_) hrefused htrailing hwhole
    fun n calls _ _ hneg => absurd hneg (hnonneg n), NsIdWhole]
  · refine forall_congr' fun n => forall_congr' fun rest => imp_congr_right fun _ => ?_
    exact imp_congr_right fun _ => or_iff_left fun h => hnonneg n h.2
  · obtain ⟨hlow, hhigh⟩ := hn
    constructor <;> omega
  · obtain ⟨hlow, hhigh⟩ := hn
    show ((n % 2 ^ 32).toNat : Int) = n
    omega

theorem doRconfig_respects_iff {strings : Securec.Strings} (hlib : strings.JoinsWhole)
    (args : TeleportArgs) :
    Respects args.nsId InU32 (fun calls => doRconfig strings calls args) ↔ NsIdWhole args.nsId := by
  refine respects_ns_iff ?_ ?_ ?_
  · intro hrefused calls
    have hret : (parseStr args.nsId 0).ret = -eInval := parseStr_refused hrefused
    rw [doRconfig, if_pos (Or.inl hret), hret]
    exact ⟨by decide, rfl⟩
  · intro n rest hbegins hn hrest
    refine ⟨⟨true, 0, 0, 0⟩, ?_⟩
    rw [doRconfig, parseStr_of_begins hbegins hn, if_pos (Or.inr hrest)]
  · intro n calls hbegins hn
    rw [doRconfig, parseStr_of_begins hbegins hn, if_neg (by simp; decide)]
    exact teeRconfig_sent hlib args n

theorem doContainer_respects_iff {lib : Securec} (hlib : lib.CopiesWithinMax) {args : TeleportArgs}
    (hcontainer : args.containerMsg.length = containerIdLen ∧ args.containerMsg.all isxdigit = true) :
    Respects args.nsId InU32 (fun calls => doContainer lib calls args) ↔ NsIdWhole args.nsId := by
  have hid : checkContainerId args.containerMsg = 0 := by
    rw [checkContainerId, if_neg (not_not.mpr hcontainer.1), if_pos hcontainer.2]
  refine respects_ns_iff ?_ ?_ ?_
  · intro hrefused calls
    have hret : (parseStr args.nsId 0).ret = -eInval := parseStr_refused hrefused
    have hchecked : checkParams lib args {} = (-eInval, {}) := by
      rw [checkParams, if_pos (Or.inl hret), hret]
    have hne : (-eInval : Int32) ≠ 0 := by decide
    rw [doContainer, hchecked]
    dsimp only
    rw [if_pos hne]
    exact ⟨hne, rfl⟩
  · intro n rest hbegins hn hrest
    refine ⟨⟨true, 0, 0, 0⟩, ?_⟩
    have hchecked : checkParams lib args {} = (0, {}) := by
      rw [checkParams, parseStr_of_begins hbegins hn, if_pos (Or.inr hrest)]
    obtain ⟨containerId, hsend⟩ : ∃ containerId, sendContainerMsg lib ⟨true, 0, 0, 0⟩ {} containerOpen =
      _ := sendContainerMsg_eq hlib {} containerOpen
    rw [doContainer, hchecked]
    simp [teeSendContainerMsg, hsend]
  · intro n calls hbegins hn
    have hchecked : ∃ containerid, checkParams lib args {} = (0, ⟨toU32 n, containerid⟩) := by
      rw [checkParams, parseStr_of_begins hbegins hn, if_neg (by simp; decide), hid,
        if_neg (not_not.mpr rfl), hlib.copies _ _ _ _ (by decide) (by decide) le_rfl]
      exact ⟨_, rfl⟩
    obtain ⟨containerid, hchecked⟩ := hchecked
    rw [doContainer, hchecked]
    exact teeSendContainerMsg_sent hlib _ containerOpen

/-- The ids are respected exactly when a string that begins with an integer is one as a whole and fits the
type, or is refused later as a negative group id. -/
theorem idsRespected_iff {lib : Securec} {strings : Securec.Strings} (hlib : lib.CopiesWithinMax)
    (hstrings : strings.JoinsWhole) (args : TeleportArgs)
    (hcontainer : args.containerMsg.length = containerIdLen ∧ args.containerMsg.all isxdigit = true) :
    IdsRespected lib strings args ↔ GroupIdWhole args.grpId ∧ NsIdWhole args.nsId := by
  rw [IdsRespected, doCleanGroupId_respects_iff, doRconfig_respects_iff hstrings,
    doContainer_respects_iff hlib hcontainer, and_self]

/-- The group id 7 and the namespace id 12. -/
theorem idsRespected_seven : IdsRespected Securec.reference Securec.Strings.reference
    { grpId := ['7'], nsId := ['1', '2'], containerMsg := List.replicate 64 97 } := by
  refine (idsRespected_iff Securec.reference_copiesWithinMax Securec.Strings.reference_joinsWhole _
    ⟨rfl, by decide⟩).mpr ⟨fun n rest hbegins hn => Or.inl ?_, fun n rest hbegins hn => ?_⟩
  · have hseven : Denotes ['7'] 7 :=
      ⟨['7'], by decide, List.forall_mem_singleton.mpr rfl, Or.inl ⟨Or.inl rfl, rfl⟩⟩
    obtain ⟨rfl, -⟩ := begins_of_denotes hseven ⟨by decide, by decide⟩ hbegins hn
    exact ⟨hseven, by decide, by decide⟩
  · have htwelve : Denotes ['1', '2'] 12 :=
      ⟨['1', '2'], by decide, List.forall_mem_cons.mpr ⟨rfl, List.forall_mem_singleton.mpr rfl⟩,
        Or.inl ⟨Or.inl rfl, rfl⟩⟩
    obtain ⟨rfl, -⟩ := begins_of_denotes htwelve ⟨by decide, by decide⟩ hbegins hn
    exact ⟨htwelve, by decide, by decide⟩

/-- Behind the 7 of `7x` comes something else. Nothing is sent for the group or the resources, and both
commands report success; a container is opened in the namespace 0. -/
theorem idsRespected_not :
    ¬ Respects ['7', 'x'] InInt (fun calls => doCleanGroupId calls { grpId := ['7', 'x'] }) ∧
      ¬ Respects ['7', 'x'] InU32
        (fun calls => doRconfig Securec.Strings.reference calls { nsId := ['7', 'x'] }) ∧
      ¬ Respects ['7', 'x'] InU32 (fun calls => doContainer Securec.reference calls
        { nsId := ['7', 'x'], containerMsg := List.replicate 64 97 }) := by
  have hlong : InLong 7 := ⟨by decide, by decide⟩
  have hseven : Denotes ['7'] 7 :=
    ⟨['7'], by decide, List.forall_mem_singleton.mpr rfl, Or.inl ⟨Or.inl rfl, rfl⟩⟩
  have hbegins : Begins ['7', 'x'] 7 ['x'] := ⟨[], ['7'], rfl, by simp, hseven, by simp⟩
  have hnot : ¬ Denotes ['7', 'x'] 7 := fun hdenotes =>
    absurd (begins_of_denotes hdenotes hlong hbegins hlong).2 (by decide)
  have hns : ¬ NsIdWhole ['7', 'x'] := fun h => hnot (h 7 ['x'] hbegins hlong).1
  refine ⟨?_, ?_, ?_⟩
  · rw [doCleanGroupId_respects_iff { grpId := ['7', 'x'] }]
    intro h
    obtain ⟨hdenotes, -⟩ | ⟨hrest, -⟩ := h 7 ['x'] hbegins hlong
    · exact hnot hdenotes
    · cases hrest
  · rw [doRconfig_respects_iff Securec.Strings.reference_joinsWhole { nsId := ['7', 'x'] }]
    exact hns
  · let args : TeleportArgs := { nsId := ['7', 'x'], containerMsg := List.replicate 64 97 }
    have hcontainer : args.containerMsg.length = containerIdLen ∧
        args.containerMsg.all isxdigit = true := ⟨rfl, by decide⟩
    intro h
    exact hns ((doContainer_respects_iff Securec.reference_copiesWithinMax hcontainer).mp h)

end ITrustee.TeeTeleport
