import Mathlib.Tactic
import ITrustee.Foundation.RequestLoop
import ITrustee.Libteec.LoadSecFile

/-!
# The agent that loads trusted applications

`secfile_load_agent.c`: the secure world asks for the image of an application or a library, the agent
names a file in the directory of the applications, opens what that name leads to and hands it to the
driver. The name of a library comes from the request, so the agent looks at the real path before it
opens anything.

The file system may change between the two; a request is given its state at each of them. What the
driver has been handed is the memory of the agent.
-/

namespace ITrustee.Teecd.SecLoad

open Libteec

def dynamicTaPath : List Char := "/var/itrustee/ta/".toList
def secfileLoadAgentId : UInt32 := 0x4c4f4144
def maxPathLen : Nat := 256
def pathMax : Nat := 4096
def maxSecFileNameLen : Nat := 32

inductive SecAgentCmd where
  | loadTaSec | loadServiceSec | loadLibSec
  | other (cmd : UInt32)
  deriving DecidableEq

/-- The members of the union start with `uuid`; `libName` is that of `LibSec`. -/
structure SecAgentControlType where
  cmd : SecAgentCmd
  magic : UInt32 := 0
  ret : Int32 := 0
  error : Int32 := 0
  uuid : TeecUuid
  libName : Vector Char maxSecFileNameLen
  deriving DecidableEq

/-- What the calls made for a request return. -/
structure LoadCalls where
  /-- The files when the real path is looked up, and when the file is opened. -/
  atRealpath : FileStore UInt8
  atOpen : FileStore UInt8
  realpath : Bool := true
  fopen : Bool := true
  load : LoadSecCalls
  errno : Int32 := 0

/-- A file that was handed to the driver. -/
structure Loaded where
  /-- The name the agent made up, and the path it opened. -/
  filePath : List Char
  realPath : List Char
  ioctl : SecLoadIoctl

/-! ### Names of files -/

def hexDigit (n : Nat) : Char := Char.ofNat (if n < 10 then 48 + n else 87 + n)

/-- A number below `16 ^ width` printed with `%0<width>x`. -/
def hex : Nat → Nat → List Char
  | 0, _ => []
  | width + 1, n => hex width (n / 16) ++ [hexDigit (n % 16)]

/-- `%08x-%04x-%04x-%02x%02x-%02x%02x%02x%02x%02x%02x` -/
def uuidText (uuid : TeecUuid) : List Char :=
  let byte (i : Fin 8) := hex 2 (uuid.clockSeqAndNode i).toNat
  hex 8 uuid.timeLow.toNat ++ "-".toList ++ hex 4 uuid.timeMid.toNat ++ "-".toList ++
    hex 4 uuid.timeHiAndVersion.toNat ++ "-".toList ++ byte 0 ++ byte 1 ++ "-".toList ++
    byte 2 ++ byte 3 ++ byte 4 ++ byte 5 ++ byte 6 ++ byte 7

/-- `snprintf_s` into `fname`. -/
def packFname (text : List Char) : Option (List Char) :=
  if text.length < maxPathLen then some text else none

/-- The string in an array that holds a terminator. -/
def libString (libName : Vector Char maxSecFileNameLen) : List Char :=
  libName.toList.takeWhile (· ≠ '\x00')

def isTaLib (uuid : TeecUuid) : Bool :=
  uuid.timeLow != 0 || uuid.timeMid != 0 || uuid.timeHiAndVersion != 0 ||
    (List.finRange 8).any fun i => uuid.clockSeqAndNode i != 0

/-- The name that `LoadTa` makes up. -/
def taName (uuid : TeecUuid) : List Char :=
  dynamicTaPath ++ "/".toList ++ uuidText uuid ++ ".sec".toList

/-- The name that `LoadLib` makes up. -/
def libPath (uuid : TeecUuid) (libName : List Char) : List Char :=
  if isTaLib uuid then dynamicTaPath ++ "/".toList ++ uuidText uuid ++ libName ++ ".sec".toList
  else dynamicTaPath ++ "/".toList ++ libName ++ ".sec".toList

/-! ### Requests -/

section Model

variable (tzFd : Int32) (calls : LoadCalls)

/-- `SecFileLoadWork`: what it returns, and what the driver is handed. -/
def secFileLoadWork (filePath : List Char) (fileType : SecFileType) (uuid : Option TeecUuid) :
    Int32 × Option Loaded :=
  if tzFd < 0 then (-1, none)
  else
    match if calls.realpath then calls.atRealpath.realpath [] filePath pathMax else none with
    | none => (-1, none)
    | some realPath =>
        if checkRealPathSuffix realPath = false then (-1, none)
        else if dynamicTaPath.isPrefixOf realPath = false then (-1, none)
        else
          match if calls.fopen then calls.atOpen.content [] realPath else none with
          | none => (-1, none)
          | some content =>
              let (ret, ioctl) := loadSecFile calls.load tzFd ⟨content, 0⟩ fileType uuid
              (ret, ioctl.map fun ioctl => { filePath, realPath, ioctl })

def loadLib (c : SecAgentControlType) : SecAgentControlType × Option Loaded :=
  let libName := libString c.libName
  if maxSecFileNameLen ≤ libName.length then ({ c with ret := -1 }, none)
  else
    match packFname (libPath c.uuid libName) with
    | none => ({ c with ret := -1 }, none)
    | some fname =>
        let (ret, loaded) := secFileLoadWork tzFd calls fname .loadLib none
        if ret ≠ 0 then ({ c with ret := -1, error := calls.errno }, loaded)
        else ({ c with ret := 0 }, loaded)

def loadTa (c : SecAgentControlType) : SecAgentControlType × Option Loaded :=
  match packFname (taName c.uuid) with
  | none => ({ c with ret := -1 }, none)
  | some fname =>
      let (ret, loaded) := secFileLoadWork tzFd calls fname .loadTa (some c.uuid)
      if ret ≠ 0 then ({ c with ret := ret, error := calls.errno }, loaded)
      else ({ c with ret := 0 }, loaded)

def secLoadAgentWork (c : SecAgentControlType) : SecAgentControlType × Option Loaded :=
  match c.cmd with
  | .loadLibSec => loadLib tzFd calls c
  | .loadTaSec => loadTa tzFd calls c
  | .loadServiceSec | .other _ => ({ c with ret := -1 }, none)

end Model

/-- One turn of the loop of `SecfileLoadAgentThread`, whose memory is what the driver was handed. -/
def threadWork (tzFd : Int32) (calls : LoadCalls) (handed : List Loaded) (c : SecAgentControlType) :
    Option (List Loaded × SecAgentControlType) :=
  let (c, loaded) := secLoadAgentWork tzFd calls c
  some (handed ++ loaded.toList, { c with magic := secfileLoadAgentId })

/-- What the driver is handed for a request. -/
def handsOver (tzFd : Int32) (h : LoadCalls × SecAgentControlType) : Option Loaded :=
  (secLoadAgentWork tzFd h.1 h.2).2

/-! ### Paths below the directory -/

/-- The places on the way to the directory of the applications. -/
def taDirectory : List (List Char) := ["var".toList, "itrustee".toList, "ta".toList]

/-- The names lead to a place below the directory of the applications, and `realPath` is the one way to
write that place, with the suffix. -/
structure Below (names : List (List Char)) (realPath : List Char) : Prop where
  ne_nil : names ≠ []
  proper : ∀ name ∈ names, LexPath.isProper name = true ∧ '/' ∉ name
  written : realPath = FileTree.render (taDirectory ++ names)
  suffix : ".sec".toList <:+ realPath

/-- Only proper names lead to a place of a tree. -/
theorem proper_of_kind {t : FileTree} {before after : List (List Char)}
    (h : t.kind (before ++ after) ≠ none) (name : List Char) (hname : name ∈ after) :
    LexPath.isProper name = true ∧ '/' ∉ name := by
  obtain ⟨left, right, rfl⟩ := List.append_of_mem hname
  have hassoc : before ++ (left ++ name :: right) = (before ++ left ++ [name]) ++ right := by simp
  rw [hassoc] at h
  refine t.proper (before ++ left) name ?_
  by_cases hright : right = []
  · rw [hright, List.append_nil] at h
    exact h
  · have hdir := FileTree.kind_of_above h hright
    exact fun hnone => by rw [FileTree.kind, hnone] at hdir; cases hdir

theorem components_dynamicTaPath (rest : List Char) :
    LexPath.components (dynamicTaPath ++ rest) = [] :: (taDirectory ++ LexPath.components rest) := by
  have hpath : dynamicTaPath ++ rest = "/var/itrustee/ta".toList ++ '/' :: rest := by
    rw [show dynamicTaPath = "/var/itrustee/ta".toList ++ ['/'] by decide, List.append_assoc]
    rfl
  rw [hpath, LexPath.components_append_slash]
  rfl

/-- The name and the path lead to one place of these files, below the directory of the applications. -/
def Contained (fs : FileStore UInt8) (filePath realPath : List Char) : Prop :=
  ∃ names, Below names realPath ∧
    fs.tree.lookup true false [] filePath = some (taDirectory ++ names) ∧
      fs.tree.lookup true false [] realPath = some (taDirectory ++ names)

/-- A real path that passes both checks. -/
theorem realpath_contained {fs : FileStore UInt8} {filePath realPath : List Char}
    (h : fs.realpath [] filePath pathMax = some realPath)
    (hsuffix : checkRealPathSuffix realPath = true)
    (hbelow : dynamicTaPath.isPrefixOf realPath = true) : Contained fs filePath realPath := by
  have hsame := FileStore.realpath_lookup h
  obtain ⟨loc, hloc, h⟩ := Option.bind_eq_some_iff.mp h
  split_ifs at h
  obtain rfl := Option.some.inj h
  obtain ⟨k, hkind, -⟩ := FileTree.lookup_ends hloc
  have hplace : fs.tree.kind loc ≠ none := by
    rw [hkind]
    exact Option.some_ne_none k
  obtain ⟨rest, hrest⟩ := List.isPrefixOf_iff_prefix.mp hbelow
  have hne : loc ≠ [] := by
    rintro rfl
    have hlength := (List.isPrefixOf_iff_prefix.mp hbelow).length_le
    exact absurd hlength (by decide)
  have hcomponents : LexPath.components (FileTree.render loc) = [] :: loc := by
    cases loc with
    | nil => exact absurd rfl hne
    | cons x loc =>
        exact (FileTree.components_flatMap (FileTree.slash_not_mem_of_kind hplace)).resolve_right hne
  rw [← hrest, components_dynamicTaPath] at hcomponents
  obtain ⟨-, rfl⟩ := List.cons.inj hcomponents
  obtain ⟨loc, hname, hreal⟩ := hsame
  obtain rfl := Option.some.inj (hname.symm.trans hloc)
  exact ⟨LexPath.components rest,
    ⟨LexPath.components_ne_nil rest, proper_of_kind hplace, rfl, checkRealPathSuffix_iff.mp hsuffix⟩,
    hloc, hreal⟩

/-- What is found there while the files are the same. -/
theorem Contained.content {fs : FileStore UInt8} {filePath realPath : List Char} {bytes : List UInt8}
    (h : Contained fs filePath realPath) (hcontent : fs.content [] realPath = some bytes) :
    ∃ names i, Below names realPath ∧ fs.tree.kind (taDirectory ++ names) = some (.file i) ∧
      fs.data i = bytes := by
  obtain ⟨names, hbelow, -, hreal⟩ := h
  obtain ⟨i, hi, hbytes⟩ := Option.map_eq_some_iff.mp hcontent
  obtain ⟨loc, hloc, hkind⟩ := FileStore.inodeAt_some.mp hi
  obtain rfl := Option.some.inj (hreal.symm.trans hloc)
  exact ⟨names, i, hbelow, hkind, hbytes⟩

/-! ### One request -/

/-- What is known of a file that is handed to the driver. -/
structure Loads (calls : LoadCalls) (filePath : List Char) (fileType : SecFileType)
    (uuid : Option TeecUuid) (l : Loaded) : Prop where
  named : l.filePath = filePath
  /-- So it was when the real path was looked up. -/
  contained : Contained calls.atRealpath filePath l.realPath
  content : calls.atOpen.content [] l.realPath = some l.ioctl.image
  size : 0 < l.ioctl.image.length ∧ l.ioctl.image.length ≤ maxBufferLen
  ofType : l.ioctl.fileType = fileType
  ofUuid : l.ioctl.uuid = uuid.getD ⟨0, 0, 0, fun _ => 0⟩

variable {tzFd : Int32} {calls : LoadCalls} {fileType : SecFileType} {uuid : Option TeecUuid}
  {filePath : List Char}

theorem secFileLoadWork_some {l : Loaded}
    (h : (secFileLoadWork tzFd calls filePath fileType uuid).2 = some l) :
    Loads calls filePath fileType uuid l ∧
      (secFileLoadWork tzFd calls filePath fileType uuid).1 = calls.load.ioctl := by
  rw [secFileLoadWork] at h ⊢
  by_cases htz : tzFd < 0
  · rw [if_pos htz] at h
    cases h
  rw [if_neg htz] at h ⊢
  cases hreal : if calls.realpath then calls.atRealpath.realpath [] filePath pathMax else none with
  | none =>
      rw [hreal] at h
      cases h
  | some realPath =>
      rw [hreal] at h
      have hrealpath : calls.atRealpath.realpath [] filePath pathMax = some realPath := by
        split_ifs at hreal
        exact hreal
      dsimp only at h ⊢
      by_cases hsuffix : checkRealPathSuffix realPath = false
      · rw [if_pos hsuffix] at h
        cases h
      rw [if_neg hsuffix] at h ⊢
      by_cases hprefix : dynamicTaPath.isPrefixOf realPath = false
      · rw [if_pos hprefix] at h
        cases h
      rw [if_neg hprefix] at h ⊢
      cases hopen : if calls.fopen then calls.atOpen.content [] realPath else none with
      | none =>
          rw [hopen] at h
          cases h
      | some content =>
          rw [hopen] at h
          have hcontent : calls.atOpen.content [] realPath = some content := by
            split_ifs at hopen
            exact hopen
          dsimp only at h ⊢
          obtain ⟨ioctl, hioctl, rfl⟩ := Option.map_eq_some_iff.mp h
          obtain ⟨rfl, hpos, hmax, hret⟩ := loadSecFile_some hioctl
          exact ⟨{
            named := rfl
            contained := realpath_contained hrealpath (Bool.eq_true_of_not_eq_false hsuffix)
              (Bool.eq_true_of_not_eq_false hprefix)
            content := hcontent
            size := ⟨hpos, hmax⟩
            ofType := rfl
            ofUuid := rfl }, hret⟩

theorem secFileLoadWork_none (h : (secFileLoadWork tzFd calls filePath fileType uuid).2 = none) :
    (secFileLoadWork tzFd calls filePath fileType uuid).1 = -1 := by
  rw [secFileLoadWork] at h ⊢
  by_cases htz : tzFd < 0
  · rw [if_pos htz]
  rw [if_neg htz] at h ⊢
  cases hreal : if calls.realpath then calls.atRealpath.realpath [] filePath pathMax else none with
  | none => rfl
  | some realPath =>
      rw [hreal] at h
      dsimp only at h ⊢
      by_cases hsuffix : checkRealPathSuffix realPath = false
      · rw [if_pos hsuffix]
      rw [if_neg hsuffix] at h ⊢
      by_cases hprefix : dynamicTaPath.isPrefixOf realPath = false
      · rw [if_pos hprefix]
      rw [if_neg hprefix] at h ⊢
      cases hopen : if calls.fopen then calls.atOpen.content [] realPath else none with
      | none => rfl
      | some content =>
          rw [hopen] at h
          exact loadSecFile_none (Option.map_eq_none_iff.mp h)

/-- 0 is returned exactly when the driver got a file and accepted it. -/
theorem secFileLoadWork_ret_iff : (secFileLoadWork tzFd calls filePath fileType uuid).1 = 0 ↔
    (secFileLoadWork tzFd calls filePath fileType uuid).2.isSome ∧ calls.load.ioctl = 0 := by
  cases hloaded : (secFileLoadWork tzFd calls filePath fileType uuid).2 with
  | none =>
      rw [secFileLoadWork_none hloaded]
      simp
  | some l =>
      rw [(secFileLoadWork_some hloaded).2]
      simp

theorem packFname_some {text fname : List Char} (h : packFname text = some fname) : fname = text := by
  rw [packFname] at h
  split_ifs at h
  exact (Option.some.inj h).symm

/-- What a function makes of a request: whom it names as the file of `P`, if any, and that it answers
0 exactly when the driver took one. -/
structure Handles (P : Loaded → Prop) (calls : LoadCalls) (c : SecAgentControlType)
    (r : SecAgentControlType × Option Loaded) : Prop where
  ret_iff : r.1.ret = 0 ↔ r.2.isSome ∧ calls.load.ioctl = 0
  loads : ∀ l, r.2 = some l → P l
  kept : r.1.cmd = c.cmd ∧ r.1.uuid = c.uuid ∧ r.1.libName = c.libName

variable {c : SecAgentControlType} {P : Loaded → Prop}

theorem handles_refusal : Handles P calls c ({ c with ret := -1 }, none) where
  ret_iff := by simp
  loads _ h := by cases h
  kept := ⟨rfl, rfl, rfl⟩

/-- Both functions answer 0 where the work returns 0, and something else where it does not. -/
theorem handles_work (hP : ∀ l, Loads calls filePath fileType uuid l → P l) {answer : SecAgentControlType}
    (hret : answer.ret = 0 ↔ (secFileLoadWork tzFd calls filePath fileType uuid).1 = 0)
    (hkept : answer.cmd = c.cmd ∧ answer.uuid = c.uuid ∧ answer.libName = c.libName) :
    Handles P calls c (answer, (secFileLoadWork tzFd calls filePath fileType uuid).2) where
  ret_iff := hret.trans secFileLoadWork_ret_iff
  loads l h := hP l (secFileLoadWork_some h).1
  kept := hkept

theorem loadTa_handles :
    Handles (Loads calls (taName c.uuid) .loadTa (some c.uuid)) calls c (loadTa tzFd calls c) := by
  rw [loadTa]
  cases hfname : packFname (taName c.uuid) with
  | none => exact handles_refusal
  | some fname =>
      obtain rfl := packFname_some hfname
      dsimp only
      by_cases hret : (secFileLoadWork tzFd calls (taName c.uuid) .loadTa (some c.uuid)).1 = 0
      · rw [if_neg (not_not.mpr hret)]
        exact handles_work (fun _ h => h) (iff_of_true rfl hret) ⟨rfl, rfl, rfl⟩
      · rw [if_pos hret]
        exact handles_work (fun _ h => h) Iff.rfl ⟨rfl, rfl, rfl⟩

theorem loadLib_handles :
    Handles (Loads calls (libPath c.uuid (libString c.libName)) .loadLib none) calls c
      (loadLib tzFd calls c) := by
  rw [loadLib]
  dsimp only
  by_cases hlong : maxSecFileNameLen ≤ (libString c.libName).length
  · rw [if_pos hlong]
    exact handles_refusal
  rw [if_neg hlong]
  cases hfname : packFname (libPath c.uuid (libString c.libName)) with
  | none => exact handles_refusal
  | some fname =>
      obtain rfl := packFname_some hfname
      dsimp only
      by_cases hret : (secFileLoadWork tzFd calls (libPath c.uuid (libString c.libName)) .loadLib
          none).1 = 0
      · rw [if_neg (not_not.mpr hret)]
        exact handles_work (fun _ h => h) (iff_of_true rfl hret) ⟨rfl, rfl, rfl⟩
      · rw [if_pos hret]
        exact handles_work (fun _ h => h) (iff_of_false (show (-1 : Int32) ≠ 0 by decide) hret)
          ⟨rfl, rfl, rfl⟩

/-- The file that a request asks for, by its command. -/
def Requested (calls : LoadCalls) (c : SecAgentControlType) (l : Loaded) : Prop :=
  match c.cmd with
  | .loadTaSec => Loads calls (taName c.uuid) .loadTa (some c.uuid) l
  | .loadLibSec => Loads calls (libPath c.uuid (libString c.libName)) .loadLib none l
  | .loadServiceSec | .other _ => False

theorem secLoadAgentWork_handles :
    Handles (Requested calls c) calls c (secLoadAgentWork tzFd calls c) := by
  have hrefusal (h : secLoadAgentWork tzFd calls c = ({ c with ret := -1 }, none)) :
      Handles (Requested calls c) calls c (secLoadAgentWork tzFd calls c) := h ▸ handles_refusal
  have hrequested : Requested calls c = fun l => Requested calls c l := rfl
  simp only [Requested] at hrequested
  cases hcmd : c.cmd with
  | loadTaSec =>
      rw [hcmd] at hrequested
      rw [hrequested, secLoadAgentWork.eq_def, hcmd]
      exact loadTa_handles
  | loadLibSec =>
      rw [hcmd] at hrequested
      rw [hrequested, secLoadAgentWork.eq_def, hcmd]
      exact loadLib_handles
  | loadServiceSec => exact hrefusal (by rw [secLoadAgentWork.eq_def, hcmd])
  | other cmd => exact hrefusal (by rw [secLoadAgentWork.eq_def, hcmd])

/-! ### The thread -/

/-- What an answer says about its request. -/
structure Answers (tzFd : Int32) (h : LoadCalls × SecAgentControlType) (answer : SecAgentControlType) :
    Prop where
  magic : answer.magic = secfileLoadAgentId
  ret_iff : answer.ret = 0 ↔ (handsOver tzFd h).isSome ∧ h.1.load.ioctl = 0
  kept : answer.cmd = h.2.cmd ∧ answer.uuid = h.2.uuid ∧ answer.libName = h.2.libName

theorem threadWork_answers {handed handed' : List Loaded} {answer : SecAgentControlType}
    (h : threadWork tzFd calls handed c = some (handed', answer)) :
    Answers tzFd (calls, c) answer := by
  obtain ⟨-, rfl⟩ := Prod.mk.inj (Option.some.inj h)
  have hwork := @secLoadAgentWork_handles tzFd calls c
  exact ⟨rfl, hwork.ret_iff, hwork.kept⟩

open RequestLoop

theorem serveAll_handed {hs : List (LoadCalls × SecAgentControlType)} {handed handed' : List Loaded}
    {outs : List SecAgentControlType}
    (h : serveAll (threadWork tzFd) handed hs = some (handed', outs)) :
    handed' = handed ++ hs.filterMap (handsOver tzFd) := by
  induction hs generalizing handed outs with
  | nil =>
      cases h
      rw [List.filterMap_nil, List.append_nil]
  | cons head rest ih =>
      obtain ⟨calls, c⟩ := head
      obtain ⟨⟨m, a⟩, hfirst, h⟩ := Option.bind_eq_some_iff.mp h
      obtain ⟨⟨m', outs'⟩, hrest, h⟩ := Option.map_eq_some_iff.mp h
      obtain ⟨rfl, rfl⟩ := Prod.mk.inj h
      obtain ⟨rfl, -⟩ := Prod.mk.inj (Option.some.inj hfirst)
      rw [ih hrest, List.append_assoc, List.filterMap_cons]
      show handed ++ ((handsOver tzFd (calls, c)).toList ++ _) = _
      cases handsOver tzFd (calls, c) with
      | none => rfl
      | some l => rfl

/-- Where the file of a request was when its path was resolved, and what was read of it. -/
structure FileAt (calls : LoadCalls) (l : Loaded) : Prop where
  contained : Contained calls.atRealpath l.filePath l.realPath
  opened : calls.atOpen.content [] l.realPath = some l.ioctl.image
  /-- The path is opened later: what is handed over is of the directory where nothing changed until
  then. -/
  unchanged : calls.atOpen = calls.atRealpath → ∃ names i, Below names l.realPath ∧
    calls.atOpen.tree.kind (taDirectory ++ names) = some (.file i) ∧ calls.atOpen.data i = l.ioctl.image

/-- A run of `SecfileLoadAgentThread` from its start. -/
structure LoadsContained (tzFd : Int32) (s : State (List Loaded) SecAgentControlType LoadCalls) :
    Prop where
  /-- The requests are answered in their order, but for at most the last one. -/
  answered : ∃ outs, InOrder s outs ∧ List.Forall₂ (Answers tzFd) s.handled outs
  handed : s.memory = s.handled.filterMap (handsOver tzFd)
  requested : ∀ h ∈ s.handled, ∀ l, handsOver tzFd h = some l → Requested h.1 h.2 l
  fileAt : ∀ h ∈ s.handled, ∀ l, handsOver tzFd h = some l → FileAt h.1 l

theorem Loads.fileAt {l : Loaded} (h : Loads calls filePath fileType uuid l) : FileAt calls l := by
  have hcontained : Contained calls.atRealpath l.filePath l.realPath := by
    rw [h.named]
    exact h.contained
  exact ⟨hcontained, h.content, fun hsame => by
    rw [hsame]
    exact hcontained.content (hsame ▸ h.content)⟩

theorem Requested.fileAt {l : Loaded} (h : Requested calls c l) : FileAt calls l := by
  unfold Requested at h
  cases hcmd : c.cmd <;> rw [hcmd] at h
  case loadTaSec => exact h.fileAt
  case loadLibSec => exact h.fileAt
  case loadServiceSec => exact h.elim
  case other => exact h.elim

/-- Whatever is asked for and whatever the calls return: the driver is handed files only whose real path
was below the directory of the applications when it was looked up. -/
theorem secfileLoadAgent_contained (tzFd : Int32) (block₀ : SecAgentControlType)
    (actions : List (Action SecAgentControlType LoadCalls))
    (s : State (List Loaded) SecAgentControlType LoadCalls)
    (hexec : Machine.exec (step (threadWork tzFd)) { memory := [], block := block₀ } actions =
      some s) : LoadsContained tzFd s := by
  obtain ⟨outs, hserved, horder⟩ := (run_sequential hexec).inOrder
  obtain ⟨-, hanswers⟩ := serveAll_related (I := fun _ => True)
    (fun _ _ _ _ _ _ hwork => ⟨trivial, threadWork_answers hwork⟩) trivial hserved
  have hhanded := serveAll_handed hserved
  have hrequested : ∀ h ∈ s.handled, ∀ l, handsOver tzFd h = some l → Requested h.1 h.2 l :=
    fun _ _ l hl => secLoadAgentWork_handles.loads l hl
  exact ⟨⟨outs, horder, hanswers⟩, hhanded, hrequested, fun h hmem l hl => (hrequested h hmem l hl).fileAt⟩

theorem dir_file (fs : FileStore UInt8) (i : Nat) (h : FileKind.dir = .file i) : i < fs.used := by
  cases h

/-- A library below the directory of the applications, and a file elsewhere with the suffix. -/
def files : FileStore UInt8 :=
  let store :=
    (FileStore.empty.addNode [] "var".toList .dir (dir_file FileStore.empty)).bind fun fs =>
      (fs.addNode ["var".toList] "itrustee".toList .dir (dir_file fs)).bind fun fs =>
        (fs.addNode ["var".toList, "itrustee".toList] "ta".toList .dir (dir_file fs)).bind fun fs =>
          (fs.addFile taDirectory "lib.sec".toList [7]).bind fun fs =>
            fs.addFile [] "lib.sec".toList [8]
  store.getD FileStore.empty

/-- A request for a library without an application, with that name. -/
def libRequest (name : List Char) (h : (name ++ List.replicate (32 - name.length) '\x00').length = 32) :
    SecAgentControlType where
  cmd := .loadLibSec
  uuid := ⟨0, 0, 0, fun _ => 0⟩
  libName := ⟨(name ++ List.replicate (32 - name.length) '\x00').toArray, h⟩

/-- The library and, by a name that steps up, the file elsewhere. -/
def libActions : List (Action SecAgentControlType LoadCalls) :=
  let calls : LoadCalls := { atRealpath := files, atOpen := files, load := { readSize := 8 } }
  [.wake (libRequest "lib".toList rfl), .work calls, .respond,
    .wake (libRequest "../../../lib".toList rfl), .work calls, .respond, .waitFails]

def libRun : Option (State (List Loaded) SecAgentControlType LoadCalls) :=
  Machine.exec (step (threadWork 3)) { memory := [], block := libRequest [] rfl } libActions

theorem libRun_isSome : libRun.isSome = true := by decide +kernel

/-- The library is handed over, and the other file is not. -/
theorem secfileLoadAgent_contained_lib :
    LoadsContained 3 (libRun.get libRun_isSome) ∧
      (libRun.get libRun_isSome).memory.map (fun l => l.ioctl.image) = [[7]] ∧
        (libRun.get libRun_isSome).answers.map SecAgentControlType.ret = [0, -1] :=
  ⟨secfileLoadAgent_contained 3 _ libActions _ (Option.some_get libRun_isSome).symm, by decide +kernel,
    by decide +kernel⟩

end ITrustee.Teecd.SecLoad
