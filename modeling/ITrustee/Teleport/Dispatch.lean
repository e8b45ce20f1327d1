import Mathlib.Tactic
import ITrustee.Teleport.IoRegions

/-!
# Dispatch of a request

`PosixDataTaskletCallHandler` takes the table of the call type, checks the function number against the
size of the table and calls the handler of the entry, if it has one. The tables are arrays with
designated initializers, so their entries are those that an initializer names, and null ones between.
The number of entries passes the check.
-/

namespace ITrustee.Teleport

/-! ### Tables -/

structure PosixFunc (H : Type*) where
  argsCnt : UInt32
  funcPtr : Option H
  deriving DecidableEq

/-- An initializer of a table. -/
structure PosixFuncEnum (H : Type*) where
  funcNo : Nat
  name : H
  argsCnt : UInt32

/-- The array with these initializers: it ends with the highest number, the last initializer of an
entry counts, and an entry without one is zero. -/
def posixFuncs {H : Type*} (inits : List (PosixFuncEnum H)) : List (PosixFunc H) :=
  (List.range ((inits.map (·.funcNo + 1)).foldr max 0)).map fun index =>
    match inits.reverse.find? (·.funcNo = index) with
    | some init => ⟨init.argsCnt, some init.name⟩
    | none => ⟨0, none⟩

/-- The tables of the three call types. -/
structure PosixTables (H : Type*) where
  posixFile : List (PosixFunc H)
  posixNetwork : List (PosixFunc H)
  posixOther : List (PosixFunc H)

def posixCallFile : Nat := 0
def posixCallNetwork : Nat := 1
def posixCallOther : Nat := 2

def PosixTables.funcs {H : Type*} (tables : PosixTables H) (type : Nat) :
    Option (List (PosixFunc H)) :=
  if type = posixCallFile then some tables.posixFile
  else if type = posixCallNetwork then some tables.posixNetwork
  else if type = posixCallOther then some tables.posixOther
  else none

inductive PosixHandler where
  | fileOpenWork | fileOpenatWork | fileWriteWork | fileReadWork | fileCloseWork | fileAccessWork
  | fileFaccessatWork | fileLseekWork | fileChdirWork | fileFchdirWork | fileChmodWork
  | fileFchmodWork | fileFchmodatWork | fileStatWork | fileFstatWork | fileStatfsWork
  | fileFstatfsWork | fileLstatWork | fileFstatatWork | fileSymlinkWork | fileSymlinkatWork
  | fileReadlinkWork | fileReadlinkatWork | fileFsyncWork | fileTruncateWork | fileFtruncateWork
  | fileRenameWork | fileRenameatWork | fileDup2Work | fileMkdirWork | fileUmaskWork
  | fileUnlinkWork | fileFcntlWork | fileMmapUtilWork | fileMsyncUtilWork | fileSendfileWork
  | fileRemoveWork | fileRmdirWork | fileDupWork | fileRealpath
  | netSocketWork | netConnectWork | netBindWork | netListenWork | netAcceptWork | netAccept4Work
  | netShutdownWork | netGetsocknameWork | netGetsockoptWork | netSetsockoptWork
  | netGetpeernameWork | netSendtoWork | netRecvfromWork | netSendmsgWork | netRecvmsgWork
  | netGetAddrInfo | netGetAddrInfoDoFetch | netFreeAddrInfo | netResInit
  | otherPlaceHolder | epollCreate1Work | epollCtlWork | epollPwaitWork | eventfdWork | selectWork
  | pkgSendWork | pkgRecvWork | pkgTerminateWork | ioctlWork | poll | getrlimitWork
  deriving DecidableEq

def posixTables : PosixTables PosixHandler where
  posixFile := posixFuncs
    [⟨1, .fileOpenWork, 3⟩, ⟨2, .fileOpenatWork, 4⟩, ⟨4, .fileWriteWork, 3⟩,
      ⟨3, .fileReadWork, 3⟩, ⟨5, .fileCloseWork, 1⟩, ⟨6, .fileAccessWork, 2⟩,
      ⟨7, .fileFaccessatWork, 4⟩, ⟨8, .fileLseekWork, 3⟩, ⟨9, .fileChdirWork, 1⟩,
      ⟨10, .fileFchdirWork, 1⟩, ⟨11, .fileChmodWork, 2⟩, ⟨12, .fileFchmodWork, 2⟩,
      ⟨13, .fileFchmodatWork, 4⟩, ⟨14, .fileStatWork, 2⟩, ⟨15, .fileFstatWork, 2⟩,
      ⟨16, .fileStatfsWork, 2⟩, ⟨17, .fileFstatfsWork, 2⟩, ⟨18, .fileLstatWork, 2⟩,
      ⟨19, .fileFstatatWork, 4⟩, ⟨20, .fileSymlinkWork, 2⟩, ⟨21, .fileSymlinkatWork, 3⟩,
      ⟨22, .fileReadlinkWork, 3⟩, ⟨23, .fileReadlinkatWork, 4⟩, ⟨24, .fileFsyncWork, 1⟩,
      ⟨25, .fileTruncateWork, 2⟩, ⟨26, .fileFtruncateWork, 2⟩, ⟨27, .fileRenameWork, 2⟩,
      ⟨28, .fileRenameatWork, 4⟩, ⟨29, .fileDup2Work, 2⟩, ⟨30, .fileMkdirWork, 2⟩,
      ⟨31, .fileUmaskWork, 1⟩, ⟨32, .fileUnlinkWork, 1⟩, ⟨33, .fileFcntlWork, 3⟩,
      ⟨34, .fileMmapUtilWork, 3⟩, ⟨35, .fileMsyncUtilWork, 2⟩, ⟨36, .fileSendfileWork, 4⟩,
      ⟨37, .fileRemoveWork, 1⟩, ⟨38, .fileRmdirWork, 1⟩, ⟨39, .fileDupWork, 1⟩,
      ⟨40, .fileRealpath, 2⟩]
  posixNetwork := posixFuncs
    [⟨1, .netSocketWork, 3⟩, ⟨2, .netConnectWork, 3⟩, ⟨3, .netBindWork, 3⟩, ⟨4, .netListenWork, 2⟩,
      ⟨5, .netAcceptWork, 3⟩, ⟨6, .netAccept4Work, 4⟩, ⟨7, .netShutdownWork, 2⟩,
      ⟨8, .netGetsocknameWork, 3⟩, ⟨9, .netGetsockoptWork, 5⟩, ⟨10, .netSetsockoptWork, 5⟩,
      ⟨11, .netGetpeernameWork, 3⟩, ⟨12, .netSendtoWork, 7⟩, ⟨13, .netRecvfromWork, 7⟩,
      ⟨14, .netSendmsgWork, 5⟩, ⟨15, .netRecvmsgWork, 5⟩, ⟨16, .netGetAddrInfo, 6⟩,
      ⟨17, .netGetAddrInfoDoFetch, 4⟩, ⟨18, .netFreeAddrInfo, 1⟩, ⟨19, .netResInit, 0⟩]
  posixOther := posixFuncs
    [⟨0, .otherPlaceHolder, 0⟩, ⟨1, .epollCreate1Work, 1⟩, ⟨2, .epollCtlWork, 4⟩,
      ⟨3, .epollPwaitWork, 6⟩, ⟨4, .eventfdWork, 2⟩, ⟨5, .selectWork, 6⟩, ⟨6, .pkgSendWork, 6⟩,
      ⟨7, .pkgRecvWork, 6⟩, ⟨8, .pkgTerminateWork, 2⟩, ⟨9, .ioctlWork, 4⟩, ⟨10, .poll, 3⟩,
      ⟨11, .getrlimitWork, 2⟩]

/-! ### Sparse tables -/

section Sparse

variable {H : Type*} (inits : List (PosixFuncEnum H))

theorem length_posixFuncs :
    (posixFuncs inits).length = (inits.map (·.funcNo + 1)).foldr max 0 := by
  rw [posixFuncs, List.length_map, List.length_range]

theorem funcNo_lt_length {init : PosixFuncEnum H} (h : init ∈ inits) :
    init.funcNo < (posixFuncs inits).length := by
  rw [length_posixFuncs]
  induction inits with
  | nil => cases h
  | cons head rest ih =>
      rw [List.map_cons, List.foldr_cons]
      cases h with
      | head => omega
      | tail _ hrest =>
          have hlt := ih hrest
          omega

/-- The entries with a handler are the numbers of the initializers, each with the handler of one that
has its number. -/
theorem posixFuncs_handler (index : Nat) (funcPtr : H)
    (h : ∃ hindex : index < (posixFuncs inits).length,
      (posixFuncs inits)[index].funcPtr = some funcPtr) :
    ∃ init ∈ inits, init.funcNo = index ∧ init.name = funcPtr := by
  obtain ⟨hindex, hentry⟩ := h
  simp only [posixFuncs, List.getElem_map, List.getElem_range] at hentry
  cases hfind : inits.reverse.find? (·.funcNo = index) with
  | none =>
      rw [hfind] at hentry
      cases hentry
  | some init =>
      rw [hfind] at hentry
      have hnumber := List.find?_some hfind
      exact ⟨init, List.mem_reverse.mp (List.mem_of_find?_eq_some hfind),
        of_decide_eq_true hnumber, Option.some.inj hentry⟩

theorem posixFuncs_named {init : PosixFuncEnum H} (h : init ∈ inits) :
    ∃ hindex : init.funcNo < (posixFuncs inits).length,
      ((posixFuncs inits)[init.funcNo].funcPtr).isSome := by
  refine ⟨funcNo_lt_length inits h, ?_⟩
  simp only [posixFuncs, List.getElem_map, List.getElem_range]
  cases hfind : inits.reverse.find? (·.funcNo = init.funcNo) with
  | none =>
      have hnone := List.find?_eq_none.mp hfind init (List.mem_reverse.mpr h)
      exact absurd (decide_eq_true rfl) hnone
  | some other => rfl

end Sparse

/-- The system call of a handler that hands a buffer on. -/
def PosixHandler.ioFunc : PosixHandler → Option IoFunc
  | .fileReadWork => some .read
  | .fileWriteWork => some .write
  | .netSendtoWork => some .sendto
  | _ => none

/-- The system call that the entry of a table leads to. -/
def ioEntry (funcs : List (PosixFunc PosixHandler)) (func : Nat) : Option IoFunc :=
  funcs[func]?.bind fun entry => entry.funcPtr.bind PosixHandler.ioFunc

theorem ioEntry_eq {funcs : List (PosixFunc PosixHandler)} (expected : Nat → Option IoFunc)
    (hinside : ∀ func < funcs.length, ioEntry funcs func = expected func)
    (hbehind : ∀ func, funcs.length ≤ func → expected func = none) (func : Nat) :
    ioEntry funcs func = expected func := by
  by_cases hfunc : func < funcs.length
  · exact hinside func hfunc
  · rw [hbehind func (not_lt.mp hfunc), ioEntry, List.getElem?_eq_none (not_lt.mp hfunc),
      Option.bind_none]

/-- The handlers with a buffer stand in the tables under the numbers of `posixFunc`. -/
theorem posixFunc_eq (type func : Nat) :
    (posixTables.funcs type).bind (fun funcs => ioEntry funcs func) = posixFunc type func := by
  match type with
  | 0 =>
      rw [PosixTables.funcs, if_pos (by decide), Option.bind_some]
      refine ioEntry_eq (posixFunc 0) (by decide +kernel) ?_ func
      intro func hbehind
      have hsize : posixTables.posixFile.length = 41 := by decide +kernel
      rw [posixFunc] <;> omega
  | 1 =>
      rw [PosixTables.funcs, if_neg (by decide), if_pos (by decide), Option.bind_some]
      refine ioEntry_eq (posixFunc 1) (by decide +kernel) ?_ func
      intro func hbehind
      have hsize : posixTables.posixNetwork.length = 20 := by decide +kernel
      rw [posixFunc] <;> omega
  | 2 =>
      rw [PosixTables.funcs, if_neg (by decide), if_neg (by decide), if_pos (by decide),
        Option.bind_some]
      refine ioEntry_eq (posixFunc 2) (by decide +kernel) ?_ func
      intro func hbehind
      rfl
  | n + 3 => rfl

/-! ### Calls -/

def enosys : Int := 38

/-- What a handler is given. -/
structure HandlerParam (C : Type*) extends PosixProxyParam where
  argsCnt : UInt32
  ctx : C

/-- How a request ends: what is returned, what is stored in the error field of the message, the entry
that was read and the handler that was called. -/
structure CallOutcome (H : Type*) where
  ret : Int
  err : Option Int
  entry : Option Nat
  called : Option H
  deriving DecidableEq

section Calls

variable {H C : Type*} (tables : PosixTables H) (handler : H → HandlerParam C → Int × Int)

/-- A handler leaves a result and an `errno`. -/
def posixFuncCall (index : Nat) (func : PosixFunc H) (param : HandlerParam C) : CallOutcome H :=
  match func.funcPtr with
  | none => ⟨-1, some enosys, some index, none⟩
  | some funcPtr =>
      let (ret, errno) := handler funcPtr param
      ⟨ret, some errno, some index, some funcPtr⟩

/-- `PosixDataTaskletCallHandler`. There is no outcome when the entry is not in the table. -/
def posixDataDispatch (membuf : List UInt8) (priv : C) : Option (CallOutcome H) :=
  let call := loadPosixCall membuf
  match tables.funcs call.type with
  | none => some ⟨1, none, none, none⟩
  | some funcs =>
      if call.func > funcs.length then some ⟨1, none, none, none⟩
      else
        match funcs[call.func]? with
        | none => none
        | some func =>
            some (posixFuncCall handler call.func func
              ⟨⟨some call.args, call.argsSz⟩, func.argsCnt, priv⟩)

/-- An error is returned and nothing called, or the entry is in the table of the type and the handler
that it holds is called. -/
def DispatchedWithin (membuf : List UInt8) (priv : C) : Prop :=
  ∃ outcome, posixDataDispatch tables handler membuf priv = some outcome ∧
    (outcome.ret ≠ 0 ∧ outcome.called = none ∨
      ∃ funcs index funcPtr, ∃ h : index < funcs.length,
        tables.funcs (loadPosixCall membuf).type = some funcs ∧ outcome.entry = some index ∧
          funcs[index].funcPtr = some funcPtr ∧ outcome.called = some funcPtr)

/-- The function number is not the size of the table. -/
def NotTheSize (membuf : List UInt8) : Prop :=
  ∀ funcs, tables.funcs (loadPosixCall membuf).type = some funcs →
    (loadPosixCall membuf).func ≠ funcs.length

end Calls

section Dispatch

variable {H C : Type*} (tables : PosixTables H) (handler : H → HandlerParam C → Int × Int)
  (membuf : List UInt8) (priv : C)

theorem posixFuncCall_within {funcs : List (PosixFunc H)} {index : Nat} (h : index < funcs.length)
    (param : HandlerParam C) :
    let outcome := posixFuncCall handler index funcs[index] param
    outcome.ret ≠ 0 ∧ outcome.called = none ∨
      ∃ funcPtr, outcome.entry = some index ∧ funcs[index].funcPtr = some funcPtr ∧
        outcome.called = some funcPtr := by
  intro outcome
  cases hfunc : funcs[index].funcPtr with
  | none =>
      have houtcome : outcome = ⟨-1, some enosys, some index, none⟩ := by
        simp only [outcome, posixFuncCall, hfunc]
      rw [houtcome]
      exact Or.inl ⟨Int.negSucc_ne_zero 0, rfl⟩
  | some funcPtr =>
      have houtcome : outcome = ⟨(handler funcPtr param).1, some (handler funcPtr param).2,
          some index, some funcPtr⟩ := by
        simp only [outcome, posixFuncCall, hfunc]
      rw [houtcome]
      exact Or.inr ⟨funcPtr, rfl, rfl, rfl⟩

/-- A request is dispatched within its table exactly when its number is not the size of the table. -/
theorem dispatchedWithin_iff :
    DispatchedWithin tables handler membuf priv ↔ NotTheSize tables membuf := by
  rw [DispatchedWithin, posixDataDispatch, NotTheSize]
  cases hfuncs : tables.funcs (loadPosixCall membuf).type with
  | none =>
      refine iff_of_true ⟨_, rfl, Or.inl ⟨Int.one_ne_zero, rfl⟩⟩ ?_
      intro funcs h
      cases h
  | some funcs =>
      dsimp only
      by_cases hbehind : (loadPosixCall membuf).func > funcs.length
      · rw [if_pos hbehind]
        refine iff_of_true ⟨_, rfl, Or.inl ⟨Int.one_ne_zero, rfl⟩⟩ ?_
        intro other h
        obtain rfl := Option.some.inj h
        omega
      · rw [if_neg hbehind]
        by_cases hin : (loadPosixCall membuf).func < funcs.length
        · rw [List.getElem?_eq_getElem hin]
          refine iff_of_true ⟨_, rfl, ?_⟩ ?_
          · obtain herror | ⟨funcPtr, hentry, hfunc, hcalled⟩ :=
              posixFuncCall_within handler hin ⟨⟨some (loadPosixCall membuf).args,
                (loadPosixCall membuf).argsSz⟩, funcs[(loadPosixCall membuf).func].argsCnt, priv⟩
            · exact Or.inl herror
            · exact Or.inr ⟨funcs, _, funcPtr, hin, rfl, hentry, hfunc, hcalled⟩
          · intro other h
            obtain rfl := Option.some.inj h
            omega
        · have hsize : (loadPosixCall membuf).func = funcs.length := by omega
          rw [List.getElem?_eq_none (by omega)]
          refine iff_of_false ?_ fun h => h funcs rfl hsize
          rintro ⟨outcome, h, -⟩
          cases h

end Dispatch

/-- A handler that succeeds. -/
def succeeds {H C : Type*} (_ : H) (_ : HandlerParam C) : Int × Int := (0, 0)

/-- A request of the file type with this number and no arguments. -/
def fileRequest (func : UInt8) : List UInt8 :=
  [0, 0, 0, 0, func, 0, 0, 0] ++ List.replicate 16 0

theorem openRequest_within :
    NotTheSize posixTables (fileRequest 1) ∧
      DispatchedWithin posixTables succeeds (fileRequest 1) () := by
  have hnot : NotTheSize posixTables (fileRequest 1) := by
    intro funcs hfuncs
    obtain rfl := Option.some.inj hfuncs
    decide +kernel
  exact ⟨hnot, (dispatchedWithin_iff posixTables succeeds (fileRequest 1) ()).mpr hnot⟩

/-- The file table ends with entry 40; number 41 is read behind it. -/
theorem sizeRequest_behind :
    posixTables.posixFile.length = 41 ∧
      ¬ DispatchedWithin posixTables succeeds (fileRequest 41) () := by
  have hnone : posixDataDispatch posixTables succeeds (fileRequest 41) () = none := by
    decide +kernel
  refine ⟨by decide +kernel, ?_⟩
  rintro ⟨outcome, houtcome, -⟩
  rw [hnone] at houtcome
  cases houtcome

end ITrustee.Teleport
