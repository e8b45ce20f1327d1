import Mathlib.Tactic
import ITrustee.Foundation.CString
import ITrustee.Foundation.FileStore
import ITrustee.Libteec.AppLoad

/-!
# Handing a file to the secure world

`tee_load_sec_file.c`: the whole of a file of at most 8 MiB is read and passed to the driver with one
`ioctl`. The daemon and the client library open the files for it; both take the real path of a file
first and refuse it unless it ends in `.sec`.
-/

namespace ITrustee.Libteec

inductive SecFileType where
  | loadTa | loadService | loadLib | loadDynamicDrv | loadPatch
  deriving DecidableEq

/-- `TEEC_UUID` -/
structure TeecUuid where
  timeLow : UInt32
  timeMid : UInt16
  timeHiAndVersion : UInt16
  clockSeqAndNode : Fin 8 → UInt8
  deriving DecidableEq

/-- The argument of the `ioctl`, with the bytes that its `memref` points to. -/
structure SecLoadIoctl where
  fileType : SecFileType
  uuid : TeecUuid
  image : List UInt8
  deriving DecidableEq

def maxBufferLen : Nat := 8 * 1024 * 1024

/-- What the calls made for one file return. -/
structure LoadSecCalls where
  seekEnd : Bool := true
  ftell : Bool := true
  seekSet : Bool := true
  malloc : Bool := true
  /-- How much `fread` returns at most. -/
  readSize : Nat
  ioctl : Int32 := 0

section Model

variable (calls : LoadSecCalls)

/-- `GetImgLen`: the length, if it is returned, and the stream. -/
def getImgLen (fp : TaFile) : Option Nat × TaFile :=
  match fp.fseek calls.seekEnd fp.content.length with
  | none => (none, fp)
  | some fp =>
      let totalLen : Int := if calls.ftell then fp.pos else -1
      if totalLen ≤ 0 ∨ maxBufferLen < totalLen then (none, fp)
      else
        match fp.fseek calls.seekSet 0 with
        | none => (none, fp)
        | some fp => (some totalLen.toNat, fp)

/-- `LoadSecFile`: what it returns, and what the driver is handed. -/
def loadSecFile (tzFd : Int32) (fp : TaFile) (fileType : SecFileType) (uuid : Option TeecUuid) :
    Int32 × Option SecLoadIoctl :=
  if tzFd < 0 then (-1, none)
  else
    match getImgLen calls fp with
    | (none, _) => (-1, none)
    | (some totalLen, fp) =>
        if calls.malloc = false then (-1, none)
        else
          let fileBuffer := (Bytes.slice fp.content fp.pos totalLen).take calls.readSize
          if fileBuffer.length ≠ totalLen then (-1, none)
          else
            (calls.ioctl,
              some
                { fileType
                  uuid := uuid.getD ⟨0, 0, 0, fun _ => 0⟩
                  image := fileBuffer })

end Model

/-- `TEEC_CheckRealPathSuffix`, and the same check in `SecFileLoadWork`: what follows the last dot,
with the dot. -/
def checkRealPathSuffix (realPath : List Char) : Bool :=
  match CString.strrchr realPath '.' with
  | none => false
  | some i => realPath.drop i == ".sec".toList

/-! ### What is handed over -/

variable {calls : LoadSecCalls} {content : List UInt8} {pos : Nat} {tzFd : Int32}
  {fileType : SecFileType} {uuid : Option TeecUuid}

theorem getImgLen_some {fp : TaFile} {totalLen : Nat}
    (h : getImgLen calls ⟨content, pos⟩ = (some totalLen, fp)) :
    fp = ⟨content, 0⟩ ∧ totalLen = content.length ∧ 0 < totalLen ∧ totalLen ≤ maxBufferLen := by
  rw [getImgLen, TaFile.fseek] at h
  cases hend : calls.seekEnd with
  | false =>
      rw [hend] at h
      cases h
  | true =>
      rw [hend, if_pos rfl] at h
      dsimp only at h
      cases htell : calls.ftell with
      | false =>
          rw [htell, if_neg Bool.false_ne_true, if_pos (Or.inl (by decide))] at h
          cases h
      | true =>
          rw [htell, if_pos rfl] at h
          by_cases hlen : (content.length : Int) ≤ 0 ∨ (maxBufferLen : Int) < content.length
          · rw [if_pos hlen] at h
            cases h
          rw [if_neg hlen] at h
          rw [not_or] at hlen
          cases hset : calls.seekSet with
          | false =>
              rw [hset] at h
              cases h
          | true =>
              rw [hset, TaFile.fseek, if_pos rfl] at h
              obtain ⟨hlength, rfl⟩ := Prod.mk.inj h
              obtain rfl := Option.some.inj hlength
              exact ⟨rfl, by omega, by omega, by omega⟩

/-- The driver gets the whole content of a file that is neither empty nor too large, and what it says
is returned. -/
theorem loadSecFile_some {ioctl : SecLoadIoctl}
    (h : (loadSecFile calls tzFd ⟨content, pos⟩ fileType uuid).2 = some ioctl) :
    ioctl = ⟨fileType, uuid.getD ⟨0, 0, 0, fun _ => 0⟩, content⟩ ∧
      0 < content.length ∧ content.length ≤ maxBufferLen ∧
        (loadSecFile calls tzFd ⟨content, pos⟩ fileType uuid).1 = calls.ioctl := by
  rw [loadSecFile] at h ⊢
  by_cases htz : tzFd < 0
  · rw [if_pos htz] at h
    cases h
  rw [if_neg htz] at h ⊢
  cases hlen : getImgLen calls ⟨content, pos⟩ with
  | mk totalLen fp =>
      rw [hlen] at h
      cases totalLen with
      | none => cases h
      | some totalLen =>
          obtain ⟨rfl, rfl, hpos, hmax⟩ := getImgLen_some hlen
          dsimp only at h ⊢
          rw [Bytes.slice, List.drop_zero, List.take_length] at h ⊢
          split_ifs at h ⊢ with hmalloc hread
          rw [not_not, List.length_take] at hread
          rw [List.take_of_length_le (by omega)] at h
          exact ⟨(Option.some.inj h).symm, hpos, hmax, rfl⟩

/-- Nothing is handed over only where -1 is returned. -/
theorem loadSecFile_none {fp : TaFile} (h : (loadSecFile calls tzFd fp fileType uuid).2 = none) :
    (loadSecFile calls tzFd fp fileType uuid).1 = -1 := by
  rw [loadSecFile] at h ⊢
  by_cases htz : tzFd < 0
  · rw [if_pos htz]
  rw [if_neg htz] at h ⊢
  cases hlen : getImgLen calls fp with
  | mk totalLen fp =>
      rw [hlen] at h
      cases totalLen with
      | none => rfl
      | some totalLen =>
          dsimp only at h ⊢
          split_ifs at h ⊢ with hmalloc hread
          · rfl
          · rfl

theorem checkRealPathSuffix_iff {realPath : List Char} :
    checkRealPathSuffix realPath = true ↔ ".sec".toList <:+ realPath := by
  rw [checkRealPathSuffix]
  cases hdot : CString.strrchr realPath '.' with
  | none =>
      refine ⟨fun h => (Bool.false_ne_true h).elim, fun ⟨before, h⟩ => ?_⟩
      refine absurd ?_ (CString.strrchr_eq_none.mp hdot)
      rw [← h]
      exact List.mem_append_right _ (by decide)
  | some i =>
      dsimp only
      rw [beq_iff_eq]
      refine ⟨fun h => h ▸ List.drop_suffix i realPath, fun ⟨before, h⟩ => ?_⟩
      obtain ⟨before', after, hpath, rfl, hafter⟩ := CString.strrchr_eq_some hdot
      have hsec : before ++ '.' :: "sec".toList = before' ++ '.' :: after := h.trans hpath
      rw [hpath, List.drop_left]
      rcases List.append_eq_append_iff.mp hsec with ⟨t, rfl, ht⟩ | ⟨t, rfl, ht⟩
      · cases t with
        | nil => exact ht.symm
        | cons c t =>
            obtain ⟨-, ht⟩ := List.cons.inj ht
            have hdotmem : '.' ∈ "sec".toList := ht ▸ List.mem_append_right t List.mem_cons_self
            exact absurd hdotmem (by decide)
      · cases t with
        | nil => exact ht
        | cons c t =>
            obtain ⟨-, ht⟩ := List.cons.inj ht
            exact absurd (ht ▸ List.mem_append_right t List.mem_cons_self) hafter

end ITrustee.Libteec
