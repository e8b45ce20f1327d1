import Mathlib.Tactic
import ITrustee.Foundation.Bytes

/-!
# The length of a TA image

`GetTaVersion`, `TEEC_GetImageLenth` and `TEEC_DoReadApp` of `tee_client_app_load.c`. A file of a trusted
application starts with one of three headers, which differ in their length and in where they tell how much
comes behind them. The length is a sum of 32-bit numbers, and is checked after it was taken.
-/

namespace ITrustee.Libteec

def maxImageLen : UInt32 := 0x800000

def taHeadMagic1 : UInt32 := 0xA5A55A5A

def taHeadMagic2 : UInt16 := 0x55AA

def cipherLayerVersion : UInt32 := 3

/-- `sizeof(TeecImageIdentity)` -/
def sizeofImageIdentity : Nat := 8

/-- `sizeof(TaImageHdrV3)` -/
def sizeofImageHdrV3 : Nat := 16

/-- `sizeof(TeecImageHead)` -/
def sizeofImageHead : Nat := 24

/-- `sizeof(TeecTaHead)` -/
def sizeofTaHead : Nat := 48

/-- A file that is read from a position on. -/
structure TaFile where
  content : List UInt8
  pos : Nat

/-- One item of that size, if the call works and the file has as much. -/
def TaFile.fread (fp : TaFile) (works : Bool) (size : Nat) : Option (List UInt8 × TaFile) :=
  if works ∧ fp.pos + size ≤ fp.content.length then
    some (Bytes.slice fp.content fp.pos size, { fp with pos := fp.pos + size })
  else none

def TaFile.fseek (fp : TaFile) (works : Bool) (pos : Nat) : Option TaFile :=
  if works then some { fp with pos } else none

/-- `TaImageHdrV3` with its `TeecImageIdentity`. -/
structure TaImageHdrV3 where
  magicNum1 : UInt32
  magicNum2 : UInt16
  versionNum : UInt16
  contextLen : UInt32
  taKeyVersion : UInt32

def TaImageHdrV3.ofBytes (bytes : List UInt8) : TaImageHdrV3 where
  magicNum1 := .ofNat (Bytes.load 4 bytes 0)
  magicNum2 := .ofNat (Bytes.load 2 bytes 4)
  versionNum := .ofNat (Bytes.load 2 bytes 6)
  contextLen := .ofNat (Bytes.load 4 bytes 8)
  taKeyVersion := .ofNat (Bytes.load 4 bytes 12)

/-- The magic numbers and a version above the first. -/
def TaImageHdrV3.isNew (hdr : TaImageHdrV3) : Prop :=
  hdr.magicNum1 = taHeadMagic1 ∧ hdr.magicNum2 = taHeadMagic2 ∧ 1 < hdr.versionNum

instance (hdr : TaImageHdrV3) : Decidable hdr.isNew :=
  inferInstanceAs (Decidable (_ ∧ _ ∧ _))

/-- `context_len` of a `TeecImageHead`. -/
def imageHeadContextLen (bytes : List UInt8) : UInt32 := .ofNat (Bytes.load 4 bytes 0)

/-- Which calls work. -/
structure LoadCalls where
  readIdentity : Bool
  readHead : Bool
  seekHead : Bool
  seekStart : Bool
  malloc : Bool
  /-- How much the last read returns at most. -/
  readSize : Nat

/-- What `GetTaVersion` is given pointers to. -/
structure TaVersion where
  taHeadLen : UInt32
  version : UInt32
  contextLen : UInt32
  totalImgLen : UInt32

section Model

variable (calls : LoadCalls)

def getTaVersion (fp : TaFile) (out : TaVersion) : Int32 × TaVersion × TaFile :=
  match fp.fread calls.readIdentity sizeofImageHdrV3 with
  | none => (-1, out, fp)
  | some (bytes, fp) =>
      let imgIdentity := TaImageHdrV3.ofBytes bytes
      if imgIdentity.isNew then
        let out := { out with
          taHeadLen := .ofNat sizeofTaHead, version := imgIdentity.versionNum.toUInt32 }
        if cipherLayerVersion ≤ out.version then
          (0, { out with
            contextLen := imgIdentity.contextLen
            totalImgLen := imgIdentity.contextLen + .ofNat sizeofImageHdrV3 }, fp)
        else
          match fp.fseek calls.seekHead sizeofImageIdentity with
          | none => (-1, out, fp)
          | some fp => (0, out, fp)
      else
        let out := { out with taHeadLen := .ofNat sizeofImageHead }
        match fp.fseek calls.seekHead 0 with
        | none => (-1, out, fp)
        | some fp => (0, out, fp)

/-- `TEEC_GetImageLenth` from `CHECK_LENTH` on. -/
def checkLenth (contextLen totalImgLen : UInt32) (fp : TaFile) (imgLen : UInt32) :
    Int32 × UInt32 × TaFile :=
  if maxImageLen < contextLen ∨ maxImageLen < totalImgLen then (-1, imgLen, fp)
  else
    match fp.fseek calls.seekStart 0 with
    | none => (-1, imgLen, fp)
    | some fp => (0, totalImgLen, fp)

/-- `TEEC_GetImageLenth`; `totalImgLen` starts with whatever the stack holds. -/
def teecGetImageLenth (stack : UInt32) (fp : TaFile) (imgLen : UInt32) : Int32 × UInt32 × TaFile :=
  match getTaVersion calls fp ⟨0, 0, 0, stack⟩ with
  | (ret, out, fp) =>
      if ret ≠ 0 then (ret, imgLen, fp)
      else if cipherLayerVersion ≤ out.version then
        checkLenth calls out.contextLen out.totalImgLen fp imgLen
      else
        match fp.fread calls.readHead sizeofImageHead with
        | none => (-1, imgLen, fp)
        | some (imageHead, fp) =>
            checkLenth calls (imageHeadContextLen imageHead)
              (imageHeadContextLen imageHead + out.taHeadLen) fp imgLen

/-- What `TEEC_DoReadApp` returns, the sizes it passes to `malloc` and `fread`, and the buffer that the
context is given. -/
structure ReadApp where
  ret : Int32
  malloc : Option UInt32
  fread : Option UInt32
  fileBuffer : Option (List UInt8)

def teecDoReadApp (stack : UInt32) (fp : TaFile) : ReadApp :=
  match teecGetImageLenth calls stack fp 0 with
  | (ret, totalImgLen, fp) =>
      if ret ≠ 0 then ⟨-1, none, none, none⟩
      else if calls.malloc = false then ⟨-1, some totalImgLen, none, none⟩
      else
        let fileBuffer := (Bytes.slice fp.content fp.pos totalImgLen.toNat).take calls.readSize
        if UInt32.ofNat fileBuffer.length ≠ totalImgLen then
          ⟨-1, some totalImgLen, some totalImgLen, none⟩
        else ⟨0, some totalImgLen, some totalImgLen, some fileBuffer⟩

end Model

/-! ### The formats -/

inductive TaFormat where
  | old | rsa2048 | cipherLayer
  deriving DecidableEq

/-- The format that a file announces. -/
def TaFormat.announced (content : List UInt8) : TaFormat :=
  let hdr := TaImageHdrV3.ofBytes content
  if hdr.isNew then if hdr.versionNum = 2 then .rsa2048 else .cipherLayer else .old

def TaFormat.headLen : TaFormat → Nat
  | old => 24
  | rsa2048 => 48
  | cipherLayer => 16

/-- Where the length of the context stands in the file. -/
def TaFormat.contextLenAt : TaFormat → Nat
  | old => 0
  | rsa2048 => 8
  | cipherLayer => 8

/-- The length of the header with that of the context. -/
def imageLen (content : List UInt8) : Nat :=
  (TaFormat.announced content).headLen + Bytes.load 4 content (TaFormat.announced content).contextLenAt

/-! ### The version -/

variable {calls : LoadCalls} {content : List UInt8} {stack : UInt32}

theorem fread_some {fp : TaFile} {works : Bool} {size : Nat} {r : List UInt8 × TaFile}
    (h : fp.fread works size = some r) :
    r = (Bytes.slice fp.content fp.pos size, { fp with pos := fp.pos + size }) := by
  rw [TaFile.fread] at h
  split_ifs at h
  exact (Option.some.inj h).symm

/-- The header that is read is that at the start of the file. -/
theorem ofBytes_slice (content : List UInt8) :
    TaImageHdrV3.ofBytes (Bytes.slice content 0 sizeofImageHdrV3) =
      TaImageHdrV3.ofBytes content := by
  rw [Bytes.slice, List.drop_zero, sizeofImageHdrV3]
  simp only [TaImageHdrV3.ofBytes, Bytes.load_take content (show 0 + 4 ≤ 16 by decide),
    Bytes.load_take content (show 4 + 2 ≤ 16 by decide),
    Bytes.load_take content (show 6 + 2 ≤ 16 by decide),
    Bytes.load_take content (show 8 + 4 ≤ 16 by decide),
    Bytes.load_take content (show 12 + 4 ≤ 16 by decide)]

theorem version_two {v : UInt16} (hnew : 1 < v) (hold : ¬ cipherLayerVersion ≤ v.toUInt32) : v = 2 := by
  have hlow : 1 < v.toNat := UInt16.lt_iff_toNat_lt.mp hnew
  have hhigh : v.toUInt32.toNat < 3 := UInt32.lt_iff_toNat_lt.mp (UInt32.not_le.mp hold)
  rw [UInt16.toNat_toUInt32] at hhigh
  exact UInt16.toNat_inj.mp (show v.toNat = 2 by omega)

theorem version_three {v : UInt16} (h : cipherLayerVersion ≤ v.toUInt32) : v ≠ 2 := by
  rintro rfl
  exact absurd h (by decide)

/-- What is known once the version is. -/
def Versioned (content : List UInt8) (out : TaVersion) (fp : TaFile) : TaFormat → Prop
  | .old => ¬ cipherLayerVersion ≤ out.version ∧ out.taHeadLen = 24 ∧ fp = ⟨content, 0⟩
  | .rsa2048 => ¬ cipherLayerVersion ≤ out.version ∧ out.taHeadLen = 48 ∧ fp = ⟨content, 8⟩
  | .cipherLayer => cipherLayerVersion ≤ out.version ∧
      out.contextLen = .ofNat (Bytes.load 4 content 8) ∧ out.totalImgLen = out.contextLen + 16 ∧
      fp = ⟨content, 16⟩

theorem getTaVersion_spec (h : (getTaVersion calls ⟨content, 0⟩ ⟨0, 0, 0, stack⟩).1 = 0) :
    Versioned content (getTaVersion calls ⟨content, 0⟩ ⟨0, 0, 0, stack⟩).2.1
      (getTaVersion calls ⟨content, 0⟩ ⟨0, 0, 0, stack⟩).2.2 (TaFormat.announced content) := by
  rw [getTaVersion] at h ⊢
  cases hread : (TaFile.mk content 0).fread calls.readIdentity sizeofImageHdrV3 with
  | none =>
      rw [hread] at h
      exact absurd h (by decide : (-1 : Int32) ≠ 0)
  | some r =>
      rw [hread] at h
      obtain rfl := fread_some hread
      dsimp only at h ⊢
      rw [ofBytes_slice] at h ⊢
      rw [TaFormat.announced]
      generalize hhdr : TaImageHdrV3.ofBytes content = hdr at h ⊢
      by_cases hnew : hdr.isNew
      · rw [if_pos hnew] at h ⊢
        rw [if_pos hnew]
        by_cases hcipher : cipherLayerVersion ≤ hdr.versionNum.toUInt32
        · rw [if_pos hcipher, if_neg (version_three hcipher)]
          exact ⟨hcipher, by rw [← hhdr]; rfl, rfl, rfl⟩
        · rw [if_neg hcipher] at h ⊢
          rw [if_pos (version_two hnew.2.2 hcipher)]
          cases hseek : calls.seekHead with
          | false =>
              rw [hseek] at h
              exact absurd h (by decide : (-1 : Int32) ≠ 0)
          | true => exact ⟨hcipher, rfl, rfl⟩
      · rw [if_neg hnew] at h ⊢
        rw [if_neg hnew]
        cases hseek : calls.seekHead with
        | false =>
            rw [hseek] at h
            exact absurd h (by decide : (-1 : Int32) ≠ 0)
        | true => exact ⟨(by decide : ¬ cipherLayerVersion ≤ (0 : UInt32)), rfl, rfl⟩

/-! ### The length -/

theorem checkLenth_spec {contextLen totalImgLen imgLen : UInt32} {fp : TaFile}
    (h : (checkLenth calls contextLen totalImgLen fp imgLen).1 = 0) :
    checkLenth calls contextLen totalImgLen fp imgLen = (0, totalImgLen, ⟨fp.content, 0⟩) ∧
      contextLen ≤ maxImageLen ∧ totalImgLen ≤ maxImageLen := by
  rw [checkLenth] at h ⊢
  split_ifs at h ⊢ with hlong
  · exact absurd h (by decide : (-1 : Int32) ≠ 0)
  · rw [not_or, UInt32.not_lt, UInt32.not_lt] at hlong
    cases hseek : calls.seekStart with
    | false =>
        rw [hseek] at h
        exact absurd h (by decide : (-1 : Int32) ≠ 0)
    | true => exact ⟨rfl, hlong⟩

/-- Below the bound the sum does not wrap around. -/
theorem toNat_add_head {contextLen : UInt32} (h : contextLen ≤ maxImageLen) {head : UInt32}
    (hhead : head.toNat ≤ 48) : (contextLen + head).toNat = head.toNat + contextLen.toNat := by
  have hmax : contextLen.toNat ≤ 0x800000 := UInt32.le_iff_toNat_le.mp h
  rw [UInt32.toNat_add, Nat.add_comm, Nat.mod_eq_of_lt (by omega)]

theorem load_toNat (content : List UInt8) (i : Nat) :
    (UInt32.ofNat (Bytes.load 4 content i)).toNat = Bytes.load 4 content i :=
  UInt32.toNat_ofNat_of_lt' (Bytes.load_lt 4 content i)

/-- `TEEC_GetImageLenth` where the header is a `TeecImageHead`. -/
theorem checkLenth_head {taHeadLen imgLen : UInt32} {pos : Nat} (htaHead : taHeadLen.toNat ≤ 48)
    {result : Int32 × UInt32 × TaFile}
    (hrun : result =
      match (TaFile.mk content pos).fread calls.readHead sizeofImageHead with
      | none => (-1, imgLen, ⟨content, pos⟩)
      | some (imageHead, fp) =>
          checkLenth calls (imageHeadContextLen imageHead) (imageHeadContextLen imageHead + taHeadLen)
            fp imgLen)
    (h : result.1 = 0) :
    ∃ totalImgLen, result = (0, totalImgLen, ⟨content, 0⟩) ∧
      totalImgLen.toNat = taHeadLen.toNat + Bytes.load 4 content pos ∧ totalImgLen ≤ maxImageLen := by
  cases hread : (TaFile.mk content pos).fread calls.readHead sizeofImageHead with
  | none =>
      rw [hread] at hrun
      rw [hrun] at h
      exact absurd h (by decide : (-1 : Int32) ≠ 0)
  | some r =>
      rw [hread, fread_some hread] at hrun
      rw [hrun] at h
      obtain ⟨hresult, hcontext, htotal⟩ := checkLenth_spec h
      refine ⟨_, hrun.trans hresult, ?_, htotal⟩
      rw [toNat_add_head hcontext htaHead, imageHeadContextLen, load_toNat,
        Bytes.load_slice content pos (by decide)]
      rfl

/-- The length of an image that is not refused is that of its header and its context, as numbers. -/
theorem teecGetImageLenth_spec {imgLen : UInt32}
    (h : (teecGetImageLenth calls stack ⟨content, 0⟩ imgLen).1 = 0) :
    ∃ totalImgLen, teecGetImageLenth calls stack ⟨content, 0⟩ imgLen =
        (0, totalImgLen, ⟨content, 0⟩) ∧
      totalImgLen.toNat = imageLen content ∧ totalImgLen ≤ maxImageLen := by
  have hversion := @getTaVersion_spec calls content stack
  rw [teecGetImageLenth] at h ⊢
  generalize getTaVersion calls ⟨content, 0⟩ ⟨0, 0, 0, stack⟩ = r at h hversion ⊢
  obtain ⟨ret, out, fp⟩ := r
  dsimp only at h hversion ⊢
  by_cases hret : ret = 0
  · have hout := hversion hret
    rw [if_neg (not_not.mpr hret)] at h ⊢
    rw [imageLen]
    cases hformat : TaFormat.announced content with
    | old =>
        rw [hformat] at hout
        obtain ⟨hold, hhead, rfl⟩ := hout
        rw [if_neg hold, hhead] at h ⊢
        exact checkLenth_head (by decide) rfl h
    | rsa2048 =>
        rw [hformat] at hout
        obtain ⟨hold, hhead, rfl⟩ := hout
        rw [if_neg hold, hhead] at h ⊢
        exact checkLenth_head (by decide) rfl h
    | cipherLayer =>
        rw [hformat] at hout
        obtain ⟨hnew, hcontextLen, htotalImgLen, rfl⟩ := hout
        rw [if_pos hnew, htotalImgLen] at h ⊢
        obtain ⟨hresult, hcontext, htotal⟩ := checkLenth_spec h
        refine ⟨_, hresult, ?_, htotal⟩
        rw [toNat_add_head hcontext (by decide), hcontextLen, load_toNat]
        rfl
  · rw [if_pos hret] at h
    exact absurd h hret

/-- A read that returns as much as was asked for has read the start of the file. -/
theorem read_whole {size : UInt32} {readSize : Nat}
    (h : ¬ UInt32.ofNat ((Bytes.slice content 0 size.toNat).take readSize).length ≠ size) :
    size.toNat ≤ content.length ∧
      (Bytes.slice content 0 size.toNat).take readSize = content.take size.toNat := by
  have hcount : ((content.take size.toNat).take readSize).length =
      min readSize (min size.toNat content.length) := by
    rw [List.length_take, List.length_take]
  rw [not_not, Bytes.slice, List.drop_zero, hcount] at h
  have hsize := congrArg UInt32.toNat h
  rw [UInt32.toNat_ofNat_of_lt' (lt_of_le_of_lt (by omega) size.toNat_lt)] at hsize
  rw [Bytes.slice, List.drop_zero]
  exact ⟨by omega, List.take_of_length_le (by rw [List.length_take]; omega)⟩

theorem checkLenth_ret (contextLen totalImgLen : UInt32) (fp : TaFile) (imgLen imgLen' : UInt32) :
    (checkLenth calls contextLen totalImgLen fp imgLen).1 =
      (checkLenth calls contextLen totalImgLen fp imgLen').1 := by
  rw [checkLenth, checkLenth]
  split_ifs
  · rfl
  · cases fp.fseek calls.seekStart 0 with
    | none => rfl
    | some fp => rfl

/-- What `*imgLen` was before does not matter. -/
theorem teecGetImageLenth_ret (fp : TaFile) (imgLen imgLen' : UInt32) :
    (teecGetImageLenth calls stack fp imgLen).1 = (teecGetImageLenth calls stack fp imgLen').1 := by
  rw [teecGetImageLenth, teecGetImageLenth]
  obtain ⟨ret, out, fp⟩ := getTaVersion calls fp ⟨0, 0, 0, stack⟩
  dsimp only
  split_ifs
  · rfl
  · exact checkLenth_ret _ _ fp imgLen imgLen'
  · cases fp.fread calls.readHead sizeofImageHead with
    | none => rfl
    | some r => exact checkLenth_ret _ _ r.2 imgLen imgLen'

/-- Such an image is read as a whole, into a buffer of its length, or not at all. -/
theorem teecDoReadApp_spec {imgLen : UInt32}
    (h : (teecGetImageLenth calls stack ⟨content, 0⟩ imgLen).1 = 0) :
    (∃ totalImgLen, teecGetImageLenth calls stack ⟨content, 0⟩ imgLen =
        (0, totalImgLen, ⟨content, 0⟩) ∧
      totalImgLen.toNat = imageLen content ∧ totalImgLen ≤ maxImageLen ∧
      (teecDoReadApp calls stack ⟨content, 0⟩).malloc = some totalImgLen ∧
      (calls.malloc = true → (teecDoReadApp calls stack ⟨content, 0⟩).fread = some totalImgLen)) ∧
    ((teecDoReadApp calls stack ⟨content, 0⟩).ret = 0 → imageLen content ≤ content.length ∧
      (teecDoReadApp calls stack ⟨content, 0⟩).fileBuffer =
        some (content.take (imageLen content))) := by
  obtain ⟨totalImgLen, hrun, hlength, hmax⟩ := teecGetImageLenth_spec h
  rw [teecGetImageLenth_ret _ imgLen 0] at h
  obtain ⟨totalImgLen', hrun', hlength', -⟩ := teecGetImageLenth_spec h
  obtain rfl : totalImgLen' = totalImgLen := UInt32.toNat_inj.mp (hlength'.trans hlength.symm)
  rw [teecDoReadApp, hrun']
  dsimp only
  rw [if_neg (not_not.mpr rfl)]
  cases hmalloc : calls.malloc with
  | false =>
      rw [if_pos rfl]
      exact ⟨⟨totalImgLen', hrun, hlength, hmax, rfl, fun hfalse => by cases hfalse⟩,
        fun hret => absurd hret (by decide : (-1 : Int32) ≠ 0)⟩
  | true =>
      rw [if_neg (by decide)]
      split_ifs with hshort
      · exact ⟨⟨totalImgLen', hrun, hlength, hmax, rfl, fun _ => rfl⟩,
          fun hret => absurd hret (by decide : (-1 : Int32) ≠ 0)⟩
      · refine ⟨⟨totalImgLen', hrun, hlength, hmax, rfl, fun _ => rfl⟩, fun _ => ?_⟩
        obtain ⟨hfits, hwhole⟩ := read_whole hshort
        dsimp only
        rw [hwhole, hlength]
        rw [hlength] at hfits
        exact ⟨hfits, rfl⟩

/-- An image of the first format with four bytes behind its header -/
theorem teecDoReadApp_four : (teecDoReadApp ⟨true, true, true, true, true, 28⟩ 7
    ⟨4 :: List.replicate 27 0, 0⟩).fileBuffer =
      some ((4 :: List.replicate 27 0).take (imageLen (4 :: List.replicate 27 0))) :=
  ((@teecDoReadApp_spec ⟨true, true, true, true, true, 28⟩ (4 :: List.replicate 27 0) 7 0
    (by decide)).2 (by decide)).2

end ITrustee.Libteec
