import Mathlib.Tactic
import Mathlib.Data.List.DropRight
import Mathlib.Data.List.TakeWhile
import ITrustee.Foundation.CInt
import ITrustee.Foundation.NulStrings
import ITrustee.Foundation.Securec

/-!
# The package name of a client

`TeeGetPkgName` of `tee_auth_common.c` and what it calls. The command line of a process is its arguments,
each with a null byte behind it; the name is the first of them, or the last if the first is a call of
`java`. A read outside of the bytes that were read from the command line has no result.
-/

namespace ITrustee.Authentication

open NulStrings

def maxPathLength : Nat := 256

def cmdMaxSize : Nat := 1024

def javaCmdMinIndex : Nat := 3

/-- The loop of `LocatePkgName`, which comes to the byte before the given one. -/
def locateLoop (cmdLine : List UInt8) : Nat → Bool → Option Nat
  | 0, _ => some 0
  | rIndex + 1, rFound =>
      match cmdLine[rIndex]? with
      | none => none
      | some c =>
          if c = 0 then
            if rFound then some (rIndex + 1) else locateLoop cmdLine rIndex rFound
          else locateLoop cmdLine rIndex true

def locatePkgName (cmdLine : List UInt8) (cmdLen : Nat) : Option Int :=
  let rIndex : Int := CInt.i32 cmdLen - 1
  if rIndex < 0 then some (rIndex + 1)
  else (locateLoop cmdLine (rIndex + 1).toNat false).map fun index => (index : Int)

/-- Whether the string that ends at `rIndex` is a call of `java`. -/
def isJavaCmd (caName : List UInt8) (rIndex : Int) : Bool :=
  javaCmdMinIndex ≤ rIndex && caName[(rIndex - 3).toNat]? == some 106 &&
    caName[(rIndex - 2).toNat]? == some 97 && caName[(rIndex - 1).toNat]? == some 118 &&
    caName[rIndex.toNat]? == some 97

/-- What `ParsePkgName` does once it has found the name. -/
def copyPkgName (lib : Securec.Memory) (pkgName : List UInt8) (pkgLen : Int) (caName : List UInt8)
    (nameLen : Nat) : Int × List UInt8 :=
  let copied := lib.strncpyS caName (nameLen - 1) pkgName (CInt.toU64 pkgLen)
  if copied.1 ≠ 0 then (-1, copied.2)
  else
    (0, copied.2.take pkgLen.toNat ++ List.replicate (nameLen - pkgLen.toNat) 0 ++
      copied.2.drop nameLen)

/-- `ParsePkgName`, with what it leaves in the buffer for the name. -/
def parsePkgName (lib : Securec.Memory) (cmdLine : List UInt8) (cmdLen : Nat) (caName : List UInt8)
    (nameLen : Nat) : Option (Int × List UInt8) :=
  (strnlen caName nameLen).bind fun (length : Nat) =>
    if isJavaCmd caName (CInt.i32 length - 1) = false then some (0, caName)
    else
      (locatePkgName cmdLine cmdLen).bind fun rIndex =>
        (strnlen (cmdLine.drop rIndex.toNat) (cmdLen - rIndex.toNat)).map fun (length : Nat) =>
          copyPkgName lib (cmdLine.drop rIndex.toNat) (CInt.i32 length) caName nameLen

/-- `/proc/<pid>/cmdline`: what can be read of it, and whether `ferror` is set then. -/
structure CmdLine where
  content : List UInt8
  ferror : Bool

/-- `ReadCmdLine` into a buffer of zeros: what it returns, the buffer, and the buffer for the name. -/
def readCmdLine (lib : Securec.Memory) (fopen : Option CmdLine) (bufferLen : Nat)
    (caName : List UInt8) (nameLen : Nat) : Option (Int × List UInt8 × List UInt8) :=
  match fopen with
  | none => some (-1, List.replicate bufferLen 0, caName)
  | some fd =>
      let bytes := fd.content.take (bufferLen - 1)
      let buffer := bytes ++ List.replicate (bufferLen - bytes.length) 0
      if bytes.length = 0 ∨ fd.ferror then some (-1, buffer, caName)
      else
        (strnlen buffer (bufferLen - 1)).map fun (firstStringLen : Nat) =>
          let copied := lib.strncpyS caName (nameLen - 1) buffer firstStringLen
          if copied.1 ≠ 0 then (-1, buffer, copied.2) else (bytes.length, buffer, copied.2)

def teeGetCaName (lib : Securec.Memory) (fopen : Option CmdLine) (caName : List UInt8)
    (nameLen : Nat) : Option (Int × List UInt8) :=
  if nameLen = 0 then some (-1, caName)
  else
    (readCmdLine lib fopen cmdMaxSize caName nameLen).bind fun read =>
      if read.1 ≤ 0 then some (-1, read.2.2)
      else
        (parsePkgName lib (read.2.1.take read.1.toNat) read.1.toNat read.2.2 nameLen).map fun parsed =>
          if parsed.1 ≠ 0 then (-1, parsed.2) else (read.1, parsed.2)

/-- `media.codec` -/
def mediaCodecPath : List UInt8 := [109, 101, 100, 105, 97, 46, 99, 111, 100, 101, 99]

/-- `/vendor/bin/hw/android.hardware.media.omx@1.0-service` -/
def omxPath : List UInt8 :=
  [47, 118, 101, 110, 100, 111, 114, 47, 98, 105, 110, 47, 104, 119, 47, 97, 110, 100, 114, 111, 105,
    100, 46, 104, 97, 114, 100, 119, 97, 114, 101, 46, 109, 101, 100, 105, 97, 46, 111, 109, 120, 64, 49,
    46, 48, 45, 115, 101, 114, 118, 105, 99, 101]

def teeGetPkgName (lib : Securec.Memory) (fopen : Option CmdLine) (path : List UInt8)
    (pathLen : Nat) : Option (Int × List UInt8) :=
  if maxPathLength < pathLen then some (-1, path)
  else
    (teeGetCaName lib fopen path pathLen).map fun name =>
      if name.1 < 0 then (-1, name.2)
      else if name.2.takeWhile (· != 0) = mediaCodecPath then
        -- `snprintf_s` without a conversion
        if omxPath.length < pathLen then (0, omxPath ++ 0 :: name.2.drop (omxPath.length + 1))
        else (-1, name.2)
      else (0, name.2)

/-! ### The last argument -/

def java : List UInt8 := [106, 97, 118, 97]

/-- The last maximal run of bytes that are not null. -/
def lastRun (cmdLine : List UInt8) : List UInt8 :=
  (cmdLine.rdropWhile (· == 0)).rtakeWhile (· != 0)

/-- What stands before the last run. -/
def beforeRun (cmdLine : List UInt8) : List UInt8 :=
  (cmdLine.rdropWhile (· == 0)).rdropWhile (· != 0)

/-- The last run stands between a null byte, or the start, and nothing but null bytes; it is empty only
if there is no other byte. -/
theorem lastRun_split (cmdLine : List UInt8) :
    cmdLine = beforeRun cmdLine ++ lastRun cmdLine ++ cmdLine.rtakeWhile (· == 0) ∧
      0 ∉ lastRun cmdLine ∧ (∀ c ∈ cmdLine.rtakeWhile (· == 0), c = 0) ∧
      (beforeRun cmdLine = [] ∨ (beforeRun cmdLine).getLast? = some 0) ∧
      (lastRun cmdLine = [] → ∀ c ∈ cmdLine, c = 0) := by
  refine ⟨?_, ?_, ?_, ?_, ?_⟩
  · rw [beforeRun, lastRun, List.rdropWhile_append_rtakeWhile, List.rdropWhile_append_rtakeWhile]
  · intro h
    exact absurd (List.mem_rtakeWhile_imp h) (by decide)
  · intro c hc
    exact beq_iff_eq.mp (List.mem_rtakeWhile_imp (p := (· == 0)) hc)
  · by_cases hnil : beforeRun cmdLine = []
    · exact Or.inl hnil
    · have hlast := List.rdropWhile_last_not _ _ hnil
      rw [bne_iff_ne, not_not] at hlast
      exact Or.inr (by rw [List.getLast?_eq_some_getLast hnil]; exact congrArg some hlast)
  · intro hnil
    have htrimmed : cmdLine.rdropWhile (· == 0) = [] := by
      by_contra hne
      have hnull := List.rtakeWhile_eq_nil_iff.mp hnil hne
      rw [bne_iff_ne, not_not] at hnull
      exact List.rdropWhile_last_not _ _ hne (beq_iff_eq.mpr hnull)
    intro c hc
    exact beq_iff_eq.mp (List.rdropWhile_eq_nil_iff.mp htrimmed c hc)

/-- The scan goes back to the start of the run it is in. -/
theorem locateLoop_found (p q : List UInt8) :
    locateLoop (p ++ q) p.length true = some (p.rdropWhile (· != 0)).length := by
  induction p using List.reverseRecOn generalizing q with
  | nil => rfl
  | append_singleton p c ih =>
      have hbyte : (p ++ [c] ++ q)[p.length]? = some c := by simp
      rw [List.length_append, List.length_singleton, locateLoop, hbyte]
      dsimp only
      by_cases hc : c = 0
      · rw [if_pos hc, if_pos rfl, List.rdropWhile_concat_neg _ _ _ (by simp [hc]), List.length_append,
          List.length_singleton]
      · rw [if_neg hc, List.rdropWhile_concat_pos _ _ _ (by simp [hc]), List.append_assoc]
        exact ih _

/-- Before it has found one, the scan skips null bytes. -/
theorem locateLoop_search (p q : List UInt8) :
    locateLoop (p ++ q) p.length false = some (beforeRun p).length := by
  induction p using List.reverseRecOn generalizing q with
  | nil => rfl
  | append_singleton p c ih =>
      have hbyte : (p ++ [c] ++ q)[p.length]? = some c := by simp
      rw [List.length_append, List.length_singleton, locateLoop, hbyte, beforeRun]
      dsimp only
      by_cases hc : c = 0
      · rw [if_pos hc, if_neg Bool.false_ne_true, List.rdropWhile_concat_pos _ _ _ (by simp [hc]),
          List.append_assoc]
        exact ih _
      · rw [if_neg hc, List.rdropWhile_concat_neg _ _ _ (by simp [hc]),
          List.rdropWhile_concat_pos _ _ _ (by simp [hc]), List.append_assoc]
        exact locateLoop_found p _

theorem i32_length {n : Nat} (h : n < 2 ^ 31) : CInt.i32 n = n :=
  CInt.i32_of_range (by omega) (by omega)

theorem locatePkgName_eq {cmdLine : List UInt8} (h : cmdLine.length < 2 ^ 31) :
    locatePkgName cmdLine cmdLine.length = some ((beforeRun cmdLine).length : Int) := by
  rw [locatePkgName, i32_length h]
  split_ifs with hempty
  · obtain rfl : cmdLine = [] := List.length_eq_zero_iff.mp (by omega)
    rfl
  · have hloop := locateLoop_search cmdLine []
    rw [List.append_nil] at hloop
    rw [Int.sub_add_cancel, Int.toNat_natCast, hloop]
    rfl

/-- Behind the start of the last run the library sees the run and no more. -/
theorem takeWhile_lastRun (cmdLine : List UInt8) :
    (cmdLine.drop (beforeRun cmdLine).length).takeWhile (· != 0) = lastRun cmdLine := by
  obtain ⟨hsplit, hrun, hnulls, -, -⟩ := lastRun_split cmdLine
  generalize cmdLine.rtakeWhile (· == 0) = nulls at hsplit hnulls
  generalize beforeRun cmdLine = before, lastRun cmdLine = run at hsplit hrun ⊢
  obtain rfl := hsplit
  have hrunBytes : ∀ c ∈ run, (c != 0) = true := by
    intro c hc
    rw [bne_iff_ne]
    rintro rfl
    exact hrun hc
  rw [List.append_assoc, List.drop_left, List.takeWhile_append_of_pos hrunBytes]
  cases nulls with
  | nil => simp
  | cons c nulls => simp [hnulls c List.mem_cons_self]

/-! ### The call of `java` -/

variable {caName : List UInt8}

theorem getElem?_of_isPrefix {s : List UInt8} (h : s <+: caName) {i : Nat} (hi : i < s.length) :
    caName[i]? = s[i]? := by
  obtain ⟨rest, rfl⟩ := h
  exact List.getElem?_append_left hi

theorem isJavaCmd_iff {s : List UInt8} (h : s <+: caName) :
    isJavaCmd caName (s.length - 1) = true ↔ java <:+ s := by
  by_cases hlength : 4 ≤ s.length
  · obtain ⟨init, last, rfl, hlast⟩ : ∃ init last, s = init ++ last ∧ last.length = 4 :=
      ⟨s.take (s.length - 4), s.drop (s.length - 4), (List.take_append_drop _ s).symm, by
        rw [List.length_drop]; omega⟩
    obtain ⟨a, b, c, d, rfl⟩ : ∃ a b c d, last = [a, b, c, d] := List.length_eq_four.mp hlast
    have hsuffix : java <:+ init ++ [a, b, c, d] ↔ [a, b, c, d] = java := by
      constructor
      · rintro ⟨more, hmore⟩
        exact (List.append_inj' hmore.symm rfl).2
      · intro heq
        rw [heq]
        exact List.suffix_append init java
    have hbyte (k : Nat) (hk : k < 4) : caName[init.length + k]? = [a, b, c, d][k]? := by
      rw [getElem?_of_isPrefix h (by simpa using hk), List.getElem?_append_right (Nat.le_add_right _ _),
        Nat.add_sub_cancel_left]
    have hend : ((init ++ [a, b, c, d]).length : Int) - 1 = init.length + 3 := by
      rw [List.length_append, hlast]
      omega
    have h0 : ((init.length : Int) + 3 - 3).toNat = init.length + 0 := by omega
    have h1 : ((init.length : Int) + 3 - 2).toNat = init.length + 1 := by omega
    have h2 : ((init.length : Int) + 3 - 1).toNat = init.length + 2 := by omega
    have h3 : ((init.length : Int) + 3).toNat = init.length + 3 := by omega
    rw [hsuffix, isJavaCmd, hend, h0, h1, h2, h3, hbyte 0 (by decide), hbyte 1 (by decide),
      hbyte 2 (by decide), hbyte 3 (by decide)]
    simp [java, javaCmdMinIndex, and_assoc]
  · refine iff_of_false (fun hjava => ?_) fun hsuffix => hlength hsuffix.length_le
    rw [isJavaCmd, javaCmdMinIndex] at hjava
    simp only [Bool.and_eq_true, decide_eq_true_eq] at hjava
    have hindex := hjava.1.1.1.1
    omega

/-! ### What the call leaves -/

variable {lib : Securec.Memory} {cmdLine : List UInt8} {nameLen : Nat}

theorem lastRun_length (cmdLine : List UInt8) : (lastRun cmdLine).length ≤ cmdLine.length :=
  (List.rtakeWhile_suffix _ _).length_le.trans (List.rdropWhile_prefix _ _).length_le

/-- The string that is copied is the whole run. -/
theorem copied_run (hcmd : cmdLine.length < 2 ^ 31) :
    ((cmdLine.drop (beforeRun cmdLine).length).take
      (CInt.toU64 ((lastRun cmdLine).length : Int))).takeWhile (· != 0) = lastRun cmdLine := by
  have hlength := (lastRun_length cmdLine).trans_lt hcmd
  obtain ⟨rest, hrest⟩ := List.takeWhile_prefix (l := cmdLine.drop (beforeRun cmdLine).length) (· != 0)
  rw [takeWhile_lastRun] at hrest
  rw [CInt.toU64_of_lt rfl (hlength.trans (by decide)), ← hrest, List.take_left]
  refine List.takeWhile_eq_self_iff.mpr fun c hc => ?_
  rw [bne_iff_ne]
  rintro rfl
  exact (lastRun_split cmdLine).2.1 hc

theorem copyPkgName_fits (hlib : lib.CopiesStrings) (hname : caName.length = nameLen)
    (hmax : nameLen < 2 ^ 31) (hcmd : cmdLine.length < 2 ^ 31)
    (hfits : (lastRun cmdLine).length + 2 ≤ nameLen) :
    copyPkgName lib (cmdLine.drop (beforeRun cmdLine).length) (lastRun cmdLine).length caName nameLen =
      (0, lastRun cmdLine ++ List.replicate (nameLen - (lastRun cmdLine).length) 0) := by
  have hlength := (lastRun_length cmdLine).trans_lt hcmd
  have hmaxLen : Securec.maxLen = 2 ^ 31 - 1 := rfl
  have hcount : CInt.toU64 ((lastRun cmdLine).length : Int) = (lastRun cmdLine).length :=
    CInt.toU64_of_lt rfl (hlength.trans (by decide))
  have hcopy := hlib.copies caName (nameLen - 1) (cmdLine.drop (beforeRun cmdLine).length)
    (CInt.toU64 ((lastRun cmdLine).length : Int)) (by omega) (by omega)
    (by rw [copied_run hcmd]; omega)
  rw [copied_run hcmd] at hcopy
  rw [copyPkgName, hcopy, if_neg (not_not.mpr rfl), Int.toNat_natCast, List.take_left]
  have hnil : (lastRun cmdLine ++ 0 :: caName.drop ((lastRun cmdLine).length + 1)).drop nameLen = [] := by
    refine List.drop_eq_nil_of_le ?_
    rw [List.length_append, List.length_cons, List.length_drop]
    omega
  rw [hnil, List.append_nil]

theorem copyPkgName_long (hlib : lib.CopiesStrings) (hcmd : cmdLine.length < 2 ^ 31)
    (hlong : ¬ (lastRun cmdLine).length + 2 ≤ nameLen) :
    ∃ caName', copyPkgName lib (cmdLine.drop (beforeRun cmdLine).length) (lastRun cmdLine).length caName
      nameLen = (-1, caName') := by
  have hrefuse := hlib.refuses caName (nameLen - 1) (cmdLine.drop (beforeRun cmdLine).length)
    (CInt.toU64 ((lastRun cmdLine).length : Int)) (by rw [copied_run hcmd]; omega)
  exact ⟨_, if_pos hrefuse⟩

/-- After a call of `java` the name is the last argument, if there is room for it; otherwise the name
stays. -/
theorem parsePkgName_spec (hlib : lib.CopiesStrings) (hcmd : cmdLine.length < 2 ^ 31)
    (hname : caName.length = nameLen) (hmax : nameLen < 2 ^ 31) :
    (java <:+ caName.takeWhile (· != 0) →
      ((lastRun cmdLine).length + 2 ≤ nameLen →
        parsePkgName lib cmdLine cmdLine.length caName nameLen =
          some (0, lastRun cmdLine ++ List.replicate (nameLen - (lastRun cmdLine).length) 0)) ∧
      (¬ (lastRun cmdLine).length + 2 ≤ nameLen → ∃ caName',
        parsePkgName lib cmdLine cmdLine.length caName nameLen = some (-1, caName'))) ∧
    (¬ java <:+ caName.takeWhile (· != 0) →
      parsePkgName lib cmdLine cmdLine.length caName nameLen = some (0, caName)) := by
  have hstring : caName.takeWhile (· != 0) <+: caName := List.takeWhile_prefix _
  have hlength : strnlen caName nameLen = some (caName.takeWhile (· != 0)).length := by
    rw [strnlen_eq hname.ge, List.take_of_length_le hname.le]
  have hshort : (caName.takeWhile (· != 0)).length < 2 ^ 31 :=
    (hstring.length_le.trans hname.le).trans_lt hmax
  rw [parsePkgName, hlength, Option.bind_some, i32_length hshort, ← isJavaCmd_iff hstring]
  refine ⟨fun hjava => ?_, fun hjava => if_pos (Bool.eq_false_of_not_eq_true hjava)⟩
  have hrest : cmdLine.length - (beforeRun cmdLine).length =
      (cmdLine.drop (beforeRun cmdLine).length).length := List.length_drop.symm
  have hrun : strnlen (cmdLine.drop (beforeRun cmdLine).length)
      (cmdLine.length - (beforeRun cmdLine).length) = some (lastRun cmdLine).length := by
    rw [hrest, strnlen_eq (Nat.le_refl _), List.take_length, takeWhile_lastRun]
  rw [if_neg (by simp [hjava]), locatePkgName_eq hcmd, Option.bind_some, Int.toNat_natCast, hrun,
    Option.map_some, i32_length ((lastRun_length cmdLine).trans_lt hcmd)]
  constructor
  · intro hfits
    rw [copyPkgName_fits hlib hname hmax hcmd hfits]
  · intro hlong
    obtain ⟨caName', hcopy⟩ := copyPkgName_long hlib hcmd hlong
    exact ⟨caName', by rw [hcopy]⟩

/-- `java`, and the command line `java`, `x` -/
theorem parsePkgName_java_x :
    parsePkgName Securec.Memory.reference [106, 97, 118, 97, 0, 120, 0] 7 [106, 97, 118, 97, 0, 0] 6 =
      some (0, [120, 0, 0, 0, 0, 0]) :=
  ((@parsePkgName_spec [106, 97, 118, 97, 0, 0] Securec.Memory.reference
    [106, 97, 118, 97, 0, 120, 0] 6 Securec.Memory.reference_copiesStrings (by decide) rfl
    (by decide)).1 ⟨[], rfl⟩).1 (by decide)

/-! ### The calls around it -/

/-- What `ReadCmdLine` leaves after it has read something is a string in the buffer. -/
theorem readCmdLine_spec (hlib : lib.CopiesStrings) (fopen : Option CmdLine)
    (hname : caName.length = nameLen) (hmax : nameLen < 2 ^ 31) :
    ∃ ret buffer caName', readCmdLine lib fopen cmdMaxSize caName nameLen = some (ret, buffer, caName') ∧
      (0 < ret → caName'.length = nameLen ∧ 0 ∈ caName' ∧ buffer.length = cmdMaxSize ∧
        ret < cmdMaxSize) := by
  cases fopen with
  | none => exact ⟨-1, _, _, rfl, fun h => absurd h (by decide)⟩
  | some fd =>
      rw [readCmdLine]
      have hbytes : (fd.content.take (cmdMaxSize - 1)).length ≤ cmdMaxSize - 1 := by
        rw [List.length_take]
        exact Nat.min_le_left _ _
      generalize fd.content.take (cmdMaxSize - 1) = bytes at hbytes
      have hmaxSize : cmdMaxSize = 1024 := rfl
      have hmaxLen : Securec.maxLen = 2 ^ 31 - 1 := rfl
      have hlength : (bytes ++ List.replicate (cmdMaxSize - bytes.length) 0).length = cmdMaxSize := by
        rw [List.length_append, List.length_replicate]
        omega
      generalize bytes ++ List.replicate (cmdMaxSize - bytes.length) 0 = buffer at hlength
      dsimp only
      by_cases herror : bytes.length = 0 ∨ fd.ferror
      · rw [if_pos herror]
        exact ⟨-1, _, _, rfl, fun h => absurd h (by decide)⟩
      · have hstring : ((buffer.take (cmdMaxSize - 1)).takeWhile (· != 0)).length ≤ cmdMaxSize - 1 :=
          (List.takeWhile_prefix _).length_le.trans (List.length_take_le _ _)
        rw [if_neg herror, strnlen_eq (by omega), Option.map_some]
        generalize ((buffer.take (cmdMaxSize - 1)).takeWhile (· != 0)).length = count at hstring
        by_cases hcopy : (lib.strncpyS caName (nameLen - 1) buffer count).1 = 0
        · obtain ⟨s, hs, heq⟩ := hlib.of_eq_zero (by omega) (by omega) hcopy
          rw [if_neg (not_not.mpr hcopy), heq]
          refine ⟨_, _, _, rfl, fun _ => ⟨?_, by simp, hlength, by omega⟩⟩
          rw [List.length_append, List.length_cons, List.length_drop]
          omega
        · rw [if_pos hcopy]
          exact ⟨-1, _, _, rfl, fun h => absurd h (by decide)⟩

/-- The bytes of the command line that `ParsePkgName` is given leave a string in the buffer. -/
theorem parsePkgName_terminated (hlib : lib.CopiesStrings) (hcmd : cmdLine.length < 2 ^ 31)
    (hname : caName.length = nameLen) (hmax : nameLen < 2 ^ 31) (hzero : 0 ∈ caName) :
    ∃ ret caName', parsePkgName lib cmdLine cmdLine.length caName nameLen = some (ret, caName') ∧
      (ret = 0 → caName'.length = nameLen ∧ 0 ∈ caName') := by
  obtain ⟨hjava, hother⟩ := parsePkgName_spec hlib hcmd hname hmax
  by_cases h : java <:+ caName.takeWhile (· != 0)
  · by_cases hfits : (lastRun cmdLine).length + 2 ≤ nameLen
    · refine ⟨_, _, (hjava h).1 hfits, fun _ => ⟨?_, List.mem_append_right _ ?_⟩⟩
      · rw [List.length_append, List.length_replicate]
        omega
      · exact List.mem_replicate.mpr ⟨by omega, rfl⟩
    · obtain ⟨caName', hrun⟩ := (hjava h).2 hfits
      exact ⟨-1, caName', hrun, fun h => absurd h (by decide)⟩
  · exact ⟨0, caName, hother h, fun _ => ⟨hname, hzero⟩⟩

theorem teeGetPkgName_spec (hlib : lib.CopiesStrings) (fopen : Option CmdLine) {path : List UInt8}
    {pathLen : Nat} (hpath : path.length = pathLen) :
    ∃ ret path', teeGetPkgName lib fopen path pathLen = some (ret, path') ∧
      (ret = 0 → path'.length = pathLen ∧ 0 ∈ path') := by
  by_cases hlong : maxPathLength < pathLen
  · exact ⟨-1, path, if_pos hlong, fun h => absurd h (by decide)⟩
  · have hcaName : ∃ ret caName, teeGetCaName lib fopen path pathLen = some (ret, caName) ∧
        (0 ≤ ret → caName.length = pathLen ∧ 0 ∈ caName) := by
      rw [teeGetCaName]
      by_cases hnil : pathLen = 0
      · exact ⟨-1, path, if_pos hnil, fun h => absurd h (by decide)⟩
      · have hmax : pathLen < 2 ^ 31 := (Nat.le_of_not_lt hlong).trans_lt (by decide)
        obtain ⟨bytesRead, temp, caName, hread, hok⟩ := readCmdLine_spec hlib fopen hpath hmax
        rw [if_neg hnil, hread, Option.bind_some]
        by_cases hpos : bytesRead ≤ 0
        · rw [if_pos hpos]
          exact ⟨-1, caName, rfl, fun h => absurd h (by decide)⟩
        · obtain ⟨hname, hzero, htemp, hless⟩ := hok (Int.lt_of_not_ge hpos)
          have hmaxSize : cmdMaxSize = 1024 := rfl
          have hcmd : (temp.take bytesRead.toNat).length = bytesRead.toNat := by
            rw [List.length_take]
            omega
          obtain ⟨ret, caName', hparse, hret⟩ :=
            parsePkgName_terminated hlib (by rw [hcmd]; omega) hname hmax hzero
          rw [hcmd] at hparse
          rw [if_neg hpos, hparse, Option.map_some]
          by_cases hzeroRet : ret = 0
          · rw [if_neg (not_not.mpr hzeroRet)]
            exact ⟨bytesRead, caName', rfl, fun _ => hret hzeroRet⟩
          · rw [if_pos hzeroRet]
            exact ⟨-1, caName', rfl, fun h => absurd h (by decide)⟩
    obtain ⟨ret, caName, hrun, hzero⟩ := hcaName
    rw [teeGetPkgName, if_neg hlong, hrun, Option.map_some]
    dsimp only
    split_ifs with hfailed _ hroom
    · exact ⟨-1, caName, rfl, fun h => absurd h (by decide)⟩
    · obtain ⟨hlength, -⟩ := hzero (Int.le_of_not_gt hfailed)
      refine ⟨0, _, rfl, fun _ => ⟨?_, List.mem_append_right _ List.mem_cons_self⟩⟩
      rw [List.length_append, List.length_cons, List.length_drop]
      omega
    · exact ⟨-1, caName, rfl, fun h => absurd h (by decide)⟩
    · exact ⟨0, caName, rfl, fun _ => hzero (Int.le_of_not_gt hfailed)⟩

end ITrustee.Authentication
