import Mathlib.Tactic

/-!
# Names of log files and archives

The names `tlogcat.c` assembles: a log file carries the identifier of a trusted application and an
index, an archive the same with its own ending, and a log file about to be archived stands in the
temporary directory. The identifier with all bytes zero is that of the system itself. Different
identifiers and indices give different names, and no name is of two kinds.
-/

namespace ITrustee.Tlogcat

def fileNameMaxBuf : Nat := 256

def uuidMaxStrLen : Nat := 40

structure TeeUuid where
  timeLow : UInt32
  timeMid : UInt16
  timeHiAndVersion : UInt16
  clockSeqAndNode : Fin 8 → UInt8
  deriving DecidableEq

/-- The identifier with all bytes zero. -/
def TeeUuid.zero : TeeUuid := ⟨0, 0, 0, fun _ => 0⟩

/-- `IsTaUuid`: some byte is not zero. -/
def isTaUuid (uuid : TeeUuid) : Bool :=
  uuid.timeLow != 0 || uuid.timeMid != 0 || uuid.timeHiAndVersion != 0 ||
    (List.finRange 8).any fun i => uuid.clockSeqAndNode i != 0

/-- `snprintf_s` into a buffer of `size` characters. -/
def snprintfS (size : Nat) (s : List Char) : Option (List Char) :=
  if s.length < size then some s else none

def hexDigit (n : Nat) : Char := Char.ofNat (if n < 10 then 48 + n else 55 + n)

/-- The last `width` digits of a number in base 16. -/
def upperHex : Nat → Nat → List Char
  | 0, _ => []
  | width + 1, n => upperHex width (n / 16) ++ [hexDigit (n % 16)]

/-- What `GetUuidStr` prints. -/
def uuidDigits (uuid : TeeUuid) : List Char :=
  upperHex 8 uuid.timeLow.toNat ++ (upperHex 4 uuid.timeMid.toNat ++
    (upperHex 4 uuid.timeHiAndVersion.toNat ++
      (List.finRange 8).flatMap fun i => upperHex 2 (uuid.clockSeqAndNode i).toNat))

/-- `GetUuidStr`; the buffer is left as it was if the string does not fit. -/
def getUuidStr (uuid : TeeUuid) (name : List Char) : List Char :=
  (snprintfS uuidMaxStrLen (uuidDigits uuid)).getD name

structure FileNameAttr where
  uuidAscii : List Char
  isTa : Bool
  index : Nat

def logAssembleFilename (logPath : List Char) (nameAttr : FileNameAttr) : Option (List Char) :=
  snprintfS fileNameMaxBuf
    (if nameAttr.isTa then
      logPath ++ ("LOG@".toList ++ (nameAttr.uuidAscii ++ ("-".toList ++
        Nat.toDigits 10 nameAttr.index)))
    else logPath ++ ("teeOS_log".toList ++ ("-".toList ++ Nat.toDigits 10 nameAttr.index)))

def logAssembleCompressFilename (logPath : List Char) (nameAttr : FileNameAttr) :
    Option (List Char) :=
  snprintfS fileNameMaxBuf
    (if nameAttr.isTa then
      logPath ++ ("LOG@".toList ++ (nameAttr.uuidAscii ++ ("-".toList ++
        (Nat.toDigits 10 nameAttr.index ++ ".tar.gz".toList))))
    else logPath ++ ("teeos-log".toList ++ ("-".toList ++
      (Nat.toDigits 10 nameAttr.index ++ ".tar.gz".toList))))

/-- The log directory, short enough for every name to fit its buffer. -/
structure LogPaths where
  teePath : List Char
  fits : teePath.length ≤ 200

/-- The directory of the default build. -/
def LogPaths.default : LogPaths := ⟨"/var/log/tee/".toList, by decide⟩

def LogPaths.teeTempPath (P : LogPaths) : List Char := P.teePath ++ "/_tmp/".toList

/-! ### The names -/

/-- The name of a log file in its directory. -/
def logName (u : TeeUuid) (i : Nat) : List Char :=
  if isTaUuid u then "LOG@".toList ++ (uuidDigits u ++ ("-".toList ++ Nat.toDigits 10 i))
  else "teeOS_log".toList ++ ("-".toList ++ Nat.toDigits 10 i)

def archiveName (u : TeeUuid) (i : Nat) : List Char :=
  if isTaUuid u then
    "LOG@".toList ++ (uuidDigits u ++ ("-".toList ++ (Nat.toDigits 10 i ++ ".tar.gz".toList)))
  else "teeos-log".toList ++ ("-".toList ++ (Nat.toDigits 10 i ++ ".tar.gz".toList))

section Digits

theorem hexDigit_inj {m n : Nat} (hm : m < 16) (hn : n < 16) (h : hexDigit m = hexDigit n) :
    m = n := by
  have hall : ∀ a : Fin 16, ∀ b : Fin 16, hexDigit a = hexDigit b → a = b := by decide
  exact congrArg Fin.val (hall ⟨m, hm⟩ ⟨n, hn⟩ h)

@[simp] theorem upperHex_length (width n : Nat) : (upperHex width n).length = width := by
  induction width generalizing n with
  | zero => rfl
  | succ width ih => simp [upperHex, ih]

theorem upperHex_inj {width m n : Nat} (hm : m < 16 ^ width) (hn : n < 16 ^ width)
    (h : upperHex width m = upperHex width n) : m = n := by
  induction width generalizing m n with
  | zero =>
      rw [pow_zero] at hm hn
      omega
  | succ width ih =>
      rw [upperHex, upperHex] at h
      obtain ⟨hhigh, hlow⟩ := List.append_inj' h rfl
      rw [pow_succ] at hm hn
      have hdiv := ih (by omega) (by omega) hhigh
      have hmod := hexDigit_inj (Nat.mod_lt m (by decide)) (Nat.mod_lt n (by decide))
        (List.cons.inj hlow).1
      omega

theorem flatMap_upperHex_inj {is : List (Fin 8)} {f g : Fin 8 → UInt8}
    (h : (is.flatMap fun i => upperHex 2 (f i).toNat) = is.flatMap fun i => upperHex 2 (g i).toNat) :
    ∀ i ∈ is, f i = g i := by
  induction is with
  | nil => nofun
  | cons j is ih =>
      rw [List.flatMap_cons, List.flatMap_cons] at h
      obtain ⟨hhead, htail⟩ := List.append_inj h (by simp)
      intro i hi
      cases hi with
      | head => exact UInt8.toNat_inj.mp (upperHex_inj (f j).toNat_lt (g j).toNat_lt hhead)
      | tail _ hi => exact ih htail i hi

@[simp] theorem uuidDigits_length (u : TeeUuid) : (uuidDigits u).length = 32 := by
  simp [uuidDigits, List.length_flatMap]

theorem uuidDigits_inj {u v : TeeUuid} (h : uuidDigits u = uuidDigits v) : u = v := by
  rw [uuidDigits, uuidDigits] at h
  obtain ⟨hlow, h⟩ := List.append_inj h (by simp)
  obtain ⟨hmid, h⟩ := List.append_inj h (by simp)
  obtain ⟨hhigh, hclock⟩ := List.append_inj h (by simp)
  obtain ⟨low, mid, high, clock⟩ := u
  obtain ⟨low', mid', high', clock'⟩ := v
  have hlow : low = low' :=
    UInt32.toNat_inj.mp (upperHex_inj low.toNat_lt low'.toNat_lt hlow)
  have hmid : mid = mid' :=
    UInt16.toNat_inj.mp (upperHex_inj mid.toNat_lt mid'.toNat_lt hmid)
  have hhigh : high = high' :=
    UInt16.toNat_inj.mp (upperHex_inj high.toNat_lt high'.toNat_lt hhigh)
  have hclock : clock = clock' := by
    funext i
    exact flatMap_upperHex_inj hclock i (List.mem_finRange i)
  rw [hlow, hmid, hhigh, hclock]

theorem eq_zero_of_not_isTaUuid {u : TeeUuid} (h : isTaUuid u = false) : u = TeeUuid.zero := by
  obtain ⟨low, mid, high, clock⟩ := u
  simp only [isTaUuid, Bool.or_eq_false_iff, bne_eq_false_iff_eq, List.any_eq_false,
    bne_iff_ne, not_not] at h
  obtain ⟨⟨⟨rfl, rfl⟩, rfl⟩, hclock⟩ := h
  have hzero : clock = fun _ => 0 := by
    funext i
    exact hclock i (List.mem_finRange i)
  rw [hzero]
  rfl

theorem toDigits_inj {i j : Nat} (h : Nat.toDigits 10 i = Nat.toDigits 10 j) : i = j := by
  rw [← Nat.ofDigitChars_ten_toDigits (n := i), h, Nat.ofDigitChars_ten_toDigits]

end Digits

section Names

variable {u v : TeeUuid} {i j : Nat}

theorem logName_inj (h : logName u i = logName v j) : u = v ∧ i = j := by
  rw [logName, logName] at h
  split_ifs at h with hu hv hv
  · obtain ⟨huuid, hindex⟩ := List.append_inj (List.append_cancel_left h) (by simp)
    exact ⟨uuidDigits_inj huuid, toDigits_inj (List.append_cancel_left hindex)⟩
  · exact absurd h (by simp)
  · exact absurd h (by simp)
  · refine ⟨?_, toDigits_inj (List.append_cancel_left (List.append_cancel_left h))⟩
    have hzero := eq_zero_of_not_isTaUuid (u := u) (by simpa using hu)
    exact hzero.trans (eq_zero_of_not_isTaUuid (by simpa using hv)).symm

theorem archiveName_inj (h : archiveName u i = archiveName v j) : u = v ∧ i = j := by
  rw [archiveName, archiveName] at h
  split_ifs at h with hu hv hv
  · obtain ⟨huuid, hindex⟩ := List.append_inj (List.append_cancel_left h) (by simp)
    exact ⟨uuidDigits_inj huuid,
      toDigits_inj (List.append_cancel_right (List.append_cancel_left hindex))⟩
  · exact absurd h (by simp)
  · exact absurd h (by simp)
  · refine ⟨?_, toDigits_inj (List.append_cancel_right
      (List.append_cancel_left (List.append_cancel_left h)))⟩
    have hzero := eq_zero_of_not_isTaUuid (u := u) (by simpa using hu)
    exact hzero.trans (eq_zero_of_not_isTaUuid (by simpa using hv)).symm

/-- A log file's name ends with a digit. -/
theorem logName_getLast? (u : TeeUuid) (i : Nat) :
    ∃ c, (logName u i).getLast? = some c ∧ c.isDigit = true := by
  have hdigits : ∃ c, (Nat.toDigits 10 i).getLast? = some c ∧ c.isDigit = true := by
    have hne : Nat.toDigits 10 i ≠ [] := Nat.toDigits_ne_nil
    refine ⟨_, List.getLast?_eq_some_getLast hne, ?_⟩
    exact Nat.isDigit_of_mem_toDigits (by decide) le_rfl (List.getLast_mem hne)
  obtain ⟨c, hc, hdigit⟩ := hdigits
  refine ⟨c, ?_, hdigit⟩
  rw [logName]
  split_ifs <;> simp only [List.getLast?_append, hc, Option.some_or]

theorem archiveName_getLast? (u : TeeUuid) (i : Nat) : (archiveName u i).getLast? = some 'z' := by
  have hlast : ".tar.gz".toList.getLast? = some 'z' := rfl
  rw [archiveName]
  split_ifs <;> simp only [List.getLast?_append, hlast, Option.some_or]

theorem logName_ne_archiveName : logName u i ≠ archiveName v j := by
  intro h
  obtain ⟨c, hc, hdigit⟩ := logName_getLast? u i
  rw [h, archiveName_getLast?] at hc
  obtain rfl := Option.some.inj hc
  exact absurd hdigit (by decide)

theorem logName_length (hi : i < 10) : (logName u i).length ≤ 38 := by
  rw [logName, Nat.toDigits_of_lt_base hi]
  split_ifs <;> simp

theorem archiveName_length (hi : i < 10) : (archiveName u i).length ≤ 45 := by
  rw [archiveName, Nat.toDigits_of_lt_base hi]
  split_ifs <;> simp

end Names

/-! ### The paths -/

namespace LogPaths

variable (P : LogPaths)

def logFile (u : TeeUuid) (i : Nat) : List Char := P.teePath ++ logName u i

def tempFile (u : TeeUuid) (i : Nat) : List Char := P.teeTempPath ++ logName u i

def archive (u : TeeUuid) (i : Nat) : List Char := P.teePath ++ archiveName u i

variable {P} {u v : TeeUuid} {i j : Nat}

theorem logFile_inj (h : P.logFile u i = P.logFile v j) : u = v ∧ i = j :=
  logName_inj (List.append_cancel_left h)

theorem tempFile_inj (h : P.tempFile u i = P.tempFile v j) : u = v ∧ i = j :=
  logName_inj (List.append_cancel_left h)

theorem archive_inj (h : P.archive u i = P.archive v j) : u = v ∧ i = j :=
  archiveName_inj (List.append_cancel_left h)

theorem logFile_ne_archive : P.logFile u i ≠ P.archive v j :=
  fun h => logName_ne_archiveName (List.append_cancel_left h)

/-- A path of the temporary directory. -/
def IsTemp (P : LogPaths) (p : List Char) : Prop := P.teeTempPath <+: p

theorem isTemp_tempFile : P.IsTemp (P.tempFile u i) := List.prefix_append _ _

theorem not_isTemp_logFile : ¬P.IsTemp (P.logFile u i) := by
  rw [IsTemp, teeTempPath, logFile, List.prefix_append_right_inj, logName]
  split_ifs <;> simp

theorem not_isTemp_archive : ¬P.IsTemp (P.archive u i) := by
  rw [IsTemp, teeTempPath, archive, List.prefix_append_right_inj, archiveName]
  split_ifs <;> simp

end LogPaths

/-! ### What the code assembles -/

theorem getUuidStr_eq (u : TeeUuid) (name : List Char) : getUuidStr u name = uuidDigits u := by
  rw [getUuidStr, snprintfS, uuidDigits_length, if_pos (by decide)]
  rfl

theorem logAssembleFilename_eq {path : List Char} (hpath : path.length ≤ 206) (u : TeeUuid) {i : Nat}
    (hi : i < 10) : logAssembleFilename path ⟨uuidDigits u, isTaUuid u, i⟩ =
      some (path ++ logName u i) := by
  have hlength := logName_length (u := u) hi
  have hname : (if isTaUuid u then path ++ ("LOG@".toList ++ (uuidDigits u ++ ("-".toList ++
      Nat.toDigits 10 i))) else path ++ ("teeOS_log".toList ++ ("-".toList ++ Nat.toDigits 10 i))) =
      path ++ logName u i := by
    rw [logName]
    split_ifs <;> rfl
  rw [logAssembleFilename]
  dsimp only
  rw [hname, snprintfS, if_pos]
  rw [List.length_append, fileNameMaxBuf]
  omega

theorem logAssembleFilename_logFile (P : LogPaths) (u : TeeUuid) {i : Nat} (hi : i < 10) :
    logAssembleFilename P.teePath ⟨uuidDigits u, isTaUuid u, i⟩ = some (P.logFile u i) :=
  logAssembleFilename_eq (P.fits.trans (by decide)) u hi

theorem logAssembleFilename_tempFile (P : LogPaths) (u : TeeUuid) {i : Nat} (hi : i < 10) :
    logAssembleFilename P.teeTempPath ⟨uuidDigits u, isTaUuid u, i⟩ = some (P.tempFile u i) := by
  refine logAssembleFilename_eq ?_ u hi
  have hfits := P.fits
  rw [LogPaths.teeTempPath, List.length_append]
  exact Nat.add_le_add hfits le_rfl

theorem logAssembleCompressFilename_archive (P : LogPaths) (u : TeeUuid) {i : Nat} (hi : i < 10) :
    logAssembleCompressFilename P.teePath ⟨uuidDigits u, isTaUuid u, i⟩ = some (P.archive u i) := by
  have hlength := archiveName_length (u := u) hi
  have hfits := P.fits
  have hname : (if isTaUuid u then P.teePath ++ ("LOG@".toList ++ (uuidDigits u ++ ("-".toList ++
      (Nat.toDigits 10 i ++ ".tar.gz".toList)))) else P.teePath ++ ("teeos-log".toList ++
        ("-".toList ++ (Nat.toDigits 10 i ++ ".tar.gz".toList)))) = P.archive u i := by
    rw [LogPaths.archive, archiveName]
    split_ifs <;> rfl
  rw [logAssembleCompressFilename]
  dsimp only
  rw [hname, snprintfS, if_pos]
  rw [LogPaths.archive, List.length_append, fileNameMaxBuf]
  omega

end ITrustee.Tlogcat
