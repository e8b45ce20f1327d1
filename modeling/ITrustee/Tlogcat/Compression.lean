import Mathlib.Tactic
import ITrustee.Tlogcat.LogFiles

/-!
# What a compression does

One lemma for each function on the way through `LogFilesCompress`, each of them about the files that the
names of the log directory refer to. The moves take the log files of one identifier to the temporary
directory; the choice of an archive either finds a free name or drops the oldest archive and renames the
others; packing writes one archive; and the temporary files are removed. Everything else stays.
-/

namespace ITrustee.Tlogcat

open LogPaths

/-- The file behind a name and its content are as before. -/
def SameFile (s s' : LogState) (p : List Char) : Prop :=
  s'.disk.find p = s.disk.find p ∧ s'.disk.content p = s.disk.content p

theorem SameFile.refl (s : LogState) (p : List Char) : SameFile s s p := ⟨rfl, rfl⟩

theorem SameFile.trans {s t u : LogState} {p : List Char} (h : SameFile s t p)
    (h' : SameFile t u p) : SameFile s u p :=
  ⟨h'.1.trans h.1, h'.2.trans h.2⟩

/-- If no data is written, the name decides. -/
theorem SameFile.of_find {s s' : LogState} {p : List Char} (hdata : s'.disk.data = s.disk.data)
    (hfind : s'.disk.find p = s.disk.find p) : SameFile s s' p :=
  ⟨hfind, Disk.content_congr hfind fun _ _ => congrFun hdata _⟩

/-- What a file is moved with: its number and its data. -/
theorem content_of_moved {s s' : LogState} {p q : List Char} (hdata : s'.disk.data = s.disk.data)
    (hfind : s'.disk.find q = s.disk.find p) : s'.disk.content q = s.disk.content p := by
  rw [Disk.content, Disk.content, hfind, hdata]

/-- The slots, the record of the run and the identifier in use are as before. -/
structure SameTable (s s' : LogState) : Prop where
  g_files : s'.g_files = s.g_files
  trace : s'.trace = s.trace
  g_uuidAscii : s'.g_uuidAscii = s.g_uuidAscii

theorem SameTable.refl (s : LogState) : SameTable s s := ⟨rfl, rfl, rfl⟩

theorem SameTable.trans {s t u : LogState} (h : SameTable s t) (h' : SameTable t u) :
    SameTable s u :=
  ⟨h'.g_files.trans h.g_files, h'.trace.trans h.trace, h'.g_uuidAscii.trans h.g_uuidAscii⟩

variable {C : Config} {u : TeeUuid} {s : LogState}

/-! ### The temporary directory -/

theorem find_foldl_unlink (names : List (List Char)) (d : Disk LogByte) (q : List Char) :
    (names.foldl Disk.unlink d).find q = if q ∈ names then none else d.find q := by
  induction names generalizing d with
  | nil => simp
  | cons p names ih =>
      rw [List.foldl_cons, ih, Disk.find_unlink]
      by_cases hq : q ∈ names
      · rw [if_pos hq, if_pos (List.mem_cons_of_mem p hq)]
      · rw [if_neg hq]
        by_cases hp : q = p
        · rw [if_pos hp, if_pos (by rw [hp]; exact List.mem_cons_self)]
        · rw [if_neg hp, if_neg (by simp [hp, hq])]

theorem data_foldl_unlink (names : List (List Char)) (d : Disk LogByte) :
    (names.foldl Disk.unlink d).data = d.data := by
  induction names generalizing d with
  | nil => rfl
  | cons p names ih => exact ih _

/-- `MkdirTmpPath` leaves the temporary directory empty. -/
theorem mkdirTmpPath_spec (C : Config) (s : LogState) :
    SameTable s (mkdirTmpPath C s) ∧ (mkdirTmpPath C s).disk.data = s.disk.data ∧
      (∀ p, C.paths.IsTemp p → (mkdirTmpPath C s).disk.find p = none) ∧
        ∀ p, ¬C.paths.IsTemp p → (mkdirTmpPath C s).disk.find p = s.disk.find p := by
  have hmem (p : List Char) (hp : C.paths.IsTemp p) (hkey : s.disk.find p ≠ none) :
      p ∈ tempNames C s := by
    rw [tempNames, List.mem_filter, List.isPrefixOf_iff_prefix]
    refine ⟨AList.mem_keys.mp ?_, hp⟩
    by_contra hnot
    exact hkey (AList.lookup_eq_none.mpr hnot)
  rw [mkdirTmpPath]
  split_ifs with hempty
  · refine ⟨SameTable.refl s, rfl, fun p hp => ?_, fun _ _ => rfl⟩
    by_contra hkey
    have hin := hmem p hp hkey
    rw [hempty] at hin
    exact absurd hin List.not_mem_nil
  · refine ⟨⟨rfl, rfl, rfl⟩, data_foldl_unlink _ _, fun p hp => ?_, fun p hp => ?_⟩
    · rw [logTmpDirClear]
      refine (find_foldl_unlink _ _ _).trans ?_
      by_cases hkey : s.disk.find p = none
      · rw [hkey, ite_self]
      · rw [if_pos (hmem p hp hkey)]
    · rw [logTmpDirClear]
      refine (find_foldl_unlink _ _ _).trans (if_neg fun hin => hp ?_)
      rw [tempNames, List.mem_filter, List.isPrefixOf_iff_prefix] at hin
      exact hin.2

/-! ### The moves -/

/-- A rename onto a free name. -/
theorem rename_spec (s : LogState) {old new : List Char} (hfree : s.disk.find new = none)
    (hne : old ≠ new) : SameTable s (s.rename old new) ∧
      (s.rename old new).disk.data = s.disk.data ∧
        (s.rename old new).disk.find new = s.disk.find old ∧
          (s.rename old new).disk.find old = none ∧
            ∀ p, p ≠ old → p ≠ new → (s.rename old new).disk.find p = s.disk.find p := by
  refine ⟨⟨rfl, rfl, rfl⟩, ?_⟩
  change ((s.disk.rename old new).getD s.disk).data = _ ∧
    ((s.disk.rename old new).getD s.disk).find new = _ ∧
      ((s.disk.rename old new).getD s.disk).find old = _ ∧
        ∀ p, p ≠ old → p ≠ new → ((s.disk.rename old new).getD s.disk).find p = _
  cases h : s.disk.rename old new with
  | none =>
      have hnone := (Disk.rename_eq_none ..).mp h
      exact ⟨rfl, by rw [Option.getD_none, hfree, hnone], hnone, fun _ _ _ => rfl⟩
  | some d =>
      obtain ⟨n, hn, hdata, -, hfind⟩ := Disk.rename_some h
      refine ⟨hdata, ?_, ?_, fun p hold hnew => ?_⟩
      · rw [Option.getD_some, hfind, if_pos rfl, hn]
      · rw [Option.getD_some, hfind, if_neg hne, if_pos rfl]
      · rw [Option.getD_some, hfind, if_neg hnew, if_neg hold]

theorem moveFile_eq (hascii : s.g_uuidAscii = uuidDigits u) {i : Nat} (hi : i < 10) :
    moveFileToTmpPath C (isTaUuid u) s i =
      ({ s with g_logName := C.paths.logFile u i,
                g_logNameCompress := C.paths.tempFile u i } : LogState).rename
        (C.paths.logFile u i) (C.paths.tempFile u i) := by
  simp only [moveFileToTmpPath, hascii, logAssembleFilename_logFile C.paths u hi,
    logAssembleFilename_tempFile C.paths u hi]

theorem logFile_ne_tempFile {v : TeeUuid} {i j : Nat} :
    C.paths.logFile u i ≠ C.paths.tempFile v j := by
  intro h
  refine not_isTemp_logFile (P := C.paths) (u := u) (i := i) ?_
  rw [h]
  exact isTemp_tempFile

/-- What moving the files with the given indices does. -/
structure Moved (C : Config) (u : TeeUuid) (is : List Nat) (s s' : LogState) : Prop where
  table : SameTable s s'
  data : s'.disk.data = s.disk.data
  temp : ∀ i ∈ is, s'.disk.find (C.paths.tempFile u i) = s.disk.find (C.paths.logFile u i)
  gone : ∀ i ∈ is, s'.disk.find (C.paths.logFile u i) = none
  other : ∀ p, (∀ i ∈ is, p ≠ C.paths.logFile u i ∧ p ≠ C.paths.tempFile u i) →
    s'.disk.find p = s.disk.find p

theorem foldl_move_spec (is : List Nat) (hnodup : is.Nodup) (hlt : ∀ i ∈ is, i < 10)
    (hascii : s.g_uuidAscii = uuidDigits u)
    (hfree : ∀ i ∈ is, s.disk.find (C.paths.tempFile u i) = none) :
    Moved C u is s (is.foldl (moveFileToTmpPath C (isTaUuid u)) s) := by
  induction is generalizing s with
  | nil => exact ⟨SameTable.refl s, rfl, nofun, nofun, fun _ _ => rfl⟩
  | cons i is ih =>
      rw [List.nodup_cons] at hnodup
      obtain ⟨htable, hdata, htemp, hgone, hother⟩ := rename_spec
        { s with g_logName := C.paths.logFile u i, g_logNameCompress := C.paths.tempFile u i }
        (hfree i List.mem_cons_self) logFile_ne_tempFile
      rw [← moveFile_eq hascii (hlt i List.mem_cons_self)] at htable hdata htemp hgone hother
      rw [List.foldl_cons]
      generalize moveFileToTmpPath C (isTaUuid u) s i = t at htable hdata htemp hgone hother
      have hne (j : Nat) (hj : j ∈ is) : j ≠ i := fun heq => hnodup.1 (heq ▸ hj)
      have htemps (j : Nat) (hj : j ∈ is) :
          t.disk.find (C.paths.tempFile u j) = s.disk.find (C.paths.tempFile u j) :=
        hother _ (fun h => logFile_ne_tempFile h.symm) fun h => hne j hj (tempFile_inj h).2
      have hlogs (j : Nat) (hj : j ∈ is) :
          t.disk.find (C.paths.logFile u j) = s.disk.find (C.paths.logFile u j) :=
        hother _ (fun h => hne j hj (logFile_inj h).2) logFile_ne_tempFile
      obtain ⟨htable', hdata', htemp', hgone', hother'⟩ := ih (s := t) hnodup.2
        (fun j hj => hlt j (List.mem_cons_of_mem i hj)) (htable.g_uuidAscii.trans hascii)
        fun j hj => (htemps j hj).trans (hfree j (List.mem_cons_of_mem i hj))
      have hkept (p : List Char) (hp : ∀ j, p = C.paths.logFile u j ∨ p = C.paths.tempFile u j → j = i) :
          ∀ j ∈ is, p ≠ C.paths.logFile u j ∧ p ≠ C.paths.tempFile u j :=
        fun j hj => ⟨fun h => hne j hj (hp j (Or.inl h)), fun h => hne j hj (hp j (Or.inr h))⟩
      have htempKept := hother' (C.paths.tempFile u i) (hkept _ fun j h => by
        obtain h | h := h
        · exact absurd h.symm logFile_ne_tempFile
        · exact (tempFile_inj h).2.symm)
      have hlogKept := hother' (C.paths.logFile u i) (hkept _ fun j h => by
        obtain h | h := h
        · exact (logFile_inj h).2.symm
        · exact absurd h logFile_ne_tempFile)
      refine ⟨SameTable.trans ⟨htable.g_files, htable.trace, htable.g_uuidAscii⟩ htable',
        hdata'.trans hdata, fun j hj => ?_, fun j hj => ?_, fun p hp => ?_⟩
      · cases hj with
        | head => exact htempKept.trans htemp
        | tail _ hj => exact (htemp' j hj).trans (hlogs j hj)
      · cases hj with
        | head => exact hlogKept.trans hgone
        | tail _ hj => exact hgone' j hj
      · have hpi := hp i List.mem_cons_self
        exact (hother' p fun j hj => hp j (List.mem_cons_of_mem i hj)).trans (hother p hpi.1 hpi.2)

/-! ### The choice of an archive -/

/-- Nothing but the buffer of archive names changes. -/
structure Probed (s s' : LogState) : Prop where
  table : SameTable s s'
  disk : s'.disk = s.disk

theorem archive_ne {i j : Nat} (h : i ≠ j) : C.paths.archive u i ≠ C.paths.archive u j :=
  fun heq => h (archive_inj heq).2

theorem assemble_archive (hascii : s.g_uuidAscii = uuidDigits u) {i : Nat} (hi : i < 10) :
    logAssembleCompressFilename C.paths.teePath ⟨s.g_uuidAscii, isTaUuid u, i⟩ =
      some (C.paths.archive u i) := by
  rw [hascii]
  exact logAssembleCompressFilename_archive C.paths u hi

/-- `GetCompressFile` finds the first name that is free. -/
theorem getCompressFileLoop_spec (n b : Nat) (hlt : b + n ≤ 10)
    (hascii : s.g_uuidAscii = uuidDigits u) {t : LogState} {found : Bool}
    (h : getCompressFileLoop C (isTaUuid u) (List.range' b n) s = (t, found)) :
    Probed s t ∧
      (found = true → ∃ m, b ≤ m ∧ m < b + n ∧ s.disk.find (C.paths.archive u m) = none ∧
        t.g_logNameCompress = C.paths.archive u m ∧
          ∀ j, b ≤ j → j < m → s.disk.find (C.paths.archive u j) ≠ none) ∧
      (found = false → ∀ j, b ≤ j → j < b + n → s.disk.find (C.paths.archive u j) ≠ none) := by
  induction n generalizing b s with
  | zero =>
      obtain ⟨rfl, rfl⟩ := Prod.mk.inj h
      exact ⟨⟨SameTable.refl s, rfl⟩, nofun, fun _ j hb hj => by omega⟩
  | succ n ih =>
      rw [List.range'_succ, getCompressFileLoop, assemble_archive hascii (by omega)] at h
      dsimp only at h
      split_ifs at h with hfree
      · obtain ⟨rfl, rfl⟩ := Prod.mk.inj h
        exact ⟨⟨⟨rfl, rfl, rfl⟩, rfl⟩,
          fun _ => ⟨b, le_rfl, by omega, hfree, rfl, fun j hb hj => by omega⟩, nofun⟩
      · obtain ⟨hprobed, hfound, hnone⟩ := ih
          (s := { s with g_logNameCompress := C.paths.archive u b }) (b + 1) (by omega) hascii h
        have hpresent (j : Nat) (hb : b ≤ j)
            (hlater : b + 1 ≤ j → s.disk.find (C.paths.archive u j) ≠ none) :
            s.disk.find (C.paths.archive u j) ≠ none := by
          obtain rfl | hj := hb.eq_or_lt
          · exact hfree
          · exact hlater hj
        refine ⟨⟨⟨hprobed.table.g_files, hprobed.table.trace, hprobed.table.g_uuidAscii⟩,
          hprobed.disk⟩, fun htrue => ?_,
          fun hfalse j hb hj => hpresent j hb fun hb' => hnone hfalse j hb' (by omega)⟩
        obtain ⟨m, hbm, hm, hmfree, hname, hbelow⟩ := hfound htrue
        exact ⟨m, by omega, by omega, hmfree, hname,
          fun j hb hj => hpresent j hb fun hb' => hbelow j hb' hj⟩

/-- The archives from `b` to `e` have taken the names before theirs, and the name `e` is free. -/
structure Arranged (C : Config) (u : TeeUuid) (b e : Nat) (s s' : LogState) : Prop where
  table : SameTable s s'
  data : s'.disk.data = s.disk.data
  shifted : ∀ j, b ≤ j → j < e →
    s'.disk.find (C.paths.archive u j) = s.disk.find (C.paths.archive u (j + 1))
  free : s'.disk.find (C.paths.archive u e) = none
  other : ∀ p, (∀ j, b ≤ j → j ≤ e → p ≠ C.paths.archive u j) → s'.disk.find p = s.disk.find p

theorem arrangeLoop_spec (n b : Nat) (hlt : b + n < 10) (hascii : s.g_uuidAscii = uuidDigits u)
    (hname : s.g_logName = C.paths.archive u b)
    (hfree : s.disk.find (C.paths.archive u b) = none) :
    Arranged C u b (b + n) s (arrangeLoop C (isTaUuid u) (List.range' (b + 1) n) s) ∧
      (0 < n → (arrangeLoop C (isTaUuid u) (List.range' (b + 1) n) s).g_logNameCompress =
        C.paths.archive u (b + n)) := by
  induction n generalizing b s with
  | zero =>
      refine ⟨⟨SameTable.refl s, rfl, fun j hb hj => ?_, hfree, fun _ _ => rfl⟩, nofun⟩
      omega
  | succ n ih =>
      rw [List.range'_succ, arrangeLoop, assemble_archive hascii (by omega)]
      have hfree' : s.disk.find s.g_logName = none := by
        rw [hname]
        exact hfree
      have hne : C.paths.archive u (b + 1) ≠ s.g_logName := by
        rw [hname]
        exact archive_ne (Nat.succ_ne_self b)
      obtain ⟨htable, hdata, hmoved, hgone, hkept⟩ := rename_spec
        { s with g_logNameCompress := C.paths.archive u (b + 1) } hfree' hne
      have hbuffer : (({ s with g_logNameCompress := C.paths.archive u (b + 1) } : LogState).rename
          (C.paths.archive u (b + 1)) s.g_logName).g_logNameCompress =
            C.paths.archive u (b + 1) := rfl
      dsimp only
      generalize ({ s with g_logNameCompress := C.paths.archive u (b + 1) } : LogState).rename
        (C.paths.archive u (b + 1)) s.g_logName = t at htable hdata hmoved hgone hkept hbuffer ⊢
      rw [hname] at hmoved hkept
      obtain ⟨harranged, hlast⟩ := ih (s := { t with g_logName := t.g_logNameCompress }) (b + 1)
        (by omega) (htable.g_uuidAscii.trans hascii) hbuffer hgone
      rw [Nat.add_right_comm b 1 n] at harranged hlast
      refine ⟨⟨?_, harranged.data.trans hdata, fun j hb hj => ?_, harranged.free,
        fun p hp => ?_⟩, fun _ => ?_⟩
      · exact SameTable.trans ⟨htable.g_files, htable.trace, htable.g_uuidAscii⟩
          ⟨harranged.table.g_files, harranged.table.trace, harranged.table.g_uuidAscii⟩
      · obtain rfl | hj' := hb.eq_or_lt
        · rw [harranged.other _ fun i hi _ => archive_ne (by omega)]
          exact hmoved
        · rw [harranged.shifted j hj' (by omega)]
          exact hkept (C.paths.archive u (j + 1)) (archive_ne (by omega)) (archive_ne (by omega))
      · rw [harranged.other p fun i hi hle => hp i (by omega) (by omega)]
        exact hkept p (hp _ (by omega) (by omega)) (hp _ le_rfl (by omega))
      · cases n with
        | zero => exact hbuffer
        | succ n => exact hlast (Nat.succ_pos n)

/-- `ArrangeCompressFile` drops the oldest archive and leaves the last name free. -/
theorem arrangeCompressFile_spec (hascii : s.g_uuidAscii = uuidDigits u) :
    Arranged C u 0 3 s (arrangeCompressFile C u s) ∧
      (arrangeCompressFile C u s).g_logNameCompress = C.paths.archive u 3 := by
  rw [arrangeCompressFile, assemble_archive hascii (by decide)]
  dsimp only
  obtain ⟨harranged, hname⟩ := arrangeLoop_spec
    (s := { s with g_logName := C.paths.archive u 0,
                   disk := s.disk.unlink (C.paths.archive u 0) })
    3 0 (by decide) hascii rfl ((Disk.find_unlink ..).trans (if_pos rfl))
  have hkept (p : List Char) (hp : p ≠ C.paths.archive u 0) :
      (s.disk.unlink (C.paths.archive u 0)).find p = s.disk.find p :=
    (Disk.find_unlink ..).trans (if_neg hp)
  refine ⟨⟨⟨harranged.table.g_files, harranged.table.trace, harranged.table.g_uuidAscii⟩,
    harranged.data, fun j hb hj => ?_, harranged.free, fun p hp => ?_⟩, hname (by decide)⟩
  · exact (harranged.shifted j hb hj).trans (hkept _ (archive_ne (Nat.succ_ne_zero j)))
  · exact (harranged.other p hp).trans (hkept p (hp 0 le_rfl (by decide)))

/-- The archive `m` is chosen: the first free name, or the last one after the others have moved. -/
structure Chosen (C : Config) (u : TeeUuid) (m : Nat) (s s' : LogState) : Prop where
  table : SameTable s s'
  data : s'.disk.data = s.disk.data
  name : s'.g_compressFile = C.paths.archive u m
  lt : m < logFileIndexMax
  free : s'.disk.find (C.paths.archive u m) = none
  archives : (∀ j < m, s.disk.find (C.paths.archive u j) ≠ none) ∧
      (∀ j, s'.disk.find (C.paths.archive u j) = s.disk.find (C.paths.archive u j)) ∨
    m = 3 ∧ (∀ j < logFileIndexMax, s.disk.find (C.paths.archive u j) ≠ none) ∧
      (∀ j < m, s'.disk.find (C.paths.archive u j) = s.disk.find (C.paths.archive u (j + 1))) ∧
        ∀ j, logFileIndexMax ≤ j →
          s'.disk.find (C.paths.archive u j) = s.disk.find (C.paths.archive u j)
  other : ∀ p, (∀ j, p ≠ C.paths.archive u j) → s'.disk.find p = s.disk.find p

theorem chooseArchive_spec (hascii : s.g_uuidAscii = uuidDigits u) :
    ∃ m, Chosen C u m s (chooseArchive C u s) := by
  rcases hget : getCompressFile C u s with ⟨t, found⟩
  rw [chooseArchive, hget]
  dsimp only
  rw [getCompressFile, List.range_eq_range'] at hget
  obtain ⟨hprobed, hfound, hnone⟩ :=
    getCompressFileLoop_spec (C := C) logFileIndexMax 0 (by decide) hascii hget
  have hdisk : t.disk = s.disk := hprobed.disk
  cases found with
  | true =>
      obtain ⟨m, -, hm, hfree, hname, hbelow⟩ := hfound rfl
      rw [Nat.zero_add] at hm
      refine ⟨m, ⟨hprobed.table.g_files, hprobed.table.trace, hprobed.table.g_uuidAscii⟩,
        congrArg Disk.data hdisk, hname, hm, ?_, Or.inl ⟨fun j hj => hbelow j (Nat.zero_le j) hj,
          fun j => ?_⟩, fun p _ => ?_⟩
      · rw [← hfree, ← hdisk]
        rfl
      · rw [← hdisk]
        rfl
      · rw [← hdisk]
        rfl
  | false =>
      obtain ⟨harranged, hname⟩ := arrangeCompressFile_spec (C := C)
        (hprobed.table.g_uuidAscii.trans hascii)
      generalize arrangeCompressFile C u t = r at harranged hname
      have htable := hprobed.table.trans harranged.table
      refine ⟨3, ⟨htable.g_files, htable.trace, htable.g_uuidAscii⟩,
        harranged.data.trans (congrArg Disk.data hdisk), hname, by decide, harranged.free,
        Or.inr ⟨rfl, fun j hj => hnone rfl j (Nat.zero_le j) (by omega), fun j hj => ?_,
          fun j hj => ?_⟩, fun p hp => ?_⟩
      · exact (harranged.shifted j (Nat.zero_le j) (by omega)).trans (by rw [hdisk])
      · have hne (i : Nat) (hi : i ≤ 3) : C.paths.archive u j ≠ C.paths.archive u i := by
          rw [logFileIndexMax] at hj
          exact archive_ne (by omega)
        exact (harranged.other _ fun i _ hi => hne i hi).trans (by rw [hdisk])
      · exact (harranged.other p fun j _ _ => hp j).trans (by rw [hdisk])

/-! ### Packing -/

/-- Packing to a name that is free. -/
theorem tarZipFiles_spec (names : List (List Char)) {output : List Char} {d : Disk LogByte}
    (hfree : d.find output = none) :
    (tarZipFiles C names output d).content output =
        some (C.tarZip (names.filterMap fun name => (d.content name).map fun bytes => (name, bytes))) ∧
      ∀ p, p ≠ output → (tarZipFiles C names output d).find p = d.find p ∧
        (tarZipFiles C names output d).content p = d.content p := by
  simp only [tarZipFiles, hfree]
  generalize C.tarZip _ = packed
  have hdata : (d.create output).data d.used = [] := Function.update_self ..
  refine ⟨?_, fun p hp => ?_⟩
  · rw [Disk.content_write _ _ (by rw [Disk.find_create, if_pos rfl]), hdata]
    simp
  · have hfind : (d.create output).find p = d.find p := by rw [Disk.find_create, if_neg hp]
    refine ⟨hfind, ?_⟩
    rw [Disk.content_write_of_ne, Disk.content_create, if_neg hp]
    rw [hfind]
    exact fun h => absurd (d.find_lt h) (lt_irrefl _)

theorem filesToCompress_eq (C : Config) (u : TeeUuid) :
    filesToCompress C u = (List.range logFileIndexMax).map (C.paths.tempFile u) := by
  rw [filesToCompress, ← List.filterMap_eq_map]
  refine List.filterMap_congr fun i hi => ?_
  have hlt : i < 10 := (List.mem_range.mp hi).trans (by decide)
  rw [getUuidStr_eq, logAssembleFilename_tempFile C.paths u hlt]
  rfl

/-- What `TriggerCompress` packs: the temporary files that exist. -/
def packed (C : Config) (u : TeeUuid) (s : LogState) : List LogByte :=
  C.tarZip (((List.range logFileIndexMax).map (C.paths.tempFile u)).filterMap fun name =>
    (s.disk.content name).map fun bytes => (name, bytes))

theorem triggerCompress_spec (hfree : s.disk.find s.g_compressFile = none)
    (hnot : ¬C.paths.IsTemp s.g_compressFile) :
    (triggerCompress C u s).disk.content s.g_compressFile = some (packed C u s) ∧
      ∀ p, ¬C.paths.IsTemp p → p ≠ s.g_compressFile → SameFile s (triggerCompress C u s) p := by
  obtain ⟨hcontent, hother⟩ := tarZipFiles_spec (C := C)
    ((List.range logFileIndexMax).map (C.paths.tempFile u)) hfree
  have hkept (p : List Char) (hp : ¬C.paths.IsTemp p) :
      (triggerCompress C u s).disk.find p =
        (tarZipFiles C ((List.range logFileIndexMax).map (C.paths.tempFile u)) s.g_compressFile
          s.disk).find p := by
    rw [triggerCompress, filesToCompress_eq]
    refine (find_foldl_unlink _ _ p).trans (if_neg fun hmem => hp ?_)
    obtain ⟨i, -, rfl⟩ := List.mem_map.mp hmem
    exact isTemp_tempFile
  have hdata : (triggerCompress C u s).disk.data =
      (tarZipFiles C ((List.range logFileIndexMax).map (C.paths.tempFile u)) s.g_compressFile
        s.disk).data := by
    rw [triggerCompress, filesToCompress_eq]
    exact data_foldl_unlink _ _
  have hkeptContent (p : List Char) (hp : ¬C.paths.IsTemp p) :=
    Disk.content_congr (hkept p hp) fun n _ => congrFun hdata n
  refine ⟨(hkeptContent _ hnot).trans hcontent, fun p hp hne => ?_⟩
  exact ⟨(hkept p hp).trans (hother p hne).1, (hkeptContent p hp).trans (hother p hne).2⟩

/-! ### The whole compression -/

/-- What the archive of a compression contains: the log files that exist, under the names they have
in the temporary directory. -/
def batch (C : Config) (u : TeeUuid) (s : LogState) : List LogByte :=
  C.tarZip ((List.range logFileIndexMax).filterMap fun i =>
    (s.content (C.paths.logFile u i)).map fun bytes => (C.paths.tempFile u i, bytes))

/-- Up to the choice of an archive, the log files have moved and nothing else has changed. -/
theorem moveFiles_spec (C : Config) (u : TeeUuid) (s : LogState) :
    let t := moveFiles C u (prepareCompress C u s)
    t.g_uuidAscii = uuidDigits u ∧ t.g_files = s.g_files ∧
      t.trace = s.trace ++
        [.moved u ((List.range logFileIndexMax).map fun i => s.content (C.paths.logFile u i))] ∧
      t.disk.data = s.disk.data ∧
      (∀ i < logFileIndexMax,
        t.disk.find (C.paths.tempFile u i) = s.disk.find (C.paths.logFile u i)) ∧
      (∀ i < logFileIndexMax, t.disk.find (C.paths.logFile u i) = none) ∧
      ∀ p, ¬C.paths.IsTemp p → (∀ i < logFileIndexMax, p ≠ C.paths.logFile u i) →
        t.disk.find p = s.disk.find p := by
  obtain ⟨htable, hdata, hclear, hkept⟩ := mkdirTmpPath_spec C s
  have hcontent (i : Nat) : (mkdirTmpPath C s).content (C.paths.logFile u i) =
      s.content (C.paths.logFile u i) :=
    content_of_moved hdata (hkept _ not_isTemp_logFile)
  have hascii : (prepareCompress C u s).g_uuidAscii = uuidDigits u :=
    getUuidStr_eq u (mkdirTmpPath C s).g_uuidAscii
  have htrace : (prepareCompress C u s).trace = s.trace ++
      [.moved u ((List.range logFileIndexMax).map fun i => s.content (C.paths.logFile u i))] := by
    rw [prepareCompress]
    simp only [hcontent, htable.trace]
  have hmoved := foldl_move_spec (C := C) (u := u) (s := prepareCompress C u s)
    (List.range logFileIndexMax).reverse (by decide) (by decide) hascii
    fun i _ => hclear _ isTemp_tempFile
  rw [← moveFiles] at hmoved
  have hmem (i : Nat) (hi : i < logFileIndexMax) : i ∈ (List.range logFileIndexMax).reverse :=
    List.mem_reverse.mpr (List.mem_range.mpr hi)
  refine ⟨hmoved.table.g_uuidAscii.trans hascii, hmoved.table.g_files.trans htable.g_files,
    hmoved.table.trace.trans htrace, hmoved.data.trans hdata,
    fun i hi => (hmoved.temp i (hmem i hi)).trans (hkept _ not_isTemp_logFile),
    fun i hi => hmoved.gone i (hmem i hi), fun p hp hlog => ?_⟩
  refine (hmoved.other p fun i hi => ⟨hlog i ?_, fun h => hp ?_⟩).trans (hkept p hp)
  · exact List.mem_range.mp (List.mem_reverse.mp hi)
  · rw [h]
    exact isTemp_tempFile

/-- What a compression does. -/
structure Compressed (C : Config) (u : TeeUuid) (s s' : LogState) : Prop where
  g_files : s'.g_files = s.g_files
  trace : s'.trace = s.trace ++
    [.moved u ((List.range logFileIndexMax).map fun i => s.content (C.paths.logFile u i))]
  gone : ∀ i < logFileIndexMax, s'.disk.find (C.paths.logFile u i) = none
  archives : ∃ m < logFileIndexMax, s'.content (C.paths.archive u m) = some (batch C u s) ∧
    ((∀ j < m, s.content (C.paths.archive u j) ≠ none) ∧ s.content (C.paths.archive u m) = none ∧
        (∀ j, j ≠ m → s'.content (C.paths.archive u j) = s.content (C.paths.archive u j)) ∨
      m = 3 ∧ (∀ j < logFileIndexMax, s.content (C.paths.archive u j) ≠ none) ∧
        (∀ j < m, s'.content (C.paths.archive u j) = s.content (C.paths.archive u (j + 1))) ∧
          ∀ j, logFileIndexMax ≤ j →
            s'.content (C.paths.archive u j) = s.content (C.paths.archive u j))
  other : ∀ p, ¬C.paths.IsTemp p → (∀ i < logFileIndexMax, p ≠ C.paths.logFile u i) →
    (∀ j, p ≠ C.paths.archive u j) → SameFile s s' p

theorem beforeTrigger_spec (C : Config) (u : TeeUuid) (s : LogState) :
    ∃ m, Chosen C u m (moveFiles C u (prepareCompress C u s)) (beforeTrigger C u s) :=
  chooseArchive_spec (moveFiles_spec C u s).1

/-- The name that is chosen for an archive is free when `TriggerCompress` begins. -/
theorem find_g_compressFile (C : Config) (u : TeeUuid) (s : LogState) :
    (beforeTrigger C u s).disk.find (beforeTrigger C u s).g_compressFile = none := by
  obtain ⟨m, hchosen⟩ := beforeTrigger_spec C u s
  rw [hchosen.name]
  exact hchosen.free

theorem logFilesCompress_spec (C : Config) (u : TeeUuid) (s : LogState) :
    Compressed C u s (logFilesCompress C u s) := by
  obtain ⟨-, hfiles, htrace, hdata, htemp, hgone, hkept⟩ := moveFiles_spec C u s
  obtain ⟨m, hchosen⟩ := beforeTrigger_spec C u s
  have hfree := find_g_compressFile C u s
  rw [logFilesCompress]
  generalize moveFiles C u (prepareCompress C u s) = t at *
  generalize beforeTrigger C u s = t' at *
  have hname := hchosen.name
  have hnot : ¬C.paths.IsTemp t'.g_compressFile := by
    rw [hname]
    exact not_isTemp_archive
  obtain ⟨hpacked, hother⟩ := triggerCompress_spec (C := C) (u := u) hfree hnot
  have hdata' : t'.disk.data = s.disk.data := hchosen.data.trans hdata
  have harchive (j : Nat) : t.disk.find (C.paths.archive u j) = s.disk.find (C.paths.archive u j) :=
    hkept _ not_isTemp_archive fun i _ h => logFile_ne_archive h.symm
  have hkeptArchive (j : Nat) (hj : j ≠ m) :
      SameFile t' (triggerCompress C u t') (C.paths.archive u j) :=
    hother _ not_isTemp_archive (by rw [hname]; exact archive_ne hj)
  have hbatch : packed C u t' = batch C u s := by
    rw [packed, batch, List.filterMap_map]
    refine congrArg C.tarZip (List.filterMap_congr fun i hi => ?_)
    have hfind := (hchosen.other (C.paths.tempFile u i) fun j h =>
      not_isTemp_archive (by rw [← h]; exact isTemp_tempFile)).trans
        (htemp i (List.mem_range.mp hi))
    exact congrArg (Option.map _) (content_of_moved hdata' hfind)
  have hpresent (j : Nat) (hj : t.disk.find (C.paths.archive u j) ≠ none) :
      s.content (C.paths.archive u j) ≠ none := by
    rw [harchive] at hj
    exact fun h => hj ((Disk.content_eq_none ..).mp h)
  refine ⟨hchosen.table.g_files.trans hfiles, hchosen.table.trace.trans htrace, fun i hi => ?_,
    ⟨m, hchosen.lt, ?_, ?_⟩, fun p hp hlog harch => ?_⟩
  · have hsame := hother (C.paths.logFile u i) not_isTemp_logFile
      (by rw [hname]; exact logFile_ne_archive)
    rw [hsame.1, hchosen.other _ fun j => logFile_ne_archive]
    exact hgone i hi
  · rw [← hbatch, ← hpacked, hname]
    rfl
  · obtain ⟨hbelow, hsame⟩ | ⟨hm, hall, hshift, hlater⟩ := hchosen.archives
    · refine Or.inl ⟨fun j hj => hpresent j (hbelow j hj), ?_, fun j hj => ?_⟩
      · refine (Disk.content_eq_none ..).mpr ?_
        rw [← harchive, ← hsame]
        exact hchosen.free
      · exact (hkeptArchive j hj).2.trans
          (content_of_moved hdata' ((hsame j).trans (harchive j)))
    · refine Or.inr ⟨hm, fun j hj => hpresent j (hall j hj), fun j hj => ?_, fun j hj => ?_⟩
      · exact (hkeptArchive j hj.ne).2.trans
          (content_of_moved hdata' ((hshift j hj).trans (harchive (j + 1))))
      · have hne : j ≠ m := (hchosen.lt.trans_le hj).ne'
        exact (hkeptArchive j hne).2.trans
          (content_of_moved hdata' ((hlater j hj).trans (harchive j)))
  · have hfind := (hchosen.other p harch).trans (hkept p hp hlog)
    exact (SameFile.of_find hdata' hfind).trans (hother p hp (by rw [hname]; exact harch m))

end ITrustee.Tlogcat
