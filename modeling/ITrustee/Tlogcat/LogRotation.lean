import Mathlib.Tactic
import ITrustee.Foundation.Machine
import ITrustee.Tlogcat.LogSlots

/-!
# Log rotation

A run of writes and closes, from any content of the log directory. Whenever `LogFileFull` renames a full
file, there is no file of the new name; whenever a compression moves the files of an identifier, the
items in them are what was written for it since its last compression, each byte once and in order. The
index of a slot is computed when the slot is opened and used when the file is full: no log file of that
identifier appears in between, because only the slot's own rename makes one.
-/

namespace ITrustee.Tlogcat

open LogPaths

variable {C : Config} {u v : TeeUuid} {s s' : LogState} {f : LogFile} {i : Nat}

theorem logFile_ne {i j : Nat} (h : i ≠ j) : C.paths.logFile u i ≠ C.paths.logFile u j :=
  fun heq => h (logFile_inj heq).2

theorem SameLogs.of_other (h : ∀ p, (∀ j, p ≠ C.paths.logFile u j) → SameFile s s' p) (hv : v ≠ u) :
    SameLogs C v s s' :=
  fun _ => h _ fun _ heq => hv (logFile_inj heq).1

/-! ### Slots that are cleared -/

theorem clearSlot_g_files (h : s'.g_files = s.g_files) (i : Nat) :
    (s'.clearSlot i).g_files = s.g_files.set i {} :=
  congrArg (fun files : List LogFile => files.set i {}) h

theorem LogInv.clearSlot (h : LogInv C s) (hi : s.g_files[i]? = some f) (hf : f.valid = true) :
    LogInv C (s.clearSlot i) :=
  h.update f.uuid rfl (h.slot_eq hi hf) (fun _ _ _ => ⟨rfl, rfl⟩) nofun (fun _ => rfl)
    (fun _ _ => rfl) (h.items f.uuid) h.trace

/-- `LogFileFull` for an open slot whose index can grow. -/
theorem logFileFull_spec (hopen : Opened C s f) (hlt : f.fileIndex + 1 < logFileIndexMax) :
    (logFileFull C f s).g_files = s.g_files ∧
      (logFileFull C f s).trace = s.trace ++ [.full f.uuid (f.fileIndex + 1) false] ∧
      (logFileFull C f s).content (C.paths.logFile f.uuid 0) = none ∧
      (logFileFull C f s).content (C.paths.logFile f.uuid (f.fileIndex + 1)) =
        s.content (C.paths.logFile f.uuid 0) ∧
      ∀ p, p ≠ C.paths.logFile f.uuid 0 → p ≠ C.paths.logFile f.uuid (f.fileIndex + 1) →
        SameFile s (logFileFull C f s) p := by
  obtain ⟨file, bytes, -, hfind, -⟩ := hopen.stream
  have hfree := hopen.above (f.fileIndex + 1) (Nat.lt_succ_self _) hlt
  have hten : f.fileIndex + 1 < 10 := hlt.trans (by decide)
  rw [logFileFull, if_neg (by omega)]
  simp only [getUuidStr_eq, logAssembleFilename_logFile C.paths f.uuid (by decide : 0 < 10),
    logAssembleFilename_logFile C.paths f.uuid hten]
  cases hrename : s.disk.rename (C.paths.logFile f.uuid 0)
      (C.paths.logFile f.uuid (f.fileIndex + 1)) with
  | none =>
      rw [Disk.rename_eq_none, hfind] at hrename
      cases hrename
  | some d =>
      obtain ⟨n, hn, hdata, -, hnew⟩ := Disk.rename_some hrename
      have hcontent := Disk.content_rename hrename
      have hne : C.paths.logFile f.uuid 0 ≠ C.paths.logFile f.uuid (f.fileIndex + 1) :=
        logFile_ne (Nat.succ_ne_zero _).symm
      refine ⟨rfl, by rw [hfree]; rfl, ?_, ?_, fun p hzero hsucc => ⟨?_, ?_⟩⟩
      · exact (hcontent _).trans (by rw [if_neg hne, if_pos rfl])
      · exact (hcontent _).trans (by rw [if_pos rfl]; rfl)
      · exact (hnew p).trans (by rw [if_neg hsucc, if_neg hzero])
      · exact (hcontent p).trans (by rw [if_neg hsucc, if_neg hzero])

/-- The full file is the last one among the renamed files, so the order of the items stays. -/
theorem keptItems_rename {index : Nat} (hlt : index + 1 < logFileIndexMax)
    (habove : ∀ j, index < j → j < logFileIndexMax → s.content (C.paths.logFile u j) = none)
    (hzero : s'.content (C.paths.logFile u 0) = none)
    (hnew : s'.content (C.paths.logFile u (index + 1)) = s.content (C.paths.logFile u 0))
    (hother : ∀ j, j ≠ 0 → j ≠ index + 1 →
      s'.content (C.paths.logFile u j) = s.content (C.paths.logFile u j)) :
    keptItems (logContents C u s') = keptItems (logContents C u s) := by
  rw [keptItems_logContents, keptItems_logContents, hzero, itemsOf_none, List.append_nil]
  have hcases : index = 0 ∨ index = 1 ∨ index = 2 := by
    rw [logFileIndexMax] at hlt
    omega
  obtain rfl | rfl | rfl := hcases
  · rw [hnew, hother 2 (by decide) (by decide), hother 3 (by decide) (by decide),
      habove 1 (by decide) (by decide), habove 2 (by decide) (by decide),
      habove 3 (by decide) (by decide)]
    simp only [itemsOf_none, List.append_nil, List.nil_append]
  · rw [hnew, hother 1 (by decide) (by decide), hother 3 (by decide) (by decide),
      habove 2 (by decide) (by decide), habove 3 (by decide) (by decide)]
    simp only [itemsOf_none, List.append_nil, List.nil_append]
  · rw [hnew, hother 1 (by decide) (by decide), hother 2 (by decide) (by decide),
      habove 3 (by decide) (by decide)]
    simp only [itemsOf_none, List.nil_append]

theorem LogInv.logFileFull (h : LogInv C s) (hi : s.g_files[i]? = some f) (hf : f.valid = true)
    (hlt : f.fileIndex + 1 < logFileIndexMax) :
    LogInv C ((logFileFull C f s).clearSlot i) := by
  have hopen := h.opened f (List.mem_of_getElem? hi) hf
  obtain ⟨hfiles, htrace, hzero, hnew, hother⟩ := logFileFull_spec hopen hlt
  have hkept : keptItems (logContents C f.uuid (Tlogcat.logFileFull C f s)) =
      pending f.uuid s.trace := by
    rw [← h.items f.uuid]
    refine keptItems_rename hlt (fun j hj hmax => ?_) hzero hnew fun j hj hj' =>
      (hother _ (logFile_ne hj) (logFile_ne hj')).2
    exact (Disk.content_eq_none ..).mpr (hopen.above j hj hmax)
  generalize Tlogcat.logFileFull C f s = t at *
  have hpending (v : TeeUuid) : pending v t.trace = pending v s.trace := by
    rw [htrace, pending_append]
    rfl
  refine h.update f.uuid (clearSlot_g_files hfiles i) (h.slot_eq hi hf)
    (fun v hv => ?_) nofun (fun _ => rfl) (fun v _ => hpending v) ?_ ?_
  · exact SameLogs.of_other (fun p hp => hother p (hp 0) (hp _)) hv
  · exact hkept.trans (hpending f.uuid).symm
  · change GoodTrace t.trace
    rw [htrace]
    exact h.trace.append ⟨rfl, hlt⟩

theorem LogInv.logFilesCompress (h : LogInv C s) (hi : s.g_files[i]? = some f)
    (hf : f.valid = true) : LogInv C ((logFilesCompress C f.uuid s).clearSlot i) := by
  have hcompressed := logFilesCompress_spec C f.uuid s
  generalize Tlogcat.logFilesCompress C f.uuid s = t at *
  have hgood : keptItems (logContents C f.uuid s) = pending f.uuid s.trace := h.items f.uuid
  refine h.update f.uuid (clearSlot_g_files hcompressed.g_files i)
    (h.slot_eq hi hf) (fun v hv => ?_) nofun (fun _ => rfl) (fun v hv => ?_) ?_ ?_
  · exact fun j => hcompressed.other _ not_isTemp_logFile
      (fun k _ heq => hv (logFile_inj heq).1) fun k => logFile_ne_archive
  · change pending v t.trace = _
    rw [hcompressed.trace, pending_append]
    exact pendingStep_of_ne (Ne.symm hv) _
  · have hgone (j : Nat) (hj : j < logFileIndexMax) :
        t.content (C.paths.logFile f.uuid j) = none :=
      (Disk.content_eq_none ..).mpr (hcompressed.gone j hj)
    change keptItems (logContents C f.uuid t) = pending f.uuid t.trace
    rw [keptItems_logContents, hgone 0 (by decide), hgone 1 (by decide), hgone 2 (by decide),
      hgone 3 (by decide), hcompressed.trace, pending_append]
    exact (if_pos rfl).symm
  · change GoodTrace t.trace
    rw [hcompressed.trace]
    exact h.trace.append hgood

/-- A slot whose file is full: renamed, or compressed with the others, and cleared. -/
theorem LogInv.fileFull (h : LogInv C s) (hi : s.g_files[i]? = some f) (hf : f.valid = true) :
    LogInv C ((fileFull C f s).clearSlot i) := by
  rw [Tlogcat.fileFull]
  split_ifs with hindex
  · exact h.logFilesCompress hi hf
  · refine h.logFileFull hi hf ?_
    rw [logFileIndexMax] at *
    omega

/-! ### Opening a slot -/

/-- `GetFileIndex` finds the highest index of a log file that exists. -/
theorem getFileIndexLoop_spec (u : TeeUuid) (d : Disk LogByte) (n : Nat) (hn : n < 10) :
    getFileIndexLoop C (uuidDigits u) (isTaUuid u) d n ≤ n - 1 ∧
      ∀ j, getFileIndexLoop C (uuidDigits u) (isTaUuid u) d n < j → j < n →
        d.find (C.paths.logFile u j) = none := by
  induction n with
  | zero => exact ⟨le_rfl, fun j _ hj => absurd hj (Nat.not_lt_zero j)⟩
  | succ n ih =>
      rw [getFileIndexLoop, logAssembleFilename_logFile C.paths u (by omega)]
      dsimp only
      split_ifs with hfind
      · exact ⟨le_rfl, fun j hj hlt => by omega⟩
      · obtain ⟨hle, habove⟩ := ih (by omega)
        refine ⟨by omega, fun j hj hlt => ?_⟩
        obtain hlt | heq := Nat.lt_succ_iff_lt_or_eq.mp hlt
        · exact habove j hj hlt
        · rw [heq]
          exact Option.not_isSome_iff_eq_none.mp hfind

/-- What `LogFilesOpen` does to the '-0' file: it exists, with the items it had. -/
structure FileOpened (C : Config) (u : TeeUuid) (s s' : LogState) (file : OpenFile) : Prop where
  g_files : s'.g_files = s.g_files
  trace : s'.trace = s.trace
  find : s'.disk.find (C.paths.logFile u 0) = some file.inode
  content : ∃ bytes, s'.content (C.paths.logFile u 0) = some bytes ∧ file.pos = bytes.length
  items : itemsOf (s'.content (C.paths.logFile u 0)) = itemsOf (s.content (C.paths.logFile u 0))
  other : ∀ p, p ≠ C.paths.logFile u 0 → SameFile s s' p

theorem logFilesOpen_spec (C : Config) (u : TeeUuid) (s : LogState) :
    FileOpened C u s (logFilesOpen C (C.paths.logFile u 0) s).1
      (logFilesOpen C (C.paths.logFile u 0) s).2.1 := by
  rw [logFilesOpen]
  cases hfind : s.disk.find (C.paths.logFile u 0) with
  | some inode =>
      have hcontent : s.content (C.paths.logFile u 0) = some (s.disk.data inode) :=
        congrArg (Option.map s.disk.data) hfind
      exact ⟨rfl, rfl, hfind, ⟨_, hcontent, rfl⟩, rfl, fun p _ => SameFile.refl s p⟩
  | none =>
      dsimp only
      have hnew : (s.disk.create (C.paths.logFile u 0)).find (C.paths.logFile u 0) =
          some s.disk.used := by
        rw [Disk.find_create, if_pos rfl]
      have hdata : (s.disk.create (C.paths.logFile u 0)).data s.disk.used = [] :=
        Function.update_self ..
      have hcontent := Disk.content_write (s.disk.create (C.paths.logFile u 0))
        (s := ⟨s.disk.used, 0⟩) (C.g_teeVersion.map fun value => (⟨.version, value⟩ : LogByte)) hnew
      rw [hdata, List.take_nil, List.drop_nil, List.nil_append, List.append_nil] at hcontent
      refine ⟨rfl, rfl, hnew, ⟨_, hcontent, rfl⟩, ?_, fun p hp => ?_⟩
      · refine (congrArg itemsOf hcontent).trans ((itemsOf_version _).trans ?_)
        exact (congrArg itemsOf ((Disk.content_eq_none ..).mpr hfind)).symm
      · have hkept : (s.disk.create (C.paths.logFile u 0)).find p = s.disk.find p := by
          rw [Disk.find_create, if_neg hp]
        refine ⟨hkept, (Disk.content_write_of_ne _ _ ?_).trans ?_⟩
        · rw [hkept]
          exact fun h => absurd (s.disk.find_lt h) (lt_irrefl _)
        · rw [Disk.content_create, if_neg hp]

theorem FileOpened.items_eq {file : OpenFile} (h : FileOpened C u s s' file) :
    keptItems (logContents C u s') = keptItems (logContents C u s) := by
  have hother (j : Nat) (hj : j ≠ 0) :
      s'.content (C.paths.logFile u j) = s.content (C.paths.logFile u j) :=
    (h.other _ (logFile_ne hj)).2
  rw [keptItems_logContents, keptItems_logContents, h.items, hother 1 (by decide),
    hother 2 (by decide), hother 3 (by decide)]

/-- A slot is in use, and it is one of `u`. -/
def InUse (s : LogState) (u : TeeUuid) (i : Nat) : Prop :=
  ∃ f, s.g_files[i]? = some f ∧ f.valid = true ∧ f.uuid = u

theorem LogInv.logFilesAdd {file : OpenFile} {logName : List Char} {fileLen index : Nat}
    {r : LogState × Option Nat} (h : LogInv C s) (hunused : ∀ i, ¬InUse s u i)
    (hopened : FileOpened C u s s' file) (hindex : index < logFileIndexMax)
    (habove : ∀ j, index < j → j < logFileIndexMax → s.disk.find (C.paths.logFile u j) = none)
    (hadd : logFilesAdd u logName file fileLen index s' = r) :
    LogInv C r.1 ∧ ∀ i, r.2 = some i → InUse r.1 u i := by
  have hslot (i j : Nat) (f : LogFile) (hj : s.g_files[j]? = some f) (hf : f.valid = true)
      (hu : f.uuid = u) : j = i :=
    absurd ⟨f, hj, hf, hu⟩ (hunused j)
  have hlogs (t : LogState) (hdisk : t.disk = s'.disk) (v : TeeUuid) (hv : v ≠ u) :
      SameLogs C v s t := by
    refine SameLogs.of_other (u := u) (fun p hp => ?_) hv
    have hsame := hopened.other p (hp 0)
    rw [SameFile, hdisk]
    exact hsame
  have hitems : keptItems (logContents C u s') = pending u s'.trace := by
    rw [hopened.items_eq, hopened.trace]
    exact h.items u
  have htrace : GoodTrace s'.trace := by
    rw [hopened.trace]
    exact h.trace
  have hpending (v : TeeUuid) : pending v s'.trace = pending v s.trace := by rw [hopened.trace]
  rw [Tlogcat.logFilesAdd] at hadd
  split at hadd
  · subst hadd
    refine ⟨h.update u (i := s.g_files.length) (g := {}) ?_ (hslot _) (hlogs s' rfl) nofun
      (fun _ => rfl) (fun v _ => hpending v) hitems htrace, nofun⟩
    rw [hopened.g_files, List.set_eq_of_length_le le_rfl]
  · next i hfree =>
      subst hadd
      have hlt : i < s'.g_files.length := (List.findIdx?_eq_some_iff_getElem.mp hfree).1
      obtain ⟨bytes, hcontent, hpos⟩ := hopened.content
      refine ⟨h.update u (congrArg (fun files : List LogFile => files.set i _) hopened.g_files)
        (hslot i) (hlogs _ rfl) (fun _ => ⟨rfl, ?_⟩) nofun (fun v _ => hpending v) hitems htrace,
        fun k hk => ?_⟩
      · refine ⟨⟨file, bytes, rfl, hopened.find, hcontent, hpos⟩, hindex, fun j hj hmax => ?_⟩
        have hne : j ≠ 0 := Nat.ne_of_gt (Nat.zero_lt_of_lt hj)
        exact (hopened.other _ (logFile_ne hne)).1.trans (habove j hj hmax)
      · obtain rfl := Option.some.inj hk
        exact ⟨_, List.getElem?_set_self hlt, rfl, rfl⟩

/-! ### Finding a slot -/

theorem fileFull_g_files (C : Config) (f : LogFile) (s : LogState) :
    (fileFull C f s).g_files = s.g_files := by
  rw [fileFull]
  split_ifs
  · exact (logFilesCompress_spec C f.uuid s).g_files
  · rw [logFileFull]
    split_ifs
    · rfl
    · dsimp only
      split
      · split <;> rfl
      · rfl

theorem inUse_clearSlot (h : s'.g_files = s.g_files) (i : Nat) (v : TeeUuid) (j : Nat) :
    InUse (s'.clearSlot i) v j ↔ InUse s v j ∧ j ≠ i := by
  rw [InUse, clearSlot_g_files h, InUse]
  by_cases hj : j = i
  · rw [hj]
    refine ⟨fun ⟨f, hf, hvalid, _⟩ => ?_, fun hboth => absurd rfl hboth.2⟩
    rw [List.getElem?_set, if_pos rfl] at hf
    split_ifs at hf
    obtain rfl := Option.some.inj hf
    cases hvalid
  · rw [List.getElem?_set_ne (Ne.symm hj)]
    exact ⟨fun huse => ⟨huse, hj⟩, fun hboth => hboth.1⟩

/-- `GetUsableFile` looks at the slots one after another: what it does not find is not in use. -/
theorem LogInv.getUsableFileLoop {is : List Nat} {r : LogState × Option Nat} (h : LogInv C s)
    (hlt : ∀ i ∈ is, i < logFilesMax) (hr : getUsableFileLoop C u is s = r) :
    LogInv C r.1 ∧ (∀ v i, InUse r.1 v i → InUse s v i) ∧ (∀ i, r.2 = some i → InUse r.1 u i) ∧
      (r.2 = none → ∀ i ∈ is, ¬InUse r.1 u i) := by
  induction is generalizing s with
  | nil =>
      subst hr
      exact ⟨h, fun _ _ huse => huse, nofun, fun _ _ hi => absurd hi List.not_mem_nil⟩
  | cons i is ih =>
      have htail : ∀ j ∈ is, j < logFilesMax := fun j hj => hlt j (List.mem_cons_of_mem i hj)
      have hskip {t : LogState} (ht : LogInv C t) (hkept : ∀ v j, InUse t v j → InUse s v j)
          (hunused : ¬InUse t u i) (hr : Tlogcat.getUsableFileLoop C u is t = r) :
          LogInv C r.1 ∧ (∀ v j, InUse r.1 v j → InUse s v j) ∧
            (∀ j, r.2 = some j → InUse r.1 u j) ∧
              (r.2 = none → ∀ j ∈ i :: is, ¬InUse r.1 u j) := by
        obtain ⟨hinv, hback, hfound, hnone⟩ := ih ht htail hr
        refine ⟨hinv, fun v j huse => hkept v j (hback v j huse), hfound, fun hempty j hj => ?_⟩
        cases hj with
        | head => exact fun huse => hunused (hback u i huse)
        | tail _ hj => exact hnone hempty j hj
      have hget : ∃ f, s.g_files[i]? = some f := by
        refine ⟨s.g_files.get ⟨i, ?_⟩, List.getElem?_eq_getElem _⟩
        rw [h.length]
        exact hlt i List.mem_cons_self
      obtain ⟨f, hi⟩ := hget
      have hthis (huse : InUse s u i) : f.valid = true ∧ f.uuid = u := by
        obtain ⟨g, hg, hvalid, huuid⟩ := huse
        rw [hi] at hg
        obtain rfl := Option.some.inj hg
        exact ⟨hvalid, huuid⟩
      rcases hcheck : logFilesChecklimit C i f s with ⟨t, cleared⟩
      rw [Tlogcat.getUsableFileLoop, hi] at hr
      dsimp only at hr
      rw [hcheck] at hr
      rw [logFilesChecklimit] at hcheck
      split_ifs at hr with huuid hvalid hfile hcleared
      · exact hskip h (fun _ _ huse => huse) (fun huse => huuid (hthis huse).2) hr
      · refine hskip h (fun _ _ huse => huse) (fun huse => ?_) hr
        rw [(hthis huse).1] at hvalid
        cases hvalid
      · have hin : f.valid = true := by simpa using hvalid
        obtain ⟨file, bytes, hsome, -⟩ := (h.opened f (List.mem_of_getElem? hi) hin).stream
        rw [hfile] at hsome
        cases hsome
      · have hin : f.valid = true := by simpa using hvalid
        split_ifs at hcheck
        · obtain ⟨rfl, -⟩ := Prod.mk.inj hcheck
          have huse := inUse_clearSlot (fileFull_g_files C f s) i
          exact hskip (h.fileFull hi hin) (fun v j hj => ((huse v j).mp hj).1)
            (fun hthis => ((huse u i).mp hthis).2 rfl) hr
        · rw [← (Prod.mk.inj hcheck).2] at hcleared
          cases hcleared
      · subst hr
        have hin : f.valid = true := by simpa using hvalid
        split_ifs at hcheck
        · exact absurd (Prod.mk.inj hcheck).2.symm hcleared
        · obtain ⟨rfl, -⟩ := Prod.mk.inj hcheck
          refine ⟨h, fun _ _ huse => huse, fun j hj => ?_, nofun⟩
          obtain rfl := Option.some.inj hj
          exact ⟨f, hi, hin, not_not.mp huuid⟩

theorem LogInv.logFilesGet {r : LogState × Option Nat} (h : LogInv C s)
    (hr : logFilesGet C u (isTaUuid u) s = r) :
    LogInv C r.1 ∧ ∀ i, r.2 = some i → InUse r.1 u i := by
  rw [Tlogcat.logFilesGet] at hr
  rcases hget : getUsableFile C u s with ⟨t, found⟩
  obtain ⟨hinv, -, hfound, hnone⟩ :=
    h.getUsableFileLoop (fun i hi => List.mem_range.mp hi) hget
  rw [hget] at hr
  cases found with
  | some i =>
      subst hr
      exact ⟨hinv, hfound⟩
  | none =>
      simp only [getUuidStr_eq, logAssembleFilename_logFile C.paths u (by decide : 0 < 10)] at hr
      obtain ⟨hindex, habove⟩ :=
        getFileIndexLoop_spec (C := C) u t.disk logFileIndexMax (by decide)
      have hunused (i : Nat) : ¬InUse t u i := by
        intro huse
        obtain ⟨f, hf, -⟩ := id huse
        refine hnone rfl i (List.mem_range.mpr ?_) huse
        rw [← hinv.length]
        exact (List.getElem?_eq_some_iff.mp hf).1
      exact hinv.logFilesAdd hunused (logFilesOpen_spec C u t) (Nat.lt_succ_of_le hindex) habove hr

/-! ### Writing -/

/-- An item goes to the end of the '-0' file, which is the last one. -/
theorem LogInv.writeSlot (h : LogInv C s) {file : OpenFile} (hi : s.g_files[i]? = some f)
    (hf : f.valid = true) (hfile : f.file = some file) (bytes : List UInt8) :
    LogInv C (writeSlot i bytes f file f.uuid s) := by
  have hopen := h.opened f (List.mem_of_getElem? hi) hf
  obtain ⟨file', old, hfile', hfind, hcontent, hpos⟩ := hopen.stream
  rw [hfile] at hfile'
  obtain rfl := Option.some.inj hfile'
  have hdata : s.disk.data file.inode = old := by
    rw [LogState.content, Disk.content, hfind] at hcontent
    exact Option.some.inj hcontent
  have hother (p : List Char) (hp : p ≠ C.paths.logFile f.uuid 0) :
      SameFile s (Tlogcat.writeSlot i bytes f file f.uuid s) p :=
    ⟨rfl, Disk.content_write_of_ne _ _ fun heq => hp (s.disk.find_inj heq hfind)⟩
  have hnew : (Tlogcat.writeSlot i bytes f file f.uuid s).content (C.paths.logFile f.uuid 0) =
      some (old ++ bytes.map fun value => ⟨.item, value⟩) := by
    refine (Disk.content_write s.disk _ hfind).trans ?_
    rw [hdata, hpos, List.take_length, List.drop_of_length_le (Nat.le_add_right _ _),
      List.append_nil]
  refine h.update f.uuid rfl (h.slot_eq hi hf) (fun v hv => ?_) (fun _ => ⟨rfl, ?_⟩)
    (fun hfalse => ?_) (fun v hv => ?_) ?_ (h.trace.append trivial)
  · exact SameLogs.of_other (u := f.uuid) (fun p hp => hother p (hp 0)) hv
  · refine ⟨⟨_, _, rfl, hfind, hnew, ?_⟩, hopen.index_lt, hopen.above⟩
    rw [List.length_append, List.length_map]
    exact congrArg (· + bytes.length) hpos
  · rw [hf] at hfalse
    cases hfalse
  · exact (pending_append ..).trans (pendingStep_of_ne (Ne.symm hv) _)
  · have hkept (j : Nat) (hj : j ≠ 0) :
        (Tlogcat.writeSlot i bytes f file f.uuid s).content (C.paths.logFile f.uuid j) =
          s.content (C.paths.logFile f.uuid j) :=
      (hother _ (logFile_ne hj)).2
    have hitems := h.items f.uuid
    rw [keptItems_logContents, hcontent] at hitems
    rw [keptItems_logContents, hnew, hkept 1 (by decide), hkept 2 (by decide), hkept 3 (by decide),
      itemsOf_append, itemsOf_item]
    refine Eq.trans ?_ (pending_append ..).symm
    rw [← hitems, pendingStep, if_pos rfl]
    simp only [List.append_assoc]

theorem LogInv.writePrivateLogFile (h : LogInv C s) (bytes : List UInt8) :
    LogInv C (writePrivateLogFile C u bytes s) := by
  rw [Tlogcat.writePrivateLogFile]
  rcases hget : Tlogcat.logFilesGet C u (isTaUuid u) s with ⟨t, found⟩
  obtain ⟨hinv, hfound⟩ := h.logFilesGet hget
  cases found with
  | none => exact hinv
  | some i =>
      obtain ⟨f, hi, hf, rfl⟩ := hfound i rfl
      dsimp only
      rw [hi]
      dsimp only
      cases hfile : f.file with
      | none => exact hinv
      | some file => exact hinv.writeSlot hi hf hfile bytes

/-! ### Closing -/

theorem LogInv.closeSlot (h : LogInv C s) (i : Nat) : LogInv C (closeSlot C s i) := by
  rw [Tlogcat.closeSlot]
  cases hi : s.g_files[i]? with
  | none => exact h
  | some f =>
      dsimp only
      split_ifs with hfile
      · exact h
      · exact h.fileFull hi (h.valid_of_file hi hfile)
      · exact h.clearSlot hi (h.valid_of_file hi hfile)

theorem LogInv.logFilesClose (h : LogInv C s) : LogInv C (logFilesClose C s) := by
  rw [Tlogcat.logFilesClose]
  generalize List.range logFilesMax = is
  induction is generalizing s with
  | nil => exact h
  | cons i is ih => exact ih (h.closeSlot i)

/-! ### Runs -/

/-- No log item has been written to the log directory. -/
structure Initial (s : LogState) : Prop where
  g_files : s.g_files = List.replicate logFilesMax {}
  trace : s.trace = []
  disk : ∀ p bytes, s.content p = some bytes → ∀ byte ∈ bytes, byte.origin = .existing

theorem Initial.logInv (h : Initial s) : LogInv C s := by
  have hslot (f : LogFile) (hmem : f ∈ s.g_files) : f = {} := by
    rw [h.g_files] at hmem
    exact List.eq_of_mem_replicate hmem
  have hinvalid (f : LogFile) (hmem : f ∈ s.g_files) : f.valid ≠ true := by
    rw [hslot f hmem]
    exact Bool.false_ne_true
  have hnone (p : List Char) : itemsOf (s.content p) = [] := by
    cases hcontent : s.content p with
    | none => rfl
    | some bytes =>
        rw [itemsOf, Option.getD_some, List.filter_eq_nil_iff.mpr, List.map_nil]
        intro byte hbyte
        rw [h.disk p bytes hcontent byte hbyte]
        decide
  refine ⟨?_, fun f hmem hf => absurd hf (hinvalid f hmem), fun f hmem _ => ?_,
    fun i j f g hi _ hf => absurd hf (hinvalid f (List.mem_of_getElem? hi)), fun u => ?_, ?_⟩
  · rw [h.g_files, List.length_replicate]
  · rw [hslot f hmem]
  · rw [keptItems_logContents, hnone, hnone, hnone, hnone, h.trace]
    rfl
  · rw [h.trace]
    exact goodTrace_nil

theorem LogInv.logStep {a : Action} (h : LogInv C s) (hstep : logStep C s a = some s') :
    LogInv C s' := by
  cases a with
  | write u bytes =>
      obtain rfl := Option.some.inj hstep
      exact h.writePrivateLogFile bytes
  | close =>
      obtain rfl := Option.some.inj hstep
      exact h.logFilesClose

/-! ### A file that is filled -/

/-- No slot is in use. -/
def Idle (s : LogState) : Prop := ∀ f ∈ s.g_files, f.valid = false

theorem Initial.idle (h : Initial s) : Idle s := by
  intro f hf
  rw [h.g_files] at hf
  rw [List.eq_of_mem_replicate hf]

theorem Idle.getUsableFileLoop (h : Idle s) (is : List Nat) :
    Tlogcat.getUsableFileLoop C u is s = (s, none) := by
  induction is with
  | nil => rfl
  | cons i is ih =>
      rw [Tlogcat.getUsableFileLoop]
      cases hi : s.g_files[i]? with
      | none => rfl
      | some f =>
          have hinvalid := h f (List.mem_of_getElem? hi)
          dsimp only
          rw [hinvalid, Bool.not_false, if_pos rfl, ite_self, ih]

theorem Idle.foldl_closeSlot (hinv : LogInv C s) (h : Idle s) (is : List Nat) :
    is.foldl (Tlogcat.closeSlot C) s = s := by
  induction is with
  | nil => rfl
  | cons i is ih =>
      have hsame : Tlogcat.closeSlot C s i = s := by
        rw [Tlogcat.closeSlot]
        cases hi : s.g_files[i]? with
        | none => rfl
        | some f =>
            have hmem := List.mem_of_getElem? hi
            exact if_pos (hinv.closed f hmem (h f hmem))
      rw [List.foldl_cons, hsame, ih]

/-- The length with which the '-0' file is opened, without the version line of a new one. -/
def lengthOf (C : Config) (u : TeeUuid) (s : LogState) : Nat :=
  ((s.content (C.paths.logFile u 0)).getD []).length

/-- The highest index of a log file. -/
def lastIndex (C : Config) (u : TeeUuid) (s : LogState) : Nat :=
  getFileIndex C (uuidDigits u) (isTaUuid u) s.disk

theorem logFilesOpen_fileLen (C : Config) (u : TeeUuid) (s : LogState) :
    (logFilesOpen C (C.paths.logFile u 0) s).2.2 = lengthOf C u s := by
  rw [logFilesOpen, lengthOf, LogState.content, Disk.content]
  cases s.disk.find (C.paths.logFile u 0) <;> rfl

/-- From an idle table an item goes to a slot that is opened for it, the only one in use. -/
theorem LogInv.writes_first (h : LogInv C s) (hidle : Idle s) (u : TeeUuid) (bytes : List UInt8) :
    ∃ f t, Tlogcat.writePrivateLogFile C u bytes s = t ∧ LogInv C t ∧
      t.trace = s.trace ++ [.wrote u bytes] ∧ t.g_files = s.g_files.set 0 f ∧ f.file ≠ none ∧
        f.uuid = u ∧ f.fileLen = lengthOf C u s + bytes.length ∧ f.fileIndex = lastIndex C u s := by
  have hinv := h.writePrivateLogFile (u := u) bytes
  obtain ⟨f, files, hfiles⟩ : ∃ f files, s.g_files = f :: files := by
    cases hfiles : s.g_files with
    | nil =>
        have hlength := h.length
        rw [hfiles] at hlength
        exact absurd hlength (by decide)
    | cons f files => exact ⟨f, files, rfl⟩
  have hmem : f ∈ s.g_files := by
    rw [hfiles]
    exact List.mem_cons_self
  have hfree : (f.file = none && !f.valid) = true := by
    rw [h.closed f hmem (hidle f hmem), hidle f hmem]
    rfl
  have hopened := logFilesOpen_spec C u s
  have hlen := logFilesOpen_fileLen C u s
  have hget : Tlogcat.logFilesGet C u (isTaUuid u) s =
      Tlogcat.logFilesAdd u (C.paths.logFile u 0) (logFilesOpen C (C.paths.logFile u 0) s).2.1
        (logFilesOpen C (C.paths.logFile u 0) s).2.2 (lastIndex C u s)
        (logFilesOpen C (C.paths.logFile u 0) s).1 := by
    rw [Tlogcat.logFilesGet, getUsableFile, hidle.getUsableFileLoop]
    simp only [getUuidStr_eq, logAssembleFilename_logFile C.paths u (by decide : 0 < 10)]
    rfl
  generalize logFilesOpen C (C.paths.logFile u 0) s = opened at hopened hlen hget
  obtain ⟨t, file, fileLen⟩ := opened
  dsimp only at hopened hlen hget
  rw [Tlogcat.logFilesAdd, hopened.g_files, hfiles, List.findIdx?_cons, if_pos hfree] at hget
  rw [Tlogcat.writePrivateLogFile, hget] at hinv ⊢
  refine ⟨⟨some { file with pos := file.pos + bytes.length }, u, fileLen + bytes.length,
    lastIndex C u s, true, C.paths.logFile u 0⟩, _, rfl, hinv, ?_, ?_, nofun, rfl,
    congrArg (· + bytes.length) hlen, rfl⟩
  · exact congrArg (· ++ [.wrote u bytes]) hopened.trace
  · rw [hfiles]
    exact rfl

/-- Behind the slot of the file that is full, nothing is left to close. -/
theorem LogInv.closes_full (h : LogInv C s) {t : LogState} (hidle : Idle t) {f : LogFile}
    (hfiles : s.g_files = t.g_files.set 0 f) (hlength : t.g_files.length = logFilesMax)
    (hfile : f.file ≠ none) (hfull : logFileLimit ≤ f.fileLen) :
    Tlogcat.logFilesClose C s = (Tlogcat.fileFull C f s).clearSlot 0 ∧
      Idle (Tlogcat.logFilesClose C s) := by
  have hzero : s.g_files[0]? = some f := by
    rw [hfiles, List.getElem?_set_self (by rw [hlength]; decide)]
  have hvalid := h.valid_of_file hzero hfile
  have hfirst : Tlogcat.closeSlot C s 0 = (Tlogcat.fileFull C f s).clearSlot 0 := by
    rw [Tlogcat.closeSlot, hzero]
    dsimp only
    rw [if_neg hfile, if_pos hfull]
  have hcleared : Idle ((Tlogcat.fileFull C f s).clearSlot 0) := by
    intro g hg
    rw [clearSlot_g_files (fileFull_g_files C f s), hfiles, List.set_set] at hg
    obtain hg | rfl := List.mem_or_eq_of_mem_set hg
    · exact hidle g hg
    · rfl
  have hrange : List.range logFilesMax = 0 :: (List.range (logFilesMax - 1)).map Nat.succ :=
    List.range_succ_eq_map
  have hclose : Tlogcat.logFilesClose C s = (Tlogcat.fileFull C f s).clearSlot 0 := by
    rw [Tlogcat.logFilesClose, hrange, List.foldl_cons, hfirst,
      hcleared.foldl_closeSlot (h.fileFull hzero hvalid)]
  rw [hclose]
  exact ⟨rfl, hcleared⟩

/-- The log directory after an item filled the '-0' file and the files were closed: a lower index than
the last one leads to a rename, the last one to a compression. -/
structure Rotated (C : Config) (u : TeeUuid) (bytes : List UInt8) (s s' : LogState) : Prop where
  inv : LogInv C s'
  idle : Idle s'
  renamed : lastIndex C u s < 3 →
    s'.trace = s.trace ++ [.wrote u bytes, .full u (lastIndex C u s + 1) false] ∧
      (s'.disk.find (C.paths.logFile u (lastIndex C u s + 1))).isSome = true
  compressed : lastIndex C u s = 3 →
    ∃ files, s'.trace = s.trace ++ [.wrote u bytes, .moved u files]

theorem LogInv.rotates (h : LogInv C s) (hidle : Idle s) (u : TeeUuid) (bytes : List UInt8)
    (hfull : logFileLimit ≤ lengthOf C u s + bytes.length) :
    Rotated C u bytes s (Tlogcat.logFilesClose C (Tlogcat.writePrivateLogFile C u bytes s)) := by
  obtain ⟨f, t, ht, hinv, htrace, hfiles, hfile, rfl, hlen, hindex⟩ := h.writes_first hidle u bytes
  have hzero : t.g_files[0]? = some f := by
    rw [hfiles, List.getElem?_set_self (by rw [h.length]; decide)]
  have hopen := hinv.opened f (List.mem_of_getElem? hzero) (hinv.valid_of_file hzero hfile)
  obtain ⟨hclose, hidle'⟩ := hinv.closes_full hidle hfiles h.length hfile (by rw [hlen]; exact hfull)
  rw [ht]
  refine ⟨hinv.logFilesClose, hidle', fun hlast => ?_, fun hlast => ?_⟩
  · rw [← hindex] at hlast ⊢
    obtain ⟨-, hrenamed, -, hcontent, -⟩ := logFileFull_spec hopen (Nat.succ_lt_succ hlast)
    have hlow : ¬ f.fileIndex ≥ logFileIndexMax - 1 := Nat.not_le.mpr hlast
    rw [hclose, Tlogcat.fileFull, if_neg hlow]
    refine ⟨?_, ?_⟩
    · refine hrenamed.trans ?_
      rw [htrace, List.append_assoc]
      exact rfl
    · obtain ⟨file, old, -, hfind, -⟩ := hopen.stream
      rw [LogState.content, LogState.content, Disk.content, Disk.content, hfind] at hcontent
      obtain ⟨inode, hnew, -⟩ := Option.map_eq_some_iff.mp hcontent
      exact Option.isSome_iff_exists.mpr ⟨inode, hnew⟩
  · rw [← hindex] at hlast
    rw [hclose, Tlogcat.fileFull, if_pos (show f.fileIndex ≥ logFileIndexMax - 1 from hlast.ge)]
    have hcompressed := (logFilesCompress_spec C f.uuid t).trace
    refine ⟨logContents C f.uuid t, hcompressed.trans ?_⟩
    rw [htrace, List.append_assoc]
    exact rfl

/-- The last file there is counts. -/
theorem lastIndex_of_last (h : (s.disk.find (C.paths.logFile u 3)).isSome = true) :
    lastIndex C u s = 3 := by
  rw [lastIndex, getFileIndex, logFileIndexMax, getFileIndexLoop,
    logAssembleFilename_logFile C.paths u (by decide)]
  exact if_pos h

/-- In every run of writes and closes from any content of the log directory: a file that is full gets
a name that is free, with an index of at most 3; and when a compression moves the files of an identifier,
the items in '-1', '-2', '-3' and '-0' are the bytes written for it since its last compression. -/
theorem run_rotation (C : Config) (s s' : LogState) (as : List Action) (hinit : Initial s)
    (hrun : Machine.exec (logStep C) s as = some s') :
    (∀ u index existed, .full u index existed ∈ s'.trace → existed = false ∧ index ≤ 3) ∧
      ∀ before u files after, s'.trace = before ++ .moved u files :: after →
        keptItems files = pending u before := by
  have hinv : LogInv C s' :=
    Machine.exec_invariant (LogInv C) (fun s a s' h hstep => h.logStep hstep) hinit.logInv hrun
  refine ⟨fun u index existed hmem => ?_, fun before u files after htrace => ?_⟩
  · obtain ⟨before, after, htrace⟩ := List.append_of_mem hmem
    obtain ⟨hexisted, hindex⟩ := hinv.trace before _ after htrace
    exact ⟨hexisted, Nat.lt_succ_iff.mp hindex⟩
  · exact hinv.trace before _ after htrace

/-! ### Full files of an earlier run -/

/-- A directory with a full '-0' file of the system, and an empty file with another index. -/
def fullLog (index : Nat) : LogState where
  disk := ((Disk.empty.create (LogPaths.default.logFile .zero 0)).write ⟨0, 0⟩
    (List.replicate logFileLimit ⟨.existing, 1⟩)).create (LogPaths.default.logFile .zero index)

theorem fullLog_content (index : Nat) (p : List Char) :
    (fullLog index).content p =
      if p = LogPaths.default.logFile .zero index then some []
      else if p = LogPaths.default.logFile .zero 0 then some (List.replicate logFileLimit ⟨.existing, 1⟩)
      else none := by
  rw [LogState.content, fullLog, Disk.content_create]
  split_ifs with htwo hzero
  · rfl
  · have hempty : (Disk.empty.create (LogPaths.default.logFile .zero 0)).data 0 = ([] : List LogByte) := rfl
    rw [Disk.content_write _ _ (by rw [Disk.find_create, if_pos hzero]; rfl), hempty, List.take_nil,
      List.drop_nil, List.nil_append, List.append_nil]
  · rw [Disk.content_eq_none, Disk.find_write, Disk.find_create, if_neg hzero]
    rfl

theorem fullLog_initial (index : Nat) : Initial (fullLog index) := by
  refine ⟨rfl, rfl, fun p bytes hp byte hbyte => ?_⟩
  rw [fullLog_content] at hp
  split_ifs at hp
  · obtain rfl := Option.some.inj hp
    exact absurd hbyte List.not_mem_nil
  · obtain rfl := Option.some.inj hp
    rw [List.eq_of_mem_replicate hbyte]

/-- An archiver that appends the files. -/
def appending : Config := ⟨.default, [86], fun files => files.flatMap Prod.snd⟩

theorem fullLog_lengthOf {index : Nat} (h : index ≠ 0) :
    lengthOf appending .zero (fullLog index) = logFileLimit := by
  have hne : LogPaths.default.logFile .zero 0 ≠ LogPaths.default.logFile .zero index :=
    logFile_ne (C := appending) h.symm
  show (((fullLog index).content (LogPaths.default.logFile .zero 0)).getD []).length = logFileLimit
  rw [fullLog_content, if_neg hne, if_pos rfl, Option.getD_some, List.length_replicate]

/-- An item before the first of these closes and one that fills a file before the second: the '-0' file
becomes '-3', and the next one is packed with it. -/
theorem fullLog_rotation : ∃ s' files, Machine.exec (logStep appending) (fullLog 2)
      [.write .zero [2], .close, .write .zero (List.replicate logFileLimit 3), .close] = some s' ∧
    .full .zero 3 false ∈ s'.trace ∧ .moved .zero files ∈ s'.trace ∧
      keptItems files = [2] ++ List.replicate logFileLimit 3 := by
  have hinit := fullLog_initial 2
  have hindex : lastIndex appending .zero (fullLog 2) = 2 := by decide +kernel
  have hrenamed := (hinit.logInv (C := appending)).rotates hinit.idle .zero [2]
    (by rw [fullLog_lengthOf (by decide)]; exact Nat.le_add_right ..)
  obtain ⟨htrace, hfind⟩ := hrenamed.renamed (by rw [hindex]; decide)
  rw [hindex] at htrace hfind
  obtain ⟨files, hmoved⟩ :=
    (hrenamed.inv.rotates hrenamed.idle .zero (List.replicate logFileLimit 3)
      (by rw [List.length_replicate]; exact Nat.le_add_left ..)).compressed (lastIndex_of_last hfind)
  rw [htrace] at hmoved
  have hrotation := run_rotation appending (fullLog 2) _
    [.write .zero [2], .close, .write .zero (List.replicate logFileLimit 3), .close] hinit rfl
  refine ⟨_, files, rfl, by rw [hmoved]; simp, by rw [hmoved]; simp, ?_⟩
  rw [hrotation.2 [.wrote .zero [2], .full .zero 3 false, .wrote .zero (List.replicate logFileLimit 3)]
    .zero files [] hmoved]
  rfl

end ITrustee.Tlogcat
