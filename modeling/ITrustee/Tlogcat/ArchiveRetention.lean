import Mathlib.Data.List.DropRight
import Mathlib.Tactic
import ITrustee.Tlogcat.Compression

/-!
# Archives that are kept

An identifier has at most four archives. They are numbered from '-0' without gaps and the oldest comes
first. A call of `LogFilesCompress` adds one batch at the end and, if there are four already, drops the
first and renumbers the rest; so after any number of calls the archives are the last four batches. The
calls may be for different identifiers, and between them anything may happen that leaves the archives
alone.
-/

namespace ITrustee.Tlogcat

open LogPaths

/-- The archives of an identifier are exactly these. -/
def HoldsArchives (C : Config) (u : TeeUuid) (s : LogState) (archives : List (List LogByte)) : Prop :=
  ∀ i, s.content (C.paths.archive u i) = archives[i]?

def SameArchives (C : Config) (s s' : LogState) : Prop :=
  ∀ u i, s'.content (C.paths.archive u i) = s.content (C.paths.archive u i)

/-- A call of `LogFilesCompress`: the batch it packs, and what the archive that it is about to write
contains at that moment. -/
structure Call where
  uuid : TeeUuid
  batch : List LogByte
  existing : Option (List LogByte)

def callOf (C : Config) (u : TeeUuid) (s : LogState) : Call :=
  ⟨u, batch C u s, (beforeTrigger C u s).content (beforeTrigger C u s).g_compressFile⟩

/-- Calls of `LogFilesCompress`, with other work between them. -/
inductive Calls (C : Config) (s : LogState) : List Call → LogState → Prop where
  | start : Calls C s [] s
  | compress {calls : List Call} {t t' : LogState} (u : TeeUuid) (h : Calls C s calls t)
      (hwork : SameArchives C t t') :
      Calls C s (calls ++ [callOf C u t']) (logFilesCompress C u t')

def batchesOf (u : TeeUuid) (calls : List Call) : List (List LogByte) :=
  (calls.filter fun call => call.uuid = u).map Call.batch

variable {C : Config} {u v : TeeUuid} {s s' : LogState} {archives : List (List LogByte)}

theorem SameArchives.holds (h : SameArchives C s s') (hold : HoldsArchives C u s archives) :
    HoldsArchives C u s' archives :=
  fun i => (h u i).trans (hold i)

/-! ### The last elements of a list -/

theorem rtake_of_length_le {α : Type*} {l : List α} {n : Nat} (h : l.length ≤ n) :
    l.rtake n = l := by
  rw [List.rtake, Nat.sub_eq_zero_of_le h, List.drop_zero]

theorem length_rtake {α : Type*} (l : List α) (n : Nat) : (l.rtake n).length = min l.length n := by
  rw [List.rtake, List.length_drop]
  omega

/-- Elements that are not among the last ones need not be kept. -/
theorem rtake_rtake_append {α : Type*} (l m : List α) (n : Nat) :
    (l.rtake n ++ m).rtake n = (l ++ m).rtake n := by
  rw [List.rtake_eq_reverse_take_reverse, List.reverse_append, List.rtake_eq_reverse_take_reverse,
    List.reverse_reverse, List.take_append, List.take_take, Nat.min_eq_left (Nat.sub_le _ _),
    ← List.take_append, ← List.reverse_append, ← List.rtake_eq_reverse_take_reverse]

/-! ### One call -/

/-- A call adds its batch after the archives that are there, and four of them remain. -/
theorem holdsArchives_compress (hlength : archives.length ≤ logFileIndexMax)
    (hold : HoldsArchives C u s archives) :
    HoldsArchives C u (logFilesCompress C u s)
      ((archives ++ [batch C u s]).rtake logFileIndexMax) := by
  obtain ⟨m, hm, hnew, h | h⟩ := (logFilesCompress_spec C u s).archives
  · obtain ⟨hbelow, hfree, hsame⟩ := h
    have hend : m = archives.length := by
      rw [hold, List.getElem?_eq_none_iff] at hfree
      obtain heq | hlt := hfree.eq_or_lt
      · exact heq.symm
      · exact absurd ((hold _).trans (List.getElem?_eq_none_iff.mpr le_rfl)) (hbelow _ hlt)
    rw [rtake_of_length_le (by rw [List.length_append, List.length_singleton]; omega)]
    intro i
    by_cases hi : i = m
    · rw [hi, hnew, hend, List.getElem?_concat_length]
    · rw [hsame i hi, hold]
      obtain hlt | hlt := Nat.lt_or_gt_of_ne hi
      · rw [List.getElem?_append_left (by omega)]
      · rw [List.getElem?_eq_none_iff.mpr (by omega), List.getElem?_eq_none_iff.mpr]
        rw [List.length_append, List.length_singleton]
        omega
  · obtain ⟨rfl, hall, hshift, hlater⟩ := h
    have hfull : archives.length = 4 := by
      refine le_antisymm hlength (not_lt.mp fun hlt => ?_)
      refine hall 3 (by decide) ((hold 3).trans (List.getElem?_eq_none_iff.mpr ?_))
      omega
    have hdrop : (archives ++ [batch C u s]).rtake logFileIndexMax =
        (archives ++ [batch C u s]).drop 1 := by
      rw [List.rtake, List.length_append, hfull]
      rfl
    rw [hdrop]
    intro i
    rw [List.getElem?_drop, Nat.add_comm]
    obtain hlt | heq | hgt := Nat.lt_trichotomy i 3
    · rw [hshift i hlt, hold, List.getElem?_append_left (by omega)]
    · have hlast : 3 + 1 = archives.length := hfull.symm
      rw [heq, hnew, hlast, List.getElem?_concat_length]
    · rw [hlater i hgt, hold, List.getElem?_eq_none_iff.mpr (by omega),
        List.getElem?_eq_none_iff.mpr]
      rw [List.length_append, List.length_singleton]
      omega

theorem compress_other (h : u ≠ v) (i : Nat) :
    (logFilesCompress C u s).content (C.paths.archive v i) = s.content (C.paths.archive v i) :=
  ((logFilesCompress_spec C u s).other _ not_isTemp_archive
    (fun _ _ heq => logFile_ne_archive heq.symm) fun _ heq => h (archive_inj heq).1.symm).2

/-! ### All calls -/

theorem batchesOf_append (u : TeeUuid) (calls : List Call) (call : Call) :
    batchesOf u (calls ++ [call]) =
      batchesOf u calls ++ if call.uuid = u then [call.batch] else [] := by
  rw [batchesOf, List.filter_append, List.map_append, ← batchesOf]
  split_ifs with h
  · rw [List.filter_cons_of_pos (by simpa using h)]
    rfl
  · rw [List.filter_cons_of_neg (by simpa using h)]
    rfl

theorem Calls.holds {calls : List Call} (hcalls : Calls C s calls s')
    (hlength : archives.length ≤ logFileIndexMax) (hold : HoldsArchives C u s archives) :
    HoldsArchives C u s' ((archives ++ batchesOf u calls).rtake logFileIndexMax) := by
  induction hcalls with
  | start =>
      rw [batchesOf, List.filter_nil, List.map_nil, List.append_nil, rtake_of_length_le hlength]
      exact hold
  | compress v h hwork ih =>
      have hold' := hwork.holds ih
      rw [batchesOf_append]
      by_cases hv : v = u
      · rw [callOf, if_pos hv]
        subst hv
        have hnext := holdsArchives_compress (by rw [length_rtake]; exact Nat.min_le_right _ _) hold'
        rwa [rtake_rtake_append, List.append_assoc] at hnext
      · rw [callOf, if_neg hv, List.append_nil]
        exact fun i => (compress_other hv i).trans (hold' i)

theorem Calls.existing {calls : List Call} (hcalls : Calls C s calls s') :
    ∀ call ∈ calls, call.existing = none := by
  induction hcalls with
  | start => nofun
  | compress v h hwork ih =>
      intro call hmem
      obtain hmem | hmem := List.mem_append.mp hmem
      · exact ih call hmem
      · rw [List.mem_singleton.mp hmem]
        exact (Disk.content_eq_none ..).mpr (find_g_compressFile C v _)

theorem Calls.other {calls : List Call} (hcalls : Calls C s calls s')
    (hv : ∀ call ∈ calls, call.uuid ≠ v) (i : Nat) :
    s'.content (C.paths.archive v i) = s.content (C.paths.archive v i) := by
  induction hcalls with
  | start => rfl
  | compress u h hwork ih =>
      have hne : u ≠ v := hv _ (List.mem_append_right _ (List.mem_singleton.mpr rfl))
      rw [compress_other hne, hwork v i]
      exact ih fun call hmem => hv call (List.mem_append_left _ hmem)

/-- Calls of `LogFilesCompress`, for one or for several identifiers: if the archives of an identifier
are numbered from '-0' without gaps and there are at most four, then after the calls they are the last
four of the old ones and the new batches, in this order; what is about to be written never exists; and
the archives of an identifier that no call is for are as they were. -/
theorem calls_archives (C : Config) (s s' : LogState) (calls : List Call)
    (hcalls : Calls C s calls s') :
    (∀ u archives, archives.length ≤ logFileIndexMax → HoldsArchives C u s archives →
      ((archives ++ batchesOf u calls).rtake logFileIndexMax).length =
          min (archives.length + (batchesOf u calls).length) logFileIndexMax ∧
        HoldsArchives C u s' ((archives ++ batchesOf u calls).rtake logFileIndexMax)) ∧
      (∀ call ∈ calls, call.existing = none) ∧
        ∀ v, (∀ call ∈ calls, call.uuid ≠ v) →
          ∀ i, s'.content (C.paths.archive v i) = s.content (C.paths.archive v i) := by
  refine ⟨fun u archives hlength hold => ⟨?_, hcalls.holds hlength hold⟩, hcalls.existing,
    fun v hv i => hcalls.other hv i⟩
  rw [length_rtake, List.length_append]

/-! ### Log files are opened between the calls -/

theorem logFilesOpen_sameArchives (C : Config) (u : TeeUuid) (i : Nat) (s : LogState) :
    SameArchives C s (logFilesOpen C (C.paths.logFile u i) s).1 := by
  intro v j
  rw [logFilesOpen]
  split
  · rfl
  · have hfind : (s.disk.create (C.paths.logFile u i)).find (C.paths.archive v j) =
        s.disk.find (C.paths.archive v j) := by
      rw [Disk.find_create, if_neg fun h => logFile_ne_archive h.symm]
    refine (Disk.content_write_of_ne _ _ ?_).trans ?_
    · rw [hfind]
      exact fun h => absurd (s.disk.find_lt h) (lt_irrefl _)
    · rw [Disk.content_create, if_neg fun h => logFile_ne_archive h.symm]
      rfl

/-- A new log file is opened before each of `n` calls. -/
theorem calls_repeated (C : Config) (u : TeeUuid) (s : LogState) (n : Nat) :
    ∃ calls s', Calls C s calls s' ∧ (batchesOf u calls).length = n := by
  induction n with
  | zero => exact ⟨[], s, Calls.start, rfl⟩
  | succ n ih =>
      obtain ⟨calls, t, hcalls, hlength⟩ := ih
      refine ⟨_, _, hcalls.compress u (logFilesOpen_sameArchives C u 0 t), ?_⟩
      rw [batchesOf_append, callOf, if_pos rfl, List.length_append, hlength]
      rfl

/-- The files of an archive one after another, and one old archive of the system. -/
def concatFiles : Config := ⟨.default, [86], fun files => files.flatMap Prod.snd⟩

def oneArchive : LogState where
  disk := (Disk.empty.create (concatFiles.paths.archive .zero 0)).write ⟨0, 0⟩ [⟨.existing, 1⟩]

theorem oneArchive_holds : HoldsArchives concatFiles .zero oneArchive [[⟨.existing, 1⟩]] := by
  intro i
  cases i with
  | zero => rfl
  | succ i =>
      refine (Disk.content_eq_none ..).mpr ?_
      rw [oneArchive, Disk.find_write, Disk.find_create, if_neg (archive_ne (Nat.succ_ne_zero i))]
      rfl

/-- After four calls the old archive is gone and there are the four new batches. -/
theorem fourCalls_archives : ∃ calls s', Calls concatFiles oneArchive calls s' ∧
    (batchesOf .zero calls).length = 4 ∧
      HoldsArchives concatFiles .zero s' (batchesOf .zero calls) := by
  obtain ⟨calls, s', hcalls, hlength⟩ := calls_repeated concatFiles .zero oneArchive 4
  obtain ⟨harchives, -, -⟩ := calls_archives concatFiles oneArchive s' calls hcalls
  refine ⟨calls, s', hcalls, hlength, ?_⟩
  have hold := (harchives .zero [[⟨.existing, 1⟩]] (by decide) oneArchive_holds).2
  rw [List.rtake, List.length_append, hlength] at hold
  exact hold

end ITrustee.Tlogcat
