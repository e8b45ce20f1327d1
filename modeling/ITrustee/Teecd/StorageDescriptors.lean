import Mathlib.Tactic
import ITrustee.Teecd.OpenedFiles

/-!
# The descriptors of the secure world

What the list of opened files is for: the secure world is given a descriptor for each file it opens,
and may use it until it closes the file. `Allows` says this of one request and its answer, with the set
of the descriptors given out before and after it. The agent keeps to it as long as `fclose` returns 0
for the files it closes.
-/

namespace ITrustee.Teecd

/-! ### The table -/

/-- The request is refused because of its descriptor. -/
structure Refused (t t' : SecStorageType) : Prop where
  error : t'.error = eBadF
  ret : t'.ret = 0 ∨ t'.ret = -1
  buffer : t'.args.buffer = t.args.buffer

/-- A request on an opened file. Only the calls themselves may find an open descriptor a bad one; 0 is
one that `FsyncWork` does not take. -/
structure UsesDescriptor (calls : Calls) (fds : Finset Int32) (t t' : SecStorageType) : Prop where
  refused : t.args.fd ∉ fds → Refused t t'
  accepted : t.args.fd ∈ fds → t'.error = eBadF →
    t.error = eBadF ∨ calls.errno = eBadF ∨ t.cmd = .secFsync ∧ t.args.fd = 0

/-- What the table of descriptors allows as the answer to a request. -/
def Allows (calls : Calls) (fds : Finset Int32) (t t' : SecStorageType) (fds' : Finset Int32) : Prop :=
  match t.cmd with
  | .secOpen | .secCreate =>
      t'.ret = -1 ∧ fds' = fds ∨ t'.ret ∉ fds ∧ fds' = insert t'.ret fds
  | .secClose =>
      if t.args.fd ∈ fds then t'.ret = 0 ∧ fds' = fds.erase t.args.fd else Refused t t' ∧ fds' = fds
  | .secRead | .secWrite | .secSeek | .secInfo | .secFsync =>
      UsesDescriptor calls fds t t' ∧ fds' = fds
  | _ => fds' = fds

/-! ### The descriptors of the list -/

/-- `FindOpenFile` passes over a node without a stream. -/
def descriptorOf (streams : List Stream) (node : OpenedFile) : Option Int32 :=
  if node.file = 0 then none else fileno streams node.file

def descriptors (s : FsState) : Finset Int32 :=
  (s.openedFiles.filterMap (descriptorOf s.streams)).toFinset

theorem mem_descriptors {s : FsState} {fd : Int32} :
    fd ∈ descriptors s ↔ ∃ node ∈ s.openedFiles, descriptorOf s.streams node = some fd := by
  rw [descriptors, List.mem_toFinset, List.mem_filterMap]

section Find

variable {streams : List Stream} {fd : Int32} {nodes : List OpenedFile} {i : Nat}

theorem findLoop_notFound (h : findLoop streams fd nodes i = .notFound) :
    ∀ node ∈ nodes, descriptorOf streams node ≠ some fd := by
  induction nodes generalizing i with
  | nil => exact fun node hnode => absurd hnode List.not_mem_nil
  | cons p nodes ih =>
      rw [findLoop] at h
      intro node hnode
      split_ifs at h with hnull
      · rcases List.mem_cons.mp hnode with rfl | hnode
        · rw [descriptorOf, if_pos hnull]
          exact (Option.some_ne_none fd).symm
        · exact ih h node hnode
      · cases hno : fileno streams p.file with
        | none =>
            rw [hno] at h
            cases h
        | some n =>
            rw [hno] at h
            dsimp only at h
            split_ifs at h with hn
            rcases List.mem_cons.mp hnode with rfl | hnode
            · rw [descriptorOf, if_neg hnull, hno]
              exact fun heq => hn (Option.some.inj heq)
            · exact ih h node hnode

theorem findLoop_found_descriptor {j : Nat} {file : UInt64}
    (h : findLoop streams fd nodes i = .found j file) : descriptorOf streams ⟨file⟩ = some fd := by
  induction nodes generalizing i with
  | nil => cases h
  | cons p nodes ih =>
      rw [findLoop] at h
      split_ifs at h with hnull
      · exact ih h
      · cases hno : fileno streams p.file with
        | none =>
            rw [hno] at h
            cases h
        | some n =>
            rw [hno] at h
            dsimp only at h
            split_ifs at h with hn
            · cases h
              rw [descriptorOf, if_neg hnull, ← hn]
              exact hno
            · exact ih h

end Find

section Files

variable {s s' : FsState} {fd : Int32}

theorem mem_descriptors_of_found {i : Nat} {file : UInt64} (h : findOpenFile s fd = .found i file) :
    fd ∈ descriptors s := by
  obtain ⟨before, after, hfiles, -⟩ := findLoop_found h
  refine mem_descriptors.mpr ⟨⟨file⟩, ?_, findLoop_found_descriptor h⟩
  rw [hfiles]
  exact List.mem_append_right _ List.mem_cons_self

theorem not_mem_descriptors (h : findOpenFile s fd = .notFound) : fd ∉ descriptors s := by
  intro hmem
  obtain ⟨node, hnode, hfd⟩ := mem_descriptors.mp hmem
  exact findLoop_notFound h node hnode hfd

theorem SameFiles.descriptors_eq (h : SameFiles s s') : descriptors s' = descriptors s := by
  rw [descriptors, descriptors, h.1, h.2]

theorem OpensFile.descriptors_eq {stream : Stream} (h : OpensFile s s' stream)
    (hs : OpenFilesSound s) (hfile : stream.file ≠ 0) :
    stream.fileno ∉ descriptors s ∧ descriptors s' = insert stream.fileno (descriptors s) := by
  have hkeep (node : OpenedFile) (hnode : node ∈ s.openedFiles) :
      descriptorOf s'.streams node = descriptorOf s.streams node := by
    rw [descriptorOf, descriptorOf, (h.node hs hnode).1]
  have hnew : descriptorOf s'.streams ⟨stream.file⟩ = some stream.fileno := by
    rw [descriptorOf, if_neg hfile, h.2.2, fileno_cons, if_pos rfl]
  constructor
  · intro hmem
    obtain ⟨node, hnode, hfd⟩ := mem_descriptors.mp hmem
    rw [descriptorOf] at hfd
    split_ifs at hfd
    exact (h.node hs hnode).2 hfd
  · ext n
    rw [Finset.mem_insert, mem_descriptors, mem_descriptors, h.2.1]
    constructor
    · rintro ⟨node, hnode, hn⟩
      rcases List.mem_append.mp hnode with hold | hnode
      · exact Or.inr ⟨node, hold, by rw [← hkeep node hold]; exact hn⟩
      · rw [List.mem_singleton.mp hnode, hnew] at hn
        exact Or.inl (Option.some.inj hn).symm
    · rintro (rfl | ⟨node, hnode, hn⟩)
      · exact ⟨_, List.mem_append_right _ (List.mem_singleton_self _), hnew⟩
      · exact ⟨node, List.mem_append_left _ hnode, by rw [hkeep node hnode]; exact hn⟩

/-- Closing the stream of a node and taking the node off. -/
theorem descriptors_close {before after : List OpenedFile} {file : UInt64} (hs : OpenFilesSound s)
    (hfiles : s.openedFiles = before ++ ⟨file⟩ :: after)
    (hfd : descriptorOf s.streams ⟨file⟩ = some fd) :
    descriptors { fclose s file with openedFiles := before ++ after } = (descriptors s).erase fd := by
  have hdistinct := hs.distinct
  rw [hfiles, List.pairwise_middle fun h => Ne.symm h, List.pairwise_cons] at hdistinct
  obtain ⟨hfile, -⟩ := hdistinct
  have hother : ∀ node ∈ before ++ after, node.file ≠ file := by
    intro node hnode heq
    exact hfile node hnode (by rw [heq])
  have hkeep : ∀ node ∈ before ++ after,
      descriptorOf (fclose s file).streams node = descriptorOf s.streams node := by
    intro node hnode
    rw [descriptorOf, descriptorOf, fclose, fileno_filter, if_neg (hother node hnode)]
  have hne : ∀ node ∈ before ++ after, descriptorOf s.streams node ≠ some fd := by
    intro node hnode hn
    refine hfile node hnode ?_
    rw [descriptorOf] at hfd hn
    split_ifs at hfd hn
    rw [hn, hfd]
  have hmem : ∀ node, node ∈ s.openedFiles ↔ node = ⟨file⟩ ∨ node ∈ before ++ after := by
    intro node
    rw [hfiles, List.mem_append, List.mem_cons, List.mem_append]
    tauto
  ext n
  rw [Finset.mem_erase, mem_descriptors, mem_descriptors]
  dsimp only
  constructor
  · rintro ⟨node, hnode, hn⟩
    rw [hkeep node hnode] at hn
    refine ⟨fun heq => hne node hnode (heq ▸ hn), node, (hmem node).mpr (Or.inr hnode), hn⟩
  · rintro ⟨hnfd, node, hnode, hn⟩
    rcases (hmem node).mp hnode with rfl | hnode
    · rw [hfd] at hn
      exact absurd (Option.some.inj hn).symm hnfd
    · exact ⟨node, hnode, by rw [hkeep node hnode]; exact hn⟩

end Files

/-! ### One request -/

section Work

variable {lib : Securec} {calls : Calls} {s s' : FsState} {t t' : SecStorageType}

theorem fopen_file {stream : Stream} (h : fopen s stream = some s') : stream.file ≠ 0 := by
  rw [fopen] at h
  split_ifs at h with hfresh
  exact hfresh.1

/-- A call that fails says why. -/
def SaysWhy (calls : Calls) : Prop := calls.realpath = none ∨ calls.fopen = none → calls.errno ≠ 0

theorem getRealFilePath_error {path : List Char} {rRet : UInt32} (hwhy : SaysWhy calls)
    (h : getRealFilePath lib calls path = .error rRet) : rRet ≠ 0 := by
  rw [getRealFilePath] at h
  cases hreal : calls.realpath with
  | none =>
      rw [hreal] at h
      dsimp only at h
      split_ifs at h
      · obtain rfl := Except.error.inj h
        exact hwhy (Or.inl hreal)
      · obtain rfl := Except.error.inj h
        decide
      · split at h
        · obtain rfl := Except.error.inj h
          decide
        · cases h
  | some trustPath =>
      rw [hreal] at h
      dsimp only at h
      split_ifs at h
      obtain rfl := Except.error.inj h
      decide

/-- A file that is opened is new to the table, and its descriptor is the answer. -/
theorem doOpenFile_descriptors {path : List Char} {error : UInt32} (hs : OpenFilesSound s)
    (hwhy : SaysWhy calls) (h : doOpenFile lib calls path s t = some (error, s', t')) :
    error ≠ 0 ∧ descriptors s' = descriptors s ∨
      error = 0 ∧ t'.ret ∉ descriptors s ∧ descriptors s' = insert t'.ret (descriptors s) := by
  rw [doOpenFile] at h
  cases hpath : getRealFilePath lib calls path with
  | error rRet =>
      simp only [hpath] at h
      cases h
      exact Or.inl ⟨getRealFilePath_error hwhy hpath, rfl⟩
  | ok trustPath =>
      simp only [hpath] at h
      cases hstream : calls.fopen with
      | none =>
          simp only [hstream] at h
          cases h
          exact Or.inl ⟨hwhy (Or.inr hstream), rfl⟩
      | some stream =>
          simp only [hstream] at h
          obtain ⟨u, hu, hadd⟩ := Option.bind_eq_some_iff.mp h
          have hfile := fopen_file hu
          obtain ⟨hfresh, rfl⟩ := fopen_some hu
          cases hmalloc : calls.malloc with
          | false =>
              simp only [addOpenFile, hmalloc] at hadd
              cases hadd
              refine Or.inl ⟨by decide, SameFiles.descriptors_eq ⟨rfl, ?_⟩⟩
              exact filter_new_stream hfresh
          | true =>
              simp only [addOpenFile, hmalloc] at hadd
              cases hadd
              have hopens : OpensFile s
                  { s with
                    openedFiles := s.openedFiles ++ [⟨stream.file⟩]
                    streams := stream :: s.streams } stream :=
                ⟨hfresh, rfl, rfl⟩
              exact Or.inr ⟨rfl, hopens.descriptors_eq hs hfile⟩

theorem openWork_descriptors (hs : OpenFilesSound s) (hwhy : SaysWhy calls)
    (h : openWork lib calls s t = some (s', t')) :
    t'.ret = -1 ∧ descriptors s' = descriptors s ∨
      t'.ret ∉ descriptors s ∧ descriptors s' = insert t'.ret (descriptors s) := by
  rw [openWork] at h
  cases hjoined : joined lib calls (setCurrent s t) t.args.name with
  | none =>
      simp only [hjoined] at h
      cases h
      exact Or.inl ⟨rfl, rfl⟩
  | some nameBuff =>
      simp only [hjoined] at h
      generalize checkOpenWorkValid calls t = valid at h
      split_ifs at h
      · cases h
        exact Or.inl ⟨rfl, rfl⟩
      · cases h
        exact Or.inl ⟨rfl, rfl⟩
      · obtain ⟨⟨error, u, t''⟩, hopen, hanswer⟩ := Option.bind_eq_some_iff.mp h
        have hset : OpenFilesSound (setCurrent s t) :=
          (show SameFiles s (setCurrent s t) from ⟨rfl, rfl⟩).sound hs
        dsimp only at hanswer
        rcases doOpenFile_descriptors hset hwhy hopen with ⟨herror, hfds⟩ | ⟨rfl, hnew, hfds⟩
        · rw [if_pos herror] at hanswer
          cases hanswer
          exact Or.inl ⟨rfl, hfds⟩
        · rw [if_neg (not_not.mpr rfl)] at hanswer
          cases hanswer
          exact Or.inr ⟨hnew, hfds⟩

theorem closeWork_descriptors (hs : OpenFilesSound s) (hclose : calls.fclose = 0)
    (h : closeWork calls s t = some (s', t')) :
    if t.args.fd ∈ descriptors s then
      t'.ret = 0 ∧ descriptors s' = (descriptors s).erase t.args.fd
    else Refused t t' ∧ descriptors s' = descriptors s := by
  rw [closeWork] at h
  cases hfind : findOpenFile s t.args.fd with
  | found i file =>
      rw [if_pos (mem_descriptors_of_found hfind)]
      simp only [hfind, hclose, if_true] at h
      cases h
      obtain ⟨before, after, hfiles, rfl⟩ := findLoop_found hfind
      refine ⟨rfl, ?_⟩
      rw [← descriptors_close hs hfiles (findLoop_found_descriptor hfind), delOpenFile, fclose]
      dsimp only
      rw [hfiles, Nat.zero_add, List.eraseIdx_append_of_length_le le_rfl, Nat.sub_self]
      rfl
  | notFound =>
      rw [if_neg (not_mem_descriptors hfind)]
      simp only [hfind] at h
      cases h
      exact ⟨⟨rfl, Or.inr rfl, rfl⟩, rfl⟩
  | closedStream =>
      simp only [hfind] at h
      cases h

theorem onOpenedFile_descriptors {found notFound : SecStorageType}
    (h : onOpenedFile s t.args.fd found notFound = some (s', t')) (hrefused : Refused t notFound)
    (hfound : found.error = eBadF → t.error = eBadF ∨ calls.errno = eBadF) :
    UsesDescriptor calls (descriptors s) t t' ∧ descriptors s' = descriptors s := by
  rw [onOpenedFile] at h
  cases hfind : findOpenFile s t.args.fd with
  | found i file =>
      simp only [hfind] at h
      cases h
      refine ⟨⟨fun hnot => absurd (mem_descriptors_of_found hfind) hnot, fun _ herror => ?_⟩, rfl⟩
      rcases hfound herror with hbad | hbad
      · exact Or.inl hbad
      · exact Or.inr (Or.inl hbad)
  | notFound =>
      simp only [hfind] at h
      cases h
      exact ⟨⟨fun _ => hrefused, fun hmem => absurd hmem (not_mem_descriptors hfind)⟩, rfl⟩
  | closedStream =>
      simp only [hfind] at h
      cases h

theorem readWork_descriptors (h : readWork calls s t = some (s', t')) :
    UsesDescriptor calls (descriptors s) t t' ∧ descriptors s' = descriptors s := by
  refine onOpenedFile_descriptors h ⟨rfl, Or.inl rfl, rfl⟩ fun herror => ?_
  split_ifs at herror
  · exact Or.inr herror
  · exact Or.inl herror

theorem writeWork_descriptors (h : writeWork calls s t = some (s', t')) :
    UsesDescriptor calls (descriptors s) t t' ∧ descriptors s' = descriptors s := by
  refine onOpenedFile_descriptors h ⟨rfl, Or.inl rfl, rfl⟩ fun herror => ?_
  split_ifs at herror
  · exact Or.inr herror
  · exact Or.inr herror
  · exact Or.inl herror
  · exact absurd (show (0 : UInt32) = eBadF from herror) (by decide)

theorem seekWork_descriptors (h : seekWork calls s t = some (s', t')) :
    UsesDescriptor calls (descriptors s) t t' ∧ descriptors s' = descriptors s := by
  refine onOpenedFile_descriptors h ⟨rfl, Or.inr rfl, rfl⟩ fun herror => ?_
  split_ifs at herror
  · exact Or.inr herror
  · exact Or.inl herror

theorem fileInfoWork_descriptors (h : fileInfoWork calls s t = some (s', t')) :
    UsesDescriptor calls (descriptors s) t t' ∧ descriptors s' = descriptors s := by
  refine onOpenedFile_descriptors h ⟨rfl, Or.inr rfl, rfl⟩ fun herror => ?_
  split_ifs at herror
  · exact Or.inl herror
  · exact Or.inr herror

theorem fsyncWork_descriptors (hcmd : t.cmd = .secFsync) (h : fsyncWork calls s t = some (s', t')) :
    UsesDescriptor calls (descriptors s) t t' ∧ descriptors s' = descriptors s := by
  rw [fsyncWork] at h
  by_cases hfd : t.args.fd = 0
  · rw [if_pos hfd] at h
    cases h
    exact ⟨⟨fun _ => ⟨rfl, Or.inr rfl, rfl⟩, fun _ _ => Or.inr (Or.inr ⟨hcmd, hfd⟩)⟩, rfl⟩
  · rw [if_neg hfd] at h
    refine onOpenedFile_descriptors h ⟨rfl, Or.inr rfl, rfl⟩ fun herror => ?_
    split_ifs at herror
    · exact Or.inr herror
    · exact Or.inl herror

/-- Every request is answered as the table allows. -/
theorem fsWork_allows (hs : OpenFilesSound s) (hwhy : SaysWhy calls)
    (hclose : t.cmd = .secClose → calls.fclose = 0) (h : fsWork lib calls s t = some (s', t')) :
    Allows calls (descriptors s) t t' (descriptors s') := by
  rw [fsWork] at h
  unfold Allows
  cases hc : t.cmd with
  | secOpen | secCreate =>
      simp only [hc] at h
      exact openWork_descriptors hs hwhy h
  | secClose =>
      simp only [hc] at h
      exact closeWork_descriptors hs (hclose hc) h
  | secRead =>
      simp only [hc] at h
      exact readWork_descriptors h
  | secWrite =>
      simp only [hc] at h
      exact writeWork_descriptors h
  | secSeek =>
      simp only [hc] at h
      exact seekWork_descriptors h
  | secInfo =>
      simp only [hc] at h
      exact fileInfoWork_descriptors h
  | secFsync =>
      simp only [hc] at h
      exact fsyncWork_descriptors hc h
  | secRemove | secTruncate | secRename | secCp =>
      simp only [hc] at h
      exact (pathWork_effect h).descriptors_eq
  | secAccess | secAccess2 =>
      simp only [hc] at h
      exact (fileAccessWork_effect h).descriptors_eq
  | secDiskusage =>
      simp only [hc] at h
      exact (diskUsageWork_effect h).descriptors_eq
  | secDeleteAll =>
      simp only [hc] at h
      exact (deleteAllWork_effect h).descriptors_eq
  | other cmd =>
      simp only [hc] at h
      cases h
      rfl

/-- And the list is sound afterwards. -/
theorem fsWork_sound (hs : OpenFilesSound s) (hclose : t.cmd = .secClose → calls.fclose = 0)
    (h : fsWork lib calls s t = some (s', t')) : OpenFilesSound s' := by
  have hafter : SoundAfter lib s ⟨t, calls⟩ :=
    (soundAfter_iff hs ⟨t, calls⟩).mpr fun hcmd _ _ _ => hclose hcmd
  refine hafter s' ?_
  rw [fsStep, h]
  rfl

end Work

end ITrustee.Teecd
