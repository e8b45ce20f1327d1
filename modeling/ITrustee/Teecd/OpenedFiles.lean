import Mathlib.Tactic
import ITrustee.Foundation.Machine
import ITrustee.Teecd.FsWorkAgent

/-!
# The opened-file list of the storage agent

Every node of the list should hold an open stream, and the file numbers of these streams, by which all
later requests look a file up, should differ. A request adds a node together with a stream, or takes a
node off together with a stream, or leaves both alone: with one exception. `CloseWork` takes the node
off only if `fclose` returns 0, but the stream is gone in any case. `run_openFiles_sound_iff` says that
this is the only way the list goes wrong.
-/

namespace ITrustee.Teecd

structure OpenFilesSound (s : FsState) : Prop where
  opened : ∀ node ∈ s.openedFiles, fileno s.streams node.file ≠ none
  distinct : s.openedFiles.Pairwise fun a b =>
    fileno s.streams a.file ≠ fileno s.streams b.file

/-- Whatever the request leads to is sound. -/
def SoundAfter (lib : Securec) (s : FsState) (r : Request) : Prop :=
  ∀ s', fsStep lib s r = some s' → OpenFilesSound s'

/-- If the request closes an opened file, `fclose` returns 0. -/
def CloseSucceeds (s : FsState) (r : Request) : Prop :=
  r.transControl.cmd = .secClose →
    ∀ i file, findOpenFile s r.transControl.args.fd = .found i file → r.calls.fclose = 0

/-! ### Streams -/

theorem fileno_eq_some {streams : List Stream} {file : UInt64} {n : Int32}
    (h : fileno streams file = some n) : ∃ t ∈ streams, t.file = file ∧ t.fileno = n := by
  obtain ⟨t, hfind, hn⟩ := Option.map_eq_some_iff.mp h
  exact ⟨t, List.mem_of_find?_eq_some hfind, by simpa using List.find?_some hfind, hn⟩

theorem fileno_cons (stream : Stream) (streams : List Stream) (file : UInt64) :
    fileno (stream :: streams) file =
      if stream.file = file then some stream.fileno else fileno streams file := by
  rw [fileno, List.find?_cons]
  by_cases h : stream.file = file
  · simp [h]
  · simp [h, fileno]

theorem fileno_filter (streams : List Stream) (closed file : UInt64) :
    fileno (streams.filter fun t => t.file ≠ closed) file =
      if file = closed then none else fileno streams file := by
  induction streams with
  | nil => simp [fileno]
  | cons t streams ih =>
      rw [List.filter_cons]
      by_cases ht : t.file = closed
      · rw [if_neg (by simpa using ht), ih, fileno_cons]
        by_cases hfile : file = closed
        · rw [if_pos hfile, if_pos hfile]
        · rw [if_neg hfile, if_neg hfile, if_neg (by rw [ht]; exact Ne.symm hfile)]
      · rw [if_pos (by simpa using ht), fileno_cons, ih, fileno_cons]
        by_cases hfile : t.file = file
        · rw [if_pos hfile, if_pos hfile, if_neg (by rw [← hfile]; exact ht)]
        · rw [if_neg hfile, if_neg hfile]

theorem fopen_some {s s' : FsState} {stream : Stream} (h : fopen s stream = some s') :
    (∀ t ∈ s.streams, t.file ≠ stream.file ∧ t.fileno ≠ stream.fileno) ∧
      s' = { s with streams := stream :: s.streams } := by
  rw [fopen] at h
  split_ifs at h with hfresh
  exact ⟨hfresh.2, (Option.some.inj h).symm⟩

/-- A new stream that is closed again leaves the open streams as they were. -/
theorem filter_new_stream {streams : List Stream} {stream : Stream}
    (hfresh : ∀ t ∈ streams, t.file ≠ stream.file ∧ t.fileno ≠ stream.fileno) :
    (stream :: streams).filter (fun t => t.file ≠ stream.file) = streams := by
  rw [List.filter_cons_of_neg (by simp), List.filter_eq_self]
  intro t ht
  simpa using (hfresh t ht).1

/-- A search that finds a stream finds it at the node it names. -/
theorem findLoop_found {streams : List Stream} {fd : Int32} {nodes : List OpenedFile}
    {i j : Nat} {file : UInt64} (h : findLoop streams fd nodes i = .found j file) :
    ∃ before after, nodes = before ++ ⟨file⟩ :: after ∧ j = i + before.length := by
  induction nodes generalizing i with
  | nil => cases h
  | cons p nodes ih =>
      have hlater (hrest : findLoop streams fd nodes (i + 1) = .found j file) :
          ∃ before after, p :: nodes = before ++ ⟨file⟩ :: after ∧ j = i + before.length := by
        obtain ⟨before, after, rfl, rfl⟩ := ih hrest
        refine ⟨p :: before, after, rfl, ?_⟩
        rw [List.length_cons]
        omega
      rw [findLoop] at h
      split_ifs at h with hnull
      · exact hlater h
      · cases hno : fileno streams p.file with
        | none => simp [hno] at h
        | some n =>
            simp only [hno] at h
            split_ifs at h with hn
            · cases h
              exact ⟨[], nodes, rfl, rfl⟩
            · exact hlater h

/-! ### What a request does -/

/-- The list and the streams are as before. -/
def SameFiles (s s' : FsState) : Prop :=
  s'.openedFiles = s.openedFiles ∧ s'.streams = s.streams

/-- A new stream was opened and put at the tail of the list. -/
def OpensFile (s s' : FsState) (stream : Stream) : Prop :=
  (∀ t ∈ s.streams, t.file ≠ stream.file ∧ t.fileno ≠ stream.fileno) ∧
    s'.openedFiles = s.openedFiles ++ [⟨stream.file⟩] ∧ s'.streams = stream :: s.streams

section Work

variable {lib : Securec} {calls : Calls} {s s' : FsState} {t t' : SecStorageType}

theorem doOpenFile_effect {path : List Char} {error : UInt32}
    (h : doOpenFile lib calls path s t = some (error, s', t')) :
    SameFiles s s' ∨ ∃ stream, OpensFile s s' stream := by
  rw [doOpenFile] at h
  cases hpath : getRealFilePath lib calls path with
  | error rRet =>
      simp only [hpath] at h
      cases h
      exact Or.inl ⟨rfl, rfl⟩
  | ok trustPath =>
      simp only [hpath] at h
      cases hstream : calls.fopen with
      | none =>
          simp only [hstream] at h
          cases h
          exact Or.inl ⟨rfl, rfl⟩
      | some stream =>
          simp only [hstream] at h
          obtain ⟨u, hu, hadd⟩ := Option.bind_eq_some_iff.mp h
          obtain ⟨hfresh, rfl⟩ := fopen_some hu
          cases hmalloc : calls.malloc with
          | false =>
              simp only [addOpenFile, hmalloc] at hadd
              cases hadd
              exact Or.inl ⟨rfl, filter_new_stream hfresh⟩
          | true =>
              simp only [addOpenFile, hmalloc] at hadd
              cases hadd
              exact Or.inr ⟨stream, hfresh, rfl, rfl⟩

theorem openWork_effect (h : openWork lib calls s t = some (s', t')) :
    SameFiles s s' ∨ ∃ stream, OpensFile s s' stream := by
  rw [openWork] at h
  cases hjoined : joined lib calls (setCurrent s t) t.args.name with
  | none =>
      simp only [hjoined] at h
      cases h
      exact Or.inl ⟨rfl, rfl⟩
  | some nameBuff =>
      simp only [hjoined] at h
      generalize checkOpenWorkValid calls t = valid at h
      split_ifs at h
      · cases h
        exact Or.inl ⟨rfl, rfl⟩
      · cases h
        exact Or.inl ⟨rfl, rfl⟩
      · obtain ⟨⟨error, u, t''⟩, hopen, hanswer⟩ := Option.bind_eq_some_iff.mp h
        have hstate : s' = u := by
          dsimp only at hanswer
          split_ifs at hanswer <;> cases hanswer <;> rfl
        rw [hstate]
        have heffect := doOpenFile_effect hopen
        exact heffect

theorem pathWork_effect {names : List (List Char)}
    (h : pathWork lib calls names s t = some (s', t')) : SameFiles s s' := by
  rw [pathWork] at h
  split_ifs at h <;> cases h <;> exact ⟨rfl, rfl⟩

theorem fileAccessWork_effect (h : fileAccessWork lib calls s t = some (s', t')) :
    SameFiles s s' := by
  rw [fileAccessWork] at h
  dsimp only at h
  split_ifs at h <;> cases h <;> exact ⟨rfl, rfl⟩

theorem deleteAllWork_effect (h : deleteAllWork lib calls s t = some (s', t')) :
    SameFiles s s' := by
  rw [deleteAllWork] at h
  cases hpath : doJoinFileName lib t.args.name fileNameMaxBuf with
  | none =>
      simp only [hpath] at h
      cases h
      exact ⟨rfl, rfl⟩
  | some path =>
      simp only [hpath] at h
      split_ifs at h <;> cases h <;> exact ⟨rfl, rfl⟩

theorem diskUsageWork_effect (h : diskUsageWork lib calls s t = some (s', t')) :
    SameFiles s s' := by
  rw [diskUsageWork] at h
  dsimp only at h
  split at h <;> cases h <;> exact ⟨rfl, rfl⟩

theorem onOpenedFile_effect {fd : Int32} {found notFound : SecStorageType}
    (h : onOpenedFile s fd found notFound = some (s', t')) : SameFiles s s' := by
  rw [onOpenedFile] at h
  cases hfind : findOpenFile s fd with
  | found i file =>
      simp only [hfind] at h
      cases h
      exact ⟨rfl, rfl⟩
  | notFound =>
      simp only [hfind] at h
      cases h
      exact ⟨rfl, rfl⟩
  | closedStream => simp [hfind] at h

theorem fsyncWork_effect (h : fsyncWork calls s t = some (s', t')) : SameFiles s s' := by
  rw [fsyncWork] at h
  by_cases hfd : t.args.fd = 0
  · rw [if_pos hfd] at h
    cases h
    exact ⟨rfl, rfl⟩
  · rw [if_neg hfd] at h
    exact onOpenedFile_effect h

/-- A request other than a close leaves the files alone or opens one. -/
theorem fsWork_effect (hcmd : t.cmd ≠ .secClose) (h : fsWork lib calls s t = some (s', t')) :
    SameFiles s s' ∨ ∃ stream, OpensFile s s' stream := by
  rw [fsWork] at h
  cases hc : t.cmd with
  | secOpen | secCreate =>
      simp only [hc] at h
      exact openWork_effect h
  | secClose => exact absurd hc hcmd
  | secRead | secWrite | secSeek | secInfo =>
      simp only [hc] at h
      exact Or.inl (onOpenedFile_effect h)
  | secFsync =>
      simp only [hc] at h
      exact Or.inl (fsyncWork_effect h)
  | secRemove | secTruncate | secRename | secCp =>
      simp only [hc] at h
      exact Or.inl (pathWork_effect h)
  | secAccess | secAccess2 =>
      simp only [hc] at h
      exact Or.inl (fileAccessWork_effect h)
  | secDiskusage =>
      simp only [hc] at h
      exact Or.inl (diskUsageWork_effect h)
  | secDeleteAll =>
      simp only [hc] at h
      exact Or.inl (deleteAllWork_effect h)
  | other cmd =>
      simp only [hc] at h
      cases h
      exact Or.inl ⟨rfl, rfl⟩

end Work

/-! ### Soundness -/

section Sound

variable {s s' : FsState}

theorem SameFiles.sound (h : SameFiles s s') (hs : OpenFilesSound s) : OpenFilesSound s' := by
  obtain ⟨hfiles, hstreams⟩ := h
  refine ⟨?_, ?_⟩
  · rw [hfiles, hstreams]
    exact hs.opened
  · rw [hfiles, hstreams]
    exact hs.distinct

/-- A new stream changes nothing for the nodes in the list, and its file number is new. -/
theorem OpensFile.node {stream : Stream} (h : OpensFile s s' stream) (hs : OpenFilesSound s)
    {node : OpenedFile} (hnode : node ∈ s.openedFiles) :
    fileno s'.streams node.file = fileno s.streams node.file ∧
      fileno s.streams node.file ≠ some stream.fileno := by
  obtain ⟨n, hn⟩ := Option.ne_none_iff_exists'.mp (hs.opened node hnode)
  obtain ⟨t, ht, hfile, hno⟩ := fileno_eq_some hn
  obtain ⟨hfileNe, hnoNe⟩ := h.1 t ht
  rw [h.2.2, fileno_cons, if_neg (by rw [← hfile]; exact hfileNe.symm), hn]
  refine ⟨rfl, fun heq => hnoNe ?_⟩
  rw [hno]
  exact Option.some.inj heq

theorem OpensFile.sound {stream : Stream} (h : OpensFile s s' stream) (hs : OpenFilesSound s) :
    OpenFilesSound s' := by
  have hnew : fileno s'.streams stream.file = some stream.fileno := by
    rw [h.2.2, fileno_cons, if_pos rfl]
  refine ⟨?_, ?_⟩
  · intro node hnode
    rw [h.2.1, List.mem_append, List.mem_singleton] at hnode
    cases hnode with
    | inl hold =>
        rw [(h.node hs hold).1]
        exact hs.opened node hold
    | inr hnode =>
        rw [hnode, hnew]
        exact Option.some_ne_none _
  · rw [h.2.1, List.pairwise_append]
    refine ⟨?_, List.pairwise_singleton _ _, ?_⟩
    · refine hs.distinct.imp_of_mem fun ha hb hab => ?_
      rw [(h.node hs ha).1, (h.node hs hb).1]
      exact hab
    · intro a ha b hb
      rw [List.mem_singleton] at hb
      rw [hb, hnew, (h.node hs ha).1]
      exact (h.node hs ha).2

/-- Closing the stream of a node keeps the list sound exactly when the node goes too. -/
theorem close_sound {before after : List OpenedFile} {file : UInt64}
    (hs : OpenFilesSound s) (hfiles : s.openedFiles = before ++ ⟨file⟩ :: after) :
    OpenFilesSound { fclose s file with openedFiles := before ++ after } := by
  have hdistinct := hs.distinct
  rw [hfiles, List.pairwise_append, List.pairwise_cons] at hdistinct
  obtain ⟨hbefore, ⟨hfile, hafter⟩, hacross⟩ := hdistinct
  have hother : ∀ node ∈ before ++ after, node.file ≠ file := by
    intro node hnode heq
    rw [List.mem_append] at hnode
    cases hnode with
    | inl hnode => exact hacross node hnode _ List.mem_cons_self (by rw [heq])
    | inr hnode => exact hfile node hnode (by rw [heq])
  have hfileno : ∀ node ∈ before ++ after,
      fileno (fclose s file).streams node.file = fileno s.streams node.file := by
    intro node hnode
    rw [fclose, fileno_filter, if_neg (hother node hnode)]
  refine ⟨?_, ?_⟩
  · intro node hnode
    rw [hfileno node hnode]
    refine hs.opened node ?_
    rw [hfiles, List.mem_append, List.mem_cons]
    rw [List.mem_append] at hnode
    exact hnode.imp_right Or.inr
  · have hrest : (before ++ after).Pairwise fun a b =>
        fileno s.streams a.file ≠ fileno s.streams b.file := by
      rw [List.pairwise_append]
      exact ⟨hbefore, hafter, fun a ha b hb => hacross a ha b (List.mem_cons_of_mem _ hb)⟩
    refine hrest.imp_of_mem fun ha hb hab => ?_
    rw [hfileno _ ha, hfileno _ hb]
    exact hab

/-- A node whose stream was closed is not sound. -/
theorem not_sound_of_closed {node : OpenedFile} (h : node ∈ s.openedFiles) :
    ¬ OpenFilesSound (fclose s node.file) := by
  intro hs
  refine hs.opened node h ?_
  rw [fclose, fileno_filter, if_pos rfl]

end Sound

/-- A single request keeps the list sound exactly when it meets the condition. -/
theorem soundAfter_iff {lib : Securec} {s : FsState} (hs : OpenFilesSound s) (r : Request) :
    SoundAfter lib s r ↔ CloseSucceeds s r := by
  by_cases hcmd : r.transControl.cmd = .secClose
  · have hstep : fsStep lib s r = (closeWork r.calls s r.transControl).map Prod.fst := by
      rw [fsStep, fsWork]
      simp only [hcmd]
    rw [SoundAfter, hstep, closeWork, CloseSucceeds]
    cases hfind : findOpenFile s r.transControl.args.fd with
    | found i file =>
        obtain ⟨before, after, hfiles, rfl⟩ := findLoop_found hfind
        have hdel : delOpenFile (fclose s file) (0 + before.length) =
            { fclose s file with openedFiles := before ++ after } := by
          rw [delOpenFile, fclose]
          dsimp only
          rw [hfiles, Nat.zero_add, List.eraseIdx_append_of_length_le le_rfl, Nat.sub_self]
          rfl
        by_cases hret : r.calls.fclose = 0
        · simp only [hret, if_true, Option.map_some]
          refine ⟨fun _ _ _ _ _ => trivial, fun _ s' h => ?_⟩
          obtain rfl := Option.some.inj h
          rw [hdel]
          exact close_sound hs hfiles
        · simp only [hret, if_false, Option.map_some]
          refine ⟨fun h => ?_, fun h => ?_⟩
          · have hnode : (⟨file⟩ : OpenedFile) ∈ s.openedFiles := by
              rw [hfiles]
              exact List.mem_append_right _ List.mem_cons_self
            exact absurd (h _ rfl) (not_sound_of_closed hnode)
          · exact absurd (h hcmd _ file rfl) id
    | notFound =>
        refine ⟨fun _ _ i file h => FindResult.noConfusion h, fun _ s' h => ?_⟩
        obtain rfl := Option.some.inj h
        exact hs
    | closedStream =>
        refine ⟨fun _ _ i file h => FindResult.noConfusion h, fun _ s' h => ?_⟩
        cases h
  · refine ⟨fun _ h => absurd h hcmd, fun _ s' h => ?_⟩
    obtain ⟨⟨u, t'⟩, hwork, rfl⟩ := Option.map_eq_some_iff.mp h
    cases fsWork_effect hcmd hwork with
    | inl hsame => exact hsame.sound hs
    | inr hopen =>
        obtain ⟨stream, hopen⟩ := hopen
        exact hopen.sound hs

/-- The list is sound after every request of a run exactly when, whenever the run closes an opened
file, `fclose` returns 0. -/
theorem run_openFiles_sound_iff (lib : Securec) (requests : List Request) :
    Machine.Along (fsStep lib) (SoundAfter lib) {} requests ↔
      Machine.Along (fsStep lib) CloseSucceeds {} requests := by
  apply Machine.along_congr OpenFilesSound
  · intro s r hs
    exact soundAfter_iff hs r
  · intro s r s' _ hafter hstep
    exact hafter s' hstep
  · exact ⟨by simp, List.Pairwise.nil⟩

/-- The file `a` is opened. -/
def openRequest : Request where
  transControl := { cmd := .secOpen, args := { mode := "r".toList, name := "a".toList } }
  calls := { realpath := some "/var/itrustee/sec_storage_data/a".toList, fopen := some ⟨0x1000, 5⟩ }

/-- The descriptor of `openRequest` is closed, and `fclose` fails with `EIO`. -/
def closeRequest : Request where
  transControl := { cmd := .secClose, args := { fd := 5 } }
  calls := { fclose := -1, errno := 5 }

/-- The node keeps the stream that `fclose` ended. -/
theorem failedClose_stale :
    ¬ Machine.Along (fsStep Securec.reference) (SoundAfter Securec.reference) {}
      [openRequest, closeRequest] := by
  intro h
  have hopened : fsStep Securec.reference {} openRequest =
      some { openedFiles := [⟨0x1000⟩], streams := [⟨0x1000, 5⟩] } := by decide +kernel
  have hclosed : fsStep Securec.reference
      { openedFiles := [⟨0x1000⟩], streams := [⟨0x1000, 5⟩] } closeRequest =
      some { openedFiles := [⟨0x1000⟩], streams := [] } := by decide +kernel
  have hsound := (h.2 _ hopened).1 _ hclosed
  exact hsound.opened ⟨0x1000⟩ (by decide) rfl

end ITrustee.Teecd
