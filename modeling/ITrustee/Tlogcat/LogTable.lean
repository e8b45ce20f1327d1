import Mathlib.Tactic
import ITrustee.Foundation.Machine
import ITrustee.Tlogcat.FileNames

/-!
# The table of log files

Here every call that `WritePrivateLogFile` makes may fail, and what matters are the streams: a stream
is known by its number in the order of opening, and the run records for whom and under which name it
was opened, how often it was closed, and to which stream every log item went. `LogFileFull` and
`LogFilesCompress` touch files only and are left out, so that the build that does not rewind differs
in the names and in the check of the limit.
-/

namespace ITrustee.Tlogcat.LogTable

def logFilesMax : Nat := 128

def logFileIndexMax : Nat := 4

def logFileLimit : Int := 500 * 1024

/-- `TEE_LOG_NON_REWINDING` and the log directory. -/
structure Build where
  nonRewinding : Bool
  teePath : List Char

structure LogFile where
  file : Option Nat := none
  uuid : TeeUuid := .zero
  fileLen : Int := 0
  fileIndex : Nat := 0
  valid : Bool := false
  logName : List Char := []
  deriving DecidableEq

structure Stream where
  uuid : TeeUuid
  logName : List Char
  closes : Nat := 0
  deriving DecidableEq

/-- A log item of the identifier went to the stream, which had been closed so often. -/
structure Write where
  stream : Nat
  uuid : TeeUuid
  closes : Nat
  deriving DecidableEq

structure State where
  g_files : List LogFile := List.replicate logFilesMax {}
  streams : List Stream := []
  writes : List Write := []
  deriving DecidableEq

/-- What the calls return that `WritePrivateLogFile` makes for one item. -/
structure Calls where
  mkdirR : Bool
  access : Nat → Bool
  /-- The length that `LogFilesOpen` finds, unless it fails. -/
  logFilesOpen : Option Int
  memcpyName : Bool
  memcpyUuid : Bool
  fwrite : Nat

namespace State

def slot (s : State) (i : Nat) : Option LogFile := s.g_files[i]?

def setSlot (s : State) (i : Nat) (f : LogFile) : State := { s with g_files := s.g_files.set i f }

def fopen (s : State) (uuid : TeeUuid) (logName : List Char) : State :=
  { s with streams := s.streams ++ [{ uuid, logName }] }

def fclose (s : State) (file : Nat) : State :=
  { s with streams := s.streams.modify file fun st => { st with closes := st.closes + 1 } }

def fwrite (s : State) (file : Nat) (uuid : TeeUuid) : State :=
  { s with writes := s.writes ++ [⟨file, uuid, (s.streams[file]?.map Stream.closes).getD 0⟩] }

end State

section Model

variable (B : Build)

def logAssembleFilename (nameAttr : FileNameAttr) : Option (List Char) :=
  if B.nonRewinding then
    snprintfS fileNameMaxBuf
      (if nameAttr.isTa then B.teePath ++ "ta_runlog.log".toList
      else B.teePath ++ "teeos_runlog.log".toList)
  else Tlogcat.logAssembleFilename B.teePath nameAttr

/-- `LogFilesChecklimit`, and whether the slot was cleared. -/
def logFilesChecklimit (fileNum : Nat) (f : LogFile) (file : Nat) (s : State) : State × Bool :=
  if logFileLimit ≤ f.fileLen then ((s.fclose file).setSlot fileNum {}, true) else (s, false)

/-- The loop of `GetUsableFile` over the slots that follow. -/
def getUsableFileLoop (uuid : TeeUuid) : List Nat → State → State × Option Nat
  | [], s => (s, none)
  | i :: is, s =>
      match s.slot i with
      | none => (s, none)
      | some f =>
          if f.uuid ≠ uuid then getUsableFileLoop uuid is s
          else if !f.valid then getUsableFileLoop uuid is s
          else
            match f.file with
            | none => getUsableFileLoop uuid is (s.setSlot i {})
            | some file =>
                if B.nonRewinding then (s, some i)
                else
                  let (s, full) := logFilesChecklimit i f file s
                  if full then getUsableFileLoop uuid is s else (s, some i)

def getUsableFile (uuid : TeeUuid) (s : State) : State × Option Nat :=
  getUsableFileLoop B uuid (List.range logFilesMax) s

/-- The loop of `GetFileIndex` from index `n - 1` down. -/
def getFileIndexLoop (access : Nat → Bool) (uuidAscii : List Char) (isTa : Bool) : Nat → Nat
  | 0 => 0
  | n + 1 =>
      match logAssembleFilename B ⟨uuidAscii, isTa, n⟩ with
      | none => getFileIndexLoop access uuidAscii isTa n
      | some _ => if access n then n else getFileIndexLoop access uuidAscii isTa n

/-- `LogFilesAdd`: the first slot that is free, if there is one. -/
def logFilesAdd (calls : Calls) (uuid : TeeUuid) (logName : List Char) (file : Nat) (fileLen : Int)
    (index : Nat) (s : State) : State × Option Nat :=
  match s.g_files.findIdx? fun f => f.file = none && !f.valid with
  | none => (s.fclose file, none)
  | some i =>
      let f := s.g_files.getD i {}
      if !calls.memcpyName then ((s.setSlot i { f with logName := [] }).fclose file, none)
      else
        let f := { f with logName }
        if !calls.memcpyUuid then ((s.setSlot i { f with uuid := .zero }).fclose file, none)
        else (s.setSlot i ⟨some file, uuid, fileLen, index, true, logName⟩, some i)

def logFilesGet (calls : Calls) (uuid : TeeUuid) (isTa : Bool) (s : State) : State × Option Nat :=
  match getUsableFile B uuid s with
  | (s, some i) => (s, some i)
  | (s, none) =>
      if !calls.mkdirR then (s, none)
      else
        let uuidAscii := getUuidStr uuid []
        let fileIndex := getFileIndexLoop B calls.access uuidAscii isTa logFileIndexMax
        match logAssembleFilename B ⟨uuidAscii, isTa, 0⟩ with
        | none => (s, none)
        | some logName =>
            match calls.logFilesOpen with
            | none => (s, none)
            | some fileLen =>
                logFilesAdd calls uuid logName s.streams.length fileLen fileIndex
                  (s.fopen uuid logName)

def writePrivateLogFile (calls : Calls) (uuid : TeeUuid) (logRealLen : Nat) (s : State) : State :=
  match logFilesGet B calls uuid (isTaUuid uuid) s with
  | (s, none) => s
  | (s, some i) =>
      match s.slot i with
      | none => s
      | some f =>
          match f.file with
          | none => s
          | some file =>
              let s := s.fwrite file uuid
              -- the length is added to the slot even if it was just cleared
              if calls.fwrite ≠ logRealLen then
                (s.fclose file).setSlot i { ({} : LogFile) with fileLen := calls.fwrite }
              else s.setSlot i { f with fileLen := f.fileLen + calls.fwrite }

/-- One turn of the loop of `LogFilesClose`. -/
def closeSlot (s : State) (i : Nat) : State :=
  match s.slot i with
  | none => s
  | some f =>
      match f.file with
      | none => s
      | some file => (s.fclose file).setSlot i {}

def logFilesClose (s : State) : State := (List.range logFilesMax).foldl closeSlot s

inductive Action where
  | write (calls : Calls) (uuid : TeeUuid) (logRealLen : Nat)
  | close

def step (s : State) : Action → Option State
  | .write calls uuid logRealLen => some (writePrivateLogFile B calls uuid logRealLen s)
  | .close => some (logFilesClose s)

/-! ### Specification -/

/-- The name of the file to which the log items of an identifier go. -/
def nameOf (uuid : TeeUuid) : Option (List Char) :=
  logAssembleFilename B ⟨getUuidStr uuid [], isTaUuid uuid, 0⟩

/-- The slot holds the stream. -/
def Holds (s : State) (i file : Nat) : Prop := ∃ f, s.slot i = some f ∧ f.file = some file

structure TableSound (s : State) : Prop where
  unique (i j : Nat) (f g : LogFile) : s.slot i = some f → s.slot j = some g → f.valid = true →
    g.valid = true → f.uuid = g.uuid → i = j
  opened (i : Nat) (f : LogFile) : s.slot i = some f → f.valid = true →
    ∃ file st, f.file = some file ∧ s.streams[file]? = some st ∧ st.closes = 0
  closedOnce (file : Nat) (st : Stream) : s.streams[file]? = some st →
    (st.closes = 0 ∧ ∃! i, Holds s i file) ∨ (st.closes = 1 ∧ ∀ i, ¬ Holds s i file)
  ownName (w : Write) : w ∈ s.writes → w.closes = 0 ∧
    ∃ st, s.streams[w.stream]? = some st ∧ st.uuid = w.uuid ∧ nameOf B w.uuid = some st.logName

/-- A slot keeps its stream, for the same identifier, until the stream is closed. -/
structure NotOverwritten (s s' : State) : Prop where
  kept (i : Nat) (f : LogFile) (file : Nat) : s.slot i = some f → f.file = some file →
    (∃ f', s'.slot i = some f' ∧ f'.file = some file ∧ f'.uuid = f.uuid ∧ f'.valid = f.valid ∧
      f'.logName = f.logName) ∨ ∃ st, s'.streams[file]? = some st ∧ st.closes ≠ 0
  streams (file : Nat) (st : Stream) : s.streams[file]? = some st →
    ∃ st', s'.streams[file]? = some st' ∧ st'.uuid = st.uuid ∧ st'.logName = st.logName ∧
      st.closes ≤ st'.closes

/-! ### Slots and streams -/

variable {B} {s s' : State} {i j file : Nat} {f g : LogFile}

open State

theorem slot_setSlot (h : s.slot i = some f) (g : LogFile) (j : Nat) :
    (s.setSlot i g).slot j = if i = j then some g else s.slot j := by
  have hlt : i < s.g_files.length := (List.getElem?_eq_some_iff.mp h).1
  rw [slot, setSlot, List.getElem?_set]
  by_cases hij : i = j
  · rw [if_pos hij, if_pos hij, if_pos (hij ▸ hlt)]
  · rw [if_neg hij, if_neg hij]
    rfl

theorem slot_setSlot_cases {f' : LogFile} (h : s.slot i = some f)
    (hj : (s.setSlot i g).slot j = some f') : (i = j ∧ f' = g) ∨ (i ≠ j ∧ s.slot j = some f') := by
  rw [slot_setSlot h] at hj
  by_cases hij : i = j
  · rw [if_pos hij] at hj
    exact Or.inl ⟨hij, (Option.some.inj hj).symm⟩
  · rw [if_neg hij] at hj
    exact Or.inr ⟨hij, hj⟩

theorem streams_fclose (s : State) (file k : Nat) :
    (s.fclose file).streams[k]? =
      s.streams[k]?.map fun st => if file = k then { st with closes := st.closes + 1 } else st :=
  List.getElem?_modify ..

theorem streams_fopen (s : State) (uuid : TeeUuid) (logName : List Char) (k : Nat) :
    (s.fopen uuid logName).streams[k]? =
      if k = s.streams.length then some { uuid, logName } else s.streams[k]? := by
  rw [fopen]
  obtain hlt | rfl | hlt := Nat.lt_trichotomy k s.streams.length
  · rw [List.getElem?_append_left hlt, if_neg (Nat.ne_of_lt hlt)]
  · rw [List.getElem?_concat_length, if_pos rfl]
  · rw [if_neg (Nat.ne_of_gt hlt), List.getElem?_eq_none (by simp; omega),
      List.getElem?_eq_none (Nat.le_of_lt hlt)]

theorem holds_setSlot (h : s.slot i = some f) (g : LogFile) :
    Holds (s.setSlot i g) j file ↔ if i = j then g.file = some file else Holds s j file := by
  rw [Holds, slot_setSlot h]
  by_cases hij : i = j
  · simp [hij]
  · rw [if_neg hij, if_neg hij]
    rfl

namespace NotOverwritten

theorem refl (s : State) : NotOverwritten s s :=
  ⟨fun _ f _ hslot hfile => Or.inl ⟨f, hslot, hfile, rfl, rfl, rfl⟩,
    fun _ st hst => ⟨st, hst, rfl, rfl, Nat.le_refl _⟩⟩

theorem trans {s t u : State} (h : NotOverwritten s t) (h' : NotOverwritten t u) :
    NotOverwritten s u := by
  refine ⟨fun i f file hslot hfile => ?_, fun file st hst => ?_⟩
  · obtain ⟨f', hslot', hfile', huuid, hvalid, hname⟩ | ⟨st, hst, hcloses⟩ :=
      h.kept i f file hslot hfile
    · obtain ⟨f'', hslot'', hfile'', huuid', hvalid', hname'⟩ | hclosed :=
        h'.kept i f' file hslot' hfile'
      · exact Or.inl ⟨f'', hslot'', hfile'', huuid'.trans huuid, hvalid'.trans hvalid,
          hname'.trans hname⟩
      · exact Or.inr hclosed
    · obtain ⟨st', hst', -, -, hle⟩ := h'.streams file st hst
      exact Or.inr ⟨st', hst', Nat.ne_of_gt (Nat.lt_of_lt_of_le (Nat.pos_of_ne_zero hcloses) hle)⟩
  · obtain ⟨st', hst', huuid, hname, hle⟩ := h.streams file st hst
    obtain ⟨st'', hst'', huuid', hname', hle'⟩ := h'.streams file st' hst'
    exact ⟨st'', hst'', huuid'.trans huuid, hname'.trans hname, hle.trans hle'⟩

theorem fclose (s : State) (file : Nat) : NotOverwritten s (s.fclose file) := by
  refine ⟨fun _ f _ hslot hfile => Or.inl ⟨f, hslot, hfile, rfl, rfl, rfl⟩, fun k st hst => ?_⟩
  rw [streams_fclose, hst, Option.map_some]
  refine ⟨_, rfl, ?_⟩
  split_ifs
  · exact ⟨rfl, rfl, Nat.le_succ _⟩
  · exact ⟨rfl, rfl, Nat.le_refl _⟩

theorem fopen (s : State) (uuid : TeeUuid) (logName : List Char) :
    NotOverwritten s (s.fopen uuid logName) := by
  refine ⟨fun _ f _ hslot hfile => Or.inl ⟨f, hslot, hfile, rfl, rfl, rfl⟩, fun k st hst => ?_⟩
  have hlt := (List.getElem?_eq_some_iff.mp hst).1
  refine ⟨st, ?_, rfl, rfl, Nat.le_refl _⟩
  rw [streams_fopen, if_neg (Nat.ne_of_lt hlt), hst]

/-- A change of a slot whose stream stays or was closed. -/
theorem setSlot (h : s.slot i = some f)
    (hkept : ∀ file, f.file = some file →
      (g.file = some file ∧ g.uuid = f.uuid ∧ g.valid = f.valid ∧ g.logName = f.logName) ∨
        ∃ st, s.streams[file]? = some st ∧ st.closes ≠ 0) : NotOverwritten s (s.setSlot i g) := by
  refine ⟨fun j f' file hslot hfile => ?_, fun _ st hst => ⟨st, hst, rfl, rfl, Nat.le_refl _⟩⟩
  rw [slot_setSlot h]
  by_cases hij : i = j
  · subst hij
    obtain rfl := Option.some.inj (h.symm.trans hslot)
    rw [if_pos rfl]
    exact (hkept file hfile).imp_left fun hg => ⟨g, rfl, hg⟩
  · rw [if_neg hij]
    exact Or.inl ⟨f', hslot, hfile, rfl, rfl, rfl⟩

theorem fwrite (s : State) (file : Nat) (uuid : TeeUuid) : NotOverwritten s (s.fwrite file uuid) :=
  ⟨fun _ f _ hslot hfile => Or.inl ⟨f, hslot, hfile, rfl, rfl, rfl⟩,
    fun _ st hst => ⟨st, hst, rfl, rfl, Nat.le_refl _⟩⟩

end NotOverwritten

/-! ### The invariant -/

/-- Between the opening of a stream and `LogFilesAdd` the stream is pending. -/
structure Inv (B : Build) (pending : Option Nat) (s : State) : Prop where
  length : s.g_files.length = logFilesMax
  held (i : Nat) (f : LogFile) (file : Nat) : s.slot i = some f → f.file = some file →
    f.valid = true ∧ pending ≠ some file ∧
      ∃ st, s.streams[file]? = some st ∧ st.closes = 0 ∧ st.uuid = f.uuid
  valid (i : Nat) (f : LogFile) : s.slot i = some f → f.valid = true → ∃ file, f.file = some file
  distinct (i j file : Nat) : Holds s i file → Holds s j file → i = j
  unique (i j : Nat) (f g : LogFile) : s.slot i = some f → s.slot j = some g → f.valid = true →
    g.valid = true → f.uuid = g.uuid → i = j
  closes (file : Nat) (st : Stream) : s.streams[file]? = some st →
    (st.closes = 0 ∧ (pending = some file ∨ ∃ i, Holds s i file)) ∨ st.closes = 1
  open_pending (file : Nat) : pending = some file →
    ∃ st, s.streams[file]? = some st ∧ st.closes = 0
  names (file : Nat) (st : Stream) : s.streams[file]? = some st → nameOf B st.uuid = some st.logName
  writes (w : Write) : w ∈ s.writes → w.closes = 0 ∧
    ∃ st, s.streams[w.stream]? = some st ∧ st.uuid = w.uuid

variable {pending : Option Nat}

theorem Inv.initial : Inv B none {} := by
  have hslot (i : Nat) (f : LogFile) (h : ({} : State).slot i = some f) : f = {} :=
    List.eq_of_mem_replicate (List.mem_of_getElem? h)
  refine ⟨List.length_replicate .., ?_, ?_, ?_, ?_, by simp, by simp, by simp, by simp⟩
  · intro i f file h hfile
    rw [hslot i f h] at hfile
    cases hfile
  · intro i f h hvalid
    rw [hslot i f h] at hvalid
    cases hvalid
  · rintro i j file ⟨f, h, hfile⟩ -
    rw [hslot i f h] at hfile
    cases hfile
  · intro i j f g h _ hvalid
    rw [hslot i f h] at hvalid
    cases hvalid

/-- After a close, a stream has the count it had, or one more. -/
theorem fclose_cases {k : Nat} {st : Stream} (h : (s.fclose file).streams[k]? = some st) :
    ∃ st₀, s.streams[k]? = some st₀ ∧ st.uuid = st₀.uuid ∧ st.logName = st₀.logName ∧
      st.closes = if file = k then st₀.closes + 1 else st₀.closes := by
  rw [streams_fclose] at h
  obtain ⟨st₀, hst₀, rfl⟩ := Option.map_eq_some_iff.mp h
  refine ⟨st₀, hst₀, ?_⟩
  split_ifs
  · exact ⟨rfl, rfl, rfl⟩
  · exact ⟨rfl, rfl, rfl⟩

theorem fclose_of_ne {k : Nat} {st : Stream} (h : s.streams[k]? = some st) (hne : file ≠ k) :
    (s.fclose file).streams[k]? = some st := by
  rw [streams_fclose, h, Option.map_some, if_neg hne]

theorem fclose_self {st : Stream} (h : s.streams[file]? = some st) :
    (s.fclose file).streams[file]? = some { st with closes := st.closes + 1 } := by
  rw [streams_fclose, h, Option.map_some, if_pos rfl]

/-- After an open stream is closed, every stream is closed once or as it was. -/
theorem fclose_closes {k : Nat} {st st' : Stream} (hst : s.streams[file]? = some st)
    (hopen : st.closes = 0) (hst' : (s.fclose file).streams[k]? = some st') :
    st'.closes = 1 ∨ file ≠ k ∧ ∃ st₀, s.streams[k]? = some st₀ ∧ st'.closes = st₀.closes := by
  obtain ⟨st₀, hst₀, -, -, hcloses⟩ := fclose_cases hst'
  by_cases hk : file = k
  · subst hk
    obtain rfl := Option.some.inj (hst.symm.trans hst₀)
    rw [if_pos rfl, hopen] at hcloses
    exact Or.inl hcloses
  · rw [if_neg hk] at hcloses
    exact Or.inr ⟨hk, st₀, hst₀, hcloses⟩

/-- Closing leaves the names and the records of the writes. -/
theorem Inv.fclose_names (h : Inv B pending s) (file k : Nat) (st : Stream)
    (hst : (s.fclose file).streams[k]? = some st) : nameOf B st.uuid = some st.logName := by
  obtain ⟨st₀, hst₀, huuid, hname, -⟩ := fclose_cases hst
  rw [huuid, hname]
  exact h.names k st₀ hst₀

theorem Inv.fclose_writes (h : Inv B pending s) (file : Nat) (w : Write) (hw : w ∈ s.writes) :
    w.closes = 0 ∧ ∃ st, (s.fclose file).streams[w.stream]? = some st ∧ st.uuid = w.uuid := by
  obtain ⟨hcloses, st, hst, huuid⟩ := h.writes w hw
  obtain ⟨st', hst', huuid', -, -⟩ := (NotOverwritten.fclose s file).streams w.stream st hst
  exact ⟨hcloses, st', hst', huuid'.trans huuid⟩

/-- A stream is closed and the slot that holds it is cleared. -/
theorem Inv.release (h : Inv B none s) (g : LogFile) (hslot : s.slot i = some f)
    (hfile : f.file = some file) (hg : g.file = none) (hvalid : g.valid = false) :
    Inv B none ((s.fclose file).setSlot i g) ∧ NotOverwritten s ((s.fclose file).setSlot i g) := by
  have hslot' : (s.fclose file).slot i = some f := hslot
  obtain ⟨-, -, st, hst, hopen, -⟩ := h.held i f file hslot hfile
  have hother {j : Nat} {f' : LogFile} (hj : ((s.fclose file).setSlot i g).slot j = some f')
      (hf' : f' ≠ g) : i ≠ j ∧ s.slot j = some f' :=
    (slot_setSlot_cases hslot' hj).resolve_left fun heq => hf' heq.2
  have hfull {f' : LogFile} {k : Nat} (hf' : f'.file = some k) : f' ≠ g := by
    rintro rfl
    cases hf'.symm.trans hg
  have hused {f' : LogFile} (hf' : f'.valid = true) : f' ≠ g := by
    rintro rfl
    exact Bool.false_ne_true (hvalid.symm.trans hf')
  refine ⟨⟨?_, ?_, ?_, ?_, ?_, ?_, by simp, h.fclose_names file, h.fclose_writes file⟩, ?_⟩
  · exact (List.length_set ..).trans h.length
  · intro j f' k hj hk
    obtain ⟨hij, hj⟩ := hother hj (hfull hk)
    obtain ⟨hvalid', hpending, st', hst', hrest⟩ := h.held j f' k hj hk
    refine ⟨hvalid', hpending, st', fclose_of_ne hst' ?_, hrest⟩
    rintro rfl
    exact hij (h.distinct i j file ⟨f, hslot, hfile⟩ ⟨f', hj, hk⟩)
  · intro j f' hj hv
    exact h.valid j f' (hother hj (hused hv)).2 hv
  · rintro j k' file' ⟨f₁, h₁, hf₁⟩ ⟨f₂, h₂, hf₂⟩
    exact h.distinct j k' file' ⟨f₁, (hother h₁ (hfull hf₁)).2, hf₁⟩
      ⟨f₂, (hother h₂ (hfull hf₂)).2, hf₂⟩
  · intro j k' f₁ f₂ h₁ h₂ hv₁ hv₂
    exact h.unique j k' f₁ f₂ (hother h₁ (hused hv₁)).2 (hother h₂ (hused hv₂)).2 hv₁ hv₂
  · intro k st' hst'
    obtain hone | ⟨hk, st₀, hst₀, hcloses⟩ := fclose_closes hst hopen hst'
    · exact Or.inr hone
    · rw [hcloses]
      refine (h.closes k st₀ hst₀).imp_left (And.imp_right fun hheld => ?_)
      obtain hnone | ⟨j, hj⟩ := hheld
      · cases hnone
      · refine Or.inr ⟨j, (holds_setSlot hslot' g).mpr ?_⟩
        rw [if_neg]
        · exact hj
        · rintro rfl
          obtain ⟨f', hf', hk'⟩ := hj
          obtain rfl := Option.some.inj (hslot.symm.trans hf')
          exact hk (Option.some.inj (hfile.symm.trans hk'))
  · refine (NotOverwritten.fclose s file).trans (NotOverwritten.setSlot hslot' fun k hk => Or.inr ?_)
    obtain rfl := Option.some.inj (hfile.symm.trans hk)
    exact ⟨_, fclose_self hst, Nat.succ_ne_zero _⟩

/-- A slot keeps its stream, or its being free. -/
theorem Inv.touch (h : Inv B pending s) (hslot : s.slot i = some f) (hfile : g.file = f.file)
    (hvalid : g.valid = f.valid) (huuid : f.valid = true → g.uuid = f.uuid) :
    Inv B pending (s.setSlot i g) := by
  have hdown {j : Nat} {f' : LogFile} (hj : (s.setSlot i g).slot j = some f') :
      ∃ f₀, s.slot j = some f₀ ∧ f'.file = f₀.file ∧ f'.valid = f₀.valid ∧
        (f₀.valid = true → f'.uuid = f₀.uuid) := by
    rw [slot_setSlot hslot] at hj
    by_cases hij : i = j
    · rw [if_pos hij] at hj
      obtain rfl := Option.some.inj hj
      exact ⟨f, hij ▸ hslot, hfile, hvalid, huuid⟩
    · rw [if_neg hij] at hj
      exact ⟨f', hj, rfl, rfl, fun _ => rfl⟩
  have hholds (j k : Nat) : Holds (s.setSlot i g) j k ↔ Holds s j k := by
    rw [holds_setSlot hslot]
    by_cases hij : i = j
    · subst hij
      rw [if_pos rfl, hfile, Holds]
      simp [hslot]
    · rw [if_neg hij]
  refine ⟨(List.length_set ..).trans h.length, ?_, ?_, ?_, ?_, ?_, h.open_pending, h.names, h.writes⟩
  · intro j f' k hj hk
    obtain ⟨f₀, hj₀, hfile₀, hvalid₀, huuid₀⟩ := hdown hj
    obtain ⟨hv, hpending, st, hst, hopen, hst'⟩ := h.held j f₀ k hj₀ (hfile₀.symm.trans hk)
    exact ⟨hvalid₀.trans hv, hpending, st, hst, hopen, hst'.trans (huuid₀ hv).symm⟩
  · intro j f' hj hv
    obtain ⟨f₀, hj₀, hfile₀, hvalid₀, -⟩ := hdown hj
    rw [hfile₀]
    exact h.valid j f₀ hj₀ (hvalid₀.symm.trans hv)
  · intro j j' k hj hj'
    exact h.distinct j j' k ((hholds j k).mp hj) ((hholds j' k).mp hj')
  · intro j j' f₁ f₂ h₁ h₂ hv₁ hv₂ heq
    obtain ⟨g₁, hg₁, -, hvalid₁, huuid₁⟩ := hdown h₁
    obtain ⟨g₂, hg₂, -, hvalid₂, huuid₂⟩ := hdown h₂
    have hv₁ := hvalid₁.symm.trans hv₁
    have hv₂ := hvalid₂.symm.trans hv₂
    exact h.unique j j' g₁ g₂ hg₁ hg₂ hv₁ hv₂
      ((huuid₁ hv₁).symm.trans (heq.trans (huuid₂ hv₂)))
  · intro k st hst
    simp only [hholds]
    exact h.closes k st hst

theorem Inv.open (h : Inv B none s) {uuid : TeeUuid} {logName : List Char}
    (hname : nameOf B uuid = some logName) :
    Inv B (some s.streams.length) (s.fopen uuid logName) := by
  have hold {k : Nat} {st : Stream} (hst : s.streams[k]? = some st) :
      (s.fopen uuid logName).streams[k]? = some st ∧ s.streams.length ≠ k := by
    have hlt := (List.getElem?_eq_some_iff.mp hst).1
    rw [streams_fopen, if_neg (Nat.ne_of_lt hlt)]
    exact ⟨hst, Nat.ne_of_gt hlt⟩
  have hnew : (s.fopen uuid logName).streams[s.streams.length]? = some { uuid, logName } := by
    rw [streams_fopen, if_pos rfl]
  refine ⟨h.length, ?_, h.valid, h.distinct, h.unique, ?_, ?_, ?_, ?_⟩
  · intro i f k hslot hfile
    obtain ⟨hvalid, -, st, hst, hrest⟩ := h.held i f k hslot hfile
    exact ⟨hvalid, by simpa using (hold hst).2, st, (hold hst).1, hrest⟩
  · intro k st hst
    rw [streams_fopen] at hst
    split_ifs at hst with hk
    · obtain rfl := Option.some.inj hst
      exact Or.inl ⟨rfl, Or.inl (congrArg some hk.symm)⟩
    · refine (h.closes k st hst).imp_left (And.imp_right fun hheld => Or.inr ?_)
      exact hheld.resolve_left (by simp)
  · intro k hk
    obtain rfl := Option.some.inj hk
    exact ⟨_, hnew, rfl⟩
  · intro k st hst
    rw [streams_fopen] at hst
    split_ifs at hst with hk
    · obtain rfl := Option.some.inj hst
      exact hname
    · exact h.names k st hst
  · intro w hw
    obtain ⟨hcloses, st, hst, huuid⟩ := h.writes w hw
    exact ⟨hcloses, st, (hold hst).1, huuid⟩

theorem Inv.close (h : Inv B (some file) s) : Inv B none (s.fclose file) := by
  obtain ⟨st, hst, hopen⟩ := h.open_pending file rfl
  refine ⟨h.length, ?_, h.valid, h.distinct, h.unique, ?_, by simp, h.fclose_names file,
    h.fclose_writes file⟩
  · intro i f k hslot hfile
    obtain ⟨hvalid, hpending, st', hst', hrest⟩ := h.held i f k hslot hfile
    exact ⟨hvalid, by simp, st', fclose_of_ne hst' (by simpa using hpending), hrest⟩
  · intro k st' hst'
    obtain hone | ⟨hk, st₀, hst₀, hcloses⟩ := fclose_closes hst hopen hst'
    · exact Or.inr hone
    · rw [hcloses]
      refine (h.closes k st₀ hst₀).imp_left (And.imp_right fun hheld => Or.inr ?_)
      exact hheld.resolve_left (by simpa using hk)

/-- The pending stream gets a free slot. -/
theorem Inv.fill (h : Inv B (some file) s) (hslot : s.slot i = some f) (hfree : f.file = none)
    (hfile : g.file = some file) (hvalid : g.valid = true)
    (hst : ∀ st, s.streams[file]? = some st → st.uuid = g.uuid)
    (hnew : ∀ j f', s.slot j = some f' → f'.valid = true → f'.uuid ≠ g.uuid) :
    Inv B none (s.setSlot i g) := by
  obtain ⟨st, hst₀, hopen⟩ := h.open_pending file rfl
  have hcases {j : Nat} {f' : LogFile} (hj : (s.setSlot i g).slot j = some f') :
      (i = j ∧ f' = g) ∨ (i ≠ j ∧ s.slot j = some f') := slot_setSlot_cases hslot hj
  have hother {j k : Nat} (hj : Holds s j k) : i ≠ j := by
    rintro rfl
    obtain ⟨f', hf', hk⟩ := hj
    obtain rfl := Option.some.inj (hslot.symm.trans hf')
    cases hfree.symm.trans hk
  refine ⟨(List.length_set ..).trans h.length, ?_, ?_, ?_, ?_, ?_, by simp, h.names, h.writes⟩
  · intro j f' k hj hk
    obtain ⟨-, rfl⟩ | ⟨-, hj⟩ := hcases hj
    · obtain rfl := Option.some.inj (hfile.symm.trans hk)
      exact ⟨hvalid, by simp, st, hst₀, hopen, hst st hst₀⟩
    · obtain ⟨hv, -, hrest⟩ := h.held j f' k hj hk
      exact ⟨hv, by simp, hrest⟩
  · intro j f' hj hv
    obtain ⟨-, rfl⟩ | ⟨-, hj⟩ := hcases hj
    · exact ⟨file, hfile⟩
    · exact h.valid j f' hj hv
  · rintro j j' k ⟨f₁, h₁, hk₁⟩ ⟨f₂, h₂, hk₂⟩
    obtain ⟨rfl, rfl⟩ | ⟨-, hj⟩ := hcases h₁
    · obtain ⟨rfl, -⟩ | ⟨-, hj'⟩ := hcases h₂
      · rfl
      · obtain rfl := Option.some.inj (hfile.symm.trans hk₁)
        exact absurd rfl (h.held j' f₂ file hj' hk₂).2.1
    · obtain ⟨-, rfl⟩ | ⟨-, hj'⟩ := hcases h₂
      · obtain rfl := Option.some.inj (hfile.symm.trans hk₂)
        exact absurd rfl (h.held j f₁ file hj hk₁).2.1
      · exact h.distinct j j' k ⟨f₁, hj, hk₁⟩ ⟨f₂, hj', hk₂⟩
  · intro j j' f₁ f₂ h₁ h₂ hv₁ hv₂ heq
    obtain ⟨rfl, rfl⟩ | ⟨-, hj⟩ := hcases h₁
    · obtain ⟨rfl, -⟩ | ⟨-, hj'⟩ := hcases h₂
      · rfl
      · exact absurd heq.symm (hnew j' f₂ hj' hv₂)
    · obtain ⟨-, rfl⟩ | ⟨-, hj'⟩ := hcases h₂
      · exact absurd heq (hnew j f₁ hj hv₁)
      · exact h.unique j j' f₁ f₂ hj hj' hv₁ hv₂ heq
  · intro k st' hst'
    refine (h.closes k st' hst').imp_left (And.imp_right fun hheld => Or.inr ?_)
    obtain hpending | ⟨j, hj⟩ := hheld
    · exact ⟨i, (holds_setSlot hslot g).mpr (by rw [if_pos rfl, hfile, hpending])⟩
    · exact ⟨j, (holds_setSlot hslot g).mpr (by rwa [if_neg (hother hj)])⟩

theorem Inv.write (h : Inv B none s) (hslot : s.slot i = some f) (hfile : f.file = some file) :
    Inv B none (s.fwrite file f.uuid) := by
  obtain ⟨-, -, st, hst, hopen, huuid⟩ := h.held i f file hslot hfile
  refine ⟨h.length, h.held, h.valid, h.distinct, h.unique, h.closes, h.open_pending, h.names, ?_⟩
  intro w hw
  obtain hw | hw := List.mem_append.mp hw
  · exact h.writes w hw
  · obtain rfl := List.mem_singleton.mp hw
    refine ⟨?_, st, hst, huuid⟩
    rw [hst]
    exact hopen

/-! ### The functions -/

variable {uuid : TeeUuid}

/-- A slot that is returned holds a stream of the identifier. -/
structure Got (B : Build) (uuid : TeeUuid) (s : State) (r : State × Option Nat) : Prop where
  inv : Inv B none r.1
  kept : NotOverwritten s r.1
  found (i : Nat) : r.2 = some i →
    ∃ f file, r.1.slot i = some f ∧ f.file = some file ∧ f.uuid = uuid

/-- A search over some slots leaves valid slots as they are or clears them, and misses no valid slot
of the identifier. -/
structure Searched (B : Build) (uuid : TeeUuid) (is : List Nat) (s : State)
    (r : State × Option Nat) : Prop extends Got B uuid s r where
  valid (j : Nat) (f : LogFile) : r.1.slot j = some f → f.valid = true → s.slot j = some f
  missed : r.2 = none → ∀ i ∈ is, ∀ f, r.1.slot i = some f → f.valid = true → f.uuid ≠ uuid

/-- One more slot, left as it is or cleared, that is not a valid slot of the identifier. -/
theorem Searched.cons {s₁ : State} {is : List Nat} {r : State × Option Nat}
    (hkept : NotOverwritten s s₁)
    (hvalid : ∀ j f, s₁.slot j = some f → f.valid = true → s.slot j = some f)
    (hskip : ∀ f, s₁.slot i = some f → f.valid = true → f.uuid ≠ uuid)
    (h : Searched B uuid is s₁ r) : Searched B uuid (i :: is) s r := by
  refine ⟨⟨h.inv, hkept.trans h.kept, h.found⟩, ?_, ?_⟩
  · intro j f hj hv
    exact hvalid j f (h.valid j f hj hv) hv
  · intro hnone j hj f hslot hv
    obtain rfl | hj := List.mem_cons.mp hj
    · exact hskip f (h.valid j f hslot hv) hv
    · exact h.missed hnone j hj f hslot hv

theorem Inv.failed (h : Inv B none s) (uuid : TeeUuid) : Got B uuid s (s, none) :=
  ⟨h, .refl s, by simp⟩

theorem Inv.found (h : Inv B none s) (hslot : s.slot i = some f) (hfile : f.file = some file)
    (is : List Nat) : Searched B f.uuid is s (s, some i) := by
  refine ⟨⟨h, .refl s, ?_⟩, fun _ _ hj _ => hj, by simp⟩
  intro k hk
  obtain rfl := Option.some.inj hk
  exact ⟨f, file, hslot, hfile, rfl⟩

theorem getUsableFileLoop_spec (h : Inv B none s) (is : List Nat) (his : ∀ i ∈ is, i < logFilesMax) :
    Searched B uuid is s (getUsableFileLoop B uuid is s) := by
  induction is generalizing s with
  | nil => exact ⟨h.failed uuid, fun _ _ hslot _ => hslot, by simp⟩
  | cons i is ih =>
    have hlt : i < s.g_files.length := h.length ▸ his i (List.mem_cons_self ..)
    obtain ⟨f, hslot⟩ : ∃ f, s.slot i = some f := ⟨_, List.getElem?_eq_getElem hlt⟩
    have his' (k : Nat) (hk : k ∈ is) : k < logFilesMax := his k (List.mem_cons_of_mem i hk)
    have hskip (hne : f.valid = true → f.uuid ≠ uuid) :
        Searched B uuid (i :: is) s (getUsableFileLoop B uuid is s) := by
      refine Searched.cons (.refl s) (fun _ _ hj _ => hj) ?_ (ih h his')
      intro f' hf' hv
      obtain rfl := Option.some.inj (hslot.symm.trans hf')
      exact hne hv
    rw [getUsableFileLoop, hslot]
    dsimp only
    by_cases huuid : f.uuid = uuid
    · rw [if_neg (not_not_intro huuid)]
      cases hvalid : f.valid with
      | false =>
        rw [if_pos (by rfl)]
        exact hskip fun hv => absurd (hvalid.symm.trans hv) Bool.false_ne_true
      | true =>
        obtain ⟨file, hfile⟩ := h.valid i f hslot hvalid
        rw [if_neg (by simp), hfile]
        dsimp only
        subst huuid
        cases hbuild : B.nonRewinding with
        | true => exact h.found hslot hfile _
        | false =>
          rw [if_neg (by simp), logFilesChecklimit]
          by_cases hlimit : logFileLimit ≤ f.fileLen
          · rw [if_pos hlimit]
            obtain ⟨hinv, hkept⟩ := h.release {} hslot hfile rfl rfl
            have hslot' (j : Nat) (f' : LogFile)
                (hj : ((s.fclose file).setSlot i {}).slot j = some f') (hv : f'.valid = true) :
                i ≠ j ∧ s.slot j = some f' := by
              have hslot' : (s.fclose file).slot i = some f := hslot
              obtain ⟨-, rfl⟩ | hother := slot_setSlot_cases hslot' hj
              · cases hv
              · exact hother
            refine Searched.cons hkept (fun j f' hj hv => (hslot' j f' hj hv).2) ?_ (ih hinv his')
            intro f' hf' hv
            exact absurd rfl (hslot' i f' hf' hv).1
          · rw [if_neg hlimit]
            exact h.found hslot hfile _
    · rw [if_pos huuid]
      exact hskip fun _ => huuid

theorem getUsableFile_spec (h : Inv B none s) (uuid : TeeUuid) :
    Searched B uuid (List.range logFilesMax) s (getUsableFile B uuid s) :=
  getUsableFileLoop_spec h _ fun _ hi => List.mem_range.mp hi

theorem logFilesAdd_spec (calls : Calls) (logName : List Char) (fileLen : Int) (index : Nat)
    (h : Inv B (some file) s) (hst : ∀ st, s.streams[file]? = some st → st.uuid = uuid)
    (hnew : ∀ j f, s.slot j = some f → f.valid = true → f.uuid ≠ uuid) :
    Got B uuid s (logFilesAdd calls uuid logName file fileLen index s) := by
  rw [logFilesAdd]
  cases hfind : s.g_files.findIdx? fun f => f.file = none && !f.valid with
  | none => exact ⟨h.close, .fclose s file, by simp⟩
  | some i =>
    obtain ⟨hlt, hfree, -⟩ := List.findIdx?_eq_some_iff_getElem.mp hfind
    have hslot : s.slot i = some s.g_files[i] := List.getElem?_eq_getElem hlt
    have hgetD : s.g_files.getD i {} = s.g_files[i] := by
      rw [List.getD_eq_getElem?_getD, List.getElem?_eq_getElem hlt, Option.getD_some]
    obtain ⟨hfile, hvalid⟩ : s.g_files[i].file = none ∧ s.g_files[i].valid = false := by
      simpa using hfree
    have hunused (g : LogFile) : NotOverwritten s (s.setSlot i g) := by
      refine .setSlot hslot fun k hk => ?_
      cases hfile.symm.trans hk
    -- the entry that a failed copy leaves is still free
    have hfail (g : LogFile) (hgfile : g.file = none) (hgvalid : g.valid = false) :
        Got B uuid s ((s.setSlot i g).fclose file, none) := by
      have htouch := h.touch hslot (hgfile.trans hfile.symm) (hgvalid.trans hvalid.symm) fun hv =>
        absurd (hvalid.symm.trans hv) Bool.false_ne_true
      exact ⟨htouch.close, (hunused g).trans (.fclose _ file), by simp⟩
    dsimp only
    rw [hgetD]
    split_ifs
    · exact hfail _ hfile hvalid
    · exact hfail _ hfile hvalid
    · refine ⟨h.fill hslot hfile rfl rfl hst hnew, hunused _, ?_⟩
      intro k hk
      obtain rfl := Option.some.inj hk
      exact ⟨_, file, (slot_setSlot hslot _ _).trans (if_pos rfl), rfl, rfl⟩

theorem logFilesGet_spec (calls : Calls) (uuid : TeeUuid) (h : Inv B none s) :
    Got B uuid s (logFilesGet B calls uuid (isTaUuid uuid) s) := by
  have hsearch := getUsableFile_spec h uuid
  rw [logFilesGet]
  cases hr : getUsableFile B uuid s with
  | mk t found =>
    rw [hr] at hsearch
    cases found with
    | some i => exact hsearch.toGot
    | none =>
      have hmissed := hsearch.toGot
      dsimp only
      split_ifs
      · exact hmissed
      · cases hname : logAssembleFilename B ⟨getUuidStr uuid [], isTaUuid uuid, 0⟩ with
        | none => exact hmissed
        | some logName =>
          cases calls.logFilesOpen with
          | none => exact hmissed
          | some fileLen =>
            have hopen := hsearch.inv.open hname
            have hst (st : Stream) (hst : (t.fopen uuid logName).streams[t.streams.length]? = some st) :
                st.uuid = uuid := by
              rw [streams_fopen, if_pos rfl] at hst
              obtain rfl := Option.some.inj hst
              rfl
            have hnew (j : Nat) (f : LogFile) (hj : t.slot j = some f) (hv : f.valid = true) :
                f.uuid ≠ uuid := by
              have hlt : j < logFilesMax := hsearch.inv.length ▸ (List.getElem?_eq_some_iff.mp hj).1
              exact hsearch.missed rfl j (List.mem_range.mpr hlt) f hj hv
            have hadd := logFilesAdd_spec calls logName fileLen
              (getFileIndexLoop B calls.access (getUuidStr uuid []) (isTaUuid uuid) logFileIndexMax)
              hopen hst hnew
            exact ⟨hadd.inv, hsearch.kept.trans ((NotOverwritten.fopen ..).trans hadd.kept),
              hadd.found⟩

theorem writePrivateLogFile_spec (calls : Calls) (uuid : TeeUuid) (logRealLen : Nat)
    (h : Inv B none s) :
    Inv B none (writePrivateLogFile B calls uuid logRealLen s) ∧
    NotOverwritten s (writePrivateLogFile B calls uuid logRealLen s) := by
  have hget := logFilesGet_spec calls uuid h
  rw [writePrivateLogFile]
  cases hr : logFilesGet B calls uuid (isTaUuid uuid) s with
  | mk t got =>
    rw [hr] at hget
    cases got with
    | none => exact ⟨hget.inv, hget.kept⟩
    | some i =>
      obtain ⟨f, file, hslot, hfile, rfl⟩ := hget.found i rfl
      dsimp only at hslot ⊢
      rw [hslot]
      dsimp only
      rw [hfile]
      have hwrite := hget.inv.write hslot hfile
      have hkept := hget.kept.trans (.fwrite t file f.uuid)
      have hslot' : (t.fwrite file f.uuid).slot i = some f := hslot
      dsimp only
      by_cases hfull : calls.fwrite = logRealLen
      · rw [if_neg (not_not_intro hfull)]
        refine ⟨hwrite.touch hslot' hfile.symm rfl fun _ => rfl, hkept.trans (.setSlot hslot' ?_)⟩
        intro k hk
        exact Or.inl ⟨hfile.symm.trans hk, rfl, rfl, rfl⟩
      · rw [if_pos hfull]
        obtain ⟨hinv, hrelease⟩ := hwrite.release { fileLen := calls.fwrite } hslot' hfile rfl rfl
        exact ⟨hinv, hkept.trans hrelease⟩

theorem closeSlot_spec (h : Inv B none s) (i : Nat) :
    Inv B none (closeSlot s i) ∧ NotOverwritten s (closeSlot s i) ∧
    ∀ j k, Holds (closeSlot s i) j k → i ≠ j ∧ Holds s j k := by
  have hkeep (hfree : ∀ k, ¬ Holds s i k) (j k : Nat) (hj : Holds s j k) : i ≠ j ∧ Holds s j k := by
    refine ⟨?_, hj⟩
    rintro rfl
    exact hfree k hj
  rw [closeSlot]
  cases hslot : s.slot i with
  | none => exact ⟨h, .refl s, hkeep (by simp [Holds, hslot])⟩
  | some f =>
    dsimp only
    cases hfile : f.file with
    | none => exact ⟨h, .refl s, hkeep (by simp [Holds, hslot, hfile])⟩
    | some file =>
      obtain ⟨hinv, hkept⟩ := h.release {} hslot hfile rfl rfl
      refine ⟨hinv, hkept, fun j k hj => ?_⟩
      have hslot' : (s.fclose file).slot i = some f := hslot
      rw [holds_setSlot hslot'] at hj
      split_ifs at hj with hij
      exact ⟨hij, hj⟩

theorem foldl_closeSlot_spec (h : Inv B none s) (is : List Nat) :
    Inv B none (is.foldl closeSlot s) ∧ NotOverwritten s (is.foldl closeSlot s) ∧
    ∀ j k, Holds (is.foldl closeSlot s) j k → j ∉ is ∧ Holds s j k := by
  induction is generalizing s with
  | nil => exact ⟨h, .refl s, fun j k hj => ⟨List.not_mem_nil, hj⟩⟩
  | cons i is ih =>
    obtain ⟨hinv, hkept, hholds⟩ := closeSlot_spec h i
    obtain ⟨hinv', hkept', hholds'⟩ := ih hinv
    refine ⟨hinv', hkept.trans hkept', fun j k hj => ?_⟩
    obtain ⟨hrest, hj⟩ := hholds' j k hj
    obtain ⟨hij, hj⟩ := hholds j k hj
    exact ⟨List.not_mem_cons_of_ne_of_not_mem hij.symm hrest, hj⟩

theorem logFilesClose_spec (h : Inv B none s) :
    Inv B none (logFilesClose s) ∧ NotOverwritten s (logFilesClose s) ∧
    ∀ i k, ¬ Holds (logFilesClose s) i k := by
  obtain ⟨hinv, hkept, hholds⟩ := foldl_closeSlot_spec h (List.range logFilesMax)
  refine ⟨hinv, hkept, fun i k hi => ?_⟩
  obtain ⟨f, hslot, -⟩ := id hi
  have hlt : i < logFilesMax := hinv.length ▸ (List.getElem?_eq_some_iff.mp hslot).1
  exact (hholds i k hi).1 (List.mem_range.mpr hlt)

/-! ### Runs -/

theorem Inv.tableSound (h : Inv B none s) : TableSound B s := by
  refine ⟨h.unique, ?_, ?_, ?_⟩
  · intro i f hslot hvalid
    obtain ⟨file, hfile⟩ := h.valid i f hslot hvalid
    obtain ⟨-, -, st, hst, hopen, -⟩ := h.held i f file hslot hfile
    exact ⟨file, st, hfile, hst, hopen⟩
  · intro file st hst
    obtain ⟨hopen, hnone | ⟨i, hi⟩⟩ | hclosed := h.closes file st hst
    · cases hnone
    · exact Or.inl ⟨hopen, i, hi, fun j hj => h.distinct j i file hj hi⟩
    · refine Or.inr ⟨hclosed, ?_⟩
      rintro i ⟨f, hslot, hfile⟩
      obtain ⟨-, -, st', hst', hopen, -⟩ := h.held i f file hslot hfile
      obtain rfl := Option.some.inj (hst.symm.trans hst')
      omega
  · intro w hw
    obtain ⟨hcloses, st, hst, huuid⟩ := h.writes w hw
    exact ⟨hcloses, st, hst, huuid, huuid ▸ h.names w.stream st hst⟩

theorem step_spec (h : Inv B none s) (action : Action) :
    ∃ s', step B s action = some s' ∧ Inv B none s' ∧ NotOverwritten s s' := by
  cases action with
  | write calls uuid logRealLen => exact ⟨_, rfl, writePrivateLogFile_spec calls uuid logRealLen h⟩
  | close =>
    obtain ⟨hinv, hkept, -⟩ := logFilesClose_spec h
    exact ⟨_, rfl, hinv, hkept⟩

theorem exec_spec (h : Inv B none s) (actions : List Action) :
    ∃ s', Machine.exec (step B) s actions = some s' ∧ Inv B none s' ∧
      Machine.Along (step B) (fun s a => ∀ s', step B s a = some s' → NotOverwritten s s') s
        actions := by
  induction actions generalizing s with
  | nil => exact ⟨s, rfl, h, trivial⟩
  | cons action actions ih =>
    obtain ⟨t, ht, hinv, hkept⟩ := step_spec h action
    obtain ⟨s', hs', hinv', halong⟩ := ih hinv
    refine ⟨s', ?_, hinv', ?_, ?_⟩
    · rw [Machine.exec_cons, ht, Option.bind_some, hs']
    · intro t' ht'
      obtain rfl := Option.some.inj (ht.symm.trans ht')
      exact hkept
    · intro t' ht'
      obtain rfl := Option.some.inj (ht.symm.trans ht')
      exact halong

/-- Whatever is logged and whatever the calls return, the table is sound and no slot loses a stream
that is still open; after `LogFilesClose` every stream that was ever opened was closed once. -/
theorem logFiles_spec (B : Build) (actions : List Action) :
    ∃ s, Machine.exec (step B) {} actions = some s ∧ TableSound B s ∧
      (∀ calls uuid, TableSound B (getUsableFile B uuid s).1 ∧
        TableSound B (logFilesGet B calls uuid (isTaUuid uuid) s).1) ∧
      Machine.Throughout (step B) NotOverwritten {} actions ∧
      ∀ st ∈ (logFilesClose s).streams, st.closes = 1 := by
  obtain ⟨s, hexec, hinv, halong⟩ := exec_spec (B := B) Inv.initial actions
  refine ⟨s, hexec, hinv.tableSound, fun calls uuid => ⟨?_, ?_⟩, ?_, fun st hst => ?_⟩
  · exact (getUsableFile_spec hinv uuid).inv.tableSound
  · exact (logFilesGet_spec calls uuid hinv).inv.tableSound
  · exact (Machine.throughout_iff NotOverwritten.refl fun _ _ _ => NotOverwritten.trans).mpr halong
  · obtain ⟨hclose, -, hempty⟩ := logFilesClose_spec hinv
    obtain ⟨file, hfile⟩ := List.getElem?_of_mem hst
    obtain ⟨-, i, hi, -⟩ | ⟨hclosed, -⟩ := hclose.tableSound.closedOnce file st hfile
    · exact absurd hi (hempty i file)
    · exact hclosed

/-- Calls that succeed for an item of one byte; the file that is opened is a byte below the limit. -/
def almostFull : Calls where
  mkdirR := true
  access _ := false
  logFilesOpen := some (logFileLimit - 1)
  memcpyName := true
  memcpyUuid := true
  fwrite := 1

/-- An item that fills the file, another one, which gets a stream of its own, and the end. -/
theorem logFiles_spec_full :
    let actions := [.write almostFull .zero 1, .write almostFull .zero 1, .close]
    ∃ s, Machine.exec (step ⟨false, []⟩) {} actions = some s ∧ TableSound ⟨false, []⟩ s ∧
      s.streams.map Stream.closes = [1, 1] ∧ s.writes = [⟨0, .zero, 0⟩, ⟨1, .zero, 0⟩] := by
  intro actions
  obtain ⟨s, hexec, hsound, -⟩ := logFiles_spec ⟨false, []⟩ actions
  have hrun : (Machine.exec (step ⟨false, []⟩) {} actions).map
      (fun s => (s.streams.map Stream.closes, s.writes)) =
        some ([1, 1], [⟨0, .zero, 0⟩, ⟨1, .zero, 0⟩]) := by decide +kernel
  rw [hexec, Option.map_some, Option.some.injEq, Prod.mk.injEq] at hrun
  exact ⟨s, hexec, hsound, hrun.1, hrun.2⟩

end Model

end ITrustee.Tlogcat.LogTable
