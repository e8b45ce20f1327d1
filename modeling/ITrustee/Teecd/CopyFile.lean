import Mathlib.Tactic
import ITrustee.Foundation.FileStore
import ITrustee.Teecd.FsWorkAgent

/-!
# Copying an object

`CopyFile` and `DoCopy` of `fs_work_agent.c` on a file system, and `CopyWork` that calls them. `CopyCalls`
says which of the system calls fail and how much each turn of the loop reads and writes; a call that does
not fail does what its name says, or fails all the same where the file system does not allow it. The loop
has a bound on its turns, and `none` stands for a copy that has not ended within it.

The source is opened before the destination is, and opening the destination empties it. Where both names
lead to one file there is nothing left to read: the copy succeeds and the contents are gone.
-/

namespace ITrustee.Teecd

structure CopyCalls where
  cwd : List (List Char) := []
  realpathFrom : Bool := true
  realpathTo : Bool := true
  /-- `errno` after a `realpath` that found nothing. -/
  errnoFrom : {errno : UInt32 // errno ≠ 0} := ⟨eNoEnt, by decide⟩
  errnoTo : {errno : UInt32 // errno ≠ 0} := ⟨eNoEnt, by decide⟩
  openFrom : Bool := true
  fstat : Bool := true
  openTo : Bool := true
  malloc : Bool := true
  /-- How many bytes the `read` and the `write` of a turn take, where they do not fail. -/
  read : Nat → Option Nat := fun _ => some 65536
  write : Nat → Option Nat := fun _ => some 65536
  fsync : Bool := true

def maxBSize : Nat := 65536

section Model

variable (lib : Securec) (c : CopyCalls) (fuel : Nat)

/-- The loop of `DoCopy` from its turn `turn` on, with `offset` bytes read. -/
def doCopyLoop (fromFd toFd : Nat) :
    Nat → Nat → Nat → FileStore UInt8 → Option (Int32 × FileStore UInt8)
  | 0, _, _, _ => none
  | fuel + 1, turn, offset, fs =>
      match c.read turn with
      | none => some (-1, fs)
      | some rcount =>
          let buf := ((fs.data fromFd).drop offset).take (min (max rcount 1) maxBSize)
          if buf = [] then some (if c.fsync then 0 else -1, fs)
          else
            match c.write turn with
            | none => some (-1, fs)
            | some wcount =>
                let fs := fs.setData toFd (fs.data toFd ++ buf.take wcount)
                if wcount < buf.length then some (-1, fs)
                else doCopyLoop fromFd toFd fuel (turn + 1) (offset + buf.length) fs

/-- `DoCopy` from a file, or from a directory, which cannot be read. -/
def doCopy (fromFd : Option Nat) (toFd : Nat) (fs : FileStore UInt8) :
    Option (Int32 × FileStore UInt8) :=
  if !c.malloc then some (-1, fs)
  else
    match fromFd with
    | none => some (-1, fs)
    | some fromFd => doCopyLoop c fromFd toFd fuel 0 0 fs

/-- `open` with `O_RDONLY`, of a file or a directory. -/
def openRead (fs : FileStore UInt8) (path : List Char) : Option (Option Nat) :=
  match fs.kindAt c.cwd path with
  | some (.file i) => some (some i)
  | some .dir => some none
  | _ => none

/-- `GetRealFilePath`; the errors it gives are not 0. -/
def realFilePath (real : Bool) (errno : {errno : UInt32 // errno ≠ 0}) (fs : FileStore UInt8)
    (path : List Char) : Except UInt32 (List Char) :=
  getRealFilePath lib
    { realpath := if real then fs.realpath c.cwd path pathMax else none, errno := errno.1 } path

def copyFile (fromPath toPath : List Char) (fs : FileStore UInt8) :
    Option (Int32 × FileStore UInt8) :=
  match realFilePath lib c c.realpathFrom c.errnoFrom fs fromPath with
  | .error _ => some (-1, fs)
  | .ok realFromPath =>
      match realFilePath lib c c.realpathTo c.errnoTo fs toPath with
      | .error _ => some (-1, fs)
      | .ok realToPath =>
          match if c.openFrom then openRead c fs realFromPath else none with
          | none => some (-1, fs)
          | some fromFd =>
              if !c.fstat then some (-1, fs)
              else
                match if c.openTo then fs.openTrunc c.cwd realToPath else none with
                | none => some (-1, fs)
                | some (toFd, fs) => doCopy c fuel fromFd toFd fs

/-- `CopyWork`, with its copy made on the file system. -/
def copyWorkOn (calls : Calls) (s : FsState) (t : SecStorageType) (fs : FileStore UInt8) :
    Option ((FsState × SecStorageType) × FileStore UInt8) :=
  match joined lib calls (setCurrent s t) t.args.fromName,
      joined lib calls (setCurrent s t) t.args.toName with
  | some fromPath, some toPath =>
      (copyFile lib c fuel fromPath toPath fs).bind fun result =>
        (copyWork lib { calls with pathCall := result.1 } s t).map (·, result.2)
  | _, _ => (copyWork lib calls s t).map (·, fs)

end Model

/-! ### The loop -/

section Loop

variable {c : CopyCalls} {fromFd toFd : Nat} {bytes : List UInt8}

/-- Of the bytes of the source the first `offset` are in the destination. -/
structure Copied (fromFd toFd : Nat) (bytes : List UInt8) (offset : Nat) (fs : FileStore UInt8) :
    Prop where
  source : fs.data fromFd = bytes
  copied : fs.data toFd = bytes.take offset
  offset_le : offset ≤ bytes.length

theorem Copied.write {offset count : Nat} {fs : FileStore UInt8} (hne : fromFd ≠ toFd)
    (h : Copied fromFd toFd bytes offset fs) :
    Copied fromFd toFd bytes (offset + ((bytes.drop offset).take count).length)
      (fs.setData toFd (fs.data toFd ++ (bytes.drop offset).take count)) := by
  have hlength : ((bytes.drop offset).take count).length = min count (bytes.length - offset) := by
    rw [List.length_take, List.length_drop]
  constructor
  · change Function.update fs.data toFd _ fromFd = bytes
    rw [Function.update_of_ne hne]
    exact h.source
  · change Function.update fs.data toFd _ toFd = _
    rw [Function.update_self, h.copied, hlength, List.take_add,
      ← List.length_drop, List.take_eq_take_min (i := count)]
  · have hoffset := h.offset_le
    rw [hlength]
    omega

/-- The loop ends, leaves the tree alone, and when it succeeds the destination has the bytes of the
source. -/
theorem doCopyLoop_spec (hne : fromFd ≠ toFd) {fuel turn offset : Nat} {fs : FileStore UInt8}
    (h : Copied fromFd toFd bytes offset fs) (hfuel : bytes.length - offset < fuel) :
    ∃ ret fs', doCopyLoop c fromFd toFd fuel turn offset fs = some (ret, fs') ∧
      fs'.tree = fs.tree ∧ (ret = 0 → fs'.data toFd = bytes) := by
  induction fuel generalizing turn offset fs with
  | zero => exact absurd hfuel (Nat.not_lt_zero _)
  | succ fuel ih =>
      rw [doCopyLoop]
      cases c.read turn with
      | none => exact ⟨-1, fs, rfl, rfl, fun hret => absurd hret (by decide)⟩
      | some rcount =>
          dsimp only
          rw [h.source]
          have hoffset := h.offset_le
          by_cases hbuf : (bytes.drop offset).take (min (max rcount 1) maxBSize) = []
          · rw [if_pos hbuf]
            refine ⟨_, fs, rfl, rfl, fun _ => ?_⟩
            -- nothing is left to read
            have hend : bytes.length ≤ offset := by
              rw [List.take_eq_nil_iff] at hbuf
              obtain hcount | hdrop := hbuf
              · rw [maxBSize] at hcount
                omega
              · exact List.drop_eq_nil_iff.mp hdrop
            rw [h.copied, List.take_of_length_le hend]
          · rw [if_neg hbuf]
            cases c.write turn with
            | none => exact ⟨-1, fs, rfl, rfl, fun hret => absurd hret (by decide)⟩
            | some wcount =>
                dsimp only
                split_ifs with hshort
                · exact ⟨-1, _, rfl, rfl, fun hret => absurd hret (by decide)⟩
                · rw [List.take_of_length_le (Nat.le_of_not_lt hshort)]
                  have hpos := List.length_pos_of_ne_nil hbuf
                  have hle := List.length_take_le' (min (max rcount 1) maxBSize) (bytes.drop offset)
                  rw [List.length_drop] at hle
                  exact ih (h.write hne) (by omega)

/-- From a file that opening the destination has emptied there is nothing to copy. -/
theorem doCopyLoop_self {fuel turn : Nat} {fs : FileStore UInt8} (hempty : fs.data fromFd = []) :
    doCopyLoop c fromFd toFd (fuel + 1) turn 0 fs =
      some (if (c.read turn).isSome ∧ c.fsync then 0 else -1, fs) := by
  rw [doCopyLoop, hempty]
  cases c.read turn <;> simp

end Loop

/-! ### The copy -/

section Copy

variable {lib : Securec} {c : CopyCalls} {fs : FileStore UInt8} {path real : List Char}

theorem getRealFilePath_ok (hlib : lib.JoinsWithinMax) {calls : Calls}
    (h : getRealFilePath lib calls path = .ok real) : calls.realpath = some real ∨ real = path := by
  rw [getRealFilePath] at h
  split at h
  · split_ifs at h
    split at h
    · cases h
    · next trustPath hcopy =>
        obtain rfl := Except.ok.inj h
        exact Or.inr (hlib.copy_eq (by decide) le_rfl hcopy)
  · next trustPath hreal =>
      split_ifs at h
      obtain rfl := Except.ok.inj h
      exact Or.inl hreal

/-- The path that is opened leads where the given one does. -/
theorem realFilePath_samePlace (hlib : lib.JoinsWithinMax) {found : Bool}
    {errno : {errno : UInt32 // errno ≠ 0}}
    (h : realFilePath lib c found errno fs path = .ok real) : fs.SamePlace c.cwd path real := by
  obtain hreal | hpath := getRealFilePath_ok hlib h
  · dsimp only at hreal
    split_ifs at hreal
    exact Or.inr (FileStore.realpath_lookup hreal)
  · exact Or.inl hpath

theorem openRead_file (hplace : fs.SamePlace c.cwd path real) {i : Nat}
    (h : openRead c fs real = some (some i)) : fs.inodeAt c.cwd path = some i := by
  rw [openRead] at h
  split at h
  · next j hkind =>
      obtain rfl := Option.some.inj (Option.some.inj h)
      rw [FileStore.inodeAt, hplace.kindAt hkind]
  · cases h
  · cases h

theorem openRead_of_inode (hplace : fs.SamePlace c.cwd path real) {i : Nat}
    (h : fs.inodeAt c.cwd path = some i) : openRead c fs real = some (some i) := by
  obtain ⟨loc, hloc, hkind⟩ := FileStore.inodeAt_some.mp h
  rw [openRead, FileStore.kindAt, hplace.lookup hloc, Option.bind_some, hkind]

variable (lib c) in
/-- The copy has come as far as `DoCopy`. -/
structure CopyOpened (fs : FileStore UInt8) (fromPath toPath : List Char) (fromFd : Option Nat)
    (toFd : Nat) (fs' : FileStore UInt8) : Prop where
  realFrom : (realFilePath lib c c.realpathFrom c.errnoFrom fs fromPath).isOk
  realTo : (realFilePath lib c c.realpathTo c.errnoTo fs toPath).isOk
  openFrom : c.openFrom
  fstat : c.fstat
  openTo : c.openTo
  source : ∀ i, fromFd = some i → fs.inodeAt c.cwd fromPath = some i
  dest : fs'.inodeAt c.cwd toPath = some toFd
  emptied : fs'.data = Function.update fs.data toFd []
  dest_old : fs.inodeAt c.cwd toPath = some toFd ∨
    fs.inodeAt c.cwd toPath = none ∧ toFd = fs.used

/-- A copy fails before it opens the destination, or comes as far as `DoCopy`. -/
theorem copyFile_cases (lib : Securec) (hlib : lib.JoinsWithinMax) (c : CopyCalls)
    (fs : FileStore UInt8) (fromPath toPath : List Char) :
    (∀ fuel, copyFile lib c fuel fromPath toPath fs = some (-1, fs)) ∨
      ∃ fromFd toFd fs', CopyOpened lib c fs fromPath toPath fromFd toFd fs' ∧
        ∀ fuel, copyFile lib c fuel fromPath toPath fs = doCopy c fuel fromFd toFd fs' := by
  cases hfrom : realFilePath lib c c.realpathFrom c.errnoFrom fs fromPath with
  | error => exact Or.inl fun fuel => by rw [copyFile, hfrom]
  | ok realFromPath =>
      cases hto : realFilePath lib c c.realpathTo c.errnoTo fs toPath with
      | error => exact Or.inl fun fuel => by rw [copyFile, hfrom, hto]
      | ok realToPath =>
          cases hopenFrom : if c.openFrom then openRead c fs realFromPath else none with
          | none => exact Or.inl fun fuel => by simp only [copyFile, hfrom, hto, hopenFrom]
          | some fromFd =>
              by_cases hfstat : c.fstat
              · cases hopenTo : if c.openTo then fs.openTrunc c.cwd realToPath else none with
                | none =>
                    exact Or.inl fun fuel => by
                      simp only [copyFile, hfrom, hto, hopenFrom, hopenTo, ite_self]
                | some opened =>
                    obtain ⟨toFd, fs'⟩ := opened
                    refine Or.inr ⟨fromFd, toFd, fs', ?_, fun fuel => ?_⟩
                    · split_ifs at hopenFrom with hcallFrom
                      split_ifs at hopenTo with hcallTo
                      obtain ⟨hdest, hdata, hold⟩ :=
                        FileStore.openTrunc_some (realFilePath_samePlace hlib hto) hopenTo
                      exact
                        { realFrom := by rw [hfrom]; exact rfl
                          realTo := by rw [hto]; exact rfl
                          openFrom := hcallFrom
                          fstat := hfstat
                          openTo := hcallTo
                          source := by
                            rintro i rfl
                            exact openRead_file (realFilePath_samePlace hlib hfrom) hopenFrom
                          dest := hdest
                          emptied := hdata
                          dest_old := hold }
                    · simp only [copyFile, hfrom, hto, hopenFrom, hopenTo, hfstat, Bool.not_true,
                        Bool.false_eq_true, if_false]
              · exact Or.inl fun fuel => by simp [copyFile, hfrom, hto, hopenFrom, hfstat]

/-- Of two files, the destination gets the bytes of the source. -/
theorem copyFile_apart (hlib : lib.JoinsWithinMax) {fromPath toPath : List Char}
    (hne : ∀ i, fs.inodeAt c.cwd fromPath = some i → fs.inodeAt c.cwd toPath ≠ some i) :
    ∃ bound, ∀ fuel, bound < fuel → ∃ ret fs',
      copyFile lib c fuel fromPath toPath fs = some (ret, fs') ∧
        (ret = 0 → ∃ bytes, fs.content c.cwd fromPath = some bytes ∧
          fs'.content c.cwd toPath = some bytes) := by
  obtain hfails | ⟨fromFd, toFd, fs', hopened, hcopy⟩ := copyFile_cases lib hlib c fs fromPath toPath
  · exact ⟨0, fun fuel _ => ⟨-1, fs, hfails fuel, fun hret => absurd hret (by decide)⟩⟩
  by_cases hmalloc : c.malloc
  · cases fromFd with
    | none =>
        refine ⟨0, fun fuel _ => ⟨-1, fs', ?_, fun hret => absurd hret (by decide)⟩⟩
        rw [hcopy, doCopy.eq_def, if_neg (by simpa using hmalloc)]
    | some i =>
        have hsource := hopened.source i rfl
        have hij : i ≠ toFd := by
          rintro rfl
          obtain hold | ⟨-, hnew⟩ := hopened.dest_old
          · exact hne i hsource hold
          · exact absurd hnew (Nat.ne_of_lt (FileStore.inodeAt_lt hsource))
        have hcopied : Copied i toFd (fs.data i) 0 fs' := by
          constructor
          · rw [hopened.emptied, Function.update_of_ne hij]
          · rw [hopened.emptied, Function.update_self, List.take_zero]
          · exact Nat.zero_le _
        refine ⟨(fs.data i).length, fun fuel hfuel => ?_⟩
        obtain ⟨ret, fs₂, hloop, htree, hdata⟩ : ∃ ret fs₂, doCopyLoop c i toFd fuel 0 0 fs' =
            some (ret, fs₂) ∧ fs₂.tree = fs'.tree ∧ (ret = 0 → fs₂.data toFd = fs.data i) :=
          doCopyLoop_spec hij hcopied (by rwa [Nat.sub_zero])
        refine ⟨ret, fs₂, ?_, fun hret => ⟨fs.data i, ?_, ?_⟩⟩
        · rw [hcopy, doCopy, hmalloc, if_neg (by decide)]
          exact hloop
        · rw [FileStore.content, hsource, Option.map_some]
        · have hdest : fs₂.inodeAt c.cwd toPath = some toFd := by
            rw [FileStore.inodeAt, FileStore.kindAt, htree]
            exact hopened.dest
          rw [FileStore.content, hdest, Option.map_some, hdata hret]
  · refine ⟨0, fun fuel _ => ⟨-1, fs', ?_, fun hret => absurd hret (by decide)⟩⟩
    rw [hcopy, doCopy.eq_def, if_pos (by simpa using hmalloc)]

variable (lib c) in
/-- None of the calls fails that the copy of an empty file makes. -/
structure CopySucceeds (fs : FileStore UInt8) (fromPath toPath : List Char) : Prop where
  realFrom : (realFilePath lib c c.realpathFrom c.errnoFrom fs fromPath).isOk
  realTo : (realFilePath lib c c.realpathTo c.errnoTo fs toPath).isOk
  openFrom : c.openFrom
  fstat : c.fstat
  openTo : c.openTo
  malloc : c.malloc
  read : (c.read 0).isSome
  fsync : c.fsync

/-- A copy of a file to itself leaves nothing of it. -/
theorem copyFile_self (hlib : lib.JoinsWithinMax) {fromPath toPath : List Char} {i : Nat}
    (hfrom : fs.inodeAt c.cwd fromPath = some i) (hto : fs.inodeAt c.cwd toPath = some i)
    (hcalls : CopySucceeds lib c fs fromPath toPath) (fuel : Nat) :
    copyFile lib c (fuel + 1) fromPath toPath fs = some (0, fs.setData i []) := by
  have hrealFrom := hcalls.realFrom
  have hrealTo := hcalls.realTo
  cases hpathFrom : realFilePath lib c c.realpathFrom c.errnoFrom fs fromPath with
  | error => simp [hpathFrom, Except.isOk, Except.toBool] at hrealFrom
  | ok realFromPath =>
      cases hpathTo : realFilePath lib c c.realpathTo c.errnoTo fs toPath with
      | error => simp [hpathTo, Except.isOk, Except.toBool] at hrealTo
      | ok realToPath =>
          have hread := openRead_of_inode (realFilePath_samePlace hlib hpathFrom) hfrom
          have htrunc := FileStore.openTrunc_of_inode (realFilePath_samePlace hlib hpathTo) hto
          have hempty : (fs.setData i []).data i = [] := Function.update_self ..
          simp only [copyFile, hpathFrom, hpathTo, hcalls.openFrom, hread, hcalls.fstat,
            hcalls.openTo, htrunc, Bool.not_true, Bool.false_eq_true, if_true, if_false]
          rw [doCopy, hcalls.malloc, if_neg (by decide)]
          rw [doCopyLoop_self hempty, if_pos ⟨hcalls.read, hcalls.fsync⟩]

/-- A copy of a file to itself that some call fails in does not succeed. -/
theorem copyFile_self_fails (hlib : lib.JoinsWithinMax) {fromPath toPath : List Char} {i : Nat}
    (hfrom : fs.inodeAt c.cwd fromPath = some i) (hto : fs.inodeAt c.cwd toPath = some i)
    (hcalls : ¬ CopySucceeds lib c fs fromPath toPath) (fuel : Nat) :
    ∃ fs', copyFile lib c (fuel + 1) fromPath toPath fs = some (-1, fs') := by
  obtain hfails | ⟨fromFd, toFd, fs', hopened, hcopy⟩ := copyFile_cases lib hlib c fs fromPath toPath
  · exact ⟨fs, hfails (fuel + 1)⟩
  refine ⟨fs', ?_⟩
  rw [hcopy, doCopy.eq_def]
  split_ifs with hmalloc
  · exact rfl
  · cases fromFd with
    | none => exact rfl
    | some j =>
        obtain rfl := Option.some.inj ((hopened.source j rfl).symm.trans hfrom)
        have htoFd : toFd = j := by
          obtain hold | ⟨hnew, -⟩ := hopened.dest_old
          · exact Option.some.inj (hold.symm.trans hto)
          · rw [hto] at hnew
            cases hnew
        have hempty : fs'.data j = [] := by
          rw [hopened.emptied, htoFd, Function.update_self]
        have hfailed : ¬ ((c.read 0).isSome ∧ c.fsync) := by
          rintro ⟨hread, hfsync⟩
          exact hcalls ⟨hopened.realFrom, hopened.realTo, hopened.openFrom, hopened.fstat,
            hopened.openTo, by simpa using hmalloc, hread, hfsync⟩
        change doCopyLoop c j toFd (fuel + 1) 0 0 fs' = _
        rw [doCopyLoop_self hempty, if_neg hfailed]

end Copy

/-! ### The request -/

section Request

variable (lib : Securec) (c : CopyCalls) (calls : Calls) (s : FsState) (t : SecStorageType)
  (fs : FileStore UInt8) {fromPath toPath : List Char}

/-- The request ends, and when it reports success, the destination has the bytes that the source had. -/
def CopyExact (fromPath toPath : List Char) : Prop :=
  ∃ bound, ∀ fuel, bound < fuel → ∃ s' t' fs',
    copyWorkOn lib c fuel calls s t fs = some ((s', t'), fs') ∧
      (t'.ret = 0 → ∃ bytes, fs.content c.cwd fromPath = some bytes ∧
        fs'.content c.cwd toPath = some bytes)

variable {lib c calls s t fs}

/-- `CopyWork` answers what the copy of the two paths does. -/
theorem copyWorkOn_joined (hfrom : joined lib calls (setCurrent s t) t.args.fromName = some fromPath)
    (hto : joined lib calls (setCurrent s t) t.args.toName = some toPath) {fuel : Nat} {ret : Int32}
    {fs' : FileStore UInt8} (hcopy : copyFile lib c fuel fromPath toPath fs = some (ret, fs')) :
    ∃ t', copyWorkOn lib c fuel calls s t fs = some ((setCurrent s t, t'), fs') ∧ t'.ret = ret := by
  have hnames : [t.args.fromName, t.args.toName].all (fun name =>
      (joined lib { calls with pathCall := ret } (setCurrent s t) name).isSome) = true := by
    change ((joined lib calls (setCurrent s t) t.args.fromName).isSome &&
      ((joined lib calls (setCurrent s t) t.args.toName).isSome && true)) = true
    rw [hfrom, hto]
    exact rfl
  rw [copyWorkOn, hfrom, hto]
  dsimp only
  rw [hcopy, Option.bind_some, copyWork, pathWork, if_pos hnames]
  split_ifs
  · exact ⟨_, rfl, rfl⟩
  · exact ⟨_, rfl, rfl⟩

theorem content_emptied {i : Nat} {path : List Char} (h : fs.inodeAt c.cwd path = some i) :
    (fs.setData i []).content c.cwd path = some [] := by
  have hinode : (fs.setData i []).inodeAt c.cwd path = some i := h
  rw [FileStore.content, hinode, Option.map_some]
  exact congrArg some (Function.update_self ..)

/-- The copy is exact unless a file that is not empty is copied to itself. -/
theorem copyWork_exact_iff (lib : Securec) (hlib : lib.JoinsWithinMax) (c : CopyCalls)
    (calls : Calls) (s : FsState) (t : SecStorageType) (fs : FileStore UInt8)
    {fromPath toPath : List Char}
    (hfrom : joined lib calls (setCurrent s t) t.args.fromName = some fromPath)
    (hto : joined lib calls (setCurrent s t) t.args.toName = some toPath) :
    CopyExact lib c calls s t fs fromPath toPath ↔
      ∀ i, fs.inodeAt c.cwd fromPath = some i → fs.inodeAt c.cwd toPath = some i →
        fs.data i = [] ∨ ¬ CopySucceeds lib c fs fromPath toPath := by
  constructor
  · rintro ⟨bound, hexact⟩ i hinodeFrom hinodeTo
    by_contra! hbad
    obtain ⟨t', hwork, hret⟩ := copyWorkOn_joined hfrom hto
      (copyFile_self hlib hinodeFrom hinodeTo hbad.2 bound)
    obtain ⟨s₂, t₂, fs₂, hwork₂, hbytes⟩ := hexact (bound + 1) (Nat.lt_succ_self _)
    rw [hwork] at hwork₂
    obtain ⟨⟨rfl, rfl⟩, rfl⟩ := by simpa using hwork₂
    obtain ⟨bytes, hcontent, hcopied⟩ := hbytes hret
    rw [FileStore.content, hinodeFrom, Option.map_some, Option.some.injEq] at hcontent
    rw [content_emptied hinodeTo, Option.some.injEq] at hcopied
    exact hbad.1 (hcontent.trans hcopied.symm)
  · intro hcond
    by_cases hsame : ∃ i, fs.inodeAt c.cwd fromPath = some i ∧ fs.inodeAt c.cwd toPath = some i
    · obtain ⟨i, hinodeFrom, hinodeTo⟩ := hsame
      refine ⟨0, fun fuel hfuel => ?_⟩
      obtain ⟨fuel, rfl⟩ := Nat.exists_eq_add_one_of_ne_zero (Nat.ne_of_gt hfuel)
      by_cases hcalls : CopySucceeds lib c fs fromPath toPath
      · obtain hempty | hfails := hcond i hinodeFrom hinodeTo
        · obtain ⟨t', hwork, -⟩ := copyWorkOn_joined hfrom hto
            (copyFile_self hlib hinodeFrom hinodeTo hcalls fuel)
          refine ⟨_, t', _, hwork, fun _ => ⟨[], ?_, content_emptied hinodeTo⟩⟩
          rw [FileStore.content, hinodeFrom, Option.map_some, hempty]
        · exact absurd hcalls hfails
      · obtain ⟨fs', hcopy⟩ := copyFile_self_fails hlib hinodeFrom hinodeTo hcalls fuel
        obtain ⟨t', hwork, hret⟩ := copyWorkOn_joined hfrom hto hcopy
        refine ⟨_, t', _, hwork, fun hzero => ?_⟩
        rw [hret] at hzero
        exact absurd hzero (by decide)
    · push Not at hsame
      obtain ⟨bound, hcopies⟩ := copyFile_apart hlib hsame
      refine ⟨bound, fun fuel hfuel => ?_⟩
      obtain ⟨ret, fs', hcopy, hbytes⟩ := hcopies fuel hfuel
      obtain ⟨t', hwork, hret⟩ := copyWorkOn_joined hfrom hto hcopy
      exact ⟨_, t', fs', hwork, fun hzero => hbytes (hret.symm.trans hzero)⟩

end Request

/-! ### One object -/

/-- An object of one byte in the directory of an application. -/
def objectStore : FileStore UInt8 :=
  let dirs := ["var".toList, "itrustee".toList, "sec_storage_data".toList, "app".toList]
  let store := do
    let fs ← (List.range dirs.length).foldlM
      (fun fs n => FileStore.addNode fs (dirs.take n) (dirs.getD n []) .dir nofun) FileStore.empty
    fs.addFile dirs "object".toList [7]
  store.getD FileStore.empty

def objectName : List Char := "app/object".toList

def objectPath : List Char := "/var/itrustee/sec_storage_data/app/object".toList

/-- A request to copy the object. -/
def copyObject (toName : List Char) : SecStorageType :=
  { cmd := .secCp, args := { fromName := objectName, toName := toName } }

theorem copySucceeds_object : CopySucceeds Securec.reference {} objectStore objectPath objectPath where
  realFrom := by decide +kernel
  realTo := by decide +kernel
  openFrom := by decide
  fstat := by decide
  openTo := by decide
  malloc := by decide
  read := by decide
  fsync := by decide

/-- The object is copied to a name that nothing has. -/
theorem copyObject_exact :
    CopyExact Securec.reference {} {} {} (copyObject (objectName ++ ['2'])) objectStore objectPath
      (objectPath ++ ['2']) := by
  refine (copyWork_exact_iff Securec.reference Securec.reference_joinsWithinMax {} {} {}
    (copyObject (objectName ++ ['2'])) objectStore (by decide +kernel) (by decide +kernel)).mpr ?_
  intro i _ hto
  have hnone : objectStore.inodeAt [] (objectPath ++ ['2']) = none := by decide +kernel
  rw [hnone] at hto
  cases hto

/-- The object is copied to itself: success, and the object is empty. -/
theorem copyObject_self_empties :
    joined Securec.reference {} (setCurrent {} (copyObject objectName)) objectName = some objectPath ∧
      objectStore.content [] objectPath = some [7] ∧
        (∀ fuel, ∃ s t fs,
          copyWorkOn Securec.reference {} (fuel + 1) {} {} (copyObject objectName) objectStore =
              some ((s, t), fs) ∧
            t.ret = 0 ∧ fs.content [] objectPath = some []) ∧
          ¬ CopyExact Securec.reference {} {} {} (copyObject objectName) objectStore objectPath
            objectPath := by
  have hjoined : joined Securec.reference {} (setCurrent {} (copyObject objectName)) objectName =
      some objectPath := by
    decide +kernel
  have hinode : objectStore.inodeAt [] objectPath = some 0 := by decide +kernel
  have hcontent : objectStore.content [] objectPath = some [7] := by decide +kernel
  have hcopies : ∀ fuel, ∃ s t fs,
      copyWorkOn Securec.reference {} (fuel + 1) {} {} (copyObject objectName) objectStore =
          some ((s, t), fs) ∧
        t.ret = 0 ∧ fs.content [] objectPath = some [] := by
    intro fuel
    obtain ⟨t', hwork, hret⟩ := copyWorkOn_joined hjoined hjoined
      (copyFile_self Securec.reference_joinsWithinMax hinode hinode copySucceeds_object fuel)
    exact ⟨_, t', _, hwork, hret, content_emptied (c := {}) hinode⟩
  refine ⟨hjoined, hcontent, hcopies, ?_⟩
  rintro ⟨bound, hexact⟩
  obtain ⟨s₁, t₁, fs₁, hwork₁, hbytes⟩ := hexact (bound + 1) (Nat.lt_succ_self _)
  obtain ⟨s₂, t₂, fs₂, hwork₂, hret, hempty⟩ := hcopies bound
  rw [hwork₁] at hwork₂
  obtain ⟨⟨rfl, rfl⟩, rfl⟩ := by simpa using hwork₂
  obtain ⟨bytes, hbefore, hafter⟩ := hbytes hret
  change objectStore.content [] objectPath = some bytes at hbefore
  change fs₁.content [] objectPath = some bytes at hafter
  rw [hcontent] at hbefore
  rw [hempty, ← hbefore] at hafter
  cases hafter

end ITrustee.Teecd
