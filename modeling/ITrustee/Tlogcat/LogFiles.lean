import Mathlib.Tactic
import ITrustee.Foundation.Disk
import ITrustee.Tlogcat.FileNames

/-!
# Log files

The log files of `tlogcat.c` in the build that rewinds. Log items are appended to the '-0' file of their
identifier. A file that has reached its limit is renamed to the next index, and once all four are full
they are moved to the temporary directory, packed into an archive and removed; of the archives only the
last four are kept. Open files stand in a table of slots.

The file system does what it is asked: a call fails only because a name is not there. Directories hold
files only, and the temporary directory exists whenever it is needed. A byte of a file carries a mark
that says who wrote it, and the run records the writes, the renames of full files and the contents that
a compression moves; the code reads neither.
-/

namespace ITrustee.Tlogcat

def logFilesMax : Nat := 128

def logFileIndexMax : Nat := 4

def logFileLimit : Nat := 500 * 1024

/-- A byte was there before, belongs to the version line of a new file, or to a log item. -/
inductive Origin where
  | existing
  | version
  | item
  deriving DecidableEq

structure LogByte where
  origin : Origin
  value : UInt8
  deriving DecidableEq

structure LogFile where
  file : Option OpenFile := none
  uuid : TeeUuid := .zero
  fileLen : Nat := 0
  fileIndex : Nat := 0
  valid : Bool := false
  logName : List Char := []
  deriving DecidableEq

/-- What the run records. -/
inductive Event where
  /-- A log item was written. -/
  | wrote (uuid : TeeUuid) (bytes : List UInt8)
  /-- `LogFileFull` renamed the '-0' file; `existed` says whether there was a file of the new name. -/
  | full (uuid : TeeUuid) (index : Nat) (existed : Bool)
  /-- A compression is about to move the files '-0' to '-3' with these contents. -/
  | moved (uuid : TeeUuid) (files : List (Option (List LogByte)))

structure LogState where
  disk : Disk LogByte
  g_files : List LogFile := List.replicate logFilesMax {}
  g_compressFile : List Char := []
  g_logNameCompress : List Char := []
  g_uuidAscii : List Char := []
  g_logName : List Char := []
  trace : List Event := []

/-- The log directory, the version line, and what `TarZipFiles` makes of files. -/
structure Config where
  paths : LogPaths
  g_teeVersion : List UInt8
  tarZip : List (List Char × List LogByte) → List LogByte

section Model

variable (C : Config)

def LogState.content (s : LogState) (p : List Char) : Option (List LogByte) := s.disk.content p

/-! ### Compression -/

/-- The files in the temporary directory. -/
def tempNames (s : LogState) : List (List Char) :=
  s.disk.names.keys.filter fun p => C.paths.teeTempPath.isPrefixOf p

def logTmpDirClear (s : LogState) : LogState :=
  { s with disk := (tempNames C s).foldl Disk.unlink s.disk }

/-- `MkdirTmpPath`; `rmdir` fails with another error than `ENOENT` if the directory is not empty. -/
def mkdirTmpPath (s : LogState) : LogState :=
  if tempNames C s = [] then s else logTmpDirClear C s

/-- `rename`, which changes nothing if it fails. -/
def LogState.rename (s : LogState) (old new : List Char) : LogState :=
  { s with disk := (s.disk.rename old new).getD s.disk }

def moveFileToTmpPath (isTa : Bool) (s : LogState) (index : Nat) : LogState :=
  let nameAttr : FileNameAttr := ⟨s.g_uuidAscii, isTa, index⟩
  match logAssembleFilename C.paths.teePath nameAttr with
  | none => s
  | some g_logName =>
      let s := { s with g_logName }
      match logAssembleFilename C.paths.teeTempPath nameAttr with
      | none => s
      | some g_logNameCompress =>
          let s := { s with g_logNameCompress }
          s.rename s.g_logName s.g_logNameCompress

/-- The loop of `GetCompressFile`, and whether it found a name that is free. -/
def getCompressFileLoop (isTa : Bool) : List Nat → LogState → LogState × Bool
  | [], s => (s, false)
  | i :: is, s =>
      match logAssembleCompressFilename C.paths.teePath ⟨s.g_uuidAscii, isTa, i⟩ with
      | none => getCompressFileLoop isTa is s
      | some g_logNameCompress =>
          let s := { s with g_logNameCompress }
          if s.disk.find s.g_logNameCompress = none then (s, true)
          else getCompressFileLoop isTa is s

def getCompressFile (uuid : TeeUuid) (s : LogState) : LogState × Bool :=
  getCompressFileLoop C (isTaUuid uuid) (List.range logFileIndexMax) s

/-- The loop of `ArrangeCompressFile`. -/
def arrangeLoop (isTa : Bool) : List Nat → LogState → LogState
  | [], s => s
  | i :: is, s =>
      match logAssembleCompressFilename C.paths.teePath ⟨s.g_uuidAscii, isTa, i⟩ with
      | none => arrangeLoop isTa is s
      | some g_logNameCompress =>
          let s := { s with g_logNameCompress }
          let s := s.rename s.g_logNameCompress s.g_logName
          arrangeLoop isTa is { s with g_logName := s.g_logNameCompress }

def arrangeCompressFile (uuid : TeeUuid) (s : LogState) : LogState :=
  match logAssembleCompressFilename C.paths.teePath ⟨s.g_uuidAscii, isTaUuid uuid, 0⟩ with
  | none => s
  | some g_logName =>
      let s := { s with g_logName, disk := s.disk.unlink g_logName }
      arrangeLoop C (isTaUuid uuid) (List.range' 1 (logFileIndexMax - 1)) s

/-- `TarZipFiles`: the files that exist are packed, and the result is written from the start of the
output file, which is not truncated if it exists. -/
def tarZipFiles (names : List (List Char)) (output : List Char) (disk : Disk LogByte) :
    Disk LogByte :=
  let packed := C.tarZip (names.filterMap fun name => (disk.content name).map fun bytes => (name, bytes))
  match disk.find output with
  | some inode => disk.write ⟨inode, 0⟩ packed
  | none => (disk.create output).write ⟨disk.used, 0⟩ packed

/-- The names of the files that `TriggerCompress` packs. -/
def filesToCompress (uuid : TeeUuid) : List (List Char) :=
  (List.range logFileIndexMax).filterMap fun i =>
    logAssembleFilename C.paths.teeTempPath ⟨getUuidStr uuid [], isTaUuid uuid, i⟩

def triggerCompress (uuid : TeeUuid) (s : LogState) : LogState :=
  let names := filesToCompress C uuid
  { s with disk := names.foldl Disk.unlink (tarZipFiles C names s.g_compressFile s.disk) }

/-- `LogFilesCompress` up to the moves. -/
def prepareCompress (uuid : TeeUuid) (s : LogState) : LogState :=
  let s := mkdirTmpPath C s
  { s with
    g_uuidAscii := getUuidStr uuid s.g_uuidAscii
    trace := s.trace ++
      [.moved uuid ((List.range logFileIndexMax).map fun i => s.content (C.paths.logFile uuid i))] }

/-- The moves of `LogFilesCompress`, from the last index down. -/
def moveFiles (uuid : TeeUuid) (s : LogState) : LogState :=
  (List.range logFileIndexMax).reverse.foldl (moveFileToTmpPath C (isTaUuid uuid)) s

/-- The choice of the archive in `LogFilesCompress`. -/
def chooseArchive (uuid : TeeUuid) (s : LogState) : LogState :=
  let (s, found) := getCompressFile C uuid s
  let s := if found then s else arrangeCompressFile C uuid s
  { s with g_compressFile := s.g_logNameCompress }

/-- `LogFilesCompress` before `TriggerCompress`. -/
def beforeTrigger (uuid : TeeUuid) (s : LogState) : LogState :=
  chooseArchive C uuid (moveFiles C uuid (prepareCompress C uuid s))

def logFilesCompress (uuid : TeeUuid) (s : LogState) : LogState :=
  triggerCompress C uuid (beforeTrigger C uuid s)

/-! ### Full files -/

/-- `LogFileFull` for the file in a slot. -/
def logFileFull (f : LogFile) (s : LogState) : LogState :=
  if f.fileIndex ≥ logFileIndexMax then s
  else
    let uuidAscii := getUuidStr f.uuid []
    let isTa := isTaUuid f.uuid
    match logAssembleFilename C.paths.teePath ⟨uuidAscii, isTa, 0⟩,
      logAssembleFilename C.paths.teePath ⟨uuidAscii, isTa, f.fileIndex + 1⟩ with
    | some logName, some logName2 =>
        match s.disk.rename logName logName2 with
        | none => s
        | some disk =>
            let existed := (s.disk.find logName2).isSome
            { s with disk, trace := s.trace ++ [.full f.uuid (f.fileIndex + 1) existed] }
    | _, _ => s

/-- What becomes of a file that has reached its limit. -/
def fileFull (f : LogFile) (s : LogState) : LogState :=
  if f.fileIndex ≥ logFileIndexMax - 1 then logFilesCompress C f.uuid s else logFileFull C f s

def LogState.clearSlot (s : LogState) (i : Nat) : LogState := { s with g_files := s.g_files.set i {} }

/-- `LogFilesChecklimit`, and whether the slot was cleared. -/
def logFilesChecklimit (i : Nat) (f : LogFile) (s : LogState) : LogState × Bool :=
  if f.fileLen ≥ logFileLimit then ((fileFull C f s).clearSlot i, true) else (s, false)

/-! ### Slots -/

/-- The loop of `GetUsableFile` over the slots that follow. -/
def getUsableFileLoop (uuid : TeeUuid) : List Nat → LogState → LogState × Option Nat
  | [], s => (s, none)
  | i :: is, s =>
      match s.g_files[i]? with
      | none => (s, none)
      | some f =>
          if f.uuid ≠ uuid then getUsableFileLoop uuid is s
          else if !f.valid then getUsableFileLoop uuid is s
          else if f.file = none then getUsableFileLoop uuid is (s.clearSlot i)
          else
            let (s, cleared) := logFilesChecklimit C i f s
            if cleared then getUsableFileLoop uuid is s else (s, some i)

def getUsableFile (uuid : TeeUuid) (s : LogState) : LogState × Option Nat :=
  getUsableFileLoop C uuid (List.range logFilesMax) s

/-- The loop of `GetFileIndex` from index `n - 1` down. -/
def getFileIndexLoop (uuidAscii : List Char) (isTa : Bool) (disk : Disk LogByte) : Nat → Nat
  | 0 => 0
  | n + 1 =>
      match logAssembleFilename C.paths.teePath ⟨uuidAscii, isTa, n⟩ with
      | none => getFileIndexLoop uuidAscii isTa disk n
      | some logName =>
          if (disk.find logName).isSome then n else getFileIndexLoop uuidAscii isTa disk n

def getFileIndex (uuidAscii : List Char) (isTa : Bool) (disk : Disk LogByte) : Nat :=
  getFileIndexLoop C uuidAscii isTa disk logFileIndexMax

/-- `LogFilesOpen`: the stream at the end of the file and the length of the file. A new file gets the
version line, which does not count. -/
def logFilesOpen (logName : List Char) (s : LogState) : LogState × OpenFile × Nat :=
  match s.disk.find logName with
  | some inode =>
      let fileLen := (s.disk.data inode).length
      (s, ⟨inode, fileLen⟩, fileLen)
  | none =>
      let inode := s.disk.used
      let bytes := C.g_teeVersion.map fun value => ⟨.version, value⟩
      ({ s with disk := (s.disk.create logName).write ⟨inode, 0⟩ bytes }, ⟨inode, bytes.length⟩, 0)

/-- `LogFilesAdd`: the first slot that is free, if there is one. -/
def logFilesAdd (uuid : TeeUuid) (logName : List Char) (file : OpenFile) (fileLen index : Nat)
    (s : LogState) : LogState × Option Nat :=
  match s.g_files.findIdx? fun f => f.file = none && !f.valid with
  | none => (s, none)
  | some i =>
      let f : LogFile := ⟨some file, uuid, fileLen, index, true, logName⟩
      ({ s with g_files := s.g_files.set i f }, some i)

def logFilesGet (uuid : TeeUuid) (isTa : Bool) (s : LogState) : LogState × Option Nat :=
  match getUsableFile C uuid s with
  | (s, some i) => (s, some i)
  | (s, none) =>
      let uuidAscii := getUuidStr uuid []
      let fileIndex := getFileIndex C uuidAscii isTa s.disk
      match logAssembleFilename C.paths.teePath ⟨uuidAscii, isTa, 0⟩ with
      | none => (s, none)
      | some logName =>
          let (s, file, fileLen) := logFilesOpen C logName s
          logFilesAdd uuid logName file fileLen fileIndex s

/-- `fwrite` of a log item to the stream of slot `i`. -/
def writeSlot (i : Nat) (bytes : List UInt8) (f : LogFile) (file : OpenFile) (uuid : TeeUuid)
    (s : LogState) : LogState :=
  let f := { f with
    file := some { file with pos := file.pos + bytes.length }
    fileLen := f.fileLen + bytes.length }
  { s with
    disk := s.disk.write file (bytes.map fun value => ⟨.item, value⟩)
    g_files := s.g_files.set i f
    trace := s.trace ++ [.wrote uuid bytes] }

def writePrivateLogFile (uuid : TeeUuid) (bytes : List UInt8) (s : LogState) : LogState :=
  match logFilesGet C uuid (isTaUuid uuid) s with
  | (s, none) => s
  | (s, some i) =>
      match s.g_files[i]? with
      | none => s
      | some f =>
          match f.file with
          | none => s
          | some file => writeSlot i bytes f file uuid s

/-- One turn of the loop of `LogFilesClose`. -/
def closeSlot (s : LogState) (i : Nat) : LogState :=
  match s.g_files[i]? with
  | none => s
  | some f =>
      if f.file = none then s
      else if f.fileLen ≥ logFileLimit then (fileFull C f s).clearSlot i
      else s.clearSlot i

def logFilesClose (s : LogState) : LogState := (List.range logFilesMax).foldl (closeSlot C) s

/-! ### Runs -/

inductive Action where
  /-- A log item arrives. -/
  | write (uuid : TeeUuid) (bytes : List UInt8)
  /-- The reader has nothing left to read. -/
  | close
  deriving DecidableEq

def logStep (s : LogState) : Action → Option LogState
  | .write uuid bytes => some (writePrivateLogFile C uuid bytes s)
  | .close => some (logFilesClose C s)

end Model

end ITrustee.Tlogcat
