import Mathlib.Tactic
import ITrustee.Teecd.FsPath

/-!
# The storage agent

The requests of `fs_work_agent.c`. The agent takes one request at a time out of the block it shares
with the secure world, runs the function its command selects, and leaves the answer in the same block.
What survives a request is the list of opened files and, in the C library, the open streams.

`Calls` holds what the library calls of one request return. Only `fopen` is constrained: a new stream
has an address and a file number that no open stream has. `fclose` ends a stream whatever it returns. A
function gives `none` when its calls cannot return what `Calls` says, or when the behaviour is undefined
because it uses a stream after `fclose`.
-/

namespace ITrustee.Teecd

open CString

/-! ### Data -/

inductive FsCmdType where
  | secOpen | secClose | secRead | secWrite | secSeek | secRemove | secTruncate | secRename
  | secCreate | secInfo | secAccess | secAccess2 | secFsync | secCp | secDiskusage | secDeleteAll
  | other (cmd : UInt32)
  deriving DecidableEq

/-- The union `args`. The members that start with a descriptor share `fd`, those with one name share
`name`, and `fromName`, `toName` are the two names in the buffer of `rename` and of `cp`. -/
structure Args1 where
  mode : List Char := []
  name : List Char := []
  fromName : List Char := []
  toName : List Char := []
  fd : Int32 := 0
  count : UInt32 := 0
  buffer : List UInt8 := []
  offset : Int32 := 0
  whence : UInt32 := 0
  len : UInt32 := 0
  accessMode : Int32 := 0
  curPos : UInt32 := 0
  fileLen : UInt32 := 0
  secStorage : UInt32 := 0
  data : UInt32 := 0
  deriving DecidableEq

structure SecStorageType where
  cmd : FsCmdType
  ret : Int32 := 0
  ret2 : Int32 := 0
  userId : UInt32 := 0
  storageId : UInt32 := 0
  error : UInt32 := 0
  args : Args1 := {}
  deriving DecidableEq

/-- A stream, by its address, and the file number the library gave it. -/
structure Stream where
  file : UInt64
  fileno : Int32
  deriving DecidableEq

/-- A node of the opened-file list. The links are the order of the list in `FsState`. -/
structure OpenedFile where
  file : UInt64
  deriving DecidableEq

structure FsState where
  userId : UInt32 := 0
  storageId : UInt32 := 0
  openedFiles : List OpenedFile := []
  /-- The streams that were opened and not yet closed. -/
  streams : List Stream := []
  deriving DecidableEq

/-- What the library calls of a request return. `errno` is its value after the last of them. -/
structure Calls where
  overread : Option (List Char) := none
  stat : Bool := true
  createDir : Bool := true
  realpath : Option (List Char) := none
  fopen : Option Stream := none
  malloc : Bool := true
  fclose : Int32 := 0
  fread : List UInt8 := []
  feof : Bool := true
  fwrite : UInt32 := 0
  fflush : Int32 := 0
  fseek : Int32 := 0
  ftell : UInt32 := 0
  fstat : Int32 := 0
  stSize : UInt32 := 0
  fsync : Int32 := 0
  /-- The call on paths: `UnlinkRecursive`, `truncate`, `rename`, `CopyFile` or `access`. -/
  pathCall : Int32 := 0
  /-- Free space of the two file systems, in KiB, where `statfs` succeeds. -/
  statfsData : Option UInt32 := none
  statfsStorage : Option UInt32 := none
  errno : UInt32 := 0

def ePerm : UInt32 := 1
def eNoEnt : UInt32 := 2
def eBadF : UInt32 := 9
def eNoMem : UInt32 := 12
def eAcces : UInt32 := 13
def eNFile : UInt32 := 23
def pathMax : Nat := 4096
def secWriteSsa : Int32 := 1

/-! ### Streams and the opened-file list -/

/-- `fopen`: the new stream shares neither address nor file number with an open one. -/
def fopen (s : FsState) (stream : Stream) : Option FsState :=
  if stream.file ≠ 0 ∧ ∀ t ∈ s.streams, t.file ≠ stream.file ∧ t.fileno ≠ stream.fileno then
    some { s with streams := stream :: s.streams }
  else none

def fclose (s : FsState) (file : UInt64) : FsState :=
  { s with streams := s.streams.filter fun t => t.file ≠ file }

/-- `fileno`, which is defined for an open stream only. -/
def fileno (streams : List Stream) (file : UInt64) : Option Int32 :=
  (streams.find? fun t => t.file = file).map Stream.fileno

/-- `AddOpenFile`, which adds to the tail. -/
def addOpenFile (malloc : Bool) (s : FsState) (file : UInt64) : Int32 × FsState :=
  if !malloc then (-1, s) else (0, { s with openedFiles := s.openedFiles ++ [⟨file⟩] })

/-- `DelOpenFile` of the node at a position of the list. -/
def delOpenFile (s : FsState) (i : Nat) : FsState :=
  { s with openedFiles := s.openedFiles.eraseIdx i }

inductive FindResult where
  | found (i : Nat) (file : UInt64)
  | notFound
  | closedStream
  deriving DecidableEq

/-- The loop of `FindOpenFile` from position `i` on. -/
def findLoop (streams : List Stream) (fd : Int32) : List OpenedFile → Nat → FindResult
  | [], _ => .notFound
  | p :: ps, i =>
      if p.file = 0 then findLoop streams fd ps (i + 1)
      else
        match fileno streams p.file with
        | none => .closedStream
        | some n => if n = fd then .found i p.file else findLoop streams fd ps (i + 1)

def findOpenFile (s : FsState) (fd : Int32) : FindResult := findLoop s.streams fd s.openedFiles 0

/-! ### Paths -/

section Work

variable (lib : Securec)

def isDataDir (path : List Char) (isUsers : Bool) : Bool :=
  match (getTransientDir lib fileNameMaxBuf).bind fun dir =>
      if isUsers then
        lib.strncatS dir fileNameMaxBuf sfsPartitionUserSymlink sfsPartitionUserSymlink.length
      else lib.strncatS dir fileNameMaxBuf sfsPartitionTransient sfsPartitionTransient.length with
  | none => false
  | some secDataDir => strstr path secDataDir = some 0

def isRootDir (path : List Char) : Bool :=
  match (getPersistentDir lib fileNameMaxBuf).bind fun dir =>
      lib.strncatS dir fileNameMaxBuf sfsPartitionPersistent sfsPartitionPersistent.length with
  | none => false
  | some secRootDir => strstr path secRootDir = some 0

def isValidFilePath (path : List Char) : Bool :=
  (strstr path "..".toList).isNone && (isDataDir lib path false || isDataDir lib path true ||
    isRootDir lib path || strstr path secStorageDataCe = some 0)

/-- `GetRealFilePath`: the trusted path, or the error. -/
def getRealFilePath (calls : Calls) (originPath : List Char) : Except UInt32 (List Char) :=
  match calls.realpath with
  | none =>
      if calls.errno ≠ eNoEnt ∧ calls.errno ≠ eAcces then .error calls.errno
      else if !isValidFilePath lib originPath then .error eNFile
      else
        match lib.strncpyS pathMax originPath originPath.length with
        | none => .error ePerm
        | some trustPath => .ok trustPath
  | some trustPath => if !isValidFilePath lib trustPath then .error eNFile else .ok trustPath

/-- `JoinFileName` into a buffer of `FILE_NAME_MAX_BUF` bytes. -/
def joined (calls : Calls) (s : FsState) (name : List Char) : Option (List Char) :=
  match joinFileName lib s.userId s.storageId name fileNameMaxBuf with
  | .failed => none
  | .joined path => some path
  | .overread => calls.overread

/-! ### Requests -/

/-- `SetCurrentUserId` and `SetCurrentStorageId`. -/
def setCurrent (s : FsState) (t : SecStorageType) : FsState :=
  { s with userId := t.userId, storageId := t.storageId }

/-- `DoOpenFile`: the error, the state and the answer. -/
def doOpenFile (calls : Calls) (path : List Char) (s : FsState) (t : SecStorageType) :
    Option (UInt32 × FsState × SecStorageType) :=
  match getRealFilePath lib calls path with
  | .error rRet => some (rRet, s, t)
  | .ok _ =>
      match calls.fopen with
      | none => some (calls.errno, s, t)
      | some stream => do
          let s ← fopen s stream
          let (ret, s) := addOpenFile calls.malloc s stream.file
          if ret ≠ 0 then some (eNoMem, fclose s stream.file, t)
          else some (0, s, { t with ret := stream.fileno })

def checkOpenWorkValid (calls : Calls) (t : SecStorageType) : Bool × SecStorageType :=
  if t.cmd = .secCreate then (true, { t with args := { t.args with mode := "w+".toList } })
  else (calls.stat, t)

def openWork (calls : Calls) (s : FsState) (t : SecStorageType) :
    Option (FsState × SecStorageType) :=
  let s := setCurrent s t
  match joined lib calls s t.args.name with
  | none => some (s, { t with ret := -1 })
  | some nameBuff =>
      let (valid, t) := checkOpenWorkValid calls t
      if !valid then some (s, { t with ret := -1, error := eNoEnt })
      else if !calls.createDir then some (s, { t with ret := -1, error := calls.errno })
      else do
        let (error, s, t) ← doOpenFile lib calls nameBuff s t
        if error ≠ 0 then some (s, { t with ret := -1, error := error }) else some (s, t)

def closeWork (calls : Calls) (s : FsState) (t : SecStorageType) :
    Option (FsState × SecStorageType) :=
  match findOpenFile s t.args.fd with
  | .found i file =>
      let s := fclose s file
      if calls.fclose = 0 then some (delOpenFile s i, { t with ret := calls.fclose })
      else some (s, { t with ret := calls.fclose, error := calls.errno })
  | .notFound => some (s, { t with ret := -1, error := eBadF })
  | .closedStream => none

/-- A request on an opened file: the answer when the file is found, and when it is not. -/
def onOpenedFile (s : FsState) (fd : Int32) (found notFound : SecStorageType) :
    Option (FsState × SecStorageType) :=
  match findOpenFile s fd with
  | .found _ _ => some (s, found)
  | .notFound => some (s, notFound)
  | .closedStream => none

def readWork (calls : Calls) (s : FsState) (t : SecStorageType) :
    Option (FsState × SecStorageType) :=
  let count := min calls.fread.length t.args.count.toNat
  let found := { t with
    ret := Int32.ofNat count, args := { t.args with buffer := calls.fread.take count } }
  onOpenedFile s t.args.fd
    (if count < t.args.count.toNat ∧ ¬ calls.feof then
      { found with ret2 := -1, error := calls.errno }
    else { found with ret2 := 0 })
    { t with ret := 0, ret2 := -1, error := eBadF }

def writeWork (calls : Calls) (s : FsState) (t : SecStorageType) :
    Option (FsState × SecStorageType) :=
  let count := min calls.fwrite t.args.count
  onOpenedFile s t.args.fd
    (if count < t.args.count then { t with ret := count.toInt32, error := calls.errno }
    else if t.ret2 = secWriteSsa then
      if calls.fflush ≠ 0 then { t with ret := 0, error := calls.errno }
      else { t with ret := count.toInt32 }
    else { t with ret := count.toInt32, error := 0 })
    { t with ret := 0, error := eBadF }

def seekWork (calls : Calls) (s : FsState) (t : SecStorageType) :
    Option (FsState × SecStorageType) :=
  onOpenedFile s t.args.fd
    (if calls.fseek ≠ 0 then { t with ret := calls.fseek, error := calls.errno }
    else { t with ret := calls.fseek })
    { t with ret := -1, error := eBadF }

/-- A request that makes one call on joined paths: `RemoveWork`, `TruncateWork`, `RenameWork`,
`CopyWork`. -/
def pathWork (calls : Calls) (names : List (List Char)) (s : FsState) (t : SecStorageType) :
    Option (FsState × SecStorageType) :=
  let s := setCurrent s t
  if names.all fun name => (joined lib calls s name).isSome then
    if calls.pathCall ≠ 0 then
      some (s, { t with ret := calls.pathCall, error := calls.errno })
    else some (s, { t with ret := calls.pathCall })
  else some (s, { t with ret := -1 })

def removeWork (calls : Calls) (s : FsState) (t : SecStorageType) :=
  pathWork lib calls [t.args.name] s t

def truncateWork (calls : Calls) (s : FsState) (t : SecStorageType) :=
  pathWork lib calls [t.args.name] s t

def renameWork (calls : Calls) (s : FsState) (t : SecStorageType) :=
  pathWork lib calls [t.args.fromName, t.args.toName] s t

def copyWork (calls : Calls) (s : FsState) (t : SecStorageType) :=
  pathWork lib calls [t.args.fromName, t.args.toName] s t

def fileInfoWork (calls : Calls) (s : FsState) (t : SecStorageType) :
    Option (FsState × SecStorageType) :=
  let t := { t with args := { t.args with fileLen := 0, curPos := 0 } }
  onOpenedFile s t.args.fd
    (if calls.fstat = 0 then
      { t with
        ret := calls.fstat
        args := { t.args with fileLen := calls.stSize, curPos := calls.ftell } }
    else { t with ret := calls.fstat, error := calls.errno })
    { t with ret := -1, error := eBadF }

def fileAccessWork (calls : Calls) (s : FsState) (t : SecStorageType) :
    Option (FsState × SecStorageType) :=
  if t.cmd = .secAccess then
    let s := setCurrent s t
    if (joined lib calls s t.args.name).isSome then
      some (s, { t with ret := calls.pathCall, error := calls.errno })
    else some (s, { t with ret := -1 })
  else some (s, { t with ret := calls.pathCall, error := calls.errno })

def fsyncWork (calls : Calls) (s : FsState) (t : SecStorageType) :
    Option (FsState × SecStorageType) :=
  if t.args.fd = 0 then some (s, { t with ret := -1, error := eBadF })
  else
    onOpenedFile s t.args.fd
      (if calls.fflush ≠ 0 ∨ calls.fsync ≠ 0 then { t with ret := -1, error := calls.errno }
      else { t with ret := 0 })
      { t with ret := -1, error := eBadF }

def diskUsageWork (calls : Calls) (s : FsState) (t : SecStorageType) :
    Option (FsState × SecStorageType) :=
  let usage := do
    let _ ← getTransientDir lib fileNameMaxBuf
    let dataRemain ← calls.statfsData
    let nameBuff ← getPersistentDir lib fileNameMaxBuf
    let _ ← lib.strncatS nameBuff fileNameMaxBuf sfsPartitionPersistent
      sfsPartitionPersistent.length
    let secStorageRemain ← calls.statfsStorage
    pure (dataRemain, secStorageRemain)
  match usage with
  | none => some (s, { t with ret := -1, error := calls.errno })
  | some (dataRemain, secStorageRemain) =>
      some (s, { t with
        ret := 0, args := { t.args with data := dataRemain, secStorage := secStorageRemain } })

def deleteAllWork (calls : Calls) (s : FsState) (t : SecStorageType) :
    Option (FsState × SecStorageType) :=
  let s := { s with userId := t.userId }
  match doJoinFileName lib t.args.name fileNameMaxBuf with
  | none => some (s, { t with ret := -1 })
  | some _ =>
      if calls.pathCall ≠ 0 then
        some (s, { t with ret := calls.pathCall, error := calls.errno })
      else some (s, { t with ret := calls.pathCall })

/-- One turn of the loop of `FsWorkThread`, through `g_fsWorkTbl`. -/
def fsWork (calls : Calls) (s : FsState) (t : SecStorageType) :
    Option (FsState × SecStorageType) :=
  match t.cmd with
  | .secOpen | .secCreate => openWork lib calls s t
  | .secClose => closeWork calls s t
  | .secRead => readWork calls s t
  | .secWrite => writeWork calls s t
  | .secSeek => seekWork calls s t
  | .secRemove => removeWork lib calls s t
  | .secTruncate => truncateWork lib calls s t
  | .secRename => renameWork lib calls s t
  | .secInfo => fileInfoWork calls s t
  | .secAccess | .secAccess2 => fileAccessWork lib calls s t
  | .secFsync => fsyncWork calls s t
  | .secCp => copyWork lib calls s t
  | .secDiskusage => diskUsageWork lib calls s t
  | .secDeleteAll => deleteAllWork lib calls s t
  | .other _ => some (s, t)

/-- A request as it stands in the shared block, and what its library calls return. -/
structure Request where
  transControl : SecStorageType
  calls : Calls

def fsStep (s : FsState) (r : Request) : Option FsState :=
  (fsWork lib r.calls s r.transControl).map Prod.fst

end Work

end ITrustee.Teecd
