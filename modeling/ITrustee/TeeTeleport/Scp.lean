import Mathlib.Tactic
import ITrustee.Foundation.Securec
import ITrustee.TeeTeleport.ParseParam

/-!
# Block-wise file transfer

`CopyFile` and `CopyFileFromTEE` of `scp.c`: a file goes to the TEE, or comes from it, in blocks through
the memory of the portal, whose head is followed by the data of one block. `TriggerPortal` hands the portal
over, and the TEE may leave anything in it. The calls of a transfer are given by what they return.
-/

namespace ITrustee.TeeTeleport

def eNoMem : Int32 := 12

def eAcces : Int32 := 13

def filenameMax : Nat := 4096

inductive PortalCmd where
  | input | output | get
  deriving DecidableEq

structure Transport where
  fileSize : UInt64
  blks : UInt64
  bs : UInt32
  nbr : UInt64
  basename : List UInt8
  dstPath : List UInt8
  srcDataSize : UInt32
  deriving DecidableEq

structure Portal where
  type : PortalCmd
  ret : Int32
  reeUID : UInt32
  sessionID : UInt32
  transport : Transport
  /-- What follows the head. -/
  data : List UInt8
  deriving DecidableEq

/-- The bytes of the block in the portal. -/
def Portal.block (scp : Portal) : List UInt8 := scp.data.take scp.transport.srcDataSize.toNat

/-- The size of block `i`, as both directions compute it. -/
def blockSize (fileSize blks : UInt64) (bs : UInt32) (i : UInt64) : UInt32 :=
  if i < blks - 1 then bs else (fileSize - i * bs.toUInt64).toUInt32

section Model

variable (lib : Securec)
  /- What `memset_s` leaves of the portal when its head is cleared. -/
  (clearHead : Portal → Portal)
  (sizeofHead : UInt32)

/-! ### To the TEE -/

structure PushCalls where
  /-- The size of the file. -/
  lstat : Option UInt64
  malloc : Bool
  /-- The content of the file. -/
  fopen : Option (List UInt8)
  /-- How much a read returns of the bytes that there are. -/
  fread : Nat → Nat → Nat
  trigger : Nat → Portal → Int32 × Portal
  getuid : UInt32

/-- The loop of `CopyFileByBlk` from block `i` on, with `left` of the file not read yet. The portals handed
over come with the result. -/
def pushBlocks (calls : PushCalls) (fileSize blks : UInt64) (bs : UInt32) :
    Nat → UInt64 → List UInt8 → Portal → Int32 → Int32 × List Portal
  | 0, _, _, _, ret => (ret, [])
  | turns + 1, i, left, scp, ret =>
      let expectedReadSize := blockSize fileSize blks bs i
      let there := min expectedReadSize.toNat left.length
      let readSize := UInt32.ofNat (min (calls.fread i.toNat there) there)
      if readSize ≠ expectedReadSize then (ret, [])
      else
        -- behind what was read `content` is zero
        let copied := lib.memcpyS scp.data bs.toNat (left.take readSize.toNat) readSize.toNat
        if copied.1 ≠ 0 then (ret, [])
        else
          let scp := { scp with
            data := copied.2
            transport := { scp.transport with nbr := i, srcDataSize := readSize } }
          let answer := calls.trigger i.toNat scp
          if answer.1 ≠ 0 then (answer.1, [scp])
          else if answer.2.ret ≠ 0 then (answer.2.ret, [scp])
          else
            let rest := pushBlocks calls fileSize blks bs turns (i + 1) (left.drop readSize.toNat) answer.2
              answer.2.ret
            (rest.1, scp :: rest.2)

def copyFileByBlk (calls : PushCalls) (scp : Portal) : Int32 × List Portal :=
  match calls.fopen with
  | none => (-eAcces, [])
  | some file =>
      pushBlocks lib calls scp.transport.fileSize scp.transport.blks scp.transport.bs
        scp.transport.blks.toNat 0 file scp (-eFault)

def setCopyFileArgs (scp : Portal) (filename dstPath : List UInt8) : Option Portal :=
  let basename := lib.memcpyS (List.replicate filenameMax 0) filenameMax filename filename.length
  if basename.1 ≠ 0 then none
  else
    let dst := lib.memcpyS (List.replicate pathMax 0) pathMax dstPath dstPath.length
    if dst.1 ≠ 0 then none
    else some { scp with transport := { scp.transport with basename := basename.2, dstPath := dst.2 } }

def copyFile (calls : PushCalls) (filename dstPath : List UInt8) (portal : Portal)
    (portalSize : UInt32) : Int32 × List Portal :=
  match calls.lstat with
  | none => (-eFault, [])
  | some fileSize =>
      let bs := portalSize - sizeofHead
      let blks := fileSize / bs.toUInt64
      if calls.malloc = false then (-eNoMem, [])
      else
        let blks := if fileSize % bs.toUInt64 ≠ 0 then blks + 1 else blks
        let scp := clearHead portal
        let scp := { scp with
          type := .input
          reeUID := calls.getuid
          sessionID := portal.sessionID
          transport := { scp.transport with fileSize := fileSize, blks := blks, bs := bs } }
        match setCopyFileArgs lib scp filename dstPath with
        | none => (-eFault, [])
        | some scp =>
            let copied := copyFileByBlk lib calls scp
            if copied.1 ≠ 0 then (-eFault, copied.2) else (0, copied.2)

/-! ### From the TEE -/

structure PullCalls where
  /-- The first call asks for the file, and the others for its blocks. -/
  trigger : Nat → Portal → Int32 × Portal
  malloc : Bool
  /-- What `realpath` finds at the destination. -/
  existing : Option (List UInt8)
  strdup : Bool
  mkdirIteration : Int32
  openFile : Bool
  /-- What a write of so many bytes returns. -/
  write : Nat → Nat → Int
  getuid : UInt32

structure PullState where
  scp : Portal
  written : List UInt8
  /-- The blocks that the TEE sent. -/
  received : List (List UInt8)

/-- The loop of `CopyFileFromTEEByBlk` from block `i` on. -/
def pullBlocks (calls : PullCalls) (fileSize blks : UInt64) (bs : UInt32) :
    Nat → UInt64 → PullState → Int32 → Int32 × PullState
  | 0, _, s, ret => (ret, s)
  | turns + 1, i, s, _ =>
      let expectedWriteSize := blockSize fileSize blks bs i
      let request := { s.scp with
        type := .get
        transport := { s.scp.transport with srcDataSize := expectedWriteSize } }
      let answer := calls.trigger (i.toNat + 1) request
      if answer.1 ≠ 0 then (answer.1, { s with scp := answer.2 })
      else
        let s := { s with
          scp := answer.2
          received := s.received ++ [answer.2.data.take expectedWriteSize.toNat] }
        -- `memset_s` refuses the sizes that `memcpy_s` refuses
        let content := lib.memcpyS (List.replicate bs.toNat 0) bs.toNat answer.2.data
          expectedWriteSize.toNat
        if content.1 ≠ 0 then (-eFault, s)
        else
          let writtenSize := calls.write i.toNat expectedWriteSize.toNat
          let s := { s with
            written := s.written ++ (content.2.take expectedWriteSize.toNat).take writtenSize.toNat }
          if writtenSize ≠ expectedWriteSize.toNat then (-eFault, s)
          else
            let transport := { s.scp.transport with nbr := s.scp.transport.nbr + 1 }
            pullBlocks calls fileSize blks bs turns (i + 1)
              { s with scp := { s.scp with transport := transport } } answer.1

/-- `CopyFileFromTEEByBlk`; its `ret` is whatever the stack holds until a portal call sets it. -/
def copyFileFromTEEByBlk (calls : PullCalls) (stack : Int32) (scp : Portal) (bs : UInt32) :
    Int32 × PullState :=
  if calls.openFile = false then (-eAcces, ⟨scp, [], []⟩)
  else
    pullBlocks lib calls scp.transport.fileSize scp.transport.blks bs scp.transport.blks.toNat 0
      ⟨scp, [], []⟩ stack

def setDstPath (calls : PullCalls) : Int32 :=
  if calls.existing.isSome then -eFault
  else if calls.strdup = false then -1
  else if calls.mkdirIteration ≠ 0 then -eFault
  else 0

structure Pulled where
  ret : Int32
  file : Option (List UInt8)
  received : List (List UInt8)
  deriving DecidableEq

/-- The request for the file. -/
def pullRequest (calls : PullCalls) (portal : Portal) : Portal :=
  { clearHead portal with
    type := .output
    reeUID := calls.getuid
    sessionID := portal.sessionID }

def copyFileFromTEE (calls : PullCalls) (stack : Int32) (portal : Portal) (portalSize : UInt32) :
    Pulled :=
  let bs := portalSize - sizeofHead
  let answer := calls.trigger 0 (pullRequest clearHead calls portal)
  if answer.1 ≠ 0 then ⟨answer.1, calls.existing, []⟩
  else if calls.malloc = false then ⟨-eNoMem, calls.existing, []⟩
  else if setDstPath calls ≠ 0 then ⟨-eFault, calls.existing, []⟩
  else
    let copied := copyFileFromTEEByBlk lib calls stack answer.2 bs
    -- the file is opened without O_TRUNC
    let file :=
      if calls.openFile then
        some (copied.2.written ++ (calls.existing.getD []).drop copied.2.written.length)
      else calls.existing
    if copied.1 ≠ 0 then ⟨-eFault, file, copied.2.received⟩
    else ⟨copied.2.scp.ret, file, copied.2.received⟩

end Model

end ITrustee.TeeTeleport
