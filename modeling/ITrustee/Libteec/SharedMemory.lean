import Mathlib.Tactic
import ITrustee.Foundation.Machine
import ITrustee.Libteec.Bitmap
import ITrustee.Libteec.Types

/-!
# Shared memory of a context

`TEEC_AllocateSharedMemory`, `TEEC_RegisterSharedMemory` and `TEEC_ReleaseSharedMemory` on one context
of a vendor client. A block of type input, output or inout is mapped from the driver at an offset that
a bit of the context's bitmap stands for; a zero-copy block comes from the heap, and a registered block
is the client's own memory.

What the system answers (`malloc`, `mmap`, `memset_s`, the locks, and whether the context is still in
the library's list) is an argument of the call. What `free` and `munmap` do is not visible in the
context and is left out.
-/

namespace ITrustee.Libteec

/-- `sizeof(context->shm_bitmap)`. -/
def numOfSharememBitmap : Nat := 8

def maxSharedmemLen : UInt32 := 0x10000000

def mapFailed : UInt64 := 0xffffffffffffffff

def zeroSizePtr : UInt64 := 16

/-- The address of memory obtained from the system. -/
abbrev Address := { a : UInt64 // a ≠ 0 ∧ a ≠ mapFailed }

/-- The local `isZeroCopyMem`, and the test of `ReleaseSharedMemory`. -/
def isZeroCopyMem (flags : UInt32) : Bool :=
  flags == teecMemSharedInout || flags == teecMemRegisterInout

inductive ShrMemType where
  | allocate
  | register

/-- `CheckSharedMemoryParam`; a context that was not found is a null pointer. -/
def checkSharedMemoryParam (contextFound : Bool) (sharedMem : SharedMemoryHidl) :
    ShrMemType → UInt32
  | shrMemType =>
      if !contextFound then teecErrorBadParameters
      else
        let condition := sharedMem.flags != teecMemInput && sharedMem.flags != teecMemOutput &&
          sharedMem.flags != teecMemInout && sharedMem.flags != teecMemSharedInout
        let condition :=
          match shrMemType with
          | .allocate => condition && sharedMem.flags != teecMemRegisterInout
          | .register => condition || sharedMem.buffer == 0
        if condition then teecErrorBadParameters else teecSuccess

def clearBitWithLock (locked : Bool) (i : UInt32) (context : ContextHidl) : ContextHidl :=
  if !locked then context
  else { context with shmBitmap := clearBit i.toNat numOfSharememBitmap context.shmBitmap }

def getAndSetBitWithLock (locked : Bool) (context : ContextHidl) : Int × ContextHidl :=
  if !locked then (-1, context)
  else
    let (validBit, shmBitmap) := getAndSetBit context.shmBitmap numOfSharememBitmap
    (validBit, { context with shmBitmap := shmBitmap })

/-! ### Release of a block -/

/-- `ReleaseSharedMemory` on a block taken off the list. -/
def releaseSharedMemory (clearLocked : Bool) (sharedMem : SharedMemoryHidl)
    (context : ContextHidl) : ContextHidl :=
  if !sharedMem.isAllocated || sharedMem.buffer == 0 then context
  else clearBitWithLock clearLocked sharedMem.offset context

def putBnShrMem (clearLocked : Bool) (shrMem : SharedMemoryHidl) (context : ContextHidl) :
    ContextHidl :=
  if shrMem.opsCnt - 1 = 0 then releaseSharedMemory clearLocked shrMem context else context

/-! ### TEEC_AllocateSharedMemory -/

/-- What the system answers during an allocation. -/
structure AllocateEnv where
  shmHidl : Bool
  contextFound : Bool
  bitMapLocked : Bool
  buffer : Option Address
  zeroed : Bool
  shrMemLocked : Bool
  clearLocked : Bool

/-- `AllocateSharedMem`, the heap memory of a zero-copy block. -/
def allocateSharedMem (env : AllocateEnv) (sharedMem : SharedMemoryHidl) :
    UInt32 × SharedMemoryHidl :=
  if sharedMem.size = 0 ∨ maxSharedmemLen < sharedMem.size then (teecErrorBadParameters, sharedMem)
  else
    match env.buffer with
    | none => (teecErrorOutOfMemory, { sharedMem with buffer := 0 })
    | some buffer =>
        let sharedMem := { sharedMem with buffer := buffer }
        if !env.zeroed then (teecErrorSecurity, sharedMem) else (teecSuccess, sharedMem)

/-- `TEEC_AllocateSharedMemoryHidl` once the buffer is there, with its error exit
`RelaseBufferAndClearBit`. -/
def insertSharedMem (env : AllocateEnv) (context : ContextHidl) (sharedMem : SharedMemoryHidl) :
    UInt32 × ContextHidl :=
  if sharedMem.buffer = mapFailed then
    (teecErrorOutOfMemory, clearBitWithLock env.clearLocked sharedMem.offset context)
  else
    let sharedMem :=
      { sharedMem with opsCnt := 1, isAllocated := true, context := context.addr }
    if !env.shrMemLocked then
      (teecErrorGeneric, clearBitWithLock env.clearLocked sharedMem.offset context)
    else
      let sharedMem := { sharedMem with opsCnt := sharedMem.opsCnt + 1 }
      (teecSuccess, { context with shrdMemList := context.shrdMemList ++ [sharedMem] })

/-- The buffer of a mapped block: what `mmap` returns, or `ZERO_SIZE_PTR` without a size. -/
def mappedBuffer (env : AllocateEnv) (size : UInt32) : UInt64 :=
  if size ≠ 0 then
    match env.buffer with
    | some buffer => buffer
    | none => mapFailed
  else zeroSizePtr

def allocateSharedMemoryHidl (env : AllocateEnv) (context : ContextHidl)
    (sharedMem : SharedMemoryHidl) : UInt32 × ContextHidl :=
  let ret := checkSharedMemoryParam env.contextFound sharedMem .allocate
  if ret ≠ teecSuccess then (ret, context)
  else
    let sharedMem := { sharedMem with buffer := 0 }
    if isZeroCopyMem sharedMem.flags then
      let (ret, sharedMem) := allocateSharedMem env sharedMem
      if ret ≠ teecSuccess then (ret, context) else insertSharedMem env context sharedMem
    else
      let (validBit, context) := getAndSetBitWithLock env.bitMapLocked context
      if validBit < 0 then (teecErrorBadParameters, context)
      else
        let sharedMem : SharedMemoryHidl :=
          { sharedMem with offset := UInt32.ofInt validBit }
        insertSharedMem env context { sharedMem with buffer := mappedBuffer env sharedMem.size }

/-- `PutBnShrMem` on the block just inserted, which both the list and the caller count. -/
def putInserted (context : ContextHidl) : ContextHidl :=
  match context.shrdMemList.getLast? with
  | none => context
  | some shmHidl =>
      { context with
        shrdMemList :=
          context.shrdMemList.dropLast ++ [{ shmHidl with opsCnt := shmHidl.opsCnt - 1 }] }

/-- `TEEC_AllocateSharedMemory`; `none` is a null `sharedMem`. -/
def teecAllocateSharedMemory (env : AllocateEnv) (context : ContextHidl)
    (sharedMem : Option SharedMemory) : UInt32 × ContextHidl :=
  match sharedMem with
  | none => (teecErrorBadParameters, context)
  | some sharedMem =>
      if !env.shmHidl then (teecFail, context)
      else
        let shmHidl : SharedMemoryHidl := { size := sharedMem.size, flags := sharedMem.flags }
        let (ret, context) := allocateSharedMemoryHidl env context shmHidl
        if ret = teecSuccess then (ret, putInserted context) else (ret, context)

/-! ### TEEC_RegisterSharedMemory -/

/-- What the system answers during a registration. -/
structure RegisterEnv where
  shmHidl : Bool
  contextFound : Bool
  shrMemLocked : Bool

def registerSharedMemoryHidl (env : RegisterEnv) (context : ContextHidl)
    (sharedMem : SharedMemoryHidl) : UInt32 × ContextHidl :=
  let ret := checkSharedMemoryParam env.contextFound sharedMem .register
  if ret ≠ teecSuccess then (ret, context)
  else
    let sharedMem :=
      { sharedMem with
        opsCnt := 1, isAllocated := false, offset := 0xffffffff, context := context.addr }
    if !env.shrMemLocked then (teecErrorGeneric, context)
    else
      let sharedMem := { sharedMem with opsCnt := sharedMem.opsCnt + 1 }
      (teecSuccess, { context with shrdMemList := context.shrdMemList ++ [sharedMem] })

def teecRegisterSharedMemory (env : RegisterEnv) (context : ContextHidl)
    (sharedMem : Option SharedMemory) : UInt32 × ContextHidl :=
  match sharedMem with
  | none => (teecErrorBadParameters, context)
  | some sharedMem =>
      if !env.shmHidl then (teecFail, context)
      else
        let shmHidl : SharedMemoryHidl :=
          { buffer := sharedMem.buffer, size := sharedMem.size, flags := sharedMem.flags }
        let (ret, context) := registerSharedMemoryHidl env context shmHidl
        if ret = teecSuccess then (ret, putInserted context) else (ret, context)

/-! ### TEEC_ReleaseSharedMemory -/

/-- What the system answers during a release. -/
structure ReleaseEnv where
  contextFound : Bool
  shrMemLocked : Bool
  clearLocked : Bool

/-- The test of the search in `TEEC_FindAndRemoveShrMemHidl`. -/
def isSearchedFor (context : ContextHidl) (shm tempSharedMem : SharedMemoryHidl) : Bool :=
  if context.callFromHidl && shm.isAllocated then
    tempSharedMem.offset == shm.offset && tempSharedMem.context == shm.context
  else tempSharedMem.buffer == shm.buffer && tempSharedMem.context == shm.context

/-- The loop of `TEEC_FindAndRemoveShrMemHidl`: the first block found, and the list without it. -/
def findAndRemoveLoop (p : SharedMemoryHidl → Bool) :
    List SharedMemoryHidl → Option (SharedMemoryHidl × List SharedMemoryHidl)
  | [] => none
  | tempSharedMem :: rest =>
      if p tempSharedMem then some (tempSharedMem, rest)
      else
        match findAndRemoveLoop p rest with
        | none => none
        | some (found, rest) => some (found, tempSharedMem :: rest)

def findAndRemoveShrMemHidl (locked : Bool) (shm : SharedMemoryHidl) (context : ContextHidl) :
    Option (SharedMemoryHidl × ContextHidl) :=
  if !locked then none
  else
    match findAndRemoveLoop (isSearchedFor context shm) context.shrdMemList with
    | none => none
    | some (found, rest) => some (found, { context with shrdMemList := rest })

/-- `TEEC_ReleaseSharedMemoryHidl`; a context that was not found is a null pointer. -/
def releaseSharedMemoryHidl (env : ReleaseEnv) (context : ContextHidl)
    (sharedMem : SharedMemoryHidl) : ContextHidl :=
  if !env.contextFound then context
  else
    match findAndRemoveShrMemHidl env.shrMemLocked sharedMem context with
    | none => context
    | some (shm, context) => putBnShrMem env.clearLocked shm context

/-- The library's record that a release looks for. -/
def releaseShmHidl (context : ContextHidl) (sharedMem : SharedMemory) : SharedMemoryHidl where
  buffer := sharedMem.buffer
  size := sharedMem.size
  flags := sharedMem.flags
  isAllocated := sharedMem.isAllocated
  context := context.addr

/-- `TEEC_ReleaseSharedMemory`; `none` is a null `sharedMem` or one without a context. -/
def teecReleaseSharedMemory (env : ReleaseEnv) (context : ContextHidl)
    (sharedMem : Option SharedMemory) : ContextHidl :=
  match sharedMem with
  | none => context
  | some sharedMem => releaseSharedMemoryHidl env context (releaseShmHidl context sharedMem)

/-! ### Runs -/

/-- The context `TEEC_InitializeContext` leaves. -/
def initializedContext (addr : UInt64) : ContextHidl where
  addr := addr
  shrdMemList := []
  shmBitmap := List.replicate numOfSharememBitmap 0
  callFromHidl := false

inductive Call where
  | allocate (sharedMem : Option SharedMemory) (env : AllocateEnv)
  | register (sharedMem : Option SharedMemory) (env : RegisterEnv)
  | release (sharedMem : Option SharedMemory) (env : ReleaseEnv)

/-- The context after a call. -/
def Call.run (context : ContextHidl) : Call → ContextHidl
  | allocate sharedMem env => (teecAllocateSharedMemory env context sharedMem).2
  | register sharedMem env => (teecRegisterSharedMemory env context sharedMem).2
  | release sharedMem env => teecReleaseSharedMemory env context sharedMem

def shmStep (context : ContextHidl) (call : Call) : Option ContextHidl := some (call.run context)

end ITrustee.Libteec
