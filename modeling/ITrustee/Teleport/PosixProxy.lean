import Mathlib.Tactic
import ITrustee.Foundation.Holdings
import ITrustee.Foundation.Machine
import ITrustee.Teleport.FdList

/-!
# The posix proxy

The life of the proxy in `posix_proxy.c`: what `PosixProxyInit` builds, what the requests of the
secure world on the control tasklet change, and what `PosixProxyDestroy` takes apart. The control
tasklet has one thread and `FreeCtrlTasklet` joins it before anything else is freed, so the requests
come one after the other and none runs beside the destruction.

The program runs in a world of `Holdings`: memory, semaphores, threads, descriptors, package lists
and executors are resources, and every call may fail. An executor (`XtaskletCreate`,
`XtaskletDestroy`) and a package list (`FdListInit`, `FdListDestroy`) are one resource each, of which
only what the control thread sees is told here: a list whose destruction fails is left behind, and the
creation of an executor with several threads may never return, as `Xtasklet.CreationFailure` shows. What
the workers of an executor and the thread that drops old packages do is not part of this, and they end
when they are joined: `FreeDataTasklet` destroys the list before it joins the workers, and what becomes
of a handler that still uses it then is told in `Xtasklet.TaskletLifetime`.
-/

namespace ITrustee.Teleport.Proxy

open Holdings

def eNoMem : Int := 12
def eFault : Int := 14

inductive Kind where
  | memory | descriptor | semaphore | thread | executor | fdList
  deriving DecidableEq

abbrev Handle := Resource Kind

/-! ### Data -/

inductive ShmType where
  | ctrlTaskletBuff | dataTaskletBuff
  deriving DecidableEq

structure PosixProxyIoctlArgs where
  shmType : ShmType
  bufferSize : UInt32
  buffer : Handle
  deriving DecidableEq

/-- A `sem_t` on the heap: its memory, and the semaphore that `sem_init` made of it. -/
structure Sem where
  block : Handle
  sem : Handle
  deriving DecidableEq

structure CtrlTasklet where
  block : Handle
  tl : Handle
  shmBuff : Handle
  shmSz : UInt32
  destroySem : Option Sem := none
  deriving DecidableEq

structure DataTasklet where
  block : Handle
  tl : Handle
  /-- `tl->priv`. -/
  priv : Handle
  shmBuff : Handle
  shmSz : UInt32
  fdListTimeoutT : Handle
  fdListTimeoutTExitSem : Sem
  deriving DecidableEq

structure PosixProxy where
  block : Handle
  ctrlTasklet : CtrlTasklet
  dataTasklet : Option DataTasklet := none
  devFd : Handle
  deriving DecidableEq

structure Globals where
  gPosixProxy : Option PosixProxy := none
  gReePosixProxyDevFD : Option Handle := none
  gDataTaskletThreadConcurrency : UInt32 := 8
  gDataTaskletBufferAlignSz : UInt32 := 64 * 1024
  /-- What the driver was told, the first call first. -/
  registered : List PosixProxyIoctlArgs := []
  /-- The package lists whose destruction failed, to which nothing refers any more. -/
  undestroyed : List Handle := []
  deriving DecidableEq

abbrev M := Prog Kind Globals

abbrev WaitM := WaitProg Kind Globals

/-! ### Options -/

/-- `ALIGN_UP`. -/
def alignUp (x align : UInt64) : UInt64 := (x + (align - 1)) &&& ~~~(align - 1)

def setDataTaskletThreadConcurrency (concurrency : Int) : M Unit := do
  let g ← globals
  if 1 ≤ concurrency ∧ concurrency ≤ 64 then
    setGlobals { g with gDataTaskletThreadConcurrency := UInt32.ofInt concurrency }
  else pure ()

def setDataTaskletBufferSize (size : Int) : M Unit := do
  let g ← globals
  if size < 16 ∨ size > 256 * 1024 then pure ()
  else
    let pageSize ← reply
    if pageSize ≤ 0 then pure ()
    else
      setGlobals { g with
        gDataTaskletBufferAlignSz :=
          (alignUp (UInt64.ofInt (size * 1024)) (UInt64.ofInt pageSize)).toUInt32 }

/-! ### Lists and executors -/

def fdListDestroy (fdList : Handle) : M Unit := do
  use fdList
  let ret ← reply
  if ret ≠ 0 then
    let g ← globals
    setGlobals { g with undestroyed := g.undestroyed ++ [fdList] }
  else release fdList

/-- With one thread. -/
def xtaskletCreate : M (Except Int Handle) := attempt .executor

/-- When a later thread cannot be started, the ones that have been wait for tasks and are waited for. -/
def xtaskletCreateConcurrent (concurrency : UInt32) : WaitM (Except Int Handle) := do
  let waits ← .of reply
  if waits ≠ 0 ∧ 1 < concurrency then waitForever
  else .of xtaskletCreate

/-! ### The control tasklet -/

def posixProxySetDevFD (devFD : Option Handle) : M Unit := do
  let g ← globals
  setGlobals { g with gReePosixProxyDevFD := devFD }

def posixProxyInitDev : M (Except Int Handle) := do
  match ← attempt .descriptor with
  | .error _ => pure (.error (-eFault))
  | .ok devFd =>
      posixProxySetDevFD (some devFd)
      pure (.ok devFd)

def posixProxyExitDev (devFd : Handle) : M Unit := do
  release devFd
  posixProxySetDevFD none

/-- `PosixProxyRegisterTaskletRequest`: an `ioctl` on the device that hands over the buffer. -/
def posixProxyRegisterTaskletRequest (devFd : Handle) (args : PosixProxyIoctlArgs) : M Int := do
  use devFd
  use args.buffer
  let ret ← reply
  if ret ≠ 0 then pure ret
  else
    let g ← globals
    setGlobals { g with registered := g.registered ++ [args] }
    pure 0

def getTaskletBuffer (sz : UInt64) : M (Except Int (Handle × UInt32)) := do
  let pageSize ← reply
  if pageSize ≤ 0 then pure (.error (-eFault))
  else
    match ← attempt .memory with
    | .error _ => pure (.error (-eNoMem))
    | .ok buffer => pure (.ok (buffer, (alignUp sz (UInt64.ofInt pageSize)).toUInt32))

/-- `sem_destroy` and `free`. -/
def destroySem (s : Sem) : M Unit := do
  release s.sem
  release s.block

def creatCtrlTasklet (shm : Handle) (shmSz : UInt32) : M (Except Int CtrlTasklet) := do
  match ← xtaskletCreate with
  | .error ret => pure (.error ret)
  | .ok ctrlExecutor =>
      match ← attempt .memory with
      | .error _ =>
          release ctrlExecutor
          pure (.error (-eNoMem))
      | .ok block => pure (.ok { block, tl := ctrlExecutor, shmBuff := shm, shmSz })

def freeDestroySem : Option Sem → M Unit
  | none => pure ()
  | some s => destroySem s

def freeCtrlTasklet (ctrlTasklet : CtrlTasklet) : M Unit := do
  use ctrlTasklet.block
  release ctrlTasklet.tl
  release ctrlTasklet.shmBuff
  freeDestroySem ctrlTasklet.destroySem
  release ctrlTasklet.block

/-- In the child that `clone` started, the proxy of the parent: its device is closed and the
structure is freed, the tasklets in it are left. -/
def dropInherited : M Unit := do
  let g ← globals
  match g.gPosixProxy with
  | none => pure ()
  | some proxy =>
      use proxy.block
      release proxy.devFd
      release proxy.block
      setGlobals { g with gPosixProxy := none }

def ctrlTaskletBuffSizeKb : UInt64 := 4 * 1024

def posixProxyCreatCtrlTasklet (devFd : Handle) (ctrlTaskletDestroySem : Sem) : M Int := do
  dropInherited
  match ← getTaskletBuffer ctrlTaskletBuffSizeKb with
  | .error ret => pure ret
  | .ok (buffer, bufferSize) =>
      let ret ← reply -- madvise
      if ret ≠ 0 then
        release buffer
        pure ret
      else
        match ← creatCtrlTasklet buffer bufferSize with
        | .error ret =>
            release buffer
            pure ret
        | .ok ctrlTasklet =>
            let ret ← posixProxyRegisterTaskletRequest devFd
              { shmType := .ctrlTaskletBuff, bufferSize, buffer }
            if ret ≠ 0 then
              freeCtrlTasklet ctrlTasklet
              pure ret
            else
              match ← attempt .memory with
              | .error _ =>
                  freeCtrlTasklet ctrlTasklet
                  pure (-eNoMem)
              | .ok block =>
                  let g ← globals
                  setGlobals { g with
                    gPosixProxy := some {
                      block, devFd
                      ctrlTasklet := { ctrlTasklet with
                        destroySem := some ctrlTaskletDestroySem } } }
                  pure 0

def posixProxyInit : M Int := do
  match ← posixProxyInitDev with
  | .error ret => pure ret
  | .ok devFd =>
      match ← attempt .memory with
      | .error _ =>
          posixProxyExitDev devFd
          pure (-eNoMem)
      | .ok block =>
          match ← attempt .semaphore with
          | .error ret =>
              release block
              posixProxyExitDev devFd
              pure ret
          | .ok sem =>
              let ret ← posixProxyCreatCtrlTasklet devFd { block, sem }
              if ret ≠ 0 then
                destroySem { block, sem }
                posixProxyExitDev devFd
                pure ret
              else pure ret

/-! ### The data tasklet -/

/-- `FdListTimeoutThreadDestroy`: the thread is told to stop and joined. -/
def fdListTimeoutThreadDestroy (dataTasklet : DataTasklet) : M Unit := do
  use dataTasklet.fdListTimeoutTExitSem.sem
  release dataTasklet.fdListTimeoutT
  destroySem dataTasklet.fdListTimeoutTExitSem

def fdListTimeoutThreadCreat : M (Except Int (Handle × Sem)) := do
  match ← attempt .memory with
  | .error _ => pure (.error (-eNoMem))
  | .ok block =>
      match ← attempt .semaphore with
      | .error ret =>
          release block
          pure (.error ret)
      | .ok sem =>
          match ← attempt .thread with
          | .error ret =>
              destroySem { block, sem }
              pure (.error ret)
          | .ok fdListTimeoutT => pure (.ok (fdListTimeoutT, { block, sem }))

def creatDataTasklet (shm : Handle) (shmSz : UInt32) : WaitM (Except Int DataTasklet) := do
  match ← .of (attempt .fdList) with
  | .error ret => pure (.error ret)
  | .ok fdList =>
      let g ← .of globals
      match ← xtaskletCreateConcurrent g.gDataTaskletThreadConcurrency with
      | .error ret =>
          .of (fdListDestroy fdList)
          pure (.error ret)
      | .ok dataExecutor =>
          match ← .of (attempt .memory) with
          | .error _ =>
              .of (release dataExecutor)
              .of (fdListDestroy fdList)
              pure (.error (-eNoMem))
          | .ok block =>
              match ← .of fdListTimeoutThreadCreat with
              | .error ret =>
                  .of (release block)
                  .of (release dataExecutor)
                  .of (fdListDestroy fdList)
                  pure (.error ret)
              | .ok (fdListTimeoutT, fdListTimeoutTExitSem) =>
                  pure (.ok {
                    block, fdListTimeoutT, fdListTimeoutTExitSem, shmSz
                    tl := dataExecutor, priv := fdList, shmBuff := shm })

def freeDataTasklet : Option DataTasklet → M Unit
  | none => pure ()
  | some dataTasklet => do
      use dataTasklet.block
      fdListTimeoutThreadDestroy dataTasklet
      fdListDestroy dataTasklet.priv
      release dataTasklet.tl
      release dataTasklet.shmBuff
      release dataTasklet.block

/-- `g_posix_proxy->dataTasklet = dataTasklet`. -/
def setDataTasklet (proxy : PosixProxy) (dataTasklet : Option DataTasklet) : M Unit := do
  use proxy.block
  let g ← globals
  setGlobals { g with gPosixProxy := some { proxy with dataTasklet } }

def posixProxyRegisterDataTasklet : WaitM Int := do
  let g ← .of globals
  match g.gPosixProxy with
  | none => pure (-eFault)
  | some proxy =>
      .of (use proxy.block)
      .of (freeDataTasklet proxy.dataTasklet)
      .of (setDataTasklet proxy none)
      match ← .of (getTaskletBuffer g.gDataTaskletBufferAlignSz.toUInt64) with
      | .error ret => pure ret
      | .ok (buffer, bufferSize) =>
          let ret ← .of reply -- madvise
          if ret ≠ 0 then
            .of (release buffer)
            pure ret
          else
            match ← creatDataTasklet buffer bufferSize with
            | .error ret =>
                .of (release buffer)
                pure ret
            | .ok dataTasklet =>
                let ret ← .of (posixProxyRegisterTaskletRequest proxy.devFd
                  { shmType := .dataTaskletBuff, bufferSize, buffer })
                if ret ≠ 0 then
                  .of (freeDataTasklet (some dataTasklet))
                  pure ret
                else
                  .of (setDataTasklet proxy (some dataTasklet))
                  pure 0

/-- `sem_post(g_posix_proxy->ctrlTasklet->destroySem)`. -/
def postDestroySem (ctrlTasklet : CtrlTasklet) : M Unit := do
  use ctrlTasklet.block
  match ctrlTasklet.destroySem with
  | none => fun _ => none -- a null pointer
  | some s => use s.sem

def posixProxyUnregisterAllTasklet : M Int := do
  let g ← globals
  match g.gPosixProxy with
  | none => pure (-eFault)
  | some proxy =>
      use proxy.block
      freeDataTasklet proxy.dataTasklet
      setDataTasklet proxy none
      postDestroySem proxy.ctrlTasklet
      pure 0

def posixProxyDestroy : M Unit := do
  let g ← globals
  match g.gPosixProxy with
  | none => pure ()
  | some proxy =>
      use proxy.block
      freeCtrlTasklet proxy.ctrlTasklet
      freeDataTasklet proxy.dataTasklet
      posixProxyExitDev proxy.devFd
      release proxy.block
      let g ← globals
      setGlobals { g with gPosixProxy := none }

/-! ### Requests -/

/-- The calls that reach a running proxy. A new control tasklet is made in a child process. -/
inductive PosixCtrlCall where
  | regeisterDataTasklet | unregeisterAllTasklet
  | other (type : UInt32)
  deriving DecidableEq

def posixCtrlTaskletCallHandler : PosixCtrlCall → WaitM Int
  | .regeisterDataTasklet => posixProxyRegisterDataTasklet
  | .unregeisterAllTasklet => .of posixProxyUnregisterAllTasklet
  | .other _ => pure 1

/-- The control thread is ready for a request, or is in one that never ends. -/
inductive Control where
  | ready (w : World Kind Globals)
  | waiting (w : World Kind Globals)

/-- The control tasklet serves one request. -/
def serve (w : World Kind Globals) (call : PosixCtrlCall) : Option Control :=
  ((posixCtrlTaskletCallHandler call).run w).map fun (ret, w) =>
    match ret with
    | none => .waiting w
    | some _ => .ready w

/-- A request comes; none is taken any more once the thread waits. -/
def request : Control → PosixCtrlCall → Option Control
  | .ready w, call => serve w call
  | .waiting w, _ => some (.waiting w)

end ITrustee.Teleport.Proxy
