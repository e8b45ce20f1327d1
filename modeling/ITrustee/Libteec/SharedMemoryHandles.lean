import Mathlib.Tactic
import ITrustee.Foundation.Labelled
import ITrustee.Libteec.SharedMemoryBitmap

/-!
# Handles of shared memory

The client's side of a context's blocks. A handle is the structure a client fills and passes to one
`TEEC_AllocateSharedMemory` or `TEEC_RegisterSharedMemory`; the library copies what it needs, and a
release finds the entry again by the address of the buffer. `creators` records which handle's call
each entry of the list comes from, and `memory` the buffers of handles that are in place; the library
knows neither. A registered buffer is the client's own memory and may lie in an allocated block: it is in
place until the block is given back.
-/

namespace ITrustee.Libteec

/-- A client's `TEEC_SharedMemory`, and whether its `context` is set. -/
structure Handle where
  sharedMem : SharedMemory
  hasContext : Bool
  deriving DecidableEq

/-- A stretch of addresses. -/
structure MemRange where
  start : Nat
  stop : Nat
  deriving DecidableEq

def MemRange.meets (r r' : MemRange) : Bool := max r.start r'.start < min r.stop r'.stop

structure ShmClient where
  context : ContextHidl
  /-- `PAGE_SIZE`. -/
  pageSize : Nat
  handles : List Handle := []
  creators : List Nat := []
  memory : List (Nat × MemRange) := []

/-- The entries of the list, each with the handle whose call created it. -/
def ShmClient.entries (s : ShmClient) : List (Nat × SharedMemoryHidl) :=
  s.creators.zip s.context.shrdMemList

/-- The handle after a successful allocation, whose block is the last of the list. -/
def allocatedHandle (context : ContextHidl) (sharedMem : SharedMemory) : SharedMemory :=
  match context.shrdMemList.getLast? with
  | none => sharedMem
  | some shmHidl =>
      { sharedMem with buffer := shmHidl.buffer, isAllocated := shmHidl.isAllocated }

/-- The handle behind a release; its context is `NULL` then. -/
def clearedHandle (sharedMem : SharedMemory) : SharedMemory :=
  { sharedMem with buffer := 0, size := 0, flags := 0 }

def bufferOf (sharedMem : SharedMemory) : MemRange where
  start := sharedMem.buffer.toNat
  stop := sharedMem.buffer.toNat + sharedMem.size.toNat

/-- What `ReleaseSharedMemory` frees, or the pages that it unmaps. -/
def givenBack (pageSize : Nat) (sharedMem : SharedMemoryHidl) : Option MemRange :=
  let stop := sharedMem.buffer.toNat + sharedMem.size.toNat
  if !sharedMem.isAllocated || sharedMem.buffer == 0 then none
  else if isZeroCopyMem sharedMem.flags then some ⟨sharedMem.buffer.toNat, stop⟩
  else if sharedMem.buffer != zeroSizePtr && sharedMem.size != 0 then
    some ⟨sharedMem.buffer.toNat / pageSize * pageSize, (stop + pageSize - 1) / pageSize * pageSize⟩
  else none

inductive HandleCall where
  /-- A call with a new handle, filled with anything. -/
  | allocate (sharedMem : SharedMemory) (env : AllocateEnv)
  | register (sharedMem : SharedMemory) (env : RegisterEnv)
  /-- `TEEC_ReleaseSharedMemory` of a handle passed to an earlier call. -/
  | release (m : Nat) (env : ReleaseEnv)

def ShmClient.allocate (s : ShmClient) (sharedMem : SharedMemory) (env : AllocateEnv) : ShmClient :=
  let result := teecAllocateSharedMemory env s.context (some sharedMem)
  let m := s.handles.length
  if result.1 = teecSuccess then
    let handle := allocatedHandle result.2 sharedMem
    { s with
      context := result.2
      handles := s.handles ++ [⟨handle, true⟩]
      creators := s.creators ++ [m]
      memory := s.memory ++ [(m, bufferOf handle)] }
  else { s with context := result.2, handles := s.handles ++ [⟨sharedMem, true⟩] }

def ShmClient.register (s : ShmClient) (sharedMem : SharedMemory) (env : RegisterEnv) : ShmClient :=
  let result := teecRegisterSharedMemory env s.context (some sharedMem)
  let m := s.handles.length
  if result.1 = teecSuccess then
    { s with
      context := result.2
      handles := s.handles ++ [⟨{ sharedMem with isAllocated := false }, true⟩]
      creators := s.creators ++ [m]
      memory := s.memory ++ [(m, bufferOf sharedMem)] }
  else { s with context := result.2, handles := s.handles ++ [⟨sharedMem, true⟩] }

/-- The test of the search, when the search is made. -/
def isReleased (env : ReleaseEnv) (context : ContextHidl) (sharedMem : SharedMemory)
    (e : Nat × SharedMemoryHidl) : Bool :=
  env.contextFound && env.shrMemLocked &&
    isSearchedFor context (releaseShmHidl context sharedMem) e.2

def ShmClient.release (s : ShmClient) (m : Nat) (handle : Handle) (env : ReleaseEnv) : ShmClient :=
  if !handle.hasContext then s
  else
    let p := isReleased env s.context handle.sharedMem
    let gone := (s.entries.find? p).bind fun e => givenBack s.pageSize e.2
    { s with
      context := teecReleaseSharedMemory env s.context (some handle.sharedMem)
      handles := s.handles.set m ⟨clearedHandle handle.sharedMem, false⟩
      creators := (s.entries.eraseP p).map Prod.fst
      memory := s.memory.filter fun e => e.1 ≠ m ∧ gone.any e.2.meets = false }

def handleStep (s : ShmClient) : HandleCall → Option ShmClient
  | .allocate sharedMem env => some (s.allocate sharedMem env)
  | .register sharedMem env => some (s.register sharedMem env)
  | .release m env => s.handles[m]?.map fun handle => s.release m handle env

def initialShmClient (addr : UInt64) (pageSize : Nat) : ShmClient where
  context := initializedContext addr
  pageSize := pageSize

/-! ### What a release should do -/

/-- A release takes the entry of its own handle off the list, if there is one, and no other; and the
buffer of every other handle stays in place. -/
def TouchesOwn (s : ShmClient) : HandleCall → Prop
  | .release m env => ∀ s', handleStep s (.release m env) = some s' →
      s'.entries = s.entries.filter (fun e => e.1 ≠ m) ∧
        ∀ e ∈ s.memory, e.1 ≠ m → e ∈ s'.memory
  | _ => True

/-- No entry before the handle's own, or none at all where its call failed, has the address of its
buffer; and where it has an entry, the search is made, and no other buffer lies in what is given back. -/
def Unambiguous (s : ShmClient) : HandleCall → Prop
  | .release m env => ∀ handle, s.handles[m]? = some handle → handle.hasContext = true →
      (m ∈ s.creators → env.contextFound = true ∧ env.shrMemLocked = true) ∧
        (env.contextFound = true → env.shrMemLocked = true →
          ∀ e ∈ s.entries.takeWhile (fun e => e.1 ≠ m), e.2.buffer ≠ handle.sharedMem.buffer) ∧
        ∀ e ∈ s.entries, e.1 = m → ∀ gone ∈ givenBack s.pageSize e.2,
          ∀ other ∈ s.memory, other.1 ≠ m → other.2.meets gone = false
  | _ => True

/-! ### The search -/

theorem findAndRemoveLoop_eq (p : SharedMemoryHidl → Bool) (blocks : List SharedMemoryHidl) :
    findAndRemoveLoop p blocks = (blocks.find? p).map fun b => (b, blocks.eraseP p) := by
  induction blocks with
  | nil => rfl
  | cons b blocks ih =>
      rw [findAndRemoveLoop]
      cases hp : p b with
      | true => rw [if_pos rfl, List.find?_cons_of_pos hp, List.eraseP_cons_of_pos hp, Option.map_some]
      | false =>
          have hnot : ¬ p b = true := by simp [hp]
          rw [if_neg (by decide), ih, List.find?_cons_of_neg hnot, List.eraseP_cons_of_neg hnot]
          cases blocks.find? p <;> rfl

theorem putBnShrMem_list {addr : UInt64} {b : SharedMemoryHidl} (hb : BlockWellFormed addr b)
    (clearLocked : Bool) (context : ContextHidl) :
    (putBnShrMem clearLocked b context).shrdMemList = context.shrdMemList ∧
      (putBnShrMem clearLocked b context).callFromHidl = context.callFromHidl := by
  rw [putBnShrMem_eq hb]
  split_ifs
  · rw [clearBitWithLock]
    split_ifs <;> exact ⟨rfl, rfl⟩
  · exact ⟨rfl, rfl⟩

/-- A release takes off the first entry that passes the test. -/
theorem teecReleaseSharedMemory_list {context : ContextHidl} (hwf : WellFormed context)
    (env : ReleaseEnv) (sharedMem : SharedMemory) (k : Nat) :
    (teecReleaseSharedMemory env context (some sharedMem)).shrdMemList =
        context.shrdMemList.eraseP (fun b => isReleased env context sharedMem (k, b)) ∧
      (teecReleaseSharedMemory env context (some sharedMem)).callFromHidl =
        context.callFromHidl := by
  have hnone : ∀ blocks : List SharedMemoryHidl, blocks.eraseP (fun _ => false) = blocks :=
    fun blocks => List.eraseP_of_forall_not (by simp)
  rw [teecReleaseSharedMemory, releaseSharedMemoryHidl]
  simp only [isReleased]
  cases hfound : env.contextFound with
  | false => simp [hnone]
  | true =>
      cases hlocked : env.shrMemLocked with
      | false => simp [hnone, findAndRemoveShrMemHidl]
      | true =>
          rw [findAndRemoveShrMemHidl, findAndRemoveLoop_eq]
          simp only [Bool.not_true, Bool.false_eq_true, if_false, Bool.true_and]
          cases hfind : context.shrdMemList.find?
              (isSearchedFor context (releaseShmHidl context sharedMem)) with
          | none =>
              have hkeeps := List.eraseP_of_forall_not (List.find?_eq_none.mp hfind)
              exact ⟨hkeeps.symm, rfl⟩
          | some b =>
              have hb := hwf.blocks b (List.mem_of_find?_eq_some hfind)
              exact putBnShrMem_list hb _ _

/-- Without a call from the other side of the interface the search compares addresses. -/
theorem isReleased_eq {context : ContextHidl} (hvendor : context.callFromHidl = false)
    {e : Nat × SharedMemoryHidl} (haddr : e.2.context = context.addr) (env : ReleaseEnv)
    (sharedMem : SharedMemory) :
    isReleased env context sharedMem e =
      (env.contextFound && env.shrMemLocked && e.2.buffer == sharedMem.buffer) := by
  simp [isReleased, isSearchedFor, releaseShmHidl, hvendor, haddr]

/-! ### What an allocation and a registration append -/

theorem clearBitWithLock_list (locked : Bool) (i : UInt32) (context : ContextHidl) :
    (clearBitWithLock locked i context).shrdMemList = context.shrdMemList ∧
      (clearBitWithLock locked i context).callFromHidl = context.callFromHidl := by
  rw [clearBitWithLock]
  split_ifs <;> exact ⟨rfl, rfl⟩

theorem teecAllocateSharedMemory_list {context : ContextHidl} (hwf : WellFormed context)
    (env : AllocateEnv) (sharedMem : SharedMemory) :
    let result := teecAllocateSharedMemory env context (some sharedMem)
    result.2.callFromHidl = context.callFromHidl ∧
      ((result.1 ≠ teecSuccess ∧ result.2.shrdMemList = context.shrdMemList) ∨
        (result.1 = teecSuccess ∧ ∃ b, result.2.shrdMemList = context.shrdMemList ++ [b])) := by
  intro result
  have heffect : AllocateEffect env context sharedMem result.1 result.2 :=
    teecAllocateSharedMemory_effect env sharedMem hwf.length
  generalize result.1 = ret at heffect ⊢
  generalize result.2 = context' at heffect ⊢
  cases heffect with
  | refused _ hret _ => exact ⟨rfl, Or.inl ⟨hret, rfl⟩⟩
  | zeroCopyUndone _ hret _ _ =>
      obtain ⟨hlist, hfrom⟩ := clearBitWithLock_list env.clearLocked 0 context
      exact ⟨hfrom, Or.inl ⟨hret, hlist⟩⟩
  | mappedUndone _ hret _ _ i _ _ =>
      obtain ⟨hlist, hfrom⟩ := clearBitWithLock_list env.clearLocked (UInt32.ofNat i)
        { context with shmBitmap := setBit i numOfSharememBitmap context.shmBitmap }
      exact ⟨hfrom, Or.inl ⟨hret, hlist⟩⟩
  | zeroCopyInserted _ b _ _ => exact ⟨rfl, Or.inr ⟨rfl, b, rfl⟩⟩
  | mappedInserted _ b _ _ _ _ => exact ⟨rfl, Or.inr ⟨rfl, b, rfl⟩⟩

/-! ### What a run keeps -/

/-- Every entry comes from the call of a handle that is not released and still has its address. -/
structure ShmClientInv (s : ShmClient) : Prop where
  wellFormed : WellFormed s.context
  vendor : s.context.callFromHidl = false
  creators_length : s.creators.length = s.context.shrdMemList.length
  nodup : s.creators.Nodup
  live : ∀ e ∈ s.entries, ∃ handle, s.handles[e.1]? = some handle ∧ handle.hasContext = true ∧
    e.2.buffer = handle.sharedMem.buffer

section Steps

variable {s : ShmClient}

theorem ShmClientInv.entries_fst (h : ShmClientInv s) : s.entries.map Prod.fst = s.creators :=
  List.map_fst_zip h.creators_length.le

theorem ShmClientInv.entries_snd (h : ShmClientInv s) : s.entries.map Prod.snd = s.context.shrdMemList :=
  List.map_snd_zip h.creators_length.ge

theorem ShmClientInv.lt_handles (h : ShmClientInv s) {e : Nat × SharedMemoryHidl} (he : e ∈ s.entries) :
    e.1 < s.handles.length := by
  obtain ⟨handle, hhandle, -⟩ := h.live e he
  exact (List.getElem?_eq_some_iff.mp hhandle).1

/-- A call that fails adds a handle without an entry. -/
theorem ShmClientInv.failed (h : ShmClientInv s) {context : ContextHidl} (hwf : WellFormed context)
    (hvendor : context.callFromHidl = false) (hlist : context.shrdMemList = s.context.shrdMemList)
    (handle : Handle) :
    ShmClientInv { s with context := context, handles := s.handles ++ [handle] } := by
  refine ⟨hwf, hvendor, h.creators_length.trans (congrArg _ hlist.symm), h.nodup, fun e he => ?_⟩
  have hold : e ∈ s.entries := by
    rwa [ShmClient.entries, hlist] at he
  obtain ⟨handle', hhandle, hlive⟩ := h.live e hold
  exact ⟨handle', (List.getElem?_append_left (h.lt_handles hold)).trans hhandle, hlive⟩

/-- A call that succeeds adds a handle and its entry. -/
theorem ShmClientInv.created (h : ShmClientInv s) {context : ContextHidl} {b : SharedMemoryHidl}
    (hwf : WellFormed context) (hvendor : context.callFromHidl = false)
    (hlist : context.shrdMemList = s.context.shrdMemList ++ [b]) {sharedMem : SharedMemory}
    (hbuffer : b.buffer = sharedMem.buffer) (memory : List (Nat × MemRange)) :
    ShmClientInv
      { s with
        context := context
        handles := s.handles ++ [⟨sharedMem, true⟩]
        creators := s.creators ++ [s.handles.length]
        memory := memory } := by
  have hfresh : s.handles.length ∉ s.creators := by
    rw [← h.entries_fst]
    intro hmem
    obtain ⟨e, he, heq⟩ := List.mem_map.mp hmem
    exact absurd (h.lt_handles he) (by omega)
  refine ⟨hwf, hvendor, ?_, ?_, fun e he => ?_⟩
  · rw [hlist, List.length_append, List.length_append, h.creators_length]
    rfl
  · exact List.nodup_append.mpr ⟨h.nodup, List.nodup_singleton _, by
      rintro k hk _ hm rfl
      obtain rfl := List.mem_singleton.mp hm
      exact hfresh hk⟩
  · rw [ShmClient.entries, hlist, List.zip_append h.creators_length] at he
    obtain hold | hnew := List.mem_append.mp he
    · obtain ⟨handle', hhandle, hlive⟩ := h.live e hold
      exact ⟨handle', (List.getElem?_append_left (h.lt_handles hold)).trans hhandle, hlive⟩
    · obtain rfl := List.mem_singleton.mp hnew
      exact ⟨⟨sharedMem, true⟩, List.getElem?_concat_length, rfl, hbuffer⟩

theorem ShmClientInv.allocate (h : ShmClientInv s) (sharedMem : SharedMemory) (env : AllocateEnv) :
    ShmClientInv (s.allocate sharedMem env) := by
  have hwf : WellFormed (teecAllocateSharedMemory env s.context (some sharedMem)).2 :=
    run_wellFormed h.wellFormed (.allocate (some sharedMem) env)
  obtain ⟨hfrom, hresult⟩ := teecAllocateSharedMemory_list h.wellFormed env sharedMem
  rw [ShmClient.allocate]
  obtain ⟨hret, hlist⟩ | ⟨hret, b, hlist⟩ := hresult
  · rw [if_neg hret]
    exact h.failed hwf (hfrom.trans h.vendor) hlist _
  · have hbuffer : b.buffer = (allocatedHandle
        (teecAllocateSharedMemory env s.context (some sharedMem)).2 sharedMem).buffer := by
      rw [allocatedHandle, hlist, List.getLast?_concat]
    rw [if_pos hret]
    exact h.created hwf (hfrom.trans h.vendor) hlist hbuffer _

theorem ShmClientInv.register (h : ShmClientInv s) (sharedMem : SharedMemory) (env : RegisterEnv) :
    ShmClientInv (s.register sharedMem env) := by
  have hwf : WellFormed (teecRegisterSharedMemory env s.context (some sharedMem)).2 :=
    run_wellFormed h.wellFormed (.register (some sharedMem) env)
  rw [ShmClient.register]
  obtain ⟨hret, hcontext⟩ | ⟨hret, hcontext⟩ :=
    teecRegisterSharedMemory_cases env s.context sharedMem
  · rw [if_neg hret, hcontext]
    exact h.failed h.wellFormed h.vendor rfl _
  · have hfrom := congrArg ContextHidl.callFromHidl hcontext
    have hlist := congrArg ContextHidl.shrdMemList hcontext
    have hbuffer : (registeredBlock s.context sharedMem).buffer =
        ({ sharedMem with isAllocated := false } : SharedMemory).buffer := rfl
    rw [if_pos hret]
    exact h.created hwf (hfrom.trans h.vendor) hlist hbuffer _

/-! ### Releases -/

/-- Behind a release, creators and blocks are those of the entries without the first that passes the
test. -/
theorem ShmClientInv.release_erases (h : ShmClientInv s) {handle : Handle}
    (hcontext : handle.hasContext = true) (m : Nat) (env : ReleaseEnv) :
    (s.release m handle env).creators =
        (s.entries.eraseP (isReleased env s.context handle.sharedMem)).map Prod.fst ∧
      (s.release m handle env).context.shrdMemList =
        (s.entries.eraseP (isReleased env s.context handle.sharedMem)).map Prod.snd := by
  have hlist := (teecReleaseSharedMemory_list h.wellFormed env handle.sharedMem 0).1
  have hmap : (s.entries.map Prod.snd).eraseP
      (fun b => isReleased env s.context handle.sharedMem (0, b)) =
        (s.entries.eraseP (isReleased env s.context handle.sharedMem)).map Prod.snd :=
    List.eraseP_map
  rw [h.entries_snd, ← hlist] at hmap
  rw [ShmClient.release, hcontext, Bool.not_true, if_neg (by decide)]
  exact ⟨rfl, hmap⟩

theorem ShmClientInv.release_entries (h : ShmClientInv s) {handle : Handle}
    (hcontext : handle.hasContext = true) (m : Nat) (env : ReleaseEnv) :
    (s.release m handle env).entries =
      s.entries.eraseP (isReleased env s.context handle.sharedMem) := by
  obtain ⟨hcreators, hlist⟩ := h.release_erases hcontext m env
  exact (List.zip_of_prod hcreators.symm hlist.symm).symm

/-- The entry of a handle passes the test of its release, when the search is made. -/
theorem ShmClientInv.own_released (h : ShmClientInv s) {m : Nat} {handle : Handle}
    (hhandle : s.handles[m]? = some handle) {env : ReleaseEnv} (hfound : env.contextFound = true)
    (hlocked : env.shrMemLocked = true) :
    ∀ e ∈ s.entries, e.1 = m → isReleased env s.context handle.sharedMem e = true := by
  intro e he hlabel
  obtain ⟨handle', hhandle', -, hbuffer⟩ := h.live e he
  rw [hlabel, hhandle] at hhandle'
  obtain rfl := Option.some.inj hhandle'
  have haddr := (h.wellFormed.blocks e.2 (List.of_mem_zip he).2).context
  rw [isReleased_eq h.vendor haddr, hfound, hlocked, hbuffer]
  simp

/-- When the erased entry is the handle's own. -/
theorem ShmClientInv.release_iff (h : ShmClientInv s) {m : Nat} {handle : Handle}
    (hhandle : s.handles[m]? = some handle) (env : ReleaseEnv) :
    s.entries.eraseP (isReleased env s.context handle.sharedMem) =
        s.entries.filter (fun e => e.1 ≠ m) ↔
      (m ∈ s.creators → env.contextFound = true ∧ env.shrMemLocked = true) ∧
        (env.contextFound = true → env.shrMemLocked = true →
          ∀ e ∈ s.entries.takeWhile (fun e => e.1 ≠ m), e.2.buffer ≠ handle.sharedMem.buffer) := by
  have hnodup : (s.entries.map Prod.fst).Nodup := by
    rw [h.entries_fst]
    exact h.nodup
  have htest : ∀ e ∈ s.entries, isReleased env s.context handle.sharedMem e =
      (env.contextFound && env.shrMemLocked && e.2.buffer == handle.sharedMem.buffer) :=
    fun e he => isReleased_eq h.vendor (h.wellFormed.blocks e.2 (List.of_mem_zip he).2).context _ _
  by_cases hsearch : env.contextFound = true ∧ env.shrMemLocked = true
  · obtain ⟨hfound, hlocked⟩ := hsearch
    have hpasses : ∀ e ∈ s.entries.takeWhile (fun e => e.1 ≠ m),
        (isReleased env s.context handle.sharedMem e = false ↔
          e.2.buffer ≠ handle.sharedMem.buffer) := by
      intro e he
      rw [htest e ((List.takeWhile_sublist _).subset he), hfound, hlocked]
      simp
    rw [Labelled.eraseP_eq_filter_iff hnodup (h.own_released hhandle hfound hlocked)]
    constructor
    · intro hbefore
      exact ⟨fun _ => ⟨hfound, hlocked⟩, fun _ _ e he => (hpasses e he).mp (hbefore e he)⟩
    · rintro ⟨-, hbefore⟩ e he
      exact (hpasses e he).mpr (hbefore hfound hlocked e he)
  · have hkeeps : s.entries.eraseP (isReleased env s.context handle.sharedMem) = s.entries := by
      refine List.eraseP_of_forall_not fun e he => ?_
      rw [htest e he]
      simp only [Bool.and_eq_true]
      exact fun htrue => hsearch htrue.1
    rw [hkeeps, eq_comm, Labelled.filter_ne_eq_self_iff, h.entries_fst]
    constructor
    · intro hnot
      exact ⟨fun hmem => absurd hmem hnot, fun hfound hlocked => absurd ⟨hfound, hlocked⟩ hsearch⟩
    · rintro ⟨hmade, -⟩ hmem
      exact hsearch (hmade hmem)

/-- The handle a release names, and the state behind it. -/
theorem handleStep_release {m : Nat} {env : ReleaseEnv} {s' : ShmClient}
    (hstep : handleStep s (.release m env) = some s') :
    ∃ handle, s.handles[m]? = some handle ∧ s' = s.release m handle env := by
  obtain ⟨handle, hhandle, hs'⟩ := Option.map_eq_some_iff.mp hstep
  exact ⟨handle, hhandle, hs'.symm⟩

/-- A released handle has no entry. -/
theorem ShmClientInv.not_created (h : ShmClientInv s) {m : Nat} {handle : Handle}
    (hhandle : s.handles[m]? = some handle) (hcontext : handle.hasContext = false) :
    m ∉ s.creators := by
  rw [← h.entries_fst]
  intro hmem
  obtain ⟨e, he, rfl⟩ := List.mem_map.mp hmem
  obtain ⟨handle', hhandle', hlive, -⟩ := h.live e he
  rw [hhandle] at hhandle'
  obtain rfl := Option.some.inj hhandle'
  exact absurd hlive (by simp [hcontext])

/-- The handle's own entry is the one that is found, once no other is taken off. -/
theorem ShmClientInv.found_iff (h : ShmClientInv s) {m : Nat} {p : Nat × SharedMemoryHidl → Bool}
    (hown : s.entries.eraseP p = s.entries.filter (fun e => e.1 ≠ m))
    (hpasses : ∀ e ∈ s.entries, e.1 = m → p e = true) (e : Nat × SharedMemoryHidl) :
    s.entries.find? p = some e ↔ e ∈ s.entries ∧ e.1 = m := by
  have hnodup : (s.entries.map Prod.fst).Nodup := by
    rw [h.entries_fst]
    exact h.nodup
  constructor
  · intro hfind
    exact ⟨List.mem_of_find?_eq_some hfind, Labelled.label_of_find? hnodup hown hfind⟩
  · rintro ⟨he, hlabel⟩
    obtain ⟨e', hfind⟩ := Option.isSome_iff_exists.mp
      (List.find?_isSome.mpr ⟨e, he, hpasses e he hlabel⟩)
    have hlabel' := Labelled.label_of_find? hnodup hown hfind
    rw [hfind, List.inj_on_of_nodup_map hnodup (List.mem_of_find?_eq_some hfind) he
      (hlabel'.trans hlabel.symm)]

/-- What the release of the own entry leaves in place. -/
theorem ShmClientInv.release_memory (h : ShmClientInv s) {m : Nat} {handle : Handle}
    (hcontext : handle.hasContext = true) {env : ReleaseEnv}
    (hown : s.entries.eraseP (isReleased env s.context handle.sharedMem) =
      s.entries.filter (fun e => e.1 ≠ m))
    (hpasses : ∀ e ∈ s.entries, e.1 = m → isReleased env s.context handle.sharedMem e = true) :
    (∀ e ∈ s.memory, e.1 ≠ m → e ∈ (s.release m handle env).memory) ↔
      ∀ e ∈ s.entries, e.1 = m → ∀ gone ∈ givenBack s.pageSize e.2,
        ∀ other ∈ s.memory, other.1 ≠ m → other.2.meets gone = false := by
  have hfound := h.found_iff hown hpasses
  rw [ShmClient.release, hcontext, Bool.not_true, if_neg (by decide)]
  dsimp only
  cases hfind : s.entries.find? (isReleased env s.context handle.sharedMem) with
  | none =>
      constructor
      · intro _ e he hlabel
        exact absurd ((hfound e).mpr ⟨he, hlabel⟩) (by simp [hfind])
      · exact fun _ e he hne => List.mem_filter.mpr ⟨he, by simpa using hne⟩
  | some e =>
      obtain ⟨he, hlabel⟩ := (hfound e).mp hfind
      rw [Option.bind_some]
      constructor
      · intro hstays e' he' hlabel' gone hgone other hother hne
        obtain rfl : e = e' := by
          have := (hfound e').mpr ⟨he', hlabel'⟩
          rw [hfind] at this
          exact Option.some.inj this
        have hkept := (List.mem_filter.mp (hstays other hother hne)).2
        rw [Option.mem_def.mp hgone] at hkept
        exact (of_decide_eq_true hkept).2
      · intro hclear other hother hne
        refine List.mem_filter.mpr ⟨hother, decide_eq_true ⟨hne, ?_⟩⟩
        cases hgone : givenBack s.pageSize e.2 with
        | none => rfl
        | some gone => exact hclear e he hlabel gone hgone other hother hne

/-- What a release takes off is the handle's own entry and nothing else exactly when the address of
its buffer leads to it, and then no other buffer goes exactly when none lies in what is given back. -/
theorem ShmClientInv.touchesOwn_iff (h : ShmClientInv s) (call : HandleCall) :
    TouchesOwn s call ↔ Unambiguous s call := by
  cases call with
  | allocate sharedMem env => exact Iff.rfl
  | register sharedMem env => exact Iff.rfl
  | release m env =>
      have hpasses : ∀ handle, s.handles[m]? = some handle →
          (m ∈ s.creators → env.contextFound = true ∧ env.shrMemLocked = true) →
            ∀ e ∈ s.entries, e.1 = m → isReleased env s.context handle.sharedMem e = true := by
        intro handle hhandle hmade e he hlabel
        have hcreated : m ∈ s.creators := by
          rw [← h.entries_fst, ← hlabel]
          exact List.mem_map_of_mem he
        obtain ⟨hfound, hlocked⟩ := hmade hcreated
        exact h.own_released hhandle hfound hlocked e he hlabel
      constructor
      · intro hown handle hhandle hcontext
        have hstep : handleStep s (.release m env) = some (s.release m handle env) := by
          rw [handleStep, hhandle, Option.map_some]
        obtain ⟨hentries, hmemory⟩ := hown _ hstep
        rw [h.release_entries hcontext] at hentries
        obtain ⟨hmade, hfirst⟩ := (h.release_iff hhandle env).mp hentries
        exact ⟨hmade, hfirst,
          (h.release_memory hcontext hentries (hpasses handle hhandle hmade)).mp hmemory⟩
      · intro hunambiguous s' hstep
        obtain ⟨handle, hhandle, rfl⟩ := handleStep_release hstep
        cases hcontext : handle.hasContext with
        | false =>
            have hnot := h.not_created hhandle hcontext
            rw [← h.entries_fst] at hnot
            rw [ShmClient.release, hcontext, Bool.not_false, if_pos rfl]
            exact ⟨(Labelled.filter_ne_eq_self_iff.mpr hnot).symm, fun e he _ => he⟩
        | true =>
            obtain ⟨hmade, hfirst, hclear⟩ := hunambiguous handle hhandle hcontext
            have hentries := (h.release_iff hhandle env).mpr ⟨hmade, hfirst⟩
            refine ⟨?_, (h.release_memory hcontext hentries (hpasses handle hhandle hmade)).mpr hclear⟩
            rw [h.release_entries hcontext, hentries]

/-- A release that touches its own block keeps the invariant. -/
theorem ShmClientInv.release (h : ShmClientInv s) {m : Nat} {handle : Handle} (env : ReleaseEnv)
    (hentries : (s.release m handle env).entries = s.entries.filter (fun e => e.1 ≠ m)) :
    ShmClientInv (s.release m handle env) := by
  cases hcontext : handle.hasContext with
  | false =>
      rw [ShmClient.release, hcontext, Bool.not_false, if_pos rfl]
      exact h
  | true =>
      have hwf : WellFormed (teecReleaseSharedMemory env s.context (some handle.sharedMem)) :=
        run_wellFormed h.wellFormed (.release (some handle.sharedMem) env)
      have hfrom := (teecReleaseSharedMemory_list h.wellFormed env handle.sharedMem 0).2
      obtain ⟨hcreators, hlist⟩ := h.release_erases hcontext m env
      have hlive : ∀ e ∈ (s.release m handle env).entries, ∃ handle',
          (s.release m handle env).handles[e.1]? = some handle' ∧ handle'.hasContext = true ∧
            e.2.buffer = handle'.sharedMem.buffer := by
        intro e he
        rw [hentries] at he
        obtain ⟨hold, hlabel⟩ := List.mem_filter.mp he
        obtain ⟨handle', hhandle', hrest⟩ := h.live e hold
        have hne : m ≠ e.1 := (of_decide_eq_true hlabel).symm
        refine ⟨handle', ?_, hrest⟩
        rw [ShmClient.release, hcontext, Bool.not_true, if_neg (by decide)]
        exact (List.getElem?_set_ne hne).trans hhandle'
      have hlength : (s.release m handle env).creators.length =
          (s.release m handle env).context.shrdMemList.length := by
        rw [hcreators, hlist, List.length_map, List.length_map]
      have hnodup : (s.release m handle env).creators.Nodup := by
        rw [hcreators]
        refine List.Nodup.sublist (List.Sublist.map Prod.fst List.eraseP_sublist) ?_
        rw [h.entries_fst]
        exact h.nodup
      have hstate : (s.release m handle env).context =
          teecReleaseSharedMemory env s.context (some handle.sharedMem) := by
        rw [ShmClient.release, hcontext, Bool.not_true, if_neg (by decide)]
      rw [← hstate] at hwf hfrom
      exact ⟨hwf, hfrom.trans h.vendor, hlength, hnodup, hlive⟩

theorem ShmClientInv.step (h : ShmClientInv s) {call : HandleCall} {s' : ShmClient}
    (hown : TouchesOwn s call) (hstep : handleStep s call = some s') : ShmClientInv s' := by
  cases call with
  | allocate sharedMem env =>
      obtain rfl := Option.some.inj hstep
      exact h.allocate sharedMem env
  | register sharedMem env =>
      obtain rfl := Option.some.inj hstep
      exact h.register sharedMem env
  | release m env =>
      have hentries := (hown s' hstep).1
      obtain ⟨handle, -, rfl⟩ := handleStep_release hstep
      exact h.release env hentries

theorem initialShmClient_inv (addr : UInt64) (pageSize : Nat) :
    ShmClientInv (initialShmClient addr pageSize) where
  wellFormed := initializedContext_wellFormed addr
  vendor := rfl
  creators_length := rfl
  nodup := List.nodup_nil
  live := by simp [initialShmClient, ShmClient.entries]

end Steps

/-- Every release of a run touches its handle's own block and no other exactly when every release of
the run is unambiguous. -/
theorem run_touchesOwn_iff (addr : UInt64) (pageSize : Nat) (calls : List HandleCall) :
    Machine.Along handleStep TouchesOwn (initialShmClient addr pageSize) calls ↔
      Machine.Along handleStep Unambiguous (initialShmClient addr pageSize) calls :=
  Machine.along_congr ShmClientInv (fun _ call h => h.touchesOwn_iff call)
    (fun _ _ _ h hown hstep => h.step hown hstep) (initialShmClient_inv addr pageSize)

/-- The release of a block takes away what a client registered in it. -/
example :
    ¬ Machine.Along handleStep TouchesOwn (initialShmClient 0x8000 4096)
      [.allocate ⟨0, 64, teecMemInput, false⟩
          ⟨true, true, true, some ⟨0x5000, by decide⟩, true, true, true⟩,
        .register ⟨0x5000, 16, teecMemInput, false⟩ ⟨true, true, true⟩,
        .release 0 ⟨true, true, true⟩] := by
  intro h
  have hrelease := ((h.2 _ rfl).2 _ rfl).1
  have hstays := (hrelease _ rfl).2 (1, ⟨0x5000, 0x5010⟩) (by decide +kernel) (by decide)
  exact absurd hstays (by decide +kernel)

/-- Two input blocks without a size, and the release of the second. -/
def twoEmptyBlocks : List HandleCall :=
  let env : AllocateEnv := ⟨true, true, true, none, true, true, true⟩
  [.allocate ⟨0, 0, teecMemInput, false⟩ env, .allocate ⟨0, 0, teecMemInput, false⟩ env,
    .release 1 ⟨true, true, true⟩]

/-- Both blocks have the address `ZERO_SIZE_PTR`, so the release takes off the entry of the first. -/
theorem twoEmptyBlocks_touchesFirst :
    ¬ Machine.Along handleStep TouchesOwn (initialShmClient 0x8000 4096) twoEmptyBlocks := by
  intro h
  have hrelease := ((h.2 _ rfl).2 _ rfl).1
  have hentries := congrArg (List.map Prod.fst) (hrelease _ rfl).1
  exact absurd hentries (by decide +kernel)

end ITrustee.Libteec
