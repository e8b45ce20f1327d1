import Mathlib.Tactic
import ITrustee.Libteec.SharedMemory

/-!
# The offset bitmap of a context

A context's bitmap should hold exactly the offsets of its live mapped blocks. Mapped and zero-copy
blocks are released, and backed out of a failed allocation, through the same code, which clears the
bit of the block's offset: for a zero-copy block, which has no slot, that is bit 0. And where the lock
for clearing is not obtained, the bit of a mapped block stays behind. These are the only ways the
bitmap goes wrong: a run keeps it exact when each of its calls avoids them.
-/

namespace ITrustee.Libteec

open BitSet

/-- A live block of type input, output or inout that the library allocated. -/
def SharedMemoryHidl.ownsSlot (b : SharedMemoryHidl) : Bool :=
  b.isAllocated &&
    (b.flags == teecMemInput || b.flags == teecMemOutput || b.flags == teecMemInout)

/-- A bit is set exactly when a mapped block in the list has its offset, and no two mapped blocks
have the same offset. -/
structure BitmapMatches (context : ContextHidl) : Prop where
  bit_iff : ∀ i, checkBit i numOfSharememBitmap context.shmBitmap = true ↔
    ∃ b ∈ context.shrdMemList, b.ownsSlot = true ∧ b.offset.toNat = i
  distinct : context.shrdMemList.Pairwise fun b b' =>
    b.ownsSlot = true → b'.ownsSlot = true → b.offset ≠ b'.offset

/-- After the call the bitmap matches the list, and an allocation that failed changed neither. -/
def BitmapKept (context : ContextHidl) (call : Call) : Prop :=
  BitmapMatches (call.run context) ∧
    match call with
    | .allocate sharedMem env =>
        (teecAllocateSharedMemory env context sharedMem).1 ≠ teecSuccess →
          (call.run context).shmBitmap = context.shmBitmap ∧
            (call.run context).shrdMemList = context.shrdMemList
    | _ => True

/-- An allocation that fails after it has set up its buffer or its slot. -/
def AllocateUndoes (env : AllocateEnv) (context : ContextHidl) (sharedMem : SharedMemory) : Prop :=
  env.shmHidl = true ∧ env.contextFound = true ∧
    if isZeroCopyMem sharedMem.flags then
      sharedMem.size ≠ 0 ∧ sharedMem.size ≤ maxSharedmemLen ∧ env.buffer ≠ none ∧
        env.zeroed = true ∧ env.shrMemLocked = false
    else
      sharedMem.flags ∈ [teecMemInput, teecMemOutput, teecMemInout] ∧ env.bitMapLocked = true ∧
        (∃ i < 8 * numOfSharememBitmap,
          checkBit i numOfSharememBitmap context.shmBitmap = false) ∧
        ((sharedMem.size ≠ 0 ∧ env.buffer = none) ∨ env.shrMemLocked = false)

/-- Clearing the bit of a block that has its slot takes effect; clearing the bit of a zero-copy block
does not, because the lock fails or because bit 0 is not in use. -/
def ClearsOwnSlot (context : ContextHidl) (flags : UInt32) (clearLocked : Bool) : Prop :=
  if isZeroCopyMem flags then
    clearLocked = true → checkBit 0 numOfSharememBitmap context.shmBitmap = false
  else clearLocked = true

/-- The calls that keep the bitmap: those that clear a bit, if at all, that is theirs. -/
def SlotCondition (context : ContextHidl) : Call → Prop
  | .allocate (some sharedMem) env =>
      AllocateUndoes env context sharedMem →
        ClearsOwnSlot context sharedMem.flags env.clearLocked
  | .release (some sharedMem) env =>
      env.contextFound = true → ∀ b context',
        findAndRemoveShrMemHidl env.shrMemLocked (releaseShmHidl context sharedMem) context =
          some (b, context') →
        b.isAllocated = true → ClearsOwnSlot context b.flags env.clearLocked
  | _ => True

/-! ### The invariant of the list -/

/-- What holds of every block in a context's list. -/
structure BlockWellFormed (addr : UInt64) (b : SharedMemoryHidl) : Prop where
  opsCnt : b.opsCnt = 1
  context : b.context = addr
  buffer : b.isAllocated = true → b.buffer ≠ 0
  kind : b.isAllocated = true →
    (isZeroCopyMem b.flags = true ∧ b.offset = 0 ∧ b.ownsSlot = false) ∨
      (isZeroCopyMem b.flags = false ∧ b.ownsSlot = true)

structure WellFormed (context : ContextHidl) : Prop where
  length : context.shmBitmap.length = numOfSharememBitmap
  blocks : ∀ b ∈ context.shrdMemList, BlockWellFormed context.addr b

/-- The offsets of the mapped blocks of a list. -/
def slots (blocks : List SharedMemoryHidl) : List Nat :=
  (blocks.filter SharedMemoryHidl.ownsSlot).map fun b => b.offset.toNat

theorem mem_slots {blocks : List SharedMemoryHidl} {i : Nat} :
    i ∈ slots blocks ↔ ∃ b ∈ blocks, b.ownsSlot = true ∧ b.offset.toNat = i := by
  simp [slots, and_assoc]

theorem slots_append (blocks blocks' : List SharedMemoryHidl) :
    slots (blocks ++ blocks') = slots blocks ++ slots blocks' := by
  simp [slots]

theorem slots_cons_of_owns {b : SharedMemoryHidl} (h : b.ownsSlot = true)
    (blocks : List SharedMemoryHidl) : slots (b :: blocks) = b.offset.toNat :: slots blocks := by
  simp [slots, h]

theorem slots_cons_of_not {b : SharedMemoryHidl} (h : b.ownsSlot = false)
    (blocks : List SharedMemoryHidl) : slots (b :: blocks) = slots blocks := by
  simp [slots, h]

/-- The two conditions of `BitmapMatches`, on the bitmap as a set and the list of offsets. -/
theorem bitmapMatches_iff (context : ContextHidl)
    (hlength : context.shmBitmap.length = numOfSharememBitmap) :
    BitmapMatches context ↔ (∀ i, i ∈ toSet context.shmBitmap ↔ i ∈ slots context.shrdMemList) ∧
      (slots context.shrdMemList).Nodup := by
  have hbit : ∀ i, checkBit i numOfSharememBitmap context.shmBitmap = true ↔
      i ∈ toSet context.shmBitmap := by
    intro i
    rw [← hlength]
    exact checkBit_iff
  have hnodup : (slots context.shrdMemList).Nodup ↔ context.shrdMemList.Pairwise fun b b' =>
      b.ownsSlot = true → b'.ownsSlot = true → b.offset ≠ b'.offset := by
    rw [slots, List.nodup_iff_pairwise_ne, List.pairwise_map, List.pairwise_filter]
    simp only [ne_eq, UInt32.toNat_inj]
  constructor
  · intro h
    refine ⟨fun i => ?_, hnodup.mpr h.distinct⟩
    rw [← hbit, h.bit_iff, mem_slots]
  · intro h
    refine ⟨fun i => ?_, hnodup.mp h.2⟩
    rw [hbit, h.1, mem_slots]

/-! ### What an allocation does -/

/-- The record of a block as it stands in the list once its allocation is over. -/
def insertedBlock (context : ContextHidl) (sharedMem : SharedMemoryHidl) : SharedMemoryHidl :=
  { sharedMem with opsCnt := 1, isAllocated := true, context := context.addr }

theorem putInserted_append (context : ContextHidl) (b : SharedMemoryHidl) :
    putInserted { context with shrdMemList := context.shrdMemList ++ [b] } =
      { context with
        shrdMemList := context.shrdMemList ++ [{ b with opsCnt := b.opsCnt - 1 }] } := by
  simp [putInserted]

/-- The end of an allocation: backed out, or the block is in the list. -/
theorem insertSharedMem_cases (env : AllocateEnv) (context : ContextHidl)
    (sharedMem : SharedMemoryHidl) :
    ((sharedMem.buffer = mapFailed ∨ env.shrMemLocked = false) ∧
      (insertSharedMem env context sharedMem).1 ≠ teecSuccess ∧
      (insertSharedMem env context sharedMem).2 =
        clearBitWithLock env.clearLocked sharedMem.offset context) ∨
    (sharedMem.buffer ≠ mapFailed ∧ env.shrMemLocked = true ∧
      (insertSharedMem env context sharedMem).1 = teecSuccess ∧
      putInserted (insertSharedMem env context sharedMem).2 =
        { context with
          shrdMemList := context.shrdMemList ++ [insertedBlock context sharedMem] }) := by
  rw [insertSharedMem]
  by_cases hbuffer : sharedMem.buffer = mapFailed
  · rw [if_pos hbuffer]
    exact Or.inl ⟨Or.inl hbuffer, show teecErrorOutOfMemory ≠ teecSuccess by decide, rfl⟩
  · rw [if_neg hbuffer]
    cases hlocked : env.shrMemLocked with
    | false =>
        exact Or.inl ⟨Or.inr rfl, show teecErrorGeneric ≠ teecSuccess by decide, rfl⟩
    | true =>
        refine Or.inr ⟨hbuffer, rfl, rfl, ?_⟩
        simp only [Bool.not_true, Bool.false_eq_true, if_false, putInserted_append]
        rfl

/-- A call that hands on the result of the insertion. -/
theorem allocated_cases (env : AllocateEnv) (context : ContextHidl)
    {sharedMem : SharedMemoryHidl} {result : UInt32 × ContextHidl}
    (hresult : result =
      if (insertSharedMem env context sharedMem).1 = teecSuccess then
        ((insertSharedMem env context sharedMem).1,
          putInserted (insertSharedMem env context sharedMem).2)
      else insertSharedMem env context sharedMem) :
    ((sharedMem.buffer = mapFailed ∨ env.shrMemLocked = false) ∧ result.1 ≠ teecSuccess ∧
      result.2 = clearBitWithLock env.clearLocked sharedMem.offset context) ∨
    (sharedMem.buffer ≠ mapFailed ∧ env.shrMemLocked = true ∧ result.1 = teecSuccess ∧
      result.2 = { context with
        shrdMemList := context.shrdMemList ++ [insertedBlock context sharedMem] }) := by
  rcases insertSharedMem_cases env context sharedMem with ⟨hfail, hret, hcontext⟩ |
    ⟨hbuffer, hlocked, hret, hcontext⟩
  · rw [if_neg hret] at hresult
    rw [hresult]
    exact Or.inl ⟨hfail, hret, hcontext⟩
  · rw [if_pos hret, hcontext] at hresult
    rw [hresult]
    exact Or.inr ⟨hbuffer, hlocked, hret, rfl⟩

theorem checkSharedMemoryParam_allocate (contextFound : Bool) (sharedMem : SharedMemoryHidl) :
    checkSharedMemoryParam contextFound sharedMem .allocate = teecSuccess ↔
      contextFound = true ∧ (isZeroCopyMem sharedMem.flags = true ∨
        sharedMem.flags ∈ [teecMemInput, teecMemOutput, teecMemInout]) := by
  cases contextFound with
  | false =>
      simp only [checkSharedMemoryParam, Bool.not_false, if_true, Bool.false_eq_true, false_and,
        iff_false]
      decide
  | true =>
      simp only [checkSharedMemoryParam, Bool.not_true, Bool.false_eq_true, if_false, true_and,
        isZeroCopyMem, List.mem_cons, List.not_mem_nil, or_false, Bool.or_eq_true, beq_iff_eq]
      split_ifs with hcondition
      · simp only [Bool.and_eq_true, bne_iff_ne] at hcondition
        simp only [hcondition, or_self, iff_false]
        decide
      · simp only [Bool.and_eq_true, bne_iff_ne] at hcondition
        simp only [true_iff]
        tauto

theorem zeroCopy_not_mapped {flags : UInt32} (h : isZeroCopyMem flags = true) :
    flags ∉ [teecMemInput, teecMemOutput, teecMemInout] := by
  simp only [isZeroCopyMem, Bool.or_eq_true, beq_iff_eq] at h
  rcases h with rfl | rfl <;> decide

theorem ownsSlot_insertedBlock (context : ContextHidl) (sharedMem : SharedMemoryHidl) :
    (insertedBlock context sharedMem).ownsSlot = true ↔
      sharedMem.flags ∈ [teecMemInput, teecMemOutput, teecMemInout] := by
  simp [SharedMemoryHidl.ownsSlot, insertedBlock, or_assoc]

/-- What an allocation can do to a context whose bitmap has its full length. -/
inductive AllocateEffect (env : AllocateEnv) (context : ContextHidl) (sharedMem : SharedMemory) :
    UInt32 → ContextHidl → Prop where
  | refused (ret : UInt32) (hret : ret ≠ teecSuccess)
      (hundo : ¬ AllocateUndoes env context sharedMem) :
      AllocateEffect env context sharedMem ret context
  | zeroCopyUndone (ret : UInt32) (hret : ret ≠ teecSuccess)
      (hundo : AllocateUndoes env context sharedMem)
      (hzero : isZeroCopyMem sharedMem.flags = true) :
      AllocateEffect env context sharedMem ret (clearBitWithLock env.clearLocked 0 context)
  | mappedUndone (ret : UInt32) (hret : ret ≠ teecSuccess)
      (hundo : AllocateUndoes env context sharedMem)
      (hzero : isZeroCopyMem sharedMem.flags = false) (i : Nat)
      (hi : i < 8 * numOfSharememBitmap) (hfree : i ∉ toSet context.shmBitmap) :
      AllocateEffect env context sharedMem ret
        (clearBitWithLock env.clearLocked (UInt32.ofNat i)
          { context with shmBitmap := setBit i numOfSharememBitmap context.shmBitmap })
  | zeroCopyInserted (hundo : ¬ AllocateUndoes env context sharedMem) (b : SharedMemoryHidl)
      (hb : BlockWellFormed context.addr b) (hslot : b.ownsSlot = false) :
      AllocateEffect env context sharedMem teecSuccess
        { context with shrdMemList := context.shrdMemList ++ [b] }
  | mappedInserted (hundo : ¬ AllocateUndoes env context sharedMem) (b : SharedMemoryHidl)
      (hb : BlockWellFormed context.addr b) (hslot : b.ownsSlot = true)
      (hi : b.offset.toNat < 8 * numOfSharememBitmap)
      (hfree : b.offset.toNat ∉ toSet context.shmBitmap) :
      AllocateEffect env context sharedMem teecSuccess
        { context with
          shmBitmap := setBit b.offset.toNat numOfSharememBitmap context.shmBitmap
          shrdMemList := context.shrdMemList ++ [b] }

/-- The record `TEEC_AllocateSharedMemory` starts from. -/
def requestedShm (sharedMem : SharedMemory) : SharedMemoryHidl :=
  { size := sharedMem.size, flags := sharedMem.flags }

section Allocate

variable {env : AllocateEnv} {context : ContextHidl} {sharedMem : SharedMemory}

/-- An allocation refused by the parameter check. -/
theorem allocate_unchecked (hshm : env.shmHidl = true)
    (hcheck : checkSharedMemoryParam env.contextFound (requestedShm sharedMem) .allocate ≠
      teecSuccess) :
    teecAllocateSharedMemory env context (some sharedMem) =
      (checkSharedMemoryParam env.contextFound (requestedShm sharedMem) .allocate, context) := by
  simp only [requestedShm] at hcheck
  simp [teecAllocateSharedMemory, allocateSharedMemoryHidl, hshm, hcheck, requestedShm]

/-- A checked allocation of a zero-copy block. -/
theorem allocate_zeroCopy (hshm : env.shmHidl = true)
    (hcheck : checkSharedMemoryParam env.contextFound (requestedShm sharedMem) .allocate =
      teecSuccess) (hzero : isZeroCopyMem sharedMem.flags = true) :
    teecAllocateSharedMemory env context (some sharedMem) =
      if (allocateSharedMem env (requestedShm sharedMem)).1 ≠ teecSuccess then
        ((allocateSharedMem env (requestedShm sharedMem)).1, context)
      else
        let inserted := insertSharedMem env context
          (allocateSharedMem env (requestedShm sharedMem)).2
        if inserted.1 = teecSuccess then (inserted.1, putInserted inserted.2) else inserted := by
  simp only [requestedShm] at hcheck ⊢
  simp only [teecAllocateSharedMemory, hshm, Bool.not_true, Bool.false_eq_true, if_false,
    allocateSharedMemoryHidl, hcheck, ne_eq, not_true_eq_false, hzero, if_true]
  split_ifs <;> simp_all

/-- A checked allocation of a mapped block. -/
theorem allocate_mapped (hshm : env.shmHidl = true)
    (hcheck : checkSharedMemoryParam env.contextFound (requestedShm sharedMem) .allocate =
      teecSuccess) (hzero : isZeroCopyMem sharedMem.flags = false) :
    teecAllocateSharedMemory env context (some sharedMem) =
      if (getAndSetBitWithLock env.bitMapLocked context).1 < 0 then
        (teecErrorBadParameters, (getAndSetBitWithLock env.bitMapLocked context).2)
      else
        let inserted := insertSharedMem env (getAndSetBitWithLock env.bitMapLocked context).2
          { requestedShm sharedMem with
            offset := UInt32.ofInt (getAndSetBitWithLock env.bitMapLocked context).1
            buffer := mappedBuffer env sharedMem.size }
        if inserted.1 = teecSuccess then (inserted.1, putInserted inserted.2) else inserted := by
  have hbad : teecErrorBadParameters ≠ teecSuccess := by decide
  simp only [requestedShm] at hcheck ⊢
  simp only [teecAllocateSharedMemory, hshm, Bool.not_true, Bool.false_eq_true, if_false,
    allocateSharedMemoryHidl, hcheck, ne_eq, not_true_eq_false, hzero]
  by_cases hbit : (getAndSetBitWithLock env.bitMapLocked context).1 < 0
  · simp only [if_pos hbit, if_neg hbad]
  · simp only [if_neg hbit, Prod.mk.eta]
    rfl

/-- The heap memory of a zero-copy block, obtained or refused. -/
theorem allocateSharedMem_cases (env : AllocateEnv) (shm : SharedMemoryHidl) :
    (¬ (shm.size ≠ 0 ∧ shm.size ≤ maxSharedmemLen ∧ env.buffer ≠ none ∧ env.zeroed = true) ∧
      (allocateSharedMem env shm).1 ≠ teecSuccess) ∨
    (shm.size ≠ 0 ∧ shm.size ≤ maxSharedmemLen ∧ env.zeroed = true ∧ ∃ buffer : Address,
      env.buffer = some buffer ∧
        allocateSharedMem env shm = (teecSuccess, { shm with buffer := buffer })) := by
  rw [allocateSharedMem]
  by_cases hsize : shm.size = 0 ∨ maxSharedmemLen < shm.size
  · refine Or.inl ⟨?_, ?_⟩
    · rintro ⟨hne, hle, _⟩
      rcases hsize with hzero | hlt
      · exact hne hzero
      · exact UInt32.not_lt.mpr hle hlt
    · rw [if_pos hsize]
      exact show teecErrorBadParameters ≠ teecSuccess by decide
  · rw [if_neg hsize]
    rw [not_or] at hsize
    cases hbuffer : env.buffer with
    | none =>
        exact Or.inl ⟨by simp, show teecErrorOutOfMemory ≠ teecSuccess by decide⟩
    | some buffer =>
        cases hzeroed : env.zeroed with
        | false =>
            exact Or.inl ⟨by simp, show teecErrorSecurity ≠ teecSuccess by decide⟩
        | true =>
            exact Or.inr ⟨hsize.1, UInt32.not_lt.mp hsize.2, rfl, buffer, rfl, rfl⟩

/-- The slot of a mapped block, found or refused. -/
theorem getAndSetBitWithLock_cases (locked : Bool)
    (hlength : context.shmBitmap.length = numOfSharememBitmap) :
    (¬ (locked = true ∧ ∃ i < 8 * numOfSharememBitmap,
        checkBit i numOfSharememBitmap context.shmBitmap = false) ∧
      getAndSetBitWithLock locked context = (-1, context)) ∨
    (locked = true ∧ ∃ i < 8 * numOfSharememBitmap, i ∉ toSet context.shmBitmap ∧
      getAndSetBitWithLock locked context = ((i : Int),
        { context with shmBitmap := setBit i numOfSharememBitmap context.shmBitmap })) := by
  cases locked with
  | false => exact Or.inl ⟨by simp, rfl⟩
  | true =>
      have hspec := getAndSetBit_spec
        (show context.shmBitmap.length ≤ 2 ^ 28 by rw [hlength]; decide)
      rw [hlength] at hspec
      simp only [getAndSetBitWithLock, Bool.not_true, Bool.false_eq_true, if_false]
      rcases hspec with ⟨hret, hfull⟩ | ⟨i, hi, hfree, _, hret⟩
      · refine Or.inl ⟨?_, by rw [hret]⟩
        rintro ⟨_, i, hi, hclear⟩
        have hset := checkBit_iff.mpr (hfull i hi)
        rw [hlength, hclear] at hset
        exact absurd hset (by decide)
      · exact Or.inr ⟨trivial, i, hi, hfree, by rw [hret]⟩

theorem allocate_zeroCopy_effect (hshm : env.shmHidl = true) (hfound : env.contextFound = true)
    (hzero : isZeroCopyMem sharedMem.flags = true) :
    AllocateEffect env context sharedMem
      (teecAllocateSharedMemory env context (some sharedMem)).1
      (teecAllocateSharedMemory env context (some sharedMem)).2 := by
  have hcheck := (checkSharedMemoryParam_allocate env.contextFound (requestedShm sharedMem)).mpr
    ⟨hfound, Or.inl hzero⟩
  rw [allocate_zeroCopy hshm hcheck hzero]
  rcases allocateSharedMem_cases env (requestedShm sharedMem) with ⟨hrefused, hret⟩ |
    ⟨hsize, hmax, hzeroed, buffer, hbuffer, hresult⟩
  · rw [if_pos hret]
    refine AllocateEffect.refused _ hret ?_
    rintro ⟨_, _, hundo⟩
    rw [if_pos hzero] at hundo
    exact hrefused ⟨hundo.1, hundo.2.1, hundo.2.2.1, hundo.2.2.2.1⟩
  · rw [hresult, if_neg (not_not.mpr rfl)]
    rcases allocated_cases env context rfl with ⟨hfail, hret, hcontext⟩ |
      ⟨_, hlocked, hret, hcontext⟩
    · dsimp only
      rw [hcontext]
      refine AllocateEffect.zeroCopyUndone _ hret ⟨hshm, hfound, ?_⟩ hzero
      rw [if_pos hzero]
      refine ⟨hsize, hmax, by rw [hbuffer]; simp, hzeroed, ?_⟩
      exact hfail.resolve_left buffer.2.2
    · dsimp only
      rw [hret, hcontext]
      have hslot : (insertedBlock context
          { requestedShm sharedMem with buffer := buffer }).ownsSlot = false := by
        rw [Bool.eq_false_iff]
        intro howns
        exact zeroCopy_not_mapped hzero ((ownsSlot_insertedBlock _ _).mp howns)
      refine AllocateEffect.zeroCopyInserted ?_ _ ⟨rfl, rfl, fun _ => buffer.2.1, fun _ => ?_⟩ hslot
      · rintro ⟨_, _, hundo⟩
        rw [if_pos hzero, hlocked] at hundo
        exact absurd hundo.2.2.2.2 (by decide)
      · exact Or.inl ⟨hzero, rfl, hslot⟩

theorem mappedBuffer_eq_mapFailed (env : AllocateEnv) (size : UInt32) :
    mappedBuffer env size = mapFailed ↔ size ≠ 0 ∧ env.buffer = none := by
  rw [mappedBuffer]
  by_cases hsize : size = 0
  · simp only [hsize, ne_eq, not_true_eq_false, if_false, false_and, iff_false]
    decide
  · cases hbuffer : env.buffer with
    | none => simp [hsize]
    | some buffer => simp [hsize, buffer.2.2]

theorem mappedBuffer_ne_zero (env : AllocateEnv) (size : UInt32) : mappedBuffer env size ≠ 0 := by
  rw [mappedBuffer]
  by_cases hsize : size = 0
  · simp only [hsize, ne_eq, not_true_eq_false, if_false]
    decide
  · cases hbuffer : env.buffer with
    | none =>
        simp only [hsize, ne_eq, not_false_eq_true, if_true]
        decide
    | some buffer => simp [hsize, buffer.2.1]

theorem allocate_mapped_effect (hlength : context.shmBitmap.length = numOfSharememBitmap)
    (hshm : env.shmHidl = true) (hfound : env.contextFound = true)
    (hzero : isZeroCopyMem sharedMem.flags = false)
    (hflags : sharedMem.flags ∈ [teecMemInput, teecMemOutput, teecMemInout]) :
    AllocateEffect env context sharedMem
      (teecAllocateSharedMemory env context (some sharedMem)).1
      (teecAllocateSharedMemory env context (some sharedMem)).2 := by
  have hnotzero : ¬ isZeroCopyMem sharedMem.flags = true := by simp [hzero]
  have hcheck := (checkSharedMemoryParam_allocate env.contextFound (requestedShm sharedMem)).mpr
    ⟨hfound, Or.inr hflags⟩
  rw [allocate_mapped hshm hcheck hzero]
  rcases getAndSetBitWithLock_cases env.bitMapLocked hlength with ⟨hrefused, hret⟩ |
    ⟨hbitLocked, i, hi, hfree, hret⟩
  · rw [hret, if_pos (show (-1 : Int) < 0 by decide)]
    refine AllocateEffect.refused _ (show teecErrorBadParameters ≠ teecSuccess by decide) ?_
    rintro ⟨_, _, hundo⟩
    rw [if_neg hnotzero] at hundo
    exact hrefused ⟨hundo.2.1, hundo.2.2.1⟩
  · have hslotFree : ∃ i < 8 * numOfSharememBitmap,
        checkBit i numOfSharememBitmap context.shmBitmap = false := by
      refine ⟨i, hi, Bool.eq_false_iff.mpr fun hset => hfree ?_⟩
      rw [← hlength] at hset
      exact checkBit_iff.mp hset
    have hi64 : i < 2 ^ 32 := lt_of_lt_of_le hi (by decide)
    have hoffset : (UInt32.ofInt (i : Int)) = UInt32.ofNat i := by
      rw [UInt32.ofInt]
      congr 1
      omega
    rw [hret, if_neg (by omega)]
    dsimp only
    rw [hoffset]
    rcases allocated_cases env _ rfl with ⟨hfail, hret, hcontext⟩ |
      ⟨hbuffer, hlocked, hret, hcontext⟩
    · rw [hcontext]
      refine AllocateEffect.mappedUndone _ hret ⟨hshm, hfound, ?_⟩ hzero i hi hfree
      rw [if_neg hnotzero]
      refine ⟨hflags, hbitLocked, hslotFree, ?_⟩
      exact hfail.imp_left (mappedBuffer_eq_mapFailed env sharedMem.size).mp
    · rw [hret, hcontext]
      generalize hb : insertedBlock _ _ = b
      have hslot : b.ownsSlot = true := by
        rw [← hb]
        exact (ownsSlot_insertedBlock _ _).mpr hflags
      have hoffsetNat : b.offset.toNat = i := by
        rw [← hb]
        exact UInt32.toNat_ofNat_of_lt' hi64
      have hwellFormed : BlockWellFormed context.addr b := by
        rw [← hb]
        refine ⟨rfl, rfl, fun _ => mappedBuffer_ne_zero env sharedMem.size, fun _ => ?_⟩
        exact Or.inr ⟨hzero, (ownsSlot_insertedBlock _ _).mpr hflags⟩
      have hkeeps : ¬ AllocateUndoes env context sharedMem := by
        intro hundo
        obtain ⟨_, _, hundo⟩ := hundo
        rw [if_neg hnotzero] at hundo
        cases hundo.2.2.2 with
        | inl hmap => exact hbuffer ((mappedBuffer_eq_mapFailed env sharedMem.size).mpr hmap)
        | inr hunlocked =>
            rw [hlocked] at hunlocked
            exact absurd hunlocked (by decide)
      have heffect := AllocateEffect.mappedInserted hkeeps b hwellFormed hslot
        (by rw [hoffsetNat]; exact hi) (by rw [hoffsetNat]; exact hfree)
      rwa [hoffsetNat] at heffect

theorem teecAllocateSharedMemory_effect (env : AllocateEnv) (sharedMem : SharedMemory)
    (hlength : context.shmBitmap.length = numOfSharememBitmap) :
    AllocateEffect env context sharedMem
      (teecAllocateSharedMemory env context (some sharedMem)).1
      (teecAllocateSharedMemory env context (some sharedMem)).2 := by
  cases hshm : env.shmHidl with
  | false =>
      have hcall : teecAllocateSharedMemory env context (some sharedMem) = (teecFail, context) := by
        simp [teecAllocateSharedMemory, hshm]
      rw [hcall]
      refine AllocateEffect.refused _ (show teecFail ≠ teecSuccess by decide) fun hundo => ?_
      exact Bool.false_ne_true (hshm.symm.trans hundo.1)
  | true =>
      by_cases hcheck : checkSharedMemoryParam env.contextFound (requestedShm sharedMem) .allocate =
          teecSuccess
      · obtain ⟨hfound, hkind⟩ := (checkSharedMemoryParam_allocate _ _).mp hcheck
        cases hzero : isZeroCopyMem sharedMem.flags with
        | false =>
            have hflags := hkind.resolve_left (by simp [requestedShm, hzero])
            exact allocate_mapped_effect hlength hshm hfound hzero hflags
        | true => exact allocate_zeroCopy_effect hshm hfound hzero
      · rw [allocate_unchecked hshm hcheck]
        refine AllocateEffect.refused _ hcheck ?_
        rintro ⟨_, hfound, hundo⟩
        refine hcheck ((checkSharedMemoryParam_allocate _ _).mpr ⟨hfound, ?_⟩)
        cases hzero : isZeroCopyMem sharedMem.flags with
        | false =>
            rw [if_neg (by simp [hzero])] at hundo
            exact Or.inr hundo.1
        | true => exact Or.inl hzero

end Allocate

/-! ### What a registration and a release do -/

/-- The record of a registered block as it stands in the list. -/
def registeredBlock (context : ContextHidl) (sharedMem : SharedMemory) : SharedMemoryHidl where
  buffer := sharedMem.buffer
  size := sharedMem.size
  flags := sharedMem.flags
  opsCnt := 1
  isAllocated := false
  context := context.addr
  offset := 0xffffffff

/-- A registration fails and leaves the context alone, or appends a block without a slot. -/
theorem teecRegisterSharedMemory_cases (env : RegisterEnv) (context : ContextHidl)
    (sharedMem : SharedMemory) :
    ((teecRegisterSharedMemory env context (some sharedMem)).1 ≠ teecSuccess ∧
      (teecRegisterSharedMemory env context (some sharedMem)).2 = context) ∨
    ((teecRegisterSharedMemory env context (some sharedMem)).1 = teecSuccess ∧
      (teecRegisterSharedMemory env context (some sharedMem)).2 =
        { context with
          shrdMemList := context.shrdMemList ++ [registeredBlock context sharedMem] }) := by
  have hgeneric : teecErrorGeneric ≠ teecSuccess := by decide
  have hfail : teecFail ≠ teecSuccess := by decide
  cases hshm : env.shmHidl with
  | false => simp [teecRegisterSharedMemory, hshm, hfail]
  | true =>
      by_cases hcheck : checkSharedMemoryParam env.contextFound
          { buffer := sharedMem.buffer, size := sharedMem.size, flags := sharedMem.flags }
          .register = teecSuccess
      · cases hlocked : env.shrMemLocked with
        | false =>
            left
            simp [teecRegisterSharedMemory, hshm, registerSharedMemoryHidl, hcheck, hlocked,
              hgeneric]
        | true =>
            right
            simp only [teecRegisterSharedMemory, hshm, registerSharedMemoryHidl, hcheck, hlocked,
              Bool.not_true, Bool.false_eq_true, if_false, ne_eq, not_true_eq_false, if_true,
              putInserted_append, true_and]
            rfl
      · left
        simp [teecRegisterSharedMemory, hshm, registerSharedMemoryHidl, hcheck]

theorem registeredBlock_wellFormed (context : ContextHidl) (sharedMem : SharedMemory) :
    BlockWellFormed context.addr (registeredBlock context sharedMem) :=
  ⟨rfl, rfl, by simp [registeredBlock], by simp [registeredBlock]⟩

theorem registeredBlock_ownsSlot (context : ContextHidl) (sharedMem : SharedMemory) :
    (registeredBlock context sharedMem).ownsSlot = false := rfl

theorem findAndRemoveLoop_some {p : SharedMemoryHidl → Bool}
    {blocks rest : List SharedMemoryHidl} {b : SharedMemoryHidl}
    (h : findAndRemoveLoop p blocks = some (b, rest)) :
    ∃ before after, blocks = before ++ b :: after ∧ rest = before ++ after := by
  induction blocks generalizing rest with
  | nil => simp [findAndRemoveLoop] at h
  | cons b' blocks ih =>
      rw [findAndRemoveLoop] at h
      split_ifs at h with hp
      · obtain ⟨rfl, rfl⟩ := Prod.mk.inj (Option.some.inj h)
        exact ⟨[], blocks, rfl, rfl⟩
      · cases hloop : findAndRemoveLoop p blocks with
        | none => simp [hloop] at h
        | some found =>
            rw [hloop] at h
            obtain ⟨rfl, rfl⟩ := Prod.mk.inj (Option.some.inj h)
            obtain ⟨before, after, rfl, hrest⟩ := ih hloop
            exact ⟨b' :: before, after, rfl, by rw [hrest]; rfl⟩

/-- A block found by a release is taken out of the list, which is all the search does. -/
theorem findAndRemoveShrMemHidl_some {locked : Bool} {shm b : SharedMemoryHidl}
    {context context' : ContextHidl}
    (h : findAndRemoveShrMemHidl locked shm context = some (b, context')) :
    ∃ before after, context.shrdMemList = before ++ b :: after ∧
      context' = { context with shrdMemList := before ++ after } := by
  rw [findAndRemoveShrMemHidl] at h
  split_ifs at h
  cases hloop : findAndRemoveLoop (isSearchedFor context shm) context.shrdMemList with
  | none => simp [hloop] at h
  | some found =>
      rw [hloop] at h
      obtain ⟨rfl, rfl⟩ := Prod.mk.inj (Option.some.inj h)
      obtain ⟨before, after, hlist, hrest⟩ := findAndRemoveLoop_some hloop
      exact ⟨before, after, hlist, by rw [hrest]⟩

/-- A release of a block in the list: without effect on the bitmap for a registered block, and
otherwise the block's bit is cleared if the lock is obtained. -/
theorem putBnShrMem_eq {addr : UInt64} {b : SharedMemoryHidl} (hb : BlockWellFormed addr b)
    (clearLocked : Bool) (context : ContextHidl) :
    putBnShrMem clearLocked b context =
      if b.isAllocated then clearBitWithLock clearLocked b.offset context else context := by
  rw [putBnShrMem, hb.opsCnt, if_pos (by decide), releaseSharedMemory]
  cases hallocated : b.isAllocated with
  | false => simp
  | true => simp [hb.buffer hallocated]

/-! ### What keeps the bitmap -/

section Kept

variable {context : ContextHidl}

theorem clearBitWithLock_false (i : UInt32) :
    clearBitWithLock false i context = context := rfl

theorem clearBitWithLock_true (i : UInt32) :
    clearBitWithLock true i context =
      { context with shmBitmap := clearBit i.toNat numOfSharememBitmap context.shmBitmap } := rfl

/-- Taking a block without a slot out of the list changes nothing about the match. -/
theorem matches_remove_other {before after : List SharedMemoryHidl} {b : SharedMemoryHidl}
    (hlength : context.shmBitmap.length = numOfSharememBitmap)
    (hlist : context.shrdMemList = before ++ b :: after) (hslot : b.ownsSlot = false)
    (hmatches : BitmapMatches context) :
    BitmapMatches { context with shrdMemList := before ++ after } := by
  obtain ⟨hbits, hnodup⟩ := (bitmapMatches_iff _ hlength).mp hmatches
  have hslots : slots context.shrdMemList = slots (before ++ after) := by
    rw [hlist, slots_append, slots_append, slots_cons_of_not hslot]
  rw [hslots] at hbits hnodup
  exact (bitmapMatches_iff { context with shrdMemList := before ++ after }
    hlength).mpr ⟨hbits, hnodup⟩

/-- Taking a block with a slot out of the list asks for its bit to be cleared. -/
theorem matches_remove_owner {before after : List SharedMemoryHidl} {b : SharedMemoryHidl}
    (hlength : context.shmBitmap.length = numOfSharememBitmap)
    (hlist : context.shrdMemList = before ++ b :: after) (hslot : b.ownsSlot = true)
    (hmatches : BitmapMatches context) (clearLocked : Bool) :
    BitmapMatches (clearBitWithLock clearLocked b.offset
      { context with shrdMemList := before ++ after }) ↔ clearLocked = true := by
  obtain ⟨hbits, hnodup⟩ := (bitmapMatches_iff _ hlength).mp hmatches
  have hslots : slots context.shrdMemList = slots before ++ b.offset.toNat :: slots after := by
    rw [hlist, slots_append, slots_cons_of_owns hslot]
  rw [hslots] at hbits hnodup
  obtain ⟨hrest, hnotin⟩ := List.nodup_middle.mp hnodup |> List.nodup_cons.mp |>.symm
  have hset : b.offset.toNat ∈ toSet context.shmBitmap := (hbits _).mpr (by simp)
  cases clearLocked with
  | false =>
      rw [clearBitWithLock_false]
      constructor
      · intro h
        obtain ⟨hbits', _⟩ := (bitmapMatches_iff
          { context with shrdMemList := before ++ after } hlength).mp h
        rw [slots_append] at hbits'
        exact absurd ((hbits' _).mp hset) hnotin
      · intro h
        exact absurd h (by decide)
  | true =>
      rw [clearBitWithLock_true]
      refine ⟨fun _ => rfl, fun _ => ?_⟩
      rw [bitmapMatches_iff _ (by simpa using hlength)]
      dsimp only
      rw [slots_append, ← hlength, toSet_clearBit (lt_of_mem hset)]
      refine ⟨fun i => ?_, hrest⟩
      rw [Set.mem_sdiff, hbits, Set.mem_singleton_iff]
      constructor
      · rintro ⟨hi, hne⟩
        simpa [hne] using hi
      · intro hi
        refine ⟨by simp at hi ⊢; tauto, ?_⟩
        rintro rfl
        exact hnotin hi

/-- Clearing bit 0 for a block without a slot keeps the match exactly when the bit is not in use. -/
theorem matches_clear_zero (hlength : context.shmBitmap.length = numOfSharememBitmap)
    (hmatches : BitmapMatches context) (clearLocked : Bool) :
    BitmapMatches (clearBitWithLock clearLocked 0 context) ↔
      (clearLocked = true → checkBit 0 numOfSharememBitmap context.shmBitmap = false) := by
  cases clearLocked with
  | false => simpa [clearBitWithLock_false] using hmatches
  | true =>
      have hclear : toSet (clearBit 0 numOfSharememBitmap context.shmBitmap) =
          toSet context.shmBitmap \ {0} := by
        rw [← hlength]
        exact toSet_clearBit (by rw [hlength]; decide)
      have hbit : checkBit 0 numOfSharememBitmap context.shmBitmap = true ↔
          0 ∈ toSet context.shmBitmap := by
        rw [← hlength]
        exact checkBit_iff
      obtain ⟨hbits, hnodup⟩ := (bitmapMatches_iff _ hlength).mp hmatches
      rw [clearBitWithLock_true, bitmapMatches_iff _ (by simpa using hlength)]
      change (∀ i, i ∈ toSet (clearBit 0 numOfSharememBitmap context.shmBitmap) ↔
        i ∈ slots context.shrdMemList) ∧ (slots context.shrdMemList).Nodup ↔ _
      rw [hclear, Bool.eq_false_iff, ne_eq, hbit]
      constructor
      · rintro ⟨hbits', _⟩ _ hzero
        exact ((hbits' 0).mpr ((hbits 0).mp hzero)).2 rfl
      · intro h
        have hzero := h rfl
        refine ⟨fun i => ?_, hnodup⟩
        rw [Set.sdiff_singleton_eq_self hzero]
        exact hbits i

theorem matches_append_other {b : SharedMemoryHidl}
    (hlength : context.shmBitmap.length = numOfSharememBitmap) (hslot : b.ownsSlot = false)
    (hmatches : BitmapMatches context) :
    BitmapMatches { context with shrdMemList := context.shrdMemList ++ [b] } := by
  obtain ⟨hbits, hnodup⟩ := (bitmapMatches_iff _ hlength).mp hmatches
  have hslots : slots (context.shrdMemList ++ [b]) = slots context.shrdMemList := by
    rw [slots_append, slots_cons_of_not hslot]
    exact List.append_nil _
  rw [bitmapMatches_iff _ (by exact hlength)]
  dsimp only
  rw [hslots]
  exact ⟨hbits, hnodup⟩

theorem matches_append_owner {b : SharedMemoryHidl}
    (hlength : context.shmBitmap.length = numOfSharememBitmap) (hslot : b.ownsSlot = true)
    (hi : b.offset.toNat < 8 * numOfSharememBitmap)
    (hfree : b.offset.toNat ∉ toSet context.shmBitmap) (hmatches : BitmapMatches context) :
    BitmapMatches { context with
      shmBitmap := setBit b.offset.toNat numOfSharememBitmap context.shmBitmap
      shrdMemList := context.shrdMemList ++ [b] } := by
  obtain ⟨hbits, hnodup⟩ := (bitmapMatches_iff _ hlength).mp hmatches
  have hslots : slots (context.shrdMemList ++ [b]) =
      slots context.shrdMemList ++ [b.offset.toNat] := by
    rw [slots_append, slots_cons_of_owns hslot]
    rfl
  have hnew : b.offset.toNat ∉ slots context.shrdMemList := fun h => hfree ((hbits _).mpr h)
  rw [bitmapMatches_iff _ (by simpa using hlength)]
  dsimp only
  rw [hslots, ← hlength, toSet_setBit (by rw [hlength]; exact hi)]
  refine ⟨fun i => ?_, ?_⟩
  · rw [Set.mem_insert_iff, hbits, List.mem_append, List.mem_singleton, or_comm]
  · rw [List.nodup_append]
    refine ⟨hnodup, List.nodup_singleton _, fun i hi j hj hij => ?_⟩
    rw [List.mem_singleton] at hj
    rw [hij, hj] at hi
    exact hnew hi

/-- Backing out of a mapped allocation keeps the match exactly when the slot is given back. -/
theorem matches_undo_mapped {i : Nat} (hlength : context.shmBitmap.length = numOfSharememBitmap)
    (hi : i < 8 * numOfSharememBitmap) (hfree : i ∉ toSet context.shmBitmap)
    (hmatches : BitmapMatches context) (clearLocked : Bool) :
    (clearLocked = true → clearBitWithLock clearLocked (UInt32.ofNat i)
      { context with shmBitmap := setBit i numOfSharememBitmap context.shmBitmap } = context) ∧
    (BitmapMatches (clearBitWithLock clearLocked (UInt32.ofNat i)
      { context with shmBitmap := setBit i numOfSharememBitmap context.shmBitmap }) →
        clearLocked = true) := by
  have hlt : i < 8 * context.shmBitmap.length := by rw [hlength]; exact hi
  cases clearLocked with
  | false =>
      refine ⟨fun h => absurd h (by decide), fun h => ?_⟩
      rw [clearBitWithLock_false] at h
      obtain ⟨hbits, _⟩ := (bitmapMatches_iff _ hlength).mp hmatches
      obtain ⟨hbits', _⟩ := (bitmapMatches_iff _ (by simpa using hlength)).mp h
      have hset := hbits' i
      dsimp only at hset
      rw [← hlength, toSet_setBit hlt, ← hbits] at hset
      exact absurd (hset.mp (Set.mem_insert i _)) hfree
  | true =>
      refine ⟨fun _ => ?_, fun _ => rfl⟩
      have hnat : (UInt32.ofNat i).toNat = i :=
        UInt32.toNat_ofNat_of_lt' (lt_of_lt_of_le hi (by decide))
      have hback := clearBit_setBit hlt hfree
      rw [hlength] at hback
      rw [clearBitWithLock_true, hnat]
      dsimp only
      rw [hback]

end Kept

/-! ### Runs -/

theorem clearBitWithLock_wellFormed {context : ContextHidl} (hwf : WellFormed context)
    (locked : Bool) (i : UInt32) : WellFormed (clearBitWithLock locked i context) := by
  cases locked with
  | false => exact hwf
  | true => exact ⟨by simpa [clearBitWithLock_true] using hwf.length, hwf.blocks⟩

theorem append_wellFormed {context : ContextHidl} (hwf : WellFormed context)
    {b : SharedMemoryHidl} (hb : BlockWellFormed context.addr b) :
    WellFormed { context with shrdMemList := context.shrdMemList ++ [b] } := by
  refine ⟨hwf.length, fun b' hb' => ?_⟩
  rcases List.mem_append.mp hb' with hold | hnew
  · exact hwf.blocks b' hold
  · rw [List.mem_singleton] at hnew
    rw [hnew]
    exact hb

theorem run_wellFormed {context : ContextHidl} (hwf : WellFormed context) (call : Call) :
    WellFormed (call.run context) := by
  cases call with
  | allocate sharedMem env =>
      cases sharedMem with
      | none => exact hwf
      | some sharedMem =>
          have heffect := teecAllocateSharedMemory_effect env sharedMem
            hwf.length
          rw [Call.run]
          generalize (teecAllocateSharedMemory env context (some sharedMem)).1 = ret at heffect
          generalize (teecAllocateSharedMemory env context (some sharedMem)).2 = context'
            at heffect ⊢
          cases heffect with
          | refused _ _ => exact hwf
          | zeroCopyUndone _ _ _ => exact clearBitWithLock_wellFormed hwf _ _
          | mappedUndone _ _ _ _ i _ _ =>
              have hset : WellFormed { context with
                  shmBitmap := setBit i numOfSharememBitmap context.shmBitmap } :=
                ⟨by simpa using hwf.length, hwf.blocks⟩
              exact clearBitWithLock_wellFormed hset _ _
          | zeroCopyInserted _ b hb _ => exact append_wellFormed hwf hb
          | mappedInserted _ b hb _ _ _ =>
              have h := append_wellFormed hwf hb
              exact ⟨by simpa using h.length, h.blocks⟩
  | register sharedMem env =>
      cases sharedMem with
      | none => exact hwf
      | some sharedMem =>
          rw [Call.run]
          rcases teecRegisterSharedMemory_cases env context sharedMem with ⟨-, h⟩ | ⟨-, h⟩ <;> rw [h]
          · exact hwf
          · exact append_wellFormed hwf (registeredBlock_wellFormed context sharedMem)
  | release sharedMem env =>
      cases sharedMem with
      | none => exact hwf
      | some sharedMem =>
          rw [Call.run, teecReleaseSharedMemory, releaseSharedMemoryHidl]
          split_ifs
          · exact hwf
          · cases hfind : findAndRemoveShrMemHidl env.shrMemLocked
                (releaseShmHidl context sharedMem) context with
            | none => exact hwf
            | some found =>
                obtain ⟨b, context'⟩ := found
                obtain ⟨before, after, hlist, rfl⟩ := findAndRemoveShrMemHidl_some hfind
                have hb := hwf.blocks b (by rw [hlist]; simp)
                have hrest : WellFormed { context with shrdMemList := before ++ after } := by
                  refine ⟨hwf.length, fun b' hb' => hwf.blocks b' ?_⟩
                  rw [hlist]
                  rcases List.mem_append.mp hb' with h | h <;> simp [h]
                dsimp only
                rw [putBnShrMem_eq hb]
                split_ifs
                · exact clearBitWithLock_wellFormed hrest _ _
                · exact hrest

theorem allocate_kept_iff {context : ContextHidl} (hwf : WellFormed context)
    (hmatches : BitmapMatches context) (sharedMem : Option SharedMemory) (env : AllocateEnv) :
    BitmapKept context (.allocate sharedMem env) ↔
      SlotCondition context (.allocate sharedMem env) := by
  cases sharedMem with
  | none => exact ⟨fun _ => trivial, fun _ => ⟨hmatches, fun _ => ⟨rfl, rfl⟩⟩⟩
  | some sharedMem =>
      have heffect := teecAllocateSharedMemory_effect env sharedMem
        hwf.length
      rw [BitmapKept, SlotCondition]
      simp only [Call.run]
      generalize (teecAllocateSharedMemory env context (some sharedMem)).1 = ret at heffect ⊢
      generalize (teecAllocateSharedMemory env context (some sharedMem)).2 = context'
        at heffect ⊢
      cases heffect with
      | refused _ _ hundo =>
          exact ⟨fun _ h => absurd h hundo, fun _ => ⟨hmatches, fun _ => ⟨rfl, rfl⟩⟩⟩
      | zeroCopyUndone _ hret hundo hzero =>
          rw [ClearsOwnSlot, if_pos hzero, matches_clear_zero hwf.length hmatches]
          constructor
          · intro h _
            exact h.1
          · intro h
            refine ⟨h hundo, fun _ => ?_⟩
            cases hlocked : env.clearLocked with
            | false => exact ⟨rfl, rfl⟩
            | true =>
                refine ⟨?_, rfl⟩
                have hfree : 0 ∉ toSet context.shmBitmap := by
                  intro hmem
                  have hset := checkBit_iff.mpr hmem
                  rw [hwf.length, h hundo hlocked] at hset
                  exact absurd hset (by decide)
                apply eq_of_toSet_eq (by simp [clearBitWithLock_true])
                rw [clearBitWithLock_true, ← hwf.length]
                exact (toSet_clearBit (by rw [hwf.length]; decide)).trans
                  (Set.sdiff_singleton_eq_self hfree)
      | mappedUndone _ hret hundo hzero i hi hfree =>
          obtain ⟨hback, hkeeps⟩ :=
            matches_undo_mapped hwf.length hi hfree hmatches env.clearLocked
          rw [ClearsOwnSlot, if_neg (by simp [hzero])]
          constructor
          · intro h _
            exact hkeeps h.1
          · intro h
            rw [hback (h hundo)]
            exact ⟨hmatches, fun _ => ⟨rfl, rfl⟩⟩
      | zeroCopyInserted hundo b hb hslot =>
          refine ⟨fun _ h => absurd h hundo, fun _ => ⟨?_, fun h => absurd rfl h⟩⟩
          exact matches_append_other hwf.length hslot hmatches
      | mappedInserted hundo b hb hslot hi hfree =>
          refine ⟨fun _ h => absurd h hundo, fun _ => ⟨?_, fun h => absurd rfl h⟩⟩
          exact matches_append_owner hwf.length hslot hi hfree hmatches

theorem register_kept {context : ContextHidl} (hwf : WellFormed context)
    (hmatches : BitmapMatches context) (sharedMem : Option SharedMemory) (env : RegisterEnv) :
    BitmapKept context (.register sharedMem env) := by
  refine ⟨?_, trivial⟩
  cases sharedMem with
  | none => exact hmatches
  | some sharedMem =>
      rw [Call.run]
      rcases teecRegisterSharedMemory_cases env context sharedMem with ⟨-, h⟩ | ⟨-, h⟩ <;> rw [h]
      · exact hmatches
      · exact matches_append_other hwf.length (registeredBlock_ownsSlot context sharedMem) hmatches

/-- Taking a found block off keeps the match exactly when its bit is treated as its kind asks. -/
theorem release_found_iff {context : ContextHidl} (hwf : WellFormed context)
    (hmatches : BitmapMatches context) {before after : List SharedMemoryHidl}
    {b : SharedMemoryHidl} (hlist : context.shrdMemList = before ++ b :: after)
    (clearLocked : Bool) :
    BitmapMatches (putBnShrMem clearLocked b { context with shrdMemList := before ++ after }) ↔
      (b.isAllocated = true → ClearsOwnSlot context b.flags clearLocked) := by
  have hb := hwf.blocks b (by rw [hlist]; simp)
  rw [putBnShrMem_eq hb, ClearsOwnSlot]
  cases hallocated : b.isAllocated with
  | false =>
      have hslot : b.ownsSlot = false := by simp [SharedMemoryHidl.ownsSlot, hallocated]
      have hrest := matches_remove_other hwf.length hlist hslot hmatches
      exact ⟨fun _ h => absurd h (by decide), fun _ => hrest⟩
  | true =>
      rw [if_pos rfl]
      rcases hb.kind hallocated with ⟨hzero, hoffset, hslot⟩ | ⟨hzero, hslot⟩
      · have hrest := matches_remove_other hwf.length hlist hslot hmatches
        rw [hoffset, if_pos hzero]
        have h := matches_clear_zero (by exact hwf.length) hrest clearLocked
        exact ⟨fun hkept _ => h.mp hkept, fun hclear => h.mpr (hclear rfl)⟩
      · rw [if_neg (by simp [hzero])]
        have h := matches_remove_owner hwf.length hlist hslot hmatches clearLocked
        exact ⟨fun hkept _ => h.mp hkept, fun hclear => h.mpr (hclear rfl)⟩

theorem release_kept_iff {context : ContextHidl} (hwf : WellFormed context)
    (hmatches : BitmapMatches context) (sharedMem : Option SharedMemory) (env : ReleaseEnv) :
    BitmapKept context (.release sharedMem env) ↔
      SlotCondition context (.release sharedMem env) := by
  cases sharedMem with
  | none => exact ⟨fun _ => trivial, fun _ => ⟨hmatches, trivial⟩⟩
  | some sharedMem =>
      have hkept : BitmapKept context (.release (some sharedMem) env) ↔
          BitmapMatches ((Call.release (some sharedMem) env).run context) := and_iff_left trivial
      rw [hkept, SlotCondition, Call.run, teecReleaseSharedMemory, releaseSharedMemoryHidl]
      cases hfound : env.contextFound with
      | false => exact ⟨fun _ h => absurd h (by decide), fun _ => hmatches⟩
      | true =>
          simp only [Bool.not_true, Bool.false_eq_true, if_false]
          cases hfind : findAndRemoveShrMemHidl env.shrMemLocked
              (releaseShmHidl context sharedMem) context with
          | none => exact ⟨fun _ _ b context' h => by simp at h, fun _ => hmatches⟩
          | some found =>
              obtain ⟨b, context'⟩ := found
              obtain ⟨before, after, hlist, rfl⟩ := findAndRemoveShrMemHidl_some hfind
              have h := release_found_iff hwf hmatches hlist env.clearLocked
              constructor
              · intro hkept _ b' context' heq
                obtain ⟨rfl, rfl⟩ := Prod.mk.inj (Option.some.inj heq)
                exact h.mp hkept
              · intro hclear
                exact h.mpr (hclear trivial b _ rfl)

/-- A single call keeps the bitmap exactly when it meets the condition. -/
theorem bitmapKept_iff {context : ContextHidl} (hwf : WellFormed context)
    (hmatches : BitmapMatches context) (call : Call) :
    BitmapKept context call ↔ SlotCondition context call := by
  cases call with
  | allocate sharedMem env => exact allocate_kept_iff hwf hmatches sharedMem env
  | register sharedMem env => exact ⟨fun _ => trivial, fun _ => register_kept hwf hmatches _ _⟩
  | release sharedMem env => exact release_kept_iff hwf hmatches sharedMem env

theorem initializedContext_wellFormed (addr : UInt64) : WellFormed (initializedContext addr) :=
  ⟨rfl, by simp [initializedContext]⟩

theorem initializedContext_matches (addr : UInt64) : BitmapMatches (initializedContext addr) := by
  refine ⟨fun i => ?_, List.Pairwise.nil⟩
  have hempty : checkBit i numOfSharememBitmap (List.replicate numOfSharememBitmap 0) = false := by
    rw [checkBit]
    split_ifs with hi
    · rfl
    · rw [List.getD_eq_getElem?_getD, List.getElem?_replicate_of_lt (not_le.mp hi)]
      simp
  simp [initializedContext, hempty]

/-- Every call of a run keeps the bitmap exactly when every call of the run meets the condition. -/
theorem run_keeps_bitmap_iff (addr : UInt64) (calls : List Call) :
    Machine.Along shmStep BitmapKept (initializedContext addr) calls ↔
      Machine.Along shmStep SlotCondition (initializedContext addr) calls := by
  refine Machine.along_congr (fun context => WellFormed context ∧ BitmapMatches context)
    (fun context call hinv => bitmapKept_iff hinv.1 hinv.2 call)
    (fun context call context' hinv hkept hstep => ?_)
    ⟨initializedContext_wellFormed addr, initializedContext_matches addr⟩
  obtain rfl := Option.some.inj hstep
  exact ⟨run_wellFormed hinv.1 call, hkept.1⟩

/-- An input block, then a zero-copy block, then the release of the second. -/
def zeroCopyRelease : List Call :=
  let env : AllocateEnv := ⟨true, true, true, some ⟨0x5000, by decide⟩, true, true, true⟩
  [.allocate (some ⟨0, 16, teecMemInput, false⟩) env,
    .allocate (some ⟨0, 16, teecMemSharedInout, false⟩)
      { env with buffer := some ⟨0x6000, by decide⟩ },
    .release (some ⟨0x6000, 16, teecMemSharedInout, true⟩) ⟨true, true, true⟩]

/-- The release clears bit 0, which stands for the input block. -/
theorem zeroCopyRelease_clears :
    ¬ Machine.Along shmStep BitmapKept (initializedContext 0x8000) zeroCopyRelease := by
  intro h
  have hrelease := (((h.2 _ rfl).2 _ rfl).1).1
  have hbit := hrelease.bit_iff 0
  have hclear : ¬ checkBit 0 numOfSharememBitmap
      ((zeroCopyRelease.foldl (fun context call => call.run context)
        (initializedContext 0x8000)).shmBitmap) = true := by decide
  exact hclear (hbit.mpr ⟨_, List.mem_cons_self, by decide, by decide⟩)

end ITrustee.Libteec
