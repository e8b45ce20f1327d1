import Mathlib
import ITrustee.Libteec.EncodeParam

/-!
# The memory a reference denotes

The driver reads the region of a memory reference off the encoded parameter: the start is the encoded
buffer address plus the encoded offset, the length is the word found at the encoded size address. For
a partial reference this region lies inside the parent block as long as the 32-bit sum of offset and
size that `TEEC_CheckMemRef` compares does not wrap. For a whole-block reference it is the parent
block, unless the block is a registered one and the client left something in the offset.
-/

namespace ITrustee.Libteec

open Words

/-- Where the region of an encoded reference starts. -/
def ClientMemref.start (m : ClientMemref) : Nat :=
  joinHalves m.buffer m.bufferHAddr + m.offset.toNat

/-- The word at an address, where that is the size of a reference of the operation at `opAddr`. -/
def Operation.sizeAt (opAddr : UInt64) (operation : Operation) (addr : Nat) : Option UInt32 :=
  [0, 1, 2, 3].findSome? fun i =>
    if (paramAddr opAddr i + sizeOffset).toNat = addr then some (operation.params i).memref.size
    else none

/-- The region the driver sees in slot `i` lies inside the block `parent`. -/
def RegionInside (opAddr : UInt64) (cliContext : ClientContext) (operation' : Operation)
    (i : Fin 4) (parent : SharedMemory) : Prop :=
  ∃ m size, cliContext.params i = .memref m ∧
    operation'.sizeAt opAddr (joinHalves m.sizeAddr m.sizeHAddr) = some size ∧
    parent.buffer.toNat ≤ m.start ∧
    m.start + size.toNat ≤ parent.buffer.toNat + parent.size.toNat

/-- The region the driver sees in slot `i` is the block `parent`. -/
def RegionExact (opAddr : UInt64) (cliContext : ClientContext) (operation' : Operation)
    (i : Fin 4) (parent : SharedMemory) : Prop :=
  ∃ m size, cliContext.params i = .memref m ∧
    operation'.sizeAt opAddr (joinHalves m.sizeAddr m.sizeHAddr) = some size ∧
    m.start = parent.buffer.toNat ∧ size = parent.size

def isPartialType (paramType : UInt32) : Prop :=
  paramType = teecMemrefPartialInput ∨ paramType = teecMemrefPartialOutput ∨
    paramType = teecMemrefPartialInout

/-- Neither the 32-bit sum of offset and size nor, for a registered block, the address sum wraps. -/
def SumsFit (memref : RegisteredMemoryReference) (parent : SharedMemory) : Prop :=
  memref.offset.toNat + memref.size.toNat < 2 ^ 32 ∧
    (parent.isAllocated = false → parent.buffer.toNat + memref.offset.toNat < 2 ^ 64)

theorem paramAddr_inj {opAddr : UInt64} {i j : Fin 4}
    (h : paramAddr opAddr i + sizeOffset = paramAddr opAddr j + sizeOffset) : i = j := by
  have hslots : ∀ i j : Fin 4,
      16 * UInt64.ofNat i = 16 * UInt64.ofNat j → i = j := by decide
  apply hslots
  rw [UInt64.add_left_inj, paramAddr, paramAddr, UInt64.add_right_inj] at h
  exact h

/-- The size of a slot is what is found at the address of that size. -/
theorem sizeAt_self (opAddr : UInt64) (operation : Operation) (i : Fin 4) :
    operation.sizeAt opAddr (paramAddr opAddr i + sizeOffset).toNat =
      some (operation.params i).memref.size := by
  have hcond : ∀ j, (paramAddr opAddr j + sizeOffset).toNat =
      (paramAddr opAddr i + sizeOffset).toNat ↔ j = i := by
    intro j
    rw [UInt64.toNat_inj]
    constructor
    · intro h
      exact paramAddr_inj h
    · rintro rfl
      rfl
  rw [Operation.sizeAt]
  simp only [hcond]
  fin_cases i <;> rfl

theorem whole_ne_of_partial {paramType : UInt32} (h : isPartialType paramType) :
    paramType ≠ teecMemrefWhole := by
  rcases h with rfl | rfl | rfl <;> decide

theorem isPartialMem_of_partial {paramType : UInt32} (h : isPartialType paramType) :
    isPartialMem paramType := by
  rcases h with rfl | rfl | rfl <;> decide

/-- The start of an encoded reference: for an allocated block, the offset stands apart and is 0 for
a whole-block reference; for a registered one, it is added to the address modulo `2 ^ 64`. -/
theorem encodePartialParam_start (paramType : UInt32) (memref : RegisteredMemoryReference)
    (addr : UInt64) (parent : SharedMemory) :
    (encodePartialParam paramType memref addr parent).2.start =
      if parent.isAllocated then
        parent.buffer.toNat + if paramType = teecMemrefWhole then 0 else memref.offset.toNat
      else (parent.buffer.toNat + memref.offset.toNat) % 2 ^ 64 := by
  cases hallocated : parent.isAllocated with
  | true =>
      by_cases hwhole : paramType = teecMemrefWhole
      · simp only [encodePartialParam, hwhole, hallocated, if_true, ClientMemref.start,
          joinHalves_split]
        rfl
      · simp only [encodePartialParam, hwhole, hallocated, if_true, if_false, ClientMemref.start,
          joinHalves_split]
  | false =>
      by_cases hwhole : paramType = teecMemrefWhole
      · simp only [encodePartialParam, hwhole, hallocated, Bool.false_eq_true, if_true, if_false,
          ClientMemref.start, joinHalves_split]
        rw [UInt64.toNat_add]
        simp
      · simp only [encodePartialParam, hwhole, hallocated, Bool.false_eq_true, if_false,
          ClientMemref.start, joinHalves_split]
        rw [UInt64.toNat_add]
        simp

theorem encodePartialParam_size (paramType : UInt32) (memref : RegisteredMemoryReference)
    (addr : UInt64) (parent : SharedMemory) :
    (encodePartialParam paramType memref addr parent).1.size =
        (if paramType = teecMemrefWhole then parent.size else memref.size) ∧
      joinHalves (encodePartialParam paramType memref addr parent).2.sizeAddr
        (encodePartialParam paramType memref addr parent).2.sizeHAddr =
          (addr + sizeOffset).toNat := by
  by_cases hwhole : paramType = teecMemrefWhole <;>
    cases hallocated : parent.isAllocated <;>
      simp [encodePartialParam, hwhole, hallocated, joinHalves_split]

/-- What the driver sees in a slot that refers to a block. -/
theorem encodeParam_memref {opAddr : UInt64} {operation operation' : Operation}
    {cliContext : ClientContext}
    (hencode : encodeParam opAddr operation = some (cliContext, operation')) {i : Fin 4}
    (htype : isPartialMem (operation.paramType i)) {parent : SharedMemory}
    (hparent : (operation.params i).memref.parent = some parent) :
    ∃ m, cliContext.params i = .memref m ∧
      m.start = (if parent.isAllocated then
          parent.buffer.toNat +
            if operation.paramType i = teecMemrefWhole then 0
            else (operation.params i).memref.offset.toNat
        else (parent.buffer.toNat + (operation.params i).memref.offset.toNat) % 2 ^ 64) ∧
      operation'.sizeAt opAddr (joinHalves m.sizeAddr m.sizeHAddr) =
        some (if operation.paramType i = teecMemrefWhole then parent.size
          else (operation.params i).memref.size) := by
  obtain ⟨slot, hslot, hparam, _, hparameter⟩ := encodeParam_slots hencode
  obtain ⟨parameter, hencoded, hmemref⟩ := encodeSlot_memref opAddr (Or.inl htype) hparent
  obtain ⟨hsize, hsizeAddr⟩ := encodePartialParam_size (operation.paramType i)
    (operation.params i).memref (paramAddr opAddr i) parent
  rw [hslot i, Option.some.injEq] at hencoded
  have hmember := hparam i
  have hleft := hparameter i
  rw [hencoded] at hmember hleft
  refine ⟨_, hmember, encodePartialParam_start _ _ _ _, ?_⟩
  rw [hsizeAddr, sizeAt_self opAddr operation' i, hleft, hmemref, hsize]

/-- Where the check accepted the wrapped sum, the exact bounds hold exactly when nothing wrapped. -/
theorem bounds_iff_sumsFit {memref : RegisteredMemoryReference} {parent : SharedMemory}
    (hsum : memref.offset + memref.size ≤ parent.size) {start : Nat}
    (hstart : start = if parent.isAllocated then parent.buffer.toNat + memref.offset.toNat
      else (parent.buffer.toNat + memref.offset.toNat) % 2 ^ 64) :
    (parent.buffer.toNat ≤ start ∧
      start + memref.size.toNat ≤ parent.buffer.toNat + parent.size.toNat) ↔
    SumsFit memref parent := by
  have hle : (memref.offset.toNat + memref.size.toNat) % 2 ^ 32 ≤ parent.size.toNat := by
    have h := UInt32.le_iff_toNat_le.mp hsum
    rwa [UInt32.toNat_add] at h
  have hbuffer := parent.buffer.toNat_lt
  have hoffset := memref.offset.toNat_lt
  have hsize := parent.size.toNat_lt
  rw [SumsFit]
  cases hallocated : parent.isAllocated with
  | true =>
      rw [if_pos hallocated] at hstart
      simp only [Bool.true_eq_false, false_implies, and_true]
      omega
  | false =>
      rw [if_neg (by simp [hallocated])] at hstart
      simp only [forall_const]
      omega

/-- The region of a partial reference lies inside its parent exactly when no sum wraps. -/
theorem encodeParam_partial_inside_iff (context : Option ContextHidl) (lockRets : Fin 4 → Int)
    (operation : Operation) (opAddr : UInt64) (cliContext : ClientContext)
    (operation' : Operation)
    (hcheck : checkOperation context lockRets (some operation) = teecSuccess)
    (hencode : encodeParam opAddr operation = some (cliContext, operation'))
    (i : Fin 4) (htype : isPartialType (operation.paramType i)) :
    ∃ parent, (operation.params i).memref.parent = some parent ∧
      (RegionInside opAddr cliContext operation' i parent ↔
        SumsFit (operation.params i).memref parent) := by
  have hpart := isPartialMem_of_partial htype
  have hwhole := whole_ne_of_partial htype
  obtain ⟨parent, hparent, -, -, hsum⟩ := checkOperation_memRef hcheck hpart
  refine ⟨parent, hparent, ?_⟩
  obtain ⟨m, hmember, hstart, hsize⟩ := encodeParam_memref hencode hpart hparent
  simp only [hwhole, if_false] at hstart hsize
  rw [← bounds_iff_sumsFit (hsum htype) hstart, RegionInside]
  constructor
  · rintro ⟨m', size, hm, hread, hbounds⟩
    obtain rfl := ClientParam.memref.inj (hm.symm.trans hmember)
    rw [hsize, Option.some.injEq] at hread
    rwa [← hread] at hbounds
  · intro hbounds
    exact ⟨m, _, hmember, hsize, hbounds⟩

/-- An operation with one partial reference to an allocated block and no other parameter. -/
def partialOperation (size offset : UInt32) : Operation where
  started := 1
  paramTypes := packNibbles teecMemrefPartialInput teecNone teecNone teecNone
  params := ![{ memref := ⟨some ⟨0x1000, 16, teecMemInout, true⟩, size, offset⟩ }, {}, {}, {}]

/-- A context whose list holds the block. -/
def partialContext : ContextHidl where
  addr := 0x8000
  shrdMemList := [{ buffer := 0x1000, size := 16, flags := teecMemInout, isAllocated := true }]
  shmBitmap := [1, 0, 0, 0, 0, 0, 0, 0]
  callFromHidl := false

theorem partialOperation_inside : ∃ cliContext operation' parent,
    encodeParam 0x7000 (partialOperation 8 4) = some (cliContext, operation') ∧
      RegionInside 0x7000 cliContext operation' 0 parent := by
  have hslot : ∀ i, ∃ s, encodeSlot 0x7000 (partialOperation 8 4) i = some s := by
    intro i
    fin_cases i <;> exact ⟨_, rfl⟩
  choose slot hslot using hslot
  have hencode := encodeParam_of_slots hslot
  obtain ⟨parent, hparent, hiff⟩ := encodeParam_partial_inside_iff (some partialContext) (fun _ => 0)
    (partialOperation 8 4) 0x7000 _ _ (by decide) hencode 0 (by left; decide)
  obtain rfl := Option.some.inj hparent
  exact ⟨_, _, _, hencode, hiff.mpr (by constructor <;> decide)⟩

/-- Offset 2 and size `2 ^ 32 - 1` pass the check on a block of 16 bytes. -/
theorem partialOperation_outside :
    checkOperation (some partialContext) (fun _ => 0)
        (some (partialOperation 0xffffffff 2)) = teecSuccess ∧
      ∃ cliContext operation',
        encodeParam 0x7000 (partialOperation 0xffffffff 2) = some (cliContext, operation') ∧
          ¬ RegionInside 0x7000 cliContext operation' 0 ⟨0x1000, 16, teecMemInout, true⟩ := by
  refine ⟨by decide, _, _, rfl, ?_⟩
  rintro ⟨m, size, hm, hread, _, hend⟩
  obtain rfl := ClientParam.memref.inj hm
  obtain rfl := Option.some.inj hread
  exact absurd hend (by decide)

/-! ### Whole blocks -/

/-- The region of a whole-block reference is its parent exactly when the parent was allocated or the
offset of the reference is 0. -/
theorem encodeParam_whole_exact_iff (context : Option ContextHidl) (lockRets : Fin 4 → Int)
    (operation : Operation) (opAddr : UInt64) (cliContext : ClientContext)
    (operation' : Operation)
    (hcheck : checkOperation context lockRets (some operation) = teecSuccess)
    (hencode : encodeParam opAddr operation = some (cliContext, operation'))
    (i : Fin 4) (htype : operation.paramType i = teecMemrefWhole) :
    ∃ parent, (operation.params i).memref.parent = some parent ∧
      (RegionExact opAddr cliContext operation' i parent ↔
        parent.isAllocated = true ∨ (operation.params i).memref.offset = 0) := by
  have hpart : isPartialMem (operation.paramType i) := by
    rw [htype]
    decide
  obtain ⟨parent, hparent, -⟩ := checkOperation_memRef hcheck hpart
  refine ⟨parent, hparent, ?_⟩
  obtain ⟨m, hmember, hstart, hsize⟩ := encodeParam_memref hencode hpart hparent
  rw [if_pos htype] at hstart hsize
  have hexact : RegionExact opAddr cliContext operation' i parent ↔
      m.start = parent.buffer.toNat := by
    constructor
    · rintro ⟨m', size, hm, -, hbuffer, -⟩
      obtain rfl := ClientParam.memref.inj (hm.symm.trans hmember)
      exact hbuffer
    · intro hbuffer
      exact ⟨m, parent.size, hmember, hsize, hbuffer, rfl⟩
  have hbuffer := parent.buffer.toNat_lt
  have hoffset := (operation.params i).memref.offset.toNat_lt
  have hzero : (operation.params i).memref.offset = 0 ↔
      (operation.params i).memref.offset.toNat = 0 := UInt32.toNat_inj.symm
  rw [hexact, hstart, hzero]
  cases hallocated : parent.isAllocated with
  | true => simp
  | false =>
      rw [if_neg Bool.false_ne_true]
      simp only [Bool.false_eq_true, false_or]
      omega

/-- An operation with one whole-block reference, in which the client left an offset. -/
def wholeOperation (isAllocated : Bool) (offset : UInt32) : Operation where
  started := 1
  paramTypes := packNibbles teecMemrefWhole teecNone teecNone teecNone
  params := ![{ memref := ⟨some ⟨0x1000, 16, teecMemInout, isAllocated⟩, 3, offset⟩ }, {}, {}, {}]

theorem wholeOperation_exact : ∃ cliContext operation' parent,
    encodeParam 0x7000 (wholeOperation true 4) = some (cliContext, operation') ∧
      RegionExact 0x7000 cliContext operation' 0 parent := by
  have hslot : ∀ i, ∃ s, encodeSlot 0x7000 (wholeOperation true 4) i = some s := by
    intro i
    fin_cases i <;> exact ⟨_, rfl⟩
  choose slot hslot using hslot
  have hencode := encodeParam_of_slots hslot
  obtain ⟨parent, hparent, hiff⟩ := encodeParam_whole_exact_iff (some partialContext) (fun _ => 0)
    (wholeOperation true 4) 0x7000 _ _ (by decide) hencode 0 (by decide)
  obtain rfl := Option.some.inj hparent
  exact ⟨_, _, _, hencode, hiff.mpr (Or.inl rfl)⟩

/-- With a registered block of 16 bytes and an offset of 4, the region starts 4 bytes into the block
and ends 4 bytes behind it. -/
theorem wholeOperation_shifted :
    checkOperation (some partialContext) (fun _ => 0) (some (wholeOperation false 4)) =
        teecSuccess ∧
      ∃ cliContext operation',
        encodeParam 0x7000 (wholeOperation false 4) = some (cliContext, operation') ∧
          ¬ RegionExact 0x7000 cliContext operation' 0 ⟨0x1000, 16, teecMemInout, false⟩ := by
  refine ⟨by decide, _, _, rfl, ?_⟩
  rintro ⟨m, size, hm, -, hstart, -⟩
  obtain rfl := ClientParam.memref.inj hm
  exact absurd hstart (by decide)

end ITrustee.Libteec
