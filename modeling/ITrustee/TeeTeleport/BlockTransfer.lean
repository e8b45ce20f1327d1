import Mathlib
import ITrustee.Foundation.Blocks
import ITrustee.TeeTeleport.Scp

/-!
# Transfers in blocks

With no call failing, a push sends the blocks of the file one after another, and a pull writes the blocks
as they come. Both end as their last block does. A file without blocks is where they go wrong: the push
then returns the failure it starts with, and the pull what is on the stack.
-/

namespace ITrustee.TeeTeleport

open Blocks

/-! ### Sizes -/

section Sizes

variable {fileSize blks i : UInt64} {bs : UInt32}

theorem blockSize_of_more (hmore : i.toNat + 1 < blks.toNat) : blockSize fileSize blks bs i = bs := by
  have hlast : (blks - 1).toNat = blks.toNat - 1 := by
    apply UInt64.toNat_sub_of_le
    rw [UInt64.le_iff_toNat_le]
    show 1 ≤ _
    omega
  rw [blockSize, if_pos]
  rw [UInt64.lt_iff_toNat_lt, hlast]
  omega

theorem blockSize_last (hlast : i.toNat + 1 = blks.toNat) :
    blockSize fileSize blks bs i = (fileSize - i * bs.toUInt64).toUInt32 := by
  have hpred : (blks - 1).toNat = blks.toNat - 1 := by
    apply UInt64.toNat_sub_of_le
    rw [UInt64.le_iff_toNat_le]
    show 1 ≤ _
    omega
  rw [blockSize, if_neg]
  rw [UInt64.lt_iff_toNat_lt, hpred]
  omega

/-- The size of a block of a file with `left` bytes from there on. -/
theorem blockSize_eq {turns left : Nat} (hturns : i.toNat + (turns + 1) = blks.toNat)
    (hleft : i.toNat * bs.toNat + left = fileSize.toNat) (hfills : Fills bs.toNat (turns + 1) left) :
    (blockSize fileSize blks bs i).toNat = min bs.toNat left := by
  cases turns with
  | zero =>
      have hshort : left ≤ bs.toNat := by
        have := hfills.holds
        omega
      have hoffset : (i * bs.toUInt64).toNat = i.toNat * bs.toNat := by
        rw [UInt64.toNat_mul]
        apply Nat.mod_eq_of_lt
        have := fileSize.toNat_lt
        show i.toNat * bs.toNat < _
        omega
      have hdiff : (fileSize - i * bs.toUInt64).toNat = left := by
        rw [UInt64.toNat_sub_of_le _ _ (by rw [UInt64.le_iff_toNat_le, hoffset]; omega), hoffset]
        omega
      rw [blockSize_last hturns, UInt64.toNat_toUInt32, hdiff, Nat.min_eq_right hshort]
      exact Nat.mod_eq_of_lt (hshort.trans_lt bs.toNat_lt)
  | succ turns =>
      have hmore := hfills.tight (Nat.succ_pos _)
      have hone : bs.toNat ≤ (turns + 1) * bs.toNat := Nat.le_mul_of_pos_left _ (Nat.succ_pos _)
      rw [Nat.add_sub_cancel] at hmore
      rw [blockSize_of_more (by omega), Nat.min_eq_left (by omega)]

/-- The number of blocks that `CopyFile` computes. -/
theorem blks_eq (hbs : 0 < bs) :
    (if fileSize % bs.toUInt64 ≠ 0 then fileSize / bs.toUInt64 + 1
      else fileSize / bs.toUInt64).toNat = count bs.toNat fileSize.toNat := by
  have hpos : 0 < bs.toNat := UInt32.lt_iff_toNat_lt.mp hbs
  have hsize : bs.toUInt64.toNat = bs.toNat := UInt32.toNat_toUInt64 bs
  have hrest : fileSize % bs.toUInt64 = 0 ↔ fileSize.toNat % bs.toNat = 0 := by
    rw [← UInt64.toNat_inj, UInt64.toNat_mod, hsize]
    exact Iff.rfl
  rw [count_eq hpos]
  by_cases hzero : fileSize % bs.toUInt64 = 0
  · rw [if_neg (not_not.mpr hzero), if_pos (hrest.mp hzero), UInt64.toNat_div, hsize]
  · rw [if_pos hzero, if_neg (hrest.not.mp hzero), UInt64.toNat_add, UInt64.toNat_div, hsize]
    apply Nat.mod_eq_of_lt
    show fileSize.toNat / bs.toNat + 1 < _
    -- a remainder leaves the quotient below the size
    have hdivided := Nat.div_add_mod fileSize.toNat bs.toNat
    have hrem := Nat.pos_of_ne_zero (hrest.not.mp hzero)
    have hlt := fileSize.toNat_lt
    have hless := Nat.mod_lt fileSize.toNat hpos
    have : fileSize.toNat / bs.toNat + fileSize.toNat / bs.toNat ≤
        bs.toNat * (fileSize.toNat / bs.toNat) := by
      rw [← Nat.two_mul]
      exact Nat.mul_le_mul_right _ (by omega)
    omega

end Sizes

/-! ### To the TEE -/

/-- The calls of a push, none of which fails. -/
structure PushCalls.Succeed (calls : PushCalls) (file : List UInt8) : Prop where
  lstat : calls.lstat = some (UInt64.ofNat file.length)
  fopen : calls.fopen = some file
  fread : ∀ i n, calls.fread i n = n
  trigger : ∀ i scp, (calls.trigger i scp).1 = 0 ∧ (calls.trigger i scp).2.ret = 0

section Push

variable {lib : Securec} {calls : PushCalls} {file left : List UInt8} {fileSize blks i : UInt64}
  {bs : UInt32} {turns : Nat}

theorem succ_toNat {i n : UInt64} (h : i.toNat < n.toNat) : (i + 1).toNat = i.toNat + 1 := by
  rw [UInt64.toNat_add]
  exact Nat.mod_eq_of_lt (Nat.lt_of_le_of_lt h n.toNat_lt)

/-- The portal with the next block. -/
def withBlock (scp : Portal) (i : UInt64) (bs : UInt32) (left : List UInt8) : Portal :=
  { scp with
    data := left.take bs.toNat ++ scp.data.drop (min bs.toNat left.length)
    transport :=
      { scp.transport with nbr := i, srcDataSize := UInt32.ofNat (min bs.toNat left.length) } }

theorem withBlock_size (scp : Portal) (i : UInt64) (bs : UInt32) (left : List UInt8) :
    (withBlock scp i bs left).transport.srcDataSize.toNat = (left.take bs.toNat).length := by
  rw [List.length_take]
  apply UInt32.toNat_ofNat_of_lt'
  exact (Nat.min_le_left ..).trans_lt bs.toNat_lt

theorem withBlock_block (scp : Portal) (i : UInt64) (bs : UInt32) (left : List UInt8) :
    (withBlock scp i bs left).block = left.take bs.toNat := by
  rw [Portal.block, withBlock_size]
  exact List.take_left

/-- A turn of the push with no call failing. -/
theorem pushBlocks_step (hlib : lib.CopiesWithinMax) (hcalls : calls.Succeed file) (hbs : 0 < bs.toNat)
    (hmax : bs.toNat ≤ Securec.maxLen) (hturns : i.toNat + (turns + 1) = blks.toNat)
    (hleft : i.toNat * bs.toNat + left.length = fileSize.toNat)
    (hfills : Fills bs.toNat (turns + 1) left.length) (scp : Portal) (ret : Int32) :
    pushBlocks lib calls fileSize blks bs (turns + 1) i left scp ret =
      ((pushBlocks lib calls fileSize blks bs turns (i + 1) (left.drop bs.toNat)
          (calls.trigger i.toNat (withBlock scp i bs left)).2 0).1,
        withBlock scp i bs left ::
          (pushBlocks lib calls fileSize blks bs turns (i + 1) (left.drop bs.toNat)
            (calls.trigger i.toNat (withBlock scp i bs left)).2 0).2) := by
  have hsize := blockSize_eq hturns hleft hfills
  have hread : UInt32.ofNat (min bs.toNat left.length) = blockSize fileSize blks bs i := by
    rw [← hsize, UInt32.ofNat_toNat]
  have hthere : min (min bs.toNat left.length) left.length = min bs.toNat left.length :=
    Nat.min_eq_left (Nat.min_le_right ..)
  have htake : left.take (min bs.toNat left.length) = left.take bs.toNat := by
    rw [← List.take_take, List.take_of_length_le le_rfl]
  have hdrop : left.drop (min bs.toNat left.length) = left.drop bs.toNat := by
    have hsplit := List.take_append_drop (min bs.toNat left.length) left
    rw [htake] at hsplit
    exact List.append_cancel_left (hsplit.trans (List.take_append_drop bs.toNat left).symm)
  have hshort : (left.take bs.toNat).length ≤ min bs.toNat left.length := by
    rw [List.length_take]
  rw [pushBlocks, hsize, hthere, hcalls.fread, Nat.min_self, hread]
  dsimp only
  rw [if_neg (not_not.mpr rfl), hsize, hlib.copies _ _ _ _ hbs hmax (Nat.min_le_left ..), htake, hdrop,
    List.take_of_length_le hshort, ← hread]
  dsimp only
  have hblock : { scp with
      data := left.take bs.toNat ++ scp.data.drop (min bs.toNat left.length)
      transport := { scp.transport with
        nbr := i
        srcDataSize := UInt32.ofNat (min bs.toNat left.length) } } = withBlock scp i bs left := rfl
  obtain ⟨hcode, hret⟩ := hcalls.trigger i.toNat (withBlock scp i bs left)
  rw [if_neg (by decide), hblock, hcode, if_neg (by decide), hret, if_neg (by decide)]

/-- The blocks from some place on are sent in order. -/
theorem pushBlocks_sends (hlib : lib.CopiesWithinMax) (hcalls : calls.Succeed file) (hbs : 0 < bs.toNat)
    (hmax : bs.toNat ≤ Securec.maxLen) (hturns : i.toNat + turns = blks.toNat)
    (hleft : i.toNat * bs.toNat + left.length = fileSize.toNat)
    (hfills : Fills bs.toNat turns left.length) (scp : Portal) (ret : Int32) :
    ∃ sent, pushBlocks lib calls fileSize blks bs turns i left scp ret =
        (if turns = 0 then ret else 0, sent) ∧
      sent.map (fun p => p.transport.nbr.toNat) = List.range' i.toNat turns ∧
        sent.map Portal.block = cut bs.toNat turns left ∧
          ∀ p ∈ sent, p.transport.srcDataSize.toNat = p.block.length := by
  induction turns generalizing i left scp ret with
  | zero => exact ⟨[], rfl, rfl, rfl, fun p hp => absurd hp List.not_mem_nil⟩
  | succ turns ih =>
      have hnext : (i + 1).toNat = i.toNat + 1 := succ_toNat (n := blks) (by omega)
      have hrest : (i + 1).toNat * bs.toNat + (left.drop bs.toNat).length = fileSize.toNat ∨ turns = 0 := by
        by_cases hmore : turns = 0
        · exact Or.inr hmore
        · have htight := hfills.tight (Nat.succ_pos _)
          have hone : bs.toNat ≤ turns * bs.toNat :=
            Nat.le_mul_of_pos_left _ (Nat.pos_of_ne_zero hmore)
          rw [Nat.add_sub_cancel] at htight
          refine Or.inl ?_
          rw [hnext, Nat.succ_mul, List.length_drop]
          omega
      rw [pushBlocks_step hlib hcalls hbs hmax hturns hleft hfills]
      have hsent : ∃ sent, pushBlocks lib calls fileSize blks bs turns (i + 1) (left.drop bs.toNat)
          (calls.trigger i.toNat (withBlock scp i bs left)).2 0 = (0, sent) ∧
          sent.map (fun p => p.transport.nbr.toNat) = List.range' (i + 1).toNat turns ∧
            sent.map Portal.block = cut bs.toNat turns (left.drop bs.toNat) ∧
              ∀ p ∈ sent, p.transport.srcDataSize.toNat = p.block.length := by
        obtain hrest | rfl := hrest
        · have := ih (by omega) hrest hfills.drop (calls.trigger i.toNat (withBlock scp i bs left)).2 0
          rwa [ite_self] at this
        · exact ⟨[], rfl, rfl, rfl, fun p hp => absurd hp List.not_mem_nil⟩
      obtain ⟨sent, hpush, hnbrs, hblocks, hsizes⟩ := hsent
      rw [hpush]
      refine ⟨_, rfl, ?_, ?_, ?_⟩
      · rw [List.map_cons, hnbrs, hnext, List.range'_succ]
        exact rfl
      · rw [List.map_cons, hblocks, withBlock_block]
        exact rfl
      · intro p hp
        obtain rfl | hp := List.mem_cons.mp hp
        · rw [withBlock_size, withBlock_block]
        · exact hsizes p hp

/-- A block larger than the library accepts is not copied to the portal. -/
theorem pushBlocks_too_large (hlib : lib.CopiesWithinMax) (hlarge : ¬ bs.toNat ≤ Securec.maxLen)
    (scp : Portal) (ret : Int32) :
    pushBlocks lib calls fileSize blks bs turns i left scp ret = (ret, []) := by
  cases turns with
  | zero => rfl
  | succ turns =>
      rw [pushBlocks]
      dsimp only
      split_ifs with hread hcopied hcode hfailed
      · rfl
      · rfl
      · exact absurd hcopied (not_not.mpr (hlib.refuses _ _ _ _ fun h => hlarge h.2.1))
      · exact absurd hcopied (not_not.mpr (hlib.refuses _ _ _ _ fun h => hlarge h.2.1))
      · exact absurd hcopied (not_not.mpr (hlib.refuses _ _ _ _ fun h => hlarge h.2.1))

/-- The names are taken when they fit their fields; the sizes stay. -/
theorem setCopyFileArgs_eq (hlib : lib.CopiesWithinMax) {filename dstPath : List UInt8}
    (hname : filename.length ≤ filenameMax) (hdst : dstPath.length ≤ pathMax) (scp : Portal) :
    ∃ scp', setCopyFileArgs lib scp filename dstPath = some scp' ∧
      scp'.transport.fileSize = scp.transport.fileSize ∧ scp'.transport.blks = scp.transport.blks ∧
        scp'.transport.bs = scp.transport.bs := by
  rw [setCopyFileArgs, hlib.copies _ _ _ _ (by decide) (by decide) hname,
    hlib.copies _ _ _ _ (by decide) (by decide) hdst]
  exact ⟨_, rfl, rfl, rfl, rfl⟩

theorem setCopyFileArgs_none (hlib : lib.CopiesWithinMax) {filename dstPath : List UInt8}
    (hnames : ¬ (filename.length ≤ filenameMax ∧ dstPath.length ≤ pathMax)) (scp : Portal) :
    setCopyFileArgs lib scp filename dstPath = none := by
  rw [setCopyFileArgs]
  dsimp only
  by_cases hname : filename.length ≤ filenameMax
  · rw [hlib.copies _ _ _ _ (by decide) (by decide) hname, if_neg (not_not.mpr rfl), if_pos]
    exact hlib.refuses _ _ _ _ fun h => hnames ⟨hname, h.2.2⟩
  · rw [if_pos (hlib.refuses _ _ _ _ fun h => hname h.2.2)]

/-- The push returns success after sending the blocks of the file in order. -/
def PushesFile (lib : Securec) (clearHead : Portal → Portal) (sizeofHead : UInt32) (calls : PushCalls)
    (filename dstPath : List UInt8) (portal : Portal) (portalSize : UInt32) (file : List UInt8) : Prop :=
  (copyFile lib clearHead sizeofHead calls filename dstPath portal portalSize).1 = 0 ∧
    (copyFile lib clearHead sizeofHead calls filename dstPath portal portalSize).2.map
        (fun p => p.transport.nbr.toNat) =
      List.range (count (portalSize - sizeofHead).toNat file.length) ∧
    (∀ p ∈ (copyFile lib clearHead sizeofHead calls filename dstPath portal portalSize).2,
      0 < p.transport.srcDataSize ∧ p.transport.srcDataSize ≤ portalSize - sizeofHead) ∧
    ((copyFile lib clearHead sizeofHead calls filename dstPath portal portalSize).2.map
      fun p => p.transport.srcDataSize.toNat).sum = file.length ∧
    ((copyFile lib clearHead sizeofHead calls filename dstPath portal portalSize).2.map
      Portal.block).flatten = file

variable {sizeofHead portalSize : UInt32} {filename dstPath : List UInt8}

/-- The call up to its loop. -/
theorem copyFile_eq (hlib : lib.CopiesWithinMax) (hcalls : calls.Succeed file)
    (hfile : file.length < 2 ^ 64) (hbs : 0 < portalSize - sizeofHead) (hmalloc : calls.malloc = true)
    (hname : filename.length ≤ filenameMax) (hdst : dstPath.length ≤ pathMax)
    (clearHead : Portal → Portal) (portal : Portal) :
    ∃ (scp : Portal) (blks : UInt64), blks.toNat = count (portalSize - sizeofHead).toNat file.length ∧
      copyFile lib clearHead sizeofHead calls filename dstPath portal portalSize =
        (if (pushBlocks lib calls (UInt64.ofNat file.length) blks (portalSize - sizeofHead) blks.toNat 0 file
            scp (-eFault)).1 ≠ 0 then -eFault else 0,
          (pushBlocks lib calls (UInt64.ofNat file.length) blks (portalSize - sizeofHead) blks.toNat 0 file
            scp (-eFault)).2) := by
  have hcount : _ = count (portalSize - sizeofHead).toNat (UInt64.ofNat file.length).toNat := blks_eq hbs
  rw [UInt64.toNat_ofNat_of_lt' hfile] at hcount
  rw [copyFile, hcalls.lstat]
  dsimp only
  rw [if_neg (by rw [hmalloc]; decide)]
  generalize (if UInt64.ofNat file.length % (portalSize - sizeofHead).toUInt64 ≠ 0 then
    UInt64.ofNat file.length / (portalSize - sizeofHead).toUInt64 + 1
    else UInt64.ofNat file.length / (portalSize - sizeofHead).toUInt64) = blks at hcount ⊢
  obtain ⟨scp, hargs, hsize, hblks, hblock⟩ := setCopyFileArgs_eq hlib hname hdst
    { clearHead portal with
      type := .input
      reeUID := calls.getuid
      sessionID := portal.sessionID
      transport := { (clearHead portal).transport with
        fileSize := UInt64.ofNat file.length
        blks := blks
        bs := portalSize - sizeofHead } }
  refine ⟨scp, blks, hcount, ?_⟩
  rw [hargs]
  dsimp only at hsize hblks hblock ⊢
  rw [copyFileByBlk, hcalls.fopen]
  dsimp only
  rw [hsize, hblks, hblock]
  split_ifs <;> rfl

/-- A push sends a file as it should if the file is not empty, a block is not larger than the library
accepts, the buffer is there, and the names fit. -/
theorem pushesFile_iff (hlib : lib.CopiesWithinMax) (hcalls : calls.Succeed file)
    (hfile : file.length < 2 ^ 64) (hbs : 0 < portalSize - sizeofHead) (clearHead : Portal → Portal)
    (portal : Portal) :
    PushesFile lib clearHead sizeofHead calls filename dstPath portal portalSize file ↔
      file ≠ [] ∧ (portalSize - sizeofHead).toNat ≤ Securec.maxLen ∧ calls.malloc = true ∧
        filename.length ≤ filenameMax ∧ dstPath.length ≤ pathMax := by
  have hpos : 0 < (portalSize - sizeofHead).toNat := UInt32.lt_iff_toNat_lt.mp hbs
  have hfault : -eFault ≠ 0 := by decide
  by_cases hmalloc : calls.malloc = true
  swap
  · refine iff_of_false (fun h => ?_) fun h => hmalloc h.2.2.1
    have hret := h.1
    rw [copyFile, hcalls.lstat] at hret
    dsimp only at hret
    rw [if_pos (Bool.not_eq_true _ ▸ hmalloc)] at hret
    exact absurd hret (by decide)
  by_cases hnames : filename.length ≤ filenameMax ∧ dstPath.length ≤ pathMax
  swap
  · refine iff_of_false (fun h => ?_) fun h => hnames h.2.2.2
    have hret := h.1
    rw [copyFile, hcalls.lstat] at hret
    dsimp only at hret
    rw [if_neg (by rw [hmalloc]; decide), setCopyFileArgs_none hlib hnames] at hret
    exact hfault hret
  obtain ⟨scp, blks, hblks, hcopy⟩ := copyFile_eq hlib hcalls hfile hbs hmalloc hnames.1 hnames.2
    clearHead portal
  have hfills := count_fills hpos file.length
  rw [← hblks] at hfills
  by_cases hmax : (portalSize - sizeofHead).toNat ≤ Securec.maxLen
  · obtain ⟨sent, hpush, hnbrs, hblocks, hsizes⟩ := pushBlocks_sends (i := 0) hlib hcalls hpos hmax
      (Nat.zero_add _) (by rw [UInt64.toNat_ofNat_of_lt' hfile]; simp) hfills scp (-eFault)
    rw [hpush] at hcopy
    rw [PushesFile, hcopy]
    by_cases hempty : file = []
    · have hnone : blks.toNat = 0 := by
        rw [hblks, hempty, count]
        exact Nat.div_eq_of_lt (by simp; omega)
      refine iff_of_false (fun h => ?_) fun h => h.1 hempty
      have hret := h.1
      rw [hnone, if_pos rfl, if_pos hfault] at hret
      exact hfault hret
    · have hsome : blks.toNat ≠ 0 := by
        intro hnone
        have := hfills.holds
        rw [hnone, Nat.zero_mul] at this
        exact hempty (List.eq_nil_of_length_eq_zero (Nat.eq_zero_of_le_zero this))
      refine iff_of_true ⟨?_, ?_, fun p hp => ?_, ?_, ?_⟩ ⟨hempty, hmax, hmalloc, hnames⟩
      · rw [if_neg hsome, if_neg (not_not.mpr rfl)]
      · rw [hnbrs, ← hblks]
        exact (List.range_eq_range' ..).symm
      · have hmem : p.block ∈ cut (portalSize - sizeofHead).toNat blks.toNat file := by
          rw [← hblocks]
          exact List.mem_map_of_mem hp
        have hlens := cut_lengths hpos hfills p.block hmem
        rw [UInt32.lt_iff_toNat_lt, UInt32.le_iff_toNat_le, hsizes p hp]
        exact hlens
      · have hlengths : sent.map (fun p => p.transport.srcDataSize.toNat) =
            (sent.map Portal.block).map List.length := by
          rw [List.map_map]
          exact List.map_congr_left hsizes
        rw [hlengths, ← List.length_flatten, hblocks, cut_flatten hfills]
      · rw [hblocks, cut_flatten hfills]
  · refine iff_of_false (fun h => ?_) fun h => hmax h.2.1
    have hret := h.1
    rw [hcopy, pushBlocks_too_large hlib hmax, if_pos hfault] at hret
    exact hfault hret

end Push

/-! ### From the TEE -/

/-- The calls of a pull, none of which fails; the TEE leaves a block behind the head of the portal. -/
structure PullCalls.Succeed (calls : PullCalls) (bs : UInt32) : Prop where
  trigger : ∀ i scp, (calls.trigger i scp).1 = 0 ∧ (calls.trigger i scp).2.ret = 0 ∧
    (calls.trigger i scp).2.data.length = bs.toNat
  mkdirIteration : calls.mkdirIteration = 0
  openFile : calls.openFile = true
  write : ∀ i n, calls.write i n = n

section Pull

variable {lib : Securec} {calls : PullCalls} {fileSize blks i : UInt64} {bs : UInt32} {turns : Nat}

/-- What the TEE answers to the request for a block. -/
def blockAnswer (calls : PullCalls) (i : UInt64) (size : UInt32) (scp : Portal) : Portal :=
  (calls.trigger (i.toNat + 1)
    { scp with type := .get, transport := { scp.transport with srcDataSize := size } }).2

/-- The portal, the file and the received blocks after a block. -/
def pulledBlock (calls : PullCalls) (i : UInt64) (size : UInt32) (s : PullState) : PullState where
  scp := { blockAnswer calls i size s.scp with
    transport := { (blockAnswer calls i size s.scp).transport with
      nbr := (blockAnswer calls i size s.scp).transport.nbr + 1 } }
  written := s.written ++ (blockAnswer calls i size s.scp).data.take size.toNat
  received := s.received ++ [(blockAnswer calls i size s.scp).data.take size.toNat]

/-- A turn of the pull with no call failing. -/
theorem pullBlocks_step (hlib : lib.CopiesWithinMax) (hcalls : calls.Succeed bs) (hbs : 0 < bs.toNat)
    (hmax : bs.toNat ≤ Securec.maxLen) (hsize : blockSize fileSize blks bs i ≤ bs) (s : PullState)
    (ret : Int32) :
    pullBlocks lib calls fileSize blks bs (turns + 1) i s ret =
      pullBlocks lib calls fileSize blks bs turns (i + 1)
        (pulledBlock calls i (blockSize fileSize blks bs i) s) 0 := by
  generalize hblock : blockSize fileSize blks bs i = size at hsize
  have hle : size.toNat ≤ bs.toNat := UInt32.le_iff_toNat_le.mp hsize
  obtain ⟨hcode, -, hdata⟩ := hcalls.trigger (i.toNat + 1)
    { s.scp with type := .get, transport := { s.scp.transport with srcDataSize := size } }
  have hlen : ((blockAnswer calls i size s.scp).data.take size.toNat).length = size.toNat := by
    rw [List.length_take, blockAnswer, hdata, Nat.min_eq_left hle]
  rw [pullBlocks, hblock]
  dsimp only
  rw [hcode, if_neg (not_not.mpr rfl), hlib.copies _ _ _ _ hbs hmax hle]
  change (if (0 : Int) ≠ 0 then _ else
    if calls.write i.toNat size.toNat ≠ (size.toNat : Int) then _ else _) = _
  rw [if_neg (not_not.mpr rfl), hcalls.write, if_neg (not_not.mpr rfl)]
  have htaken : (((blockAnswer calls i size s.scp).data.take size.toNat ++
      (List.replicate bs.toNat (0 : UInt8)).drop size.toNat).take size.toNat).take ((size.toNat : Int)).toNat =
        (blockAnswer calls i size s.scp).data.take size.toNat := by
    rw [Int.toNat_natCast, List.take_take, Nat.min_self, List.take_left' hlen]
  show pullBlocks lib calls fileSize blks bs turns (i + 1) ⟨_, s.written ++
    (((blockAnswer calls i size s.scp).data.take size.toNat ++
      (List.replicate bs.toNat (0 : UInt8)).drop size.toNat).take size.toNat).take
        ((size.toNat : Int)).toNat, _⟩ 0 = _
  rw [htaken]
  exact rfl

/-- A block that the library does not copy ends the pull. -/
theorem pullBlocks_refused (hlib : lib.CopiesWithinMax) (hcalls : calls.Succeed bs)
    (hrefused : ¬ (bs.toNat ≤ Securec.maxLen ∧ blockSize fileSize blks bs i ≤ bs)) (s : PullState)
    (ret : Int32) :
    (pullBlocks lib calls fileSize blks bs (turns + 1) i s ret).1 = -eFault := by
  rw [pullBlocks]
  dsimp only
  rw [(hcalls.trigger _ _).1, if_neg (not_not.mpr rfl), if_pos]
  apply hlib.refuses
  exact fun h => hrefused ⟨h.2.1, UInt32.le_iff_toNat_le.mpr h.2.2⟩

/-- The blocks from some place on are written as they come. -/
theorem pullBlocks_writes (hlib : lib.CopiesWithinMax) (hcalls : calls.Succeed bs) (hbs : 0 < bs.toNat)
    (hmax : bs.toNat ≤ Securec.maxLen) (hturns : i.toNat + turns = blks.toNat)
    (hlast : ∀ j : UInt64, j.toNat + 1 = blks.toNat → blockSize fileSize blks bs j ≤ bs) {s : PullState}
    (hwritten : s.written = s.received.flatten) (hret : s.scp.ret = 0) (ret : Int32) :
    ∃ s', pullBlocks lib calls fileSize blks bs turns i s ret = (if turns = 0 then ret else 0, s') ∧
      s'.written = s'.received.flatten ∧ s'.scp.ret = 0 := by
  induction turns generalizing i s ret with
  | zero => exact ⟨s, rfl, hwritten, hret⟩
  | succ turns ih =>
      have hnext : (i + 1).toNat = i.toNat + 1 := succ_toNat (n := blks) (by omega)
      have hsize : blockSize fileSize blks bs i ≤ bs := by
        by_cases hmore : turns = 0
        · exact hlast i (by omega)
        · rw [blockSize_of_more (by omega), UInt32.le_iff_toNat_le]
      rw [pullBlocks_step hlib hcalls hbs hmax hsize]
      have hnew : (pulledBlock calls i (blockSize fileSize blks bs i) s).written =
          (pulledBlock calls i (blockSize fileSize blks bs i) s).received.flatten := by
        show s.written ++ _ = (s.received ++ [_]).flatten
        rw [hwritten, List.flatten_append, List.flatten_singleton]
      obtain ⟨s', hpull, hwritten', hret'⟩ := ih (i := i + 1) (by omega) hnew (hcalls.trigger _ _).2.1 0
      refine ⟨s', ?_, hwritten', hret'⟩
      rw [hpull, ite_self]
      exact rfl

/-- A last block that does not fit ends the pull. -/
theorem pullBlocks_last_refused (hlib : lib.CopiesWithinMax) (hcalls : calls.Succeed bs)
    (hbs : 0 < bs.toNat) (hmax : bs.toNat ≤ Securec.maxLen) (hturns : i.toNat + (turns + 1) = blks.toNat)
    (hlast : ∀ j : UInt64, j.toNat + 1 = blks.toNat → ¬ blockSize fileSize blks bs j ≤ bs) (s : PullState)
    (ret : Int32) :
    (pullBlocks lib calls fileSize blks bs (turns + 1) i s ret).1 = -eFault := by
  induction turns generalizing i s ret with
  | zero => exact pullBlocks_refused hlib hcalls (fun h => hlast i hturns h.2) s ret
  | succ turns ih =>
      have hnext : (i + 1).toNat = i.toNat + 1 := succ_toNat (n := blks) (by omega)
      have hsize : blockSize fileSize blks bs i ≤ bs := by
        rw [blockSize_of_more (by omega), UInt32.le_iff_toNat_le]
      rw [pullBlocks_step hlib hcalls hbs hmax hsize]
      exact ih (by omega) _ 0

/-- The pull returns success with the received blocks in the file, whatever the stack held. -/
def PullsFile (lib : Securec) (clearHead : Portal → Portal) (sizeofHead : UInt32) (calls : PullCalls)
    (portal : Portal) (portalSize : UInt32) : Prop :=
  ∀ stack,
    (copyFileFromTEE lib clearHead sizeofHead calls stack portal portalSize).ret = 0 ∧
      (copyFileFromTEE lib clearHead sizeofHead calls stack portal portalSize).file =
        some (copyFileFromTEE lib clearHead sizeofHead calls stack portal portalSize).received.flatten

/-- What the TEE announces of the file. -/
def announced (clearHead : Portal → Portal) (calls : PullCalls) (portal : Portal) : Transport :=
  (calls.trigger 0 (pullRequest clearHead calls portal)).2.transport

variable {sizeofHead portalSize : UInt32}

variable (lib) in
/-- The call up to its loop. -/
theorem copyFileFromTEE_eq (hcalls : calls.Succeed (portalSize - sizeofHead))
    (hmalloc : calls.malloc = true) (hnew : calls.existing = none) (hstrdup : calls.strdup = true)
    (clearHead : Portal → Portal) (portal : Portal) :
    ∃ s : PullState, s.written = s.received.flatten ∧ s.scp.ret = 0 ∧
      ∀ stack result, pullBlocks lib calls (announced clearHead calls portal).fileSize
          (announced clearHead calls portal).blks (portalSize - sizeofHead)
          (announced clearHead calls portal).blks.toNat 0 s stack = result →
        copyFileFromTEE lib clearHead sizeofHead calls stack portal portalSize =
          if result.1 ≠ 0 then ⟨-eFault, some result.2.written, result.2.received⟩
          else ⟨result.2.scp.ret, some result.2.written, result.2.received⟩ := by
  have hdst : setDstPath calls = 0 := by
    rw [setDstPath, hnew, hstrdup, hcalls.mkdirIteration]
    exact rfl
  obtain ⟨hcode, hret, -⟩ := hcalls.trigger 0 (pullRequest clearHead calls portal)
  refine ⟨⟨(calls.trigger 0 (pullRequest clearHead calls portal)).2, [], []⟩, rfl, hret, ?_⟩
  intro stack result hresult
  have hloop : copyFileFromTEEByBlk lib calls stack
      (calls.trigger 0 (pullRequest clearHead calls portal)).2 (portalSize - sizeofHead) = result := by
    rw [copyFileFromTEEByBlk, hcalls.openFile, if_neg (by decide)]
    exact hresult
  rw [copyFileFromTEE]
  dsimp only
  rw [hcode, if_neg (not_not.mpr rfl), if_neg (by rw [hmalloc]; decide), hdst,
    if_neg (not_not.mpr rfl), hloop, hcalls.openFile, if_pos rfl, hnew, Option.getD_none, List.drop_nil,
    List.append_nil]

/-- A pull writes what comes if blocks were announced, none of them is larger than a block or than the
library accepts, the file is new, and the allocations succeed. -/
theorem pullsFile_iff (hlib : lib.CopiesWithinMax) (hcalls : calls.Succeed (portalSize - sizeofHead))
    (hbs : 0 < portalSize - sizeofHead) (clearHead : Portal → Portal) (portal : Portal) :
    PullsFile lib clearHead sizeofHead calls portal portalSize ↔
      (announced clearHead calls portal).blks ≠ 0 ∧ (portalSize - sizeofHead).toNat ≤ Securec.maxLen ∧
        blockSize (announced clearHead calls portal).fileSize (announced clearHead calls portal).blks
            (portalSize - sizeofHead) ((announced clearHead calls portal).blks - 1) ≤
          portalSize - sizeofHead ∧
        calls.malloc = true ∧ calls.existing = none ∧ calls.strdup = true := by
  have hpos : 0 < (portalSize - sizeofHead).toNat := UInt32.lt_iff_toNat_lt.mp hbs
  have hfault : -eFault ≠ 0 := by decide
  have hcode := (hcalls.trigger 0 (pullRequest clearHead calls portal)).1
  by_cases hmalloc : calls.malloc = true
  swap
  · refine iff_of_false (fun h => ?_) fun h => hmalloc h.2.2.2.1
    have hret := (h 0).1
    rw [copyFileFromTEE] at hret
    dsimp only at hret
    rw [hcode, if_neg (not_not.mpr rfl), if_pos (Bool.not_eq_true _ ▸ hmalloc)] at hret
    have hnomem : -eNoMem ≠ 0 := by decide
    exact hnomem hret
  by_cases hdst : calls.existing = none ∧ calls.strdup = true
  swap
  · refine iff_of_false (fun h => ?_) fun h => hdst h.2.2.2.2
    have hset : setDstPath calls ≠ 0 := by
      rw [setDstPath]
      cases hexisting : calls.existing with
      | some content =>
          rw [Option.isSome_some, if_pos rfl]
          exact hfault
      | none =>
          have hstrdup : calls.strdup = false := by
            rw [← Bool.not_eq_true]
            exact fun hstrdup => hdst ⟨hexisting, hstrdup⟩
          rw [Option.isSome_none, if_neg (by decide), if_pos hstrdup]
          decide
    have hret := (h 0).1
    rw [copyFileFromTEE] at hret
    dsimp only at hret
    rw [hcode, if_neg (not_not.mpr rfl), if_neg (by rw [hmalloc]; decide), if_pos hset] at hret
    exact hfault hret
  obtain ⟨s, hwritten, hsret, hcopy⟩ := copyFileFromTEE_eq lib hcalls hmalloc hdst.1 hdst.2
    clearHead portal
  rw [PullsFile]
  generalize (announced clearHead calls portal).fileSize = fileSize at hcopy ⊢
  generalize (announced clearHead calls portal).blks = blks at hcopy ⊢
  by_cases hblks : blks = 0
  · -- nothing sets the result, and the stack may hold anything
    refine iff_of_false (fun h => ?_) fun h => h.1 hblks
    have hnothing : pullBlocks lib calls fileSize blks (portalSize - sizeofHead) blks.toNat 0 s 1 =
        (1, s) := by
      rw [hblks]
      exact rfl
    have hone : (1 : Int32) ≠ 0 := by decide
    have hret := (h 1).1
    rw [hcopy 1 _ hnothing, if_pos hone] at hret
    exact hfault hret
  have hlastNat : (blks - 1).toNat = blks.toNat - 1 := by
    apply UInt64.toNat_sub_of_le
    rw [UInt64.le_iff_toNat_le]
    show 1 ≤ _
    exact Nat.one_le_iff_ne_zero.mpr fun h => hblks (UInt64.toNat_inj.mp h)
  have hlast : ∀ j : UInt64, j.toNat + 1 = blks.toNat → j = blks - 1 := by
    intro j hj
    rw [← UInt64.toNat_inj, hlastNat]
    omega
  obtain ⟨turns, hturns⟩ : ∃ turns, blks.toNat = turns + 1 :=
    Nat.exists_eq_succ_of_ne_zero fun h => hblks (UInt64.toNat_inj.mp h)
  have hfails : (∀ stack, (pullBlocks lib calls fileSize blks (portalSize - sizeofHead) blks.toNat 0 s
      stack).1 = -eFault) → ¬ ∀ stack,
      (copyFileFromTEE lib clearHead sizeofHead calls stack portal portalSize).ret = 0 ∧
        (copyFileFromTEE lib clearHead sizeofHead calls stack portal portalSize).file =
          some (copyFileFromTEE lib clearHead sizeofHead calls stack portal portalSize).received.flatten := by
    intro hfailed h
    have hret := (h 0).1
    rw [hcopy 0 _ rfl, hfailed 0, if_pos hfault] at hret
    exact hfault hret
  by_cases hmax : (portalSize - sizeofHead).toNat ≤ Securec.maxLen
  swap
  · refine iff_of_false (hfails fun stack => ?_) fun h => hmax h.2.1
    rw [hturns]
    exact pullBlocks_refused hlib hcalls (fun h => hmax h.1) s stack
  by_cases hfits : blockSize fileSize blks (portalSize - sizeofHead) (blks - 1) ≤ portalSize - sizeofHead
  swap
  · refine iff_of_false (hfails fun stack => ?_) fun h => hfits h.2.2.1
    rw [hturns]
    refine pullBlocks_last_refused hlib hcalls hpos hmax ?_ (fun j hj => ?_) s stack
    · rw [hturns]
      exact Nat.zero_add _
    · rw [hlast j hj]
      exact hfits
  · refine iff_of_true (fun stack => ?_) ⟨hblks, hmax, hfits, hmalloc, hdst⟩
    obtain ⟨s', hpull, hwritten', hret'⟩ := pullBlocks_writes (i := 0) hlib hcalls hpos hmax (Nat.zero_add _)
      (fun j hj => by rw [hlast j hj]; exact hfits) hwritten hsret stack
    rw [if_neg (by omega)] at hpull
    rw [hcopy stack _ hpull, if_neg (not_not.mpr rfl)]
    refine ⟨hret', ?_⟩
    show some s'.written = some s'.received.flatten
    rw [hwritten']

/-- The blocks of a file announced with the rounded-up number of them are not too large. -/
theorem blockSize_announced (hbs : 0 < bs.toNat) (hblks : blks.toNat = count bs.toNat fileSize.toNat)
    (hsome : blks ≠ 0) : blockSize fileSize blks bs (blks - 1) ≤ bs := by
  have hfills := count_fills hbs fileSize.toNat
  rw [← hblks] at hfills
  have hpos : 0 < blks.toNat := Nat.pos_of_ne_zero fun h => hsome (UInt64.toNat_inj.mp h)
  have hlast : (blks - 1).toNat = blks.toNat - 1 := by
    apply UInt64.toNat_sub_of_le
    rw [UInt64.le_iff_toNat_le]
    exact hpos
  have htight := hfills.tight hpos
  have hholds := hfills.holds
  have hsplit : blks.toNat * bs.toNat = (blks.toNat - 1) * bs.toNat + bs.toNat := by
    rw [← Nat.succ_mul, Nat.succ_eq_add_one, Nat.sub_add_cancel hpos]
  have hturns : (blks - 1).toNat + (0 + 1) = blks.toNat := by omega
  have hleft : (blks - 1).toNat * bs.toNat + (fileSize.toNat - (blks.toNat - 1) * bs.toNat) =
      fileSize.toNat := by
    rw [hlast]
    omega
  have hone : Fills bs.toNat (0 + 1) (fileSize.toNat - (blks.toNat - 1) * bs.toNat) := by
    refine ⟨by omega, fun _ => ?_⟩
    rw [Nat.zero_add, Nat.sub_self, Nat.zero_mul]
    omega
  rw [UInt32.le_iff_toNat_le, blockSize_eq hturns hleft hone]
  exact Nat.min_le_left ..

/-- A file announced with the rounded-up number of its blocks is pulled as it should if it is not empty,
and for the rest as before. -/
theorem pullsFile_announced_iff (hlib : lib.CopiesWithinMax)
    (hcalls : calls.Succeed (portalSize - sizeofHead)) (hbs : 0 < portalSize - sizeofHead)
    (clearHead : Portal → Portal) (portal : Portal)
    (hblks : (announced clearHead calls portal).blks.toNat =
      count (portalSize - sizeofHead).toNat (announced clearHead calls portal).fileSize.toNat) :
    PullsFile lib clearHead sizeofHead calls portal portalSize ↔
      (announced clearHead calls portal).fileSize ≠ 0 ∧
        (portalSize - sizeofHead).toNat ≤ Securec.maxLen ∧
        calls.malloc = true ∧ calls.existing = none ∧ calls.strdup = true := by
  have hpos : 0 < (portalSize - sizeofHead).toNat := UInt32.lt_iff_toNat_lt.mp hbs
  have hnone : (announced clearHead calls portal).blks = 0 ↔
      (announced clearHead calls portal).fileSize = 0 := by
    have hfills := count_fills hpos (announced clearHead calls portal).fileSize.toNat
    rw [← hblks] at hfills
    rw [← UInt64.toNat_inj, ← UInt64.toNat_inj]
    constructor
    · intro h
      have := hfills.holds
      rw [h] at this
      exact Nat.eq_zero_of_le_zero (this.trans (Nat.zero_mul _).le)
    · intro h
      rw [hblks, h, count]
      exact Nat.div_eq_of_lt (by show 0 + _ - 1 < _; omega)
  rw [pullsFile_iff hlib hcalls hbs]
  constructor
  · rintro ⟨hsome, hmax, -, hrest⟩
    exact ⟨hnone.not.mp hsome, hmax, hrest⟩
  · rintro ⟨hsome, hmax, hrest⟩
    have hblocks := hnone.not.mpr hsome
    exact ⟨hblocks, hmax, blockSize_announced hpos hblks hblocks, hrest⟩

end Pull

/-! ### Both directions -/

/-- With no portal call or file operation failing, a push and a pull transfer the file as they should if it
has blocks, none of which is too large, and for the rest nothing is in the way: the allocations succeed,
the names fit their fields, and the destination of the pull is new. -/
theorem transfers_iff (lib : Securec) (hlib : lib.CopiesWithinMax) (clearHead : Portal → Portal)
    (sizeofHead : UInt32) (portal : Portal) (portalSize : UInt32) (hbs : 0 < portalSize - sizeofHead)
    (push : PushCalls) (filename dstPath file : List UInt8) (hfile : file.length < 2 ^ 64)
    (hpush : push.Succeed file) (pull : PullCalls) (hpull : pull.Succeed (portalSize - sizeofHead)) :
    (PushesFile lib clearHead sizeofHead push filename dstPath portal portalSize file ↔
      file ≠ [] ∧ (portalSize - sizeofHead).toNat ≤ Securec.maxLen ∧ push.malloc = true ∧
        filename.length ≤ filenameMax ∧ dstPath.length ≤ pathMax) ∧
    (PullsFile lib clearHead sizeofHead pull portal portalSize ↔
      (announced clearHead pull portal).blks ≠ 0 ∧ (portalSize - sizeofHead).toNat ≤ Securec.maxLen ∧
        blockSize (announced clearHead pull portal).fileSize (announced clearHead pull portal).blks
            (portalSize - sizeofHead) ((announced clearHead pull portal).blks - 1) ≤
          portalSize - sizeofHead ∧
        pull.malloc = true ∧ pull.existing = none ∧ pull.strdup = true) :=
  ⟨pushesFile_iff hlib hpush hfile hbs clearHead portal, pullsFile_iff hlib hpull hbs clearHead portal⟩

/-- Calls of a push that do not fail. -/
def PushCalls.steady (file : List UInt8) : PushCalls where
  lstat := some (UInt64.ofNat file.length)
  malloc := true
  fopen := some file
  fread _ n := n
  trigger _ scp := (0, { scp with ret := 0 })
  getuid := 0

/-- Calls of a pull that do not fail; every block is the same. -/
def PullCalls.steady (fileSize blks : UInt64) (block : List UInt8) : PullCalls where
  trigger _ scp :=
    (0, { scp with
      ret := 0
      data := block
      transport := { scp.transport with fileSize := fileSize, blks := blks } })
  malloc := true
  existing := none
  strdup := true
  mkdirIteration := 0
  openFile := true
  write _ n := n
  getuid := 0

def Portal.zero : Portal := ⟨.input, 0, 0, 0, ⟨0, 0, 0, 0, [], [], 0⟩, []⟩

/-- Three bytes in blocks of two. -/
theorem transfers_three :
    PushesFile Securec.reference id 1 (PushCalls.steady [1, 2, 3]) [] [] Portal.zero 3 [1, 2, 3] ∧
      PullsFile Securec.reference id 1 (PullCalls.steady 3 2 [7, 8]) Portal.zero 3 := by
  have h := transfers_iff Securec.reference Securec.reference_copiesWithinMax id 1 Portal.zero 3 (by decide)
    (PushCalls.steady [1, 2, 3]) [] [] [1, 2, 3] (by decide)
    ⟨rfl, rfl, fun _ _ => rfl, fun _ _ => ⟨rfl, rfl⟩⟩ (PullCalls.steady 3 2 [7, 8])
    ⟨fun _ _ => ⟨rfl, rfl, rfl⟩, rfl, rfl, fun _ _ => rfl⟩
  exact ⟨h.1.mpr (by decide), h.2.mpr (by decide)⟩

/-- An empty file is sent and received without a block, and neither call reports success. -/
theorem transfers_empty :
    ¬ PushesFile Securec.reference id 1 (PushCalls.steady []) [] [] Portal.zero 3 [] ∧
      ¬ PullsFile Securec.reference id 1 (PullCalls.steady 0 0 [7, 8]) Portal.zero 3 := by
  constructor
  · intro h
    exact absurd h.1 (by decide)
  · intro h
    exact absurd (h 1).1 (by decide)

end ITrustee.TeeTeleport
