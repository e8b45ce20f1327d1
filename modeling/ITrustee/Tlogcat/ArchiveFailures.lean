import Mathlib.Tactic
import ITrustee.Tlogcat.Compression
import ITrustee.Tlogcat.TarRoundTrip

/-!
# Archiving with failing calls

`TriggerCompress` and `TarZipFiles` where every call may fail. `ZipCalls` says what the calls return: which
allocations succeed, which steps of opening the archive, and for each file its `lstat`, what each `read`
fills and what each `gzwrite` accepts. The archive is the list of its members, each with the parts of its
header and content that `gzwrite` accepted, and what is accepted is lost if closing the archive fails.
The header of zeros at the end is left out.

Whatever `TarZipFiles` could do, the files whose names were allocated are removed afterwards.
-/

namespace ITrustee.Tlogcat

/-- What the calls on one of the files return. -/
structure FileCalls where
  lstat : Bool := true
  /-- The `gzwrite` of the header. -/
  header : Int := 512
  openFile : Bool := true
  /-- How much the `read` of a turn fills at most, where it does not fail. -/
  read : Nat → Option Nat := fun _ => some 512
  write : Nat → Int := fun _ => 512

structure ZipCalls where
  malloc : Nat → Bool := fun _ => true
  openOutput : Bool := true
  gzdopen : Bool := true
  fchown : Bool := true
  fchmod : Bool := true
  file : Nat → FileCalls := fun _ => {}
  gzclose : Bool := true
  unlink : Nat → Bool := fun _ => true

/-- A member of the archive: the file at a position of the input, and what was accepted of its header
and its content. -/
structure Member where
  index : Nat
  header : List UInt8
  content : List UInt8
  deriving DecidableEq

def pathBytes (path : List Char) : List UInt8 := path.map fun c => .ofNat c.toNat

/-- What `gzwrite` accepts of a buffer if it returns `ret`. -/
def gzAccepted (ret : Int) (buf : List UInt8) : List UInt8 := buf.take ret.toNat

def fileBytes (disk : Disk LogByte) (p : List Char) : Option (List UInt8) :=
  (disk.content p).map fun content => content.map LogByte.value

/-- The loop of `WriteZipContent`. -/
def zipContentLoop (c : FileCalls) (turn : Nat) (rest : List UInt8) (temFileSize : Nat) :
    List UInt8 :=
  if temFileSize > 0 then
    match c.read turn with
    | none => []
    | some count =>
        let buf := Tarzip.zipBlock (rest.take count)
        if c.write turn < Tarzip.headerNum then gzAccepted (c.write turn) buf
        else
          buf ++ zipContentLoop c (turn + 1) (rest.drop (min count Tarzip.headerNum))
            (temFileSize - Tarzip.headerNum)
  else []
termination_by temFileSize
decreasing_by
  rw [Tarzip.headerNum]
  omega

def writeZipContent (c : FileCalls) (content : List UInt8) : List UInt8 :=
  if content.length = 0 then []
  else if !c.openFile then []
  else zipContentLoop c 0 content content.length

section Model

variable (P : LogPaths) (signed : Bool) (c : ZipCalls)

def fullHeader (name : List UInt8) (fileSize : Nat) : List UInt8 :=
  Tarzip.writeHeader signed (List.replicate Tarzip.headerNum 0) name fileSize

/-- `WriteSingleFile`: the members it adds, or `none` where it returns -1. -/
def writeSingleFile (index : Nat) (fileName : List Char) (disk : Disk LogByte) :
    Option (List Member) :=
  match if (c.file index).lstat then fileBytes disk fileName else none with
  | none => some []
  | some content =>
      match Tarzip.strrchr (pathBytes fileName) 0x2F with
      | none => none
      | some s1 =>
          if s1.length < Tarzip.fileNameInvalidLen then none
          else if (c.file index).header < 0 then none
          else
            some [{
              index
              header := gzAccepted (c.file index).header (fullHeader signed (s1.drop 1) content.length)
              content := writeZipContent (c.file index) content }]

/-- The loop of `TarZipFiles`. -/
def zipMembers (disk : Disk LogByte) : Nat → List (Option (List Char)) → List Member
  | _, [] => []
  | index, none :: inputNames => zipMembers disk (index + 1) inputNames
  | index, some fileName :: inputNames =>
      match writeSingleFile signed c index fileName disk with
      | none => []
      | some members => members ++ zipMembers disk (index + 1) inputNames

/-- `OpenZipFile`: whether the archive is open; its file is there once `open` has succeeded. -/
def openZipFile (outputName : List Char) (disk : Disk LogByte) : Bool × Disk LogByte :=
  if !c.openOutput then (false, disk)
  else
    let disk := if disk.find outputName = none then disk.create outputName else disk
    (c.gzdopen && c.fchown && c.fchmod, disk)

/-- `TarZipFiles`: the members of the archive if it is closed without an error. -/
def tarZipFilesWith (nameCount : Nat) (inputNames : List (Option (List Char)))
    (outputName : List Char) (disk : Disk LogByte) : List Member × Disk LogByte :=
  if nameCount ≠ logFileIndexMax then ([], disk)
  else
    let (opened, disk) := openZipFile c outputName disk
    if !opened then ([], disk)
    else
      (if c.gzclose then zipMembers signed c disk 0 (inputNames.take nameCount) else [], disk)

/-- The first loop of `TriggerCompress` from an index on: the names, up to an allocation that fails. -/
def allocateNames (uuid : TeeUuid) : List Nat → List (Option (List Char))
  | [] => []
  | i :: is =>
      if !c.malloc i then (i :: is).map fun _ => none
      else
        -- a name always fits
        some ((logAssembleFilename P.teeTempPath ⟨getUuidStr uuid [], isTaUuid uuid, i⟩).getD []) ::
          allocateNames uuid is

/-- The loop that removes the files, from an index on. -/
def removeFiles : Nat → List (Option (List Char)) → Disk LogByte → Disk LogByte
  | _, [], disk => disk
  | i, none :: names, disk => removeFiles (i + 1) names disk
  | i, some name :: names, disk =>
      removeFiles (i + 1) names (if c.unlink i then disk.unlink name else disk)

/-- `TriggerCompress`: the members of the archive, and the disk. -/
def triggerCompressWith (uuid : TeeUuid) (g_compressFile : List Char) (disk : Disk LogByte) :
    List Member × Disk LogByte :=
  let filesToCompress := allocateNames P c uuid (List.range logFileIndexMax)
  let (members, disk) :=
    if filesToCompress.all Option.isSome then
      tarZipFilesWith signed c logFileIndexMax filesToCompress g_compressFile disk
    else ([], disk)
  (members, removeFiles c 0 filesToCompress disk)

end Model

/-! ### Names -/

section Names

variable {P : LogPaths} {c : ZipCalls} {uuid : TeeUuid} {i : Nat}

/-- Names are allocated up to the first allocation that fails. -/
theorem allocateNames_getElem? (is : List Nat) (hmax : ∀ i ∈ is, i < 10) (n : Nat) :
    (allocateNames P c uuid is)[n]? =
      is[n]?.map fun i => if (is.take (n + 1)).all c.malloc then some (P.tempFile uuid i) else none := by
  induction is generalizing n with
  | nil => rfl
  | cons i is ih =>
      obtain ⟨hi, his⟩ := List.forall_mem_cons.mp hmax
      rw [allocateNames, getUuidStr_eq, logAssembleFilename_tempFile P uuid hi, Option.getD_some]
      by_cases hmalloc : c.malloc i
      · rw [hmalloc, if_neg (by decide)]
        cases n with
        | zero => simp [hmalloc]
        | succ n => simp [ih his, hmalloc]
      · rw [if_pos (by simpa using hmalloc)]
        cases n with
        | zero => simp [hmalloc]
        | succ n =>
            rw [List.getElem?_map]
            simp [hmalloc]

theorem allocateNames_range (hi : i < logFileIndexMax) :
    (allocateNames P c uuid (List.range logFileIndexMax))[i]? =
      some (if ∀ j ≤ i, c.malloc j then some (P.tempFile uuid i) else none) := by
  rw [allocateNames_getElem? _ fun j hj => (List.mem_range.mp hj).trans (by decide),
    List.getElem?_range hi, Option.map_some, List.take_range, Nat.min_eq_left hi]
  simp

theorem allocateNames_of_ge {n : Nat} (hn : logFileIndexMax ≤ n) :
    (allocateNames P c uuid (List.range logFileIndexMax))[n]? = none := by
  rw [allocateNames_getElem? _ fun j hj => (List.mem_range.mp hj).trans (by decide),
    List.getElem?_eq_none (by rwa [List.length_range]), Option.map_none]

/-- Every name is allocated when no allocation fails. -/
theorem all_allocateNames_iff :
    (allocateNames P c uuid (List.range logFileIndexMax)).all Option.isSome = true ↔
      ∀ j < logFileIndexMax, c.malloc j := by
  rw [List.all_eq_true]
  constructor
  · intro hall j hj
    by_contra hmalloc
    have hname : (allocateNames P c uuid (List.range logFileIndexMax))[j]? = _ := allocateNames_range hj
    rw [if_neg fun h => hmalloc (h j le_rfl)] at hname
    exact absurd (hall none (List.mem_of_getElem? hname)) (by decide)
  · intro hmalloc name hname
    obtain ⟨n, hn⟩ := List.mem_iff_getElem?.mp hname
    by_cases hlt : n < logFileIndexMax
    · rw [allocateNames_range hlt, if_pos fun j hj => hmalloc j (hj.trans_lt hlt)] at hn
      obtain rfl := Option.some.inj hn
      exact rfl
    · rw [allocateNames_of_ge (not_lt.mp hlt)] at hn
      cases hn

/-- A log file's name has no '/'. -/
theorem slash_not_mem_logName (hi : i < 10) : 0x2F ∉ pathBytes (logName uuid i) := by
  have hhex : ∀ width n, 0x2F ∉ pathBytes (upperHex width n) := by
    intro width n
    induction width generalizing n with
    | zero => exact List.not_mem_nil
    | succ width ih =>
        have hdigit : ∀ d < 16, UInt8.ofNat (hexDigit d).toNat ≠ 0x2F := by decide
        rw [upperHex, pathBytes, List.map_append, List.mem_append, not_or]
        exact ⟨ih _, by simpa using (hdigit _ (Nat.mod_lt n (by decide))).symm⟩
  have hindex : ∀ d < 10, 0x2F ∉ pathBytes (Nat.toDigits 10 d) := by decide
  have happend : ∀ a b, 0x2F ∉ pathBytes a → 0x2F ∉ pathBytes b → 0x2F ∉ pathBytes (a ++ b) := by
    intro a b ha hb
    rw [pathBytes, List.map_append, List.mem_append, not_or]
    exact ⟨ha, hb⟩
  have hclock : ∀ is : List (Fin 8),
      0x2F ∉ pathBytes (is.flatMap fun i => upperHex 2 (uuid.clockSeqAndNode i).toNat) := by
    intro is
    induction is with
    | nil => exact List.not_mem_nil
    | cons j is ih => exact happend _ _ (hhex 2 _) ih
  have hdigits : 0x2F ∉ pathBytes (uuidDigits uuid) :=
    happend _ _ (hhex 8 _) (happend _ _ (hhex 4 _) (happend _ _ (hhex 4 _) (hclock _)))
  rw [logName]
  split_ifs
  · exact happend _ _ (by decide) (happend _ _ hdigits (happend _ _ (by decide) (hindex i hi)))
  · exact happend _ _ (by decide) (happend _ _ (by decide) (hindex i hi))

/-- What `strrchr` finds in the path of a temporary file is the name of the log file. -/
theorem strrchr_tempFile (hi : i < 10) :
    Tarzip.strrchr (pathBytes (P.tempFile uuid i)) 0x2F = some (0x2F :: pathBytes (logName uuid i)) := by
  have hsplit : pathBytes (P.tempFile uuid i) =
      pathBytes (P.teePath ++ "/_tmp".toList) ++ 0x2F :: pathBytes (logName uuid i) := by
    simp [pathBytes, LogPaths.tempFile, LogPaths.teeTempPath]
  have hbase : Tarzip.baseName (pathBytes (P.tempFile uuid i)) = pathBytes (logName uuid i) := by
    have hname : ∀ b ∈ (pathBytes (logName uuid i)).reverse, b != 0x2F := by
      intro b hb
      rw [bne_iff_ne]
      rintro rfl
      exact slash_not_mem_logName hi (List.mem_reverse.mp hb)
    rw [hsplit, Tarzip.baseName, List.rtakeWhile, List.reverse_append, List.reverse_cons,
      List.append_assoc, List.takeWhile_append_of_pos hname, List.singleton_append,
      List.takeWhile_cons_of_neg (by decide), List.append_nil, List.reverse_reverse]
  rw [Tarzip.strrchr_slash, hbase, if_pos]
  rw [hsplit]
  exact List.mem_append_right _ (List.mem_cons_self ..)

theorem pathBytes_logName_length (uuid : TeeUuid) (i : Nat) :
    7 ≤ (pathBytes (logName uuid i)).length := by
  rw [pathBytes, List.length_map, logName]
  split_ifs
  · simp only [List.length_append, uuidDigits_length]
    omega
  · simp only [List.length_append]
    exact Nat.le_add_right_of_le (by decide)

end Names

/-! ### Removal -/

theorem find_removeFiles {c : ZipCalls} (names : List (Option (List Char))) (k : Nat)
    (disk : Disk LogByte) (q : List Char) (inode : Nat) :
    (removeFiles c k names disk).find q = some inode ↔
      disk.find q = some inode ∧ ∀ n, names[n]? = some (some q) → c.unlink (k + n) = false := by
  induction names generalizing k disk with
  | nil => simp [removeFiles]
  | cons name names ih =>
      -- the first name, and those behind it
      have hsplit : (∀ n, (name :: names)[n]? = some (some q) → c.unlink (k + n) = false) ↔
          (name = some q → c.unlink k = false) ∧
            ∀ n, names[n]? = some (some q) → c.unlink (k + 1 + n) = false := by
        rw [← Nat.and_forall_add_one]
        simp [Nat.add_assoc, Nat.add_comm 1]
      rw [hsplit]
      cases name with
      | none =>
          rw [removeFiles, ih]
          simp
      | some name =>
          rw [removeFiles, ih, ← and_assoc]
          apply and_congr_left
          intro _
          split_ifs with hunlink
          · rw [Disk.find_unlink]
            by_cases hq : q = name
            · simp [hq, hunlink]
            · simp [hq, Ne.symm hq]
          · simp [hunlink]

theorem data_removeFiles {c : ZipCalls} (names : List (Option (List Char))) (k : Nat)
    (disk : Disk LogByte) : (removeFiles c k names disk).data = disk.data := by
  induction names generalizing k disk with
  | nil => rfl
  | cons name names ih =>
      cases name with
      | none => exact ih (k + 1) disk
      | some name =>
          rw [removeFiles, ih]
          split_ifs <;> rfl

/-! ### Contents -/

section Content

variable (c : FileCalls) (content : List UInt8)

/-- What the reads before a turn have taken of the file. -/
def readOffset : Nat → Nat
  | 0 => 0
  | n + 1 => readOffset n + min ((c.read n).getD 0) Tarzip.headerNum

/-- A turn reads the block of the file that it should read, and writes it whole. -/
structure BlockWritten (n : Nat) : Prop where
  read : (c.read n).isSome
  block : Tarzip.zipBlock ((content.drop (readOffset c n)).take ((c.read n).getD 0)) =
    Tarzip.zipBlock (content.drop (n * Tarzip.headerNum))
  write : Tarzip.headerNum ≤ c.write n

variable {c content}

theorem zipBlock_length (rest : List UInt8) : (Tarzip.zipBlock rest).length = Tarzip.headerNum := by
  rw [Tarzip.zipBlock, Bytes.store_length, List.length_replicate]
  rw [List.length_replicate, Nat.zero_add, List.length_take]
  exact Nat.min_le_left ..

/-- The content is written whole when every block is. -/
theorem zipContentLoop_eq_iff (n : Nat) :
    zipContentLoop c n (content.drop (readOffset c n)) (content.length - n * Tarzip.headerNum) =
        Tarzip.writeZipContent (content.drop (n * Tarzip.headerNum))
          (content.length - n * Tarzip.headerNum) ↔
      ∀ m, n ≤ m → m * Tarzip.headerNum < content.length → BlockWritten c content m := by
  induction hsize : content.length - n * Tarzip.headerNum using Nat.strong_induction_on
    generalizing n with
  | _ size ih =>
      have hnum : Tarzip.headerNum = 512 := rfl
      rw [zipContentLoop, Tarzip.writeZipContent]
      by_cases hpos : size > 0
      · rw [if_pos hpos, if_pos hpos]
        -- the block of this turn, and those of the turns behind it
        have hsplit : (∀ m, n ≤ m → m * Tarzip.headerNum < content.length → BlockWritten c content m) ↔
            BlockWritten c content n ∧
              ∀ m, n + 1 ≤ m → m * Tarzip.headerNum < content.length → BlockWritten c content m := by
          constructor
          · intro h
            exact ⟨h n le_rfl (by omega), fun m hm => h m (Nat.le_of_succ_le hm)⟩
          · rintro ⟨hfirst, hlater⟩ m hm hlt
            obtain rfl | hm := Nat.eq_or_lt_of_le hm
            · exact hfirst
            · exact hlater m hm hlt
        rw [hsplit]
        have hlength := zipBlock_length (content.drop (n * Tarzip.headerNum))
        cases hread : c.read n with
        | none =>
            refine iff_of_false (fun h => ?_) fun h => ?_
            · have := congrArg List.length h
              rw [List.length_nil, List.length_append, hlength] at this
              omega
            · have := h.1.read
              rw [hread] at this
              cases this
        | some count =>
            dsimp only
            have hblock := zipBlock_length ((content.drop (readOffset c n)).take count)
            by_cases hwrite : c.write n < Tarzip.headerNum
            · rw [if_pos hwrite]
              refine iff_of_false (fun h => ?_) fun h => absurd h.1.write (not_le.mpr hwrite)
              have := congrArg List.length h
              rw [gzAccepted, List.length_take, List.length_append, hlength] at this
              omega
            · rw [if_neg hwrite]
              have hoffset : (content.drop (readOffset c n)).drop (min count Tarzip.headerNum) =
                  content.drop (readOffset c (n + 1)) := by
                rw [List.drop_drop, readOffset, hread, Option.getD_some]
              have hrest : (content.drop (n * Tarzip.headerNum)).drop Tarzip.headerNum =
                  content.drop ((n + 1) * Tarzip.headerNum) := by
                rw [List.drop_drop, Nat.succ_mul]
              have hlater := ih (size - Tarzip.headerNum) (by omega) (n + 1)
                (by rw [Nat.succ_mul]; omega)
              rw [hoffset, hrest, ← hlater]
              constructor
              · intro h
                obtain ⟨hfirst, hbehind⟩ := List.append_inj h (hblock.trans hlength.symm)
                refine ⟨⟨by rw [hread]; exact rfl, ?_, not_lt.mp hwrite⟩, hbehind⟩
                rw [hread]
                exact hfirst
              · rintro ⟨hfirst, hbehind⟩
                have hsame := hfirst.block
                rw [hread, Option.getD_some] at hsame
                rw [hsame, hbehind]
      · rw [if_neg hpos, if_neg hpos]
        refine iff_of_true rfl fun m hm hlt => ?_
        have := Nat.mul_le_mul_right Tarzip.headerNum hm
        omega

theorem writeZipContent_eq_iff :
    writeZipContent c content = Tarzip.writeZipContent content content.length ↔
      (content ≠ [] →
        c.openFile ∧ ∀ m, m * Tarzip.headerNum < content.length → BlockWritten c content m) := by
  rw [writeZipContent]
  split_ifs with hempty hopen
  · obtain rfl := List.eq_nil_of_length_eq_zero hempty
    rw [Tarzip.writeZipContent, if_neg (by decide)]
    exact iff_of_true rfl fun h => absurd rfl h
  · refine iff_of_false (fun h => ?_) fun h => ?_
    · have := congrArg List.length h
      rw [Tarzip.writeZipContent, if_pos (Nat.pos_of_ne_zero hempty), List.length_nil,
        List.length_append, zipBlock_length, Tarzip.headerNum] at this
      omega
    · obtain ⟨hcall, -⟩ := h fun hnil => hempty (by rw [hnil]; exact rfl)
      rw [hcall] at hopen
      cases hopen
  · have hloop : zipContentLoop c 0 (content.drop (readOffset c 0))
        (content.length - 0 * Tarzip.headerNum) = _ ↔ _ := zipContentLoop_eq_iff 0
    rw [readOffset, Nat.zero_mul, List.drop_zero, Nat.sub_zero] at hloop
    rw [hloop]
    constructor
    · exact fun h _ => ⟨by simpa using hopen, fun m => h m (Nat.zero_le m)⟩
    · intro h m _
      exact (h fun hnil => hempty (by rw [hnil]; exact rfl)).2 m

end Content

/-! ### Headers -/

theorem writeOneUint_length {signed : Bool} {startIndex unitLen : Nat} {input output : List UInt8}
    (h : startIndex + unitLen ≤ output.length) :
    (Tarzip.writeOneUint signed startIndex unitLen input output).2.length = output.length := by
  apply Bytes.store_length
  rw [List.length_take]
  omega

theorem fullHeader_length (signed : Bool) (name : List UInt8) (fileSize : Nat) :
    (fullHeader signed name fileSize).length = Tarzip.headerNum := by
  have hstart : (List.replicate Tarzip.headerNum (0 : UInt8)).length = 512 := List.length_replicate ..
  rw [fullHeader, Tarzip.writeHeader]
  split
  · exact hstart
  · generalize hname : (if name.length ≥ Tarzip.nameLenMax then Tarzip.nameLenMax - 1
      else name.length) = nameLen
    have hmax : nameLen ≤ 100 := by
      rw [← hname, Tarzip.nameLenMax]
      split_ifs <;> omega
    have hfirst : (Tarzip.writeOneUint signed 0 nameLen name
        (List.replicate Tarzip.headerNum 0)).2.length = 512 := by
      rw [writeOneUint_length (by rw [hstart]; omega), hstart]
    have hmode : ∀ {header : List UInt8}, header.length = 512 →
        (Tarzip.writeOneUint signed 100 Tarzip.fileModeLen Tarzip.fileMode header).2.length = 512 := by
      intro header hheader
      rw [writeOneUint_length (by rw [hheader]; decide), hheader]
    have hid : ∀ {header : List UInt8}, header.length = 512 →
        (Tarzip.writeOneUint signed 108 (Tarzip.uidLen + Tarzip.gidLen) Tarzip.idByte header).2.length =
          512 := by
      intro header hheader
      rw [writeOneUint_length (by rw [hheader]; decide), hheader]
    have hsize : ∀ {header : List UInt8} (buf : List UInt8), header.length = 512 →
        (Tarzip.writeOneUint signed 124 Tarzip.fileSizeLen buf header).2.length = 512 := by
      intro header buf hheader
      rw [writeOneUint_length (by rw [hheader]; decide), hheader]
    dsimp only
    split
    · exact hid (hmode hfirst)
    · next buf _ =>
        have hlen := hsize buf (hid (hmode hfirst))
        split
        · exact hlen
        · next buf' _ =>
            have hsum := List.length_take_le Tarzip.checkSumLen buf'
            rw [Bytes.store_length, hlen, Tarzip.headerNum]
            rw [hlen]
            rw [Tarzip.checkSumLen] at *
            omega

/-- A header is accepted whole when `gzwrite` says so. -/
theorem gzAccepted_header_iff {signed : Bool} {name : List UInt8} {fileSize : Nat} {ret : Int} :
    gzAccepted ret (fullHeader signed name fileSize) = fullHeader signed name fileSize ↔
      Tarzip.headerNum ≤ ret := by
  rw [gzAccepted, List.take_eq_self_iff, fullHeader_length, Tarzip.headerNum]
  omega

/-! ### Members -/

section Members

variable {P : LogPaths} {signed : Bool} {c : ZipCalls} {uuid : TeeUuid} {disk : Disk LogByte}

theorem mem_zipMembers (names : List (Option (List Char))) (k : Nat) {m : Member} :
    m ∈ zipMembers signed c disk k names ↔
      ∃ n name members, names[n]? = some (some name) ∧
        writeSingleFile signed c (k + n) name disk = some members ∧ m ∈ members ∧
          ∀ n' < n, ∀ name', names[n']? = some (some name') →
            writeSingleFile signed c (k + n') name' disk ≠ none := by
  induction names generalizing k with
  | nil => simp [zipMembers]
  | cons name names ih =>
      have hshift : ∀ n, k + 1 + n = k + (n + 1) := fun n => by omega
      cases name with
      | none =>
          rw [zipMembers, ih]
          constructor
          · rintro ⟨n, name, members, hname, hwrite, hm, hbefore⟩
            refine ⟨n + 1, name, members, hname, by rwa [← hshift], hm, fun n' hn' name' hname' => ?_⟩
            cases n' with
            | zero => simp at hname'
            | succ n' =>
                rw [← hshift]
                exact hbefore n' (Nat.lt_of_succ_lt_succ hn') name' hname'
          · rintro ⟨n, name, members, hname, hwrite, hm, hbefore⟩
            cases n with
            | zero => simp at hname
            | succ n =>
                refine ⟨n, name, members, hname, by rwa [hshift], hm, fun n' hn' name' hname' => ?_⟩
                rw [hshift]
                exact hbefore (n' + 1) (Nat.succ_lt_succ hn') name' hname'
      | some name =>
          rw [zipMembers]
          cases hfirst : writeSingleFile signed c k name disk with
          | none =>
              refine iff_of_false List.not_mem_nil ?_
              rintro ⟨n, name', members, hname, hwrite, hm, hbefore⟩
              cases n with
              | zero =>
                  obtain rfl : name = name' := by simpa using hname
                  rw [Nat.add_zero, hfirst] at hwrite
                  cases hwrite
              | succ n => exact hbefore 0 (Nat.succ_pos n) name rfl hfirst
          | some members =>
              dsimp only
              rw [List.mem_append, ih]
              constructor
              · rintro (hm | ⟨n, name', members', hname, hwrite, hm, hbefore⟩)
                · exact ⟨0, name, members, rfl, hfirst, hm, fun n' hn' => absurd hn' (Nat.not_lt_zero _)⟩
                · refine ⟨n + 1, name', members', hname, by rwa [← hshift], hm, ?_⟩
                  intro n' hn' name'' hname''
                  cases n' with
                  | zero =>
                      obtain rfl : name = name'' := by simpa using hname''
                      rw [Nat.add_zero, hfirst]
                      exact Option.some_ne_none members
                  | succ n' =>
                      rw [← hshift]
                      exact hbefore n' (Nat.lt_of_succ_lt_succ hn') name'' hname''
              · rintro ⟨n, name', members', hname, hwrite, hm, hbefore⟩
                cases n with
                | zero =>
                    obtain rfl : name = name' := by simpa using hname
                    rw [Nat.add_zero, hfirst] at hwrite
                    obtain rfl := Option.some.inj hwrite
                    exact Or.inl hm
                | succ n =>
                    refine Or.inr ⟨n, name', members', hname, by rwa [hshift], hm, ?_⟩
                    intro n' hn' name'' hname''
                    rw [hshift]
                    exact hbefore (n' + 1) (Nat.succ_lt_succ hn') name'' hname''

/-- What `WriteSingleFile` does with a temporary file. -/
theorem writeSingleFile_tempFile {i : Nat} (hi : i < 10) :
    writeSingleFile signed c i (P.tempFile uuid i) disk =
      match if (c.file i).lstat then fileBytes disk (P.tempFile uuid i) else none with
      | none => some []
      | some content =>
          if (c.file i).header < 0 then none
          else
            some [⟨i, gzAccepted (c.file i).header
              (fullHeader signed (pathBytes (logName uuid i)) content.length),
              writeZipContent (c.file i) content⟩] := by
  have hlen := pathBytes_logName_length uuid i
  rw [writeSingleFile]
  cases if (c.file i).lstat then fileBytes disk (P.tempFile uuid i) else none with
  | none => exact rfl
  | some content =>
      dsimp only
      rw [strrchr_tempFile hi]
      dsimp only
      rw [if_neg (by rw [List.length_cons, Tarzip.fileNameInvalidLen]; omega), List.drop_one,
        List.tail_cons]

/-- A file is a member of the archive, with its header and all of its content. -/
def Archived (signed : Bool) (members : List Member) (uuid : TeeUuid) (i : Nat)
    (content : List UInt8) : Prop :=
  ∃ m ∈ members, m.index = i ∧
    m.header = fullHeader signed (pathBytes (logName uuid i)) content.length ∧
      m.content = Tarzip.writeZipContent content content.length

variable (P c uuid disk) in
/-- `WriteSingleFile` packs the file `i` whole, and does not fail for a file before it. -/
structure MemberWritten (i : Nat) (content : List UInt8) : Prop where
  earlier : ∀ j < i, (c.file j).lstat → (fileBytes disk (P.tempFile uuid j)).isSome →
    0 ≤ (c.file j).header
  lstat : (c.file i).lstat
  header : Tarzip.headerNum ≤ (c.file i).header
  blocks : content ≠ [] → (c.file i).openFile ∧
    ∀ n, n * Tarzip.headerNum < content.length → BlockWritten (c.file i) content n

theorem writeSingleFile_ne_none {j : Nat} (hj : j < 10) :
    writeSingleFile signed c j (P.tempFile uuid j) disk ≠ none ↔
      ((c.file j).lstat → (fileBytes disk (P.tempFile uuid j)).isSome → 0 ≤ (c.file j).header) := by
  rw [writeSingleFile_tempFile hj]
  cases (c.file j).lstat with
  | false => simp
  | true =>
      cases fileBytes disk (P.tempFile uuid j) with
      | none => simp
      | some content => simp

theorem mem_writeSingleFile {j : Nat} (hj : j < 10) {members : List Member} {m : Member}
    (hwrite : writeSingleFile signed c j (P.tempFile uuid j) disk = some members)
    (hm : m ∈ members) :
    (c.file j).lstat ∧ ∃ content, fileBytes disk (P.tempFile uuid j) = some content ∧
      m = ⟨j, gzAccepted (c.file j).header
        (fullHeader signed (pathBytes (logName uuid j)) content.length),
        writeZipContent (c.file j) content⟩ := by
  rw [writeSingleFile_tempFile hj] at hwrite
  split at hwrite
  · obtain rfl := Option.some.inj hwrite
    cases hm
  · next content hcontent =>
      split_ifs at hwrite
      obtain rfl := Option.some.inj hwrite
      split_ifs at hcontent with hlstat
      exact ⟨hlstat, content, hcontent, List.mem_singleton.mp hm⟩

/-- Which files the loop of `TarZipFiles` packs whole. -/
theorem archived_zipMembers_iff {names : List (Option (List Char))}
    (hnames : ∀ n, names[n]? = if n < logFileIndexMax then some (some (P.tempFile uuid n)) else none)
    {i : Nat} (hi : i < logFileIndexMax) {content : List UInt8}
    (hcontent : fileBytes disk (P.tempFile uuid i) = some content) :
    Archived signed (zipMembers signed c disk 0 names) uuid i content ↔
      MemberWritten P c uuid disk i content := by
  have hlog : logFileIndexMax = 4 := rfl
  have hname : ∀ {n name}, names[n]? = some (some name) ↔
      n < logFileIndexMax ∧ P.tempFile uuid n = name := by
    intro n name
    rw [hnames]
    split_ifs with hn
    · simp [hn]
    · simp [hn]
  have hbefore : ∀ n ≤ i, (∀ n' < n, ∀ name', names[n']? = some (some name') →
      writeSingleFile signed c (0 + n') name' disk ≠ none) ↔
        ∀ j < n, (c.file j).lstat → (fileBytes disk (P.tempFile uuid j)).isSome →
          0 ≤ (c.file j).header := by
    intro n hn
    apply forall₂_congr
    intro j hj
    have hwritten : writeSingleFile signed c j (P.tempFile uuid j) disk ≠ none ↔ _ :=
      writeSingleFile_ne_none (by omega)
    rw [← hwritten, Nat.zero_add]
    constructor
    · exact fun h => h _ (hname.mpr ⟨by omega, rfl⟩)
    · rintro h name' hname'
      obtain ⟨-, rfl⟩ := hname.mp hname'
      exact h
  constructor
  · rintro ⟨m, hm, hindex, hheader, hbytes⟩
    obtain ⟨n, name, members, hn, hwrite, hmem, hearlier⟩ := (mem_zipMembers names 0).mp hm
    obtain ⟨hn, rfl⟩ := hname.mp hn
    rw [Nat.zero_add] at hwrite
    obtain ⟨hlstat, content', hcontent', rfl⟩ := mem_writeSingleFile (by omega) hwrite hmem
    obtain rfl : n = i := hindex
    obtain rfl := Option.some.inj (hcontent'.symm.trans hcontent)
    exact ⟨(hbefore n le_rfl).mp hearlier, hlstat, gzAccepted_header_iff.mp hheader,
      writeZipContent_eq_iff.mp hbytes⟩
  · intro h
    have hheader := h.header
    have hwrite : writeSingleFile signed c i (P.tempFile uuid i) disk = _ :=
      writeSingleFile_tempFile (by omega)
    rw [if_pos h.lstat, hcontent] at hwrite
    dsimp only at hwrite
    rw [if_neg (by rw [Tarzip.headerNum] at hheader; omega)] at hwrite
    refine ⟨_, (mem_zipMembers names 0).mpr ⟨i, _, _, hname.mpr ⟨hi, rfl⟩, by rw [Nat.zero_add]; exact hwrite,
      List.mem_singleton_self _, (hbefore i le_rfl).mpr h.earlier⟩, rfl, ?_, ?_⟩
    · exact gzAccepted_header_iff.mpr hheader
    · exact writeZipContent_eq_iff.mpr h.blocks

end Members

/-! ### Calls that do not fail -/

section Succeeding

variable {signed : Bool} {c : ZipCalls} {disk : Disk LogByte}
  {lstat : List UInt8 → Option Tarzip.FileAttr}

theorem readOffset_default (n : Nat) : readOffset {} n = n * Tarzip.headerNum := by
  induction n with
  | zero => exact (Nat.zero_mul _).symm
  | succ n ih =>
      rw [readOffset, ih, Nat.succ_mul]
      exact rfl

theorem blockWritten_default (content : List UInt8) (n : Nat) : BlockWritten {} content n where
  read := rfl
  block := by
    rw [readOffset_default, Tarzip.zipBlock, Tarzip.zipBlock, Option.getD_some, Tarzip.headerNum,
      List.take_take, Nat.min_self]
  write := le_rfl

/-- Then the file is packed as it is where no call fails. -/
theorem writeSingleFile_default (index : Nat) {name : List Char}
    (hlstat : lstat (pathBytes name) = (fileBytes disk name).map fun bytes => ⟨true, bytes⟩)
    (hfile : c.file index = {}) :
    (writeSingleFile signed c index name disk).map
        (List.flatMap fun m => m.header ++ m.content) =
      Tarzip.writeSingleFile signed lstat (pathBytes name) := by
  rw [writeSingleFile, Tarzip.writeSingleFile, Tarzip.judgeFileValidite, hlstat, hfile, if_pos rfl]
  cases fileBytes disk name with
  | none => exact rfl
  | some content =>
      have hcontent : writeZipContent {} content = _ := writeZipContent_eq_iff.mpr
        fun _ => ⟨rfl, fun n _ => blockWritten_default content n⟩
      dsimp only [Option.map_some]
      rw [if_pos rfl]
      dsimp only
      cases Tarzip.strrchr (pathBytes name) 0x2F with
      | none => exact rfl
      | some s1 =>
          dsimp only
          split_ifs with hname hheader
          · exact rfl
          · exact absurd hheader (by decide)
          · have haccepted : gzAccepted 512 (fullHeader signed (s1.drop 1) content.length) =
                fullHeader signed (s1.drop 1) content.length :=
              gzAccepted_header_iff.mpr le_rfl
            rw [Option.map_some, haccepted, hcontent, List.flatMap_singleton]
            exact rfl

/-- And so is the whole archive. -/
theorem zipMembers_default {names : List (Option (List Char))} (hfile : ∀ j, c.file j = {})
    (hlstat : ∀ name, some name ∈ names →
      lstat (pathBytes name) = (fileBytes disk name).map fun bytes => ⟨true, bytes⟩) (k : Nat)
    (hwrites : ∀ n name, names[n]? = some (some name) →
      writeSingleFile signed c (k + n) name disk ≠ none) :
    ((zipMembers signed c disk k names).flatMap fun m => m.header ++ m.content) ++
        List.replicate Tarzip.headerNum 0 =
      Tarzip.tarZipLoop signed lstat (names.map (Option.map pathBytes)) := by
  induction names generalizing k with
  | nil => exact List.nil_append _
  | cons name names ih =>
      have hrest := ih (fun name' hname' => hlstat name' (List.mem_cons_of_mem _ hname')) (k + 1)
        fun n name' hname' => by
          rw [Nat.add_assoc, Nat.add_comm 1]
          exact hwrites (n + 1) name' hname'
      cases name with
      | none =>
          rw [zipMembers, hrest]
          exact rfl
      | some name =>
          have hname : (writeSingleFile signed c k name disk).map _ = _ := writeSingleFile_default k
            (hlstat name (List.mem_cons_self ..)) (hfile k)
          rw [zipMembers, List.map_cons, Option.map_some, Tarzip.tarZipLoop, ← hname]
          cases hwrite : writeSingleFile signed c k name disk with
          | none => exact absurd hwrite (hwrites 0 name rfl)
          | some members =>
              dsimp only [Option.map_some]
              rw [List.flatMap_append, List.append_assoc, hrest]

end Succeeding

/-! ### Compression -/

section Trigger

variable {P : LogPaths} {signed : Bool} {c : ZipCalls} {uuid : TeeUuid} {disk : Disk LogByte}
  {g_compressFile : List Char}

/-- Opening the archive leaves the temporary files alone. -/
theorem content_openZipFile (hout : ¬ P.IsTemp g_compressFile) (j : Nat) :
    (openZipFile c g_compressFile disk).2.content (P.tempFile uuid j) =
      disk.content (P.tempFile uuid j) := by
  rw [openZipFile]
  split_ifs with hopen hfind
  · rfl
  · rw [Disk.content_create, if_neg]
    rintro heq
    exact hout (heq ▸ LogPaths.isTemp_tempFile)
  · rfl

variable (P signed c uuid disk g_compressFile) in
/-- A log file in the temporary directory is archived, or it is still there. -/
def ArchivedOrKept (i : Nat) (content : List UInt8) : Prop :=
  ¬ Archived signed (triggerCompressWith P signed c uuid g_compressFile disk).1 uuid i content →
    (triggerCompressWith P signed c uuid g_compressFile disk).2.content (P.tempFile uuid i) =
      disk.content (P.tempFile uuid i)

variable (P c uuid disk) in
/-- Nothing fails that the archiving of file `i` needs. -/
structure ArchiveSucceeds (i : Nat) (content : List UInt8) : Prop where
  malloc : ∀ j < logFileIndexMax, c.malloc j
  openOutput : c.openOutput
  gzdopen : c.gzdopen
  fchown : c.fchown
  fchmod : c.fchmod
  gzclose : c.gzclose
  member : MemberWritten P c uuid disk i content

theorem openZipFile_iff : (openZipFile c g_compressFile disk).1 = true ↔
    c.openOutput ∧ c.gzdopen ∧ c.fchown ∧ c.fchmod := by
  rw [openZipFile]
  cases c.openOutput with
  | false => simp
  | true => simp [and_assoc]

theorem archived_iff (hout : ¬ P.IsTemp g_compressFile) {i : Nat} (hi : i < logFileIndexMax)
    {content : List UInt8} (hcontent : fileBytes disk (P.tempFile uuid i) = some content) :
    Archived signed (triggerCompressWith P signed c uuid g_compressFile disk).1 uuid i content ↔
      ArchiveSucceeds P c uuid disk i content := by
  have hnone : ¬ Archived signed [] uuid i content := by
    rintro ⟨m, hm, -⟩
    cases hm
  have hsame : ∀ j, fileBytes (openZipFile c g_compressFile disk).2 (P.tempFile uuid j) =
      fileBytes disk (P.tempFile uuid j) := by
    intro j
    rw [fileBytes, content_openZipFile hout, fileBytes]
  rw [triggerCompressWith]
  dsimp only
  by_cases hmalloc : ∀ j < logFileIndexMax, c.malloc j
  · rw [if_pos (all_allocateNames_iff.mpr hmalloc), tarZipFilesWith, if_neg (not_not.mpr rfl)]
    dsimp only
    by_cases hopen : (openZipFile c g_compressFile disk).1
    · rw [hopen, if_neg (by decide)]
      obtain ⟨houtput, hgzdopen, hfchown, hfchmod⟩ := openZipFile_iff.mp hopen
      by_cases hclose : c.gzclose
      · rw [if_pos hclose]
        have hnames : ∀ n,
            ((allocateNames P c uuid (List.range logFileIndexMax)).take logFileIndexMax)[n]? =
              if n < logFileIndexMax then some (some (P.tempFile uuid n)) else none := by
          intro n
          rw [List.getElem?_take]
          split_ifs with hn
          · rw [allocateNames_range hn, if_pos fun j hj => hmalloc j (hj.trans_lt hn)]
          · rfl
        refine (archived_zipMembers_iff hnames hi ((hsame i).trans hcontent)).trans ?_
        constructor
        · intro h
          refine ⟨hmalloc, houtput, hgzdopen, hfchown, hfchmod, hclose, ?_⟩
          exact ⟨fun j hj hlstat hfile => h.earlier j hj hlstat (by rwa [hsame]), h.lstat, h.header,
            h.blocks⟩
        · intro h
          exact ⟨fun j hj hlstat hfile => h.member.earlier j hj hlstat (by rwa [← hsame]),
            h.member.lstat, h.member.header, h.member.blocks⟩
      · rw [if_neg hclose]
        exact iff_of_false hnone fun h => hclose h.gzclose
    · rw [if_pos (by simpa using hopen)]
      refine iff_of_false hnone fun h => hopen (openZipFile_iff.mpr ?_)
      exact ⟨h.openOutput, h.gzdopen, h.fchown, h.fchmod⟩
  · rw [if_neg fun h => hmalloc (all_allocateNames_iff.mp h)]
    exact iff_of_false hnone fun h => hmalloc h.malloc

/-- The archive does not touch the temporary files. -/
theorem content_tarZipFilesWith (hout : ¬ P.IsTemp g_compressFile) (nameCount : Nat)
    (inputNames : List (Option (List Char))) (j : Nat) :
    (tarZipFilesWith signed c nameCount inputNames g_compressFile disk).2.content
        (P.tempFile uuid j) = disk.content (P.tempFile uuid j) := by
  rw [tarZipFilesWith]
  split
  · rfl
  · dsimp only
    split
    · exact content_openZipFile hout j
    · exact content_openZipFile hout j

theorem content_removeFiles_iff {names : List (Option (List Char))} {p : List Char}
    (hfile : disk.content p ≠ none) : (removeFiles c 0 names disk).content p = disk.content p ↔
      ∀ n, names[n]? = some (some p) → c.unlink n = false := by
  cases hfind : disk.find p with
  | none => exact absurd ((disk.content_eq_none p).mpr hfind) hfile
  | some inode =>
      have hiff := find_removeFiles (c := c) names 0 disk p inode
      simp only [hfind, Nat.zero_add, true_and] at hiff
      rw [← hiff]
      constructor
      · intro hkept
        cases hafter : (removeFiles c 0 names disk).find p with
        | none =>
            rw [((removeFiles c 0 names disk).content_eq_none p).mpr hafter] at hkept
            exact absurd hkept.symm hfile
        | some inode' =>
            rw [((find_removeFiles names 0 disk p inode').mp hafter).1, Option.some.injEq] at hfind
            rw [hfind]
      · intro hafter
        exact Disk.content_congr (hafter.trans hfind.symm) fun n _ =>
          congrFun (data_removeFiles names 0 disk) n

/-- A file is removed when its name has been allocated and `unlink` does not fail. -/
theorem content_triggerCompress (hout : ¬ P.IsTemp g_compressFile) {i : Nat}
    (hi : i < logFileIndexMax) (hfile : disk.content (P.tempFile uuid i) ≠ none) :
    (triggerCompressWith P signed c uuid g_compressFile disk).2.content (P.tempFile uuid i) =
        disk.content (P.tempFile uuid i) ↔
      c.unlink i = false ∨ ∃ j ≤ i, c.malloc j = false := by
  have hname : ∀ n, (allocateNames P c uuid (List.range logFileIndexMax))[n]? =
      some (some (P.tempFile uuid i)) ↔ n = i ∧ ∀ j ≤ i, c.malloc j := by
    intro n
    by_cases hn : n < logFileIndexMax
    · rw [allocateNames_range hn]
      split_ifs with hmalloc
      · rw [Option.some.injEq, Option.some.injEq]
        constructor
        · intro heq
          obtain rfl := (LogPaths.tempFile_inj heq).2
          exact ⟨rfl, hmalloc⟩
        · rintro ⟨rfl, -⟩
          rfl
      · refine iff_of_false (by simp) ?_
        rintro ⟨rfl, h⟩
        exact hmalloc h
    · rw [allocateNames_of_ge (not_lt.mp hn)]
      refine iff_of_false (by simp) ?_
      rintro ⟨rfl, -⟩
      exact hn hi
  have hremoved : ∀ {d : Disk LogByte},
      d.content (P.tempFile uuid i) = disk.content (P.tempFile uuid i) →
        ((removeFiles c 0 (allocateNames P c uuid (List.range logFileIndexMax)) d).content
            (P.tempFile uuid i) = disk.content (P.tempFile uuid i) ↔
          c.unlink i = false ∨ ∃ j ≤ i, c.malloc j = false) := by
    intro d hd
    rw [← hd, content_removeFiles_iff (by rwa [hd])]
    simp only [hname]
    constructor
    · intro h
      by_cases hmalloc : ∀ j ≤ i, c.malloc j
      · exact Or.inl (h i ⟨rfl, hmalloc⟩)
      · push Not at hmalloc
        obtain ⟨j, hj, hfails⟩ := hmalloc
        exact Or.inr ⟨j, hj, by simpa using hfails⟩
    · rintro (hunlink | ⟨j, hj, hfails⟩) n ⟨rfl, hmalloc⟩
      · exact hunlink
      · rw [hmalloc j hj] at hfails
        cases hfails
  rw [triggerCompressWith]
  dsimp only
  split_ifs
  · exact hremoved (content_tarZipFilesWith hout _ _ i)
  · exact hremoved rfl

/-- A log file is removed unless it cannot be; so it has been archived only if nothing failed. -/
theorem triggerCompress_archived_iff (P : LogPaths) (signed : Bool) (c : ZipCalls) (uuid : TeeUuid)
    (g_compressFile : List Char) (hout : ¬ P.IsTemp g_compressFile) (disk : Disk LogByte) {i : Nat}
    (hi : i < logFileIndexMax) {content : List UInt8}
    (hcontent : fileBytes disk (P.tempFile uuid i) = some content) :
    ArchivedOrKept P signed c uuid disk g_compressFile i content ↔
      (c.unlink i = false ∨ ∃ j ≤ i, c.malloc j = false) ∨ ArchiveSucceeds P c uuid disk i content := by
  have hfile : disk.content (P.tempFile uuid i) ≠ none := by
    intro hnone
    rw [fileBytes, hnone] at hcontent
    cases hcontent
  rw [ArchivedOrKept, content_triggerCompress hout hi hfile, archived_iff hout hi hcontent,
    ← or_iff_not_imp_left, or_comm]

end Trigger

/-! ### One log file -/

/-- The temporary directory holds one log file of the system. -/
def oneTempFile : Disk LogByte :=
  (Disk.empty.create (LogPaths.default.tempFile .zero 0)).write ⟨0, 0⟩ [⟨.item, 65⟩]

theorem oneTempFile_bytes :
    fileBytes oneTempFile (LogPaths.default.tempFile .zero 0) = some [65] := by
  decide +kernel

/-- When nothing fails, the file is archived. -/
theorem oneTempFile_archivedOrKept :
    ArchivedOrKept .default true {} .zero oneTempFile (LogPaths.default.archive .zero 0) 0 [65] :=
  (triggerCompress_archived_iff .default true {} .zero (LogPaths.default.archive .zero 0)
    LogPaths.not_isTemp_archive oneTempFile (by decide) oneTempFile_bytes).mpr <| Or.inr
      { malloc := fun _ _ => rfl
        openOutput := rfl
        gzdopen := rfl
        fchown := rfl
        fchmod := rfl
        gzclose := rfl
        member :=
          { earlier := fun j hj => absurd hj (Nat.not_lt_zero j)
            lstat := rfl
            header := le_rfl
            blocks := fun _ => ⟨rfl, fun n _ => blockWritten_default [65] n⟩ } }

/-- The archive cannot be opened, and the file is removed all the same. -/
theorem oneTempFile_lost :
    (triggerCompressWith .default true { openOutput := false } .zero
        (LogPaths.default.archive .zero 0) oneTempFile).1 = [] ∧
      (triggerCompressWith .default true { openOutput := false } .zero
          (LogPaths.default.archive .zero 0) oneTempFile).2.content
            (LogPaths.default.tempFile .zero 0) = none ∧
        ¬ ArchivedOrKept .default true { openOutput := false } .zero oneTempFile
            (LogPaths.default.archive .zero 0) 0 [65] := by
  have hmembers : (triggerCompressWith .default true { openOutput := false } .zero
      (LogPaths.default.archive .zero 0) oneTempFile).1 = [] := by
    decide +kernel
  have hgone : (triggerCompressWith .default true { openOutput := false } .zero
      (LogPaths.default.archive .zero 0) oneTempFile).2.content
        (LogPaths.default.tempFile .zero 0) = none := by
    decide +kernel
  refine ⟨hmembers, hgone, fun hkept => ?_⟩
  have hbytes := oneTempFile_bytes
  rw [fileBytes, ← hkept, hgone] at hbytes
  · cases hbytes
  · rw [hmembers]
    rintro ⟨m, hm, -⟩
    cases hm

end ITrustee.Tlogcat
