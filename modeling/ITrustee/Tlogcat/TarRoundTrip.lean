import Mathlib.Tactic
import Mathlib.Data.List.DropRight
import ITrustee.Tlogcat.TarZip

/-!
# What a reader gets from an archive

A reader of the tar format takes a header, checks its sum, takes the name and the size, and goes on
behind the content at the next multiple of 512; a block of zeros is the end. A file that is empty gets a
header of zeros from `WriteHeader`, so the reader ends there, and a path without a directory ends the
writing. Of all other files the reader gets the name and the content.
-/

namespace ITrustee.Tarzip

open CInt Octal

/-! ### The reader -/

/-- The sum of a header with its own field taken as spaces. -/
def headerSum (header : List UInt8) : Nat :=
  ((header.take 148 ++ List.replicate checkSumLen 0x20 ++ header.drop 156).map UInt8.toNat).sum

def headerName (header : List UInt8) : List UInt8 :=
  (Bytes.slice header 0 nameLenMax).takeWhile (· != 0)

def headerSize (header : List UInt8) : Nat := parseOctal (Bytes.slice header 124 fileSizeLen)

/-- The length of a content with its padding. -/
def paddedLen (size : Nat) : Nat := (size + (headerNum - 1)) / headerNum * headerNum

/-- The names and contents of an archive, `none` if a header is damaged or a content cut off. -/
def readTar (archive : List UInt8) : Option (List (List UInt8 × List UInt8)) :=
  let header := archive.take headerNum
  let rest := archive.drop headerNum
  if archive.length < headerNum ∨ header.all (· == 0) then some []
  else if headerSum header ≠ parseOctal (Bytes.slice header 148 checkSumLen) then none
  else if rest.length < headerSize header then none
  else
    (readTar (rest.drop (paddedLen (headerSize header)))).map
      ((headerName header, rest.take (headerSize header)) :: ·)
termination_by archive.length
decreasing_by
  have hnum : headerNum = 512 := rfl
  simp only [List.length_drop]
  omega

/-! ### Base names -/

/-- What follows the last '/'. -/
def baseName (path : List UInt8) : List UInt8 := path.rtakeWhile (· != 0x2F)

theorem baseName_cons (b : UInt8) (path : List UInt8) :
    baseName (b :: path) =
      if 0x2F ∈ path then baseName path else if b = 0x2F then path else b :: path := by
  have hall : path.reverse.takeWhile (· != 0x2F) = path.reverse ↔ 0x2F ∉ path := by
    rw [List.takeWhile_eq_self_iff]
    simp only [List.mem_reverse, bne_iff_ne]
    exact ⟨fun h hmem => h _ hmem rfl, fun h c hc heq => h (heq ▸ hc)⟩
  have hlen : (path.reverse.takeWhile (· != 0x2F)).length = path.reverse.length ↔ 0x2F ∉ path := by
    rw [← hall]
    refine ⟨fun h => ?_, fun h => congrArg List.length h⟩
    exact (List.takeWhile_prefix _).eq_of_length h
  rw [baseName, baseName, List.rtakeWhile, List.rtakeWhile, List.reverse_cons, List.takeWhile_append]
  by_cases hmem : 0x2F ∈ path
  · rw [if_neg (by rw [hlen]; exact not_not.mpr hmem), if_pos hmem]
  · rw [if_pos (hlen.mpr hmem), if_neg hmem]
    by_cases hb : b = 0x2F
    · rw [if_pos hb, List.takeWhile_cons_of_neg (by simp [hb]), List.append_nil,
        List.reverse_reverse]
    · rw [if_neg hb, List.takeWhile_cons_of_pos (by simpa using hb), List.takeWhile_nil,
        List.reverse_append, List.reverse_reverse]
      rfl

/-- `strrchr` finds the base name with the '/' before it. -/
theorem strrchr_slash (path : List UInt8) :
    strrchr path 0x2F = if 0x2F ∈ path then some (0x2F :: baseName path) else none := by
  induction path with
  | nil => rfl
  | cons b path ih =>
      rw [strrchr, ih, baseName_cons]
      by_cases hmem : 0x2F ∈ path
      · rw [if_pos hmem, if_pos hmem, if_pos (List.mem_cons_of_mem b hmem)]
      · rw [if_neg hmem, if_neg hmem]
        by_cases hb : b = 0x2F
        · rw [if_pos hb, if_pos hb, if_pos (by rw [hb]; exact List.mem_cons_self), hb]
        · have hnot : 0x2F ∉ b :: path := by
            rw [List.mem_cons, not_or]
            exact ⟨fun h => hb h.symm, hmem⟩
          rw [if_neg hb, if_neg hnot]

/-! ### Headers -/

/-- A field padded with zeros. -/
def field (width : Nat) (bs : List UInt8) : List UInt8 := bs ++ List.replicate (width - bs.length) 0

theorem field_length {width : Nat} {bs : List UInt8} (h : bs.length ≤ width) :
    (field width bs).length = width := by
  rw [field, List.length_append, List.length_replicate]
  omega

theorem slice_field {width : Nat} {bs : List UInt8} (h : bs.length ≤ width) (rest : List UInt8) :
    Bytes.slice (field width bs ++ rest) 0 width = field width bs := by
  have hself := Bytes.slice_self_append (field width bs) rest
  rwa [field_length h] at hself

/-- A write behind the part of a header that is done. -/
theorem store_zeros {done bs : List UInt8} {pos k : Nat} (hpos : done.length = pos) :
    Bytes.store (done ++ List.replicate k 0) pos bs =
      done ++ bs ++ List.replicate (k - bs.length) 0 := by
  rw [← hpos, Bytes.store_append_self, List.drop_replicate, List.append_assoc]

/-- What precedes the sum in a header. -/
def headerStart (name : List UInt8) (size : Nat) : List UInt8 :=
  field nameLenMax name ++ fileMode ++ idByte ++ field fileSizeLen (octal size) ++
    List.replicate unixTimeLen 0

def checkSum (name : List UInt8) (size : Nat) : Nat :=
  ((headerStart name size).map UInt8.toNat).sum + checkSumAppend

theorem snprintfOctal_zeros {size : Nat} (h : size < 2 ^ 32) :
    snprintfOctal (List.replicate fileSizeLen 0) size = some (field fileSizeLen (octal size)) := by
  have hlen : (octal size).length ≤ 11 := octal_length_le (by decide) (h.trans (by decide))
  have hsize : fileSizeLen = 12 := rfl
  have hleft : fileSizeLen - (octal size).length =
      fileSizeLen - ((octal size).length + 1) + 1 := by omega
  rw [snprintfOctal, List.length_replicate, if_pos (by omega), Bytes.store_zero,
    List.drop_replicate, field, List.length_append, List.length_singleton, List.append_assoc, hleft,
    List.replicate_succ]
  rfl

/-- For characters of ASCII it makes no difference whether they are signed. -/
theorem sum_charValue (signed : Bool) {bs : List UInt8} (h : ∀ b ∈ bs, b.toNat < 128) :
    (bs.map (charValue signed)).sum = ((bs.map UInt8.toNat).sum : Nat) := by
  induction bs with
  | nil => rfl
  | cons b bs ih =>
      obtain ⟨hb, hrest⟩ := List.forall_mem_cons.mp h
      rw [List.map_cons, List.sum_cons, ih hrest, charValue, if_neg (by omega), List.map_cons,
        List.sum_cons, Nat.cast_add]

/-- A fixed string can be checked byte by byte. -/
theorem forall_of_all {P : UInt8 → Prop} [DecidablePred P] {bs : List UInt8}
    (h : bs.all (fun b => decide (P b)) = true) : ∀ b ∈ bs, P b :=
  fun b hb => of_decide_eq_true (List.all_eq_true.mp h b hb)

theorem octalField_ascii (size : Nat) : ∀ b ∈ field fileSizeLen (octal size), b.toNat < 128 := by
  intro b hb
  obtain hb | hb := List.mem_append.mp hb
  · have hdigit := isDigit_octal size b hb
    rw [isDigit, Bool.and_eq_true, decide_eq_true_eq, decide_eq_true_eq] at hdigit
    omega
  · rw [List.eq_of_mem_replicate hb]
    decide

theorem sum_field (width : Nat) (bs : List UInt8) :
    ((field width bs).map UInt8.toNat).sum = (bs.map UInt8.toNat).sum := by
  rw [field, List.map_append, List.sum_append, List.map_replicate, List.sum_replicate]
  simp

theorem sum_le_length (bs : List UInt8) : (bs.map UInt8.toNat).sum ≤ bs.length * 255 := by
  induction bs with
  | nil => exact Nat.le_refl 0
  | cons b bs ih =>
      have hb := b.toNat_lt
      rw [List.map_cons, List.sum_cons, List.length_cons, Nat.succ_mul]
      omega

section Header

variable {name : List UInt8} {size : Nat} (hname : name.length < nameLenMax)

include hname

theorem headerStart_length (hmax : size < 2 ^ 32) : (headerStart name size).length = 148 := by
  have hlen : (octal size).length ≤ fileSizeLen :=
    octal_length_le (by decide) (hmax.trans (by decide))
  simp only [headerStart, List.length_append, field_length hname.le, field_length hlen,
    List.length_replicate]
  rfl

theorem checkSum_lt (hmax : size < 2 ^ 32) : checkSum name size < 8 ^ 7 := by
  have hsum := sum_le_length (headerStart name size)
  rw [headerStart_length hname hmax] at hsum
  have happend : checkSumAppend = 256 := rfl
  rw [checkSum]
  omega

/-- The writes of a header, one behind the other. -/
theorem stores_eq (hmax : size < 2 ^ 32) {sum : List UInt8} (hsum : sum.length = checkSumLen) :
    Bytes.store (Bytes.store (Bytes.store (Bytes.store (Bytes.store (List.replicate headerNum 0) 0
      name) 100 fileMode) 108 idByte) 124 (field fileSizeLen (octal size))) 148 sum =
        headerStart name size ++ sum ++ List.replicate 356 0 := by
  have hlen : (octal size).length ≤ fileSizeLen :=
    octal_length_le (by decide) (hmax.trans (by decide))
  have hfield := field_length hlen
  have hnameField : (field nameLenMax name).length = 100 := field_length hname.le
  have hwidth : nameLenMax = 100 := rfl
  have hfirst : Bytes.store (List.replicate headerNum 0) 0 name =
      field nameLenMax name ++ List.replicate 412 0 := by
    have hsplit : headerNum - name.length = nameLenMax - name.length + 412 := by
      have hnum : headerNum = 512 := rfl
      omega
    rw [Bytes.store_zero, List.drop_replicate, hsplit, List.replicate_add, field, List.append_assoc]
  have hmode : (field nameLenMax name ++ fileMode).length = 108 := by
    rw [List.length_append, hnameField]
    rfl
  have hid : (field nameLenMax name ++ fileMode ++ idByte).length = 124 := by
    rw [List.length_append, hmode]
    rfl
  have htime : List.replicate (412 - fileMode.length - idByte.length -
      (field fileSizeLen (octal size)).length) (0 : UInt8) =
        List.replicate unixTimeLen 0 ++ List.replicate 364 0 := by
    rw [hfield]
    rfl
  have hstart := headerStart_length hname hmax
  rw [headerStart] at hstart ⊢
  rw [hfirst, store_zeros hnameField, store_zeros hmode, store_zeros hid, htime, ← List.append_assoc,
    store_zeros hstart, hsum]
  rfl

/-- The header of a file that is not empty. What follows the sum in its field may be the rest of the
size. -/
theorem writeHeader_eq (signed : Bool) (hascii : ∀ b ∈ name, b.toNat < 128) (hpos : 0 < size)
    (hmax : size < 2 ^ 32) :
    ∃ left, ((octal (checkSum name size)) ++ 0 :: left).length = checkSumLen ∧
      writeHeader signed (List.replicate headerNum 0) name size =
        headerStart name size ++ (octal (checkSum name size) ++ 0 :: left) ++
          List.replicate 356 0 := by
  have hlen : (octal size).length ≤ fileSizeLen :=
    octal_length_le (by decide) (hmax.trans (by decide))
  have hfield := field_length hlen
  have hnameField := field_length hname.le
  have hnameLen : (if name.length ≥ nameLenMax then nameLenMax - 1 else name.length) = name.length :=
    if_neg (Nat.not_le.mpr hname)
  have hsum : (name.map (charValue signed)).sum + (fileMode.map (charValue signed)).sum +
      (idByte.map (charValue signed)).sum +
      ((field fileSizeLen (octal size)).map (charValue signed)).sum + checkSumAppend =
        (checkSum name size : Nat) := by
    rw [sum_charValue signed hascii, sum_charValue signed (forall_of_all (by decide)),
      sum_charValue signed (forall_of_all (by decide)), sum_charValue signed (octalField_ascii size),
      checkSum, headerStart]
    simp only [List.map_append, List.sum_append, sum_field, List.map_replicate, List.sum_replicate]
    push_cast
    simp
  have hchk := checkSum_lt hname hmax
  have hdigits : (octal (checkSum name size)).length ≤ 7 := octal_length_le (by decide) hchk
  have hmode : fileMode.take fileModeLen = fileMode := rfl
  have hid : idByte.take (uidLen + gidLen) = idByte := rfl
  have hsizeTake : (field fileSizeLen (octal size)).take fileSizeLen = field fileSizeLen (octal size) :=
    List.take_of_length_le hfield.le
  rw [writeHeader, if_neg hpos.ne']
  dsimp only [writeOneUint]
  rw [hnameLen, List.take_length, hmode, hid, u32_of_lt hmax, snprintfOctal_zeros hmax]
  dsimp only
  rw [hsizeTake, hsum, toU32_of_lt rfl (hchk.trans (by decide))]
  have hprint : snprintfOctal (field fileSizeLen (octal size)) (checkSum name size) =
      some (octal (checkSum name size) ++ [0] ++
        (field fileSizeLen (octal size)).drop ((octal (checkSum name size)).length + 1)) := by
    have hwidth : fileSizeLen = 12 := rfl
    rw [snprintfOctal, if_pos (by omega), Bytes.store_zero, List.length_append,
      List.length_singleton]
  rw [hprint]
  dsimp only
  have htake : (octal (checkSum name size) ++ [0] ++ (field fileSizeLen (octal size)).drop
      ((octal (checkSum name size)).length + 1)).take checkSumLen =
        octal (checkSum name size) ++ 0 :: ((field fileSizeLen (octal size)).drop
          ((octal (checkSum name size)).length + 1)).take
            (checkSumLen - ((octal (checkSum name size)).length + 1)) := by
    have hwidth : checkSumLen = 8 := rfl
    rw [List.take_append, List.take_of_length_le, List.length_append, List.length_singleton,
      List.append_assoc]
    · rfl
    · rw [List.length_append, List.length_singleton]
      omega
  have hlast : (octal (checkSum name size) ++ 0 :: ((field fileSizeLen (octal size)).drop
      ((octal (checkSum name size)).length + 1)).take
        (checkSumLen - ((octal (checkSum name size)).length + 1))).length = checkSumLen := by
    have hwidth : checkSumLen = 8 := rfl
    have hwidth' : fileSizeLen = 12 := rfl
    rw [List.length_append, List.length_cons, List.length_take, List.length_drop, hfield]
    omega
  rw [htake]
  exact ⟨_, hlast, stores_eq hname hmax hlast⟩

/-- What the reader takes from such a header. -/
theorem header_read (signed : Bool) (hascii : ∀ b ∈ name, b ≠ 0 ∧ b.toNat < 128) (hpos : 0 < size)
    (hmax : size < 2 ^ 32) :
    let header := writeHeader signed (List.replicate headerNum 0) name size
    header.length = headerNum ∧ header.all (· == 0) = false ∧
      headerSum header = parseOctal (Bytes.slice header 148 checkSumLen) ∧
      headerName header = name ∧ headerSize header = size := by
  intro header
  obtain ⟨left, hlast, heq⟩ := writeHeader_eq hname signed (fun b hb => (hascii b hb).2) hpos hmax
  have hlen : (octal size).length ≤ fileSizeLen :=
    octal_length_le (by decide) (hmax.trans (by decide))
  have hstart := headerStart_length hname hmax
  have hheader : header = headerStart name size ++ ((octal (checkSum name size) ++ 0 :: left) ++
      List.replicate 356 0) := by
    rw [← List.append_assoc]
    exact heq
  clear_value header
  subst hheader
  refine ⟨?_, ?_, ?_, ?_, ?_⟩
  · rw [List.length_append, List.length_append, hstart, hlast, List.length_replicate]
    rfl
  · rw [List.all_eq_false]
    refine ⟨0x31, ?_, by decide⟩
    have hmem : (0x31 : UInt8) ∈ field nameLenMax name ++ fileMode :=
      List.mem_append_right _ List.mem_cons_self
    exact List.mem_append_left _ (List.mem_append_left _ (List.mem_append_left _
      (List.mem_append_left _ hmem)))
  · have hslice : Bytes.slice (headerStart name size ++ ((octal (checkSum name size) ++ 0 :: left) ++
        List.replicate 356 0)) 148 checkSumLen = octal (checkSum name size) ++ 0 :: left := by
      have hself := Bytes.slice_append (headerStart name size)
        ((octal (checkSum name size) ++ 0 :: left) ++ List.replicate 356 0) 0 checkSumLen
      rw [hstart, ← hlast, Bytes.slice_self_append] at hself
      rw [← hlast]
      exact hself
    rw [hslice, parseOctal_octal _ _ rfl, headerSum, List.take_left' hstart]
    have hdrop : (headerStart name size ++ ((octal (checkSum name size) ++ 0 :: left) ++
        List.replicate 356 0)).drop 156 = List.replicate 356 0 := by
      rw [← List.append_assoc, List.drop_left']
      rw [List.length_append, hstart, hlast]
      rfl
    rw [hdrop, checkSum]
    simp only [List.map_append, List.sum_append, List.map_replicate, List.sum_replicate]
    rfl
  · have hzeros : nameLenMax - name.length = nameLenMax - name.length - 1 + 1 := by omega
    rw [headerName, headerStart]
    simp only [List.append_assoc]
    rw [slice_field hname.le, field, List.takeWhile_append_of_pos, hzeros,
      List.replicate_succ, List.takeWhile_cons_of_neg (by decide), List.append_nil]
    intro b hb
    simpa using (hascii b hb).1
  · have hid : (field nameLenMax name ++ fileMode ++ idByte).length = 124 := by
      rw [List.length_append, List.length_append, field_length hname.le]
      rfl
    have hslice := Bytes.slice_append (field nameLenMax name ++ fileMode ++ idByte)
      (field fileSizeLen (octal size) ++ (List.replicate unixTimeLen 0 ++
        ((octal (checkSum name size) ++ 0 :: left) ++ List.replicate 356 0))) 0 fileSizeLen
    rw [hid, slice_field hlen] at hslice
    rw [headerSize, headerStart]
    simp only [List.append_assoc] at hslice ⊢
    rw [hslice, field, parseOctal_octal]
    cases fileSizeLen - (octal size).length with
    | zero => rfl
    | succ k => rfl

end Header

/-! ### Contents -/

theorem paddedLen_zero : paddedLen 0 = 0 := rfl

theorem paddedLen_of_le {size : Nat} (hpos : 0 < size) (h : size ≤ headerNum) :
    paddedLen size = headerNum := by
  have hnum : headerNum = 512 := rfl
  rw [paddedLen, hnum]
  omega

theorem paddedLen_add (size : Nat) : paddedLen (headerNum + size) = headerNum + paddedLen size := by
  have hnum : headerNum = 512 := rfl
  rw [paddedLen, paddedLen, hnum]
  omega

/-- The content of a file, padded to whole blocks. -/
theorem writeZipContent_eq (content : List UInt8) :
    writeZipContent content content.length = field (paddedLen content.length) content := by
  induction hlen : content.length using Nat.strong_induction_on generalizing content with
  | _ size ih =>
      subst hlen
      rw [writeZipContent]
      have hnum : headerNum = 512 := rfl
      by_cases hpos : content.length > 0
      · rw [if_pos hpos, zipBlock, Bytes.store_zero, List.drop_replicate]
        have hrest := ih (content.length - headerNum) (by omega) (content.drop headerNum)
          (List.length_drop)
        rw [hrest]
        by_cases hle : content.length ≤ headerNum
        · rw [paddedLen_of_le hpos hle, List.take_of_length_le hle, List.drop_of_length_le hle,
            Nat.sub_eq_zero_of_le hle, paddedLen_zero]
          exact List.append_nil _
        · have hsplit : content.length = headerNum + (content.length - headerNum) := by omega
          have htake : (content.take headerNum).length = headerNum :=
            List.length_take_of_le (by omega)
          have hpad : paddedLen content.length - content.length =
              paddedLen (content.length - headerNum) - (content.drop headerNum).length := by
            have hadd := paddedLen_add (content.length - headerNum)
            rw [← hsplit] at hadd
            rw [hadd, List.length_drop]
            omega
          rw [htake, Nat.sub_self, List.replicate_zero, List.append_nil, field, field, ← hpad,
            ← List.append_assoc, List.take_append_drop]
      · have hnil : content = [] := List.eq_nil_of_length_eq_zero (by omega)
        rw [if_neg hpos, hnil]
        rfl

theorem le_paddedLen (size : Nat) : size ≤ paddedLen size := by
  have hnum : headerNum = 512 := rfl
  rw [paddedLen, hnum]
  omega

/-- The reader takes a file that is not empty, and goes on behind it. -/
theorem readTar_file (signed : Bool) {name content : List UInt8} (rest : List UInt8)
    (hname : name.length < nameLenMax) (hascii : ∀ b ∈ name, b ≠ 0 ∧ b.toNat < 128)
    (hpos : content ≠ []) (hmax : content.length < 2 ^ 32) :
    readTar (writeHeader signed (List.replicate headerNum 0) name content.length ++
      writeZipContent content content.length ++ rest) =
        (readTar rest).map ((name, content) :: ·) := by
  obtain ⟨hlen, hzeros, hsum, hreadName, hreadSize⟩ := header_read hname signed hascii
    (List.length_pos_iff.mpr hpos) hmax
  rw [writeZipContent_eq, List.append_assoc]
  generalize writeHeader signed (List.replicate headerNum 0) name content.length = header at *
  have hpadded := field_length (le_paddedLen content.length)
  have htake : (header ++ (field (paddedLen content.length) content ++ rest)).take headerNum =
      header := List.take_left' hlen
  have hdrop : (header ++ (field (paddedLen content.length) content ++ rest)).drop headerNum =
      field (paddedLen content.length) content ++ rest := List.drop_left' hlen
  have hlong : ¬((header ++ (field (paddedLen content.length) content ++ rest)).length < headerNum ∨
      header.all (· == 0) = true) := by
    rw [List.length_append, hlen, hzeros]
    simp
  have hwhole : ¬(field (paddedLen content.length) content ++ rest).length < content.length := by
    rw [List.length_append, hpadded]
    have := le_paddedLen content.length
    omega
  rw [readTar]
  rw [htake, hdrop, if_neg hlong, if_neg (not_not.mpr hsum), hreadSize, hreadName, if_neg hwhole,
    List.drop_left' hpadded, field, List.append_assoc, List.take_left]

theorem readTar_zeros (rest : List UInt8) :
    readTar (List.replicate headerNum 0 ++ rest) = some [] := by
  rw [readTar]
  rw [if_pos (Or.inr ?_)]
  rw [List.take_left' List.length_replicate]
  exact List.all_replicate.trans (by decide)

theorem readTar_nil : readTar [] = some [] := by
  rw [readTar]
  rw [if_pos (Or.inl (by decide))]

/-! ### Archives -/

section Archive

variable (lstat : List UInt8 → Option FileAttr)

/-- The inputs that are regular files, with their contents. -/
def presentFiles (inputNames : List (Option (List UInt8))) : List (List UInt8 × List UInt8) :=
  inputNames.filterMap fun fileName => fileName.bind fun fileName =>
    (judgeFileValidite lstat fileName).map fun fileAttr => (fileName, fileAttr.content)

/-- A base name of 7 to 99 characters of ASCII, and a size below 2^32. -/
def Packable (file : List UInt8 × List UInt8) : Prop :=
  7 ≤ (baseName file.1).length ∧ (baseName file.1).length ≤ 99 ∧
    (∀ b ∈ baseName file.1, b ≠ 0 ∧ b.toNat < 128) ∧ file.2.length < 2 ^ 32

/-- The path names a directory, and the file is not empty. -/
def Archived (file : List UInt8 × List UInt8) : Bool := 0x2F ∈ file.1 ∧ file.2 ≠ []

def named (file : List UInt8 × List UInt8) : List UInt8 × List UInt8 := (baseName file.1, file.2)

/-- The reader gets the files before the first that is empty or has no directory. -/
theorem readTar_tarZipLoop (signed : Bool) (inputNames : List (Option (List UInt8)))
    (hfiles : ∀ file ∈ presentFiles lstat inputNames, Packable file) :
    readTar (tarZipLoop signed lstat inputNames) =
      some (((presentFiles lstat inputNames).takeWhile Archived).map named) := by
  induction inputNames with
  | nil =>
      have hend := readTar_zeros []
      rw [List.append_nil] at hend
      exact hend
  | cons fileName inputNames ih =>
      cases fileName with
      | none => exact ih hfiles
      | some fileName =>
          rw [tarZipLoop, writeSingleFile]
          cases hjudge : judgeFileValidite lstat fileName with
          | none =>
              have hskip : presentFiles lstat (some fileName :: inputNames) =
                  presentFiles lstat inputNames := by
                simp [presentFiles, hjudge]
              rw [hskip] at hfiles ⊢
              exact ih hfiles
          | some fileAttr =>
              have hcons : presentFiles lstat (some fileName :: inputNames) =
                  (fileName, fileAttr.content) :: presentFiles lstat inputNames := by
                simp [presentFiles, hjudge]
              rw [hcons] at hfiles ⊢
              obtain ⟨⟨hlow, hhigh, hascii, hmax⟩, hrest⟩ := List.forall_mem_cons.mp hfiles
              dsimp only
              rw [strrchr_slash]
              by_cases hslash : 0x2F ∈ fileName
              · have hlong : ¬(0x2F :: baseName fileName).length < fileNameInvalidLen := by
                  rw [List.length_cons]
                  exact Nat.not_lt.mpr (Nat.succ_le_succ hlow)
                rw [if_pos hslash]
                dsimp only
                rw [if_neg hlong, List.drop_one, List.tail_cons]
                dsimp only
                by_cases hempty : fileAttr.content = []
                · have hstop : Archived (fileName, fileAttr.content) = false := by
                    simp [Archived, hempty]
                  rw [List.takeWhile_cons_of_neg (by simp [hstop]), hempty, List.length_nil,
                    writeHeader, if_pos rfl, List.append_assoc, readTar_zeros]
                  rfl
                · have hgo : Archived (fileName, fileAttr.content) = true := by
                    simp [Archived, hempty, hslash]
                  rw [List.takeWhile_cons_of_pos hgo, List.map_cons,
                    readTar_file signed _ (Nat.lt_succ_of_le hhigh) hascii hempty hmax, ih hrest]
                  rfl
              · have hstop : Archived (fileName, fileAttr.content) = false := by
                  simp [Archived, hslash]
                rw [if_neg hslash, List.takeWhile_cons_of_neg (by simp [hstop])]
                exact readTar_nil

/-- All files come back exactly when there is none at which the reader stops. -/
theorem readTar_eq_iff (signed : Bool) {inputNames : List (Option (List UInt8))}
    (hfiles : ∀ file ∈ presentFiles lstat inputNames, Packable file) :
    readTar (tarZipLoop signed lstat inputNames) = some ((presentFiles lstat inputNames).map named) ↔
      ∀ file ∈ presentFiles lstat inputNames, 0x2F ∈ file.1 ∧ file.2 ≠ [] := by
  rw [readTar_tarZipLoop lstat signed inputNames hfiles, Option.some_inj]
  constructor
  · intro hsame
    have hlen : ((presentFiles lstat inputNames).takeWhile Archived).length =
        (presentFiles lstat inputNames).length := by
      simpa using congrArg List.length hsame
    have hall := (List.takeWhile_prefix Archived).eq_of_length hlen
    intro file hfile
    exact decide_eq_true_eq.mp (List.takeWhile_eq_self_iff.mp hall file hfile)
  · intro hall
    have hself : (presentFiles lstat inputNames).takeWhile Archived = presentFiles lstat inputNames :=
      List.takeWhile_eq_self_iff.mpr fun file hfile => decide_eq_true_eq.mpr (hall file hfile)
    rw [hself]

end Archive

/-- For four inputs, each absent or a regular file with a base name of 7 to 99 characters of ASCII and a
size below 2^32, a reader gets the present files in order with their names and contents exactly when
every one of them has a directory in its path and is not empty. -/
theorem tarZip_roundTrip_iff (signed : Bool) (lstat : List UInt8 → Option FileAttr)
    (inputNames : List (Option (List UInt8))) (hfour : inputNames.length = 4)
    (hfiles : ∀ file ∈ presentFiles lstat inputNames, Packable file) :
    (tarZipFiles signed lstat 4 inputNames).bind readTar =
        some ((presentFiles lstat inputNames).map named) ↔
      ∀ file ∈ presentFiles lstat inputNames, 0x2F ∈ file.1 ∧ file.2 ≠ [] := by
  have htake : inputNames.take 4 = inputNames := List.take_of_length_le hfour.le
  rw [tarZipFiles, if_neg (by decide), htake]
  exact readTar_eq_iff lstat signed hfiles

def logOne : List UInt8 := "/t/log-one".toList.map fun c => .ofNat c.toNat

def logTwo : List UInt8 := "/t/log-two".toList.map fun c => .ofNat c.toNat

/-- Two logs in one directory. -/
def twoLogs (one two : List UInt8) (path : List UInt8) : Option FileAttr :=
  if path = logOne then some ⟨true, one⟩ else if path = logTwo then some ⟨true, two⟩ else none

theorem twoLogs_packable (one two : List UInt8) (hone : one.length < 2 ^ 32)
    (htwo : two.length < 2 ^ 32) :
    ∀ file ∈ presentFiles (twoLogs one two) [some logOne, some logTwo, none, some []],
      Packable file := by
  have hpresent : presentFiles (twoLogs one two) [some logOne, some logTwo, none, some []] =
      [(logOne, one), (logTwo, two)] := rfl
  rw [hpresent]
  intro file hfile
  obtain rfl | hfile := List.mem_cons.mp hfile
  · exact ⟨(by decide : 7 ≤ (baseName logOne).length), (by decide : (baseName logOne).length ≤ 99),
      forall_of_all (show (baseName logOne).all _ = true from by decide), hone⟩
  · rw [List.mem_singleton.mp hfile]
    exact ⟨(by decide : 7 ≤ (baseName logTwo).length), (by decide : (baseName logTwo).length ≤ 99),
      forall_of_all (show (baseName logTwo).all _ = true from by decide), htwo⟩

/-- Two logs with a byte each come back, and of an empty one and one with a byte nothing does. -/
theorem twoLogs_roundTrip :
    (tarZipFiles true (twoLogs [7] [8]) 4 [some logOne, some logTwo, none, some []]).bind readTar =
        some ((presentFiles (twoLogs [7] [8]) [some logOne, some logTwo, none, some []]).map named) ∧
      (tarZipFiles true (twoLogs [] [8]) 4 [some logOne, some logTwo, none, some []]).bind readTar ≠
        some ((presentFiles (twoLogs [] [8]) [some logOne, some logTwo, none, some []]).map named) :=
  ⟨(tarZip_roundTrip_iff true (twoLogs [7] [8]) [some logOne, some logTwo, none, some []] rfl
      (twoLogs_packable [7] [8] (by decide) (by decide))).mpr (by decide),
    fun h => absurd ((tarZip_roundTrip_iff true (twoLogs [] [8])
      [some logOne, some logTwo, none, some []] rfl
      (twoLogs_packable [] [8] (by decide) (by decide))).mp h) (by decide)⟩

/-- Behind an empty log the reader finds nothing. -/
theorem emptyLog_hides :
    (tarZipFiles true (twoLogs [] [7, 8]) 4 [some logOne, some logTwo, none, some []]).bind readTar ≠
      some ((presentFiles (twoLogs [] [7, 8]) [some logOne, some logTwo, none, some []]).map named) :=
  fun h => absurd ((readTar_eq_iff (twoLogs [] [7, 8]) true
    (twoLogs_packable [] [7, 8] (by decide) (by decide))).mp h) (by decide)

end ITrustee.Tarzip
