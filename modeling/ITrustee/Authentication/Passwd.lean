import Mathlib.Tactic
import Mathlib.Data.List.GetD
import Mathlib.Data.List.TakeWhile
import ITrustee.Foundation.CInt
import ITrustee.Foundation.Delimited

/-!
# The user name of a client

`TeeGetUserName` of `tee_auth_common.c` and what it calls. The passwd file is read with `fgets` into the
buffer for the name, so that a long line comes in pieces, and every piece is taken for a line: the places
of its colons are noted, up to the first null byte, and what stands between the second and the third is
compared with the user id. An access outside of a buffer, or of the array of places, has no result.
-/

namespace ITrustee.Authentication

open Delimited

def colon : UInt8 := 58

def newline : UInt8 := 10

def delimCount : Nat := 6

def namePos : Nat := 0

def uidPos : Nat := 1

def isNumber (c : UInt8) : Bool := 48 ≤ c && c ≤ 57

/-- The loop of `UidCompare` over the bytes from `uidString` on, with so many to go; the inner `none` says
that one is no digit. -/
def uidCompareLoop : List UInt8 → Nat → UInt64 → Option (Option UInt64)
  | _, 0, uidNum => some (some uidNum)
  | [], _ + 1, _ => none
  | c :: uidString, left + 1, uidNum =>
      if isNumber c then uidCompareLoop uidString left (10 * uidNum + (c - 48).toUInt64)
      else some none

def uidCompare (caUid : UInt32) (uidString : List UInt8) (uidLen : Nat) : Option Int :=
  match uidCompareLoop uidString uidLen 0 with
  | none => none
  | some none => some (-1)
  | some (some uidNum) => if uidNum = caUid.toUInt64 then some 0 else some (-1)

/-- The loop of `SplitFields` over the bytes from `i` on, with so many to go. -/
def splitFieldsLoop : List UInt8 → Nat → Nat → Nat → List Nat → Option (Int × List Nat)
  | _, 0, _, _, delimIndices => some (0, delimIndices)
  | [], _ + 1, _, _, _ => none
  | c :: userName, left + 1, i, count, delimIndices =>
      if c = 0 then some (0, delimIndices)
      else if delimCount < count then some (-1, delimIndices)
      else if c = colon then
        if count < delimIndices.length then
          splitFieldsLoop userName left (i + 1) (count + 1) (delimIndices.set count i)
        else none
      else splitFieldsLoop userName left (i + 1) count delimIndices

def splitFields (delimIndices : List Nat) (userName : List UInt8) (nameBufLen : Nat) :
    Option (Int × List Nat) :=
  splitFieldsLoop userName nameBufLen 0 0 delimIndices

def parseUserName (caUid : UInt32) (userName : List UInt8) (nameBufLen : Nat) : Option Int :=
  match splitFields (List.replicate (delimCount + 1) 0) userName nameBufLen with
  | none => none
  | some (ret, delimIndices) =>
      if ret ≠ 0 then some ret
      else
        let delim (k : Nat) : Nat := delimIndices.getD k 0
        let uidLen : Int := delim (uidPos + 1) - delim uidPos - 1
        -- a negative length becomes a huge one
        match uidCompare caUid (userName.drop (delim uidPos + 1)) (CInt.toU64 uidLen) with
        | none => none
        | some ret => if ret = 0 then some (delim namePos) else some (-1)

/-- The loop of `TeeGetUserName` over what is left of the file, through at most so many pieces. -/
def readUserName (caUid : UInt32) (nameBufLen : Nat) :
    Nat → List UInt8 → List UInt8 → Option (Int × List UInt8)
  | 0, _, _ => none
  | fuel + 1, file, userName =>
      if file = [] then some (-1, userName)
      else
        let read := fgets newline (nameBufLen - 1 - 1) file
        let userName := read.1 ++ 0 :: userName.drop (read.1.length + 1)
        match parseUserName caUid userName nameBufLen with
        | none => none
        | some userNameLen =>
            if userNameLen ≠ -1 then
              some (0, userName.take userNameLen.toNat ++
                List.replicate (nameBufLen - userNameLen.toNat) 0)
            else readUserName caUid nameBufLen fuel read.2 userName

/-- `TeeGetUserName`, with the file if it can be opened. -/
def teeGetUserName (passwd : Option (List UInt8)) (caUid : UInt32) (userName : List UInt8)
    (nameBufLen : Nat) (fuel : Nat) : Option (Int × List UInt8) :=
  match passwd with
  | none => some (-1, userName)
  | some file => readUserName caUid nameBufLen fuel file userName

/-! ### Specification -/

/-- The value of a decimal numeral. -/
def decimal (digits : List UInt8) : Nat :=
  digits.foldl (fun v c => 10 * v + (c - 48).toNat) 0

/-- A line of the file that gives the user of a number its name. -/
structure IsEntry (line name : List UInt8) (uid : Nat) : Prop where
  fields : (line.splitOn colon).length = 7
  name : field colon line 0 = name
  nonempty : field colon line 2 ≠ []
  numeral : ∀ c ∈ field colon line 2, isNumber c = true
  uid : decimal (field colon line 2) = uid

/-- What `TeeGetUserName` left in the buffer is the name that a line of the file gives the user. -/
def Named (file userName : List UInt8) (caUid : UInt32) : Prop :=
  ∃ i line, LineAt newline file i line ∧ IsEntry line (userName.takeWhile (· != 0)) caUid.toNat

/-- A piece up to its first null byte. -/
def shown (piece : List UInt8) : List UInt8 := piece.takeWhile (· != 0)

/-- The pieces in which a user of that number is found. -/
structure Accepted (caUid : UInt32) (piece : List UInt8) : Prop where
  enough : 3 ≤ (shown piece).count colon
  extra : (shown piece).count colon ≤ 6 ∨
    (shown piece).count colon = 7 ∧ (shown piece).getLast? = some colon
  numeral : ∀ c ∈ field colon (shown piece) 2, isNumber c = true
  uid : decimal (field colon (shown piece) 2) % 2 ^ 64 = caUid.toNat

/-! ### The number -/

theorem uidCompareLoop_digits {digits : List UInt8} (h : ∀ c ∈ digits, isNumber c = true)
    (rest : List UInt8) (left v : Nat) :
    uidCompareLoop (digits ++ rest) (digits.length + left) (.ofNat v) =
      uidCompareLoop rest left (.ofNat (digits.foldl (fun v c => 10 * v + (c - 48).toNat) v)) := by
  induction digits generalizing v with
  | nil => simp
  | cons c digits ih =>
      have hnum : 10 * UInt64.ofNat v + (c - 48).toUInt64 =
          UInt64.ofNat (10 * v + (c - 48).toNat) := by
        rw [UInt64.ofNat_add, UInt64.ofNat_mul, UInt64.ofNat_uInt8ToNat]
        rfl
      rw [List.cons_append, List.length_cons, Nat.add_right_comm, uidCompareLoop,
        if_pos (h c List.mem_cons_self), hnum, ih fun d hd => h d (List.mem_cons_of_mem c hd)]
      rfl

/-- At a byte that is no digit the loop ends. -/
theorem uidCompareLoop_break {bytes : List UInt8} {left : Nat} (uidNum : UInt64)
    (h : ∃ digits c rest, bytes = digits ++ c :: rest ∧ digits.length < left ∧ isNumber c = false) :
    uidCompareLoop bytes left uidNum = some none := by
  obtain ⟨digits, c, rest, rfl, hleft, hc⟩ := h
  induction digits generalizing left uidNum with
  | nil =>
      obtain ⟨left, rfl⟩ := Nat.exists_eq_succ_of_ne_zero (Nat.ne_of_gt hleft)
      rw [List.nil_append, uidCompareLoop, if_neg (by rw [hc]; exact Bool.false_ne_true)]
  | cons d digits ih =>
      obtain ⟨left, rfl⟩ := Nat.exists_eq_succ_of_ne_zero (Nat.ne_of_gt (Nat.zero_lt_of_lt hleft))
      rw [List.cons_append, uidCompareLoop]
      split_ifs
      · exact ih _ (Nat.lt_of_succ_lt_succ hleft)
      · rfl

/-- The comparison of a whole field. -/
theorem uidCompare_field (caUid : UInt32) (digits rest : List UInt8) :
    ∃ ret, uidCompare caUid (digits ++ rest) digits.length = some ret ∧
      (ret = 0 ↔ (∀ c ∈ digits, isNumber c = true) ∧ decimal digits % 2 ^ 64 = caUid.toNat) := by
  by_cases hdigits : ∀ c ∈ digits, isNumber c = true
  · have hloop := uidCompareLoop_digits hdigits rest 0 0
    rw [Nat.add_zero, uidCompareLoop] at hloop
    have hiff : UInt64.ofNat (decimal digits) = caUid.toUInt64 ↔
        decimal digits % 2 ^ 64 = caUid.toNat := by
      rw [← UInt64.toNat_inj, UInt64.toNat_ofNat', UInt32.toNat_toUInt64]
    change uidCompareLoop (digits ++ rest) digits.length 0 = some (some (.ofNat (decimal digits))) at hloop
    rw [uidCompare, hloop]
    dsimp only
    by_cases heq : UInt64.ofNat (decimal digits) = caUid.toUInt64
    · exact ⟨0, if_pos heq, iff_of_true rfl ⟨hdigits, hiff.mp heq⟩⟩
    · exact ⟨-1, if_neg heq, iff_of_false (by decide) fun h => heq (hiff.mpr h.2)⟩
  · have hbreak : uidCompareLoop (digits ++ rest) digits.length 0 = some none := by
      push Not at hdigits
      obtain ⟨c, hmem, hc⟩ := hdigits
      obtain ⟨before, after, rfl⟩ := List.append_of_mem hmem
      refine uidCompareLoop_break 0 ⟨before, c, after ++ rest, by simp, ?_, ?_⟩
      · rw [List.length_append, List.length_cons]
        omega
      · exact Bool.eq_false_of_not_eq_true hc
    rw [uidCompare, hbreak]
    exact ⟨-1, rfl, iff_of_false (by decide) fun h => hdigits h.1⟩

/-! ### The fields -/

/-- No byte stands behind the last place that is noted. -/
def Fits (count : Nat) (s : List UInt8) : Prop :=
  count + s.count colon ≤ 6 ∨
    count + s.count colon = 7 ∧ (s = [] ∨ s.getLast? = some colon)

theorem fits_colon {count : Nat} {s : List UInt8} : Fits count (colon :: s) ↔ Fits (count + 1) s := by
  have hlast : (colon :: s).getLast? = some colon ↔ s = [] ∨ s.getLast? = some colon := by
    cases s with
    | nil => simp
    | cons c s => rw [List.getLast?_cons_cons]; simp
  rw [Fits, Fits, List.count_cons_self, hlast, Nat.add_right_comm, ← Nat.add_assoc]
  simp

theorem fits_other {count : Nat} {c : UInt8} {s : List UInt8} (hc : c ≠ colon) (hcount : count ≤ 6) :
    Fits count (c :: s) ↔ Fits count s := by
  rw [Fits, Fits, List.count_cons_of_ne hc]
  cases s with
  | nil => simp [hc, hcount]
  | cons d s => rw [List.getLast?_cons_cons]; simp

/-- The loop notes the places of the colons before the null byte. -/
theorem splitFieldsLoop_spec {s : List UInt8} (hs : 0 ∉ s) (rest : List UInt8) {left : Nat}
    (hleft : s.length < left) (i : Nat) {count : Nat} (hcount : count ≤ 7) {delimIndices : List Nat}
    (hlength : delimIndices.length = 7) :
    (Fits count s → splitFieldsLoop (s ++ 0 :: rest) left i count delimIndices =
      some (0, delimIndices.take count ++ positions colon i s ++
        delimIndices.drop (count + s.count colon))) ∧
    (¬ Fits count s → ∃ delimIndices',
      splitFieldsLoop (s ++ 0 :: rest) left i count delimIndices = some (-1, delimIndices')) := by
  induction s generalizing left i count delimIndices with
  | nil =>
      obtain ⟨left, rfl⟩ := Nat.exists_eq_succ_of_ne_zero (Nat.ne_of_gt (Nat.zero_lt_of_lt hleft))
      constructor
      · intro _
        rw [List.nil_append, splitFieldsLoop, if_pos rfl]
        simp [positions]
      · intro hnot
        refine absurd ?_ hnot
        obtain hlt | rfl := Nat.lt_or_eq_of_le hcount
        · exact Or.inl (Nat.le_of_lt_succ hlt)
        · exact Or.inr ⟨rfl, Or.inl rfl⟩
  | cons c s ih =>
      obtain ⟨left, rfl⟩ := Nat.exists_eq_succ_of_ne_zero (Nat.ne_of_gt (Nat.zero_lt_of_lt hleft))
      rw [List.mem_cons, not_or] at hs
      have hleft : s.length < left := Nat.lt_of_succ_lt_succ hleft
      rw [List.cons_append, splitFieldsLoop, if_neg (Ne.symm hs.1)]
      by_cases hfull : delimCount < count
      · obtain rfl : count = 7 := Nat.le_antisymm hcount hfull
        have hnot : ¬ Fits 7 (c :: s) := by
          rintro (h | ⟨h, hlast⟩)
          · omega
          · have hnone : colon ∉ c :: s := List.count_eq_zero.mp (by omega)
            obtain h | hlast := hlast
            · cases h
            · exact hnone (List.mem_of_getLast? hlast)
        exact ⟨fun h => absurd h hnot, fun _ => ⟨delimIndices, if_pos hfull⟩⟩
      · rw [if_neg hfull]
        have hcount : count ≤ 6 := Nat.le_of_not_lt hfull
        by_cases hc : c = colon
        · rw [hc, if_pos rfl, if_pos (by omega), fits_colon]
          have hset : (delimIndices.set count i).length = 7 := by rw [List.length_set, hlength]
          obtain ⟨hfits, hnot⟩ := ih hs.2 hleft (i + 1) (Nat.succ_le_succ hcount) hset
          have htake : (delimIndices.set count i).take (count + 1) = delimIndices.take count ++ [i] := by
            rw [List.take_add_one, List.take_set_of_le (Nat.le_refl count),
              List.getElem?_set_self (by omega)]
            rfl
          refine ⟨fun h => ?_, hnot⟩
          rw [hfits h, htake, positions, if_pos rfl, List.count_cons_self,
            List.drop_set_of_lt (by omega), List.append_assoc (delimIndices.take count),
            List.singleton_append, Nat.succ_add_eq_add_succ]
        · rw [if_neg hc, fits_other hc hcount, positions, if_neg hc, List.count_cons_of_ne hc]
          exact ih hs.2 hleft (i + 1) (Nat.le_succ_of_le hcount) hlength

theorem not_mem_shown (piece : List UInt8) : 0 ∉ shown piece := by
  intro h
  exact absurd (List.mem_takeWhile_imp h) (by decide)

theorem shown_length (piece : List UInt8) : (shown piece).length ≤ piece.length :=
  (List.takeWhile_prefix _).length_le

/-- What a piece shows ends with a null byte, at the latest with the one that ends the piece. -/
theorem exists_shown (piece stale : List UInt8) :
    ∃ rest, piece ++ 0 :: stale = shown piece ++ 0 :: rest := by
  induction piece with
  | nil => exact ⟨stale, rfl⟩
  | cons c piece ih =>
      by_cases hc : c = 0
      · rw [hc]
        exact ⟨piece ++ 0 :: stale, rfl⟩
      · obtain ⟨rest, hrest⟩ := ih
        refine ⟨rest, ?_⟩
        have hshown : shown (c :: piece) = c :: shown piece :=
          List.takeWhile_cons_of_pos (bne_iff_ne.mpr hc)
        rw [hshown, List.cons_append, List.cons_append, hrest]

/-- Where nothing was noted the array holds 0. -/
theorem getD_noted (places : List Nat) (n k : Nat) :
    (places ++ (List.replicate 7 0).drop n).getD k 0 = places.getD k 0 := by
  rw [List.drop_replicate]
  by_cases hk : k < places.length
  · rw [List.getD_append _ _ _ _ hk]
  · have hge : places.length ≤ k := Nat.le_of_not_lt hk
    rw [List.getD_append_right _ _ _ _ hge, List.getD_eq_default _ _ hge,
      List.getD_eq_getElem?_getD, List.getElem?_getD_replicate_default_eq]

variable {caUid : UInt32} {piece : List UInt8} {nameBufLen : Nat}

theorem splitFields_spec (hlength : piece.length < nameBufLen) (stale : List UInt8) :
    (Fits 0 (shown piece) →
      splitFields (List.replicate 7 0) (piece ++ 0 :: stale) nameBufLen =
        some (0, positions colon 0 (shown piece) ++
          (List.replicate 7 0).drop ((shown piece).count colon))) ∧
    (¬ Fits 0 (shown piece) → ∃ delimIndices,
      splitFields (List.replicate 7 0) (piece ++ 0 :: stale) nameBufLen =
        some (-1, delimIndices)) := by
  obtain ⟨rest, hrest⟩ := exists_shown piece stale
  have hspec := splitFieldsLoop_spec (not_mem_shown piece) rest
    ((shown_length piece).trans_lt hlength) 0 (Nat.zero_le 7) (List.length_replicate (n := 7) (a := 0))
  rw [List.take_zero, List.nil_append, Nat.zero_add, ← hrest] at hspec
  exact hspec

/-- The places of the first three colons are the ends of the first three fields. -/
theorem exists_fields {s : List UInt8} (h : 3 ≤ s.count colon) :
    ∃ name passwd uid more, s = name ++ colon :: (passwd ++ colon :: (uid ++ colon :: more)) ∧
      colon ∉ name ∧ colon ∉ passwd ∧ colon ∉ uid := by
  obtain ⟨name, t, rfl, hname, ht⟩ := exists_field (Nat.lt_of_lt_of_le (by decide) h)
  obtain ⟨passwd, t', rfl, hpasswd, ht'⟩ := exists_field (d := colon) (s := t) (by omega)
  obtain ⟨uid, more, rfl, huid, -⟩ := exists_field (d := colon) (s := t') (by omega)
  exact ⟨name, passwd, uid, more, rfl, hname, hpasswd, huid⟩

/-- With too few colons the length is negative, and the comparison runs into the byte that ends the
piece. -/
theorem uidCompare_of_few (hpiece : piece ≠ []) (hlength : piece.length < 2 ^ 31)
    (hfew : (shown piece).count colon < 3) (stale : List UInt8) :
    uidCompare caUid ((piece ++ 0 :: stale).drop ((positions colon 0 (shown piece)).getD 1 0 + 1))
      (CInt.toU64 ((positions colon 0 (shown piece)).getD 2 0 -
        (positions colon 0 (shown piece)).getD 1 0 - 1)) = some (-1) := by
  have hthird : (positions colon 0 (shown piece)).getD 2 0 = 0 := by
    refine List.getD_eq_default _ _ ?_
    rw [length_positions]
    exact Nat.le_of_lt_succ hfew
  have hsecond : (positions colon 0 (shown piece)).getD 1 0 < piece.length := by
    by_cases hk : 1 < (positions colon 0 (shown piece)).length
    · rw [List.getD_eq_getElem _ _ hk]
      have hlt := (lt_of_mem_positions (List.getElem_mem hk)).2
      rw [Nat.zero_add] at hlt
      exact hlt.trans_le (shown_length piece)
    · rw [List.getD_eq_default _ _ (Nat.le_of_not_lt hk)]
      exact List.length_pos_iff.mpr hpiece
  rw [hthird]
  generalize (positions colon 0 (shown piece)).getD 1 0 = i at hsecond ⊢
  have hlen : CInt.toU64 (((0 : Nat) : Int) - i - 1) = 2 ^ 64 - (i + 1) := by
    rw [CInt.toU64]
    omega
  have hdrop : (piece ++ 0 :: stale).drop (i + 1) = piece.drop (i + 1) ++ 0 :: stale :=
    List.drop_append_of_le_length hsecond
  rw [uidCompare, hdrop, hlen, uidCompareLoop_break]
  refine ⟨piece.drop (i + 1), 0, stale, rfl, ?_, rfl⟩
  rw [List.length_drop]
  omega

variable (caUid) in
/-- With enough colons the comparison is that of the third field. -/
theorem uidCompare_of_enough (hlength : piece.length < 2 ^ 31)
    (henough : 3 ≤ (shown piece).count colon) (stale : List UInt8) :
    (positions colon 0 (shown piece)).getD 0 0 = (field colon (shown piece) 0).length ∧
      ∃ ret, uidCompare caUid
          ((piece ++ 0 :: stale).drop ((positions colon 0 (shown piece)).getD 1 0 + 1))
          (CInt.toU64 ((positions colon 0 (shown piece)).getD 2 0 -
            (positions colon 0 (shown piece)).getD 1 0 - 1)) = some ret ∧
        (ret = 0 ↔ (∀ c ∈ field colon (shown piece) 2, isNumber c = true) ∧
          decimal (field colon (shown piece) 2) % 2 ^ 64 = caUid.toNat) := by
  obtain ⟨rest, hrest⟩ := exists_shown piece stale
  obtain ⟨name, passwd, uid, more, hshown, hname, hpasswd, huid⟩ := exists_fields henough
  have huidLength : uid.length < 2 ^ 31 := by
    have hle := shown_length piece
    rw [hshown] at hle
    simp only [List.length_append, List.length_cons] at hle
    omega
  rw [hrest, hshown, positions_append hname, positions_append hpasswd, positions_append huid,
    field_append_zero hname, field_append_succ hname, field_append_succ hpasswd,
    field_append_zero huid]
  simp only [List.getD_cons_zero, List.getD_cons_succ]
  have hdrop : ((name ++ colon :: (passwd ++ colon :: (uid ++ colon :: more))) ++ 0 :: rest).drop
      (0 + name.length + 1 + passwd.length + 1) = uid ++ (colon :: more ++ 0 :: rest) := by
    have hsplit : (name ++ colon :: (passwd ++ colon :: (uid ++ colon :: more))) ++ 0 :: rest =
        (name ++ colon :: passwd ++ [colon]) ++ (uid ++ (colon :: more ++ 0 :: rest)) := by simp
    rw [hsplit]
    refine List.drop_left' ?_
    simp only [List.length_append, List.length_cons, List.length_nil]
    omega
  have hlen : CInt.toU64 (((0 + name.length + 1 + passwd.length + 1 + uid.length : Nat) : Int) -
      (0 + name.length + 1 + passwd.length : Nat) - 1) = uid.length := by
    rw [CInt.toU64]
    omega
  rw [hdrop, hlen]
  exact ⟨Nat.zero_add _, uidCompare_field caUid uid _⟩

/-- A piece in the buffer, with the byte that ends it, is accepted or refused; nothing behind that byte
is looked at. -/
theorem parseUserName_spec (hpiece : piece ≠ []) (hlength : piece.length < nameBufLen)
    (hmax : nameBufLen < 2 ^ 31) (stale : List UInt8) :
    (Accepted caUid piece → parseUserName caUid (piece ++ 0 :: stale) nameBufLen =
      some ((field colon (shown piece) 0).length : Int)) ∧
    (¬ Accepted caUid piece →
      parseUserName caUid (piece ++ 0 :: stale) nameBufLen = some (-1)) := by
  obtain ⟨hfits, hnot⟩ := splitFields_spec hlength stale
  by_cases hfit : Fits 0 (shown piece)
  · rw [parseUserName, delimCount, hfits hfit]
    dsimp only [uidPos, namePos]
    rw [if_neg (by decide), getD_noted, getD_noted, getD_noted]
    by_cases hfew : (shown piece).count colon < 3
    · rw [uidCompare_of_few hpiece (hlength.trans hmax) hfew stale]
      exact ⟨fun h => absurd h.enough (Nat.not_le_of_lt hfew), fun _ => rfl⟩
    · have henough := Nat.le_of_not_lt hfew
      obtain ⟨hname, ret, hcompare, hret⟩ :=
        uidCompare_of_enough caUid (hlength.trans hmax) henough stale
      rw [hcompare, hname]
      dsimp only
      split_ifs with hzero
      · refine ⟨fun _ => rfl, fun hrefuse => absurd ?_ hrefuse⟩
        obtain ⟨hnumeral, huid⟩ := hret.mp hzero
        refine ⟨henough, ?_, hnumeral, huid⟩
        obtain hextra | ⟨hcount, hnil | hlast⟩ := hfit
        · exact Or.inl (by omega)
        · rw [hnil] at henough
          simp at henough
        · exact Or.inr ⟨by omega, hlast⟩
      · exact ⟨fun h => absurd (hret.mpr ⟨h.numeral, h.uid⟩) hzero, fun _ => rfl⟩
  · obtain ⟨delimIndices, hrun⟩ := hnot hfit
    rw [parseUserName, delimCount, hrun]
    refine ⟨fun h => absurd ?_ hfit, fun _ => rfl⟩
    obtain hextra | ⟨hcount, hlast⟩ := h.extra
    · exact Or.inl (by rw [Nat.zero_add]; exact hextra)
    · exact Or.inr ⟨by rw [Nat.zero_add]; exact hcount, Or.inr hlast⟩

/-! ### The file -/

variable {file : List UInt8} {fuel : Nat}

/-- A piece has room in the buffer. -/
theorem piece_fits (hbuf : 2 < nameBufLen) (hfile : file ≠ []) :
    (fgets newline (nameBufLen - 1 - 1) file).1 ≠ [] ∧
      (fgets newline (nameBufLen - 1 - 1) file).1.length < nameBufLen := by
  have hroom : 0 < nameBufLen - 1 - 1 := by omega
  have hlength := fgets_length (d := newline) (nameBufLen - 1 - 1) file
  exact ⟨fgets_ne_nil hroom hfile, by omega⟩

/-- The first field stands at the start of the buffer. -/
theorem take_name (h : 3 ≤ (shown piece).count colon) (stale : List UInt8) :
    (piece ++ 0 :: stale).take (field colon (shown piece) 0).length =
      field colon (shown piece) 0 := by
  obtain ⟨rest, hrest⟩ := exists_shown piece stale
  obtain ⟨name, passwd, uid, more, hshown, hname, -, -⟩ := exists_fields h
  rw [hrest, hshown, field_append_zero hname, List.append_assoc, List.take_left]

theorem readUserName_refused (hbuf : 2 < nameBufLen) (hmax : nameBufLen < 2 ^ 31)
    (hfuel : file.length < fuel)
    (h : ∀ piece ∈ pieces newline (nameBufLen - 1 - 1) file, ¬ Accepted caUid piece)
    (userName : List UInt8) :
    ∃ userName', readUserName caUid nameBufLen fuel file userName = some (-1, userName') := by
  induction fuel generalizing file userName with
  | zero => omega
  | succ fuel ih =>
      rw [readUserName]
      by_cases hfile : file = []
      · exact ⟨userName, if_pos hfile⟩
      · have hroom : 0 < nameBufLen - 1 - 1 := by omega
        rw [pieces_cons hroom hfile] at h
        obtain ⟨hpiece, hlength⟩ := piece_fits hbuf hfile
        have hleft := fgets_left_lt (d := newline) hroom hfile
        rw [if_neg hfile]
        dsimp only
        rw [(parseUserName_spec hpiece hlength hmax _).2 (h _ List.mem_cons_self)]
        exact ih (hleft.trans_le (Nat.le_of_lt_succ hfuel))
          (fun piece hp => h piece (List.mem_cons_of_mem _ hp)) _

/-- The first piece that is accepted gives the name. -/
theorem readUserName_accepted (hbuf : 2 < nameBufLen) (hmax : nameBufLen < 2 ^ 31)
    (hfuel : file.length < fuel) {before after : List (List UInt8)}
    (hpieces : pieces newline (nameBufLen - 1 - 1) file = before ++ piece :: after)
    (hbefore : ∀ p ∈ before, ¬ Accepted caUid p) (h : Accepted caUid piece)
    (userName : List UInt8) :
    readUserName caUid nameBufLen fuel file userName =
      some (0, field colon (shown piece) 0 ++
        List.replicate (nameBufLen - (field colon (shown piece) 0).length) 0) := by
  induction fuel generalizing file userName before with
  | zero => omega
  | succ fuel ih =>
      have hroom : 0 < nameBufLen - 1 - 1 := by omega
      have hfile : file ≠ [] := by
        rintro rfl
        rw [pieces_nil] at hpieces
        simp at hpieces
      rw [pieces_cons hroom hfile] at hpieces
      obtain ⟨hpiece, hlength⟩ := piece_fits hbuf hfile
      rw [readUserName, if_neg hfile]
      dsimp only
      cases before with
      | nil =>
          obtain ⟨hfirst, -⟩ := List.cons.inj hpieces
          rw [hfirst] at hpiece hlength ⊢
          rw [(parseUserName_spec hpiece hlength hmax _).1 h]
          dsimp only
          rw [if_pos (by omega), Int.toNat_natCast, take_name h.enough]
      | cons first before =>
          obtain ⟨hfirst, hrest⟩ := List.cons.inj hpieces
          have hleft := fgets_left_lt (d := newline) hroom hfile
          rw [(parseUserName_spec hpiece hlength hmax _).2 (hfirst ▸ hbefore first List.mem_cons_self)]
          exact ih (hleft.trans_le (Nat.le_of_lt_succ hfuel)) hrest
            (fun p hp => hbefore p (List.mem_cons_of_mem first hp)) _

theorem exists_first {α : Type} {P : α → Prop} {l : List α} (h : ∃ x ∈ l, P x) :
    ∃ before x after, l = before ++ x :: after ∧ P x ∧ ∀ y ∈ before, ¬ P y := by
  classical
  obtain ⟨x, hx⟩ := Option.isSome_iff_exists.mp
    (List.find?_isSome.mpr (h.imp fun x hx => ⟨hx.1, decide_eq_true hx.2⟩))
  obtain ⟨hP, before, after, rfl, hbefore⟩ := List.find?_eq_some_iff_append.mp hx
  refine ⟨before, x, after, rfl, of_decide_eq_true hP, fun y hy => ?_⟩
  have hy := hbefore y hy
  rw [Bool.not_eq_true'] at hy
  exact of_decide_eq_false hy

/-- A success comes from the first piece that is accepted. -/
theorem exists_accepted (hbuf : 2 < nameBufLen) (hmax : nameBufLen < 2 ^ 31)
    (hfuel : file.length < fuel) {userName userName' : List UInt8}
    (h : readUserName caUid nameBufLen fuel file userName = some (0, userName')) :
    ∃ before piece after, pieces newline (nameBufLen - 1 - 1) file = before ++ piece :: after ∧
      (∀ p ∈ before, ¬ Accepted caUid p) ∧ Accepted caUid piece ∧
      userName' = field colon (shown piece) 0 ++
        List.replicate (nameBufLen - (field colon (shown piece) 0).length) 0 := by
  by_cases hall : ∀ p ∈ pieces newline (nameBufLen - 1 - 1) file, ¬ Accepted caUid p
  · obtain ⟨buffer, hrefused⟩ := readUserName_refused hbuf hmax hfuel hall userName
    rw [hrefused] at h
    cases congrArg Prod.fst (Option.some.inj h)
  · push Not at hall
    obtain ⟨before, piece, after, hpieces, haccepted, hbefore⟩ := exists_first hall
    rw [readUserName_accepted hbuf hmax hfuel hpieces hbefore haccepted userName] at h
    exact ⟨before, piece, after, hpieces, hbefore, haccepted,
      (congrArg Prod.snd (Option.some.inj h)).symm⟩

/-- The name that is returned is a string in the buffer. -/
theorem teeGetUserName_buffer (hbuf : 2 < nameBufLen) (hmax : nameBufLen < 2 ^ 31)
    {passwd : Option (List UInt8)} (hfuel : ∀ file, passwd = some file → file.length < fuel)
    {userName userName' : List UInt8}
    (h : teeGetUserName passwd caUid userName nameBufLen fuel = some (0, userName')) :
    userName'.length = nameBufLen ∧ 0 ∈ userName' := by
  cases passwd with
  | none => cases congrArg Prod.fst (Option.some.inj h)
  | some file =>
      obtain ⟨before, piece, after, hpieces, -, haccepted, rfl⟩ :=
        exists_accepted hbuf hmax (hfuel file rfl) h
      have hpiece := (mem_pieces (hpieces ▸ List.mem_append_right before List.mem_cons_self)).2.1
      obtain ⟨name, passwd, uid, more, hshown, hname, -, -⟩ := exists_fields haccepted.enough
      have hlength := shown_length piece
      rw [hshown, field_append_zero hname]
      rw [hshown, List.length_append] at hlength
      refine ⟨?_, List.mem_append_right _ (List.mem_replicate.mpr ⟨by omega, rfl⟩)⟩
      rw [List.length_append, List.length_replicate]
      omega

/-! ### Whether the name is that of a line -/

/-- Behind these pieces starts a line of seven fields whose third is not empty and has a value that fits
`size_t`. -/
def StartsEntry (file : List UInt8) (before : List (List UInt8)) : Prop :=
  ∃ line, LineAt newline file before.flatten.length line ∧ (line.splitOn colon).length = 7 ∧
    field colon line 2 ≠ [] ∧ decimal (field colon line 2) < 2 ^ 64

/-- Of the first piece that is accepted: it starts such a line, or another line gives the user the same
name. -/
def FromEntry (file : List UInt8) (caUid : UInt32) (room : Nat) : Prop :=
  ∀ before piece after, pieces newline room file = before ++ piece :: after →
    (∀ p ∈ before, ¬ Accepted caUid p) → Accepted caUid piece →
      StartsEntry file before ∨
      ∃ i line, i ≠ before.flatten.length ∧ LineAt newline file i line ∧
        IsEntry line (field colon (shown piece) 0) caUid.toNat

/-- A piece that starts a line has the first three fields of the line. -/
theorem fields_of_line {before line rest : List UInt8} (h : LineAt newline file before.length line)
    (hfile : file = before ++ (piece ++ rest))
    (hpiece : ∀ init c, init ++ [c] <+: piece → newline ∉ init)
    (henough : 3 ≤ (shown piece).count colon) :
    field colon line 0 = field colon (shown piece) 0 ∧
      field colon line 2 = field colon (shown piece) 2 := by
  obtain ⟨name, passwd, uid, more, hshown, hname, hpasswd, huid⟩ := exists_fields henough
  have hstart : (name ++ colon :: (passwd ++ colon :: uid)) ++ [colon] <+: piece := by
    refine List.IsPrefix.trans ?_ (List.takeWhile_prefix (· != 0))
    change _ <+: shown piece
    rw [hshown]
    exact ⟨more, by simp⟩
  have hnewline : newline ∉ (name ++ colon :: (passwd ++ colon :: uid)) ++ [colon] := by
    rw [List.mem_append, not_or]
    exact ⟨hpiece _ colon hstart, by decide⟩
  obtain ⟨tail, rfl⟩ := h.prefix hfile hnewline (hstart.trans (List.prefix_append piece rest))
  have hline : (name ++ colon :: (passwd ++ colon :: uid)) ++ [colon] ++ tail =
      name ++ colon :: (passwd ++ colon :: (uid ++ colon :: tail)) := by simp
  rw [hline, hshown]
  simp only [field_append_zero hname, field_append_succ hname, field_append_succ hpasswd,
    field_append_zero huid, and_self]

/-- The line that an accepted piece starts gives the user the name of the piece. -/
theorem StartsEntry.isEntry {room : Nat} {before after : List (List UInt8)}
    (hstarts : StartsEntry file before) (hroom : 0 < room)
    (hpieces : pieces newline room file = before ++ piece :: after)
    (haccepted : Accepted caUid piece) :
    ∃ line, LineAt newline file before.flatten.length line ∧
      IsEntry line (field colon (shown piece) 0) caUid.toNat := by
  obtain ⟨line, hline, hfields, hnonempty, hvalue⟩ := hstarts
  have hfile : file = before.flatten ++ (piece ++ after.flatten) := by
    rw [← flatten_pieces (d := newline) hroom file, hpieces, List.flatten_append, List.flatten_cons]
  have hpiece := (mem_pieces (hpieces ▸ List.mem_append_right before List.mem_cons_self)).2.2
  obtain ⟨hname, huid⟩ := fields_of_line hline hfile hpiece haccepted.enough
  refine ⟨line, hline, hfields, hname, hnonempty, ?_, ?_⟩
  · rw [huid]
    exact haccepted.numeral
  · rw [huid] at hvalue ⊢
    rw [← haccepted.uid, Nat.mod_eq_of_lt hvalue]

theorem takeWhile_name (h : 3 ≤ (shown piece).count colon) (n : Nat) :
    (field colon (shown piece) 0 ++ List.replicate n 0).takeWhile (· != 0) =
      field colon (shown piece) 0 := by
  obtain ⟨name, passwd, uid, more, hshown, hname, -, -⟩ := exists_fields h
  have hzero : ∀ c ∈ name, (c != 0) = true := by
    intro c hc
    refine List.mem_takeWhile_imp (p := (· != 0)) (l := piece) ?_
    change c ∈ shown piece
    rw [hshown]
    exact List.mem_append_left _ hc
  rw [hshown, field_append_zero hname, List.takeWhile_append_of_pos hzero]
  cases n with
  | zero => simp
  | succ n => simp [List.replicate_succ]

/-- A success of `TeeGetUserName` comes from a whole line of seven fields with the number exactly when
the first piece that is accepted starts such a line, or another line says the same. -/
theorem teeGetUserName_named_iff (hbuf : 2 < nameBufLen) (hmax : nameBufLen < 2 ^ 31)
    (hfuel : file.length < fuel) (userName : List UInt8) :
    (∀ userName', teeGetUserName (some file) caUid userName nameBufLen fuel = some (0, userName') →
      Named file userName' caUid) ↔ FromEntry file caUid (nameBufLen - 2) := by
  have hroom : 0 < nameBufLen - 1 - 1 := by omega
  constructor
  · intro h before piece after hpieces hbefore haccepted
    have hrun := readUserName_accepted hbuf hmax hfuel hpieces hbefore haccepted userName
    obtain ⟨i, line, hline, hentry⟩ := h _ hrun
    rw [takeWhile_name haccepted.enough] at hentry
    by_cases hi : i = before.flatten.length
    · rw [hi] at hline
      refine Or.inl ⟨line, hline, hentry.fields, hentry.nonempty, ?_⟩
      rw [hentry.uid]
      exact caUid.toNat_lt.trans (by decide)
    · exact Or.inr ⟨i, line, hi, hline, hentry⟩
  · intro h userName' hrun
    obtain ⟨before, piece, after, hpieces, hbefore, haccepted, rfl⟩ :=
      exists_accepted hbuf hmax hfuel hrun
    rw [Named, takeWhile_name haccepted.enough]
    obtain hstarts | ⟨i, line, -, hline, hentry⟩ := h before piece after hpieces hbefore haccepted
    · exact ⟨_, hstarts.isEntry hroom hpieces haccepted⟩
    · exact ⟨i, line, hline, hentry⟩

/-- `a:x:5:5:::` -/
theorem teeGetUserName_named_five :
    teeGetUserName (some [97, 58, 120, 58, 53, 58, 53, 58, 58, 58, 10]) 5 [] 256 12 =
      some (0, 97 :: List.replicate 255 0) ∧
    Named [97, 58, 120, 58, 53, 58, 53, 58, 58, 58, 10] (97 :: List.replicate 255 0) 5 := by
  have hrun : teeGetUserName (some [97, 58, 120, 58, 53, 58, 53, 58, 58, 58, 10]) 5 [] 256 12 =
      some (0, 97 :: List.replicate 255 0) := rfl
  refine ⟨hrun, ((teeGetUserName_named_iff (by decide) (by decide) (by decide) []).mpr ?_) _ hrun⟩
  intro before piece after hpieces _ _
  have hall : pieces newline 254 [97, 58, 120, 58, 53, 58, 53, 58, 58, 58, 10] =
      [[97, 58, 120, 58, 53, 58, 53, 58, 58, 58, 10]] := by
    rw [pieces_cons (by decide) (by decide)]
    exact congrArg _ (pieces_nil 254)
  rw [hall] at hpieces
  obtain rfl : before = [] := by
    cases before with
    | nil => rfl
    | cons first before => simp at hpieces
  exact Or.inl ⟨[97, 58, 120, 58, 53, 58, 53, 58, 58, 58],
    ⟨by decide, [], [10], rfl, rfl, Or.inl rfl, Or.inr rfl⟩, by decide, by decide, by decide⟩

/-- A line of four fields: `a:x:5:` -/
theorem teeGetUserName_named_not : ¬ ∀ userName',
    teeGetUserName (some [97, 58, 120, 58, 53, 58, 10]) 5 [] 256 8 = some (0, userName') →
      Named [97, 58, 120, 58, 53, 58, 10] userName' 5 := by
  intro h
  have hrun : teeGetUserName (some [97, 58, 120, 58, 53, 58, 10]) 5 [] 256 8 =
      some (0, 97 :: List.replicate 255 0) := rfl
  obtain ⟨i, line, ⟨-, before, after, hfile, -⟩, hentry⟩ := h _ hrun
  have hcolons := congrArg (List.count colon) hfile
  have hfields := hentry.fields
  rw [List.count_append, List.count_append] at hcolons
  rw [length_splitOn] at hfields
  have hthree : List.count colon [97, 58, 120, 58, 53, 58, 10] = 3 := by decide
  omega

end ITrustee.Authentication
