import Mathlib.Tactic
import ITrustee.Foundation.NulStrings
import ITrustee.Foundation.Securec
import ITrustee.TeeTeleport.Scp

/-!
# The list of third-party libraries

`ShowThirdLib` of `scp.c`. The TEE leaves the names in the portal, behind its head, each with a
terminator, and says how many there are and how many bytes they take. `CheckThirdLibParams` counts the
null bytes up to the first two in a row. It does not look at how many bytes it was told, so it may leave
the portal, and the names that it counted need not lie in the bytes that are copied afterwards.
-/

namespace ITrustee.TeeTeleport

open NulStrings

/-- A portal of `portalSize` bytes after the command `LIST`. -/
structure ListPortal (sizeofHead portalSize : UInt32) where
  numOfFiles : UInt32
  offset : UInt32
  /-- What follows the head. -/
  libNames : List UInt8
  size_eq : sizeofHead.toNat + libNames.length = portalSize.toNat

/-- The loop of `CheckThirdLibParams` from `p` on; `none` if it reads behind the portal. -/
def countNames : List UInt8 → UInt32 → Option UInt32
  | [], _ => none
  | b :: p, cnt =>
      if b = 0 then
        match p with
        | [] => none
        | next :: _ => if next ≠ 0 then countNames p (cnt + 1) else some (cnt + 1)
      else countNames p cnt

def checkThirdLibParams (sizeofHead offset portalSize numOfFiles : UInt32)
    (libNameStart : List UInt8) : Option Bool :=
  if offset > portalSize - sizeofHead then some false
  else (countNames libNameStart 0).map fun cnt => decide (cnt = numOfFiles)

structure ShowCalls where
  malloc : Bool
  strdup : Nat → Bool

inductive Shown where
  /-- A read behind the portal or behind the copy. -/
  | outside
  | returned (ret : Int32) (printed : List (List UInt8))
  deriving DecidableEq

def Shown.print (name : List UInt8) : Shown → Shown
  | outside => outside
  | returned ret printed => returned ret (name :: printed)

/-- The loop of `ShowThirdLib` for the names from `i` on. -/
def showNames (calls : ShowCalls) (allLibNames : List UInt8) : Nat → Nat → UInt32 → Shown
  | 0, _, _ => .returned 0 []
  | turns + 1, i, offset =>
      match read (allLibNames.drop offset.toNat) with
      | none => .outside
      | some (name, _) =>
          if calls.strdup i = false then .returned (-eFault) []
          else
            (showNames calls allLibNames turns (i + 1) (offset + UInt32.ofNat (name.length + 1))).print name

def showThirdLib (lib : Securec) (calls : ShowCalls) {sizeofHead portalSize : UInt32}
    (portal : ListPortal sizeofHead portalSize) : Shown :=
  if portal.offset = 0 ∨ portal.numOfFiles = 0 then .returned 0 []
  else
    match checkThirdLibParams sizeofHead portal.offset portalSize portal.numOfFiles portal.libNames with
    | none => .outside
    | some false => .returned (-eFault) []
    | some true =>
        if calls.malloc = false then .returned (-eNoMem) []
        else
          let allLibNames := lib.memcpyS (List.replicate portal.offset.toNat 0) portal.offset.toNat
            portal.libNames portal.offset.toNat
          if allLibNames.1 ≠ 0 then .returned (-eFault) []
          else showNames calls allLibNames.2 portal.numOfFiles.toNat 0 0

/-! ### What should hold -/

def ShowCalls.Succeed (calls : ShowCalls) : Prop := calls.malloc = true ∧ ∀ i, calls.strdup i = true

/-- So many names with their terminators stand at the start of the bytes. -/
def Names (numOfFiles : Nat) (bytes : List UInt8) (names : List (List UInt8)) : Prop :=
  names.length = numOfFiles ∧ (∀ name ∈ names, 0 ∉ name) ∧ ∃ rest, bytes = terminated names ++ rest

/-- The check stays in the portal. If it accepts, nothing behind the copied bytes is read, and all names
are shown unless an allocation fails. -/
def ListsSafely (lib : Securec) {sizeofHead portalSize : UInt32}
    (portal : ListPortal sizeofHead portalSize) : Prop :=
  ∃ accepted, checkThirdLibParams sizeofHead portal.offset portalSize portal.numOfFiles
      portal.libNames = some accepted ∧
    (accepted = true → ∀ calls, ∃ ret printed, showThirdLib lib calls portal = .returned ret printed ∧
      (calls.Succeed → ret = 0 ∧
        Names portal.numOfFiles.toNat (portal.libNames.take portal.offset.toNat) printed))

/-! ### The check -/

theorem countNames_step {p : List UInt8} {b : UInt8} {cnt : UInt32} (hrun : ¬ (b = 0 ∧ p[0]? = some 0)) :
    countNames (b :: p) cnt = countNames p (cnt + if b = 0 then 1 else 0) := by
  by_cases hb : b = 0
  · cases p with
    | nil => simp [countNames]
    | cons next rest =>
        have hnext : next ≠ 0 := fun hzero => hrun ⟨hb, by rw [hzero]; rfl⟩
        rw [countNames, if_pos hb, if_pos hb, if_pos hnext]
  · rw [if_neg hb, UInt32.add_zero]
    cases p with
    | nil => simp [countNames]
    | cons next rest => rw [countNames, if_neg hb]

/-- The null bytes are counted up to the first two in a row. -/
theorem countNames_eq_some_iff {p : List UInt8} {cnt m : UInt32} :
    countNames p cnt = some m ↔
      ∃ i, EndsAt p i ∧ m = cnt + UInt32.ofNat ((p.take (i + 1)).count 0) := by
  induction p generalizing cnt with
  | nil =>
      refine iff_of_false (by simp [countNames]) ?_
      rintro ⟨i, hend, -⟩
      simp [EndsAt] at hend
  | cons b p ih =>
      by_cases hstop : b = 0 ∧ p[0]? = some 0
      · obtain ⟨rfl, hnext⟩ := hstop
        have hend : EndsAt (0 :: p) 0 := endsAt_cons_zero.mpr ⟨rfl, hnext⟩
        have hret : countNames (0 :: p) cnt = some (cnt + 1) := by
          cases p with
          | nil => cases hnext
          | cons next rest =>
              obtain rfl := Option.some.inj hnext
              rfl
        rw [hret]
        constructor
        · intro h
          obtain rfl := Option.some.inj h
          exact ⟨0, hend, rfl⟩
        · rintro ⟨i, hi, hm⟩
          obtain rfl := hi.unique hend
          rw [hm]
          rfl
      · have hcount (i : Nat) : ((b :: p).take (i + 1 + 1)).count 0 =
            (if b = 0 then 1 else 0) + (p.take (i + 1)).count 0 := by
          rw [List.take_succ_cons, List.count_cons, Nat.add_comm]
          simp
        have hsum (i : Nat) : cnt + UInt32.ofNat (((b :: p).take (i + 1 + 1)).count 0) =
            cnt + (if b = 0 then 1 else 0) + UInt32.ofNat ((p.take (i + 1)).count 0) := by
          rw [hcount, UInt32.ofNat_add, UInt32.add_assoc]
          split_ifs <;> rfl
        rw [countNames_step hstop, ih]
        constructor
        · rintro ⟨i, hend, hm⟩
          refine ⟨i + 1, endsAt_cons_succ.mpr ⟨hstop, hend⟩, ?_⟩
          rw [hm, hsum]
        · rintro ⟨i, hend, hm⟩
          cases i with
          | zero => exact absurd (endsAt_cons_zero.mp hend) hstop
          | succ i => exact ⟨i, (endsAt_cons_succ.mp hend).2, by rw [hm, hsum]⟩

variable {sizeofHead portalSize : UInt32} (portal : ListPortal sizeofHead portalSize)

theorem ListPortal.room_eq : (portalSize - sizeofHead).toNat = portal.libNames.length := by
  have hsize := portal.size_eq
  have hle : sizeofHead ≤ portalSize := UInt32.le_iff_toNat_le.mpr (by omega)
  rw [UInt32.toNat_sub_of_le _ _ hle]
  omega

theorem ListPortal.length_lt : portal.libNames.length < 2 ^ 32 := by
  rw [← portal.room_eq]
  exact UInt32.toNat_lt _

/-- The check of an offset that fits compares the number of null bytes. -/
theorem checkThirdLibParams_eq_some_iff {accepted : Bool}
    (hoffset : portal.offset.toNat ≤ portal.libNames.length) :
    checkThirdLibParams sizeofHead portal.offset portalSize portal.numOfFiles portal.libNames =
        some accepted ↔
      ∃ i, EndsAt portal.libNames i ∧
        (accepted = true ↔ (portal.libNames.take (i + 1)).count 0 = portal.numOfFiles.toNat) := by
  have hroom : ¬ portal.offset > portalSize - sizeofHead := by
    rw [gt_iff_lt, UInt32.lt_iff_toNat_lt, portal.room_eq]
    omega
  have hcount (i : Nat) : 0 + UInt32.ofNat ((portal.libNames.take (i + 1)).count 0) =
      portal.numOfFiles ↔ (portal.libNames.take (i + 1)).count 0 = portal.numOfFiles.toNat := by
    have hle : (portal.libNames.take (i + 1)).count 0 ≤ portal.libNames.length :=
      List.count_le_length.trans (List.length_take_le' _ _)
    have hlt : (portal.libNames.take (i + 1)).count 0 < UInt32.size := hle.trans_lt portal.length_lt
    rw [UInt32.zero_add, ← UInt32.toNat_inj, UInt32.toNat_ofNat_of_lt' hlt]
  rw [checkThirdLibParams, if_neg hroom, Option.map_eq_some_iff]
  constructor
  · rintro ⟨cnt, hcnt, haccepted⟩
    obtain ⟨i, hend, rfl⟩ := countNames_eq_some_iff.mp hcnt
    exact ⟨i, hend, by rw [← haccepted, decide_eq_true_iff, hcount]⟩
  · rintro ⟨i, hend, haccepted⟩
    refine ⟨_, countNames_eq_some_iff.mpr ⟨i, hend, rfl⟩, ?_⟩
    rw [← hcount] at haccepted
    exact Bool.eq_iff_iff.mpr (decide_eq_true_iff.trans haccepted.symm)

/-! ### The names -/

section Show

variable {calls : ShowCalls} {allLibNames : List UInt8} {turns i : Nat} {offset : UInt32}

/-- The name after one that was read starts behind its terminator. -/
theorem drop_next {name rest : List UInt8} (hlength : allLibNames.length < 2 ^ 32)
    (hread : read (allLibNames.drop offset.toNat) = some (name, rest)) :
    allLibNames.drop (offset + UInt32.ofNat (name.length + 1)).toNat = rest := by
  obtain ⟨hbytes, -⟩ := read_eq_some_iff.mp hread
  have hfits : allLibNames.length - offset.toNat = name.length + (rest.length + 1) := by
    rw [← List.length_drop, hbytes, List.length_append, List.length_cons]
  have hnext : (offset + UInt32.ofNat (name.length + 1)).toNat = offset.toNat + (name.length + 1) := by
    rw [UInt32.toNat_add, UInt32.toNat_ofNat']
    omega
  have hsplit : name ++ 0 :: rest = (name ++ [0]) ++ rest := by simp
  rw [hnext, ← List.drop_drop, hbytes, hsplit]
  exact List.drop_left' (by simp)

/-- As many names as the copy has null bytes are read inside it, whatever the calls return. -/
theorem showNames_inside (hlength : allLibNames.length < 2 ^ 32)
    (hread : (readMany turns (allLibNames.drop offset.toNat)).isSome) :
    ∃ ret printed, showNames calls allLibNames turns i offset = .returned ret printed := by
  induction turns generalizing i offset with
  | zero => exact ⟨0, [], rfl⟩
  | succ turns ih =>
      obtain ⟨names, hnames⟩ := Option.isSome_iff_exists.mp hread
      obtain ⟨⟨name, rest⟩, hfirst, hlater⟩ := Option.bind_eq_some_iff.mp hnames
      rw [showNames, hfirst]
      dsimp only
      by_cases hdup : calls.strdup i = false
      · rw [if_pos hdup]
        exact ⟨-eFault, [], rfl⟩
      · rw [if_neg hdup]
        obtain ⟨later, hsome, -⟩ := Option.map_eq_some_iff.mp hlater
        have hrest : (readMany turns
            (allLibNames.drop (offset + UInt32.ofNat (name.length + 1)).toNat)).isSome := by
          rw [drop_next hlength hfirst, hsome]
          rfl
        obtain ⟨ret, printed, hshown⟩ := ih (i := i + 1) hrest
        rw [hshown]
        exact ⟨ret, name :: printed, rfl⟩

/-- When no call fails the names that can be read are shown. -/
theorem showNames_succeed (hcalls : calls.Succeed) (hlength : allLibNames.length < 2 ^ 32) :
    showNames calls allLibNames turns i offset =
      match readMany turns (allLibNames.drop offset.toNat) with
      | some names => .returned 0 names
      | none => .outside := by
  induction turns generalizing i offset with
  | zero => rfl
  | succ turns ih =>
      rw [showNames, readMany]
      cases hread : read (allLibNames.drop offset.toNat) with
      | none => rfl
      | some r =>
          obtain ⟨name, rest⟩ := r
          dsimp only
          rw [if_neg (by simp [hcalls.2 i]), ih, drop_next hlength hread, Option.bind_some]
          cases readMany turns rest with
          | none => rfl
          | some names => rfl

end Show

theorem showThirdLib_accepted {lib : Securec} (hlib : lib.CopiesWithinMax)
    (hoffset : 0 < portal.offset.toNat) (hnum : portal.numOfFiles ≠ 0) {calls : ShowCalls}
    (haccepted : checkThirdLibParams sizeofHead portal.offset portalSize portal.numOfFiles
      portal.libNames = some true) :
    showThirdLib lib calls portal =
      if calls.malloc = false then .returned (-eNoMem) []
      else if portal.offset.toNat ≤ Securec.maxLen then
        showNames calls (portal.libNames.take portal.offset.toNat) portal.numOfFiles.toNat 0 0
      else .returned (-eFault) [] := by
  have hne : ¬ (portal.offset = 0 ∨ portal.numOfFiles = 0) := by
    rintro (hzero | hzero)
    · rw [hzero] at hoffset
      exact absurd hoffset (by decide)
    · exact hnum hzero
  rw [showThirdLib, if_neg hne, haccepted]
  dsimp only
  by_cases hmax : portal.offset.toNat ≤ Securec.maxLen
  · rw [if_pos hmax, hlib.copies _ _ _ _ hoffset hmax le_rfl, List.drop_of_length_le (by simp),
      List.append_nil]
    rfl
  · have hret := hlib.refuses (List.replicate portal.offset.toNat 0) portal.offset.toNat
      portal.libNames portal.offset.toNat fun h => hmax h.2.1
    rw [if_neg hmax, if_pos hret]

/-- An accepted number of names is not 0: the null byte where the count ends is counted. -/
theorem numOfFiles_ne_zero {i : Nat} (hend : EndsAt portal.libNames i)
    (hcount : (portal.libNames.take (i + 1)).count 0 = portal.numOfFiles.toNat) :
    portal.numOfFiles ≠ 0 := by
  intro hzero
  have hmem : (0 : UInt8) ∈ portal.libNames.take (i + 1) := by
    rw [List.mem_iff_getElem?]
    exact ⟨i, by rw [List.getElem?_take_of_lt (Nat.lt_succ_self i), hend.1.1]⟩
  have hpos := List.count_pos_iff.mpr hmem
  rw [hcount, hzero] at hpos
  exact absurd hpos (by decide)

/-- The portal is listed safely exactly when the offset is refused, or the portal holds two null bytes in a
row and, if the number of null bytes up to the first two is the announced one, the bytes to copy hold as
many null bytes and can be copied. -/
theorem listsSafely_iff {lib : Securec} (hlib : lib.CopiesWithinMax) :
    ListsSafely lib portal ↔
      portal.libNames.length < portal.offset.toNat ∨
        ∃ i, EndsAt portal.libNames i ∧
          ((portal.libNames.take (i + 1)).count 0 = portal.numOfFiles.toNat →
            portal.numOfFiles.toNat ≤ (portal.libNames.take portal.offset.toNat).count 0 ∧
              portal.offset.toNat ≤ Securec.maxLen) := by
  by_cases hfits : portal.offset.toNat ≤ portal.libNames.length
  · rw [or_iff_right (Nat.not_lt.mpr hfits)]
    have hcopied : (portal.libNames.take portal.offset.toNat).length < 2 ^ 32 :=
      (List.length_take_le' _ _).trans_lt portal.length_lt
    constructor
    · rintro ⟨accepted, hcheck, hshown⟩
      obtain ⟨i, hend, haccepted⟩ := (checkThirdLibParams_eq_some_iff portal hfits).mp hcheck
      refine ⟨i, hend, fun hcount => ?_⟩
      have hnum := numOfFiles_ne_zero portal hend hcount
      have htrue := haccepted.mpr hcount
      rw [htrue] at hcheck
      obtain ⟨ret, printed, hret, hnames⟩ := hshown htrue ⟨true, fun _ => true⟩
      obtain ⟨rfl, hlength, -, -⟩ := hnames ⟨rfl, fun _ => rfl⟩
      have hoffset : 0 < portal.offset.toNat := by
        by_contra hzero
        have hzero : portal.offset = 0 := UInt32.toNat_inj.mp (Nat.eq_zero_of_not_pos hzero)
        rw [showThirdLib, if_pos (Or.inl hzero)] at hret
        obtain ⟨-, rfl⟩ := Shown.returned.inj hret
        exact hnum (UInt32.toNat_inj.mp hlength.symm)
      rw [showThirdLib_accepted portal hlib hoffset hnum hcheck, if_neg (by simp)] at hret
      split_ifs at hret with hmax
      · refine ⟨?_, hmax⟩
        rw [showNames_succeed ⟨rfl, fun _ => rfl⟩ hcopied] at hret
        rw [← readMany_isSome_iff]
        cases hread : readMany portal.numOfFiles.toNat (portal.libNames.take portal.offset.toNat) with
        | some names => rfl
        | none =>
            rw [UInt32.toNat_zero, List.drop_zero, hread] at hret
            cases hret
      · cases (Shown.returned.inj hret).1
    · rintro ⟨i, hend, hif⟩
      by_cases hcount : (portal.libNames.take (i + 1)).count 0 = portal.numOfFiles.toNat
      · have hcheck : checkThirdLibParams sizeofHead portal.offset portalSize portal.numOfFiles
            portal.libNames = some true :=
          (checkThirdLibParams_eq_some_iff portal hfits).mpr ⟨i, hend, iff_of_true rfl hcount⟩
        obtain ⟨henough, hmax⟩ := hif hcount
        have hnum := numOfFiles_ne_zero portal hend hcount
        have hpos : 0 < portal.numOfFiles.toNat :=
          Nat.pos_of_ne_zero fun hzero => hnum (UInt32.toNat_inj.mp hzero)
        have hoffset : 0 < portal.offset.toNat := by
          have hle := henough.trans List.count_le_length
          rw [List.length_take] at hle
          omega
        have hread : (readMany portal.numOfFiles.toNat
            ((portal.libNames.take portal.offset.toNat).drop (0 : UInt32).toNat)).isSome := by
          rw [UInt32.toNat_zero, List.drop_zero, readMany_isSome_iff]
          exact henough
        refine ⟨true, hcheck, fun _ calls => ?_⟩
        rw [showThirdLib_accepted portal hlib hoffset hnum hcheck]
        by_cases hmalloc : calls.malloc = false
        · rw [if_pos hmalloc]
          exact ⟨-eNoMem, [], rfl, fun hcalls => absurd (hmalloc.symm.trans hcalls.1) (by decide)⟩
        · rw [if_neg hmalloc, if_pos hmax]
          obtain ⟨ret, printed, hshown⟩ : ∃ ret printed, showNames calls
              (portal.libNames.take portal.offset.toNat) portal.numOfFiles.toNat 0 0 =
                .returned ret printed := showNames_inside hcopied hread
          refine ⟨ret, printed, hshown, fun hcalls => ?_⟩
          obtain ⟨names, hnames⟩ := Option.isSome_iff_exists.mp hread
          rw [showNames_succeed hcalls hcopied, hnames] at hshown
          obtain ⟨rfl, rfl⟩ := Shown.returned.inj hshown
          exact ⟨rfl, readMany_eq_some hnames⟩
      · exact ⟨false, (checkThirdLibParams_eq_some_iff portal hfits).mpr
          ⟨i, hend, iff_of_false (by decide) hcount⟩, fun h => by cases h⟩
  · rw [or_iff_left_of_imp (fun _ => Nat.not_le.mp hfits)]
    refine iff_of_true ⟨false, ?_, fun h => by cases h⟩ (Nat.not_le.mp hfits)
    have hroom : portal.offset > portalSize - sizeofHead := by
      rw [gt_iff_lt, UInt32.lt_iff_toNat_lt, portal.room_eq]
      omega
    rw [checkThirdLibParams, if_pos hroom]

/-- The names `a` and `bc`. -/
theorem listsSafely_two : ListsSafely Securec.reference
    (⟨2, 5, [97, 0, 98, 99, 0, 0], rfl⟩ : ListPortal 9248 9254) :=
  (listsSafely_iff _ Securec.reference_copiesWithinMax).mpr (Or.inr ⟨4, by decide, by decide⟩)

/-- In the first portal one name and its terminator fill the room behind the head, so that the count goes
on behind it. In the second the offset ends in the middle of the only name. -/
theorem listsSafely_not :
    ¬ ListsSafely Securec.reference (⟨1, 2, [97, 0], rfl⟩ : ListPortal 9248 9250) ∧
      ¬ ListsSafely Securec.reference (⟨1, 1, [97, 98, 0, 0], rfl⟩ : ListPortal 9248 9252) := by
  constructor
  · rintro ⟨accepted, hcheck, -⟩
    cases hcheck
  · rintro ⟨accepted, hcheck, hshown⟩
    obtain rfl := Option.some.inj hcheck
    obtain ⟨ret, printed, hret, -⟩ := hshown (by decide) ⟨true, fun _ => true⟩
    cases hret

end ITrustee.TeeTeleport
