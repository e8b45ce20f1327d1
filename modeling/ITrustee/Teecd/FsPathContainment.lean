import Mathlib.Tactic
import ITrustee.Foundation.LexPath
import ITrustee.Teecd.FsPath

/-!
# Where joined storage paths lead

Every variant of `JoinFileName` puts the name, or a tail of it, behind the storage root and a slash.
The one check on the name excludes `../`, so a `..` can only be the last component of what stands
below the root, and the path stays strictly below the root when some name is left over for it. Names
that are empty, `.`, `..` or end in a `..` that undoes their only name pass the check all the same.
-/

namespace ITrustee.Teecd

open CString LexPath

/-- The root of non-CE storage. -/
def storageRoot : List Char := "/var/itrustee/sec_storage_data".toList

def storageDirCe : List Char := "/sec_storage_data".toList

/-- The root of CE storage for a user, `/data/vendor_ce/<id>/sec_storage_data`. -/
def storageRootCe (id : List Char) : List Char := secStorageDataCe ++ id ++ storageDirCe

/-- The first of the parts of a CE name between its slashes, which is the user id. -/
def ceUserId (name : List Char) : List Char := (name.dropWhile (· == '/')).takeWhile (· != '/')

/-- What follows the user id and its slash in a CE name. -/
def ceBelowRoot (name : List Char) : List Char :=
  ((name.dropWhile (· == '/')).dropWhile (· != '/')).drop 1

/-- The part of a non-CE path that stands below the storage root. -/
def belowRoot (userId : UInt32) (name : List Char) : List Char :=
  if sfsPartitionTransient <+: name then
    if userId ≠ 0 then
      sfsPartitionUserSymlink ++ Nat.toDigits 10 userId.toNat ++ ['/'] ++
        name.drop sfsPartitionTransient.length
    else name
  else if sfsPartitionPersistent <+: name then name.drop sfsPartitionPersistent.length
  else name

/-- The path produced, if one is, lies strictly below the storage root. -/
def StoredBelowRoot (storageId : UInt32) (name : List Char) : JoinResult → Prop
  | .failed => True
  | .joined path =>
      if storageId = teeObjectStorageCe then
        isProper (ceUserId name) = true ∧ StrictlyBelow (storageRootCe (ceUserId name)) path
      else StrictlyBelow storageRoot path
  | .overread => False

/-- What stands below the root has more names than `..` components; a CE name is moreover shorter
than the buffer it is copied to, and its user id is neither `.` nor `..`. -/
def NameDescends (userId storageId : UInt32) (name : List Char) : Prop :=
  if storageId = teeObjectStorageCe then
    name.length ≠ fileNameMaxBuf ∧ isProper (ceUserId name) = true ∧ Descends (ceBelowRoot name)
  else Descends (belowRoot userId name)

/-! ### The parts of a name -/

theorem infix_of_append {needle a b : List Char} {c : Char} {rest : List Char}
    (hneedle : needle = c :: rest) (ha : c ∉ a) (h : needle <:+: a ++ b) : needle <:+: b := by
  induction a with
  | nil => exact h
  | cons d a ih =>
      rw [List.mem_cons, not_or] at ha
      rw [List.cons_append, List.infix_cons_iff, hneedle, List.cons_prefix_cons] at h
      rcases h with ⟨hcd, _⟩ | h
      · exact absurd hcd ha.1
      · rw [← hneedle] at h
        exact ih ha.2 h

theorem checkFileNameAndPath_iff (name : List Char) :
    checkFileNameAndPath name = true ↔ ¬ ['.', '.', '/'] <:+: name := by
  rw [checkFileNameAndPath, Option.isNone_iff_eq_none, strstr_eq_none]
  rfl

theorem digit_ne_dot {n : Nat} : '.' ∉ Nat.toDigits 10 n := by
  intro hmem
  have hdigit := Nat.isDigit_of_mem_toDigits (by decide) (by decide) hmem
  exact absurd hdigit (by decide)

/-- What stands below the root has no `../` when the name has none. -/
theorem belowRoot_no_up {userId : UInt32} {name : List Char} (h : ¬ ['.', '.', '/'] <:+: name) :
    ¬ ['.', '.', '/'] <:+: belowRoot userId name := by
  have hdrop (n : Nat) : ¬ ['.', '.', '/'] <:+: name.drop n := fun hsub =>
    h (hsub.trans (List.drop_suffix n name).isInfix)
  rw [belowRoot]
  split_ifs with htransient huser hpersistent
  · intro hsub
    refine hdrop _ (infix_of_append rfl ?_ hsub)
    have hsymlink : '.' ∉ sfsPartitionUserSymlink := by decide
    simp only [List.mem_append, not_or]
    exact ⟨⟨hsymlink, digit_ne_dot⟩, by decide⟩
  · exact h
  · exact hdrop _
  · exact h

/-! ### The joined paths -/

variable {lib : Securec} {userId storageId : UInt32} {name path : List Char} {pathLen : Nat}

theorem getTransientDir_eq (hlib : lib.JoinsWithinMax) (hmax : pathLen ≤ Securec.maxLen)
    (h : getTransientDir lib pathLen = some path) : path = storageRoot ++ ['/'] := by
  rw [getTransientDir, getPathStorage, if_pos (by decide)] at h
  rw [hlib.copy_eq hmax (Nat.le_succ _) h]
  decide

theorem getPersistentDir_eq (hlib : lib.JoinsWithinMax) (hmax : pathLen ≤ Securec.maxLen)
    (h : getPersistentDir lib pathLen = some path) : path = ['/'] := by
  rw [getPersistentDir, getPathStorage, if_neg (by decide), if_pos (by decide)] at h
  rw [hlib.copy_eq hmax (Nat.le_succ _) h]
  decide

theorem getDefaultDir_eq (hlib : lib.JoinsWithinMax) (hmax : pathLen ≤ Securec.maxLen)
    (h : getDefaultDir lib pathLen = some path) : path = storageRoot ++ ['/'] := by
  obtain ⟨dir, hdir, happend⟩ := Option.bind_eq_some_iff.mp h
  rw [hlib.append_eq hmax le_rfl happend, getPersistentDir_eq hlib hmax hdir]
  decide

theorem joinFileNameTransient_eq (hlib : lib.JoinsWithinMax) (hmax : pathLen ≤ Securec.maxLen)
    (hstart : sfsPartitionTransient <+: name)
    (h : joinFileNameTransient lib userId name pathLen = some path) :
    path = storageRoot ++ '/' :: belowRoot userId name := by
  obtain ⟨dir, hdir, h⟩ := Option.bind_eq_some_iff.mp h
  have hroot := getTransientDir_eq hlib hmax hdir
  rw [belowRoot, if_pos hstart]
  by_cases huser : userId ≠ 0
  · rw [if_pos huser] at h ⊢
    obtain ⟨user, huserPath, h⟩ := Option.bind_eq_some_iff.mp h
    obtain ⟨symlink, hsymlink, h⟩ := Option.bind_eq_some_iff.mp h
    obtain ⟨home, hhome, h⟩ := Option.bind_eq_some_iff.mp h
    have huserEq : user = Nat.toDigits 10 userId.toNat ++ ['/'] := by
      rw [userPath] at huserPath
      split_ifs at huserPath
      exact (Option.some.inj huserPath).symm
    split_ifs at h
    have hcount : (name.drop sfsPartitionTransient.length).length ≤
        name.length - sfsPartitionTransient.length := (List.length_drop).le
    rw [hlib.append_eq hmax hcount h, hlib.append_eq hmax le_rfl hhome,
      hlib.append_eq hmax le_rfl hsymlink, hroot, huserEq]
    simp only [List.append_assoc, List.cons_append, List.nil_append]
  · rw [if_neg huser] at h ⊢
    rw [hlib.append_eq hmax le_rfl h, hroot]
    simp only [List.append_assoc, List.singleton_append]

theorem doJoinFileName_eq (userId : UInt32) (hlib : lib.JoinsWithinMax)
    (hmax : pathLen ≤ Securec.maxLen)
    (hstart : ¬ sfsPartitionTransient <+: name)
    (h : doJoinFileName lib name pathLen = some path) :
    path = storageRoot ++ '/' :: belowRoot userId name := by
  obtain ⟨dir, hdir, happend⟩ := Option.bind_eq_some_iff.mp h
  have hpath := hlib.append_eq hmax le_rfl happend
  have hperso : ¬ (strstr name sfsPartitionTransientPerso = some 0 ∨
      strstr name sfsPartitionTransientPrivate = some 0) := by
    rw [strstr_eq_zero, strstr_eq_zero]
    rintro (hperso | hprivate)
    · exact hstart ((show sfsPartitionTransient <+: sfsPartitionTransientPerso by decide).trans
        hperso)
    · exact hstart ((show sfsPartitionTransient <+: sfsPartitionTransientPrivate by decide).trans
        hprivate)
  rw [joinDir, if_neg hperso] at hdir
  rw [belowRoot, if_neg hstart]
  by_cases hpersistent : sfsPartitionPersistent <+: name
  · rw [if_pos (strstr_eq_zero.mpr hpersistent)] at hdir
    rw [if_pos hpersistent]
    obtain ⟨rest, rfl⟩ := hpersistent
    rw [hpath, getPersistentDir_eq hlib hmax hdir, List.drop_left]
    rfl
  · rw [if_neg (strstr_eq_zero.not.mpr hpersistent)] at hdir
    rw [if_neg hpersistent, hpath, getDefaultDir_eq hlib hmax hdir]
    simp only [List.append_assoc, List.singleton_append]

/-- Outside CE storage the path is the root, a slash, and what stands below the root. -/
theorem joinFileName_eq (hlib : lib.JoinsWithinMax) (hmax : pathLen ≤ Securec.maxLen)
    (hce : storageId ≠ teeObjectStorageCe)
    (hjoin : joinFileName lib userId storageId name pathLen ≠ .failed) :
    joinFileName lib userId storageId name pathLen =
      .joined (storageRoot ++ '/' :: belowRoot userId name) := by
  rw [joinFileName] at hjoin ⊢
  split_ifs at hjoin ⊢ with hcheck hstart
  · exact absurd rfl hjoin
  · rw [strstr_eq_zero] at hstart
    cases h : joinFileNameTransient lib userId name pathLen with
    | none => simp [h, JoinResult.ofOption] at hjoin
    | some path => rw [joinFileNameTransient_eq hlib hmax hstart h]; rfl
  · rw [strstr_eq_zero] at hstart
    cases h : doJoinFileName lib name pathLen with
    | none => simp [h, JoinResult.ofOption] at hjoin
    | some path => rw [doJoinFileName_eq userId hlib hmax hstart h]; rfl

theorem strtokR_slash {idString rest : List Char}
    (h : strtokR name '/' = some (idString, rest)) :
    idString = ceUserId name ∧ rest = ceBelowRoot name := by
  rw [strtokR] at h
  split_ifs at h
  obtain ⟨rfl, rfl⟩ := Prod.mk.inj (Option.some.inj h)
  exact ⟨rfl, rfl⟩

theorem joinStorageCeDir_eq (hlib : lib.JoinsWithinMax) (hmax : pathLen ≤ Securec.maxLen)
    {idString : List Char} (h : joinStorageCeDir lib idString pathLen = some path) :
    path = storageRootCe idString ++ ['/'] := by
  rw [joinStorageCeDir] at h
  obtain ⟨dir, hdir, h⟩ := Option.bind_eq_some_iff.mp h
  obtain ⟨home, hhome, h⟩ := Option.bind_eq_some_iff.mp h
  have hpath := hlib.append_eq hmax (Nat.le_add_right secStorageDataRootDir.length 1) h
  have hhomeEq := hlib.append_eq hmax (le_refl idString.length) hhome
  have hdirEq := hlib.copy_eq hmax (Nat.le_add_right secStorageDataCe.length 1) hdir
  have hroot : secStorageDataRootDir = storageDirCe ++ ['/'] := by decide +kernel
  rw [hpath, hhomeEq, hdirEq, hroot, storageRootCe, ← List.append_assoc]

/-- In CE storage the path is the root of the name's user, a slash, and what follows the user id,
unless the name fills the buffer. -/
theorem joinFileNameForStorageCE_eq (hlib : lib.JoinsWithinMax) (hmax : pathLen ≤ Securec.maxLen)
    (hjoin : joinFileNameForStorageCE lib name pathLen ≠ .failed) :
    joinFileNameForStorageCE lib name pathLen =
      if name.length = fileNameMaxBuf then .overread
      else .joined (storageRootCe (ceUserId name) ++ '/' :: ceBelowRoot name) := by
  rw [joinFileNameForStorageCE] at hjoin ⊢
  by_cases hlong : fileNameMaxBuf < name.length
  · rw [if_pos hlong] at hjoin
    exact absurd rfl hjoin
  · rw [if_neg hlong] at hjoin ⊢
    have hfull : name.length = fileNameMaxBuf ↔ ¬ name.length < fileNameMaxBuf := by omega
    cases htoken : strtokR name '/' with
    | none =>
        rw [htoken] at hjoin
        simp only [hfull] at hjoin ⊢
        split_ifs at hjoin ⊢
        · exact absurd rfl hjoin
        · rfl
    | some tokens =>
        obtain ⟨idString, rest⟩ := tokens
        obtain ⟨rfl, rfl⟩ := strtokR_slash htoken
        rw [htoken] at hjoin
        simp only [hfull] at hjoin ⊢
        by_cases hshort : name.length < fileNameMaxBuf
        · simp only [hshort, not_true_eq_false, false_and, if_false] at hjoin ⊢
          cases hdir : joinStorageCeDir lib (ceUserId name) pathLen with
          | none => simp [hdir] at hjoin
          | some dir =>
              rw [hdir] at hjoin
              dsimp only at hjoin ⊢
              cases happend : lib.strncatS dir pathLen (ceBelowRoot name)
                  (ceBelowRoot name).length with
              | none => simp [happend, JoinResult.ofOption] at hjoin
              | some path =>
                  rw [hlib.append_eq hmax le_rfl happend, joinStorageCeDir_eq hlib hmax hdir,
                    List.append_assoc]
                  rfl
        · simp only [hshort, not_false_eq_true, true_and, if_true] at hjoin ⊢
          split_ifs at hjoin ⊢
          · cases hdir : joinStorageCeDir lib (ceUserId name) pathLen with
            | none => simp [hdir] at hjoin
            | some dir => rfl
          · rfl

theorem ceBelowRoot_no_up (h : ¬ ['.', '.', '/'] <:+: name) :
    ¬ ['.', '.', '/'] <:+: ceBelowRoot name := by
  have hsuffix : ceBelowRoot name <:+ name :=
    (List.drop_suffix _ _).trans ((List.dropWhile_suffix _).trans (List.dropWhile_suffix _))
  intro hsub
  exact h (hsub.trans hsuffix.isInfix)

/-- A path that `JoinFileName` produces lies strictly below the storage root exactly when the name
descends. -/
theorem joinFileName_below_iff (lib : Securec) (hlib : lib.JoinsWithinMax)
    (userId storageId : UInt32) (name : List Char) (pathLen : Nat)
    (hmax : pathLen ≤ Securec.maxLen)
    (hjoin : joinFileName lib userId storageId name pathLen ≠ .failed) :
    StoredBelowRoot storageId name (joinFileName lib userId storageId name pathLen) ↔
      NameDescends userId storageId name := by
  have hcheck : checkFileNameAndPath name = true := by
    by_contra hcheck
    apply hjoin
    rw [joinFileName, if_pos (by simpa using hcheck)]
  have hname := (checkFileNameAndPath_iff name).mp hcheck
  rw [NameDescends]
  by_cases hce : storageId = teeObjectStorageCe
  · have hvariant : joinFileName lib userId storageId name pathLen =
        joinFileNameForStorageCE lib name pathLen := by
      rw [joinFileName, if_neg (by simp [hcheck]), if_pos hce]
    rw [hvariant] at hjoin ⊢
    rw [joinFileNameForStorageCE_eq hlib hmax hjoin, if_pos hce]
    split_ifs with hfull
    · simp [StoredBelowRoot, hfull]
    · rw [StoredBelowRoot, if_pos hce, strictlyBelow_iff (ceBelowRoot_no_up hname)]
      simp [hfull]
  · rw [joinFileName_eq hlib hmax hce hjoin, if_neg hce, StoredBelowRoot, if_neg hce,
      strictlyBelow_iff (belowRoot_no_up hname)]

/-- An object of the default storage. -/
theorem joinFileName_object :
    StoredBelowRoot 1 "app/object".toList
      (joinFileName Securec.reference 0 1 "app/object".toList fileNameMaxBuf) := by
  exact (joinFileName_below_iff Securec.reference Securec.reference_joinsWithinMax 0 1
    "app/object".toList fileNameMaxBuf (by decide) (by decide +kernel)).mpr
      (show Descends (belowRoot 0 "app/object".toList) by decide +kernel)

/-- The name `..` passes the check and leads to the directory above the root. -/
theorem joinFileName_dotdot :
    joinFileName Securec.reference 0 1 "..".toList fileNameMaxBuf =
        .joined "/var/itrustee/sec_storage_data/..".toList ∧
      ¬ StoredBelowRoot 1 "..".toList (.joined "/var/itrustee/sec_storage_data/..".toList) := by
  refine ⟨by decide +kernel, ?_⟩
  rintro ⟨rest, _, hpath⟩
  have hlength := congrArg List.length hpath
  rw [List.length_append] at hlength
  have hup : (normalise "/var/itrustee/sec_storage_data/..".toList).length = 2 := by decide +kernel
  have hroot : (normalise storageRoot).length = 3 := by decide +kernel
  omega

end ITrustee.Teecd
