import Mathlib.Tactic
import ITrustee.Teecd.FsPathContainment
import ITrustee.Teecd.FsWorkAgent

/-!
# The paths of the two delete requests

`RemoveWork` joins its path with `JoinFileName`, `DeleteAllWork` with `DoJoinFileName` only. So the
recursive request goes without the check of the name, without the storage of the user and without the
CE storage. The two resolve a name alike where none of these plays a part, or where both refuse it.
-/

namespace ITrustee.Teecd

open CString

section Requests

variable (lib : Securec)

/-- The path that `RemoveWork` unlinks. -/
def removeWorkPath (userId storageId : UInt32) (name : List Char) : JoinResult :=
  joinFileName lib userId storageId name fileNameMaxBuf

/-- The path that `DeleteAllWork` unlinks; it sets the user id and not the storage id. -/
def deleteAllWorkPath (path : List Char) : JoinResult :=
  .ofOption (doJoinFileName lib path fileNameMaxBuf)

end Requests

/-- `DeleteAllWork` resolves the string as `RemoveWork` does, or both reject it. -/
def SamePathRule (lib : Securec) (userId storageId : UInt32) (name : List Char) : Prop :=
  deleteAllWorkPath lib name = removeWorkPath lib userId storageId name

/-- Requests that resolve a name alike are answered alike when `UnlinkRecursive` returns the same. -/
theorem SamePathRule.answers {lib : Securec} {t : SecStorageType}
    (h : SamePathRule lib t.userId t.storageId t.args.name) (calls : Calls) (s : FsState) :
    (deleteAllWork lib calls s t).map Prod.snd = (removeWork lib calls s t).map Prod.snd := by
  have hjoined : joined lib calls (setCurrent s t) t.args.name =
      doJoinFileName lib t.args.name fileNameMaxBuf := by
    rw [SamePathRule, removeWorkPath, deleteAllWorkPath] at h
    rw [joined, setCurrent, ← h]
    cases doJoinFileName lib t.args.name fileNameMaxBuf with
    | none => rfl
    | some path => rfl
  rw [removeWork, pathWork, deleteAllWork]
  simp only [List.all_cons, List.all_nil, Bool.and_true, hjoined]
  cases doJoinFileName lib t.args.name fileNameMaxBuf with
  | none => rfl
  | some path =>
      simp only [Option.isSome_some, if_true]
      split_ifs
      · rfl
      · rfl

/-! ### Lengths -/

/-- The path that `DoJoinFileName` makes of a name. -/
def directPath (name : List Char) : List Char :=
  if sfsPartitionPersistent <+: name then rootDir ++ name else userDataDir ++ name

def cePath (name : List Char) : List Char :=
  storageRootCe (ceUserId name) ++ '/' :: ceBelowRoot name

def Fits (path : List Char) : Prop := path.length < fileNameMaxBuf

instance (path : List Char) : Decidable (Fits path) :=
  inferInstanceAs (Decidable (path.length < fileNameMaxBuf))

/-- `JoinFileNameForStorageCE` fails: the name is too long for the copy, has no user id, or its path
does not fit. A name that fills the copy fails when already the directory of the user does not fit. -/
def CeRejects (name : List Char) : Prop :=
  fileNameMaxBuf < name.length ∨
    name.length < fileNameMaxBuf ∧ (ceUserId name = [] ∨ ¬Fits (cePath name)) ∨
    name.length = fileNameMaxBuf ∧ '/' ∈ name.dropWhile (· == '/') ∧
      ¬Fits (storageRootCe (ceUserId name) ++ ['/'])

/-- The recursive request gets a path, and none of what it leaves out matters: the name is a valid one,
outside CE storage, and not one that a user has a directory of his own for. Or it gets none, and in CE
storage the other request refuses the name, too. -/
def RuleAgrees (userId storageId : UInt32) (name : List Char) : Prop :=
  if Fits (directPath name) then
    checkFileNameAndPath name = true ∧ storageId ≠ teeObjectStorageCe ∧
      (userId = 0 ∨ ¬sfsPartitionTransient <+: name)
  else storageId = teeObjectStorageCe → checkFileNameAndPath name = true → CeRejects name

instance (name : List Char) : Decidable (CeRejects name) := by
  unfold CeRejects
  infer_instance

instance (userId storageId : UInt32) (name : List Char) :
    Decidable (RuleAgrees userId storageId name) := by
  unfold RuleAgrees
  infer_instance

/-! ### What the functions return -/

section Joined

variable {lib : Securec} {userId storageId : UInt32} {name dir : List Char}

theorem copy_dir (hlib : lib.JoinsWithinMax) {src : List Char} (hsrc : Fits src) :
    lib.strncpyS fileNameMaxBuf src (src.length + 1) = some src := by
  rw [hlib.copies fileNameMaxBuf src (src.length + 1) (by decide),
    List.take_of_length_le (Nat.le_succ _)]
  exact if_pos hsrc

theorem append_whole (hlib : lib.JoinsWithinMax) (dir : List Char) {src : List Char} {count : Nat}
    (hcount : src.length ≤ count) :
    lib.strncatS dir fileNameMaxBuf src count =
      if Fits (dir ++ src) then some (dir ++ src) else none := by
  rw [hlib.appends dir fileNameMaxBuf src count (by decide), List.take_of_length_le hcount]
  rfl

theorem getTransientDir_buf (hlib : lib.JoinsWithinMax) :
    getTransientDir lib fileNameMaxBuf = some userDataDir := by
  rw [getTransientDir, getPathStorage, if_pos (by decide)]
  exact copy_dir hlib (by decide)

theorem getPersistentDir_buf (hlib : lib.JoinsWithinMax) :
    getPersistentDir lib fileNameMaxBuf = some rootDir := by
  rw [getPersistentDir, getPathStorage, if_neg (by decide), if_pos (by decide)]
  exact copy_dir hlib (by decide)

theorem getDefaultDir_buf (hlib : lib.JoinsWithinMax) :
    getDefaultDir lib fileNameMaxBuf = some userDataDir := by
  have hdir : rootDir ++ sfsPartitionPersistent = userDataDir := by decide
  rw [getDefaultDir, getPersistentDir_buf hlib, Option.bind_eq_bind, Option.bind_some,
    append_whole hlib rootDir le_rfl, hdir, if_pos (by decide)]

theorem not_persistent_of_transient (h : sfsPartitionTransient <+: name) :
    ¬sfsPartitionPersistent <+: name := by
  intro hpersistent
  have hprefix := List.prefix_of_prefix_length_le h hpersistent (by decide)
  exact absurd hprefix (by decide)

/-- Every branch of `DoJoinFileName` puts the name behind the directory that the path starts with. -/
theorem joinDir_buf (hlib : lib.JoinsWithinMax) (name : List Char) :
    joinDir lib name fileNameMaxBuf =
      some (if sfsPartitionPersistent <+: name then rootDir else userDataDir) := by
  simp only [joinDir, strstr_eq_zero]
  by_cases htransient : sfsPartitionTransientPerso <+: name ∨ sfsPartitionTransientPrivate <+: name
  · have hstart : sfsPartitionTransient <+: name := by
      obtain hperso | hprivate := htransient
      · exact (show sfsPartitionTransient <+: sfsPartitionTransientPerso by decide).trans hperso
      · exact (show sfsPartitionTransient <+: sfsPartitionTransientPrivate by decide).trans hprivate
    rw [if_pos htransient, if_neg (not_persistent_of_transient hstart), getTransientDir_buf hlib]
  · rw [if_neg htransient]
    by_cases hpersistent : sfsPartitionPersistent <+: name
    · rw [if_pos hpersistent, if_pos hpersistent, getPersistentDir_buf hlib]
    · rw [if_neg hpersistent, if_neg hpersistent, getDefaultDir_buf hlib]

theorem doJoinFileName_buf (hlib : lib.JoinsWithinMax) (name : List Char) :
    doJoinFileName lib name fileNameMaxBuf =
      if Fits (directPath name) then some (directPath name) else none := by
  rw [doJoinFileName, joinDir_buf hlib, Option.bind_eq_bind, Option.bind_some,
    append_whole hlib _ le_rfl, directPath]
  split_ifs <;> rfl

theorem deleteAllWorkPath_eq (hlib : lib.JoinsWithinMax) (name : List Char) :
    deleteAllWorkPath lib name =
      if Fits (directPath name) then .joined (directPath name) else .failed := by
  rw [deleteAllWorkPath, doJoinFileName_buf hlib]
  split_ifs <;> rfl

/-- `RemoveWork` outside CE storage, for a valid name. -/
theorem removeWorkPath_plain (hlib : lib.JoinsWithinMax) (hname : checkFileNameAndPath name = true)
    (hce : storageId ≠ teeObjectStorageCe) (hplain : userId = 0 ∨ ¬sfsPartitionTransient <+: name) :
    removeWorkPath lib userId storageId name = deleteAllWorkPath lib name := by
  rw [removeWorkPath, joinFileName, if_neg (by simp [hname]), if_neg hce, deleteAllWorkPath]
  by_cases htransient : sfsPartitionTransient <+: name
  · have huser : ¬userId ≠ 0 := fun h => hplain.elim h fun hnot => hnot htransient
    rw [if_pos (strstr_eq_zero.mpr htransient), joinFileNameTransient, getTransientDir_buf hlib,
      Option.bind_eq_bind, Option.bind_some, if_neg huser, append_whole hlib userDataDir le_rfl,
      doJoinFileName_buf hlib, directPath, if_neg (not_persistent_of_transient htransient)]
  · rw [if_neg (strstr_eq_zero.not.mpr htransient)]

theorem joinFileNameTransient_fits (hlib : lib.JoinsWithinMax) {path : List Char}
    (h : joinFileNameTransient lib userId name fileNameMaxBuf = some path) : Fits path := by
  rw [joinFileNameTransient, getTransientDir_buf hlib, Option.bind_eq_bind, Option.bind_some] at h
  by_cases huser : userId ≠ 0
  · rw [if_pos huser] at h
    obtain ⟨user, -, h⟩ := Option.bind_eq_some_iff.mp h
    obtain ⟨symlink, -, h⟩ := Option.bind_eq_some_iff.mp h
    obtain ⟨home, -, h⟩ := Option.bind_eq_some_iff.mp h
    split_ifs at h
    exact hlib.append_fits (by decide) h
  · rw [if_neg huser] at h
    exact hlib.append_fits (by decide) h

/-- `RemoveWork` for a name in the directory of a user: its path is another one, and longer. -/
theorem removeWorkPath_user (hlib : lib.JoinsWithinMax) (hname : checkFileNameAndPath name = true)
    (hce : storageId ≠ teeObjectStorageCe) (huser : userId ≠ 0)
    (htransient : sfsPartitionTransient <+: name) :
    removeWorkPath lib userId storageId name = .failed ∨
      ∃ path, removeWorkPath lib userId storageId name = .joined path ∧ path ≠ directPath name ∧
        Fits (directPath name) := by
  rw [removeWorkPath, joinFileName, if_neg (by simp [hname]), if_neg hce,
    if_pos (strstr_eq_zero.mpr htransient)]
  cases hjoined : joinFileNameTransient lib userId name fileNameMaxBuf with
  | none => exact Or.inl rfl
  | some path =>
      have hroot : storageRoot ++ ['/'] = userDataDir := by decide
      have hpath : path = userDataDir ++ (sfsPartitionUserSymlink ++
          (Nat.toDigits 10 userId.toNat ++ '/' :: name.drop sfsPartitionTransient.length)) := by
        rw [joinFileNameTransient_eq hlib (by decide) htransient hjoined, belowRoot,
          if_pos htransient, if_pos huser, ← hroot]
        simp only [List.append_assoc, List.cons_append, List.nil_append]
      have hdirect : directPath name = userDataDir ++ name :=
        if_neg (not_persistent_of_transient htransient)
      refine Or.inr ⟨path, rfl, ?_, ?_⟩
      · rw [hpath, hdirect]
        intro heq
        rw [← List.append_cancel_left heq] at htransient
        have hprefix := List.prefix_of_prefix_length_le htransient
          (List.prefix_append sfsPartitionUserSymlink _) (by decide)
        exact absurd hprefix (by decide)
      · have hfits := joinFileNameTransient_fits hlib hjoined
        have hsymlink : sfsPartitionTransient.length ≤ sfsPartitionUserSymlink.length := by decide
        rw [hpath, Fits] at hfits
        rw [hdirect, Fits]
        simp only [List.length_append, List.length_cons, List.length_drop] at hfits ⊢
        omega

/-! ### CE storage -/

theorem joinStorageCeDir_buf (hlib : lib.JoinsWithinMax) (id : List Char) :
    joinStorageCeDir lib id fileNameMaxBuf =
      if Fits (storageRootCe id ++ ['/']) then some (storageRootCe id ++ ['/']) else none := by
  have hroot : storageDirCe ++ ['/'] = secStorageDataRootDir := by decide
  have hhome : storageRootCe id ++ ['/'] = secStorageDataCe ++ id ++ secStorageDataRootDir := by
    rw [storageRootCe, List.append_assoc, hroot]
  rw [joinStorageCeDir, copy_dir hlib (by decide), Option.bind_eq_bind, Option.bind_some,
    append_whole hlib _ le_rfl, hhome]
  by_cases hid : Fits (secStorageDataCe ++ id)
  · rw [if_pos hid, Option.bind_some, append_whole hlib _ (Nat.le_succ _)]
  · rw [if_neg hid, if_neg]
    · rfl
    · rw [Fits] at hid ⊢
      rw [List.length_append]
      omega

theorem ceUserId_eq_nil : ceUserId name = [] ↔ name.dropWhile (· == '/') = [] := by
  rw [ceUserId]
  cases hrest : name.dropWhile (· == '/') with
  | nil => simp
  | cons c rest =>
      have hhead := List.head?_dropWhile_not (· == '/') name
      rw [hrest] at hhead
      simpa using hhead

theorem strtokR_ce (name : List Char) :
    strtokR name '/' =
      if ceUserId name = [] then none else some (ceUserId name, ceBelowRoot name) := by
  rw [strtokR]
  by_cases hnone : ceUserId name = []
  · rw [if_pos hnone, if_pos (ceUserId_eq_nil.mp hnone)]
  · rw [if_neg hnone, if_neg (ceUserId_eq_nil.not.mp hnone)]
    rfl

theorem ceRejects_short (hshort : name.length < fileNameMaxBuf) (hid : ceUserId name ≠ []) :
    CeRejects name ↔ ¬Fits (cePath name) := by
  rw [CeRejects]
  simp only [hid, hshort, hshort.ne, hshort.le, not_lt_of_ge, false_or, true_and, false_and,
    or_false]

theorem ceRejects_full (hfull : name.length = fileNameMaxBuf) :
    CeRejects name ↔ '/' ∈ name.dropWhile (· == '/') ∧
      ¬Fits (storageRootCe (ceUserId name) ++ ['/']) := by
  rw [CeRejects]
  simp only [hfull, lt_irrefl, false_or, false_and, true_and]

theorem not_fits_cePath (hdir : ¬Fits (storageRootCe (ceUserId name) ++ ['/'])) :
    ¬Fits (cePath name) := by
  rw [Fits, List.length_append] at hdir
  rw [Fits, cePath, List.length_append, List.length_cons]
  rw [List.length_singleton] at hdir
  omega

theorem joinFileNameForStorageCE_failed_iff (hlib : lib.JoinsWithinMax) (name : List Char) :
    joinFileNameForStorageCE lib name fileNameMaxBuf = .failed ↔ CeRejects name := by
  have hcePath : (storageRootCe (ceUserId name) ++ ['/']) ++ ceBelowRoot name = cePath name := by
    rw [cePath, List.append_assoc]
    rfl
  rw [joinFileNameForStorageCE, strtokR_ce]
  by_cases hlong : fileNameMaxBuf < name.length
  · rw [if_pos hlong]
    exact iff_of_true rfl (Or.inl hlong)
  · rw [if_neg hlong]
    by_cases hid : ceUserId name = []
    · rw [if_pos hid, CeRejects]
      by_cases hshort : name.length < fileNameMaxBuf
      · simp [hid, hshort]
      · simp [hid, hshort, ceUserId_eq_nil.mp hid, hlong]
    · rw [if_neg hid]
      dsimp only
      rw [joinStorageCeDir_buf hlib]
      by_cases hshort : name.length < fileNameMaxBuf
      · rw [if_neg fun h => h.1 hshort, ceRejects_short hshort hid]
        by_cases hfits : Fits (storageRootCe (ceUserId name) ++ ['/'])
        · rw [if_pos hfits]
          dsimp only
          rw [if_neg (not_not.mpr hshort), append_whole hlib _ le_rfl, hcePath]
          by_cases hpath : Fits (cePath name)
          · rw [if_pos hpath]
            exact iff_of_false JoinResult.noConfusion (not_not.mpr hpath)
          · rw [if_neg hpath]
            exact iff_of_true rfl hpath
        · rw [if_neg hfits]
          exact iff_of_true rfl (not_fits_cePath hfits)
      · rw [ceRejects_full (by omega)]
        by_cases hslash : '/' ∈ name.dropWhile (· == '/')
        · rw [if_neg fun h => h.2 hslash]
          by_cases hfits : Fits (storageRootCe (ceUserId name) ++ ['/'])
          · rw [if_pos hfits]
            dsimp only
            rw [if_pos hshort]
            exact iff_of_false JoinResult.noConfusion fun h => h.2 hfits
          · rw [if_neg hfits]
            exact iff_of_true rfl ⟨hslash, hfits⟩
        · rw [if_pos ⟨hshort, hslash⟩]
          exact iff_of_false JoinResult.noConfusion fun h => hslash h.1

theorem userDataDir_prefix_directPath (path : List Char) : userDataDir <+: directPath path := by
  rw [directPath]
  split_ifs with hpersistent
  · obtain ⟨rest, rfl⟩ := hpersistent
    have hdir : rootDir ++ sfsPartitionPersistent = userDataDir := by decide
    rw [← List.append_assoc, hdir]
    exact List.prefix_append userDataDir rest
  · exact List.prefix_append userDataDir path

theorem secStorageDataCe_prefix_cePath (name : List Char) : secStorageDataCe <+: cePath name := by
  rw [cePath, storageRootCe, List.append_assoc, List.append_assoc]
  exact List.prefix_append secStorageDataCe _

theorem directPath_ne_cePath (path name : List Char) : directPath path ≠ cePath name := by
  intro heq
  have hroot := userDataDir_prefix_directPath path
  rw [heq] at hroot
  have hboth := List.prefix_of_prefix_length_le (secStorageDataCe_prefix_cePath name) hroot (by decide)
  exact absurd hboth (by decide)

/-- A name that `RemoveWork` does not reject leads to CE storage. -/
theorem removeWorkPath_ce (hlib : lib.JoinsWithinMax) (userId : UInt32) (name path : List Char) :
    removeWorkPath lib userId teeObjectStorageCe name ≠ .joined (directPath path) := by
  rw [removeWorkPath, joinFileName, if_pos rfl]
  by_cases hname : (!checkFileNameAndPath name) = true
  · rw [if_pos hname]
    exact JoinResult.noConfusion
  · rw [if_neg hname]
    intro hjoined
    have hne : joinFileNameForStorageCE lib name fileNameMaxBuf ≠ .failed := by
      rw [hjoined]
      exact JoinResult.noConfusion
    rw [joinFileNameForStorageCE_eq hlib (by decide) hne] at hjoined
    split_ifs at hjoined
    exact directPath_ne_cePath path name (JoinResult.joined.inj hjoined).symm

end Joined

/-- The two requests follow one rule exactly where nothing that the recursive one leaves out matters. -/
theorem samePathRule_iff (lib : Securec) (hlib : lib.JoinsWithinMax) (userId storageId : UInt32)
    (name : List Char) :
    SamePathRule lib userId storageId name ↔ RuleAgrees userId storageId name := by
  rw [SamePathRule, RuleAgrees]
  cases hname : checkFileNameAndPath name with
  | false =>
      have hrejected : removeWorkPath lib userId storageId name = .failed := by
        rw [removeWorkPath, joinFileName, hname]
        rfl
      rw [hrejected, deleteAllWorkPath_eq hlib]
      split_ifs <;> simp
  | true =>
      by_cases hce : storageId = teeObjectStorageCe
      · have hremove : removeWorkPath lib userId storageId name =
            joinFileNameForStorageCE lib name fileNameMaxBuf := by
          rw [removeWorkPath, joinFileName, hname, if_pos hce]
          rfl
        have hother := removeWorkPath_ce hlib userId name name
        rw [← hce] at hother
        rw [deleteAllWorkPath_eq hlib]
        by_cases hfits : Fits (directPath name)
        · rw [if_pos hfits, if_pos hfits]
          exact iff_of_false (fun h => hother h.symm) fun h => h.2.1 hce
        · rw [if_neg hfits, if_neg hfits, hremove, eq_comm,
            joinFileNameForStorageCE_failed_iff hlib]
          simp [hce]
      · by_cases hplain : userId = 0 ∨ ¬sfsPartitionTransient <+: name
        · rw [removeWorkPath_plain hlib hname hce hplain]
          split_ifs <;> simp [hce, hplain]
        · obtain ⟨huser, htransient⟩ := not_or.mp hplain
          rw [deleteAllWorkPath_eq hlib]
          obtain hfailed | ⟨path, hjoined, hne, hfits⟩ :=
            removeWorkPath_user hlib hname hce huser (not_not.mp htransient)
          · rw [hfailed]
            split_ifs <;> simp [hce, hplain]
          · rw [hjoined, if_pos hfits, if_pos hfits]
            exact iff_of_false (fun h => hne (JoinResult.joined.inj h).symm) fun h => hplain h.2.2

theorem plainName_sameRule :
    SamePathRule .reference 5 1 "app/object".toList :=
  (samePathRule_iff .reference Securec.reference_joinsWithinMax 5 1 _).mpr
    (show RuleAgrees 5 1 "app/object".toList by decide +kernel)

/-- A name with `../` that the remove request rejects is deleted outside the storage, with all that
is below it. -/
theorem upName_differs :
    removeWorkPath .reference 5 1 "../../../data/app".toList = .failed ∧
      deleteAllWorkPath .reference "../../../data/app".toList =
        .joined "/var/itrustee/sec_storage_data/../../../data/app".toList ∧
      ¬ SamePathRule .reference 5 1 "../../../data/app".toList := by
  have hremove : removeWorkPath .reference 5 1 "../../../data/app".toList = .failed := by
    decide +kernel
  have hdelete : deleteAllWorkPath .reference "../../../data/app".toList =
      .joined "/var/itrustee/sec_storage_data/../../../data/app".toList := by decide +kernel
  refine ⟨hremove, hdelete, fun hsame => ?_⟩
  rw [SamePathRule, hremove, hdelete] at hsame
  cases hsame

end ITrustee.Teecd
