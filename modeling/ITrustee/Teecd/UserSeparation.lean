import Mathlib.Tactic
import ITrustee.Teecd.FsPathContainment

/-!
# Users keep apart in storage

A name of the transient partition is put below the storage root as it stands for user 0, and with its
prefix replaced by a directory of the user for any other. The two directories differ in the character
after `sec_storage_data`, and the decimal number of the user ends at the slash behind it, so the user
and the name can be read back from the path.
-/

namespace ITrustee.Teecd

/-- The first delimiter after two strings without it stands at the same place. -/
theorem append_delim_inj {delim : Char} {a a' rest rest' : List Char} (ha : delim ∉ a)
    (ha' : delim ∉ a') (h : a ++ delim :: rest = a' ++ delim :: rest') : a = a' ∧ rest = rest' := by
  induction a generalizing a' with
  | nil =>
      cases a' with
      | nil => exact ⟨rfl, (List.cons.inj h).2⟩
      | cons c a' =>
          obtain ⟨rfl, -⟩ := List.cons.inj h
          exact absurd List.mem_cons_self ha'
  | cons c a ih =>
      cases a' with
      | nil =>
          obtain ⟨rfl, -⟩ := List.cons.inj h
          exact absurd List.mem_cons_self ha
      | cons c' a' =>
          obtain ⟨rfl, htail⟩ := List.cons.inj h
          obtain ⟨rfl, hrest⟩ := ih (fun hmem => ha (List.mem_cons_of_mem c hmem))
            (fun hmem => ha' (List.mem_cons_of_mem c hmem)) htail
          exact ⟨rfl, hrest⟩

theorem slash_not_mem_toDigits (n : Nat) : '/' ∉ Nat.toDigits 10 n := by
  intro hmem
  have hdigit := Nat.isDigit_of_mem_toDigits (by decide) (by decide) hmem
  exact absurd hdigit (by decide)

theorem userId_of_toDigits {userId userId' : UInt32}
    (h : Nat.toDigits 10 userId.toNat = Nat.toDigits 10 userId'.toNat) : userId = userId' := by
  rw [← UInt32.toNat_inj, ← Nat.ofDigitChars_ten_toDigits (n := userId.toNat), h,
    Nat.ofDigitChars_ten_toDigits]

section Transient

variable {userId userId' : UInt32} {name name' : List Char}

theorem belowRoot_zero (hname : sfsPartitionTransient <+: name) : belowRoot 0 name = name := by
  rw [belowRoot, if_pos hname, if_neg (by decide)]

theorem belowRoot_user (huser : userId ≠ 0) (hname : sfsPartitionTransient <+: name) :
    belowRoot userId name = sfsPartitionUserSymlink ++
      (Nat.toDigits 10 userId.toNat ++ '/' :: name.drop sfsPartitionTransient.length) := by
  rw [belowRoot, if_pos hname, if_pos huser]
  simp only [List.append_assoc, List.singleton_append]

/-- The directory of the users is not in the transient partition. -/
theorem belowRoot_user_ne (huser : userId ≠ 0) (hname : sfsPartitionTransient <+: name)
    (hname' : sfsPartitionTransient <+: name') : belowRoot userId name ≠ name' := by
  rw [belowRoot_user huser hname]
  rintro rfl
  have hprefix := List.prefix_of_prefix_length_le hname'
    (List.prefix_append sfsPartitionUserSymlink _) (by decide)
  exact absurd hprefix (by decide)

/-- What stands below the root tells the user and the name. -/
theorem belowRoot_inj (hname : sfsPartitionTransient <+: name)
    (hname' : sfsPartitionTransient <+: name')
    (h : belowRoot userId name = belowRoot userId' name') : userId = userId' ∧ name = name' := by
  by_cases huser : userId = 0
  · rw [huser, belowRoot_zero hname] at h
    by_cases huser' : userId' = 0
    · rw [huser', belowRoot_zero hname'] at h
      exact ⟨huser.trans huser'.symm, h⟩
    · exact absurd h.symm (belowRoot_user_ne huser' hname' hname)
  · by_cases huser' : userId' = 0
    · rw [huser', belowRoot_zero hname'] at h
      exact absurd h (belowRoot_user_ne huser hname hname')
    · rw [belowRoot_user huser hname, belowRoot_user huser' hname'] at h
      obtain ⟨hdigits, hrest⟩ := append_delim_inj (slash_not_mem_toDigits _)
        (slash_not_mem_toDigits _) (List.append_cancel_left h)
      obtain ⟨rest, rfl⟩ := hname
      obtain ⟨rest', rfl⟩ := hname'
      rw [List.drop_left, List.drop_left] at hrest
      exact ⟨userId_of_toDigits hdigits, congrArg _ hrest⟩

end Transient

/-- Outside CE storage no two users, and no two names, share a path of the transient partition. -/
theorem joinFileName_transient_inj (lib : Securec) (hlib : lib.JoinsWithinMax)
    {userId userId' storageId storageId' : UInt32} {name name' path : List Char} {pathLen : Nat}
    (hmax : pathLen ≤ Securec.maxLen) (hce : storageId ≠ teeObjectStorageCe)
    (hce' : storageId' ≠ teeObjectStorageCe) (hname : sfsPartitionTransient <+: name)
    (hname' : sfsPartitionTransient <+: name')
    (hjoin : joinFileName lib userId storageId name pathLen = .joined path)
    (hjoin' : joinFileName lib userId' storageId' name' pathLen = .joined path) :
    userId = userId' ∧ name = name' := by
  have hpath := joinFileName_eq hlib hmax hce (by rw [hjoin]; exact nofun)
  have hpath' := joinFileName_eq hlib hmax hce' (by rw [hjoin']; exact nofun)
  rw [hjoin, JoinResult.joined.injEq] at hpath
  rw [hjoin', JoinResult.joined.injEq] at hpath'
  have hbelow := List.append_cancel_left (hpath.symm.trans hpath')
  exact belowRoot_inj hname hname' (List.cons.inj hbelow).2

def objectOfTen : List Char :=
  "/var/itrustee/sec_storage_data/sec_storage_data_users/10/app/object".toList

/-- User 10 reaches its object under one name. -/
theorem joinFileName_objectOfTen :
    joinFileName Securec.reference 10 1 "sec_storage_data/app/object".toList fileNameMaxBuf =
        .joined objectOfTen ∧
      (10 : UInt32) = 10 ∧
        "sec_storage_data/app/object".toList = "sec_storage_data/app/object".toList := by
  have hjoin : joinFileName Securec.reference 10 1 "sec_storage_data/app/object".toList
      fileNameMaxBuf = .joined objectOfTen := by
    decide +kernel
  exact ⟨hjoin, joinFileName_transient_inj Securec.reference Securec.reference_joinsWithinMax
    (by decide) (by decide) (by decide) (by decide +kernel) (by decide +kernel) hjoin hjoin⟩

end ITrustee.Teecd
