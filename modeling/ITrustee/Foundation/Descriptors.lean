import Mathlib.Tactic

/-!
# Descriptor tables

The descriptor table of a process with the POSIX calls that change it. Each number in use refers to an
open file description; two numbers refer to the same one after `dup` or `dup2`. Descriptions are
numbered in the order in which they were opened, so that a new one is different from every description
that the table refers to. A call either fails with an error number or returns the changed table.
-/

/-- Numbers in use are not negative, and descriptions in use have been opened. -/
structure DescriptorTable where
  entry : Int32 → Option Nat
  opened : Nat
  /-- One more than the largest number the process may allocate. -/
  limit : Nat
  limit_le : limit ≤ 2 ^ 31
  entry_nonneg : ∀ fd file, entry fd = some file → 0 ≤ fd
  entry_lt : ∀ fd file, entry fd = some file → file < opened

namespace DescriptorTable

def eBadF : Int32 := 9

def eMFile : Int32 := 24

/-- No number is in use. -/
def empty (limit : Nat) (hlimit : limit ≤ 2 ^ 31) : DescriptorTable where
  entry _ := none
  opened := 0
  limit := limit
  limit_le := hlimit
  entry_nonneg := nofun
  entry_lt := nofun

/-- The table with `fd` referring to `file`. -/
def set (t : DescriptorTable) (fd : Int32) (file : Nat) (hfd : 0 ≤ fd) (hfile : file < t.opened) :
    DescriptorTable where
  entry := Function.update t.entry fd (some file)
  opened := t.opened
  limit := t.limit
  limit_le := t.limit_le
  entry_nonneg n other h := by
    by_cases hn : n = fd
    · rw [hn]
      exact hfd
    · rw [Function.update_of_ne hn] at h
      exact t.entry_nonneg n other h
  entry_lt n other h := by
    by_cases hn : n = fd
    · rw [hn, Function.update_self] at h
      rw [← Option.some.inj h]
      exact hfile
    · rw [Function.update_of_ne hn] at h
      exact t.entry_lt n other h

/-- The table with `fd` not in use. -/
def clear (t : DescriptorTable) (fd : Int32) : DescriptorTable where
  entry := Function.update t.entry fd none
  opened := t.opened
  limit := t.limit
  limit_le := t.limit_le
  entry_nonneg n file h := by
    by_cases hn : n = fd
    · rw [hn, Function.update_self] at h
      cases h
    · rw [Function.update_of_ne hn] at h
      exact t.entry_nonneg n file h
  entry_lt n file h := by
    by_cases hn : n = fd
    · rw [hn, Function.update_self] at h
      cases h
    · rw [Function.update_of_ne hn] at h
      exact t.entry_lt n file h

/-- One more description has been opened. -/
def openFile (t : DescriptorTable) : DescriptorTable where
  entry := t.entry
  opened := t.opened + 1
  limit := t.limit
  limit_le := t.limit_le
  entry_nonneg := t.entry_nonneg
  entry_lt fd file h := (t.entry_lt fd file h).trans (Nat.lt_succ_self _)

/-- The lowest number that is not in use. -/
def lowestFree (t : DescriptorTable) : Option Int32 :=
  ((List.range t.limit).map Int32.ofNat).find? fun fd => (t.entry fd).isNone

theorem lowestFree_some {t : DescriptorTable} {fd : Int32} (h : t.lowestFree = some fd) :
    0 ≤ fd ∧ fd.toInt < t.limit ∧ t.entry fd = none := by
  have hentry : t.entry fd = none := by simpa using List.find?_some h
  obtain ⟨n, hn, rfl⟩ := List.mem_map.mp (List.mem_of_find?_eq_some h)
  have hlimit := List.mem_range.mp hn
  have hint : (Int32.ofNat n).toInt = n := by
    apply Int32.toInt_ofNat_of_lt
    have hle := t.limit_le
    omega
  refine ⟨?_, ?_, hentry⟩
  · rw [Int32.le_iff_toInt_le, hint]
    exact Int.natCast_nonneg n
  · rw [hint]
    exact_mod_cast hlimit

/-! ### Calls -/

/-- A call that returns a new description: `open`, `socket`. -/
def install (t : DescriptorTable) : Except Int32 (Int32 × DescriptorTable) :=
  match h : t.lowestFree with
  | none => .error eMFile
  | some fd =>
      .ok (fd, t.openFile.set fd t.opened (lowestFree_some h).1 (Nat.lt_succ_self t.opened))

/-- `socketpair`: the two numbers of `sv`. -/
def socketpair (t : DescriptorTable) : Except Int32 (Int32 × Int32 × DescriptorTable) := do
  let (first, t) ← t.install
  let (second, t) ← t.install
  return (first, second, t)

def close (t : DescriptorTable) (fd : Int32) : Except Int32 DescriptorTable :=
  match t.entry fd with
  | none => .error eBadF
  | some _ => .ok (t.clear fd)

def dup (t : DescriptorTable) (fd : Int32) : Except Int32 (Int32 × DescriptorTable) :=
  match hfile : t.entry fd, hfree : t.lowestFree with
  | none, _ => .error eBadF
  | some _, none => .error eMFile
  | some file, some new =>
      .ok (new, t.set new file (lowestFree_some hfree).1 (t.entry_lt fd file hfile))

def dup2 (t : DescriptorTable) (oldfd newfd : Int32) : Except Int32 DescriptorTable :=
  match hfile : t.entry oldfd with
  | none => .error eBadF
  | some file =>
      if oldfd = newfd then .ok t
      else if h : 0 ≤ newfd ∧ newfd.toInt < t.limit then
        .ok (t.set newfd file h.1 (t.entry_lt oldfd file hfile))
      else .error eBadF

/-! ### What a call changes -/

section Effects

variable {t t' : DescriptorTable} {fd new : Int32}

@[simp] theorem set_entry (file : Nat) (hfd : 0 ≤ fd) (hfile : file < t.opened) (n : Int32) :
    (t.set fd file hfd hfile).entry n = if n = fd then some file else t.entry n :=
  Function.update_apply ..

@[simp] theorem clear_entry (n : Int32) :
    (t.clear fd).entry n = if n = fd then none else t.entry n :=
  Function.update_apply ..

theorem entry_ne_opened (n : Int32) : t.entry n ≠ some t.opened :=
  fun h => lt_irrefl _ (t.entry_lt n _ h)

/-- A new description gets a number that was not in use, and no other number refers to it. -/
theorem install_ok (h : t.install = .ok (new, t')) :
    0 ≤ new ∧ new.toInt < t.limit ∧ t.entry new = none ∧ t'.limit = t.limit ∧
      ∃ file, (∀ n, t.entry n ≠ some file) ∧
        ∀ n, t'.entry n = if n = new then some file else t.entry n := by
  rw [install] at h
  split at h
  · cases h
  · next fd hfree =>
      cases h
      obtain ⟨hfd, hlimit, hentry⟩ := lowestFree_some hfree
      exact ⟨hfd, hlimit, hentry, rfl, t.opened, entry_ne_opened, fun n => set_entry ..⟩

theorem close_ok (h : t.close fd = .ok t') : t' = t.clear fd := by
  rw [close] at h
  split at h
  · cases h
  · cases h
    rfl

/-- `dup` gives a number that was not in use to the description of `fd`. -/
theorem dup_ok (h : t.dup fd = .ok (new, t')) :
    0 ≤ new ∧ t.entry new = none ∧ t'.limit = t.limit ∧
      ∀ n, t'.entry n = if n = new then t.entry fd else t.entry n := by
  rw [dup] at h
  split at h
  · cases h
  · cases h
  · next file free hfile hfree =>
      cases h
      obtain ⟨hfd, -, hentry⟩ := lowestFree_some hfree
      refine ⟨hfd, hentry, rfl, fun n => ?_⟩
      simp only [set_entry, hfile]

/-- `dup2` changes the entry of `newfd` to that of `oldfd`, and no other. -/
theorem dup2_ok {oldfd newfd : Int32} (h : t.dup2 oldfd newfd = .ok t') :
    t'.limit = t.limit ∧ t.entry oldfd ≠ none ∧
      ∀ n, t'.entry n = if n = newfd then t.entry oldfd else t.entry n := by
  rw [dup2] at h
  split at h
  · cases h
  · next file hfile =>
      have hopen : t.entry oldfd ≠ none := by
        rw [hfile]
        exact Option.some_ne_none file
      split_ifs at h with hsame hrange
      · cases h
        refine ⟨rfl, hopen, fun n => ?_⟩
        by_cases hn : n = newfd
        · rw [if_pos hn, hn, hsame]
        · rw [if_neg hn]
      · cases h
        refine ⟨rfl, hopen, fun n => ?_⟩
        simp only [set_entry, hfile]

/-- `dup2` onto a number within the limit succeeds if `oldfd` is in use. -/
theorem dup2_isOk {oldfd newfd : Int32} (hold : t.entry oldfd ≠ none) (hnew : 0 ≤ newfd)
    (hlimit : newfd.toInt < t.limit) : ∃ t', t.dup2 oldfd newfd = .ok t' := by
  rw [dup2]
  split
  · next hnone => exact absurd hnone hold
  · split_ifs with hsame hrange
    · exact ⟨_, rfl⟩
    · exact ⟨_, rfl⟩
    · exact absurd ⟨hnew, hlimit⟩ hrange

end Effects

end DescriptorTable
