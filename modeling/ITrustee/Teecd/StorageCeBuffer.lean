import Mathlib.Tactic
import ITrustee.Foundation.Strtok
import ITrustee.Teecd.DeletePaths

/-!
# The buffer of a CE name

`JoinFileNameForStorageCE` with the memory it works on: the buffer of `FILE_NAME_MAX_BUF` bytes with the
copy of the name, and the string that stands behind the buffer. The copy has no terminator of its own.
A shorter name is followed by the zeros the buffer was filled with, and is cut up as it should be. A
name that fills the buffer goes on into what stands behind it.
-/

namespace ITrustee.Teecd

open CString

/-! ### Model -/

/-- The memory from the buffer on, after `memcpy_s`. -/
def ceMemory (name behind : List Char) : List Char :=
  name ++ List.replicate (fileNameMaxBuf - name.length) '\x00' ++ (behind ++ ['\x00'])

structure CeJoin where
  path : Option (List Char)
  /-- How many bytes from the start of the buffer on the tokeniser looked at. -/
  tokeniserReads : Nat

def joinFileNameForStorageCEIn (lib : Securec) (name behind : List Char) : CeJoin :=
  if fileNameMaxBuf < name.length then ⟨none, 0⟩
  else
    let tokens := strtokMemory (ceMemory name behind) '/'
    let strings := tokens.token.map fun t => (stringAt tokens.memory t.1, stringAt tokens.memory t.2)
    let path := strings.bind fun (idString, nameWithoutUserId) => do
      let path ← joinStorageCeDir lib idString fileNameMaxBuf
      lib.strncatS path fileNameMaxBuf nameWithoutUserId nameWithoutUserId.length
    ⟨path, tokens.reads⟩

/-! ### Specification -/

/-- The first part of a name between its slashes that is not empty, and what follows its slash. -/
def CeParts (name id rest : List Char) : Prop :=
  id ≠ [] ∧ '/' ∉ id ∧ ∃ n,
    name = List.replicate n '/' ++ id ∧ rest = [] ∨ name = List.replicate n '/' ++ (id ++ '/' :: rest)

/-- The request fails or joins the parts of the name, and the tokeniser stays in the buffer. -/
def CeNameExact (lib : Securec) (name behind : List Char) : Prop :=
  ((joinFileNameForStorageCEIn lib name behind).path = none ∨
      ∃ id rest, CeParts name id rest ∧ (joinFileNameForStorageCEIn lib name behind).path =
        some (secStorageDataCe ++ id ++ secStorageDataRootDir ++ rest)) ∧
    (joinFileNameForStorageCEIn lib name behind).tokeniserReads ≤ fileNameMaxBuf

/-- What the code takes for part of a name that fills the buffer. -/
def overrun (behind : List Char) : List Char := behind.takeWhile (· != '\x00')

/-- If the name fills the buffer, then a slash ends its first part, and the path with what stands behind
the buffer is that without it or does not fit. -/
def CeNameEnds (name behind : List Char) : Prop :=
  name.length = fileNameMaxBuf →
    '/' ∈ name.dropWhile (· == '/') ∧
      (overrun behind = [] ∨ ¬Fits (cePath name ++ overrun behind))

instance (name behind : List Char) : Decidable (CeNameEnds name behind) := by
  unfold CeNameEnds
  infer_instance

/-! ### The parts of a name -/

section Parts

variable {c : Char} {lead token tail : List Char}

theorem ceUserId_token (hlead : ∀ d ∈ lead, d = '/') (hc : c ≠ '/') (htoken : '/' ∉ token)
    (htail : tail = [] ∨ ∃ rest, tail = '/' :: rest) :
    ceUserId (lead ++ (c :: token ++ tail)) = c :: token := by
  rw [ceUserId, (takeWhile_lead hlead hc tail).2, (cut_token hc htoken htail).1]

theorem ceBelowRoot_token (hlead : ∀ d ∈ lead, d = '/') (hc : c ≠ '/') (htoken : '/' ∉ token)
    (htail : tail = [] ∨ ∃ rest, tail = '/' :: rest) :
    ceBelowRoot (lead ++ (c :: token ++ tail)) = tail.drop 1 := by
  rw [ceBelowRoot, (takeWhile_lead hlead hc tail).2, (cut_token hc htoken htail).2]

end Parts

theorem ceParts_iff {name id rest : List Char} :
    CeParts name id rest ↔ ceUserId name ≠ [] ∧ id = ceUserId name ∧ rest = ceBelowRoot name := by
  constructor
  · rintro ⟨hid, hslash, n, hname⟩
    cases id with
    | nil => exact absurd rfl hid
    | cons c token =>
        rw [List.mem_cons, not_or] at hslash
        have hlead : ∀ d ∈ List.replicate n '/', d = '/' := fun d => List.eq_of_mem_replicate
        obtain ⟨hname, rfl⟩ | hname := hname
        · rw [← List.append_nil (c :: token)] at hname
          rw [hname, ceUserId_token hlead (Ne.symm hslash.1) hslash.2 (Or.inl rfl),
            ceBelowRoot_token hlead (Ne.symm hslash.1) hslash.2 (Or.inl rfl)]
          exact ⟨hid, rfl, rfl⟩
        · rw [hname, ceUserId_token hlead (Ne.symm hslash.1) hslash.2 (Or.inr ⟨rest, rfl⟩),
            ceBelowRoot_token hlead (Ne.symm hslash.1) hslash.2 (Or.inr ⟨rest, rfl⟩)]
          exact ⟨hid, rfl, rfl⟩
  · rintro ⟨hid, rfl, rfl⟩
    obtain hnone | ⟨lead, c, token, tail, rfl, hlead, hc, htoken, htail⟩ := token_cases name '/'
    · exact absurd (ceUserId_eq_nil.mpr hnone) hid
    · rw [ceUserId_token hlead hc htoken htail, ceBelowRoot_token hlead hc htoken htail]
      refine ⟨List.cons_ne_nil c token, fun hmem => ?_, lead.length, ?_⟩
      · obtain h | h := List.mem_cons.mp hmem
        · exact hc h.symm
        · exact htoken h
      · rw [← List.eq_replicate_of_mem hlead]
        obtain rfl | ⟨rest, rfl⟩ := htail
        · exact Or.inl ⟨by rw [List.append_nil], rfl⟩
        · exact Or.inr rfl

theorem cePath_eq (name : List Char) :
    cePath name = secStorageDataCe ++ ceUserId name ++ secStorageDataRootDir ++ ceBelowRoot name := by
  have hroot : secStorageDataRootDir = storageDirCe ++ ['/'] := by decide
  rw [cePath, storageRootCe, hroot]
  simp only [List.append_assoc, List.singleton_append]

/-! ### What the code joins -/

/-- The string that the code cuts up. -/
def ceString (name behind : List Char) : List Char :=
  if name.length < fileNameMaxBuf then name else name ++ overrun behind

theorem zero_not_mem_overrun (behind : List Char) : '\x00' ∉ overrun behind := by
  intro hmem
  simpa using List.mem_takeWhile_imp hmem

theorem zero_not_mem_ceString {name : List Char} (hname : '\x00' ∉ name) (behind : List Char) :
    '\x00' ∉ ceString name behind := by
  rw [ceString]
  split_ifs
  · exact hname
  · rw [List.mem_append, not_or]
    exact ⟨hname, zero_not_mem_overrun behind⟩

theorem ceMemory_eq (name behind : List Char) (hlong : ¬fileNameMaxBuf < name.length) :
    ∃ rest, ceMemory name behind = ceString name behind ++ '\x00' :: rest := by
  rw [ceMemory, ceString]
  split_ifs with hshort
  · have hzeros : List.replicate (fileNameMaxBuf - name.length) '\x00' =
        '\x00' :: List.replicate (fileNameMaxBuf - name.length - 1) '\x00' := by
      rw [← List.replicate_succ]
      congr 1
      omega
    refine ⟨List.replicate (fileNameMaxBuf - name.length - 1) '\x00' ++ (behind ++ ['\x00']), ?_⟩
    rw [hzeros]
    simp only [List.append_assoc, List.cons_append]
  · have hfull : fileNameMaxBuf - name.length = 0 := by omega
    rw [hfull, List.replicate_zero, List.append_nil, overrun]
    have hbehind := List.takeWhile_append_dropWhile (p := (· != '\x00')) (l := behind)
    cases hrest : behind.dropWhile (· != '\x00') with
    | nil =>
        rw [hrest, List.append_nil] at hbehind
        rw [hbehind]
        exact ⟨[], by rw [List.append_assoc]⟩
    | cons d rest =>
        have hd := List.head?_dropWhile_not (· != '\x00') behind
        rw [hrest] at hd
        obtain rfl : d = '\x00' := by simpa using hd
        rw [hrest] at hbehind
        refine ⟨rest ++ ['\x00'], ?_⟩
        rw [List.append_assoc, ← List.cons_append, ← List.append_assoc (List.takeWhile _ _), hbehind]

theorem joinFileNameForStorageCEIn_eq {lib : Securec} (hlib : lib.JoinsWithinMax)
    {name : List Char} (hname : '\x00' ∉ name) (behind : List Char)
    (hlong : ¬fileNameMaxBuf < name.length) :
    joinFileNameForStorageCEIn lib name behind =
      ⟨if ceUserId (ceString name behind) ≠ [] ∧ Fits (cePath (ceString name behind)) then
          some (cePath (ceString name behind)) else none,
        ((ceString name behind).takeWhile (· == '/')).length +
          (ceUserId (ceString name behind)).length + 1⟩ := by
  obtain ⟨rest, hmemory⟩ := ceMemory_eq name behind hlong
  obtain ⟨htokens, hreads⟩ := strtokMemory_spec '/' rest
    (zero_not_mem_ceString hname behind) (by decide)
  rw [← hmemory] at htokens hreads
  rw [joinFileNameForStorageCEIn, if_neg hlong]
  dsimp only
  rw [htokens, hreads, strtokR_ce]
  congr 1
  generalize ceString name behind = s
  by_cases hid : ceUserId s = []
  · rw [if_pos hid, if_neg fun h => h.1 hid]
    rfl
  · have hpath : storageRootCe (ceUserId s) ++ ['/'] ++ ceBelowRoot s = cePath s := by
      rw [cePath, List.append_assoc]
      rfl
    rw [if_neg hid, Option.bind_some]
    dsimp only
    rw [joinStorageCeDir_buf hlib]
    by_cases hdir : Fits (storageRootCe (ceUserId s) ++ ['/'])
    · rw [if_pos hdir, Option.bind_eq_bind, Option.bind_some, append_whole hlib _ le_rfl, hpath]
      simp only [ne_eq, hid, not_false_eq_true, true_and]
    · rw [if_neg hdir, if_neg fun h => not_fits_cePath hdir h.2]
      rfl

/-- The path that is joined, if one is, is the one of the parts of the name. -/
theorem joins_parts_iff {name path : List Char} (hid : ceUserId path ≠ []) :
    ((if ceUserId path ≠ [] ∧ Fits (cePath path) then some (cePath path) else none) = none ∨
      ∃ id rest, CeParts name id rest ∧
        (if ceUserId path ≠ [] ∧ Fits (cePath path) then some (cePath path) else none) =
          some (secStorageDataCe ++ id ++ secStorageDataRootDir ++ rest)) ↔
      (Fits (cePath path) → ceUserId name ≠ [] ∧ cePath path = cePath name) := by
  by_cases hfits : Fits (cePath path)
  · rw [if_pos ⟨hid, hfits⟩]
    constructor
    · rintro (h | ⟨id, rest, hparts, hpath⟩) -
      · cases h
      · obtain ⟨hname, rfl, rfl⟩ := ceParts_iff.mp hparts
        rw [cePath_eq name]
        exact ⟨hname, Option.some.inj hpath⟩
    · intro h
      obtain ⟨hname, hpath⟩ := h hfits
      refine Or.inr ⟨ceUserId name, ceBelowRoot name, ceParts_iff.mpr ⟨hname, rfl, rfl⟩, ?_⟩
      rw [hpath, cePath_eq name]
  · rw [if_neg fun h => hfits h.2]
    exact iff_of_true (Or.inl rfl) fun h => absurd h hfits

theorem reads_le (name : List Char) :
    (name.takeWhile (· == '/')).length + (ceUserId name).length ≤ name.length := by
  have hsplit := congrArg List.length
    (List.takeWhile_append_dropWhile (p := (· == '/')) (l := name))
  have hid := (List.takeWhile_sublist (l := name.dropWhile (· == '/')) (· != '/')).length_le
  rw [List.length_append] at hsplit
  rw [ceUserId]
  omega

/-! ### Names that fill the buffer -/

section Full

variable {name behind : List Char}

/-- The tokeniser leaves the buffer exactly when no slash ends the first part of the name. -/
theorem reads_full_iff (hfull : name.length = fileNameMaxBuf) (more : List Char) :
    ((name ++ more).takeWhile (· == '/')).length + (ceUserId (name ++ more)).length + 1 ≤
        fileNameMaxBuf ↔
      '/' ∈ name.dropWhile (· == '/') := by
  obtain hnone | ⟨lead, c, token, tail, rfl, hlead, hc, htoken, htail⟩ := token_cases name '/'
  · rw [hnone, List.takeWhile_append_of_pos (List.dropWhile_eq_nil_iff.mp hnone), List.length_append,
      hfull]
    exact iff_of_false (by omega) List.not_mem_nil
  · rw [(takeWhile_lead hlead hc tail).2]
    obtain rfl | ⟨rest, rfl⟩ := htail
    · have hstring : lead ++ (c :: token ++ []) ++ more = lead ++ (c :: token ++ more) := by
        simp only [List.append_assoc, List.nil_append]
      have hid : ceUserId (lead ++ (c :: token ++ more)) =
          c :: token ++ more.takeWhile (· != '/') := by
        rw [ceUserId, (takeWhile_lead hlead hc more).2,
          List.takeWhile_append_of_pos (takeWhile_token hc htoken)]
      rw [hstring, (takeWhile_lead hlead hc more).1, hid]
      simp only [List.length_append, List.length_cons, List.length_nil] at hfull ⊢
      refine iff_of_false (by omega) fun hmem => ?_
      rw [List.append_nil] at hmem
      obtain h | h := List.mem_cons.mp hmem
      · exact hc h.symm
      · exact htoken h
    · have hstring : lead ++ (c :: token ++ '/' :: rest) ++ more =
          lead ++ (c :: token ++ '/' :: (rest ++ more)) := by
        simp only [List.append_assoc, List.cons_append]
      rw [hstring, (takeWhile_lead hlead hc _).1,
        ceUserId_token hlead hc htoken (Or.inr ⟨rest ++ more, rfl⟩)]
      simp only [List.length_append, List.length_cons] at hfull ⊢
      exact iff_of_true (by omega) (by simp)

/-- What stands behind the buffer goes to the end of the path. -/
theorem cePath_append (hslash : '/' ∈ name.dropWhile (· == '/')) (more : List Char) :
    ceUserId name ≠ [] ∧ ceUserId (name ++ more) ≠ [] ∧
      cePath (name ++ more) = cePath name ++ more := by
  obtain hnone | ⟨lead, c, token, tail, rfl, hlead, hc, htoken, htail⟩ := token_cases name '/'
  · rw [hnone] at hslash
    exact absurd hslash List.not_mem_nil
  · rw [(takeWhile_lead hlead hc tail).2] at hslash
    obtain rfl | ⟨rest, rfl⟩ := htail
    · rw [List.append_nil] at hslash
      obtain h | h := List.mem_cons.mp hslash
      · exact absurd h.symm hc
      · exact absurd h htoken
    · have hstring : lead ++ (c :: token ++ '/' :: rest) ++ more =
          lead ++ (c :: token ++ '/' :: (rest ++ more)) := by
        simp only [List.append_assoc, List.cons_append]
      rw [hstring, cePath, cePath, ceUserId_token hlead hc htoken (Or.inr ⟨_, rfl⟩),
        ceUserId_token hlead hc htoken (Or.inr ⟨_, rfl⟩),
        ceBelowRoot_token hlead hc htoken (Or.inr ⟨_, rfl⟩),
        ceBelowRoot_token hlead hc htoken (Or.inr ⟨_, rfl⟩)]
      simp

end Full

/-- Without the memory the model leaves open only what a name does that fills the buffer. -/
theorem joinFileNameForStorageCE_in {lib : Securec} (hlib : lib.JoinsWithinMax) {name : List Char}
    (hname : '\x00' ∉ name) (behind : List Char) :
    name.length = fileNameMaxBuf ∧ joinFileNameForStorageCE lib name fileNameMaxBuf = .overread ∨
      joinFileNameForStorageCE lib name fileNameMaxBuf =
        .ofOption (joinFileNameForStorageCEIn lib name behind).path := by
  by_cases hrejects : CeRejects name
  · rw [(joinFileNameForStorageCE_failed_iff hlib name).mpr hrejects]
    refine Or.inr ?_
    by_cases hlong : fileNameMaxBuf < name.length
    · rw [joinFileNameForStorageCEIn, if_pos hlong]
      rfl
    · rw [joinFileNameForStorageCEIn_eq hlib hname behind hlong, ceString]
      by_cases hshort : name.length < fileNameMaxBuf
      · rw [if_pos hshort, if_neg]
        · rfl
        · rintro ⟨hid, hfits⟩
          exact (ceRejects_short hshort hid).mp hrejects hfits
      · obtain ⟨hslash, hdir⟩ := (ceRejects_full (by omega)).mp hrejects
        rw [if_neg hshort, (cePath_append hslash (overrun behind)).2.2, if_neg]
        · rfl
        · rintro ⟨-, hfits⟩
          refine not_fits_cePath hdir ?_
          rw [Fits, List.length_append] at hfits
          rw [Fits]
          omega
  · have hjoin := (joinFileNameForStorageCE_failed_iff hlib name).not.mpr hrejects
    rw [joinFileNameForStorageCE_eq hlib (by decide) hjoin]
    split_ifs with hfull
    · exact Or.inl ⟨hfull, rfl⟩
    · have hlong : ¬fileNameMaxBuf < name.length := fun h => hrejects (Or.inl h)
      have hshort : name.length < fileNameMaxBuf := by omega
      rw [joinFileNameForStorageCEIn_eq hlib hname behind hlong, ceString, if_pos hshort]
      have hid : ceUserId name ≠ [] := fun h => hrejects (Or.inr (Or.inl ⟨hshort, Or.inl h⟩))
      have hfits : Fits (cePath name) := not_not.mp ((ceRejects_short hshort hid).not.mp hrejects)
      rw [if_pos ⟨hid, hfits⟩]
      exact Or.inr rfl

/-- A CE name is joined as it should be, or refused, exactly when it does not run into what stands
behind its buffer. -/
theorem joinFileNameForStorageCE_exact_iff (lib : Securec) (hlib : lib.JoinsWithinMax)
    (name behind : List Char) (hname : '\x00' ∉ name) :
    CeNameExact lib name behind ↔ CeNameEnds name behind := by
  rw [CeNameExact, CeNameEnds]
  by_cases hlong : fileNameMaxBuf < name.length
  · rw [joinFileNameForStorageCEIn, if_pos hlong]
    exact iff_of_true ⟨Or.inl rfl, Nat.zero_le _⟩ fun h => absurd h hlong.ne'
  · rw [joinFileNameForStorageCEIn_eq hlib hname behind hlong, ceString]
    dsimp only
    by_cases hshort : name.length < fileNameMaxBuf
    · rw [if_pos hshort]
      have hreads := reads_le name
      refine iff_of_true ⟨?_, by omega⟩ fun h => absurd h hshort.ne
      by_cases hid : ceUserId name = []
      · exact Or.inl (if_neg fun h => h.1 hid)
      · exact (joins_parts_iff hid).mpr fun _ => ⟨hid, rfl⟩
    · have hfull : name.length = fileNameMaxBuf := by omega
      rw [if_neg hshort, reads_full_iff hfull, and_comm]
      simp only [hfull, true_implies]
      refine and_congr_right fun hslash => ?_
      obtain ⟨hid, hid', hpath⟩ := cePath_append hslash (overrun behind)
      rw [joins_parts_iff hid', hpath, List.append_right_eq_self]
      tauto

/-- A name with repeated slashes. -/
theorem joinFileNameForStorageCE_repeated_exact :
    CeNameExact Securec.reference "//10//app/object".toList [] :=
  (joinFileNameForStorageCE_exact_iff Securec.reference Securec.reference_joinsWithinMax
    "//10//app/object".toList [] (by decide +kernel)).mpr (by decide +kernel)

/-- A name of 256 characters without a slash, and a zero right behind the buffer. -/
theorem joinFileNameForStorageCE_full_outside :
    ¬CeNameExact Securec.reference (List.replicate 256 'a') [] := by
  intro hexact
  exact absurd hexact.2 (by decide +kernel)

end ITrustee.Teecd
