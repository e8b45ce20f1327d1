import Mathlib.Tactic
import ITrustee.TeeTeleport.ParseParam

/-!
# Packed arguments

`MakeArgs` of `run.c` joins the arguments of a run into one string. It counts a separator for each
argument, and every argument is appended with a space behind it; the space of the last one is then
overwritten. In between the string has all its spaces and a terminator, which the count does not include,
so a buffer that the count fills exactly is too small for `strcat_s`.
-/

namespace ITrustee.TeeTeleport

open CString

def maxArgvLength : Nat := 4096

def strnlen (s : List Char) (maxLen : Nat) : Nat := min s.length maxLen

section Model

variable (lib : Securec.Strings) (memsetS : List Char → Nat → Char → Nat → List Char)

/-- The lengths of the arguments with a separator each; `none` for an argument that is empty or too
long. -/
def argsSize : List (Option (List Char)) → UInt32 → Option UInt32
  | [], totalSize => some totalSize
  | none :: argv, totalSize => argsSize argv totalSize
  | some arg :: argv, totalSize =>
      let argvLen := UInt32.ofNat (strnlen arg maxArgvLength)
      if argvLen = 0 ∨ UInt32.ofNat maxArgvLength ≤ argvLen then none
      else argsSize argv (totalSize + (argvLen + 1))

/-- `strcat_s` on the string that a buffer begins with. -/
def strcat (xargs : List Char) (size : UInt32) (src : List Char) : Option (List Char) :=
  match lib.strcatS (stringAt xargs 0) size.toNat src with
  | none => none
  | some joined => some (joined ++ '\x00' :: xargs.drop (joined.length + 1))

def catArgs (size : UInt32) : List (Option (List Char)) → List Char → Option (List Char)
  | [], xargs => some xargs
  | none :: argv, xargs => catArgs size argv xargs
  | some arg :: argv, xargs =>
      match strcat lib xargs size arg with
      | none => none
      | some xargs =>
          match strcat lib xargs size [' '] with
          | none => none
          | some xargs => catArgs size argv xargs

/-- `MakeArgs`: the buffer and the size it reports; `none` for a result of -1, with which the caller does
not use either. -/
def makeArgs (argc : Int) (argv : List (Option (List Char))) (xargs : List Char) (size : UInt32) :
    Option (List Char × UInt32) :=
  -- the last element of argv is NULL
  let argv := argv.take (argc - 1).toNat
  match argsSize argv 0 with
  | none => none
  | some totalSize =>
      if size < totalSize ∨ totalSize = 0 then none
      else
        match catArgs lib size argv (memsetS xargs size.toNat '\x00' size.toNat) with
        | none => none
        | some xargs => some (xargs.set (totalSize - 1).toNat '\x00', totalSize)

end Model

/-! ### Sizes -/

/-- The arguments that there are. -/
def presentArgs (argv : List (Option (List Char))) : List (List Char) := argv.filterMap id

/-- Each argument with a separator behind it. -/
def separated (args : List (List Char)) : List Char := args.flatMap (· ++ [' '])

def packedSize (args : List (List Char)) : Nat := (args.map fun arg => arg.length + 1).sum

/-- An argument that is not empty, has no whitespace and is not too long. -/
def IsArgument (arg : List Char) : Prop :=
  arg ≠ [] ∧ arg.length < maxArgvLength ∧ (∀ c ∈ arg, isspace c = false) ∧ '\x00' ∉ arg

theorem length_separated (args : List (List Char)) : (separated args).length = packedSize args := by
  rw [separated, List.length_flatMap, packedSize]
  simp only [List.length_append, List.length_singleton]

theorem argsSize_eq {argv : List (Option (List Char))} (hargs : ∀ arg ∈ presentArgs argv, IsArgument arg)
    (totalSize : UInt32) :
    argsSize argv totalSize = some (totalSize + UInt32.ofNat (packedSize (presentArgs argv))) := by
  induction argv generalizing totalSize with
  | nil =>
      rw [argsSize]
      show _ = some (totalSize + 0)
      rw [UInt32.add_zero]
  | cons arg argv ih =>
      cases arg with
      | none => exact ih hargs totalSize
      | some arg =>
          obtain ⟨⟨hne, hshort, -, -⟩, hargs⟩ := List.forall_mem_cons.mp hargs
          have hpos := List.length_pos_of_ne_nil hne
          have hlen : strnlen arg maxArgvLength = arg.length := Nat.min_eq_left hshort.le
          have hfits : arg.length < UInt32.size := hshort.trans (by decide)
          have hlegal : ¬ (UInt32.ofNat arg.length = 0 ∨
              UInt32.ofNat maxArgvLength ≤ UInt32.ofNat arg.length) := by
            rw [← UInt32.toNat_inj, UInt32.le_iff_toNat_le, UInt32.toNat_ofNat_of_lt' hfits,
              UInt32.toNat_ofNat_of_lt' (by decide)]
            exact not_or.mpr ⟨Nat.ne_of_gt hpos, Nat.not_le.mpr hshort⟩
          rw [argsSize, hlen, if_neg hlegal, ih hargs]
          show some _ = some (totalSize + UInt32.ofNat (arg.length + 1 + packedSize (presentArgs argv)))
          rw [UInt32.ofNat_add, UInt32.ofNat_add, ← UInt32.add_assoc, UInt32.add_assoc]
          simp [UInt32.add_assoc]

/-! ### The joined string -/

theorem packedSize_eq_zero_iff (argv : List (Option (List Char))) :
    packedSize (presentArgs argv) = 0 ↔ presentArgs argv = [] := by
  cases presentArgs argv with
  | nil => exact iff_of_true rfl rfl
  | cons arg args =>
      refine iff_of_false (Nat.ne_of_gt ?_) (List.cons_ne_nil _ _)
      show 0 < arg.length + 1 + packedSize args
      omega

/-- The last separator is behind the arguments joined by spaces. -/
theorem separated_eq {args : List (List Char)} (hsome : args ≠ []) :
    separated args = [' '].intercalate args ++ [' '] := by
  induction args with
  | nil => exact absurd rfl hsome
  | cons arg args ih =>
      show arg ++ [' '] ++ separated args = _
      cases args with
      | nil =>
          rw [List.intercalate_singleton]
          exact List.append_nil _
      | cons next args =>
          rw [ih (List.cons_ne_nil _ _), List.intercalate_cons_cons]
          simp only [List.append_assoc]

theorem nul_notMem_joined {args : List (List Char)} (hargs : ∀ arg ∈ args, '\x00' ∉ arg) :
    '\x00' ∉ [' '].intercalate args := by
  induction args with
  | nil => exact List.not_mem_nil
  | cons arg args ih =>
      obtain ⟨harg, hargs⟩ := List.forall_mem_cons.mp hargs
      cases args with
      | nil => rwa [List.intercalate_singleton]
      | cons next args =>
          rw [List.intercalate_cons_cons, List.mem_append, List.mem_append]
          exact not_or.mpr ⟨not_or.mpr ⟨harg, by decide⟩, ih hargs⟩

section Join

variable {lib : Securec.Strings} {size : UInt32} {str rest : List Char}

theorem strcat_eq (hlib : lib.JoinsWhole) (hnul : '\x00' ∉ str) (src : List Char) :
    strcat lib (str ++ '\x00' :: rest) size src =
      if size.toNat ≤ Securec.maxLen ∧ (str ++ src).length < size.toNat then
        some (str ++ src ++ '\x00' :: rest.drop src.length)
      else none := by
  have hstr : stringAt (str ++ '\x00' :: rest) 0 = str := stringAt_append (a := []) rfl hnul
  rw [strcat, hstr, hlib.appends]
  split_ifs
  · dsimp only
    rw [List.length_append, Nat.add_assoc, ← List.drop_drop, List.drop_left, List.drop_succ_cons]
  · rfl

/-- Nothing is appended in a buffer larger than the library accepts. -/
theorem catArgs_too_large (hlib : lib.JoinsWhole) (hlarge : ¬ size.toNat ≤ Securec.maxLen)
    {argv : List (Option (List Char))} (hsome : presentArgs argv ≠ []) (xargs : List Char) :
    catArgs lib size argv xargs = none := by
  induction argv with
  | nil => exact absurd rfl hsome
  | cons arg argv ih =>
      cases arg with
      | none => exact ih hsome
      | some arg => rw [catArgs, strcat, hlib.appends, if_neg fun h => hlarge h.1]

theorem catArgs_eq (hlib : lib.JoinsWhole) (hsize : size.toNat ≤ Securec.maxLen)
    {argv : List (Option (List Char))} (hargs : ∀ arg ∈ presentArgs argv, '\x00' ∉ arg)
    (hnul : '\x00' ∉ str) (hroom : str.length < size.toNat) :
    catArgs lib size argv (str ++ '\x00' :: rest) =
      if (str ++ separated (presentArgs argv)).length < size.toNat then
        some (str ++ separated (presentArgs argv) ++
          '\x00' :: rest.drop (separated (presentArgs argv)).length)
      else none := by
  induction argv generalizing str rest with
  | nil =>
      show some _ = if (str ++ []).length < _ then some (str ++ [] ++ '\x00' :: rest) else none
      rw [List.append_nil, if_pos hroom]
  | cons arg argv ih =>
      cases arg with
      | none => exact ih hargs hnul hroom
      | some arg =>
          obtain ⟨harg, hargs⟩ := List.forall_mem_cons.mp hargs
          have hmore : separated (presentArgs (some arg :: argv)) =
              arg ++ [' '] ++ separated (presentArgs argv) := rfl
          rw [catArgs, strcat_eq hlib hnul, hmore]
          by_cases hfirst : (str ++ arg ++ [' ']).length < size.toNat
          · have hnul' : '\x00' ∉ str ++ arg ++ [' '] := by simp [hnul, harg]
            have hword : (str ++ arg).length < size.toNat := by
              rw [List.length_append, List.length_singleton] at hfirst
              omega
            have hnul'' : '\x00' ∉ str ++ arg := by simp [hnul, harg]
            rw [if_pos ⟨hsize, hword⟩]
            dsimp only
            rw [strcat_eq hlib hnul'', if_pos ⟨hsize, hfirst⟩]
            dsimp only
            rw [ih hargs hnul' hfirst, List.drop_drop, List.drop_drop]
            simp only [List.append_assoc, List.length_append]
          · have hall : ¬ (str ++ (arg ++ [' '] ++ separated (presentArgs argv))).length < size.toNat := by
              simp only [List.length_append] at hfirst ⊢
              omega
            rw [if_neg hall]
            by_cases hword : (str ++ arg).length < size.toNat
            · have hnul'' : '\x00' ∉ str ++ arg := by simp [hnul, harg]
              rw [if_pos ⟨hsize, hword⟩]
              dsimp only
              rw [strcat_eq hlib hnul'', if_neg fun h => hfirst h.2]
            · rw [if_neg fun h => hword h.2]

end Join

/-! ### The call -/

section Call

variable {lib : Securec.Strings} {memsetS : List Char → Nat → Char → Nat → List Char} {argc : Int}
  {argv : List (Option (List Char))}

theorem memset_cleared (hfills : Securec.Fills memsetS) (xargs : List Char) {size : UInt32}
    (hpos : 0 < size.toNat) (hmax : size.toNat ≤ Securec.maxLen) :
    ∃ rest, memsetS xargs size.toNat '\x00' size.toNat = '\x00' :: rest := by
  obtain ⟨n, hn⟩ := Nat.exists_eq_succ_of_ne_zero (Nat.ne_of_gt hpos)
  rw [hfills _ _ _ _ hpos hmax le_rfl, hn, List.replicate_succ]
  exact ⟨_, rfl⟩

/-- The last space is overwritten by the terminator. -/
theorem stringAt_overwritten {args : List (List Char)} (hargs : ∀ arg ∈ args, '\x00' ∉ arg)
    (hsome : args ≠ []) (rest : List Char) :
    stringAt ((separated args ++ rest).set (packedSize args - 1) '\x00') 0 = [' '].intercalate args := by
  have hlen : packedSize args - 1 = ([' '].intercalate args).length := by
    rw [← length_separated, separated_eq hsome, List.length_append]
    exact Nat.add_sub_cancel ..
  rw [hlen, separated_eq hsome, List.append_assoc, List.set_append_right _ _ le_rfl, Nat.sub_self]
  exact stringAt_append (a := []) rfl (nul_notMem_joined hargs)

/-- The call packs the arguments when their size is positive and below that of the buffer, which is not
larger than the library accepts. -/
theorem makeArgs_spec (hlib : lib.JoinsWhole) (hfills : Securec.Fills memsetS)
    (hargs : ∀ arg ∈ presentArgs (argv.take (argc - 1).toNat), IsArgument arg) (xargs : List Char)
    (size : UInt32) :
    if 0 < packedSize (presentArgs (argv.take (argc - 1).toNat)) ∧
        packedSize (presentArgs (argv.take (argc - 1).toNat)) < size.toNat ∧
          size.toNat ≤ Securec.maxLen then
      ∃ packed, makeArgs lib memsetS argc argv xargs size = some packed ∧
        packed.2.toNat = packedSize (presentArgs (argv.take (argc - 1).toNat)) ∧
          stringAt packed.1 0 = [' '].intercalate (presentArgs (argv.take (argc - 1).toNat))
    else makeArgs lib memsetS argc argv xargs size = none := by
  have hnul : ∀ arg ∈ presentArgs (argv.take (argc - 1).toNat), '\x00' ∉ arg :=
    fun arg harg => (hargs arg harg).2.2.2
  rw [makeArgs, argsSize_eq hargs, UInt32.zero_add]
  dsimp only
  generalize argv.take (argc - 1).toNat = argv at hargs hnul ⊢
  by_cases hzero : packedSize (presentArgs argv) = 0
  · have hnothing : UInt32.ofNat 0 = 0 := rfl
    rw [hzero, if_neg (by simp), if_pos (Or.inr hnothing)]
  have hsome := (packedSize_eq_zero_iff argv).not.mp hzero
  by_cases hlarge : size.toNat ≤ Securec.maxLen
  · by_cases hroom : packedSize (presentArgs argv) < size.toNat
    · have hsize : (UInt32.ofNat (packedSize (presentArgs argv))).toNat = packedSize (presentArgs argv) :=
        UInt32.toNat_ofNat_of_lt' (hroom.trans size.toNat_lt)
      have hchecked : ¬ (size < UInt32.ofNat (packedSize (presentArgs argv)) ∨
          UInt32.ofNat (packedSize (presentArgs argv)) = 0) := by
        rw [UInt32.lt_iff_toNat_lt, ← UInt32.toNat_inj, hsize]
        exact not_or.mpr ⟨Nat.not_lt.mpr hroom.le, hzero⟩
      obtain ⟨rest, hcleared⟩ := memset_cleared hfills xargs (Nat.zero_lt_of_lt hroom) hlarge
      have hjoined : catArgs lib size argv ([] ++ '\x00' :: rest) = _ :=
        catArgs_eq hlib hlarge hnul List.not_mem_nil (Nat.zero_lt_of_lt hroom)
      rw [List.nil_append, List.nil_append, length_separated, if_pos hroom] at hjoined
      rw [if_pos ⟨Nat.pos_of_ne_zero hzero, hroom, hlarge⟩, if_neg hchecked, hcleared, hjoined]
      refine ⟨_, rfl, hsize, ?_⟩
      have hlast : (UInt32.ofNat (packedSize (presentArgs argv)) - 1).toNat =
          packedSize (presentArgs argv) - 1 := by
        rw [UInt32.toNat_sub_of_le _ _ (UInt32.le_iff_toNat_le.mpr ?_), hsize]
        · exact rfl
        · rw [hsize]
          exact Nat.pos_of_ne_zero hzero
      dsimp only
      rw [hlast]
      exact stringAt_overwritten hnul hsome _
    · rw [if_neg fun h => hroom h.2.1]
      split_ifs with hchecked
      · rfl
      · have hpos : 0 < size.toNat := by
          by_contra hnone
          obtain rfl : size = 0 := UInt32.toNat_inj.mp (Nat.eq_zero_of_not_pos hnone)
          have hle := (not_or.mp hchecked).1
          have hne := (not_or.mp hchecked).2
          exact hne (UInt32.le_zero_iff.mp (UInt32.not_lt.mp hle))
        obtain ⟨rest, hcleared⟩ := memset_cleared hfills xargs hpos hlarge
        have hjoined : catArgs lib size argv ([] ++ '\x00' :: rest) = _ :=
          catArgs_eq hlib hlarge hnul List.not_mem_nil hpos
        rw [List.nil_append, List.nil_append, length_separated, if_neg hroom] at hjoined
        rw [hcleared, hjoined]
  · rw [if_neg fun h => hlarge h.2.2, catArgs_too_large hlib hlarge hsome]
    dsimp only
    rw [ite_self]

end Call

/-- The call packs the arguments if and only if they and a separator each fit the buffer; then it reports
their size, and the string splits into them. -/
def PacksArgs (lib : Securec.Strings) (memsetS : List Char → Nat → Char → Nat → List Char) (argc : Int)
    (argv : List (Option (List Char))) (xargs : List Char) (size : UInt32) : Prop :=
  ((∃ packed, makeArgs lib memsetS argc argv xargs size = some packed) ↔
      0 < packedSize (presentArgs (argv.take (argc - 1).toNat)) ∧
        packedSize (presentArgs (argv.take (argc - 1).toNat)) ≤ size.toNat) ∧
    ∀ packed, makeArgs lib memsetS argc argv xargs size = some packed →
      packed.2.toNat = packedSize (presentArgs (argv.take (argc - 1).toNat)) ∧
        (stringAt packed.1 0).splitOn ' ' = presentArgs (argv.take (argc - 1).toNat)

/-- `MakeArgs` packs the arguments as it should unless they and a separator each fill the buffer exactly,
or fit one that is larger than the library accepts. -/
theorem packsArgs_iff (lib : Securec.Strings) (hlib : lib.JoinsWhole)
    (memsetS : List Char → Nat → Char → Nat → List Char) (hfills : Securec.Fills memsetS) (argc : Int)
    (argv : List (Option (List Char))) (xargs : List Char) (size : UInt32)
    (hargs : ∀ arg ∈ presentArgs (argv.take (argc - 1).toNat), IsArgument arg) :
    PacksArgs lib memsetS argc argv xargs size ↔
      packedSize (presentArgs (argv.take (argc - 1).toNat)) = 0 ∨
        size.toNat < packedSize (presentArgs (argv.take (argc - 1).toNat)) ∨
          packedSize (presentArgs (argv.take (argc - 1).toNat)) < size.toNat ∧
            size.toNat ≤ Securec.maxLen := by
  have hspec := makeArgs_spec hlib hfills hargs xargs size
  rw [PacksArgs]
  by_cases hpacks : 0 < packedSize (presentArgs (argv.take (argc - 1).toNat)) ∧
      packedSize (presentArgs (argv.take (argc - 1).toNat)) < size.toNat ∧
        size.toNat ≤ Securec.maxLen
  · rw [if_pos hpacks] at hspec
    obtain ⟨packed, hmake, hsize, hstring⟩ := hspec
    refine iff_of_true ⟨iff_of_true ⟨packed, hmake⟩ ⟨hpacks.1, hpacks.2.1.le⟩, fun packed' hmake' => ?_⟩
      (Or.inr (Or.inr hpacks.2))
    rw [hmake] at hmake'
    obtain rfl := Option.some.inj hmake'
    refine ⟨hsize, ?_⟩
    rw [hstring]
    apply List.splitOn_intercalate
    · intro arg harg hspace
      exact absurd ((hargs arg harg).2.2.1 ' ' hspace) (by decide)
    · intro hnone
      rw [hnone] at hpacks
      exact Nat.lt_irrefl 0 hpacks.1
  · rw [if_neg hpacks] at hspec
    rw [hspec]
    constructor
    · intro h
      have hfits : ¬ (0 < packedSize (presentArgs (argv.take (argc - 1).toNat)) ∧
          packedSize (presentArgs (argv.take (argc - 1).toNat)) ≤ size.toNat) := fun hfits => by
        obtain ⟨packed, hmake⟩ := h.1.mpr hfits
        exact absurd hmake nofun
      omega
    · intro h
      refine ⟨iff_of_false nofun ?_, nofun⟩
      omega

/-- Two arguments with a NULL between them. -/
theorem packsArgs_two :
    PacksArgs Securec.Strings.reference Securec.fill 4 [some ['a'], none, some ['b', 'c'], none]
      ['x', 'y'] 6 :=
  (packsArgs_iff Securec.Strings.reference Securec.Strings.reference_joinsWhole Securec.fill
    Securec.fill_fills 4 [some ['a'], none, some ['b', 'c'], none] ['x', 'y'] 6
    (by simp [presentArgs, IsArgument, isspace, maxArgvLength])).mpr (by decide)

/-- An argument and its separator fill the buffer, and the call fails. -/
theorem packsArgs_full :
    ¬ PacksArgs Securec.Strings.reference Securec.fill 2 [some ['a'], none] [] 2 := by
  have hnone : makeArgs Securec.Strings.reference Securec.fill 2 [some ['a'], none] [] 2 = none := by
    decide
  intro hpacks
  rw [PacksArgs, hnone] at hpacks
  obtain ⟨packed, hmake⟩ := hpacks.1.mpr (by decide)
  exact absurd hmake nofun

end ITrustee.TeeTeleport
