import Mathlib.Tactic
import ITrustee.Foundation.CString
import ITrustee.Foundation.DirectoryPaths
import ITrustee.Foundation.Securec

/-!
# Making a directory with its ancestors

`MkdirIteration` of `dir.c` on a file tree. It looks for the path, goes on with the text before the last
slash if there is nothing, and makes the directories on the way back. Where it comes to a text without a
slash, or before the slash that an absolute path starts with, and has found nothing, it gives up: the
working directory and the root are never looked at.
-/

namespace ITrustee.Common

def pathMax : Nat := 4096

def eOpNotSupp : Int32 := 95

section Model

variable (lib : Securec) (cwd : List (List Char))

/-- `MkdirIteration`, through at most so many calls of itself, with the tree it leaves. -/
def mkdirIteration : Nat → List Char → FileTree → Option (Int32 × FileTree)
  | 0, _, _ => none
  | fuel + 1, dir, t =>
      match t.lstat cwd dir with
      | some .dir => some (0, t)
      | some _ => some (-eOpNotSupp, t)
      | none =>
          match CString.strrchr dir '/' with
          | none => some (-1, t)
          | some subDir =>
              match lib.strncpyS pathMax dir subDir with
              | none => some (-1, t)
              | some tmpPath =>
                  match mkdirIteration fuel tmpPath t with
                  | none => none
                  | some (ret, t) =>
                      if ret ≠ 0 then some (ret, t)
                      else
                        match t.mkdir cwd dir with
                        | .made t => some (0, t)
                        | .eexist => some (0, t)
                        | .failed => some (-1, t)

end Model

/-! ### Specification -/

/-- The call returned 0, the directory and its ancestors are there, and nothing else was made. -/
structure MakesDirs (cwd : List (List Char)) (dir : List Char) (t : FileTree)
    (result : Int32 × FileTree) : Prop where
  ret : result.1 = 0
  there : ∀ p, FileTree.Ancestor p dir → result.2.lstat cwd p = some .dir
  kept : FileTree.Sub t result.2
  made : ∀ q, result.2.kind q ≠ t.kind q →
    ∃ p, FileTree.Ancestor p dir ∧ result.2.lookup false false cwd p = some q

section Proofs

variable {lib : Securec} {cwd : List (List Char)}

open FileTree

/-- How a call that returns 0 changes the tree. -/
structure Grown (cwd : List (List Char)) (dir : List Char) (t t' : FileTree) : Prop where
  dirs : t'.Dirs (startOf cwd dir) (LexPath.components dir)
  kept : Sub t t'
  made : ∀ q, t'.kind q ≠ t.kind q → ∃ p, Ancestor p dir ∧ place cwd p = q

theorem Grown.makesDirs {t t' : FileTree} {dir : List Char} (h : Grown cwd dir t t') :
    MakesDirs cwd dir t (0, t') where
  ret := rfl
  there p hp := h.dirs.lstat hp
  kept := h.kept
  made q hq := by
    obtain ⟨p, hp, rfl⟩ := h.made q hq
    exact ⟨p, hp, (h.dirs.ancestor hp).lookup hp.1⟩

/-- One level: what was made of the ancestors, with the directory itself. -/
theorem Grown.mkdir {t t' : FileTree} {parent name : List Char} (hparent : parent ≠ [])
    (hname : '/' ∉ name) (hclash : t.NoClash cwd (parent ++ '/' :: name))
    (h : Grown cwd parent t t') :
    (t'.mkdir cwd (parent ++ '/' :: name) = .eexist ∧ Grown cwd (parent ++ '/' :: name) t t') ∨
      ∃ t'', t'.mkdir cwd (parent ++ '/' :: name) = .made t'' ∧
        Grown cwd (parent ++ '/' :: name) t t'' := by
  have hpath : parent ++ '/' :: name ≠ [] := by simp
  have hsplit : LexPath.components (parent ++ '/' :: name) = LexPath.components parent ++ [name] := by
    rw [LexPath.components_append_slash, components_of_not_mem hname]
  have hparts : t'.Dirs (startOf cwd (parent ++ '/' :: name)) (LexPath.components parent) := by
    rw [startOf_append hparent]
    exact h.dirs
  have hmade : ∀ q, t'.kind q ≠ t.kind q →
      ∃ p, Ancestor p (parent ++ '/' :: name) ∧ place cwd p = q := by
    intro q hq
    obtain ⟨p, hp, hplace⟩ := h.made q hq
    exact ⟨p, hp.append name, hplace⟩
  have hlast : ∀ k, t'.kind (place cwd (parent ++ '/' :: name)) = some k → k = .dir := by
    intro k hk
    by_cases hsame : t'.kind (place cwd (parent ++ '/' :: name)) =
        t.kind (place cwd (parent ++ '/' :: name))
    · exact hclash _ ⟨hpath, Or.inl rfl⟩ k (hsame ▸ hk)
    · obtain ⟨p, hp, hplace⟩ := h.made _ hsame
      have hdir := h.dirs.ancestor hp (LexPath.components p) (List.prefix_refl _)
      rw [← place, hplace, hk] at hdir
      exact Option.some.inj hdir
  obtain ⟨hmkdir, hdirs⟩ | ⟨t'', hmkdir, hnone, hkind⟩ := mkdir_last hpath hsplit hparts hlast
  · exact Or.inl ⟨hmkdir, ⟨hdirs, h.kept, hmade⟩⟩
  · have hsub : Sub t' t'' := by
      intro q k hq
      rw [hkind, if_neg]
      · exact hq
      · rintro rfl
        rw [hnone] at hq
        cases hq
    refine Or.inr ⟨t'', hmkdir, ⟨?_, fun q k hq => hsub q k (h.kept q k hq), fun q hq => ?_⟩⟩
    · rw [hsplit]
      refine dirs_snoc.mpr ⟨hparts.mono hsub, ?_⟩
      rw [← hsplit, ← place, hkind, if_pos rfl]
    · by_cases hplace : q = place cwd (parent ++ '/' :: name)
      · exact ⟨_, ⟨hpath, Or.inl rfl⟩, hplace.symm⟩
      · rw [hkind, if_neg hplace] at hq
        exact hmade q hq

theorem lstat_nil (t : FileTree) : t.lstat cwd [] = none := rfl

/-- The text before the last slash, which the call copies. -/
theorem copies_parent (hlib : lib.JoinsWithinMax) {dir : List Char} {subDir : Nat}
    (hlength : dir.length < pathMax) (h : CString.strrchr dir '/' = some subDir) :
    ∃ parent name, dir = parent ++ '/' :: name ∧ '/' ∉ name ∧
      lib.strncpyS pathMax dir subDir = some parent := by
  obtain ⟨parent, name, rfl, rfl, hname⟩ := CString.strrchr_eq_some h
  refine ⟨parent, name, rfl, hname, ?_⟩
  rw [hlib.copies _ _ _ (by decide), List.take_left, if_pos]
  rw [List.length_append] at hlength
  omega

theorem mkdirIteration_grows (hlib : lib.JoinsWithinMax) {t : FileTree} {fuel : Nat}
    {dir : List Char} (hfuel : dir.length < fuel) (hlength : dir.length < pathMax)
    (hclash : t.NoClash cwd dir) (hfound : ∃ p, Ancestor p dir ∧ t.lstat cwd p ≠ none) :
    ∃ t', mkdirIteration lib cwd fuel dir t = some (0, t') ∧ Grown cwd dir t t' := by
  induction fuel generalizing dir with
  | zero => omega
  | succ fuel ih =>
      rw [mkdirIteration]
      cases hdir : t.lstat cwd dir with
      | some k =>
          have hdirs := hclash.dirs (by rw [hdir]; simp)
          have hne : dir ≠ [] := by
            rintro rfl
            cases hdir
          have hself := hdirs.lstat ⟨hne, Or.inl rfl⟩
          rw [hdir] at hself
          obtain rfl := Option.some.inj hself
          exact ⟨t, rfl, ⟨hdirs, fun _ _ h => h, fun q hq => absurd rfl hq⟩⟩
      | none =>
          dsimp only
          obtain ⟨p, hp, hthere⟩ := hfound
          cases hslash : CString.strrchr dir '/' with
          | none =>
              rw [hp.of_not_mem (CString.strrchr_eq_none.mp hslash)] at hthere
              exact absurd hdir hthere
          | some subDir =>
              obtain ⟨parent, name, rfl, hname, hcopy⟩ := copies_parent hlib hlength hslash
              have hup : Ancestor p parent := by
                obtain rfl | hup := hp.of_append hname
                · exact absurd hdir hthere
                · exact hup
              have hparent : parent ≠ [] := by
                rintro rfl
                exact absurd (hup.of_not_mem List.not_mem_nil) hup.1
              have hshorter : parent.length < (parent ++ '/' :: name).length := by simp
              obtain ⟨t', hrun, hgrown⟩ := ih (hshorter.trans_le (Nat.le_of_lt_succ hfuel))
                (hshorter.trans hlength) (fun p hp => hclash p (hp.append name)) ⟨p, hup, hthere⟩
              dsimp only
              rw [hcopy]
              dsimp only
              rw [hrun]
              dsimp only
              rw [if_neg (by decide)]
              obtain ⟨hmkdir, hall⟩ | ⟨t'', hmkdir, hall⟩ := hgrown.mkdir hparent hname hclash
              · rw [hmkdir]
                exact ⟨t', rfl, hall⟩
              · rw [hmkdir]
                exact ⟨t'', rfl, hall⟩

/-- With nothing on the way the call comes to a text without a slash. -/
theorem mkdirIteration_fails (hlib : lib.JoinsWithinMax) {t : FileTree} {fuel : Nat}
    {dir : List Char} (hfuel : dir.length < fuel) (hlength : dir.length < pathMax)
    (hnone : ∀ p, Ancestor p dir → t.lstat cwd p = none) :
    mkdirIteration lib cwd fuel dir t = some (-1, t) := by
  induction fuel generalizing dir with
  | zero => omega
  | succ fuel ih =>
      have hdir : t.lstat cwd dir = none := by
        by_cases hne : dir = []
        · rw [hne, lstat_nil]
        · exact hnone dir ⟨hne, Or.inl rfl⟩
      rw [mkdirIteration, hdir]
      dsimp only
      cases hslash : CString.strrchr dir '/' with
      | none => rfl
      | some subDir =>
          obtain ⟨parent, name, rfl, hname, hcopy⟩ := copies_parent hlib hlength hslash
          have hshorter : parent.length < (parent ++ '/' :: name).length := by simp
          have hrun := ih (hshorter.trans_le (Nat.le_of_lt_succ hfuel)) (hshorter.trans hlength)
            fun p hp => hnone p (hp.append name)
          dsimp only
          rw [hcopy]
          dsimp only
          rw [hrun]
          rfl

/-- `MkdirIteration` returns 0 and leaves a path of directories exactly when nothing but directories is in
its way and the path or a text before one of its slashes, other than the empty one, is there already. -/
theorem mkdirIteration_makesDirs_iff (hlib : lib.JoinsWithinMax) {t : FileTree} {fuel : Nat}
    {dir : List Char} (hfuel : dir.length < fuel) (hlength : dir.length < pathMax) :
    (∃ result, mkdirIteration lib cwd fuel dir t = some result ∧ MakesDirs cwd dir t result) ↔
      t.NoClash cwd dir ∧ ∃ p, Ancestor p dir ∧ t.lstat cwd p ≠ none := by
  constructor
  · rintro ⟨result, hrun, hmakes⟩
    constructor
    · intro p hp k hk
      have hne : dir ≠ [] := by
        rintro rfl
        exact hp.1 (hp.of_not_mem List.not_mem_nil)
      have hdirs := (dirs_of_lstat hne hmakes.there).ancestor hp (LexPath.components p)
        (List.prefix_refl _)
      rw [← place, hmakes.kept _ _ hk] at hdirs
      exact Option.some.inj hdirs
    · by_contra hnot
      push Not at hnot
      rw [mkdirIteration_fails hlib hfuel hlength hnot] at hrun
      obtain rfl := Option.some.inj hrun
      have hret : (-1 : Int32) = 0 := hmakes.ret
      exact absurd hret (by decide)
  · rintro ⟨hclash, hfound⟩
    obtain ⟨t', hrun, hgrown⟩ := mkdirIteration_grows hlib hfuel hlength hclash hfound
    exact ⟨(0, t'), hrun, hgrown.makesDirs⟩

theorem noClash_empty (cwd : List (List Char)) (dir : List Char) :
    FileTree.empty.NoClash cwd dir := by
  intro p _ k hk
  by_cases hroot : place cwd p = []
  · rw [hroot, kind, FileTree.empty.root] at hk
    exact (Option.some.inj hk).symm
  · rw [kind, FileTree.empty, AList.lookup_insert_ne hroot] at hk
    cases hk

theorem mkdirIteration_makesDirs_below : ∃ result,
    mkdirIteration Securec.reference [] 8 ['.', '/', 'a', '/', 'b'] FileTree.empty = some result ∧
      MakesDirs [] ['.', '/', 'a', '/', 'b'] FileTree.empty result :=
  (mkdirIteration_makesDirs_iff Securec.reference_joinsWithinMax (by decide) (by decide)).mpr
    ⟨noClash_empty _ _, ['.'], ⟨by decide, Or.inr ⟨['a', '/', 'b'], rfl⟩⟩, by decide⟩

/-- `/a` is not made although the root is there. -/
theorem mkdirIteration_makesDirs_not : FileTree.empty.NoClash [] ['/', 'a'] ∧
    (∃ t, FileTree.empty.mkdir [] ['/', 'a'] = .made t) ∧
      ¬ ∃ fuel result,
        mkdirIteration Securec.reference [] fuel ['/', 'a'] FileTree.empty = some result ∧
          MakesDirs [] ['/', 'a'] FileTree.empty result := by
  refine ⟨noClash_empty _ _, ⟨_, rfl⟩, ?_⟩
  rintro ⟨fuel, result, hrun, hmakes⟩
  match fuel with
  | 0 => cases hrun
  | 1 => cases hrun
  | fuel + 2 =>
      have hgivesUp : mkdirIteration Securec.reference [] (fuel + 2) ['/', 'a'] FileTree.empty =
          some (-1, FileTree.empty) := rfl
      rw [hgivesUp] at hrun
      obtain rfl := Option.some.inj hrun
      have hret : (-1 : Int32) = 0 := hmakes.ret
      exact absurd hret (by decide)

end Proofs

end ITrustee.Common
