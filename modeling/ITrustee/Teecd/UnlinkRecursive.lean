import Mathlib.Tactic
import ITrustee.Foundation.FileTree
import ITrustee.Teecd.FsWorkAgent

/-!
# Recursive removal

`UnlinkRecursive` of `fs_work_agent.c` on a finite file tree. `UnlinkEnv` says of every system call, by its
number, whether it fails and with which `errno`, and in which order a directory is read. A call that
does not fail does what its name says, or fails all the same where the tree does not allow it. Only
`readdir` fails without telling: the code compares `errno` with 0 the wrong way round, so that a
directory it could not read to the end is taken for one that is empty by now, and `rmdir` decides.
-/

namespace ITrustee.Teecd

structure UnlinkEnv where
  cwd : List (List Char)
  fails : Nat → Bool
  errno : Nat → Nat
  order : Nat → List (List Char) → List (List Char)
  /-- Each entry of a directory is listed once. -/
  order_perm : ∀ n entries, (order n entries).Perm entries

structure UnlinkState where
  tree : FileTree
  calls : Nat := 0
  errno : Int := 0

section Model

variable (env : UnlinkEnv)

/-- A system call with the result it has if it does not fail. -/
def sysCall {α : Type} (s : UnlinkState) (result : Option α) : Option α × UnlinkState :=
  if env.fails s.calls ∨ result = none then
    (none, { s with calls := s.calls + 1, errno := env.errno s.calls })
  else (result, { s with calls := s.calls + 1 })

/-- `snprintf_s` with `%s/%s` into a buffer of `PATH_MAX` bytes. -/
def joinEntry (name d_name : List Char) : Option (List Char) :=
  if (name ++ '/' :: d_name).length ≤ pathMax - 1 then some (name ++ '/' :: d_name) else none

/-- The loop of `UnlinkRecursiveDir` over the entries still to be read, and whether it failed. -/
def unlinkEntries (unlinkRecursive : List Char → UnlinkState → Option (Int × UnlinkState))
    (name : List Char) : List (List Char) → UnlinkState → Option (Bool × UnlinkState)
  | [], s => some (false, (sysCall env s (some ())).2)
  | d_name :: entries, s =>
      match sysCall env s (some ()) with
      | (none, s) => some (false, s)
      | (some (), s) =>
          if d_name = ['.', '.'] ∨ d_name = ['.'] then
            unlinkEntries unlinkRecursive name entries s
          else
            match joinEntry name d_name with
            | none => some (true, s)
            | some dn =>
                match unlinkRecursive dn s with
                | none => none
                | some (ret, s) =>
                    if ret < 0 then some (true, s)
                    else unlinkEntries unlinkRecursive name entries { s with errno := 0 }

def unlinkRecursiveDir (unlinkRecursive : List Char → UnlinkState → Option (Int × UnlinkState))
    (name : List Char) (s : UnlinkState) : Option (Int × UnlinkState) :=
  match sysCall env s (s.tree.opendir env.cwd name) with
  | (none, s) => some (-1, s)
  | (some entries, s) =>
      match unlinkEntries env unlinkRecursive name (env.order s.calls entries) { s with errno := 0 } with
      | none => none
      | some (fail, s) =>
          if fail ∨ s.errno < 0 then
            some (-1, { (sysCall env s (some ())).2 with errno := s.errno })
          else
            match sysCall env s (some ()) with
            | (none, s) => some (-1, s)
            | (some (), s) =>
                match sysCall env s (s.tree.rmdir env.cwd name) with
                | (none, s) => some (-1, s)
                | (some tree, s) => some (0, { s with tree })

/-- `UnlinkRecursive`, through at most so many nested directories. -/
def unlinkRecursive : Nat → List Char → UnlinkState → Option (Int × UnlinkState)
  | 0, _, _ => none
  | fuel + 1, name, s =>
      match sysCall env s (s.tree.lstat env.cwd name) with
      | (none, s) => some (-1, s)
      | (some .dir, s) => unlinkRecursiveDir env (unlinkRecursive fuel) name s
      | (some _, s) =>
          match sysCall env s (s.tree.unlink env.cwd name) with
          | (none, s) => some (-1, s)
          | (some tree, s) => some (0, { s with tree })

end Model

/-! ### Specification -/

/-- What a removal that returned `ret` may have done to the tree: nodes are gone that are the named
object or stand below it, and after 0 all of them are. -/
structure Unlinked (cwd : List (List Char)) (name : List Char) (tree tree' : FileTree) (ret : Int) :
    Prop where
  frame : ∀ q, tree'.kind q = tree.kind q ∨
    ∃ loc, tree.lookup false false cwd name = some loc ∧ loc <+: q ∧ tree'.kind q = none
  gone : ret = 0 → ∃ loc, tree.lookup false false cwd name = some loc ∧
    ∀ q, loc <+: q → tree'.kind q = none

/-- Only nodes at or below a place are gone. -/
def RemovedBelow (loc : List (List Char)) (tree tree' : FileTree) : Prop :=
  ∀ q, tree'.kind q = tree.kind q ∨ loc <+: q ∧ tree'.kind q = none

theorem RemovedBelow.refl (loc : List (List Char)) (tree : FileTree) : RemovedBelow loc tree tree :=
  fun _ => Or.inl rfl

theorem RemovedBelow.trans {loc : List (List Char)} {tree tree' tree'' : FileTree}
    (h : RemovedBelow loc tree tree') (h' : RemovedBelow loc tree' tree'') :
    RemovedBelow loc tree tree'' := by
  intro q
  obtain heq' | hgone' := h' q
  · rw [heq']
    exact h q
  · exact Or.inr hgone'

theorem RemovedBelow.sub {loc : List (List Char)} {tree tree' : FileTree}
    (h : RemovedBelow loc tree tree') : FileTree.Sub tree' tree := by
  intro q k hk
  obtain heq | ⟨-, hnone⟩ := h q
  · rw [← heq]
    exact hk
  · rw [hnone] at hk
    cases hk

/-- What stays where it is, when nothing is removed. -/
theorem Unlinked.failed (cwd : List (List Char)) (name : List Char) (tree : FileTree) :
    Unlinked cwd name tree tree (-1) where
  frame _ := Or.inl rfl
  gone h := nomatch h

theorem Unlinked.of_below {cwd loc : List (List Char)} {name : List Char} {tree tree' : FileTree}
    {ret : Int} (hloc : tree.lookup false false cwd name = some loc)
    (hbelow : RemovedBelow loc tree tree')
    (hgone : ret = 0 → ∀ q, loc <+: q → tree'.kind q = none) : Unlinked cwd name tree tree' ret where
  frame q := (hbelow q).imp_right fun h => ⟨loc, hloc, h⟩
  gone h := ⟨loc, hloc, hgone h⟩

/-- The removal of the one node left. -/
theorem removedBelow_of_erased {tree tree' : FileTree} {loc : List (List Char)}
    (hkind : ∀ q, tree'.kind q = if q = loc then none else tree.kind q) :
    RemovedBelow loc tree tree' := by
  intro q
  rw [hkind]
  split_ifs with hq
  · exact Or.inr ⟨hq ▸ List.prefix_rfl, rfl⟩
  · exact Or.inl rfl

theorem gone_of_erased {tree tree' : FileTree} {loc q : List (List Char)}
    (hchildren : tree.children loc = []) (hq : loc <+: q)
    (hkind : ∀ q, tree'.kind q = if q = loc then none else tree.kind q) : tree'.kind q = none := by
  rw [hkind]
  split_ifs with hne
  · rfl
  · exact FileTree.kind_of_children_nil hchildren hq hne

/-! ### System calls -/

section Calls

variable {env : UnlinkEnv} {s s' : UnlinkState} {α : Type} {result : Option α}

theorem sysCall_tree (env : UnlinkEnv) (s : UnlinkState) (result : Option α) :
    (sysCall env s result).2.tree = s.tree := by
  rw [sysCall]
  split_ifs <;> rfl

theorem sysCall_none (h : sysCall env s result = (none, s')) : s'.tree = s.tree := by
  rw [← sysCall_tree env s result, h]

theorem sysCall_some {a : α} (h : sysCall env s result = (some a, s')) :
    result = some a ∧ s'.tree = s.tree := by
  refine ⟨?_, by rw [← sysCall_tree env s result, h]⟩
  rw [sysCall] at h
  split_ifs at h
  · cases (Prod.mk.inj h).1
  · exact (Prod.mk.inj h).1

end Calls

/-! ### The loop over a directory -/

section Recursion

variable {env : UnlinkEnv} {rec : List Char → UnlinkState → Option (Int × UnlinkState)}
  {name : List Char} {tree : FileTree} {loc : List (List Char)}

/-- A path in the directory leads to the entry, or nowhere since it is gone. -/
theorem lookup_entry (hloc : tree.lookup false false env.cwd name = some loc) {d_name : List Char}
    (hentry : d_name ∈ tree.children loc) {tree' : FileTree} (hsub : FileTree.Sub tree' tree)
    {loc' : List (List Char)}
    (h : tree'.lookup false false env.cwd (name ++ '/' :: d_name) = some loc') :
    loc' = loc ++ [d_name] := by
  have hchild := FileTree.lookup_child hloc (FileTree.mem_children.mp hentry)
  rw [FileTree.lookup_sub hsub h] at hchild
  exact Option.some.inj hchild

theorem unlinkEntries_below
    (hrec : ∀ dn s ret s', rec dn s = some (ret, s') → Unlinked env.cwd dn s.tree s'.tree ret)
    (hloc : tree.lookup false false env.cwd name = some loc) (entries : List (List Char))
    (hentries : ∀ d_name ∈ entries,
      d_name = ['.'] ∨ d_name = ['.', '.'] ∨ d_name ∈ tree.children loc)
    (s : UnlinkState) (hbelow : RemovedBelow loc tree s.tree) {fail : Bool} {s' : UnlinkState}
    (h : unlinkEntries env rec name entries s = some (fail, s')) :
    RemovedBelow loc tree s'.tree := by
  induction entries generalizing s with
  | nil =>
      obtain ⟨-, rfl⟩ := Prod.mk.inj (Option.some.inj h)
      rw [sysCall_tree]
      exact hbelow
  | cons d_name entries ih =>
      have hrest := fun d hd => hentries d (List.mem_cons_of_mem d_name hd)
      rw [unlinkEntries] at h
      split at h
      · next s₁ hcall =>
          obtain ⟨-, rfl⟩ := Prod.mk.inj (Option.some.inj h)
          rw [sysCall_none hcall]
          exact hbelow
      · next s₁ hcall =>
          have hbelow₁ : RemovedBelow loc tree s₁.tree := by
            rw [(sysCall_some hcall).2]
            exact hbelow
          split_ifs at h with hdots
          · exact ih hrest s₁ hbelow₁ h
          · rw [not_or] at hdots
            have hentry : d_name ∈ tree.children loc :=
              ((hentries d_name List.mem_cons_self).resolve_left hdots.2).resolve_left hdots.1
            split at h
            · obtain ⟨-, rfl⟩ := Prod.mk.inj (Option.some.inj h)
              exact hbelow₁
            · next dn hdn =>
                rw [joinEntry] at hdn
                split_ifs at hdn
                obtain rfl := Option.some.inj hdn
                split at h
                · cases h
                · next ret s₂ hcalled =>
                    have hstep : RemovedBelow loc s₁.tree s₂.tree := by
                      intro q
                      obtain heq | ⟨loc', hloc', hq, hnone⟩ := (hrec _ _ _ _ hcalled).frame q
                      · exact Or.inl heq
                      · rw [lookup_entry hloc hentry hbelow₁.sub hloc'] at hq
                        exact Or.inr ⟨(List.prefix_append loc _).trans hq, hnone⟩
                    have hbelow₂ := hbelow₁.trans hstep
                    split_ifs at h
                    · obtain ⟨-, rfl⟩ := Prod.mk.inj (Option.some.inj h)
                      exact hbelow₂
                    · exact ih hrest { s₂ with errno := 0 } hbelow₂ h

theorem unlinkRecursiveDir_unlinked
    (hrec : ∀ dn s ret s', rec dn s = some (ret, s') → Unlinked env.cwd dn s.tree s'.tree ret)
    {s s' : UnlinkState} {ret : Int} (hloc : s.tree.lookup false false env.cwd name = some loc)
    (hdir : s.tree.kind loc = some .dir)
    (h : unlinkRecursiveDir env rec name s = some (ret, s')) :
    Unlinked env.cwd name s.tree s'.tree ret := by
  rw [unlinkRecursiveDir] at h
  split at h
  · next s₁ hcall =>
      obtain ⟨rfl, rfl⟩ := Prod.mk.inj (Option.some.inj h)
      rw [sysCall_none hcall]
      exact Unlinked.failed env.cwd name s.tree
  · next entries s₁ hcall =>
      obtain ⟨hopendir, htree₁⟩ := sysCall_some hcall
      have hfollow := FileTree.lookup_follow (fun target => by rw [hdir]; exact nofun) hloc
      rw [FileTree.opendir, hfollow, Option.bind_some, if_pos hdir] at hopendir
      obtain rfl := Option.some.inj hopendir
      split at h
      · cases h
      · next fail s₂ hloop =>
          have hbelow : RemovedBelow loc s.tree s₂.tree := by
            refine unlinkEntries_below hrec hloc _ (fun d_name hd => ?_) _ ?_ hloop
            · rw [(env.order_perm _ _).mem_iff] at hd
              simpa only [List.mem_cons] using hd
            · change RemovedBelow loc s.tree s₁.tree
              rw [htree₁]
              exact RemovedBelow.refl loc s.tree
          have hstopped : Unlinked env.cwd name s.tree s₂.tree (-1) :=
            Unlinked.of_below hloc hbelow fun h => nomatch h
          split_ifs at h
          · obtain ⟨rfl, rfl⟩ := Prod.mk.inj (Option.some.inj h)
            change Unlinked env.cwd name s.tree (sysCall env s₂ (some ())).2.tree (-1)
            rw [sysCall_tree]
            exact hstopped
          · split at h
            · next s₃ hcall₃ =>
                obtain ⟨rfl, rfl⟩ := Prod.mk.inj (Option.some.inj h)
                rw [sysCall_none hcall₃]
                exact hstopped
            · next s₃ hcall₃ =>
                have htree₃ := (sysCall_some hcall₃).2
                split at h
                · next s₄ hcall₄ =>
                    obtain ⟨rfl, rfl⟩ := Prod.mk.inj (Option.some.inj h)
                    rw [sysCall_none hcall₄, htree₃]
                    exact hstopped
                · next tree s₄ hcall₄ =>
                    obtain ⟨rfl, rfl⟩ := Prod.mk.inj (Option.some.inj h)
                    obtain ⟨hrmdir, -⟩ := sysCall_some hcall₄
                    rw [htree₃] at hrmdir
                    obtain ⟨loc', hloc', hchildren, hkind⟩ := FileTree.rmdir_some hrmdir
                    obtain rfl : loc' = loc := by
                      rw [FileTree.lookup_sub hbelow.sub hloc'] at hloc
                      exact Option.some.inj hloc
                    exact Unlinked.of_below hloc (hbelow.trans (removedBelow_of_erased hkind))
                      fun _ q hq => gone_of_erased hchildren hq hkind

end Recursion

theorem unlinkRecursive_unlinked (env : UnlinkEnv) (fuel : Nat) (name : List Char)
    (s : UnlinkState) {ret : Int} {s' : UnlinkState}
    (h : unlinkRecursive env fuel name s = some (ret, s')) :
    Unlinked env.cwd name s.tree s'.tree ret := by
  induction fuel generalizing name s ret s' with
  | zero => cases h
  | succ fuel ih =>
      have hrec : ∀ dn s ret s', unlinkRecursive env fuel dn s = some (ret, s') →
          Unlinked env.cwd dn s.tree s'.tree ret := fun dn s ret s' h => ih dn s h
      rw [unlinkRecursive] at h
      split at h
      · next s₁ hcall =>
          obtain ⟨rfl, rfl⟩ := Prod.mk.inj (Option.some.inj h)
          rw [sysCall_none hcall]
          exact Unlinked.failed env.cwd name s.tree
      · next s₁ hcall =>
          obtain ⟨hlstat, htree⟩ := sysCall_some hcall
          obtain ⟨loc, hloc, hdir⟩ := Option.bind_eq_some_iff.mp hlstat
          rw [← htree] at hloc hdir ⊢
          exact unlinkRecursiveDir_unlinked hrec hloc hdir h
      · next k s₁ hne hcall =>
          have htree := (sysCall_some hcall).2
          split at h
          · next s₂ hcall₂ =>
              obtain ⟨rfl, rfl⟩ := Prod.mk.inj (Option.some.inj h)
              rw [sysCall_none hcall₂, htree]
              exact Unlinked.failed env.cwd name s.tree
          · next tree s₂ hcall₂ =>
              obtain ⟨rfl, rfl⟩ := Prod.mk.inj (Option.some.inj h)
              obtain ⟨hunlink, -⟩ := sysCall_some hcall₂
              rw [htree] at hunlink
              obtain ⟨loc, hloc, hchildren, hkind⟩ := FileTree.unlink_some hunlink
              exact Unlinked.of_below hloc (removedBelow_of_erased hkind)
                fun _ q hq => gone_of_erased hchildren hq hkind

/-! ### Termination -/

/-- A loop whose calls all return returns. -/
theorem unlinkEntries_isSome (env : UnlinkEnv)
    {rec : List Char → UnlinkState → Option (Int × UnlinkState)} {name : List Char}
    (hrec : ∀ d_name dn s, joinEntry name d_name = some dn → (rec dn s).isSome = true)
    (entries : List (List Char)) (s : UnlinkState) :
    (unlinkEntries env rec name entries s).isSome = true := by
  induction entries generalizing s with
  | nil => rfl
  | cons d_name entries ih =>
      rw [unlinkEntries]
      split
      · rfl
      · next s₁ hcall =>
          split_ifs
          · exact ih s₁
          · split
            · rfl
            · next dn hdn =>
                obtain ⟨⟨ret, s₂⟩, hcalled⟩ := Option.isSome_iff_exists.mp (hrec d_name dn s₁ hdn)
                rw [hcalled]
                dsimp only
                split_ifs
                · rfl
                · exact ih _

theorem unlinkRecursiveDir_isSome {env : UnlinkEnv}
    {rec : List Char → UnlinkState → Option (Int × UnlinkState)} {name : List Char}
    (hrec : ∀ d_name dn s, joinEntry name d_name = some dn → (rec dn s).isSome = true)
    (s : UnlinkState) : (unlinkRecursiveDir env rec name s).isSome = true := by
  rw [unlinkRecursiveDir]
  split
  · rfl
  · next entries s₁ hcall =>
      obtain ⟨⟨fail, s₂⟩, hloop⟩ := Option.isSome_iff_exists.mp
        (unlinkEntries_isSome env hrec (env.order s₁.calls entries) { s₁ with errno := 0 })
      rw [hloop]
      dsimp only
      split_ifs
      · rfl
      · split
        · rfl
        · split <;> rfl

/-- The paths grow and are bounded, so the recursion ends. -/
theorem unlinkRecursive_isSome (env : UnlinkEnv) (fuel : Nat) (name : List Char) (s : UnlinkState)
    (hpos : 0 < fuel) (hfuel : pathMax ≤ fuel + name.length) :
    (unlinkRecursive env fuel name s).isSome = true := by
  induction fuel generalizing name s with
  | zero => exact absurd hpos (lt_irrefl 0)
  | succ fuel ih =>
      have hrec : ∀ d_name dn s, joinEntry name d_name = some dn →
          (unlinkRecursive env fuel dn s).isSome = true := by
        intro d_name dn s hdn
        rw [joinEntry] at hdn
        split_ifs at hdn with hfits
        obtain rfl := Option.some.inj hdn
        rw [List.length_append, List.length_cons] at hfits
        have hmax : pathMax = 4096 := rfl
        refine ih _ s ?_ ?_
        · omega
        · rw [List.length_append, List.length_cons]
          omega
      rw [unlinkRecursive]
      split
      · rfl
      · exact unlinkRecursiveDir_isSome hrec _
      · split <;> rfl

/-- More fuel for the calls in a loop changes nothing. -/
theorem unlinkEntries_mono {env : UnlinkEnv}
    {rec rec' : List Char → UnlinkState → Option (Int × UnlinkState)} {name : List Char}
    (hrec : ∀ dn s result, rec dn s = some result → rec' dn s = some result)
    (entries : List (List Char)) (s : UnlinkState) {result : Bool × UnlinkState}
    (h : unlinkEntries env rec name entries s = some result) :
    unlinkEntries env rec' name entries s = some result := by
  induction entries generalizing s with
  | nil => exact h
  | cons d_name entries ih =>
      rw [unlinkEntries] at h ⊢
      split at h
      · exact h
      · next s₁ hcall =>
          split_ifs at h ⊢
          · exact ih s₁ h
          · split at h
            · exact h
            · next dn hdn =>
                split at h
                · cases h
                · next ret s₂ hcalled =>
                    rw [hrec dn s₁ _ hcalled]
                    dsimp only
                    split_ifs at h ⊢
                    · exact h
                    · exact ih _ h

theorem unlinkRecursiveDir_mono {env : UnlinkEnv}
    {rec rec' : List Char → UnlinkState → Option (Int × UnlinkState)} {name : List Char}
    (hrec : ∀ dn s result, rec dn s = some result → rec' dn s = some result)
    (s : UnlinkState) {result : Int × UnlinkState}
    (h : unlinkRecursiveDir env rec name s = some result) :
    unlinkRecursiveDir env rec' name s = some result := by
  rw [unlinkRecursiveDir] at h ⊢
  split at h
  · exact h
  · next entries s₁ hcall =>
      split at h
      · cases h
      · next fail s₂ hloop =>
          rw [unlinkEntries_mono hrec _ _ hloop]
          exact h

theorem unlinkRecursive_succ (env : UnlinkEnv) (fuel : Nat) (name : List Char) (s : UnlinkState)
    {result : Int × UnlinkState} (h : unlinkRecursive env fuel name s = some result) :
    unlinkRecursive env (fuel + 1) name s = some result := by
  induction fuel generalizing name s result with
  | zero => cases h
  | succ fuel ih =>
      rw [unlinkRecursive] at h ⊢
      split at h
      · exact h
      · exact unlinkRecursiveDir_mono (fun dn s _ h => ih dn s h) _ h
      · exact h

theorem unlinkRecursive_mono (env : UnlinkEnv) {fuel fuel' : Nat} (hle : fuel ≤ fuel')
    (name : List Char) (s : UnlinkState) {result : Int × UnlinkState}
    (h : unlinkRecursive env fuel name s = some result) :
    unlinkRecursive env fuel' name s = some result := by
  induction fuel', hle using Nat.le_induction with
  | base => exact h
  | succ fuel' _ ih => exact unlinkRecursive_succ env fuel' name s ih

/-- `UnlinkRecursive` returns, removes nothing outside what the name leads to, and all of that if it
returns 0. -/
theorem unlinkRecursive_removes (env : UnlinkEnv) (name : List Char) (s : UnlinkState) :
    ∃ ret s', (∀ fuel, pathMax ≤ fuel → unlinkRecursive env fuel name s = some (ret, s')) ∧
      Unlinked env.cwd name s.tree s'.tree ret := by
  obtain ⟨⟨ret, s'⟩, hreturns⟩ := Option.isSome_iff_exists.mp
    (unlinkRecursive_isSome env pathMax name s (by decide) (Nat.le_add_right _ _))
  exact ⟨ret, s', fun fuel hfuel => unlinkRecursive_mono env hfuel name s hreturns,
    unlinkRecursive_unlinked env pathMax name s hreturns⟩

/-- No call fails, and a directory is read in the order of the tree. -/
def UnlinkEnv.calm (cwd : List (List Char)) : UnlinkEnv where
  cwd := cwd
  fails _ := false
  errno _ := 0
  order _ entries := entries
  order_perm _ entries := List.Perm.refl entries

/-- A file `k`, and a directory `d` with a file, a directory and a link to `k`. -/
def linkedTree : FileTree :=
  let entries := [([], 'k', .file 0), ([], 'd', .dir), ([['d']], 'f', .file 1), ([['d']], 'e', .dir),
    ([['d'], ['e']], 'l', FileKind.link ['/', 'k'])]
  entries.foldl (fun t (loc, x, k) => (t.add loc [x] k).getD t) FileTree.empty

/-- The directory is removed with all that is in it, and the file stays. -/
theorem unlinkRecursive_removes_linked :
    ∃ s', (∀ fuel, pathMax ≤ fuel →
        unlinkRecursive (.calm []) fuel ['d'] { tree := linkedTree } = some (0, s')) ∧
      Unlinked [] ['d'] linkedTree s'.tree 0 ∧
      s'.tree.kind [['k']] = some (.file 0) ∧ s'.tree.children [] = [['k']] := by
  obtain ⟨ret, s', hreturns, hunlinked⟩ :=
    unlinkRecursive_removes (.calm []) ['d'] { tree := linkedTree }
  have hrun : (unlinkRecursive (.calm []) 3 ['d'] { tree := linkedTree }).map
      (fun r => (r.1, r.2.tree.kind [['k']], r.2.tree.children [])) =
        some (0, some (.file 0), [['k']]) := by decide +kernel
  obtain ⟨r, hr, hresult⟩ := Option.map_eq_some_iff.mp hrun
  have hpath := unlinkRecursive_mono (.calm []) (show 3 ≤ pathMax by decide) ['d'] _ hr
  rw [hreturns pathMax (Nat.le_refl _)] at hpath
  obtain rfl := Option.some.inj hpath
  simp only [Prod.mk.injEq] at hresult
  obtain ⟨rfl, hkind, hchildren⟩ := hresult
  exact ⟨s', hreturns, hunlinked, hkind, hchildren⟩

end ITrustee.Teecd
