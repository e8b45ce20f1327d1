import Mathlib.Tactic
import Mathlib.Data.List.AList
import Mathlib.Data.List.DropRight
import ITrustee.Foundation.LexPath

/-!
# File trees

A finite tree of directories, files and symbolic links. A place in the tree is the list of the names
that lead to it from the root, and every place but the root has a directory above it. A path is resolved
name by name: `..` leads up, a symbolic link is replaced by its target, and the last component may be
looked at without following it. Taking nodes away never leads a path anywhere else: it still leads where
it did, or nowhere.
-/

inductive FileKind where
  | dir
  | file (inode : Nat)
  | link (target : List Char)
  deriving DecidableEq

/-- Names are no path components with a meaning of their own and have no slash. -/
structure FileTree where
  nodes : AList fun _ : List (List Char) => FileKind
  root : nodes.lookup [] = some .dir
  parent : ∀ loc x, nodes.lookup (loc ++ [x]) ≠ none → nodes.lookup loc = some .dir
  proper : ∀ loc x, nodes.lookup (loc ++ [x]) ≠ none → LexPath.isProper x = true ∧ '/' ∉ x

namespace FileTree

open LexPath

def kind (t : FileTree) (loc : List (List Char)) : Option FileKind := t.nodes.lookup loc

/-- The names in a directory. -/
def children (t : FileTree) (loc : List (List Char)) : List (List Char) :=
  t.nodes.keys.filterMap fun key => if key.dropLast = loc then key.getLast? else none

theorem mem_children {t : FileTree} {loc : List (List Char)} {x : List Char} :
    x ∈ t.children loc ↔ t.kind (loc ++ [x]) ≠ none := by
  rw [children, List.mem_filterMap]
  constructor
  · rintro ⟨key, hkey, hx⟩
    split_ifs at hx with hloc
    have hsplit := List.dropLast_append_getLast? x (Option.mem_def.mpr hx)
    rw [hloc] at hsplit
    rw [hsplit, kind]
    exact fun hnone => AList.lookup_eq_none.mp hnone hkey
  · intro hkind
    refine ⟨loc ++ [x], ?_, ?_⟩
    · by_contra hnot
      exact hkind (AList.lookup_eq_none.mpr hnot)
    · rw [List.dropLast_concat, if_pos rfl, List.getLast?_concat]

/-! ### Erasing -/

/-- Takes away a node without children; the root stays. -/
def erase (t : FileTree) (loc : List (List Char)) : Option FileTree :=
  if h : loc ≠ [] ∧ t.children loc = [] then
    some
      { nodes := t.nodes.erase loc
        root := by rw [AList.lookup_erase_ne (Ne.symm h.1)]; exact t.root
        parent := by
          intro q x hq
          by_cases hqx : q ++ [x] = loc
          · rw [hqx, AList.lookup_erase] at hq
            exact absurd rfl hq
          · rw [AList.lookup_erase_ne hqx] at hq
            by_cases hql : q = loc
            · have hmem := mem_children.mpr (hql ▸ hq)
              rw [h.2] at hmem
              exact absurd hmem List.not_mem_nil
            · rw [AList.lookup_erase_ne hql]
              exact t.parent q x hq
        proper := by
          intro q x hq
          by_cases hqx : q ++ [x] = loc
          · rw [hqx, AList.lookup_erase] at hq
            exact absurd rfl hq
          · rw [AList.lookup_erase_ne hqx] at hq
            exact t.proper q x hq }
  else none

theorem erase_some {t t' : FileTree} {loc : List (List Char)} (h : t.erase loc = some t') :
    t.children loc = [] ∧ ∀ q, t'.kind q = if q = loc then none else t.kind q := by
  rw [erase] at h
  split_ifs at h with hloc
  obtain rfl := Option.some.inj h
  refine ⟨hloc.2, fun q => ?_⟩
  change (t.nodes.erase loc).lookup q = _
  split_ifs with hq
  · rw [hq, AList.lookup_erase]
  · exact AList.lookup_erase_ne hq

/-- Every place above a node is a directory. -/
theorem kind_of_above {t : FileTree} {loc : List (List Char)} {q : List (List Char)}
    (hq : t.kind (loc ++ q) ≠ none) (hne : q ≠ []) : t.kind loc = some .dir := by
  induction q using List.reverseRecOn with
  | nil => exact absurd rfl hne
  | append_singleton q x ih =>
      rw [← List.append_assoc] at hq
      have hparent : t.kind (loc ++ q) = some .dir := t.parent _ x hq
      cases q with
      | nil =>
          rw [List.append_nil] at hparent
          exact hparent
      | cons y q => exact ih (by rw [hparent]; exact nofun) (List.cons_ne_nil y q)

/-- Nothing stands below a place without children. -/
theorem kind_of_children_nil {t : FileTree} {loc q : List (List Char)} (h : t.children loc = [])
    (hq : loc <+: q) (hne : q ≠ loc) : t.kind q = none := by
  obtain ⟨rest, rfl⟩ := hq
  cases rest with
  | nil => exact absurd (List.append_nil loc) hne
  | cons x rest =>
      by_contra hnot
      have hchild : t.kind (loc ++ [x]) ≠ none := by
        cases rest with
        | nil => exact hnot
        | cons y rest =>
            have hassoc : loc ++ x :: y :: rest = (loc ++ [x]) ++ (y :: rest) := by simp
            rw [hassoc] at hnot
            rw [kind_of_above hnot (List.cons_ne_nil y rest)]
            exact nofun
      have hmem := mem_children.mpr hchild
      rw [h] at hmem
      exact List.not_mem_nil hmem

/-! ### Adding -/

/-- The root alone. -/
def empty : FileTree where
  nodes := (∅ : AList fun _ : List (List Char) => FileKind).insert [] .dir
  root := AList.lookup_insert _
  parent loc x h := by
    rw [AList.lookup_insert_ne (by simp)] at h
    exact absurd rfl h
  proper loc x h := by
    rw [AList.lookup_insert_ne (by simp)] at h
    exact absurd rfl h

/-- A new node in a directory. -/
def add (t : FileTree) (loc : List (List Char)) (x : List Char) (k : FileKind) : Option FileTree :=
  if h : t.kind loc = some .dir ∧ t.kind (loc ++ [x]) = none ∧ isProper x = true ∧ '/' ∉ x then
    some
      { nodes := t.nodes.insert (loc ++ [x]) k
        root := by rw [AList.lookup_insert_ne (by simp)]; exact t.root
        parent := by
          intro q y hq
          have hparent : t.kind q = some .dir := by
            by_cases hqy : q ++ [y] = loc ++ [x]
            · rw [(List.append_inj' hqy rfl).1]
              exact h.1
            · rw [AList.lookup_insert_ne hqy] at hq
              exact t.parent q y hq
          have hne : q ≠ loc ++ [x] := by
            rintro rfl
            rw [h.2.1] at hparent
            cases hparent
          rw [AList.lookup_insert_ne hne]
          exact hparent
        proper := by
          intro q y hq
          by_cases hqy : q ++ [y] = loc ++ [x]
          · rw [List.singleton_inj.mp (List.append_inj' hqy rfl).2]
            exact h.2.2
          · rw [AList.lookup_insert_ne hqy] at hq
            exact t.proper q y hq }
  else none

theorem add_some {t t' : FileTree} {loc : List (List Char)} {x : List Char} {k : FileKind}
    (h : t.add loc x k = some t') :
    t.kind (loc ++ [x]) = none ∧ ∀ q, t'.kind q = if q = loc ++ [x] then some k else t.kind q := by
  rw [add] at h
  split_ifs at h with hnew
  obtain rfl := Option.some.inj h
  refine ⟨hnew.2.1, fun q => ?_⟩
  change (t.nodes.insert (loc ++ [x]) k).lookup q = _
  split_ifs with hq
  · rw [hq, AList.lookup_insert]
  · exact AList.lookup_insert_ne hq

/-! ### Paths -/

section Paths

variable (t : FileTree) (follow create : Bool)

/-- The place that a list of components leads to from a directory. A link in the way goes on with
`onLink`; the last component is looked through only with `follow`, and may be missing only with
`create`. -/
def walk (onLink : List (List Char) → List (List Char) → Option (List (List Char))) :
    List (List Char) → List (List Char) → Option (List (List Char))
  | dir, [] => some dir
  | dir, part :: parts =>
      if t.kind dir ≠ some .dir then none
      else if part = [] ∨ part = ['.'] then walk onLink dir parts
      else if isUp part then walk onLink dir.dropLast parts
      else
        match t.kind (dir ++ [part]) with
        | none => if create ∧ parts = [] then some (dir ++ [part]) else none
        | some (.link target) =>
            if !follow ∧ parts = [] then some (dir ++ [part])
            else onLink (if target.head? = some '/' then [] else dir) (components target ++ parts)
        | some _ => walk onLink (dir ++ [part]) parts

/-- A walk through at most so many links. -/
def resolve : Nat → List (List Char) → List (List Char) → Option (List (List Char))
  | 0 => walk t follow create fun _ _ => none
  | links + 1 => walk t follow create (resolve links)

def maxSymlinks : Nat := 40

/-- The directory that a path starts from. -/
def startOf (cwd : List (List Char)) (path : List Char) : List (List Char) :=
  if path.head? = some '/' then [] else cwd

/-- The place of a path. -/
def lookup (cwd : List (List Char)) (path : List Char) : Option (List (List Char)) :=
  if path = [] then none else resolve t follow create maxSymlinks (startOf cwd path) (components path)

end Paths

/-- Where a walk with an existing last component goes first. -/
theorem walk_cons {t : FileTree} {follow : Bool}
    {onLink : List (List Char) → List (List Char) → Option (List (List Char))}
    {dir parts loc : List (List Char)} {part : List Char} :
    walk t follow false onLink dir (part :: parts) = some loc ↔ t.kind dir = some .dir ∧
      ((part = [] ∨ part = ['.']) ∧ walk t follow false onLink dir parts = some loc ∨
        ¬(part = [] ∨ part = ['.']) ∧ isUp part = true ∧
            walk t follow false onLink dir.dropLast parts = some loc ∨
          ¬(part = [] ∨ part = ['.']) ∧ ¬isUp part = true ∧ ∃ k, t.kind (dir ++ [part]) = some k ∧
            match k with
            | .link target => (follow = false ∧ parts = []) ∧ dir ++ [part] = loc ∨
                ¬(follow = false ∧ parts = []) ∧
                  onLink (if target.head? = some '/' then [] else dir) (components target ++ parts) =
                    some loc
            | _ => walk t follow false onLink (dir ++ [part]) parts = some loc) := by
  rw [walk]
  by_cases hdir : t.kind dir = some .dir
  · rw [if_neg (not_not.mpr hdir)]
    by_cases hdot : part = [] ∨ part = ['.']
    · simp [hdir, hdot]
    · by_cases hup : isUp part = true
      · simp [hdir, hdot, hup]
      · rw [if_neg hdot, if_neg hup]
        cases hkind : t.kind (dir ++ [part]) with
        | none => simp [hdot, hup]
        | some k =>
            cases k with
            | dir => simp [hdir, hdot, hup]
            | file inode => simp [hdir, hdot, hup]
            | link target =>
                by_cases hlast : follow = false ∧ parts = []
                · simp [hdir, hdot, hup, hlast]
                · simp [hdir, hdot, hup, hlast]
  · rw [if_pos hdir]
    exact iff_of_false nofun fun h => hdir h.1

/-- Two ways to walk lead to the same place if they do as long as their links do. -/
theorem lookup_lift {t t' : FileTree} {follow create follow' create' : Bool}
    {cwd loc : List (List Char)} {path : List Char}
    (hwalk : ∀ onLink onLink', (∀ dir parts, onLink dir parts = some loc →
        onLink' dir parts = some loc) → ∀ parts dir,
      walk t follow create onLink dir parts = some loc →
        walk t' follow' create' onLink' dir parts = some loc)
    (h : t.lookup follow create cwd path = some loc) :
    t'.lookup follow' create' cwd path = some loc := by
  rw [lookup] at h ⊢
  split_ifs at h ⊢
  generalize maxSymlinks = links at h ⊢
  generalize startOf cwd path = dir at h ⊢
  generalize components path = parts at h ⊢
  induction links generalizing dir parts with
  | zero => exact hwalk _ _ (by rintro _ _ ⟨⟩) parts dir h
  | succ links ih => exact hwalk _ _ (fun dir parts h => ih dir parts h) parts dir h

/-! ### Fewer nodes -/

/-- Every node of the first tree stands in the second. -/
def Sub (t' t : FileTree) : Prop := ∀ q k, t'.kind q = some k → t.kind q = some k

theorem walk_sub {t t' : FileTree} (hsub : Sub t' t) {follow : Bool}
    {onLink onLink' : List (List Char) → List (List Char) → Option (List (List Char))}
    {loc : List (List Char)}
    (hlink : ∀ dir parts, onLink' dir parts = some loc → onLink dir parts = some loc)
    (parts dir : List (List Char)) (h : walk t' follow false onLink' dir parts = some loc) :
    walk t follow false onLink dir parts = some loc := by
  induction parts generalizing dir with
  | nil => exact h
  | cons part parts ih =>
      obtain ⟨hdir, hrest⟩ := Iff.mp walk_cons h
      refine Iff.mpr walk_cons ⟨hsub dir _ hdir, ?_⟩
      obtain ⟨hdot, h⟩ | ⟨hdot, hup, h⟩ | ⟨hdot, hup, k, hkind, h⟩ := hrest
      · exact Or.inl ⟨hdot, ih dir h⟩
      · exact Or.inr (Or.inl ⟨hdot, hup, ih dir.dropLast h⟩)
      · refine Or.inr (Or.inr ⟨hdot, hup, k, hsub _ _ hkind, ?_⟩)
        cases k with
        | dir => exact ih _ h
        | file inode => exact ih _ h
        | link target =>
            obtain ⟨hlast, hloc⟩ | ⟨hmore, h⟩ := h
            · exact Or.inl ⟨hlast, hloc⟩
            · exact Or.inr ⟨hmore, hlink _ _ h⟩

/-- In a tree with fewer nodes a path leads to the same place or nowhere. -/
theorem lookup_sub {t t' : FileTree} (hsub : Sub t' t) {follow : Bool} {cwd : List (List Char)}
    {path : List Char} {loc : List (List Char)} (h : t'.lookup follow false cwd path = some loc) :
    t.lookup follow false cwd path = some loc :=
  lookup_lift (fun _ _ hlink => walk_sub hsub hlink) h

/-! ### One component more -/

/-- The last component alone, which is not looked through. -/
theorem walk_last {t : FileTree}
    (onLink onLink' : List (List Char) → List (List Char) → Option (List (List Char)))
    (loc : List (List Char)) (part : List Char) :
    walk t false false onLink loc [part] = walk t false false onLink' loc [part] := by
  simp [walk]

theorem walk_snoc {t : FileTree}
    {onLink : List (List Char) → List (List Char) → Option (List (List Char))}
    {loc : List (List Char)} {part : List Char} (hkind : t.kind loc = some .dir)
    (hlink : ∀ dir parts, onLink dir parts = some loc →
      onLink dir (parts ++ [part]) = walk t false false onLink loc [part])
    (parts dir : List (List Char)) (h : walk t false false onLink dir parts = some loc) :
    walk t false false onLink dir (parts ++ [part]) = walk t false false onLink loc [part] := by
  induction parts generalizing dir with
  | nil =>
      obtain rfl := Option.some.inj h
      rfl
  | cons first parts ih =>
      obtain ⟨hdir, hrest⟩ := Iff.mp walk_cons h
      rw [List.cons_append, walk, if_neg (not_not.mpr hdir)]
      obtain ⟨hdot, h⟩ | ⟨hdot, hup, h⟩ | ⟨hdot, hup, k, hfirst, h⟩ := hrest
      · rw [if_pos hdot]
        exact ih dir h
      · rw [if_neg hdot, if_pos hup]
        exact ih dir.dropLast h
      · rw [if_neg hdot, if_neg hup, hfirst]
        cases k with
        | dir => exact ih _ h
        | file inode => exact ih _ h
        | link target =>
            dsimp only
            rw [if_neg (by simp), ← List.append_assoc]
            obtain ⟨-, rfl⟩ | ⟨-, h⟩ := h
            · rw [hkind] at hfirst
              cases hfirst
            · exact hlink _ _ h

theorem resolve_snoc {t : FileTree} {loc : List (List Char)} {part : List Char}
    (hkind : t.kind loc = some .dir) (links : Nat) (dir parts : List (List Char))
    (h : resolve t false false links dir parts = some loc) :
    resolve t false false links dir (parts ++ [part]) = resolve t false false links loc [part] := by
  induction links generalizing dir parts with
  | zero => exact walk_snoc hkind (by rintro _ _ ⟨⟩) parts dir h
  | succ links ih =>
      refine walk_snoc hkind (fun dir parts h => ?_) parts dir h
      rw [ih dir parts h]
      cases links with
      | zero => exact walk_last _ _ loc part
      | succ links => exact walk_last _ _ loc part

theorem isProper_cases {x : List Char} (h : isProper x = true) :
    ¬(x = [] ∨ x = ['.']) ∧ ¬isUp x = true := by
  simp only [isProper, isUp, Bool.and_eq_true, bne_iff_ne, beq_iff_eq, not_or] at h ⊢
  exact h

theorem resolve_child {t : FileTree} {loc : List (List Char)} {x : List Char}
    (hx : t.kind (loc ++ [x]) ≠ none) (links : Nat) :
    resolve t false false links loc [x] = some (loc ++ [x]) := by
  have hdir : t.kind loc = some .dir := t.parent loc x hx
  obtain ⟨hdot, hup⟩ := isProper_cases (t.proper loc x hx).1
  have hwalk : ∀ onLink, walk t false false onLink loc [x] = some (loc ++ [x]) := by
    intro onLink
    obtain ⟨k, hk⟩ := Option.ne_none_iff_exists'.mp hx
    refine Iff.mpr walk_cons ⟨hdir, Or.inr (Or.inr ⟨hdot, hup, k, hk, ?_⟩)⟩
    cases k with
    | dir => rfl
    | file inode => rfl
    | link target => exact Or.inl ⟨⟨rfl, rfl⟩, rfl⟩
  cases links with
  | zero => exact hwalk _
  | succ links => exact hwalk _

theorem resolve_empty {t : FileTree} {loc : List (List Char)} (hdir : t.kind loc = some .dir)
    (links : Nat) : resolve t false false links loc [[]] = some loc := by
  have hwalk : ∀ onLink, walk t false false onLink loc [[]] = some loc := fun onLink =>
    Iff.mpr walk_cons ⟨hdir, Or.inl ⟨Or.inl rfl, rfl⟩⟩
  cases links with
  | zero => exact hwalk _
  | succ links => exact hwalk _

theorem components_of_not_mem {x : List Char} (h : '/' ∉ x) : components x = [x] := by
  induction x with
  | nil => rfl
  | cons c x ih =>
      rw [List.mem_cons, not_or] at h
      rw [components, if_neg (Ne.symm h.1), ih h.2]

/-- The path of a directory, a slash and a name leads to what has the name there. -/
theorem lookup_child {t : FileTree} {cwd loc : List (List Char)} {path x : List Char}
    (h : t.lookup false false cwd path = some loc) (hx : t.kind (loc ++ [x]) ≠ none) :
    t.lookup false false cwd (path ++ '/' :: x) = some (loc ++ [x]) := by
  rw [lookup] at h
  split_ifs at h with hpath
  have hstart : startOf cwd (path ++ '/' :: x) = startOf cwd path := by
    rw [startOf, startOf, List.head?_append_of_ne_nil path hpath]
  rw [lookup, if_neg (by simp), hstart, components_append_slash,
    components_of_not_mem (t.proper loc x hx).2,
    resolve_snoc (t.parent loc x hx) maxSymlinks _ _ h]
  exact resolve_child hx _

/-- Slashes at the end of a path to a directory do not matter. -/
theorem resolve_trimmed {t : FileTree} {loc : List (List Char)} (hdir : t.kind loc = some .dir)
    (links : Nat) (dir parts : List (List Char))
    (h : resolve t false false links dir (parts.rdropWhile (· == [])) = some loc) :
    resolve t false false links dir parts = some loc := by
  induction parts using List.reverseRecOn with
  | nil => exact h
  | append_singleton parts part ih =>
      rw [List.rdropWhile_concat] at h
      split_ifs at h with hpart
      · rw [beq_iff_eq.mp hpart, resolve_snoc hdir links dir parts (ih h)]
        exact resolve_empty hdir links
      · exact h

/-! ### Looking through the last component -/

theorem walk_follow {t : FileTree}
    {onLink onLink' : List (List Char) → List (List Char) → Option (List (List Char))}
    {loc : List (List Char)} (hkind : ∀ target, t.kind loc ≠ some (.link target))
    (hlink : ∀ dir parts, onLink dir parts = some loc → onLink' dir parts = some loc)
    (parts dir : List (List Char)) (h : walk t false false onLink dir parts = some loc) :
    walk t true false onLink' dir parts = some loc := by
  induction parts generalizing dir with
  | nil => exact h
  | cons part parts ih =>
      obtain ⟨hdir, hrest⟩ := Iff.mp walk_cons h
      refine Iff.mpr walk_cons ⟨hdir, ?_⟩
      obtain ⟨hdot, h⟩ | ⟨hdot, hup, h⟩ | ⟨hdot, hup, k, hpart, h⟩ := hrest
      · exact Or.inl ⟨hdot, ih dir h⟩
      · exact Or.inr (Or.inl ⟨hdot, hup, ih dir.dropLast h⟩)
      · refine Or.inr (Or.inr ⟨hdot, hup, k, hpart, ?_⟩)
        cases k with
        | dir => exact ih _ h
        | file inode => exact ih _ h
        | link target =>
            obtain ⟨-, rfl⟩ | ⟨-, h⟩ := h
            · exact absurd hpart (hkind target)
            · exact Or.inr ⟨nofun, hlink _ _ h⟩

/-- A path that leads to something else than a link leads there when links are followed, too. -/
theorem lookup_follow {t : FileTree} {cwd loc : List (List Char)} {path : List Char}
    (hkind : ∀ target, t.kind loc ≠ some (.link target))
    (h : t.lookup false false cwd path = some loc) :
    t.lookup true false cwd path = some loc :=
  lookup_lift (fun _ _ hlink => walk_follow hkind hlink) h

/-! ### The canonical path of a place -/

def render : List (List Char) → List Char
  | [] => ['/']
  | loc => loc.flatMap fun x => '/' :: x

theorem components_flatMap {loc : List (List Char)} (h : ∀ x ∈ loc, '/' ∉ x) :
    components (loc.flatMap fun x => '/' :: x) = [] :: loc ∨ loc = [] := by
  induction loc with
  | nil => exact Or.inr rfl
  | cons x loc ih =>
      refine Or.inl ?_
      rw [List.flatMap_cons, List.cons_append, components, if_pos rfl]
      have hx := components_of_not_mem (h x List.mem_cons_self)
      obtain hloc | rfl := ih fun y hy => h y (List.mem_cons_of_mem x hy)
      · cases loc with
        | nil => rw [List.flatMap_nil, List.append_nil, hx]
        | cons y loc =>
            rw [List.flatMap_cons, List.cons_append] at hloc ⊢
            rw [components, if_pos rfl] at hloc
            rw [components_append_slash, hx, (List.cons.inj hloc).2]
            rfl
      · rw [List.flatMap_nil, List.append_nil, hx]

theorem walk_names {t : FileTree} {follow : Bool}
    (onLink : List (List Char) → List (List Char) → Option (List (List Char)))
    (names dir : List (List Char)) {k : FileKind} (hkind : t.kind (dir ++ names) = some k)
    (hk : ∀ target, k ≠ .link target) :
    walk t follow false onLink dir names = some (dir ++ names) := by
  induction names generalizing dir with
  | nil => rw [walk, List.append_nil]
  | cons x names ih =>
      have hassoc : dir ++ x :: names = (dir ++ [x]) ++ names := by simp
      rw [hassoc] at hkind ⊢
      have hx : ∃ k', t.kind (dir ++ [x]) = some k' ∧ ∀ target, k' ≠ .link target := by
        by_cases hnil : names = []
        · rw [hnil, List.append_nil] at hkind
          exact ⟨k, hkind, hk⟩
        · exact ⟨.dir, kind_of_above (by rw [hkind]; exact nofun) hnil, nofun⟩
      obtain ⟨k', hk', hnot⟩ := hx
      have hne : t.kind (dir ++ [x]) ≠ none := by rw [hk']; exact nofun
      obtain ⟨hdot, hup⟩ := isProper_cases (t.proper dir x hne).1
      refine Iff.mpr walk_cons ⟨t.parent dir x hne, Or.inr (Or.inr ⟨hdot, hup, k', hk', ?_⟩)⟩
      cases k' with
      | dir => exact ih _ hkind
      | file inode => exact ih _ hkind
      | link target => exact absurd rfl (hnot target)

theorem slash_not_mem_of_kind {t : FileTree} {loc : List (List Char)} (h : t.kind loc ≠ none) :
    ∀ x ∈ loc, '/' ∉ x := by
  intro x hx
  obtain ⟨before, after, rfl⟩ := List.append_of_mem hx
  have hassoc : before ++ x :: after = (before ++ [x]) ++ after := by simp
  rw [hassoc] at h
  refine (t.proper before x ?_).2
  by_cases hafter : after = []
  · rw [hafter, List.append_nil] at h
    exact h
  · have hdir := kind_of_above h hafter
    exact fun hnone => by rw [kind, hnone] at hdir; cases hdir

/-- The canonical path leads to the place. -/
theorem lookup_render {t : FileTree} {loc : List (List Char)} {k : FileKind}
    (hkind : t.kind loc = some k) (hk : ∀ target, k ≠ .link target) (follow : Bool)
    (cwd : List (List Char)) : t.lookup follow false cwd (render loc) = some loc := by
  have hroot (onLink : List (List Char) → List (List Char) → Option (List (List Char)))
      (parts : List (List Char)) (h : walk t follow false onLink [] parts = some loc) :
      walk t follow false onLink [] ([] :: parts) = some loc :=
    Iff.mpr walk_cons ⟨t.root, Or.inl ⟨Or.inl rfl, h⟩⟩
  cases loc with
  | nil => exact hroot _ [[]] (hroot _ [] rfl)
  | cons x loc =>
      have hrender : render (x :: loc) = '/' :: (x ++ loc.flatMap fun x => '/' :: x) := rfl
      have hparts : components (render (x :: loc)) = [] :: x :: loc :=
        (components_flatMap (slash_not_mem_of_kind (by rw [hkind]; exact nofun))).resolve_right
          (List.cons_ne_nil x loc)
      rw [lookup, hparts, hrender, if_neg (List.cons_ne_nil _ _), startOf, List.head?_cons,
        if_pos rfl]
      exact hroot _ _ (walk_names _ (x :: loc) [] hkind hk)

/-- Following links ends at something that is no link. -/
def Ends (t : FileTree) (loc : List (List Char)) : Prop :=
  ∃ k, t.kind loc = some k ∧ ∀ target, k ≠ .link target

theorem walk_ends {t : FileTree} {loc : List (List Char)}
    {onLink : List (List Char) → List (List Char) → Option (List (List Char))}
    (hlink : ∀ dir parts, t.kind dir = some .dir → onLink dir parts = some loc → t.Ends loc)
    (parts dir : List (List Char)) (hdir : t.Ends dir)
    (h : walk t true false onLink dir parts = some loc) : t.Ends loc := by
  induction parts generalizing dir with
  | nil =>
      obtain rfl := Option.some.inj h
      exact hdir
  | cons part parts ih =>
      obtain ⟨hkind, hrest⟩ := Iff.mp walk_cons h
      obtain ⟨-, h⟩ | ⟨-, -, h⟩ | ⟨-, -, k, hpart, h⟩ := hrest
      · exact ih dir hdir h
      · refine ih dir.dropLast ⟨.dir, ?_, nofun⟩ h
        cases dir using List.reverseRecOn with
        | nil => exact hkind
        | append_singleton dir x =>
            rw [List.dropLast_concat]
            exact t.parent dir x (by rw [show t.nodes.lookup (dir ++ [x]) = _ from hkind]; exact nofun)
      · cases k with
        | dir => exact ih _ ⟨_, hpart, nofun⟩ h
        | file inode => exact ih _ ⟨_, hpart, nofun⟩ h
        | link target =>
            obtain ⟨⟨hfollow, -⟩, -⟩ | ⟨-, h⟩ := h
            · cases hfollow
            · refine hlink _ _ ?_ h
              split_ifs
              · exact t.root
              · exact hkind

theorem lookup_ends {t : FileTree} {cwd loc : List (List Char)} {path : List Char}
    (h : t.lookup true false cwd path = some loc) : t.Ends loc := by
  rw [lookup] at h
  split_ifs at h
  have hstart : t.kind (startOf cwd path) = some .dir := by
    cases hparts : components path with
    | nil => exact absurd hparts (components_ne_nil path)
    | cons part parts =>
        rw [hparts] at h
        exact (Iff.mp walk_cons h).1
  generalize maxSymlinks = links at h
  generalize startOf cwd path = dir at h hstart
  generalize components path = parts at h
  induction links generalizing dir parts with
  | zero => exact walk_ends (by rintro _ _ _ ⟨⟩) parts dir ⟨_, hstart, nofun⟩ h
  | succ links ih =>
      exact walk_ends (fun dir parts hdir h => ih dir hdir parts h) parts dir ⟨_, hstart, nofun⟩ h

/-! ### Creating -/

/-- A walk that may create the last component goes, in a tree where that exists and is no link, where a
walk that may not goes. -/
theorem walk_create {t t' : FileTree} (hsub : Sub t t') {loc : List (List Char)}
    {onLink onLink' : List (List Char) → List (List Char) → Option (List (List Char))} {k : FileKind}
    (hkind : t'.kind loc = some k) (hk : ∀ target, k ≠ .link target)
    (hlink : ∀ dir parts, onLink dir parts = some loc → onLink' dir parts = some loc)
    (parts dir : List (List Char)) (h : walk t true true onLink dir parts = some loc) :
    walk t' true false onLink' dir parts = some loc := by
  induction parts generalizing dir with
  | nil => exact h
  | cons part parts ih =>
      rw [walk] at h
      by_cases hdir : t.kind dir = some .dir
      · rw [if_neg (not_not.mpr hdir)] at h
        refine Iff.mpr walk_cons ⟨hsub _ _ hdir, ?_⟩
        by_cases hdot : part = [] ∨ part = ['.']
        · rw [if_pos hdot] at h
          exact Or.inl ⟨hdot, ih dir h⟩
        · rw [if_neg hdot] at h
          by_cases hup : isUp part = true
          · rw [if_pos hup] at h
            exact Or.inr (Or.inl ⟨hdot, hup, ih _ h⟩)
          · rw [if_neg hup] at h
            refine Or.inr (Or.inr ⟨hdot, hup, ?_⟩)
            cases hpart : t.kind (dir ++ [part]) with
            | none =>
                rw [hpart] at h
                dsimp only at h
                split_ifs at h with hlast
                obtain rfl := Option.some.inj h
                rw [hlast.2]
                refine ⟨k, hkind, ?_⟩
                cases k with
                | dir => rfl
                | file inode => rfl
                | link target => exact absurd rfl (hk target)
            | some k' =>
                rw [hpart] at h
                refine ⟨k', hsub _ _ hpart, ?_⟩
                cases k' with
                | dir => exact ih _ h
                | file inode => exact ih _ h
                | link target =>
                    dsimp only at h ⊢
                    rw [if_neg (by simp)] at h
                    exact Or.inr ⟨nofun, hlink _ _ h⟩
      · rw [if_pos hdir] at h
        cases h

theorem lookup_create {t t' : FileTree} (hsub : Sub t t') {cwd loc : List (List Char)}
    {path : List Char} {k : FileKind} (hkind : t'.kind loc = some k) (hk : ∀ target, k ≠ .link target)
    (h : t.lookup true true cwd path = some loc) : t'.lookup true false cwd path = some loc :=
  lookup_lift (fun _ _ hlink => walk_create hsub hkind hk hlink) h

/-- Where there is something, nothing is created. -/
theorem walk_mayCreate {t : FileTree} {loc : List (List Char)}
    {onLink onLink' : List (List Char) → List (List Char) → Option (List (List Char))}
    (hlink : ∀ dir parts, onLink dir parts = some loc → onLink' dir parts = some loc)
    (parts dir : List (List Char)) (h : walk t true false onLink dir parts = some loc) :
    walk t true true onLink' dir parts = some loc := by
  induction parts generalizing dir with
  | nil => exact h
  | cons part parts ih =>
      obtain ⟨hdir, hrest⟩ := Iff.mp walk_cons h
      rw [walk, if_neg (not_not.mpr hdir)]
      obtain ⟨hdot, h⟩ | ⟨hdot, hup, h⟩ | ⟨hdot, hup, k, hpart, h⟩ := hrest
      · rw [if_pos hdot]
        exact ih dir h
      · rw [if_neg hdot, if_pos hup]
        exact ih _ h
      · rw [if_neg hdot, if_neg hup, hpart]
        cases k with
        | dir => exact ih _ h
        | file inode => exact ih _ h
        | link target =>
            obtain ⟨⟨hfollow, -⟩, -⟩ | ⟨-, h⟩ := h
            · cases hfollow
            · dsimp only
              rw [if_neg (by simp)]
              exact hlink _ _ h

theorem lookup_mayCreate {t : FileTree} {cwd loc : List (List Char)} {path : List Char}
    (h : t.lookup true false cwd path = some loc) : t.lookup true true cwd path = some loc :=
  lookup_lift (fun _ _ hlink => walk_mayCreate hlink) h

/-! ### Calls -/

section Calls

variable (t : FileTree) (cwd : List (List Char)) (path : List Char)

def lstat : Option FileKind := (t.lookup false false cwd path).bind t.kind

/-- The names that reading the directory gives, in some order. -/
def opendir : Option (List (List Char)) :=
  (t.lookup true false cwd path).bind fun loc =>
    if t.kind loc = some .dir then some (['.'] :: ['.', '.'] :: t.children loc) else none

def unlink : Option FileTree :=
  (t.lookup false false cwd path).bind fun loc =>
    if t.kind loc = some .dir then none else t.erase loc

/-- The last component must be the name of the directory, not a way to it. -/
def rmdir : Option FileTree :=
  let parts := (components path).rdropWhile (· == [])
  if path = [] ∨ parts.getLast?.all (fun part => !isProper part) then none
  else
    (resolve t false false maxSymlinks (startOf cwd path) parts).bind fun loc =>
      if t.kind loc = some .dir then t.erase loc else none

end Calls

/-- A call that takes a node away takes away what the path leads to. -/
theorem unlink_some {t t' : FileTree} {cwd : List (List Char)} {path : List Char}
    (h : t.unlink cwd path = some t') :
    ∃ loc, t.lookup false false cwd path = some loc ∧ t.children loc = [] ∧
      ∀ q, t'.kind q = if q = loc then none else t.kind q := by
  obtain ⟨loc, hloc, h⟩ := Option.bind_eq_some_iff.mp h
  split_ifs at h
  exact ⟨loc, hloc, erase_some h⟩

theorem rmdir_some {t t' : FileTree} {cwd : List (List Char)} {path : List Char}
    (h : t.rmdir cwd path = some t') :
    ∃ loc, t.lookup false false cwd path = some loc ∧ t.children loc = [] ∧
      ∀ q, t'.kind q = if q = loc then none else t.kind q := by
  rw [rmdir] at h
  split_ifs at h with hpath
  obtain ⟨loc, hloc, h⟩ := Option.bind_eq_some_iff.mp h
  split_ifs at h with hdir
  refine ⟨loc, ?_, erase_some h⟩
  rw [lookup, if_neg fun hnil => hpath (Or.inl hnil)]
  exact resolve_trimmed hdir _ _ _ hloc

end FileTree
