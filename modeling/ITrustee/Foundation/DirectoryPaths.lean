import Mathlib.Tactic
import ITrustee.Foundation.FileTree

/-!
# Making directories

`mkdir` on a file tree. The ancestors of a path are the texts before one of its slashes, and the path
itself. Read name by name, as if every name were that of a directory, each of them has a place; where
directories stand at all these places, the paths lead there.
-/

namespace FileTree

open LexPath

/-! ### The call -/

inductive Mkdir where
  | made (t : FileTree)
  | eexist
  | failed

/-- Slashes at the end do not matter. The name must be one that a directory can have, or it is there
already. -/
def mkdir (t : FileTree) (cwd : List (List Char)) (path : List Char) : Mkdir :=
  let parts := (components path).rdropWhile (· == [])
  match parts.getLast? with
  | none => if path = [] then .failed else .eexist
  | some name =>
      match resolve t true false maxSymlinks (startOf cwd path) parts.dropLast with
      | none => .failed
      | some loc =>
          if t.kind loc ≠ some .dir then .failed
          else if isProper name = false ∨ t.kind (loc ++ [name]) ≠ none then .eexist
          else
            match t.add loc name .dir with
            | none => .failed
            | some t => .made t

/-! ### Ancestors -/

def Ancestor (p path : List Char) : Prop := p ≠ [] ∧ (p = path ∨ ∃ rest, path = p ++ '/' :: rest)

/-- Where a path leads if every name on the way is that of a directory. -/
def place (cwd : List (List Char)) (path : List Char) : List (List Char) :=
  LexPath.resolve (startOf cwd path) (components path)

theorem startOf_append {cwd : List (List Char)} {p : List Char} (h : p ≠ []) (rest : List Char) :
    startOf cwd (p ++ rest) = startOf cwd p := by
  rw [startOf, startOf, List.head?_append_of_ne_nil p h]

theorem slash_not_mem_components {s part : List Char} (h : part ∈ components s) : '/' ∉ part := by
  induction s generalizing part with
  | nil =>
      rw [List.mem_singleton.mp h]
      exact List.not_mem_nil
  | cons c s ih =>
      rw [components] at h
      split_ifs at h with hslash
      · obtain rfl | h := List.mem_cons.mp h
        · exact List.not_mem_nil
        · exact ih h
      · cases hs : components s with
        | nil => exact absurd hs (components_ne_nil s)
        | cons first parts =>
            rw [hs] at h ih
            obtain rfl | h := List.mem_cons.mp h
            · rw [List.mem_cons, not_or]
              exact ⟨fun hc => hslash hc.symm, ih List.mem_cons_self⟩
            · exact ih (List.mem_cons_of_mem first h)

/-- The first components of a path are those of a text before one of its slashes. -/
theorem text_of_prefix {path : List Char} {pre : List (List Char)} (h : pre <+: components path)
    (hne : pre ≠ []) :
    ∃ p, components p = pre ∧ (p = path ∨ ∃ rest, path = p ++ '/' :: rest) := by
  induction pre generalizing path with
  | nil => exact absurd rfl hne
  | cons x pre ih =>
      obtain ⟨more, hmore⟩ := h
      have hx : '/' ∉ x := slash_not_mem_components (by rw [← hmore]; exact List.mem_cons_self)
      by_cases hlast : pre ++ more = []
      · obtain ⟨rfl, rfl⟩ := List.append_eq_nil_iff.mp hlast
        exact ⟨path, hmore.symm, Or.inl rfl⟩
      · obtain ⟨tail, rfl, htail⟩ := components_cons hmore.symm hlast
        by_cases hpre : pre = []
        · rw [hpre]
          exact ⟨x, components_of_not_mem hx, Or.inr ⟨tail, rfl⟩⟩
        · obtain ⟨p, hp, hpath⟩ := ih ⟨more, htail.symm⟩ hpre
          refine ⟨x ++ '/' :: p, ?_, ?_⟩
          · rw [components_append_slash, components_of_not_mem hx, hp]
            rfl
          · obtain rfl | ⟨rest, rfl⟩ := hpath
            · exact Or.inl rfl
            · exact Or.inr ⟨rest, by simp⟩

theorem Ancestor.append {p path : List Char} (h : Ancestor p path) (name : List Char) :
    Ancestor p (path ++ '/' :: name) := by
  obtain ⟨hp, rfl | ⟨rest, rfl⟩⟩ := h
  · exact ⟨hp, Or.inr ⟨name, rfl⟩⟩
  · exact ⟨hp, Or.inr ⟨rest ++ '/' :: name, by simp⟩⟩

/-- Behind its last slash a path has no ancestor but itself. -/
theorem Ancestor.of_append {p path name : List Char} (hname : '/' ∉ name)
    (h : Ancestor p (path ++ '/' :: name)) : p = path ++ '/' :: name ∨ Ancestor p path := by
  obtain ⟨hp, hself | ⟨rest, hrest⟩⟩ := h
  · exact Or.inl hself
  · refine Or.inr ⟨hp, ?_⟩
    obtain ⟨tail, rfl, htail⟩ | ⟨tail, rfl, htail⟩ := List.append_eq_append_iff.mp hrest
    · cases tail with
      | nil => exact Or.inl (List.append_nil path)
      | cons c tail =>
          obtain ⟨-, rfl⟩ := List.cons.inj htail
          exact absurd (by simp) hname
    · cases tail with
      | nil => exact Or.inl (List.append_nil p).symm
      | cons c tail =>
          obtain ⟨rfl, -⟩ := List.cons.inj htail
          exact Or.inr ⟨tail, rfl⟩

theorem Ancestor.of_not_mem {p path : List Char} (hpath : '/' ∉ path) (h : Ancestor p path) :
    p = path := by
  obtain ⟨-, hself | ⟨rest, rfl⟩⟩ := h
  · exact hself
  · exact absurd (by simp) hpath

/-- What holds where a path starts and at the places of its ancestors holds at every place on its
way. -/
theorem forall_place_iff {P : List (List Char) → Prop} {cwd : List (List Char)} {path : List Char} :
    (∀ pre, pre <+: components path → P (LexPath.resolve (startOf cwd path) pre)) ↔
      P (startOf cwd path) ∧ ∀ p, Ancestor p path → P (place cwd p) := by
  constructor
  · intro h
    refine ⟨h [] List.nil_prefix, ?_⟩
    rintro p ⟨hp, rfl | ⟨rest, rfl⟩⟩
    · exact h _ (List.prefix_refl _)
    · rw [place, ← startOf_append hp ('/' :: rest)]
      refine h _ ?_
      rw [components_append_slash]
      exact List.prefix_append _ _
  · rintro ⟨hstart, h⟩ pre hpre
    by_cases hne : pre = []
    · rw [hne]
      exact hstart
    · obtain ⟨p, rfl, hpath⟩ := text_of_prefix hpre hne
      by_cases hp : p = []
      · rw [hp]
        exact hstart
      · have hplace := h p ⟨hp, hpath⟩
        obtain rfl | ⟨rest, rfl⟩ := hpath
        · exact hplace
        · rw [startOf_append hp]
          exact hplace

/-! ### Ways of directories -/

/-- A directory stands at every place on the way. -/
def Dirs (t : FileTree) (start parts : List (List Char)) : Prop :=
  ∀ pre, pre <+: parts → t.kind (LexPath.resolve start pre) = some .dir

/-- Nothing but directories stands at the places of a path and its ancestors. -/
def NoClash (t : FileTree) (cwd : List (List Char)) (path : List Char) : Prop :=
  ∀ p, Ancestor p path → ∀ k, t.kind (place cwd p) = some k → k = .dir

section Ways

variable {t : FileTree}

theorem kind_dropLast {loc : List (List Char)} (h : t.kind loc = some .dir) :
    t.kind loc.dropLast = some .dir := by
  cases loc using List.reverseRecOn with
  | nil => exact h
  | append_singleton loc x =>
      rw [List.dropLast_concat]
      exact kind_of_above (q := [x]) (by rw [h]; simp) (by simp)

theorem resolveStep_dot {dir : List (List Char)} {part : List Char} (h : part = [] ∨ part = ['.']) :
    resolveStep dir part = dir := by
  obtain rfl | rfl := h
  · rfl
  · rfl

theorem resolveStep_name {dir : List (List Char)} {part : List Char}
    (hdot : ¬(part = [] ∨ part = ['.'])) (hup : ¬isUp part = true) :
    resolveStep dir part = dir ++ [part] := by
  have hproper : isProper part = true := by
    simp only [isProper, isUp, Bool.and_eq_true, bne_iff_ne, beq_iff_eq, not_or] at hdot hup ⊢
    exact ⟨hdot, hup⟩
  rw [resolveStep, if_neg hup, if_pos hproper]

/-- A name that is none of `.` and `..` is the only one whose directory does not tell what it is. -/
theorem isProper_of_kind_none {dir : List (List Char)} {part : List Char}
    (hdir : t.kind dir = some .dir) (h : t.kind (resolveStep dir part) = none) :
    isProper part = true := by
  by_contra hproper
  rw [resolveStep] at h
  split_ifs at h
  · rw [kind_dropLast hdir] at h
    cases h
  · rw [hdir] at h
    cases h

theorem dirs_cons {start : List (List Char)} {part : List Char} {parts : List (List Char)} :
    t.Dirs start (part :: parts) ↔
      t.kind start = some .dir ∧ t.Dirs (resolveStep start part) parts := by
  constructor
  · intro h
    refine ⟨h [] List.nil_prefix, fun pre hpre => ?_⟩
    exact h (part :: pre) (List.cons_prefix_cons.mpr ⟨rfl, hpre⟩)
  · rintro ⟨hstart, h⟩ pre hpre
    cases pre with
    | nil => exact hstart
    | cons first pre =>
        obtain ⟨rfl, hrest⟩ := List.cons_prefix_cons.mp hpre
        exact h pre hrest

theorem dirs_snoc {start parts : List (List Char)} {part : List Char} :
    t.Dirs start (parts ++ [part]) ↔
      t.Dirs start parts ∧ t.kind (LexPath.resolve start (parts ++ [part])) = some .dir := by
  constructor
  · intro h
    exact ⟨fun pre hpre => h pre (hpre.trans (List.prefix_append parts [part])),
      h _ (List.prefix_refl _)⟩
  · rintro ⟨hparts, hlast⟩ pre hpre
    obtain rfl | hpre := List.prefix_concat_iff.mp hpre
    · exact hlast
    · exact hparts pre hpre

theorem Dirs.prefix {start pre parts : List (List Char)} (h : t.Dirs start parts)
    (hpre : pre <+: parts) : t.Dirs start pre := fun q hq => h q (hq.trans hpre)

theorem Dirs.mono {t' : FileTree} (hsub : Sub t t') {start parts : List (List Char)}
    (h : t.Dirs start parts) : t'.Dirs start parts := fun pre hpre => hsub _ _ (h pre hpre)

variable {follow create : Bool}
  {onLink : List (List Char) → List (List Char) → Option (List (List Char))}

/-- A step to a directory. -/
theorem walk_step {start parts : List (List Char)} {part : List Char}
    (hstart : t.kind start = some .dir) (hnext : t.kind (resolveStep start part) = some .dir) :
    walk t follow create onLink start (part :: parts) =
      walk t follow create onLink (resolveStep start part) parts := by
  rw [walk, if_neg (not_not.mpr hstart)]
  by_cases hdot : part = [] ∨ part = ['.']
  · rw [if_pos hdot, resolveStep_dot hdot]
  · rw [if_neg hdot]
    by_cases hup : isUp part = true
    · rw [if_pos hup, resolveStep, if_pos hup]
    · rw [resolveStep_name hdot hup] at hnext ⊢
      rw [if_neg hup, hnext]

theorem Dirs.walk {start parts : List (List Char)} (h : t.Dirs start parts) :
    walk t follow create onLink start parts = some (LexPath.resolve start parts) := by
  induction parts generalizing start with
  | nil => rfl
  | cons part parts ih =>
      obtain ⟨hstart, hparts⟩ := dirs_cons.mp h
      rw [walk_step hstart (hparts [] List.nil_prefix), ih hparts]
      rfl

theorem Dirs.resolve {start parts : List (List Char)} (h : t.Dirs start parts) (links : Nat) :
    resolve t follow create links start parts = some (LexPath.resolve start parts) := by
  cases links with
  | zero => exact h.walk
  | succ links => exact h.walk

theorem Dirs.lookup {cwd : List (List Char)} {path : List Char} (hpath : path ≠ [])
    (h : t.Dirs (startOf cwd path) (components path)) :
    t.lookup follow create cwd path = some (place cwd path) := by
  rw [FileTree.lookup, if_neg hpath]
  exact h.resolve maxSymlinks

/-- A walk that ends at something goes through directories only if nothing else is on its way. -/
theorem dirs_of_walk {start parts loc : List (List Char)}
    (hclash : ∀ pre, pre <+: parts → ∀ k, t.kind (LexPath.resolve start pre) = some k → k = .dir)
    (hloc : t.kind loc ≠ none) (h : walk t false false onLink start parts = some loc) :
    t.Dirs start parts := by
  induction parts generalizing start with
  | nil =>
      obtain rfl := Option.some.inj h
      obtain ⟨k, hk⟩ := Option.ne_none_iff_exists'.mp hloc
      intro pre hpre
      rw [List.prefix_nil.mp hpre]
      exact hclash [] List.nil_prefix k hk ▸ hk
  | cons part parts ih =>
      have hnext (pre : List (List Char)) (hpre : pre <+: parts) :=
        hclash (part :: pre) (List.cons_prefix_cons.mpr ⟨rfl, hpre⟩)
      obtain ⟨hstart, hrest⟩ := Iff.mp walk_cons h
      refine dirs_cons.mpr ⟨hstart, ih hnext ?_⟩
      obtain ⟨hdot, h⟩ | ⟨hdot, hup, h⟩ | ⟨hdot, hup, k, hpart, h⟩ := hrest
      · rw [resolveStep_dot hdot]
        exact h
      · rw [resolveStep, if_pos hup]
        exact h
      · have hk := hnext [] List.nil_prefix
        rw [LexPath.resolve, List.foldl_cons, List.foldl_nil] at hk
        rw [resolveStep_name hdot hup] at hk ⊢
        obtain rfl := hk k hpart
        exact h

/-- If every path on the way leads to a directory, without following its last component, then there are
directories at the places. -/
theorem dirs_of_walks {start parts : List (List Char)} (hstart : t.kind start = some .dir)
    (h : ∀ pre, pre <+: parts → pre ≠ [] →
      ∃ loc, FileTree.walk t false false onLink start pre = some loc ∧ t.kind loc = some .dir) :
    t.Dirs start parts := by
  induction parts generalizing start with
  | nil =>
      intro pre hpre
      rw [List.prefix_nil.mp hpre]
      exact hstart
  | cons part parts ih =>
      have hnext : t.kind (resolveStep start part) = some .dir := by
        obtain ⟨loc, hwalk, hloc⟩ := h [part] (by simp) (by simp)
        obtain ⟨hdot, h⟩ | ⟨hdot, hup, h⟩ | ⟨hdot, hup, k, hpart, h⟩ := (Iff.mp walk_cons hwalk).2
        · rw [resolveStep_dot hdot, Option.some.inj h]
          exact hloc
        · rw [resolveStep, if_pos hup, Option.some.inj h]
          exact hloc
        · rw [resolveStep_name hdot hup]
          cases k with
          | dir => exact hpart
          | file inode => rw [Option.some.inj h]; exact hloc
          | link target =>
              obtain ⟨-, hlast⟩ | ⟨hmore, -⟩ := h
              · rw [hlast]; exact hloc
              · exact absurd ⟨rfl, rfl⟩ hmore
      refine dirs_cons.mpr ⟨hstart, ih hnext fun pre hpre hne => ?_⟩
      obtain ⟨loc, hwalk, hloc⟩ := h (part :: pre) (List.cons_prefix_cons.mpr ⟨rfl, hpre⟩) (by simp)
      rw [walk_step hstart hnext] at hwalk
      exact ⟨loc, hwalk, hloc⟩

/-! ### Looking at the ancestors -/

theorem Dirs.ancestor {cwd : List (List Char)} {p path : List Char}
    (h : t.Dirs (startOf cwd path) (components path)) (hp : Ancestor p path) :
    t.Dirs (startOf cwd p) (components p) := by
  obtain ⟨hne, rfl | ⟨rest, rfl⟩⟩ := hp
  · exact h
  · rw [startOf_append hne, components_append_slash] at h
    exact h.prefix (List.prefix_append _ _)

theorem Dirs.lstat {cwd : List (List Char)} {p path : List Char}
    (h : t.Dirs (startOf cwd path) (components path)) (hp : Ancestor p path) :
    t.lstat cwd p = some .dir := by
  have hdirs := h.ancestor hp
  rw [FileTree.lstat, hdirs.lookup hp.1]
  exact hdirs (components p) (List.prefix_refl _)

theorem kind_start {cwd loc : List (List Char)} {path : List Char}
    (h : t.lookup follow create cwd path = some loc) : t.kind (startOf cwd path) = some .dir := by
  rw [lookup] at h
  split_ifs at h
  cases hparts : components path with
  | nil => exact absurd hparts (components_ne_nil path)
  | cons part parts =>
      by_contra hstart
      rw [hparts, maxSymlinks, FileTree.resolve, FileTree.walk, if_pos hstart] at h
      cases h

/-- What is found on a way on which there are only directories has directories at all the places. -/
theorem NoClash.dirs {cwd : List (List Char)} {path : List Char} (hclash : t.NoClash cwd path)
    (h : t.lstat cwd path ≠ none) : t.Dirs (startOf cwd path) (components path) := by
  obtain ⟨k, hk⟩ := Option.ne_none_iff_exists'.mp h
  obtain ⟨loc, hloc, hkind⟩ := Option.bind_eq_some_iff.mp hk
  have hstart := kind_start hloc
  have hplaces := (forall_place_iff (P := fun q => ∀ k, t.kind q = some k → k = .dir)).mpr
    ⟨fun k hk => Option.some.inj (hk.symm.trans hstart), hclash⟩
  rw [lookup] at hloc
  split_ifs at hloc
  exact dirs_of_walk hplaces (by rw [hkind]; simp) hloc

theorem dirs_of_lstat {cwd : List (List Char)} {path : List Char} (hpath : path ≠ [])
    (h : ∀ p, Ancestor p path → t.lstat cwd p = some .dir) :
    t.Dirs (startOf cwd path) (components path) := by
  have hlook (p : List Char) (hp : Ancestor p path) :
      ∃ loc, t.lookup false false cwd p = some loc ∧ t.kind loc = some .dir :=
    Option.bind_eq_some_iff.mp (h p hp)
  obtain ⟨loc, hloc, -⟩ := hlook path ⟨hpath, Or.inl rfl⟩
  have hstart := kind_start hloc
  have hwalks : ∀ pre, pre <+: components path → pre ≠ [] →
      ∃ loc, FileTree.resolve t false false maxSymlinks (startOf cwd path) pre = some loc ∧
        t.kind loc = some .dir := by
    intro pre hpre hne
    obtain ⟨p, rfl, hp⟩ := text_of_prefix hpre hne
    by_cases hnil : p = []
    · rw [hnil]
      exact ⟨_, resolve_empty hstart maxSymlinks, hstart⟩
    · obtain ⟨place, hplace, hkind⟩ := hlook p ⟨hnil, hp⟩
      refine ⟨place, ?_, hkind⟩
      rw [lookup, if_neg hnil] at hplace
      obtain rfl | ⟨rest, rfl⟩ := hp
      · exact hplace
      · rw [startOf_append hnil]
        exact hplace
  exact dirs_of_walks hstart hwalks

/-! ### What the call does on such a way -/

theorem mkdir_of_dirs {cwd : List (List Char)} {path : List Char} (hpath : path ≠ [])
    (h : t.Dirs (startOf cwd path) (components path)) : t.mkdir cwd path = .eexist := by
  have htrimmed := h.prefix (List.rdropWhile_prefix (· == []) (components path))
  rw [mkdir]
  generalize (components path).rdropWhile (· == []) = parts at htrimmed ⊢
  cases parts using List.reverseRecOn with
  | nil => exact if_neg hpath
  | append_singleton parts name =>
      obtain ⟨hparts, hname⟩ := dirs_snoc.mp htrimmed
      have hloc : t.kind (LexPath.resolve (startOf cwd path) parts) = some .dir :=
        hparts parts (List.prefix_refl parts)
      rw [List.getLast?_concat, List.dropLast_concat]
      dsimp only
      rw [hparts.resolve]
      dsimp only
      rw [if_neg (not_not.mpr hloc), if_pos]
      by_cases hproper : isProper name = true
      · obtain ⟨hdot, hup⟩ := isProper_cases hproper
        rw [LexPath.resolve_append, LexPath.resolve, List.foldl_cons, List.foldl_nil,
          resolveStep_name hdot hup] at hname
        rw [hname]
        exact Or.inr (by simp)
      · exact Or.inl (Bool.not_eq_true _ ▸ hproper)

/-- With directories at all places but the last, at which there may be nothing, the call leaves a
directory there. -/
theorem mkdir_last {cwd parts : List (List Char)} {path name : List Char} (hpath : path ≠ [])
    (hcomponents : components path = parts ++ [name]) (hparts : t.Dirs (startOf cwd path) parts)
    (hlast : ∀ k, t.kind (place cwd path) = some k → k = .dir) :
    t.mkdir cwd path = .eexist ∧ t.Dirs (startOf cwd path) (components path) ∨
      ∃ t', t.mkdir cwd path = .made t' ∧ t.kind (place cwd path) = none ∧
        ∀ q, t'.kind q = if q = place cwd path then some .dir else t.kind q := by
  cases hkind : t.kind (place cwd path) with
  | some k =>
      obtain rfl := hlast k hkind
      have hdirs : t.Dirs (startOf cwd path) (components path) := by
        rw [place, hcomponents] at hkind
        rw [hcomponents]
        exact dirs_snoc.mpr ⟨hparts, hkind⟩
      exact Or.inl ⟨mkdir_of_dirs hpath hdirs, hdirs⟩
  | none =>
      have hloc := hparts parts (List.prefix_refl parts)
      have hsplit : place cwd path = resolveStep (LexPath.resolve (startOf cwd path) parts) name := by
        rw [place, hcomponents, LexPath.resolve_append]
        rfl
      rw [hsplit] at hkind ⊢
      have hproper := isProper_of_kind_none hloc hkind
      obtain ⟨hdot, hup⟩ := isProper_cases hproper
      rw [resolveStep_name hdot hup] at hkind ⊢
      have hslash : '/' ∉ name :=
        slash_not_mem_components (s := path) (by rw [hcomponents]; simp)
      obtain ⟨t', ht'⟩ : ∃ t', t.add (LexPath.resolve (startOf cwd path) parts) name .dir = some t' :=
        ⟨_, dif_pos ⟨hloc, hkind, hproper, hslash⟩⟩
      refine Or.inr ⟨t', ?_, rfl, (add_some ht').2⟩
      have hname : ¬(name == []) = true := fun h => hdot (Or.inl (beq_iff_eq.mp h))
      rw [mkdir, hcomponents, List.rdropWhile_concat, if_neg hname, List.getLast?_concat,
        List.dropLast_concat]
      dsimp only
      rw [hparts.resolve]
      dsimp only
      rw [if_neg (not_not.mpr hloc), if_neg (by simp [hproper, hkind]), ht']

end Ways

end FileTree
