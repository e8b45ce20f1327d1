import Mathlib.Tactic

/-!
# Lexical paths

A path is split at its slashes into components. Normalisation resolves them from left to right without
looking at a file system: empty components and `.` are dropped, and `..` takes the last component
away, which at the root does nothing. A path that continues below a directory stays strictly below it
when its `..` components, which may only come last, are fewer than its proper ones.
-/

namespace LexPath

/-- The parts of a path between its slashes. -/
def components : List Char → List (List Char)
  | [] => [[]]
  | c :: s =>
      if c = '/' then [] :: components s
      else
        match components s with
        | [] => [[c]]
        | part :: parts => (c :: part) :: parts

def isUp (part : List Char) : Bool := part == ['.', '.']

/-- A component that names a directory entry. -/
def isProper (part : List Char) : Bool := part != [] && part != ['.'] && part != ['.', '.']

/-- One component, resolved from a directory. -/
def resolveStep (dir : List (List Char)) (part : List Char) : List (List Char) :=
  if isUp part then dir.dropLast else if isProper part then dir ++ [part] else dir

def resolve (dir : List (List Char)) (parts : List (List Char)) : List (List Char) :=
  parts.foldl resolveStep dir

/-- The lexical normalisation of an absolute path, as the list of its names. -/
def normalise (path : List Char) : List (List Char) := resolve [] (components path)

/-- The normalised path lies in the directory of the normalised root, and is not the root itself. -/
def StrictlyBelow (root path : List Char) : Prop :=
  ∃ rest, rest ≠ [] ∧ normalise path = normalise root ++ rest

/-- A relative path has more names than steps up. -/
def Descends (path : List Char) : Prop :=
  (components path).countP isUp < (components path).countP isProper

instance (path : List Char) : Decidable (Descends path) := Nat.decLt _ _

/-! ### Components -/

theorem components_ne_nil (s : List Char) : components s ≠ [] := by
  cases s with
  | nil => simp [components]
  | cons c s =>
      rw [components]
      split_ifs
      · simp
      · split <;> simp

theorem components_append_slash (s t : List Char) :
    components (s ++ '/' :: t) = components s ++ components t := by
  induction s with
  | nil => simp [components]
  | cons c s ih =>
      rw [List.cons_append, components, ih, components]
      split_ifs
      · rfl
      · cases hs : components s with
        | nil => exact absurd hs (components_ne_nil s)
        | cons part parts => rfl

/-- The first of several components is followed by a slash. -/
theorem components_cons {s part : List Char} {parts : List (List Char)}
    (h : components s = part :: parts) (hparts : parts ≠ []) :
    ∃ t, s = part ++ '/' :: t ∧ components t = parts := by
  induction s generalizing part with
  | nil =>
      obtain ⟨-, rfl⟩ := List.cons.inj h
      exact absurd rfl hparts
  | cons c s ih =>
      rw [components] at h
      split_ifs at h with hslash
      · obtain ⟨rfl, rfl⟩ := List.cons.inj h
        exact ⟨s, by rw [hslash]; rfl, rfl⟩
      · cases hs : components s with
        | nil => exact absurd hs (components_ne_nil s)
        | cons part' parts' =>
            rw [hs] at h
            obtain ⟨rfl, rfl⟩ := List.cons.inj h
            obtain ⟨t, rfl, ht⟩ := ih hs
            exact ⟨t, rfl, ht⟩

/-- Without `../` in the string, only the last component can be `..`. -/
theorem dropLast_not_isUp {s : List Char} (h : ¬ ['.', '.', '/'] <:+: s) :
    ∀ part ∈ (components s).dropLast, isUp part = false := by
  generalize hparts : components s = parts
  induction parts generalizing s with
  | nil => simp
  | cons part parts ih =>
      cases parts with
      | nil => simp
      | cons part' parts' =>
          obtain ⟨t, rfl, ht⟩ := components_cons hparts (by simp)
          intro p hp
          rw [List.dropLast_cons_of_ne_nil (by simp)] at hp
          rcases List.mem_cons.mp hp with rfl | hp
          · rw [Bool.eq_false_iff]
            intro hup
            rw [isUp, beq_iff_eq] at hup
            rw [hup] at h
            exact h ⟨[], t, rfl⟩
          · refine ih (fun hsub => h ?_) ht p hp
            exact hsub.trans ((List.suffix_cons '/' t).trans (List.suffix_append part _)).isInfix

/-! ### Resolution -/

theorem resolve_append (dir : List (List Char)) (parts parts' : List (List Char)) :
    resolve dir (parts ++ parts') = resolve (resolve dir parts) parts' :=
  List.foldl_append

theorem resolve_of_not_isUp {parts : List (List Char)} (h : ∀ part ∈ parts, isUp part = false)
    (dir : List (List Char)) : resolve dir parts = dir ++ parts.filter isProper := by
  induction parts generalizing dir with
  | nil => simp [resolve]
  | cons part parts ih =>
      have hup := h part List.mem_cons_self
      have hrest := ih fun p hp => h p (List.mem_cons_of_mem _ hp)
      change resolve (resolveStep dir part) parts = _
      rw [resolveStep, hup, hrest, List.filter_cons]
      cases isProper part <;> simp

theorem isProper_of_isUp {part : List Char} (h : isUp part = true) : isProper part = false := by
  rw [isUp, beq_iff_eq] at h
  rw [h]
  decide

/-- Below a directory, a path whose only `..` may come last stays strictly below the directory exactly
when it has more names than steps up. -/
theorem resolve_below_iff {parts : List (List Char)}
    (h : ∀ part ∈ parts.dropLast, isUp part = false) (dir : List (List Char)) :
    (∃ rest, rest ≠ [] ∧ resolve dir parts = dir ++ rest) ↔
      parts.countP isUp < parts.countP isProper := by
  rcases List.eq_nil_or_concat' parts with rfl | ⟨init, last, rfl⟩
  · simp [resolve]
  · rw [List.dropLast_concat] at h
    have hups : init.countP isUp = 0 := List.countP_eq_zero.mpr fun p hp => by simp [h p hp]
    have hstep : resolve dir (init ++ [last]) = resolveStep (dir ++ init.filter isProper) last := by
      rw [resolve_append, resolve_of_not_isUp h]
      rfl
    rw [hstep, resolveStep, List.countP_append, List.countP_append, hups, List.countP_singleton,
      List.countP_singleton, List.countP_eq_length_filter (l := init)]
    cases hup : isUp last with
    | true =>
        rw [isProper_of_isUp hup]
        rcases List.eq_nil_or_concat' (init.filter isProper) with hnil | ⟨names, name, hnames⟩
        · rw [hnil]
          simp only [List.append_nil, if_true, List.length_nil]
          constructor
          · rintro ⟨rest, hne, hrest⟩
            have hlength := congrArg List.length hrest
            rw [List.length_dropLast, List.length_append] at hlength
            have := List.length_pos_iff.mpr hne
            omega
          · intro hlt
            simp at hlt
        · rw [hnames, ← List.append_assoc]
          simp only [if_true, List.dropLast_concat, List.length_append, List.length_singleton]
          constructor
          · rintro ⟨rest, hne, hrest⟩
            obtain rfl := List.append_cancel_left hrest
            have := List.length_pos_iff.mpr hne
            simp only [Bool.false_eq_true, if_false]
            omega
          · intro hlt
            refine ⟨names, ?_, rfl⟩
            rintro rfl
            simp at hlt
    | false =>
        cases hproper : isProper last with
        | true =>
            simp only [Bool.false_eq_true, if_false, if_true]
            constructor
            · intro _
              omega
            · intro _
              exact ⟨init.filter isProper ++ [last], by simp, List.append_assoc _ _ _⟩
        | false =>
            simp only [Bool.false_eq_true, if_false]
            constructor
            · rintro ⟨rest, hne, hrest⟩
              rw [List.append_cancel_left hrest]
              have := List.length_pos_iff.mpr hne
              omega
            · intro hlt
              refine ⟨_, ?_, rfl⟩
              intro hnil
              rw [hnil] at hlt
              simp at hlt

/-- A path made of a root and a relative path without `../` lies strictly below the root exactly when
the relative path descends. -/
theorem strictlyBelow_iff {root path : List Char} (h : ¬ ['.', '.', '/'] <:+: path) :
    StrictlyBelow root (root ++ '/' :: path) ↔ Descends path := by
  rw [Descends, ← resolve_below_iff (dropLast_not_isUp h) (normalise root), StrictlyBelow,
    normalise, components_append_slash, resolve_append]
  rfl

end LexPath
