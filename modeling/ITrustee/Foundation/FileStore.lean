import Mathlib.Tactic
import ITrustee.Foundation.FileTree

/-!
# Files and their contents

A file tree with the contents of its files, which are known by their numbers: two names may be names of
one file, and a path may lead through links, so that different paths can mean the same contents. Opening
a file to write it from scratch empties it under all its names.
-/

/-- Files in the tree have been created. -/
structure FileStore (β : Type*) where
  tree : FileTree
  data : Nat → List β
  used : Nat
  lt_used : ∀ loc i, tree.kind loc = some (.file i) → i < used

namespace FileStore

open FileTree

variable {β : Type*}

/-- Nothing but the root. -/
def empty : FileStore β where
  tree := FileTree.empty
  data _ := []
  used := 0
  lt_used loc i h := by
    have hroot : FileTree.empty.kind loc = some .dir := by
      by_cases hloc : loc = []
      · rw [hloc]
        exact FileTree.empty.root
      · rw [FileTree.kind, FileTree.empty, AList.lookup_insert_ne hloc] at h
        cases h
    rw [hroot] at h
    cases h

def setData (fs : FileStore β) (i : Nat) (bytes : List β) : FileStore β :=
  { fs with data := Function.update fs.data i bytes }

/-- A new file, and its number. -/
def addFile (fs : FileStore β) (loc : List (List Char)) (x : List Char) (bytes : List β) :
    Option (FileStore β) :=
  match h : fs.tree.add loc x (.file fs.used) with
  | none => none
  | some tree =>
      some
        { tree
          data := Function.update fs.data fs.used bytes
          used := fs.used + 1
          lt_used := by
            intro q i hq
            rw [(add_some h).2] at hq
            split_ifs at hq
            · obtain rfl := FileKind.file.inj (Option.some.inj hq)
              exact Nat.lt_succ_self _
            · exact Nat.lt_succ_of_lt (fs.lt_used q i hq) }

/-- A new name for a file, a directory or a link. -/
def addNode (fs : FileStore β) (loc : List (List Char)) (x : List Char) (k : FileKind)
    (hk : ∀ i, k = .file i → i < fs.used) : Option (FileStore β) :=
  match h : fs.tree.add loc x k with
  | none => none
  | some tree =>
      some
        { fs with
          tree
          lt_used := by
            intro q i hq
            rw [(add_some h).2] at hq
            split_ifs at hq
            · exact hk i (Option.some.inj hq)
            · exact fs.lt_used q i hq }

section Calls

variable (fs : FileStore β) (cwd : List (List Char)) (path : List Char)

def kindAt : Option FileKind := (fs.tree.lookup true false cwd path).bind fs.tree.kind

/-- The file that a path leads to. -/
def inodeAt : Option Nat :=
  match fs.kindAt cwd path with
  | some (.file i) => some i
  | _ => none

def content : Option (List β) := (fs.inodeAt cwd path).map fs.data

/-- `open` with `O_TRUNC` and `O_CREAT`: the number of the file. -/
def openTrunc : Option (Nat × FileStore β) :=
  match fs.tree.lookup true true cwd path with
  | none => none
  | some loc =>
      match fs.tree.kind loc with
      | some (.file i) => some (i, fs.setData i [])
      | some _ => none
      | none => (fs.addFile loc.dropLast (loc.getLast?.getD []) []).map fun fs' => (fs.used, fs')

def realpath (max : Nat) : Option (List Char) :=
  (fs.tree.lookup true false cwd path).bind fun loc =>
    if (render loc).length < max then some (render loc) else none

end Calls

/-! ### Where paths lead -/

variable {fs fs' : FileStore β} {cwd : List (List Char)} {path : List Char}

theorem inodeAt_some {i : Nat} : fs.inodeAt cwd path = some i ↔
    ∃ loc, fs.tree.lookup true false cwd path = some loc ∧ fs.tree.kind loc = some (.file i) := by
  rw [inodeAt, kindAt]
  cases hloc : fs.tree.lookup true false cwd path with
  | none => simp
  | some loc =>
      rw [Option.bind_some]
      cases hkind : fs.tree.kind loc with
      | none => simp [hkind]
      | some k => cases k <;> simp [hkind]

theorem inodeAt_lt {i : Nat} (h : fs.inodeAt cwd path = some i) : i < fs.used := by
  obtain ⟨loc, -, hkind⟩ := inodeAt_some.mp h
  exact fs.lt_used loc i hkind

/-- The real path leads where the path does. -/
theorem realpath_lookup {max : Nat} {real : List Char} (h : fs.realpath cwd path max = some real) :
    ∃ loc, fs.tree.lookup true false cwd path = some loc ∧
      fs.tree.lookup true false cwd real = some loc := by
  obtain ⟨loc, hloc, h⟩ := Option.bind_eq_some_iff.mp h
  split_ifs at h
  obtain rfl := Option.some.inj h
  obtain ⟨k, hkind, hk⟩ := lookup_ends hloc
  exact ⟨loc, hloc, lookup_render hkind hk true cwd⟩

theorem addFile_some {loc : List (List Char)} {x : List Char} {bytes : List β}
    (h : fs.addFile loc x bytes = some fs') :
    fs.tree.kind (loc ++ [x]) = none ∧
      (∀ q, fs'.tree.kind q = if q = loc ++ [x] then some (.file fs.used) else fs.tree.kind q) ∧
        fs'.data = Function.update fs.data fs.used bytes := by
  rw [addFile] at h
  split at h
  · cases h
  · next tree htree =>
      obtain rfl := Option.some.inj h
      obtain ⟨hnew, hkind⟩ := add_some htree
      exact ⟨hnew, hkind, rfl⟩

/-- The two paths are one, or lead to one place. -/
def SamePlace (fs : FileStore β) (cwd : List (List Char)) (path real : List Char) : Prop :=
  real = path ∨ ∃ loc, fs.tree.lookup true false cwd path = some loc ∧
    fs.tree.lookup true false cwd real = some loc

theorem SamePlace.lookup {real : List Char} {loc : List (List Char)}
    (h : fs.SamePlace cwd path real) (hloc : fs.tree.lookup true false cwd path = some loc) :
    fs.tree.lookup true false cwd real = some loc := by
  obtain rfl | ⟨loc', hpath, hreal⟩ := h
  · exact hloc
  · rw [hpath] at hloc
    rw [hreal, hloc]

theorem SamePlace.kindAt {real : List Char} {k : FileKind} (h : fs.SamePlace cwd path real)
    (hkind : fs.kindAt cwd real = some k) : fs.kindAt cwd path = some k := by
  obtain rfl | ⟨loc, hpath, hreal⟩ := h
  · exact hkind
  · rw [FileStore.kindAt, hreal] at hkind
    rw [FileStore.kindAt, hpath]
    exact hkind

/-- A file that exists is opened and emptied. -/
theorem openTrunc_of_inode {i : Nat} {real : List Char} (hplace : fs.SamePlace cwd path real)
    (h : fs.inodeAt cwd path = some i) : fs.openTrunc cwd real = some (i, fs.setData i []) := by
  obtain ⟨loc, hloc, hkind⟩ := inodeAt_some.mp h
  rw [openTrunc, lookup_mayCreate (hplace.lookup hloc)]
  dsimp only
  rw [hkind]

/-- What `openTrunc` opens is afterwards the file of the path, and empty; it was that before, or is new. -/
theorem openTrunc_some {i : Nat} {real : List Char} (hplace : fs.SamePlace cwd path real)
    (h : fs.openTrunc cwd real = some (i, fs')) :
    fs'.inodeAt cwd path = some i ∧ fs'.data = Function.update fs.data i [] ∧
      (fs.inodeAt cwd path = some i ∨ fs.inodeAt cwd path = none ∧ i = fs.used) := by
  cases hloc : fs.inodeAt cwd path with
  | some j =>
      rw [openTrunc_of_inode hplace hloc] at h
      obtain ⟨rfl, rfl⟩ := Prod.mk.inj (Option.some.inj h)
      obtain ⟨loc, hlookup, hkind⟩ := inodeAt_some.mp hloc
      exact ⟨inodeAt_some.mpr ⟨loc, hlookup, hkind⟩, rfl, Or.inl rfl⟩
  | none =>
      rw [openTrunc] at h
      cases hopen : fs.tree.lookup true true cwd real with
      | none => simp [hopen] at h
      | some loc =>
          rw [hopen] at h
          dsimp only at h
          cases hkind : fs.tree.kind loc with
          | some k =>
              rw [hkind] at h
              cases k with
              | dir => cases h
              | link target => cases h
              | file j =>
                  -- the path leads to this file, too
                  have hreal := lookup_create (fun _ _ hq => hq) hkind nofun hopen
                  have hkindAt : fs.kindAt cwd path = some (.file j) :=
                    hplace.kindAt (by rw [kindAt, hreal]; exact hkind)
                  rw [inodeAt, hkindAt] at hloc
                  cases hloc
          | none =>
              rw [hkind] at h
              obtain ⟨fs'', hadd, heq⟩ := Option.map_eq_some_iff.mp h
              obtain ⟨rfl, rfl⟩ := Prod.mk.inj heq
              obtain rfl | ⟨loc', -, hreal⟩ := hplace
              · have hne : loc ≠ [] := by
                  rintro rfl
                  rw [FileTree.kind, fs.tree.root] at hkind
                  cases hkind
                have hsplit : loc.dropLast ++ [loc.getLast?.getD []] = loc := by
                  rw [List.getLast?_eq_some_getLast hne, Option.getD_some,
                    List.dropLast_append_getLast]
                obtain ⟨-, hkinds, hdata⟩ := addFile_some hadd
                rw [hsplit] at hkinds
                have hfile : fs''.tree.kind loc = some (.file fs.used) := by rw [hkinds, if_pos rfl]
                have hsub : Sub fs.tree fs''.tree := by
                  intro q k hq
                  rw [hkinds, if_neg]
                  · exact hq
                  · rintro rfl
                    rw [hkind] at hq
                    cases hq
                exact ⟨inodeAt_some.mpr ⟨loc, lookup_create hsub hfile nofun hopen, hfile⟩, hdata,
                  Or.inr ⟨rfl, rfl⟩⟩
              · rw [lookup_mayCreate hreal] at hopen
                obtain rfl := Option.some.inj hopen
                obtain ⟨k, hk, -⟩ := lookup_ends hreal
                rw [hkind] at hk
                cases hk

end FileStore
