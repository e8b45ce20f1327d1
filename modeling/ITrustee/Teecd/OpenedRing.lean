import Mathlib.Tactic
import ITrustee.Foundation.LinkedRing
import ITrustee.Teecd.FsWorkAgent

/-!
# The ring of opened files

`AddOpenFile`, `DelOpenFile` and `FindOpenFile` of the storage agent on the nodes in memory. A pointer is
an address, 0 the null pointer; a read or a write at an address without a node does not return.
`openedRing_spec` says that after any calls the nodes are a ring in the order in which they were added.
-/

namespace ITrustee.Teecd.OpenedRing

open LinkedRing

structure OpenedFile where
  file : UInt64
  next : UInt64
  prev : UInt64
  deriving DecidableEq

structure FileList where
  heap : UInt64 → Option OpenedFile
  gFirstFile : UInt64

namespace FileList

def empty : FileList where
  heap := fun _ => none
  gFirstFile := 0

/-! ### Memory -/

def file (s : FileList) (p : UInt64) : Option UInt64 := (s.heap p).map OpenedFile.file

def next (s : FileList) (p : UInt64) : Option UInt64 := (s.heap p).map OpenedFile.next

def prev (s : FileList) (p : UInt64) : Option UInt64 := (s.heap p).map OpenedFile.prev

def store (s : FileList) (p : UInt64) (node : OpenedFile) : FileList :=
  { s with heap := Function.update s.heap p (some node) }

def modify (s : FileList) (p : UInt64) (f : OpenedFile → OpenedFile) : Option FileList :=
  (s.heap p).map fun node => s.store p (f node)

def setFile (s : FileList) (p file : UInt64) : Option FileList :=
  s.modify p fun node => { node with file := file }

def setNext (s : FileList) (p next : UInt64) : Option FileList :=
  s.modify p fun node => { node with next := next }

def setPrev (s : FileList) (p prev : UInt64) : Option FileList :=
  s.modify p fun node => { node with prev := prev }

def free (s : FileList) (p : UInt64) : FileList :=
  { s with heap := Function.update s.heap p none }

/-! ### The functions -/

/-- `AddOpenFile`, which adds to the tail; `malloc` is the new node and what its memory held before, unless
there is none. -/
def addOpenFile (s : FileList) (pFile : UInt64) (malloc : Option (UInt64 × OpenedFile)) :
    Option (Int32 × FileList) :=
  match malloc with
  | none => some (-1, s)
  | some (newFile, garbage) => do
      let s ← (s.store newFile garbage).setFile newFile pFile
      if s.gFirstFile = 0 then
        let s ← { s with gFirstFile := newFile }.setNext newFile newFile
        let s ← s.setPrev newFile newFile
        some (0, s)
      else if (← s.prev s.gFirstFile) = 0 then
        some (-1, s.free newFile)
      else
        let s ← s.setNext (← s.prev s.gFirstFile) newFile
        let s ← s.setPrev newFile (← s.prev s.gFirstFile)
        let s ← s.setNext newFile s.gFirstFile
        let s ← s.setPrev s.gFirstFile newFile
        some (0, s)

/-- The head pointer moves on if it points at the node that `DelOpenFile` deletes. -/
def moveFirst (s : FileList) (file : UInt64) : Option FileList :=
  if file = s.gFirstFile then (s.next file).map fun p => { s with gFirstFile := p } else some s

def delOpenFile (s : FileList) (file : UInt64) : Option FileList :=
  if file = 0 then some s
  else do
    let next ← s.next file
    if file = next then some { s with gFirstFile := 0 }
    else if (← s.next file) = 0 ∨ (← s.prev file) = 0 then some s
    else
      let s ← s.moveFirst file
      let s ← s.setPrev next (← s.prev file)
      s.setNext (← s.prev file) next

/-- The loop of `FindOpenFile` from `p` on, with at most `fuel` rounds. -/
def findLoop (s : FileList) (fileno : UInt64 → Int32) (fd : Int32) :
    Nat → UInt64 → Option (Int32 × UInt64)
  | 0, _ => none
  | fuel + 1, p => do
      let file ← s.file p
      if file ≠ 0 ∧ fileno file = fd then some (1, p)
      else
        let p ← s.next p
        if p ≠ s.gFirstFile ∧ p ≠ 0 then s.findLoop fileno fd fuel p else some (0, p)

/-- `file` is what the caller's pointer points at, unless it is null. -/
def findOpenFile (s : FileList) (fileno : UInt64 → Int32) (fuel : Nat) (fd : Int32)
    (file : Option UInt64) : Option (Int32 × Option UInt64) :=
  if s.gFirstFile = 0 then some (0, file)
  else do
    let (findFlag, p) ← s.findLoop fileno fd fuel s.gFirstFile
    let p := if findFlag = 0 then 0 else p
    some (findFlag, file.map fun _ => p)

/-! ### The links in memory -/

def links (s : FileList) : Links UInt64 where
  next p := (s.next p).getD 0
  prev p := (s.prev p).getD 0

variable {s : FileList} {p q : UInt64}

theorem next_eq (h : s.heap p ≠ none) : s.next p = some (s.links.next p) := by
  obtain ⟨node, hnode⟩ := Option.ne_none_iff_exists'.mp h
  simp [links, next, hnode]

theorem prev_eq (h : s.heap p ≠ none) : s.prev p = some (s.links.prev p) := by
  obtain ⟨node, hnode⟩ := Option.ne_none_iff_exists'.mp h
  simp [links, prev, hnode]

theorem heap_ne_none_of_file {f : UInt64} (h : s.file p = some f) : s.heap p ≠ none := by
  intro hnone
  simp [file, hnone] at h

theorem links_store (s : FileList) (p : UInt64) (node : OpenedFile) :
    (s.store p node).links = (s.links.setNext p node.next).setPrev p node.prev := by
  ext r
  · by_cases hr : r = p
    · subst hr
      simp [links, next, store]
    · simp [links, next, store, hr]
  · by_cases hr : r = p
    · subst hr
      simp [links, prev, store]
    · simp [links, prev, store, hr]

theorem file_store (s : FileList) (p : UInt64) (node : OpenedFile) :
    (s.store p node).file = Function.update s.file p (some node.file) := by
  funext r
  by_cases hr : r = p
  · subst hr
    simp [file, store]
  · simp [file, store, hr]

section Writes

variable (h : s.heap p ≠ none)

include h

theorem setFile_spec (f : UInt64) : ∃ s', s.setFile p f = some s' ∧ s'.links = s.links ∧
    s'.file = Function.update s.file p (some f) ∧ s'.gFirstFile = s.gFirstFile := by
  obtain ⟨node, hnode⟩ := Option.ne_none_iff_exists'.mp h
  have hnext : node.next = s.links.next p := by simp [links, next, hnode]
  have hprev : node.prev = s.links.prev p := by simp [links, prev, hnode]
  refine ⟨s.store p { node with file := f }, by simp [setFile, modify, hnode], ?_,
    file_store s p _, rfl⟩
  rw [links_store, hnext, hprev, Links.setNext_self, Links.setPrev_self]

theorem setNext_spec (q : UInt64) : ∃ s', s.setNext p q = some s' ∧
    s'.links = s.links.setNext p q ∧ s'.file = s.file ∧ s'.gFirstFile = s.gFirstFile := by
  obtain ⟨node, hnode⟩ := Option.ne_none_iff_exists'.mp h
  have hprev : node.prev = (s.links.setNext p q).prev p := by simp [links, prev, hnode]
  have hfile : some node.file = s.file p := by simp [file, hnode]
  refine ⟨s.store p { node with next := q }, by simp [setNext, modify, hnode], ?_, ?_, rfl⟩
  · rw [links_store, hprev, Links.setPrev_self]
  · rw [file_store, hfile, Function.update_eq_self]

theorem setPrev_spec (q : UInt64) : ∃ s', s.setPrev p q = some s' ∧
    s'.links = s.links.setPrev p q ∧ s'.file = s.file ∧ s'.gFirstFile = s.gFirstFile := by
  obtain ⟨node, hnode⟩ := Option.ne_none_iff_exists'.mp h
  have hnext : node.next = s.links.next p := by simp [links, next, hnode]
  have hfile : some node.file = s.file p := by simp [file, hnode]
  refine ⟨s.store p { node with prev := q }, by simp [setPrev, modify, hnode], ?_, ?_, rfl⟩
  · rw [links_store, hnext, Links.setNext_self]
  · rw [file_store, hfile, Function.update_eq_self]

end Writes

end FileList

/-! ### The ring -/

/-- An opened file and the address of its node. -/
structure Entry where
  node : UInt64
  file : UInt64
  deriving DecidableEq

/-- The nodes from `g_firstFile` on are a ring that holds these files in this order. -/
structure WellFormed (s : FileList) (entries : List Entry) : Prop where
  ring : s.links.IsRing (entries.map Entry.node)
  first : s.gFirstFile = (entries.map Entry.node).headD 0
  holds : ∀ e ∈ entries, e.node ≠ 0 ∧ s.file e.node = some e.file

open FileList

variable {s : FileList} {entries : List Entry} {x pFile : UInt64} {garbage : OpenedFile}

theorem wellFormed_empty : WellFormed FileList.empty [] := ⟨isRing_nil, rfl, by simp⟩

namespace WellFormed

theorem heap_ne_none (h : WellFormed s entries) {s' : FileList} (hfile : s'.file = s.file)
    {p : UInt64} (hp : p ∈ entries.map Entry.node) : s'.heap p ≠ none := by
  obtain ⟨e, he, rfl⟩ := List.mem_map.mp hp
  exact heap_ne_none_of_file (by rw [hfile]; exact (h.holds e he).2)

theorem ne_null (h : WellFormed s entries) {p : UInt64} (hp : p ∈ entries.map Entry.node) :
    p ≠ 0 := by
  obtain ⟨e, he, rfl⟩ := List.mem_map.mp hp
  exact (h.holds e he).1

theorem first_eq_zero_iff (h : WellFormed s entries) : s.gFirstFile = 0 ↔ entries = [] := by
  rw [h.first]
  cases entries with
  | nil => exact iff_of_true rfl rfl
  | cons e entries => exact iff_of_false (h.holds e List.mem_cons_self).1 (List.cons_ne_nil e entries)

theorem head?_eq (h : WellFormed s entries) (hne : entries ≠ []) :
    (entries.map Entry.node).head? = some s.gFirstFile := by
  obtain ⟨e, rest, rfl⟩ := List.exists_cons_of_ne_nil hne
  rw [h.first]
  rfl

/-- The list reaches its nodes and no others. -/
theorem mem_iff (h : WellFormed s entries) (p : UInt64) :
    p ∈ entries.map Entry.node ↔ s.gFirstFile ≠ 0 ∧ ∃ k, s.links.next^[k] s.gFirstFile = p := by
  rw [Ne, h.first_eq_zero_iff]
  cases entries with
  | nil => simp
  | cons e entries =>
      rw [h.ring.mem_iff (h.head?_eq (List.cons_ne_nil e entries))]
      exact (and_iff_right (List.cons_ne_nil e entries)).symm

/-- A new node at an address where there is none. -/
theorem store (h : WellFormed s entries) (hfresh : s.heap x = none) (garbage : OpenedFile) :
    x ∉ entries.map Entry.node ∧ WellFormed (s.store x garbage) entries := by
  have hx : x ∉ entries.map Entry.node := fun hmem => h.heap_ne_none rfl hmem hfresh
  refine ⟨hx, h.ring.congr ?_ ?_, h.first, ?_⟩
  · intro q hq
    simp [links_store, ne_of_mem_of_not_mem hq hx]
  · intro q hq
    simp [links_store, ne_of_mem_of_not_mem hq hx]
  · intro e he
    refine ⟨(h.holds e he).1, ?_⟩
    rw [file_store, Function.update_of_ne (ne_of_mem_of_not_mem (List.mem_map_of_mem he) hx)]
    exact (h.holds e he).2

end WellFormed

theorem addOpenFile_spec (h : WellFormed s entries) (hx : x ≠ 0) (hfresh : s.heap x = none)
    (garbage : OpenedFile) (pFile : UInt64) :
    ∃ s', s.addOpenFile pFile (some (x, garbage)) = some (0, s') ∧
      WellFormed s' (entries ++ [Entry.mk x pFile]) := by
  obtain ⟨hmem, h₀⟩ := h.store hfresh garbage
  have hheap : (s.store x garbage).heap x ≠ none := by simp [FileList.store]
  obtain ⟨s₁, hs₁, hlinks₁, hfile₁, hfirst₁⟩ := setFile_spec hheap pFile
  have hholds {s' : FileList} (hfile : s'.file = s₁.file) :
      ∀ e ∈ entries ++ [Entry.mk x pFile], e.node ≠ 0 ∧ s'.file e.node = some e.file := by
    intro e he
    rw [hfile, hfile₁]
    obtain he | he := List.mem_append.mp he
    · rw [Function.update_of_ne (ne_of_mem_of_not_mem (List.mem_map_of_mem he) hmem)]
      exact h₀.holds e he
    · obtain rfl := List.mem_singleton.mp he
      exact ⟨hx, Function.update_self ..⟩
  -- No write takes a node away, whatever it does to the links.
  have halloc {s' : FileList} (hfile : s'.file = s₁.file) {p : UInt64}
      (hp : p ∈ (entries ++ [Entry.mk x pFile]).map Entry.node) : s'.heap p ≠ none := by
    obtain ⟨e, he, rfl⟩ := List.mem_map.mp hp
    exact heap_ne_none_of_file (hholds hfile e he).2
  have hxmem : x ∈ (entries ++ [Entry.mk x pFile]).map Entry.node := by simp
  rw [FileList.addOpenFile]
  simp only [hs₁, Option.bind_eq_bind, Option.bind_some]
  cases entries with
  | nil =>
      obtain ⟨s₂, hs₂, hlinks₂, hfile₂, hfirst₂⟩ :=
        setNext_spec (s := { s₁ with gFirstFile := x }) (halloc rfl hxmem) x
      obtain ⟨s₃, hs₃, hlinks₃, hfile₃, hfirst₃⟩ := setPrev_spec (halloc hfile₂ hxmem) x
      refine ⟨s₃, ?_, ?_, hfirst₃.trans hfirst₂, hholds (hfile₃.trans hfile₂)⟩
      · have hnull : s₁.gFirstFile = 0 := hfirst₁.trans h.first
        rw [if_pos hnull, hs₂, Option.bind_some, hs₃, Option.bind_some]
      · rw [hlinks₃, hlinks₂]
        exact isRing_singleton_iff.mpr ⟨by simp, by simp⟩
  | cons first rest =>
      have hfirst : s₁.gFirstFile = first.node := hfirst₁.trans h.first
      have hn : first.node ∈ ((first :: rest) ++ [Entry.mk x pFile]).map Entry.node := by simp
      obtain ⟨p, hlast⟩ : ∃ p, ((first :: rest).map Entry.node).getLast? = some p := by
        rw [← Option.isSome_iff_exists, List.getLast?_isSome]
        exact List.cons_ne_nil _ _
      have hpmem := List.mem_of_getLast? hlast
      have hp : p ∈ ((first :: rest) ++ [Entry.mk x pFile]).map Entry.node := by
        rw [List.map_append]
        exact List.mem_append_left _ hpmem
      have hring : s₁.links.IsRing ((first :: rest).map Entry.node) := by
        rw [hlinks₁]
        exact h₀.ring
      have hprev : s₁.links.prev first.node = p := (hring.closed p hlast first.node rfl).2
      have hread : s₁.prev first.node = some p := by rw [prev_eq (halloc rfl hn), hprev]
      obtain ⟨s₂, hs₂, hlinks₂, hfile₂, hfirst₂⟩ := setNext_spec (halloc rfl hp) x
      have hread₂ : s₂.prev first.node = some p := by
        rw [prev_eq (halloc hfile₂ hn), hlinks₂, Links.setNext_prev, hprev]
      obtain ⟨s₃, hs₃, hlinks₃, hfile₃, hfirst₃⟩ := setPrev_spec (halloc hfile₂ hxmem) p
      have hfile₃ := hfile₃.trans hfile₂
      have hfirst₃ := hfirst₃.trans (hfirst₂.trans hfirst)
      obtain ⟨s₄, hs₄, hlinks₄, hfile₄, hfirst₄⟩ := setNext_spec (halloc hfile₃ hxmem) first.node
      have hfile₄ := hfile₄.trans hfile₃
      have hfirst₄ := hfirst₄.trans hfirst₃
      obtain ⟨s₅, hs₅, hlinks₅, hfile₅, hfirst₅⟩ := setPrev_spec (halloc hfile₄ hn) x
      refine ⟨s₅, ?_, ?_, hfirst₅.trans hfirst₄, hholds (hfile₅.trans hfile₄)⟩
      · rw [if_neg (by rw [hfirst]; exact h₀.ne_null (by simp)), hfirst, hread, Option.bind_some,
          if_neg (h₀.ne_null hpmem), Option.bind_some, hs₂, Option.bind_some, hfirst₂, hfirst, hread₂,
          Option.bind_some, hs₃, Option.bind_some, hfirst₃, hs₄, Option.bind_some, hfirst₄, hs₅,
          Option.bind_some]
      · rw [hlinks₅, hlinks₄, hlinks₃, hlinks₂, List.map_append]
        exact hring.insert_last hmem hlast rfl

theorem filter_node {before after : List Entry} {e : Entry}
    (h : ((before ++ e :: after).map Entry.node).Nodup) :
    (before ++ e :: after).filter (fun e' => e'.node ≠ e.node) = before ++ after := by
  rw [List.map_append, List.map_cons, List.nodup_middle, List.nodup_cons, ← List.map_append] at h
  have hother (e' : Entry) (he' : e' ∈ before ++ after) : e'.node ≠ e.node :=
    ne_of_mem_of_not_mem (List.mem_map_of_mem he') h.1
  rw [List.filter_append, List.filter_cons_of_neg (by simp), ← List.filter_append,
    List.filter_eq_self]
  intro e' he'
  simpa using hother e' he'

theorem moveFirst_spec {before after : List Entry} {e : Entry}
    (h : WellFormed s (before ++ e :: after)) (hne : s.links.next e.node ≠ e.node) :
    s.moveFirst e.node =
      some { s with gFirstFile := ((before ++ after).map Entry.node).headD 0 } := by
  have hring := h.ring
  have hnext := next_eq (h.heap_ne_none rfl (p := e.node) (by simp))
  rw [List.map_append, List.map_cons] at hring
  rw [moveFirst]
  cases before with
  | nil =>
      have hfirst : s.gFirstFile = e.node := h.first
      rw [if_pos hfirst.symm, hnext]
      cases after with
      | nil => exact absurd (hring.next_eq_self_iff.mpr rfl) hne
      | cons a after =>
          have hafter : s.links.next e.node = a.node := hring.next_eq
          rw [hafter]
          rfl
  | cons b before =>
      have hfirst : s.gFirstFile = b.node := h.first
      have hb : e.node ≠ b.node := by
        have hnodup := hring.nodup
        rw [List.nodup_middle, List.nodup_cons] at hnodup
        intro heq
        exact hnodup.1 (by simp [heq])
      rw [if_neg (by rwa [hfirst])]
      show some s = some { s with gFirstFile := b.node }
      rw [← hfirst]

theorem delOpenFile_spec (h : WellFormed s entries) {file : UInt64}
    (hfile : file ∈ entries.map Entry.node) :
    ∃ s', s.delOpenFile file = some s' ∧
      WellFormed s' (entries.filter fun e => e.node ≠ file) := by
  have hnext := next_eq (h.heap_ne_none rfl hfile)
  have hprev := prev_eq (h.heap_ne_none rfl hfile)
  have hnextMem := h.ring.next_mem hfile
  have hprevMem := h.ring.prev_mem hfile
  obtain ⟨e, he, rfl⟩ := List.mem_map.mp hfile
  obtain ⟨before, after, rfl⟩ := List.append_of_mem he
  have hring := h.ring
  have hnodup := hring.nodup
  rw [filter_node hnodup]
  rw [List.map_append, List.map_cons] at hring
  have hself := hring.next_eq_self_iff
  rw [← List.map_append, List.map_eq_nil_iff] at hself
  rw [FileList.delOpenFile, if_neg (h.ne_null hfile)]
  simp only [hnext, hprev, Option.bind_eq_bind, Option.bind_some]
  by_cases hone : s.links.next e.node = e.node
  · refine ⟨{ s with gFirstFile := 0 }, if_pos hone.symm, ?_⟩
    rw [hself.mp hone]
    exact ⟨isRing_nil, rfl, by simp⟩
  · rw [if_neg (Ne.symm hone), if_neg (not_or.mpr ⟨h.ne_null hnextMem, h.ne_null hprevMem⟩),
      moveFirst_spec h hone, Option.bind_some]
    set s₁ : FileList := { s with gFirstFile := ((before ++ after).map Entry.node).headD 0 }
    have hread : s₁.prev e.node = some (s.links.prev e.node) := hprev
    obtain ⟨s₂, hs₂, hlinks₂, hfile₂, hfirst₂⟩ :=
      setPrev_spec (s := s₁) (h.heap_ne_none rfl hnextMem) (s.links.prev e.node)
    have hread₂ : s₂.prev e.node = some (s.links.prev e.node) := by
      rw [prev_eq (h.heap_ne_none hfile₂ hfile), hlinks₂, Links.setPrev_prev,
        Function.update_of_ne (Ne.symm hone)]
      rfl
    obtain ⟨s₃, hs₃, hlinks₃, hfile₃, hfirst₃⟩ :=
      setNext_spec (h.heap_ne_none hfile₂ hprevMem) (s.links.next e.node)
    refine ⟨s₃, ?_, ?_, hfirst₃.trans hfirst₂, ?_⟩
    · rw [hread, Option.bind_some, hs₂, Option.bind_some, hread₂, Option.bind_some, hs₃]
    · rw [hlinks₃, hlinks₂, List.map_append]
      exact hring.unlink (by rwa [← List.map_append, Ne, List.map_eq_nil_iff, ← hself])
    · intro e' he'
      rw [hfile₃, hfile₂]
      exact h.holds e' (List.mem_of_mem_filter ((filter_node hnodup).symm ▸ he'))

theorem free_spec (h : WellFormed s entries) (hx : x ∉ entries.map Entry.node) :
    WellFormed (s.free x) entries := by
  have hother {p : UInt64} (hp : p ∈ entries.map Entry.node) : (s.free x).heap p = s.heap p :=
    Function.update_of_ne (ne_of_mem_of_not_mem hp hx) _ _
  refine ⟨h.ring.congr ?_ ?_, h.first, ?_⟩
  · intro q hq
    simp [links, next, hother hq]
  · intro q hq
    simp [links, prev, hother hq]
  · intro e he
    rw [FileList.file, hother (List.mem_map_of_mem he)]
    exact h.holds e he

section Find

variable (fileno : UInt64 → Int32) (fd : Int32)

/-- The file is there and has the number that is looked for. -/
def Entry.HasNumber (e : Entry) : Prop := e.file ≠ 0 ∧ fileno e.file = fd

instance (e : Entry) : Decidable (e.HasNumber fileno fd) := inferInstanceAs (Decidable (_ ∧ _))

/-- One round of the loop. -/
theorem findLoop_step (h : WellFormed s entries) {e : Entry} (he : e ∈ entries) (fuel : Nat) :
    s.findLoop fileno fd (fuel + 1) e.node =
      if e.HasNumber fileno fd then some (1, e.node)
      else if s.links.next e.node ≠ s.gFirstFile then
        s.findLoop fileno fd fuel (s.links.next e.node)
      else some (0, s.gFirstFile) := by
  have hmem : e.node ∈ entries.map Entry.node := List.mem_map_of_mem he
  have hnull := h.ne_null (h.ring.next_mem hmem)
  rw [FileList.findLoop]
  simp only [(h.holds e he).2, next_eq (h.heap_ne_none rfl hmem), Option.bind_eq_bind,
    Option.bind_some]
  refine if_congr Iff.rfl rfl ?_
  by_cases hfirst : s.links.next e.node = s.gFirstFile
  · rw [if_neg (not_and_of_not_left _ (not_not.mpr hfirst)), if_neg (not_not.mpr hfirst), hfirst]
  · rw [if_pos ⟨hfirst, hnull⟩, if_pos hfirst]

/-- The loop ends at the first node with the file number, or back at the first node. -/
theorem findLoop_spec (h : WellFormed s entries) {before after : List Entry} {e : Entry}
    (hsplit : entries = before ++ e :: after) {fuel : Nat} (hfuel : after.length < fuel) :
    s.findLoop fileno fd fuel e.node =
      some (((e :: after).find? fun e => e.HasNumber fileno fd).elim (0, s.gFirstFile) fun e =>
        (1, e.node)) := by
  have hhead := h.head?_eq (by simp [hsplit])
  induction after generalizing before e fuel with
  | nil =>
      obtain ⟨fuel, rfl⟩ := Nat.exists_eq_succ_of_ne_zero (Nat.ne_of_gt hfuel)
      have hlast : s.links.next e.node = s.gFirstFile :=
        (h.ring.closed e.node (by simp [hsplit]) s.gFirstFile hhead).1
      rw [findLoop_step fileno fd h (by simp [hsplit]), if_neg (not_not.mpr hlast)]
      by_cases hnumber : e.HasNumber fileno fd
      · simp [hnumber]
      · simp [hnumber]
  | cons a after ih =>
      obtain ⟨fuel, rfl⟩ := Nat.exists_eq_succ_of_ne_zero (Nat.ne_of_gt (Nat.zero_lt_of_lt hfuel))
      have hring := h.ring
      rw [hsplit, List.map_append, List.map_cons, List.map_cons] at hring
      have hnext : s.links.next e.node = a.node := hring.next_eq
      have hfirst : a.node ≠ s.gFirstFile := by
        refine ne_of_mem_of_not_mem ?_ (notMem_tail h.ring.nodup hhead)
        cases before with
        | nil => simp [hsplit]
        | cons b before => simp [hsplit]
      rw [findLoop_step fileno fd h (by simp [hsplit]), hnext, if_pos hfirst,
        ih (show entries = (before ++ [e]) ++ a :: after by simp [hsplit]) (by simpa using hfuel)]
      by_cases hnumber : e.HasNumber fileno fd
      · simp [hnumber]
      · simp [hnumber]

theorem findOpenFile_eq (h : WellFormed s entries) {fuel : Nat} (hfuel : entries.length ≤ fuel)
    (file : Option UInt64) :
    s.findOpenFile fileno fuel fd file =
      some ((entries.find? fun e => e.HasNumber fileno fd).elim
        (0, if entries = [] then file else file.map fun _ => 0) fun e =>
          (1, file.map fun _ => e.node)) := by
  rw [FileList.findOpenFile]
  cases entries with
  | nil =>
      rw [if_pos (h.first_eq_zero_iff.mpr rfl)]
      rfl
  | cons first rest =>
      have hfirst : s.gFirstFile = first.node := h.first
      have hloop := findLoop_spec fileno fd h (List.nil_append _).symm hfuel
      rw [if_neg (by simp [h.first_eq_zero_iff]), hfirst, hloop]
      cases hfind : (first :: rest).find? fun e => e.HasNumber fileno fd with
      | none => rfl
      | some e => rfl

/-- `FindOpenFile` returns, and it finds a node exactly if there is one. -/
theorem findOpenFile_spec (h : WellFormed s entries) {fuel : Nat} (hfuel : entries.length ≤ fuel)
    (file : Option UInt64) :
    ∃ findFlag out, s.findOpenFile fileno fuel fd file = some (findFlag, out) ∧
      ((findFlag = 1 ∧ ∃ e ∈ entries, e.HasNumber fileno fd ∧ out = file.map fun _ => e.node) ∨
        (findFlag = 0 ∧ ∀ e ∈ entries, ¬ e.HasNumber fileno fd)) := by
  rw [findOpenFile_eq fileno fd h hfuel]
  cases hfind : entries.find? fun e => e.HasNumber fileno fd with
  | none => exact ⟨0, _, rfl, Or.inr ⟨rfl, by simpa using hfind⟩⟩
  | some e =>
      have hnumber : e.HasNumber fileno fd := by simpa using List.find?_some hfind
      exact ⟨1, _, rfl, Or.inl ⟨rfl, e, List.mem_of_find?_eq_some hfind, hnumber, rfl⟩⟩

end Find

/-! ### Any calls -/

/-- A call on the list, with what `malloc` gives it; or the caller's `free` of a deleted node. -/
inductive Call where
  | add (pFile : UInt64) (malloc : Option (UInt64 × OpenedFile))
  | del (file : UInt64)
  | free (file : UInt64)

def Call.exec (s : FileList) : Call → Option FileList
  | add pFile malloc => (s.addOpenFile pFile malloc).map Prod.snd
  | del file => s.delOpenFile file
  | free file => some (s.free file)

/-- `malloc` gives memory that is not in use, a node that is deleted is in the list, and one that is freed is
not. -/
def Call.Allowed (s : FileList) (entries : List Entry) : Call → Prop
  | add _ none => True
  | add _ (some (newFile, _)) => newFile ≠ 0 ∧ s.heap newFile = none
  | del file => file ∈ entries.map Entry.node
  | free file => file ∉ entries.map Entry.node ∧ s.heap file ≠ none

def Call.after (entries : List Entry) : Call → List Entry
  | add _ none => entries
  | add pFile (some (newFile, _)) => entries ++ [⟨newFile, pFile⟩]
  | del file => entries.filter fun e => e.node ≠ file
  | free _ => entries

/-- The files that were added and not yet deleted, in the order in which they were added. -/
def notDeleted (calls : List Call) : List Entry := calls.foldl Call.after []

inductive Run : List Call → FileList → Prop
  | empty : Run [] FileList.empty
  | call {calls : List Call} {call : Call} {s s' : FileList} : Run calls s →
      call.Allowed s (notDeleted calls) → call.exec s = some s' → Run (calls ++ [call]) s'

theorem exec_spec (h : WellFormed s entries) {call : Call} (hallowed : call.Allowed s entries) :
    ∃ s', call.exec s = some s' ∧ WellFormed s' (call.after entries) := by
  cases call with
  | add pFile malloc =>
      cases malloc with
      | none => exact ⟨s, rfl, h⟩
      | some new =>
          obtain ⟨s', hs', h'⟩ := addOpenFile_spec h hallowed.1 hallowed.2 new.2 pFile
          exact ⟨s', congrArg (Option.map Prod.snd) hs', h'⟩
  | del file => exact delOpenFile_spec h hallowed
  | free file => exact ⟨s.free file, rfl, free_spec h hallowed.1⟩

theorem run_wellFormed {calls : List Call} (h : Run calls s) : WellFormed s (notDeleted calls) := by
  induction h with
  | empty => exact wellFormed_empty
  | call _ hallowed hexec ih =>
      obtain ⟨s', hs', h'⟩ := exec_spec ih hallowed
      obtain rfl := Option.some.inj (hs'.symm.trans hexec)
      rw [notDeleted, List.foldl_append]
      exact h'

/-! ### The list of the requests -/

/-- The files without their nodes, as `FsState` has them. -/
def openedFiles (entries : List Entry) : List Teecd.OpenedFile := entries.map fun e => ⟨e.file⟩

variable {fs : FsState}

theorem openedFiles_add (hfs : fs.openedFiles = openedFiles entries) (pFile : UInt64)
    (malloc : Option (UInt64 × OpenedFile)) :
    (Teecd.addOpenFile malloc.isSome fs pFile).2.openedFiles =
      openedFiles ((Call.add pFile malloc).after entries) := by
  cases malloc with
  | none => exact hfs
  | some new =>
      show fs.openedFiles ++ [⟨pFile⟩] = openedFiles (entries ++ [⟨new.1, pFile⟩])
      rw [hfs, openedFiles, openedFiles, List.map_append]
      rfl

theorem openedFiles_del (h : WellFormed s entries) (hfs : fs.openedFiles = openedFiles entries)
    {i : Nat} {e : Entry} (he : entries[i]? = some e) :
    (Teecd.delOpenFile fs i).openedFiles = openedFiles ((Call.del e.node).after entries) := by
  obtain ⟨hi, hget⟩ := List.getElem?_eq_some_iff.mp he
  have hsplit : entries = entries.take i ++ e :: entries.drop (i + 1) := by
    rw [← hget, List.getElem_cons_drop, List.take_append_drop]
  have hnodup := h.ring.nodup
  rw [hsplit] at hnodup
  have hafter := filter_node hnodup
  rw [← hsplit] at hafter
  show fs.openedFiles.eraseIdx i = openedFiles (entries.filter fun e' => e'.node ≠ e.node)
  rw [hafter, hfs, openedFiles, openedFiles, List.eraseIdx_eq_take_drop_succ, List.map_append,
    List.map_take, List.map_drop]

theorem findLoop_openedFiles {streams : List Stream} {fileno : UInt64 → Int32}
    (hopen : ∀ e ∈ entries, e.file ≠ 0 → Teecd.fileno streams e.file = some (fileno e.file))
    (fd : Int32) (i : Nat) :
    ((entries.find? fun e => e.HasNumber fileno fd) = none ∧
        Teecd.findLoop streams fd (openedFiles entries) i = .notFound) ∨
      ∃ j e, (entries.find? fun e => e.HasNumber fileno fd) = some e ∧ entries[j]? = some e ∧
        Teecd.findLoop streams fd (openedFiles entries) i = .found (i + j) e.file := by
  induction entries generalizing i with
  | nil => exact Or.inl ⟨rfl, rfl⟩
  | cons e entries ih =>
      have hlater := ih (fun e' he' => hopen e' (List.mem_cons_of_mem e he')) (i + 1)
      have hunfold : Teecd.findLoop streams fd (openedFiles (e :: entries)) i =
          if e.HasNumber fileno fd then .found i e.file
          else Teecd.findLoop streams fd (openedFiles entries) (i + 1) := by
        rw [openedFiles, List.map_cons, Teecd.findLoop]
        by_cases hnull : e.file = 0
        · rw [if_pos hnull, if_neg fun hnumber : e.HasNumber fileno fd => hnumber.1 hnull]
          rfl
        · rw [if_neg hnull, hopen e List.mem_cons_self hnull]
          exact if_congr (and_iff_right hnull).symm rfl rfl
      rw [hunfold]
      by_cases hnumber : e.HasNumber fileno fd
      · rw [if_pos hnumber, List.find?_cons_of_pos (by simpa using hnumber)]
        exact Or.inr ⟨0, e, rfl, rfl, rfl⟩
      · rw [if_neg hnumber, List.find?_cons_of_neg (by simpa using hnumber)]
        obtain hnone | ⟨j, e', hfind, hget, hloop⟩ := hlater
        · exact Or.inl hnone
        · refine Or.inr ⟨j + 1, e', hfind, hget, ?_⟩
          rw [hloop, Nat.add_assoc, Nat.add_comm 1 j]

/-- While the streams of the list are open, the search of the requests is `FindOpenFile`. -/
theorem findOpenFile_openedFiles (h : WellFormed s entries)
    (hfs : fs.openedFiles = openedFiles entries) {fileno : UInt64 → Int32}
    (hopen : ∀ e ∈ entries, e.file ≠ 0 → Teecd.fileno fs.streams e.file = some (fileno e.file))
    (fd : Int32) {fuel : Nat} (hfuel : entries.length ≤ fuel) (file : Option UInt64) :
    (Teecd.findOpenFile fs fd = .notFound ∧
        ∃ out, s.findOpenFile fileno fuel fd file = some (0, out)) ∨
      ∃ i e, entries[i]? = some e ∧ Teecd.findOpenFile fs fd = .found i e.file ∧
        s.findOpenFile fileno fuel fd file = some (1, file.map fun _ => e.node) := by
  rw [findOpenFile_eq fileno fd h hfuel, Teecd.findOpenFile, hfs]
  obtain ⟨hfind, hloop⟩ | ⟨i, e, hfind, hget, hloop⟩ := findLoop_openedFiles hopen fd 0
  · rw [hfind]
    exact Or.inl ⟨hloop, _, rfl⟩
  · rw [hfind]
    exact Or.inr ⟨i, e, hget, by rw [hloop, Nat.zero_add], rfl⟩

/-- After any calls the nodes that `g_firstFile` leads to are a ring of the files not yet deleted in the order
in which they were added. The next call returns, and `FindOpenFile` of any number does: with a node of that
number if there is one. -/
theorem openedRing_spec {calls : List Call} (h : Run calls s) :
    WellFormed s (notDeleted calls) ∧
    (∀ p, p ∈ (notDeleted calls).map Entry.node ↔
      s.gFirstFile ≠ 0 ∧ ∃ k, s.links.next^[k] s.gFirstFile = p) ∧
    (∀ call : Call, call.Allowed s (notDeleted calls) → ∃ s', call.exec s = some s') ∧
    ∀ (fileno : UInt64 → Int32) (fd : Int32) (file : Option UInt64) (fuel : Nat),
      (notDeleted calls).length ≤ fuel →
      ∃ findFlag out, s.findOpenFile fileno fuel fd file = some (findFlag, out) ∧
        ((findFlag = 1 ∧ ∃ e ∈ notDeleted calls, e.HasNumber fileno fd ∧
            out = file.map fun _ => e.node) ∨
          (findFlag = 0 ∧ ∀ e ∈ notDeleted calls, ¬ e.HasNumber fileno fd)) := by
  have hwf := run_wellFormed h
  refine ⟨hwf, hwf.mem_iff, fun call hallowed => ?_, fun fileno fd file fuel hfuel =>
    findOpenFile_spec fileno fd hwf hfuel file⟩
  obtain ⟨s', hs', -⟩ := exec_spec hwf hallowed
  exact ⟨s', hs'⟩

/-- Two files, of which the first one is deleted and its memory used for a third. -/
theorem openedRing_reuse : ∃ s,
    Run [.add 7 (some (16, ⟨0, 0, 0⟩)), .add 8 (some (32, ⟨0, 0, 0⟩)), .del 16, .free 16,
      .add 9 (some (16, ⟨1, 1, 1⟩))] s ∧ WellFormed s [⟨32, 8⟩, ⟨16, 9⟩] := by
  have h₁ := @Run.call _ (.add 7 (some (16, ⟨0, 0, 0⟩))) _ _ Run.empty ⟨by decide, rfl⟩ rfl
  have h₂ := @Run.call _ (.add 8 (some (32, ⟨0, 0, 0⟩))) _ _ h₁ ⟨by decide, rfl⟩ rfl
  have h₃ := @Run.call _ (.del 16) _ _ h₂ (show (16 : UInt64) ∈ [16, 32] by decide) rfl
  have h₄ := @Run.call _ (.free 16) _ _ h₃
    ⟨show (16 : UInt64) ∉ [32] by decide, Option.some_ne_none _⟩ rfl
  have h₅ := @Run.call _ (.add 9 (some (16, ⟨1, 1, 1⟩))) _ _ h₄ ⟨by decide, rfl⟩ rfl
  exact ⟨_, h₅, (openedRing_spec h₅).1⟩

end ITrustee.Teecd.OpenedRing
