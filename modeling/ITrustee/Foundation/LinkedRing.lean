import Mathlib.Tactic

/-!
# Circular doubly linked lists

The links of nodes that know their next and their previous node. `IsRing` says that a list of nodes is
a ring, the last node linked to the first one. A ring may be read from any of its nodes on
(`append_comm`), so that what holds of its first node holds of every node.
-/

namespace LinkedRing

open Function

variable {α : Type*}

@[ext] structure Links (α : Type*) where
  next : α → α
  prev : α → α

namespace Links

/-- `b` follows `a`, and both know. -/
def Joined (links : Links α) (a b : α) : Prop := links.next a = b ∧ links.prev b = a

structure IsRing (links : Links α) (nodes : List α) : Prop where
  nodup : nodes.Nodup
  chain : nodes.IsChain links.Joined
  closed : ∀ last ∈ nodes.getLast?, ∀ first ∈ nodes.head?, links.Joined last first

variable [DecidableEq α]

def setNext (links : Links α) (a b : α) : Links α := { links with next := update links.next a b }

def setPrev (links : Links α) (a b : α) : Links α := { links with prev := update links.prev a b }

@[simp] theorem setNext_next (links : Links α) (a b : α) :
    (links.setNext a b).next = update links.next a b := rfl

@[simp] theorem setNext_prev (links : Links α) (a b : α) :
    (links.setNext a b).prev = links.prev := rfl

@[simp] theorem setPrev_next (links : Links α) (a b : α) :
    (links.setPrev a b).next = links.next := rfl

@[simp] theorem setPrev_prev (links : Links α) (a b : α) :
    (links.setPrev a b).prev = update links.prev a b := rfl

@[simp] theorem setNext_self (links : Links α) (a : α) : links.setNext a (links.next a) = links := by
  rw [setNext, update_eq_self]

@[simp] theorem setPrev_self (links : Links α) (a : α) : links.setPrev a (links.prev a) = links := by
  rw [setPrev, update_eq_self]

end Links

open Links

variable {links links' : Links α} {nodes before after : List α} {x p n q : α}

/-! ### Reading a ring -/

/-- Inside a chain, the last node's next link and the first node's previous one do not matter. -/
theorem chain_congr (h : nodes.IsChain links.Joined)
    (hnext : ∀ q ∈ nodes.dropLast, links'.next q = links.next q)
    (hprev : ∀ q ∈ nodes.tail, links'.prev q = links.prev q) : nodes.IsChain links'.Joined := by
  induction nodes with
  | nil => exact List.isChain_nil
  | cons a rest ih =>
      cases rest with
      | nil => exact List.isChain_singleton a
      | cons b rest =>
          obtain ⟨hab, hrest⟩ := List.isChain_cons_cons.mp h
          refine List.isChain_cons_cons.mpr ⟨⟨?_, ?_⟩, ih hrest ?_ ?_⟩
          · rw [hnext a (by simp)]
            exact hab.1
          · rw [hprev b (by simp)]
            exact hab.2
          · intro q hq
            exact hnext q (by rw [List.dropLast_cons_cons]; exact List.mem_cons_of_mem a hq)
          · intro q hq
            exact hprev q (List.mem_of_mem_tail hq)

theorem notMem_dropLast (h : nodes.Nodup) (hlast : nodes.getLast? = some p) :
    p ∉ nodes.dropLast := by
  rw [← List.dropLast_append_getLast? p hlast, List.nodup_append] at h
  intro hmem
  exact h.2.2 p hmem p (List.mem_singleton_self p) rfl

theorem notMem_tail (h : nodes.Nodup) (hfirst : nodes.head? = some n) : n ∉ nodes.tail := by
  rw [← List.cons_head?_tail hfirst] at h
  exact (List.nodup_cons.mp h).1

theorem isRing_nil : links.IsRing [] := ⟨List.nodup_nil, List.isChain_nil, by simp⟩

theorem isRing_singleton_iff : links.IsRing [x] ↔ links.next x = x ∧ links.prev x = x := by
  constructor
  · intro h
    exact h.closed x rfl x rfl
  · intro h
    refine ⟨List.nodup_singleton x, List.isChain_singleton x, ?_⟩
    intro last hlast first hfirst
    obtain rfl := Option.some.inj hlast
    obtain rfl := Option.some.inj hfirst
    exact h

theorem Links.IsRing.congr (h : links.IsRing nodes)
    (hnext : ∀ q ∈ nodes, links'.next q = links.next q)
    (hprev : ∀ q ∈ nodes, links'.prev q = links.prev q) : links'.IsRing nodes := by
  refine ⟨h.nodup, chain_congr h.chain (fun q hq => hnext q (List.mem_of_mem_dropLast hq))
    (fun q hq => hprev q (List.mem_of_mem_tail hq)), ?_⟩
  intro last hlast first hfirst
  obtain ⟨hl, hf⟩ := h.closed last hlast first hfirst
  exact ⟨(hnext last (List.mem_of_getLast? hlast)).trans hl,
    (hprev first (List.mem_of_head? hfirst)).trans hf⟩

/-- A ring has no distinguished beginning. -/
theorem Links.IsRing.append_comm (h : links.IsRing (before ++ after)) :
    links.IsRing (after ++ before) := by
  by_cases hbefore : before = []
  · simpa [hbefore] using h
  by_cases hafter : after = []
  · simpa [hafter] using h
  obtain ⟨hchain, hchain', hjoin⟩ := List.isChain_append.mp h.chain
  refine ⟨List.nodup_append_comm.mp h.nodup, List.isChain_append.mpr ⟨hchain', hchain, ?_⟩, ?_⟩
  · intro last hlast first hfirst
    refine h.closed last ?_ first ?_
    · rwa [List.getLast?_append_of_ne_nil _ hafter]
    · rwa [List.head?_append_of_ne_nil _ hbefore]
  · intro last hlast first hfirst
    rw [List.getLast?_append_of_ne_nil _ hbefore] at hlast
    rw [List.head?_append_of_ne_nil _ hafter] at hfirst
    exact hjoin last hlast first hfirst

theorem Links.IsRing.next_first (h : links.IsRing (x :: q :: after)) : links.next x = q :=
  (List.isChain_cons_cons.mp h.chain).1.1

theorem Links.IsRing.next_eq (h : links.IsRing (before ++ x :: q :: after)) : links.next x = q := by
  have hchain := (List.isChain_append.mp h.chain).2.1
  exact (List.isChain_cons_cons.mp hchain).1.1

theorem Links.IsRing.next_last (h : links.IsRing (n :: before ++ [x])) : links.next x = n :=
  (h.closed x List.getLast?_concat n rfl).1

/-- Only the node of a ring of one node follows itself. -/
theorem Links.IsRing.next_eq_self_iff (h : links.IsRing (before ++ x :: after)) :
    links.next x = x ↔ before ++ after = [] := by
  have hring := h.append_comm
  rw [List.cons_append] at hring
  rw [List.append_eq_nil_iff, and_comm, ← List.append_eq_nil_iff]
  cases hrest : after ++ before with
  | nil =>
      rw [hrest] at hring
      exact iff_of_true (isRing_singleton_iff.mp hring).1 rfl
  | cons y rest =>
      rw [hrest] at hring
      have hnext := hring.next_first
      refine iff_of_false (fun hself => ?_) (List.cons_ne_nil y rest)
      obtain rfl := hself.symm.trans hnext
      exact (List.nodup_cons.mp hring.nodup).1 List.mem_cons_self

theorem Links.IsRing.next_mem (h : links.IsRing nodes) (hx : x ∈ nodes) : links.next x ∈ nodes := by
  obtain ⟨before, after, rfl⟩ := List.append_of_mem hx
  cases after with
  | cons y after => simp [h.next_eq]
  | nil =>
      cases before with
      | nil => simp [(isRing_singleton_iff.mp h).1]
      | cons n before => simp [h.next_last]

/-- Every node has one before it, around the end of the list if it is the first. -/
theorem Links.IsRing.exists_prev (h : links.IsRing nodes) (hx : x ∈ nodes) :
    ∃ p ∈ nodes, links.Joined p x := by
  obtain ⟨before, after, rfl⟩ := List.append_of_mem hx
  have hring := h.append_comm
  obtain ⟨last, hlast⟩ : ∃ last, (x :: after ++ before).getLast? = some last := by
    rw [← Option.isSome_iff_exists, List.getLast?_isSome]
    exact List.cons_ne_nil _ _
  exact ⟨last, List.perm_append_comm.mem_iff.mp (List.mem_of_getLast? hlast),
    hring.closed last hlast x rfl⟩

theorem Links.IsRing.prev_mem (h : links.IsRing nodes) (hx : x ∈ nodes) : links.prev x ∈ nodes := by
  obtain ⟨p, hp, -, hprev⟩ := h.exists_prev hx
  rwa [hprev]

theorem Links.IsRing.next_prev (h : links.IsRing nodes) (hx : x ∈ nodes) :
    links.next (links.prev x) = x := by
  obtain ⟨p, hp, hnext, hprev⟩ := h.exists_prev hx
  rw [hprev, hnext]

/-- The nodes of a ring are what its next links lead to. -/
theorem Links.IsRing.mem_iff (h : links.IsRing nodes) (hn : nodes.head? = some n) :
    q ∈ nodes ↔ ∃ k, links.next^[k] n = q := by
  constructor
  · intro hq
    obtain ⟨before, after, rfl⟩ := List.append_of_mem hq
    clear hq
    induction before using List.reverseRecOn generalizing q after with
    | nil => exact ⟨0, (Option.some.inj hn).symm⟩
    | append_singleton before a ih =>
        rw [List.append_assoc, List.singleton_append] at h hn
        obtain ⟨k, hk⟩ := ih (q :: after) h hn
        refine ⟨k + 1, ?_⟩
        rw [iterate_succ_apply', hk]
        exact h.next_eq
  · rintro ⟨k, rfl⟩
    induction k with
    | zero => exact List.mem_of_head? hn
    | succ k ih =>
        rw [iterate_succ_apply']
        exact h.next_mem ih

/-! ### Changing a ring -/

variable [DecidableEq α]

/-- A new node between the last one and the first one. -/
theorem Links.IsRing.insert_last (h : links.IsRing nodes) (hx : x ∉ nodes) (hp : nodes.getLast? = some p)
    (hn : nodes.head? = some n) :
    ((((links.setNext p x).setPrev x p).setNext x n).setPrev n x).IsRing (nodes ++ [x]) := by
  have hpmem := List.mem_of_getLast? hp
  have hnmem := List.mem_of_head? hn
  have hpx : p ≠ x := ne_of_mem_of_not_mem hpmem hx
  have hnx : n ≠ x := ne_of_mem_of_not_mem hnmem hx
  have hplast := notMem_dropLast h.nodup hp
  have hnfirst := notMem_tail h.nodup hn
  refine ⟨?_, List.isChain_append.mpr ⟨chain_congr h.chain ?_ ?_, List.isChain_singleton x, ?_⟩, ?_⟩
  · rw [List.nodup_append]
    exact ⟨h.nodup, List.nodup_singleton x, by simpa using fun q hq => ne_of_mem_of_not_mem hq hx⟩
  · intro q hq
    have hqx := ne_of_mem_of_not_mem (List.mem_of_mem_dropLast hq) hx
    have hqp := ne_of_mem_of_not_mem hq hplast
    simp [hqx, hqp]
  · intro q hq
    have hqx := ne_of_mem_of_not_mem (List.mem_of_mem_tail hq) hx
    have hqn := ne_of_mem_of_not_mem hq hnfirst
    simp [hqx, hqn]
  · intro last hlast first hfirst
    obtain rfl := Option.some.inj (hp.symm.trans hlast)
    obtain rfl := Option.some.inj hfirst
    exact ⟨by simp [hpx], by simp [hnx.symm]⟩
  · intro last hlast first hfirst
    rw [List.getLast?_concat] at hlast
    rw [List.head?_append, hn] at hfirst
    obtain rfl := Option.some.inj hlast
    obtain rfl := Option.some.inj hfirst
    exact ⟨by simp, by simp⟩

/-- The two neighbours of a node joined, which leaves it out. -/
theorem Links.IsRing.unlink (h : links.IsRing (before ++ x :: after)) (hne : before ++ after ≠ []) :
    ((links.setPrev (links.next x) (links.prev x)).setNext (links.prev x)
      (links.next x)).IsRing (before ++ after) := by
  have hring : links.IsRing (x :: (after ++ before)) := h.append_comm
  suffices hrest : ((links.setPrev (links.next x) (links.prev x)).setNext (links.prev x)
      (links.next x)).IsRing (after ++ before) from hrest.append_comm
  have hne' : after ++ before ≠ [] := by simpa [and_comm] using hne
  generalize after ++ before = nodes at hring hne'
  obtain ⟨hx, hnodup⟩ := List.nodup_cons.mp hring.nodup
  obtain ⟨n, rest, rfl⟩ := List.exists_cons_of_ne_nil hne'
  obtain ⟨⟨hnext, -⟩, hchain⟩ := List.isChain_cons_cons.mp hring.chain
  obtain ⟨p, hp⟩ : ∃ p, (n :: rest).getLast? = some p := by
    rw [← Option.isSome_iff_exists, List.getLast?_isSome]
    exact hne'
  have hprev : links.prev x = p := (hring.closed p (by rwa [List.getLast?_cons_cons]) x rfl).2
  rw [hnext, hprev]
  refine ⟨hnodup, chain_congr hchain ?_ ?_, ?_⟩
  · intro q hq
    have hqp := ne_of_mem_of_not_mem hq (notMem_dropLast hnodup hp)
    simp [hqp]
  · intro q hq
    have hqn := ne_of_mem_of_not_mem hq (notMem_tail hnodup rfl)
    simp [hqn]
  · intro last hlast first hfirst
    obtain rfl := Option.some.inj (hp.symm.trans hlast)
    obtain rfl := Option.some.inj hfirst
    exact ⟨by simp, by simp⟩

end LinkedRing
