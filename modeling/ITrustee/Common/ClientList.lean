import Mathlib.Tactic
import ITrustee.Foundation.LinkedRing

/-!
# The intrusive list

`tee_client_list.h` on nodes in memory. A list is a ring of its head, which is no entry, and the nodes of
its entries. A read or a write at an address without a node does not return. The functions do to the
nodes what the operations of the same names do to a list of addresses (`listCalls_refine`), and a
`LIST_FOR_EACH_SAFE` loop comes to every entry although its body takes entries away
(`listForEachSafe_spec`).
-/

namespace ITrustee.ClientList

open LinkedRing

/-- The links of the `ListNode`s, and where there is one. -/
structure Memory where
  links : Links UInt64
  allocated : UInt64 → Bool

namespace Memory

def next (m : Memory) (p : UInt64) : Option UInt64 :=
  if m.allocated p then some (m.links.next p) else none

def prev (m : Memory) (p : UInt64) : Option UInt64 :=
  if m.allocated p then some (m.links.prev p) else none

def setNext (m : Memory) (p q : UInt64) : Option Memory :=
  if m.allocated p then some { m with links := m.links.setNext p q } else none

def setPrev (m : Memory) (p q : UInt64) : Option Memory :=
  if m.allocated p then some { m with links := m.links.setPrev p q } else none

/-- A new node, with whatever its memory held before. -/
def malloc (m : Memory) (p next prev : UInt64) : Memory where
  links := (m.links.setNext p next).setPrev p prev
  allocated := Function.update m.allocated p true

def free (m : Memory) (p : UInt64) : Memory :=
  { m with allocated := Function.update m.allocated p false }

/-! ### The functions -/

def listInit (m : Memory) (list : UInt64) : Option Memory := do
  let m ← m.setNext list list
  m.setPrev list list

def listEmpty (m : Memory) (list : UInt64) : Option Bool := do
  some (list = (← m.next list))

def listInsertHead (m : Memory) (list entry : UInt64) : Option Memory := do
  let m ← m.setPrev (← m.next list) entry
  let m ← m.setNext entry (← m.next list)
  let m ← m.setPrev entry list
  m.setNext list entry

def listInsertTail (m : Memory) (list entry : UInt64) : Option Memory := do
  let m ← m.setNext entry list
  let m ← m.setPrev entry (← m.prev list)
  let m ← m.setNext (← m.prev list) entry
  m.setPrev list entry

def listRemoveEntry (m : Memory) (entry : UInt64) : Option Memory := do
  let m ← m.setNext (← m.prev entry) (← m.next entry)
  m.setPrev (← m.next entry) (← m.prev entry)

def listRemoveHead (m : Memory) (list : UInt64) : Option (UInt64 × Memory) := do
  if ← m.listEmpty list then some (0, m)
  else
    let entry ← m.next list
    let m ← m.listRemoveEntry entry
    some (entry, m)

def listRemoveTail (m : Memory) (list : UInt64) : Option (UInt64 × Memory) := do
  if ← m.listEmpty list then some (0, m)
  else
    let entry ← m.prev list
    let m ← m.listRemoveEntry entry
    some (entry, m)

end Memory

/-! ### Well-formed lists -/

/-- The head and these entries, in this order, are a list. -/
structure WellFormed (m : Memory) (list : UInt64) (entries : List UInt64) : Prop where
  ring : m.links.IsRing (list :: entries)
  allocated : ∀ p ∈ list :: entries, m.allocated p = true
  null : m.allocated 0 = false

open Memory

variable {m : Memory} {list entry : UInt64} {entries before after : List UInt64}

namespace WellFormed

theorem ne_null (h : WellFormed m list entries) {p : UInt64} (hp : p ∈ list :: entries) :
    p ≠ 0 := by
  rintro rfl
  have hp := h.allocated 0 hp
  rw [h.null] at hp
  exact Bool.false_ne_true hp

theorem notMem (h : WellFormed m list entries) : list ∉ entries :=
  (List.nodup_cons.mp h.ring.nodup).1

/-- Changing the links and adding or taking away nodes elsewhere. -/
theorem congr (h : WellFormed m list entries) {m' : Memory}
    (hnext : ∀ p ∈ list :: entries, m'.links.next p = m.links.next p)
    (hprev : ∀ p ∈ list :: entries, m'.links.prev p = m.links.prev p)
    (halloc : ∀ p ∈ list :: entries, m'.allocated p = m.allocated p)
    (hnull : m'.allocated 0 = m.allocated 0) : WellFormed m' list entries :=
  ⟨h.ring.congr hnext hprev, fun p hp => (halloc p hp).trans (h.allocated p hp),
    hnull.trans h.null⟩

theorem next_eq (h : WellFormed m list entries) {p : UInt64} (hp : p ∈ list :: entries) :
    m.next p = some (m.links.next p) := if_pos (h.allocated p hp)

theorem prev_eq (h : WellFormed m list entries) {p : UInt64} (hp : p ∈ list :: entries) :
    m.prev p = some (m.links.prev p) := if_pos (h.allocated p hp)

/-- What follows a node: the next entry, or the head. -/
theorem next_split (h : WellFormed m list (before ++ entry :: after)) :
    m.next entry = some (after.headD list) := by
  rw [h.next_eq (by simp)]
  have hring := h.ring
  rw [← List.cons_append] at hring
  cases after with
  | nil => rw [hring.next_last]; rfl
  | cons q after => rw [hring.next_eq]; rfl

theorem next_list (h : WellFormed m list entries) : m.next list = some (entries.headD list) := by
  rw [h.next_eq List.mem_cons_self]
  cases entries with
  | nil => rw [(isRing_singleton_iff.mp h.ring).1]; rfl
  | cons e entries => rw [h.ring.next_first]; rfl

theorem prev_list (h : WellFormed m list entries) : m.prev list = some (entries.getLastD list) := by
  rw [h.prev_eq List.mem_cons_self]
  have hlast : (list :: entries).getLast? = some (entries.getLastD list) := by
    rw [List.getLast?_cons, List.getLastD_eq_getLast?]
  rw [(h.ring.closed _ hlast list rfl).2]

/-- A node elsewhere comes into use. -/
theorem malloc (h : WellFormed m list entries) {p : UInt64} (hp : p ≠ 0)
    (hfresh : m.allocated p = false) (next prev : UInt64) :
    WellFormed (m.malloc p next prev) list entries := by
  have hne {q : UInt64} (hq : q ∈ list :: entries) : q ≠ p := by
    rintro rfl
    exact Bool.false_ne_true (hfresh.symm.trans (h.allocated q hq))
  refine h.congr ?_ ?_ ?_ (Function.update_of_ne hp.symm _ _)
  · exact fun q hq => Function.update_of_ne (hne hq) _ _
  · exact fun q hq => Function.update_of_ne (hne hq) _ _
  · exact fun q hq => Function.update_of_ne (hne hq) _ _

/-- A node elsewhere goes out of use. -/
theorem free (h : WellFormed m list entries) {p : UInt64} (hp : p ∉ list :: entries) :
    WellFormed (m.free p) list entries := by
  refine ⟨h.ring, fun q hq => ?_, ?_⟩
  · exact (Function.update_of_ne (ne_of_mem_of_not_mem hq hp) _ _).trans (h.allocated q hq)
  · by_cases hnull : p = 0
    · subst hnull
      exact Function.update_self 0 false m.allocated
    · exact (Function.update_of_ne (Ne.symm hnull) _ _).trans h.null

end WellFormed

/-! ### The operations -/

theorem listInit_spec (halloc : m.allocated list = true) (hnull : m.allocated 0 = false) :
    ∃ m', m.listInit list = some m' ∧ WellFormed m' list [] := by
  refine ⟨{ m with links := (m.links.setNext list list).setPrev list list }, ?_, ?_, ?_, hnull⟩
  · simp [listInit, setNext, setPrev, halloc]
  · exact isRing_singleton_iff.mpr ⟨by simp, by simp⟩
  · simpa using halloc

theorem listInsertHead_eq (hlist : m.allocated list = true)
    (hnext : m.allocated (m.links.next list) = true) (hentry : m.allocated entry = true) :
    m.listInsertHead list entry = some { m with
      links := ((((m.links.setPrev (m.links.next list) entry).setNext entry
        (m.links.next list)).setPrev entry list).setNext list entry) } := by
  simp [listInsertHead, Memory.next, setNext, setPrev, hlist, hnext, hentry]

theorem listInsertTail_eq (hlist : m.allocated list = true)
    (hprev : m.allocated (m.links.prev list) = true) (hentry : m.allocated entry = true)
    (hne : list ≠ entry) :
    m.listInsertTail list entry = some { m with
      links := ((((m.links.setNext entry list).setPrev entry (m.links.prev list)).setNext
        (m.links.prev list) entry).setPrev list entry) } := by
  simp [listInsertTail, Memory.prev, setNext, setPrev, hlist, hprev, hentry, hne]

theorem listRemoveEntry_eq (hentry : m.allocated entry = true)
    (hprev : m.allocated (m.links.prev entry) = true)
    (hnext : m.allocated (m.links.next entry) = true) (hne : m.links.prev entry ≠ entry) :
    m.listRemoveEntry entry = some { m with
      links := ((m.links.setNext (m.links.prev entry) (m.links.next entry)).setPrev
        (m.links.next entry) (m.links.prev entry)) } := by
  simp [listRemoveEntry, Memory.prev, Memory.next, setNext, setPrev, hentry, hprev, hnext, hne.symm]

theorem listInsertHead_spec (h : WellFormed m list entries) (hentry : entry ∉ list :: entries)
    (halloc : m.allocated entry = true) :
    ∃ m', m.listInsertHead list entry = some m' ∧ WellFormed m' list (entry :: entries) := by
  have hlist := h.allocated list List.mem_cons_self
  have hnext := h.ring.next_mem List.mem_cons_self
  have hring : m.links.IsRing (entries ++ [list]) :=
    Links.IsRing.append_comm (show m.links.IsRing ([list] ++ entries) from h.ring)
  have hfirst : (entries ++ [list]).head? = some (m.links.next list) := by
    cases entries with
    | nil => rw [(isRing_singleton_iff.mp h.ring).1]; rfl
    | cons e entries => rw [h.ring.next_first]; rfl
  have hinsert := hring.insert_last (x := entry) (by simpa [or_comm] using hentry)
    List.getLast?_concat hfirst
  rw [List.append_assoc] at hinsert
  refine ⟨_, listInsertHead_eq hlist (h.allocated _ hnext) halloc, ?_, ?_, h.null⟩
  · have hlinks : (((m.links.setPrev (m.links.next list) entry).setNext entry
        (m.links.next list)).setPrev entry list).setNext list entry =
        (((m.links.setNext list entry).setPrev entry list).setNext entry (m.links.next list)).setPrev
          (m.links.next list) entry :=
      Links.ext (Function.update_comm (ne_of_mem_of_not_mem List.mem_cons_self hentry).symm _ _ _)
        (Function.update_comm (ne_of_mem_of_not_mem hnext hentry) _ _ _)
    rw [hlinks]
    exact hinsert.append_comm
  · intro p hp
    obtain rfl | hp : p = entry ∨ p ∈ list :: entries := by simpa [or_left_comm] using hp
    · exact halloc
    · exact h.allocated p hp

theorem listInsertTail_spec (h : WellFormed m list entries) (hentry : entry ∉ list :: entries)
    (halloc : m.allocated entry = true) :
    ∃ m', m.listInsertTail list entry = some m' ∧ WellFormed m' list (entries ++ [entry]) := by
  have hlist := h.allocated list List.mem_cons_self
  have hprev := h.ring.prev_mem List.mem_cons_self
  have hlast : (list :: entries).getLast? = some (m.links.prev list) := by
    rw [List.getLast?_cons]
    exact congrArg some (h.ring.closed _ List.getLast?_cons list rfl).2.symm
  have hinsert := h.ring.insert_last hentry hlast rfl
  refine ⟨_, listInsertTail_eq hlist (h.allocated _ hprev) halloc
    (ne_of_mem_of_not_mem List.mem_cons_self hentry), ?_, ?_, h.null⟩
  · have hlinks : (((m.links.setNext entry list).setPrev entry (m.links.prev list)).setNext
        (m.links.prev list) entry).setPrev list entry =
        (((m.links.setNext (m.links.prev list) entry).setPrev entry (m.links.prev list)).setNext entry
          list).setPrev list entry :=
      Links.ext (Function.update_comm (ne_of_mem_of_not_mem hprev hentry).symm _ _ _) rfl
    rw [hlinks]
    exact hinsert
  · intro q hq
    obtain hq | rfl : q ∈ list :: entries ∨ q = entry := by simpa [or_assoc] using hq
    · exact h.allocated q hq
    · exact halloc

theorem listRemoveEntry_spec (h : WellFormed m list (before ++ entry :: after)) :
    ∃ m', m.listRemoveEntry entry = some m' ∧ WellFormed m' list (before ++ after) ∧
      m'.allocated = m.allocated := by
  have hmem : entry ∈ list :: (before ++ entry :: after) := by simp
  have hp := h.allocated _ (h.ring.prev_mem hmem)
  have hn := h.allocated _ (h.ring.next_mem hmem)
  have hring := h.ring
  rw [← List.cons_append] at hring
  have hne : m.links.prev entry ≠ entry := by
    intro hself
    have hnext := hring.next_prev hmem
    rw [hself, hring.next_eq_self_iff] at hnext
    exact List.cons_ne_nil _ _ hnext
  refine ⟨_, listRemoveEntry_eq (h.allocated entry hmem) hp hn hne, ⟨?_, ?_, h.null⟩, rfl⟩
  · exact hring.unlink (List.cons_ne_nil list (before ++ after))
  · intro q hq
    refine h.allocated q ?_
    simp only [List.mem_cons, List.mem_append] at hq ⊢
    exact hq.imp_right (Or.imp_right Or.inr)

theorem listEmpty_spec (h : WellFormed m list entries) :
    m.listEmpty list = some (decide (entries = [])) := by
  rw [listEmpty, h.next_list]
  cases entries with
  | nil => simp
  | cons e entries =>
      have hne : list ≠ e := fun heq => h.notMem (by simp [heq])
      simp [hne]

theorem listRemoveHead_spec (h : WellFormed m list entries) :
    ∃ m', m.listRemoveHead list = some (entries.headD 0, m') ∧ WellFormed m' list entries.tail ∧
      m'.allocated = m.allocated := by
  rw [listRemoveHead, listEmpty_spec h, h.next_list]
  cases entries with
  | nil => exact ⟨m, rfl, h, rfl⟩
  | cons e entries =>
      obtain ⟨m', hm', h', halloc⟩ := listRemoveEntry_spec (show WellFormed m list ([] ++ e :: entries) from h)
      refine ⟨m', ?_, h', halloc⟩
      simp [hm']

theorem listRemoveTail_spec (h : WellFormed m list entries) :
    ∃ m', m.listRemoveTail list = some (entries.getLastD 0, m') ∧ WellFormed m' list entries.dropLast ∧
      m'.allocated = m.allocated := by
  rw [listRemoveTail, listEmpty_spec h, h.prev_list]
  obtain rfl | ⟨before, e, rfl⟩ := List.eq_nil_or_concat' entries
  · exact ⟨m, rfl, h, rfl⟩
  · obtain ⟨m', hm', h', halloc⟩ := listRemoveEntry_spec h
    rw [List.append_nil] at h'
    refine ⟨m', ?_, by rwa [List.dropLast_concat], halloc⟩
    simp [hm']

/-! ### Any calls -/

/-- The calls on one list; beside them, nodes come into use and go out of use. -/
inductive Call where
  | insertHead (entry : UInt64)
  | insertTail (entry : UInt64)
  | removeEntry (entry : UInt64)
  | removeHead
  | removeTail
  | malloc (p next prev : UInt64)
  | free (p : UInt64)

/-- The pointer that the call returns, if it returns one, and the memory after it. -/
def Call.exec (m : Memory) (list : UInt64) : Call → Option (Option UInt64 × Memory)
  | insertHead entry => (m.listInsertHead list entry).map fun m => (none, m)
  | insertTail entry => (m.listInsertTail list entry).map fun m => (none, m)
  | removeEntry entry => (m.listRemoveEntry entry).map fun m => (none, m)
  | removeHead => (m.listRemoveHead list).map fun r => (some r.1, r.2)
  | removeTail => (m.listRemoveTail list).map fun r => (some r.1, r.2)
  | malloc p next prev => some (none, m.malloc p next prev)
  | free p => some (none, m.free p)

/-- The call on a list of addresses. -/
def Call.onList (entries : List UInt64) : Call → Option UInt64 × List UInt64
  | insertHead entry => (none, entry :: entries)
  | insertTail entry => (none, entries ++ [entry])
  | removeEntry entry => (none, entries.erase entry)
  | removeHead => (some (entries.headD 0), entries.tail)
  | removeTail => (some (entries.getLastD 0), entries.dropLast)
  | malloc _ _ _ => (none, entries)
  | free _ => (none, entries)

/-- An entry is a node and not yet in the list when it is put there, and is in the list when it is removed; no
memory is given out twice or freed while it is in the list. -/
def Call.Allowed (m : Memory) (list : UInt64) (entries : List UInt64) : Call → Prop
  | insertHead entry => m.allocated entry = true ∧ entry ∉ list :: entries
  | insertTail entry => m.allocated entry = true ∧ entry ∉ list :: entries
  | removeEntry entry => entry ∈ entries
  | removeHead => True
  | removeTail => True
  | malloc p _ _ => p ≠ 0 ∧ m.allocated p = false
  | free p => p ∉ list :: entries

def execAll (list : UInt64) : Memory → List Call → Option (List (Option UInt64) × Memory)
  | m, [] => some ([], m)
  | m, call :: calls => do
      let (ret, m) ← call.exec m list
      let (rets, m) ← execAll list m calls
      some (ret :: rets, m)

def onListAll : List UInt64 → List Call → List (Option UInt64) × List UInt64
  | entries, [] => ([], entries)
  | entries, call :: calls =>
      let (ret, entries) := call.onList entries
      let (rets, entries) := onListAll entries calls
      (ret :: rets, entries)

/-- Each of the calls is allowed when it is made. -/
def AllowedAll (list : UInt64) : Memory → List UInt64 → List Call → Prop
  | _, _, [] => True
  | m, entries, call :: calls =>
      call.Allowed m list entries ∧ ∀ ret m', call.exec m list = some (ret, m') →
        AllowedAll list m' (call.onList entries).2 calls

theorem exec_spec (h : WellFormed m list entries) {call : Call}
    (hallowed : call.Allowed m list entries) :
    ∃ m', call.exec m list = some ((call.onList entries).1, m') ∧
      WellFormed m' list (call.onList entries).2 := by
  cases call with
  | insertHead entry =>
      obtain ⟨m', hm', h'⟩ := listInsertHead_spec h hallowed.2 hallowed.1
      exact ⟨m', by rw [Call.exec, hm']; rfl, h'⟩
  | insertTail entry =>
      obtain ⟨m', hm', h'⟩ := listInsertTail_spec h hallowed.2 hallowed.1
      exact ⟨m', by rw [Call.exec, hm']; rfl, h'⟩
  | removeEntry entry =>
      obtain ⟨before, after, -, hsplit, herase⟩ := List.exists_erase_eq hallowed
      rw [hsplit] at h
      obtain ⟨m', hm', h', -⟩ := listRemoveEntry_spec h
      refine ⟨m', by rw [Call.exec, hm']; rfl, ?_⟩
      show WellFormed m' list (entries.erase entry)
      rwa [herase]
  | removeHead =>
      obtain ⟨m', hm', h', -⟩ := listRemoveHead_spec h
      exact ⟨m', by rw [Call.exec, hm']; rfl, h'⟩
  | removeTail =>
      obtain ⟨m', hm', h', -⟩ := listRemoveTail_spec h
      exact ⟨m', by rw [Call.exec, hm']; rfl, h'⟩
  | malloc p next prev => exact ⟨_, rfl, h.malloc hallowed.1 hallowed.2 next prev⟩
  | free p => exact ⟨_, rfl, h.free hallowed⟩

/-- The functions refine the operations on the list of the addresses: the same pointers are returned, and after
every call the nodes are a ring of the entries in the order of the list. -/
theorem listCalls_refine (h : WellFormed m list entries) {calls : List Call}
    (hallowed : AllowedAll list m entries calls) :
    ∃ m', execAll list m calls = some ((onListAll entries calls).1, m') ∧
      WellFormed m' list (onListAll entries calls).2 := by
  induction calls generalizing m entries with
  | nil => exact ⟨m, rfl, h⟩
  | cons call calls ih =>
      obtain ⟨m₁, hm₁, h₁⟩ := exec_spec h hallowed.1
      obtain ⟨m₂, hm₂, h₂⟩ := ih h₁ (hallowed.2 _ m₁ hm₁)
      refine ⟨m₂, ?_, h₂⟩
      rw [execAll, hm₁]
      simp only [Option.bind_eq_bind, Option.bind_some, hm₂]
      rfl

/-! ### Loops -/

/-- What the body of the loop does to the current node. -/
inductive Visit where
  | keep
  | remove
  | removeAndFree
  deriving DecidableEq

def Visit.exec (m : Memory) (pos : UInt64) : Visit → Option Memory
  | keep => some m
  | remove => m.listRemoveEntry pos
  | removeAndFree => (m.listRemoveEntry pos).map fun m => m.free pos

/-- The loop from `pos` and `n` on, with at most `fuel` tests of its condition, and the nodes that it comes to;
`body` is what the rounds to come do. -/
def forEachSafeLoop (list : UInt64) :
    Nat → (Nat → Visit) → Memory → UInt64 → UInt64 → Option (List UInt64 × Memory)
  | 0, _, _, _, _ => none
  | fuel + 1, body, m, pos, n =>
      if pos = list then some ([], m)
      else do
        let m ← (body 0).exec m pos
        let next ← m.next n
        let (visited, m) ← forEachSafeLoop list fuel (fun i => body (i + 1)) m n next
        some (pos :: visited, m)

/-- `LIST_FOR_EACH_SAFE`. -/
def listForEachSafe (list : UInt64) (fuel : Nat) (body : Nat → Visit) (m : Memory) :
    Option (List UInt64 × Memory) := do
  let pos ← m.next list
  let n ← m.next pos
  forEachSafeLoop list fuel body m pos n

/-- The entries at which the body leaves the list alone. -/
def kept : (Nat → Visit) → List UInt64 → List UInt64
  | _, [] => []
  | body, entry :: entries =>
      if body 0 = .keep then entry :: kept (fun i => body (i + 1)) entries
      else kept (fun i => body (i + 1)) entries

/-- One round: the list without the node, unless the body leaves it alone. -/
theorem visit_spec (h : WellFormed m list (before ++ entry :: after)) (visit : Visit) :
    ∃ m', visit.exec m entry = some m' ∧
      WellFormed m' list ((before ++ if visit = .keep then [entry] else []) ++ after) := by
  cases visit with
  | keep =>
      refine ⟨m, rfl, ?_⟩
      rw [if_pos rfl, List.append_assoc]
      exact h
  | remove =>
      obtain ⟨m', hm', h', -⟩ := listRemoveEntry_spec h
      refine ⟨m', hm', ?_⟩
      rw [if_neg (by decide), List.append_nil]
      exact h'
  | removeAndFree =>
      obtain ⟨m', hm', h', -⟩ := listRemoveEntry_spec h
      have hentry : entry ∉ list :: (before ++ after) := by
        have hnodup := h.ring.nodup
        rw [← List.cons_append, List.nodup_middle, List.nodup_cons] at hnodup
        exact hnodup.1
      refine ⟨m'.free entry, by rw [Visit.exec, hm']; rfl, ?_⟩
      rw [if_neg (by decide), List.append_nil]
      exact h'.free hentry

/-- The node that the next round is about is already known, and in the list, when the body runs. -/
theorem forEachSafeLoop_spec (h : WellFormed m list (before ++ entries)) {fuel : Nat}
    (hfuel : entries.length < fuel) (body : Nat → Visit) {n : UInt64}
    (hn : m.next (entries.headD list) = some n) :
    ∃ m', forEachSafeLoop list fuel body m (entries.headD list) n = some (entries, m') ∧
      WellFormed m' list (before ++ kept body entries) := by
  obtain ⟨fuel, rfl⟩ := Nat.exists_eq_succ_of_ne_zero (Nat.ne_of_gt (Nat.zero_lt_of_lt hfuel))
  induction entries generalizing before fuel body m n with
  | nil => exact ⟨m, if_pos rfl, h⟩
  | cons e entries ih =>
      have he : e ≠ list := by
        rintro rfl
        exact h.notMem (by simp)
      obtain rfl := Option.some.inj (hn.symm.trans h.next_split)
      obtain ⟨m₁, hm₁, h₁⟩ := visit_spec h (body 0)
      obtain ⟨fuel, rfl⟩ := Nat.exists_eq_succ_of_ne_zero (n := fuel) (by simp at hfuel; omega)
      have hnext : entries.headD list ∈
          list :: ((before ++ if body 0 = .keep then [e] else []) ++ entries) := by
        cases entries with
        | nil => exact List.mem_cons_self
        | cons q entries => simp
      obtain ⟨m₂, hm₂, h₂⟩ := ih h₁ (fun i => body (i + 1)) (h₁.next_eq hnext) fuel
        (by simpa using hfuel)
      refine ⟨m₂, ?_, ?_⟩
      · rw [forEachSafeLoop, List.headD_cons, if_neg he, hm₁]
        simp only [Option.bind_eq_bind, Option.bind_some, h₁.next_eq hnext, hm₂]
      · rw [kept]
        split_ifs at h₂ ⊢ with hkeep
        · simpa [List.append_assoc] using h₂
        · simpa using h₂

/-- The loop comes to every entry once, in the order of the list, and leaves those that its body does. -/
theorem listForEachSafe_spec (h : WellFormed m list entries) {fuel : Nat}
    (hfuel : entries.length < fuel) (body : Nat → Visit) :
    ∃ m', listForEachSafe list fuel body m = some (entries, m') ∧
      WellFormed m' list (kept body entries) := by
  have hpos : entries.headD list ∈ list :: entries := by
    cases entries with
    | nil => exact List.mem_cons_self
    | cons e entries => simp
  obtain ⟨m', hm', h'⟩ :=
    forEachSafeLoop_spec (show WellFormed m list ([] ++ entries) from h) hfuel body (h.next_eq hpos)
  refine ⟨m', ?_, h'⟩
  rw [listForEachSafe, h.next_list]
  simp only [Option.bind_eq_bind, Option.bind_some, h.next_eq hpos, hm']

/-- Any calls and any loop on a well-formed list. -/
theorem clientList_spec (h : WellFormed m list entries) :
    (∀ calls : List Call, AllowedAll list m entries calls →
      ∃ m', execAll list m calls = some ((onListAll entries calls).1, m') ∧
        WellFormed m' list (onListAll entries calls).2) ∧
    entries.Nodup ∧
    ∀ (body : Nat → Visit) (fuel : Nat), entries.length < fuel →
      ∃ m', listForEachSafe list fuel body m = some (entries, m') ∧
        WellFormed m' list (kept body entries) :=
  ⟨fun _ hallowed => listCalls_refine h hallowed, (List.nodup_cons.mp h.ring.nodup).2,
    fun body _ hfuel => listForEachSafe_spec h hfuel body⟩

/-- A list of two nodes, the first of which is removed and freed in a loop, and the other one then. -/
theorem clientList_two :
    let m : Memory :=
      ⟨⟨fun p => if p = 48 then 16 else p + 16, fun p => if p = 16 then 48 else p - 16⟩,
        fun p => p = 16 ∨ p = 32 ∨ p = 48⟩
    (∃ m', listForEachSafe 16 3 (fun i => if i = 0 then .removeAndFree else .keep) m =
        some ([32, 48], m') ∧ WellFormed m' 16 [48]) ∧
      ∃ m', execAll 16 m [.removeHead, .removeTail, .removeTail] =
        some ([some 32, some 48, some 0], m') ∧ WellFormed m' 16 [] := by
  intro m
  have h : WellFormed m 16 [32, 48] := by
    refine ⟨⟨by decide, ?_, by simp [Links.Joined, m]⟩, by simp [m], by decide⟩
    simp [Links.Joined, m]
  obtain ⟨hcalls, -, hloop⟩ := clientList_spec h
  exact ⟨hloop _ 3 (by decide), hcalls _
    ⟨trivial, fun _ _ _ => ⟨trivial, fun _ _ _ => ⟨trivial, fun _ _ _ => trivial⟩⟩⟩⟩

end ITrustee.ClientList
