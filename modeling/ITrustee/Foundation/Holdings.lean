import Mathlib.Data.Multiset.AddSub
import Mathlib.Tactic

/-!
# Programs that hold resources

A program acquires resources, such as memory, descriptors and threads, and gives each of them back.
Every resource is numbered when it is acquired and no number is used twice, so that giving back
something that is not held any more, even if the system has handed out the same address or
descriptor again, ends a program without a result. What the calls of a program return is a stream of
replies: a statement about all worlds is one about every outcome of every call.

`wp c Q w` says that `c` runs from `w` to its end and that `Q` holds there. The specification of a
program names the resources that it needs and those that it leaves; whatever else is held is a
summand on both sides, so specifications compose without a rule of their own for the frame.

A program that may come to wait for ever is one with an optional result; `wpWait c Q H w` says that `Q`
holds where it returns and `H` where it waits.
-/

namespace Holdings

structure Resource (κ : Type) where
  kind : κ
  number : Nat
  deriving DecidableEq

/-- What a program runs in. Every resource held has a number below `next`, and one only. -/
structure World (κ σ : Type) where
  next : Nat
  held : Multiset (Resource κ)
  replies : Nat → Int
  globals : σ
  fresh : ∀ r ∈ held, r.number < next
  nodup : held.Nodup

abbrev Prog (κ σ α : Type) := World κ σ → Option (α × World κ σ)

namespace Prog

variable {κ σ α β : Type}

/-- The program that does nothing. -/
def ret (a : α) : Prog κ σ α := fun w => some (a, w)

def andThen (c : Prog κ σ α) (f : α → Prog κ σ β) : Prog κ σ β :=
  fun w => (c w).bind fun p => f p.1 p.2

instance : Monad (Prog κ σ) where
  pure := ret
  bind := andThen

end Prog

section Operations

variable {κ σ : Type}

/-- What the next call returns. -/
def reply : Prog κ σ Int := fun w =>
  some (w.replies 0, { w with replies := fun n => w.replies (n + 1) })

def globals : Prog κ σ σ := fun w => some (w.globals, w)

def setGlobals (s : σ) : Prog κ σ Unit := fun w => some ((), { w with globals := s })

/-- The world with one more resource. -/
def World.add (w : World κ σ) (k : κ) : World κ σ where
  next := w.next + 1
  held := {⟨k, w.next⟩} + w.held
  replies := w.replies
  globals := w.globals
  fresh r hr := by
    rcases Multiset.mem_add.mp hr with hr | hr
    · rw [Multiset.mem_singleton.mp hr]
      exact Nat.lt_succ_self _
    · exact Nat.lt_succ_of_lt (w.fresh r hr)
  nodup := by
    refine Multiset.nodup_add.mpr ⟨Multiset.nodup_singleton _, w.nodup, ?_⟩
    rw [Multiset.singleton_disjoint]
    intro hmem
    exact absurd (w.fresh _ hmem) (Nat.lt_irrefl _)

def acquire (k : κ) : Prog κ σ (Resource κ) := fun w => some (⟨k, w.next⟩, w.add k)

/-- A call that acquires a resource if it returns 0, and otherwise fails with what it returns. -/
def attempt (k : κ) : Prog κ σ (Except Int (Resource κ)) := do
  let ret ← reply
  if ret ≠ 0 then pure (.error ret)
  else
    let r ← acquire k
    pure (.ok r)

variable [DecidableEq κ]

/-- The world without `r`. -/
def World.drop (w : World κ σ) (r : Resource κ) : World κ σ :=
  { w with
    held := w.held.erase r
    fresh := fun s hs => w.fresh s (Multiset.mem_of_mem_erase hs)
    nodup := w.nodup.erase r }

/-- Giving back a resource, which has no result unless it is held. -/
def release (r : Resource κ) : Prog κ σ Unit := fun w =>
  if r ∈ w.held then some ((), w.drop r) else none

/-- Using a resource, which has no result unless it is held. -/
def use (r : Resource κ) : Prog κ σ Unit := fun w => if r ∈ w.held then some ((), w) else none

end Operations

/-! ### Rules -/

section Rules

variable {κ σ α β : Type} {w : World κ σ}

/-- `c` runs to its end, and there `Q` holds. -/
def wp (c : Prog κ σ α) (Q : α → World κ σ → Prop) (w : World κ σ) : Prop :=
  ∃ a w', c w = some (a, w') ∧ Q a w'

theorem wp.mono {c : Prog κ σ α} {Q R : α → World κ σ → Prop} (h : wp c Q w)
    (hQR : ∀ a w', Q a w' → R a w') : wp c R w := by
  obtain ⟨a, w', hrun, hQ⟩ := h
  exact ⟨a, w', hrun, hQR a w' hQ⟩

theorem wp_pure (a : α) {Q : α → World κ σ → Prop} (h : Q a w) : wp (pure a) Q w :=
  ⟨a, w, rfl, h⟩

theorem wp_bind {c : Prog κ σ α} {f : α → Prog κ σ β} {Q : β → World κ σ → Prop}
    (h : wp c (fun a w' => wp (f a) Q w') w) : wp (c >>= f) Q w := by
  obtain ⟨a, w', hrun, b, w'', hrun', hQ⟩ := h
  refine ⟨b, w'', ?_, hQ⟩
  show (c w).bind (fun p => f p.1 p.2) = some (b, w'')
  rw [hrun]
  exact hrun'

/-- The next call may return anything. -/
theorem wp_reply {Q : Int → World κ σ → Prop}
    (h : ∀ r w', w'.held = w.held → w'.globals = w.globals → Q r w') : wp reply Q w :=
  ⟨_, _, rfl, h _ _ rfl rfl⟩

theorem wp_globals {Q : σ → World κ σ → Prop} (h : Q w.globals w) : wp globals Q w :=
  ⟨_, _, rfl, h⟩

theorem wp_setGlobals (s : σ) {Q : Unit → World κ σ → Prop}
    (h : ∀ w', w'.held = w.held → w'.globals = s → Q () w') : wp (setGlobals s) Q w :=
  ⟨_, _, rfl, h _ rfl rfl⟩

theorem wp_acquire (k : κ) {Q : Resource κ → World κ σ → Prop}
    (h : ∀ r w', r.kind = k → w'.held = {r} + w.held → w'.globals = w.globals → Q r w') :
    wp (acquire k) Q w :=
  ⟨_, _, rfl, h _ _ rfl rfl rfl⟩

theorem wp_attempt_kind (k : κ) {Q : Except Int (Resource κ) → World κ σ → Prop}
    (herror : ∀ ret w', ret ≠ 0 → w'.held = w.held → w'.globals = w.globals → Q (.error ret) w')
    (hok : ∀ r w', r.kind = k → w'.held = {r} + w.held → w'.globals = w.globals → Q (.ok r) w') :
    wp (attempt k) Q w := by
  refine wp_bind (wp_reply fun ret w₁ hheld hglobals => ?_)
  by_cases hret : ret ≠ 0
  · rw [if_pos hret]
    exact wp_pure _ (herror ret w₁ hret hheld hglobals)
  · rw [if_neg hret]
    refine wp_bind (wp_acquire k fun r w₂ hkind hheld' hglobals' =>
      wp_pure _ (hok r w₂ hkind ?_ ?_))
    · rw [hheld', hheld]
    · rw [hglobals', hglobals]

theorem wp_attempt (k : κ) {Q : Except Int (Resource κ) → World κ σ → Prop}
    (herror : ∀ ret w', ret ≠ 0 → w'.held = w.held → w'.globals = w.globals → Q (.error ret) w')
    (hok : ∀ r w', w'.held = {r} + w.held → w'.globals = w.globals → Q (.ok r) w') :
    wp (attempt k) Q w :=
  wp_attempt_kind k herror fun r w' _ => hok r w'

theorem wp_use [DecidableEq κ] {r : Resource κ} (hmem : r ∈ w.held)
    {Q : Unit → World κ σ → Prop} (h : Q () w) : wp (use r) Q w :=
  ⟨(), w, if_pos hmem, h⟩

theorem wp_release [DecidableEq κ] {r : Resource κ} {rest : Multiset (Resource κ)}
    (hheld : w.held = {r} + rest) {Q : Unit → World κ σ → Prop}
    (h : ∀ w', w'.held = rest → w'.globals = w.globals → Q () w') : wp (release r) Q w := by
  have hmem : r ∈ w.held := by
    rw [hheld]
    exact Multiset.mem_add.mpr (Or.inl (Multiset.mem_singleton_self r))
  refine ⟨(), w.drop r, if_pos hmem, h _ ?_ rfl⟩
  show w.held.erase r = rest
  rw [hheld, Multiset.singleton_add, Multiset.erase_cons_head]

end Rules

/-! ### Programs that may wait for ever -/

section Waiting

variable {κ σ α β : Type} {w : World κ σ}

abbrev WaitProg (κ σ : Type) : Type → Type := OptionT (Prog κ σ)

def waitForever : WaitProg κ σ α := OptionT.mk (pure none)

/-- A program that does not. -/
def WaitProg.of (c : Prog κ σ α) : WaitProg κ σ α := OptionT.lift c

variable {Q : α → World κ σ → Prop} {H : World κ σ → Prop}

end Waiting

end Holdings
