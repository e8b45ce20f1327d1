import Mathlib.Tactic
import ITrustee.Foundation.Machine

/-!
# A server that shares one block with its clients

A server waits until somebody has put a request into the block, works on the block in place, and hands
it back as the answer; then it waits again. The wait and the hand-over are calls that may fail, and
either failure ends the server. `work` is what a request does to the memory of the server and to the
block, given what the calls made for it return; it has no result where the behaviour is undefined.

`run_sequential` is the rule for whole runs: the answers are those that `serveAll` computes from the
requests one after the other, and at most the last request is without an answer (`InOrder`).
`serveAll_related` carries what `work` keeps of the memory and what it makes of one request to all of
them, and `serveAll_simulates` does so against an abstract server.
-/

namespace RequestLoop

variable {σ β ε : Type*}

inductive Pc where
  | waiting | working | responding | stopped
  deriving DecidableEq

structure State (σ β ε : Type*) where
  pc : Pc := .waiting
  memory : σ
  block : β
  /-- The requests that woke the server. -/
  requests : List β := []
  /-- Those it has worked on, with what the calls returned. -/
  handled : List (ε × β) := []
  answers : List β := []

inductive Action (β ε : Type*) where
  /-- The wait returns: the block holds a request. -/
  | wake (request : β)
  | waitFails
  | work (calls : ε)
  /-- The block is handed over. -/
  | respond
  | respondFails

variable (work : ε → σ → β → Option (σ × β))

def step (s : State σ β ε) (a : Action β ε) : Option (State σ β ε) :=
  match s.pc, a with
  | .waiting, .wake request =>
      some { s with pc := .working, block := request, requests := s.requests ++ [request] }
  | .waiting, .waitFails => some { s with pc := .stopped }
  | .working, .work calls =>
      (work calls s.memory s.block).map fun (memory, block) =>
        { s with pc := .responding, memory, block, handled := s.handled ++ [(calls, s.block)] }
  | .responding, .respond => some { s with pc := .waiting, answers := s.answers ++ [s.block] }
  | .responding, .respondFails => some { s with pc := .stopped }
  | _, _ => none

/-- The requests one after the other: the memory in the end and the answers. -/
def serveAll (memory : σ) : List (ε × β) → Option (σ × List β)
  | [] => some (memory, [])
  | (calls, request) :: rest =>
      (work calls memory request).bind fun (memory, answer) =>
        (serveAll memory rest).map fun (memory, answers) => (memory, answer :: answers)

variable {work}

theorem serveAll_append {m m' : σ} {hs : List (ε × β)} {outs : List β} {calls : ε} {b b' : β}
    {m'' : σ} (h : serveAll work m hs = some (m', outs)) (hwork : work calls m' b = some (m'', b')) :
    serveAll work m (hs ++ [(calls, b)]) = some (m'', outs ++ [b']) := by
  induction hs generalizing m outs with
  | nil =>
      cases h
      simp [serveAll, hwork]
  | cons head rest ih =>
      obtain ⟨c, r⟩ := head
      simp only [serveAll, List.cons_append, Option.bind_eq_some_iff, Option.map_eq_some_iff,
        Prod.exists, Prod.mk.injEq] at h ⊢
      obtain ⟨m₁, a, hfirst, m₂, outs', hrest, rfl, rfl⟩ := h
      exact ⟨m₁, a, hfirst, m'', outs' ++ [b'], ih hrest, rfl, rfl⟩

/-- A run against the requests served one after the other. -/
structure Sequential (work : ε → σ → β → Option (σ × β)) (memory₀ : σ) (s : State σ β ε) : Prop where
  /-- What the server has made of the requests is what `serveAll` makes of them. -/
  served : ∃ outs, serveAll work memory₀ s.handled = some (s.memory, outs) ∧
    (outs = s.answers ∨ outs = s.answers ++ [s.block] ∧ (s.pc = .responding ∨ s.pc = .stopped))
  /-- Every request has been worked on, but for the one the server is at. -/
  requests : s.requests = s.handled.map Prod.snd ∨
    s.pc = .working ∧ s.requests = s.handled.map Prod.snd ++ [s.block]

/-- What holds in addition at each place of the loop. -/
def Placed (work : ε → σ → β → Option (σ × β)) (memory₀ : σ) (s : State σ β ε) : Prop :=
  match s.pc with
  | .waiting => serveAll work memory₀ s.handled = some (s.memory, s.answers) ∧
      s.requests = s.handled.map Prod.snd
  | .working => serveAll work memory₀ s.handled = some (s.memory, s.answers) ∧
      s.requests = s.handled.map Prod.snd ++ [s.block]
  | .responding => serveAll work memory₀ s.handled = some (s.memory, s.answers ++ [s.block]) ∧
      s.requests = s.handled.map Prod.snd
  | .stopped => (serveAll work memory₀ s.handled = some (s.memory, s.answers) ∨
      serveAll work memory₀ s.handled = some (s.memory, s.answers ++ [s.block])) ∧
      s.requests = s.handled.map Prod.snd

theorem Placed.sequential {memory₀ : σ} {s : State σ β ε} (h : Placed work memory₀ s) :
    Sequential work memory₀ s := by
  unfold Placed at h
  cases hpc : s.pc <;> rw [hpc] at h <;> dsimp only at h
  case waiting => exact ⟨⟨_, h.1, Or.inl rfl⟩, Or.inl h.2⟩
  case working => exact ⟨⟨_, h.1, Or.inl rfl⟩, Or.inr ⟨hpc, h.2⟩⟩
  case responding => exact ⟨⟨_, h.1, Or.inr ⟨rfl, Or.inl hpc⟩⟩, Or.inl h.2⟩
  case stopped =>
      rcases h.1 with hall | hlast
      · exact ⟨⟨_, hall, Or.inl rfl⟩, Or.inl h.2⟩
      · exact ⟨⟨_, hlast, Or.inr ⟨rfl, Or.inr hpc⟩⟩, Or.inl h.2⟩

theorem placed_step {memory₀ : σ} {s s' : State σ β ε} (a : Action β ε)
    (h : Placed work memory₀ s) (hstep : step work s a = some s') : Placed work memory₀ s' := by
  unfold Placed at h
  rw [step.eq_def] at hstep
  cases hpc : s.pc <;> rw [hpc] at h hstep <;> cases a <;> dsimp only at h hstep <;> try cases hstep
  case waiting.wake request => exact ⟨h.1, by rw [h.2]⟩
  case waiting.waitFails => exact ⟨Or.inl h.1, h.2⟩
  case working.work calls =>
      obtain ⟨⟨m, b⟩, hwork, rfl⟩ := Option.map_eq_some_iff.mp hstep
      refine ⟨serveAll_append h.1 hwork, ?_⟩
      rw [h.2, List.map_append]
      rfl
  case responding.respond => exact ⟨h.1, h.2⟩
  case responding.respondFails => exact ⟨Or.inr h.1, h.2⟩

theorem run_sequential {memory₀ : σ} {block₀ : β} {actions : List (Action β ε)} {s : State σ β ε}
    (hexec : Machine.exec (step work) { memory := memory₀, block := block₀ } actions = some s) :
    Sequential work memory₀ s := by
  have hstart : Placed work memory₀ { memory := memory₀, block := block₀ } := ⟨rfl, rfl⟩
  exact (Machine.exec_invariant (Placed work memory₀)
    (fun _ a _ ht hstep => placed_step a ht hstep) hstart hexec).sequential

/-! ### From the work to the runs -/

/-- What `work` keeps of the memory, and a relation that it sets up between a request with its calls
and the answer. -/
theorem serveAll_related {I : σ → Prop} {R : ε × β → β → Prop}
    (hwork : ∀ calls m b m' b', I m → work calls m b = some (m', b') → I m' ∧ R (calls, b) b')
    {m m' : σ} {hs : List (ε × β)} {outs : List β} (hm : I m)
    (h : serveAll work m hs = some (m', outs)) : I m' ∧ List.Forall₂ R hs outs := by
  induction hs generalizing m outs with
  | nil =>
      cases h
      exact ⟨hm, .nil⟩
  | cons head rest ih =>
      obtain ⟨c, r⟩ := head
      simp only [serveAll, Option.bind_eq_some_iff, Option.map_eq_some_iff, Prod.exists,
        Prod.mk.injEq] at h
      obtain ⟨m₁, a, hfirst, m₂, outs', hrest, rfl, rfl⟩ := h
      obtain ⟨hm₁, hr⟩ := hwork _ _ _ _ _ hm hfirst
      obtain ⟨hm', hall⟩ := ih hm₁ hrest
      exact ⟨hm', .cons hr hall⟩

/-- Requests served by what `allows` says of a request, its answer and the memory before and after. -/
inductive Serves {α : Type*} (allows : α → ε × β → β → α → Prop) : α → List (ε × β) → List β → α → Prop
  | nil (a : α) : Serves allows a [] [] a
  | cons {a a' a'' : α} {h : ε × β} {answer : β} {hs : List (ε × β)} {outs : List β} :
      allows a h answer a' → Serves allows a' hs outs a'' →
        Serves allows a (h :: hs) (answer :: outs) a''

/-- If `work` simulates what is allowed, request by request, then so does the run. -/
theorem serveAll_simulates {α : Type*} {allows : α → ε × β → β → α → Prop} {A : σ → α → Prop}
    {C : ε × β → Prop}
    (hwork : ∀ calls m b m' b' a, A m a → C (calls, b) → work calls m b = some (m', b') →
      ∃ a', allows a (calls, b) b' a' ∧ A m' a')
    {m m' : σ} {a : α} {hs : List (ε × β)} {outs : List β} (hm : A m a) (hC : ∀ h ∈ hs, C h)
    (h : serveAll work m hs = some (m', outs)) : ∃ a', Serves allows a hs outs a' ∧ A m' a' := by
  induction hs generalizing m a outs with
  | nil =>
      cases h
      exact ⟨a, .nil a, hm⟩
  | cons head rest ih =>
      obtain ⟨c, r⟩ := head
      simp only [serveAll, Option.bind_eq_some_iff, Option.map_eq_some_iff, Prod.exists,
        Prod.mk.injEq] at h
      obtain ⟨m₁, b, hfirst, m₂, outs', hrest, rfl, rfl⟩ := h
      obtain ⟨a₁, hallows, hm₁⟩ := hwork _ _ _ _ _ _ hm (hC _ List.mem_cons_self) hfirst
      obtain ⟨a₂, hserves, hm₂⟩ := ih hm₁ (fun h hh => hC h (List.mem_cons_of_mem _ hh)) hrest
      exact ⟨a₂, .cons hallows hserves, hm₂⟩

/-- What was handed over is a beginning of `outs`, and belongs to the first requests. At most one
request has no answer yet. -/
structure InOrder (s : State σ β ε) (outs : List β) : Prop where
  answers : s.answers <+: outs
  requests : s.handled.map Prod.snd <+: s.requests
  length_le : s.requests.length ≤ s.answers.length + 1

theorem serveAll_length {m m' : σ} {hs : List (ε × β)} {outs : List β}
    (h : serveAll work m hs = some (m', outs)) : outs.length = hs.length :=
  (serveAll_related (I := fun _ => True) (R := fun _ _ => True) (fun _ _ _ _ _ _ _ => ⟨trivial, trivial⟩)
    trivial h).2.length_eq.symm

theorem Sequential.inOrder {memory₀ : σ} {s : State σ β ε} (h : Sequential work memory₀ s) :
    ∃ outs, serveAll work memory₀ s.handled = some (s.memory, outs) ∧ InOrder s outs := by
  obtain ⟨outs, hserved, houts⟩ := h.served
  have hlength := serveAll_length hserved
  refine ⟨outs, hserved, ?_⟩
  rcases houts with rfl | ⟨rfl, hpc⟩
  · rcases h.requests with hreq | ⟨-, hreq⟩
    · exact ⟨List.prefix_rfl, by rw [hreq], by rw [hreq, List.length_map]; omega⟩
    · refine ⟨List.prefix_rfl, hreq ▸ List.prefix_append _ _, ?_⟩
      rw [hreq, List.length_append, List.length_map, List.length_singleton]
      omega
  · have hreq : s.requests = s.handled.map Prod.snd := by
      rcases h.requests with hreq | ⟨hworking, -⟩
      · exact hreq
      · rcases hpc with hpc | hpc <;> rw [hworking] at hpc <;> cases hpc
    rw [List.length_append, List.length_singleton] at hlength
    exact ⟨List.prefix_append _ _, by rw [hreq], by rw [hreq, List.length_map]; omega⟩

end RequestLoop
