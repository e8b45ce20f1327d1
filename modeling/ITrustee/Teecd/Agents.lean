import Mathlib.Tactic
import ITrustee.Foundation.Holdings

/-!
# The agents of the daemon

`tee_agent.c` and the functions of the three agents that it calls through `g_agentOps`: each agent
opens the device, registers with the driver and gets the block that it shares with the secure world;
`ProcessAgentInit` starts all agents of the table or none, `ProcessAgentExit` ends them. Which agents
the table has is a choice of the build, so it is a list here. A registration is a resource that the
driver holds for the process.
-/

namespace ITrustee.Teecd.Agents

open Holdings

inductive AgentId where
  | fs | misc | secfileLoad
  deriving DecidableEq

/-- `AGENT_FS_ID`, `AGENT_MISC_ID` and `SECFILE_LOAD_AGENT_ID`. -/
def AgentId.number : AgentId → UInt32
  | .fs => 0x46536673
  | .misc => 0x4d495343
  | .secfileLoad => 0x4c4f4144

def transBuffSize : UInt32 := 4 * 1024
def fsTransBuffSizeCcos : UInt32 := 512 * 1024

inductive Kind where
  | descriptor
  /-- An agent known to the driver, with the size of its block. -/
  | registration (id bufferSize : UInt32)
  deriving DecidableEq

abbrev Handle := Resource Kind

/-- What the globals of one agent say while it runs. `control` is the block of the registration. -/
structure Agent where
  fd : Handle
  control : Handle
  deriving DecidableEq

structure Globals where
  agents : AgentId → Option Agent := fun _ => none
  /-- Registrations that the driver did not take back. -/
  stuck : Multiset Handle := 0

abbrev M := Prog Kind Globals

def setAgent (id : AgentId) (agent : Option Agent) : M Unit := do
  let g ← globals
  setGlobals { g with agents := Function.update g.agents id agent }

/-! ### One agent -/

def agentInit (id : AgentId) (bufferSize : UInt32) : M (Option Agent) := do
  match ← attempt .descriptor with
  | .error _ => pure none
  | .ok fd =>
      match ← attempt (.registration id.number bufferSize) with
      | .error _ =>
          release fd
          pure none
      | .ok control => pure (some { fd, control })

/-- The registration is left when its `ioctl` fails, the descriptor is closed in any case. -/
def agentExit (agent : Agent) : M Unit := do
  use agent.fd
  let ret ← reply
  if ret ≠ 0 then
    let g ← globals
    setGlobals { g with stuck := {agent.control} + g.stuck }
    release agent.fd
  else
    release agent.control
    release agent.fd

/-- The start of `FsAgentInit`: `CHECK_CCOS` on a descriptor of its own decides the size. -/
def fsBufferSize : M (Option UInt32) := do
  match ← attempt .descriptor with
  | .error _ => pure none
  | .ok fd =>
      let ret ← reply
      let checkCcos ← reply
      release fd
      if ret = 0 ∧ checkCcos ≠ 0 then pure (some fsTransBuffSizeCcos)
      else pure (some transBuffSize)

/-- An agent init from `AgentInit` on: 0, or -1 with the globals as they were. -/
def startAgent (id : AgentId) (bufferSize : UInt32) : M Int := do
  match ← agentInit id bufferSize with
  | none => pure (-1)
  | some agent =>
      setAgent id (some agent)
      pure 0

def fsAgentInit : M Int := do
  match ← fsBufferSize with
  | none => pure (-1)
  | some bufferSize => startAgent .fs bufferSize

def miscAgentInit : M Int := startAgent .misc transBuffSize

def secLoadAgentInit : M Int := startAgent .secfileLoad transBuffSize

/-- `FsAgentExit`, `MiscAgentExit` and `SecLoadAgentExit`. -/
def endAgent (id : AgentId) : M Unit := do
  let g ← globals
  match g.agents id with
  | none => pure ()
  | some agent =>
      agentExit agent
      setAgent id none

/-! ### The table -/

/-- The `agentInit` of an entry. -/
def AgentId.init : AgentId → M Int
  | .fs => fsAgentInit
  | .misc => miscAgentInit
  | .secfileLoad => secLoadAgentInit

/-- The loop over the entries from `index` on; what is left of the table when one fails. -/
def initLoop : List AgentId → M (List AgentId)
  | [] => pure []
  | id :: ids => do
      let ret ← id.init
      if ret ≠ 0 then pure (id :: ids) else initLoop ids

def finiLoop : List AgentId → M Unit
  | [] => pure ()
  | id :: ids => do
      endAgent id
      finiLoop ids

def processAgentInit (table : List AgentId) : M Int := do
  let left ← initLoop table
  if left = [] then pure 0
  else
    finiLoop (table.take (table.length - left.length))
    pure (-1)

def processAgentExit (table : List AgentId) : M Unit := finiLoop table

/-! ### What is held -/

def Agent.owned (a : Agent) : Multiset Handle := {a.fd} + {a.control}

def agentOwned : Option Agent → Multiset Handle
  | none => 0
  | some a => a.owned

/-- What the agents of a list hold. -/
def owned (agents : AgentId → Option Agent) (ids : List AgentId) : Multiset Handle :=
  (ids.map fun id => agentOwned (agents id)).sum

/-- Beside `kept`, the process holds what its running agents hold and what the driver kept. -/
def Holds (kept : Multiset Handle) (ids : List AgentId) (w : World Kind Globals) : Prop :=
  w.held = owned w.globals.agents ids + w.globals.stuck + kept

/-- Exactly the agents of the list run, each registered under its own number. -/
def Runs (ids : List AgentId) (w : World Kind Globals) : Prop :=
  ∀ id, if id ∈ ids then
      ∃ a size, w.globals.agents id = some a ∧ a.fd.kind = .descriptor ∧
        a.control.kind = .registration id.number size
    else w.globals.agents id = none

variable {w : World Kind Globals} {kept : Multiset Handle} {ids : List AgentId}

theorem owned_cons (agents : AgentId → Option Agent) (id : AgentId) (ids : List AgentId) :
    owned agents (id :: ids) = agentOwned (agents id) + owned agents ids := by
  simp [owned]

theorem owned_append (agents : AgentId → Option Agent) (ids jds : List AgentId) :
    owned agents (ids ++ jds) = owned agents ids + owned agents jds := by
  simp [owned]

theorem owned_update_of_notMem {agents : AgentId → Option Agent} {id : AgentId} {o : Option Agent}
    (h : id ∉ ids) : owned (Function.update agents id o) ids = owned agents ids := by
  unfold owned
  congr 1
  refine List.map_congr_left fun j hj => ?_
  rw [Function.update_of_ne]
  rintro rfl
  exact h hj

/-! ### The steps -/

theorem wp_agentInit (id : AgentId) (bufferSize : UInt32)
    {Q : Option Agent → World Kind Globals → Prop}
    (hnone : ∀ w', w'.held = w.held → w'.globals = w.globals → Q none w')
    (hsome : ∀ a w', w'.held = a.owned + w.held → w'.globals = w.globals →
      a.fd.kind = .descriptor → a.control.kind = .registration id.number bufferSize →
      Q (some a) w') :
    wp (agentInit id bufferSize) Q w := by
  refine wp_bind (wp_attempt_kind _ (fun ret w₁ _ hheld₁ hglobals₁ => ?_)
    fun fd w₁ hfd hheld₁ hglobals₁ => ?_)
  · exact wp_pure _ (hnone w₁ hheld₁ hglobals₁)
  refine wp_bind (wp_attempt_kind _ (fun ret w₂ _ hheld₂ hglobals₂ => ?_)
    fun control w₂ hcontrol hheld₂ hglobals₂ => ?_)
  · refine wp_bind (wp_release (hheld₂.trans hheld₁) fun w₃ hheld₃ hglobals₃ => ?_)
    exact wp_pure _ (hnone w₃ hheld₃ (by rw [hglobals₃, hglobals₂, hglobals₁]))
  · refine wp_pure _ (hsome _ w₂ ?_ (by rw [hglobals₂, hglobals₁]) hfd hcontrol)
    rw [hheld₂, hheld₁, Agent.owned]
    abel

theorem wp_agentExit {a : Agent} {rest : Multiset Handle}
    (hheld : w.held = a.owned + (w.globals.stuck + rest)) {Q : Unit → World Kind Globals → Prop}
    (h : ∀ w', w'.held = w'.globals.stuck + rest → w'.globals.agents = w.globals.agents → Q () w') :
    wp (agentExit a) Q w := by
  have hfd : w.held = {a.fd} + ({a.control} + (w.globals.stuck + rest)) := by
    rw [hheld, Agent.owned]
    abel
  have hcontrol : w.held = {a.control} + ({a.fd} + (w.globals.stuck + rest)) := by
    rw [hheld, Agent.owned]
    abel
  have hmem : a.fd ∈ w.held := by
    rw [hfd]
    simp
  refine wp_bind (wp_use hmem (wp_bind (wp_reply fun ret w₁ hheld₁ hglobals₁ => ?_)))
  by_cases hret : ret ≠ 0
  · rw [if_pos hret]
    refine wp_bind (wp_globals (wp_bind (wp_setGlobals _ fun w₂ hheld₂ hglobals₂ => ?_)))
    refine wp_release (hheld₂.trans (hheld₁.trans hfd)) fun w₃ hheld₃ hglobals₃ => h w₃ ?_ ?_
    · rw [hheld₃, hglobals₃, hglobals₂, hglobals₁]
      exact (add_assoc _ _ _).symm
    · rw [hglobals₃, hglobals₂, hglobals₁]
  · rw [if_neg hret]
    refine wp_bind (wp_release (hheld₁.trans hcontrol) fun w₂ hheld₂ hglobals₂ => ?_)
    refine wp_release hheld₂ fun w₃ hheld₃ hglobals₃ => h w₃ ?_ ?_
    · rw [hheld₃, hglobals₃, hglobals₂, hglobals₁]
    · rw [hglobals₃, hglobals₂, hglobals₁]

theorem wp_fsBufferSize {Q : Option UInt32 → World Kind Globals → Prop}
    (h : ∀ o w', w'.held = w.held → w'.globals = w.globals → Q o w') :
    wp fsBufferSize Q w := by
  refine wp_bind (wp_attempt _ (fun ret w₁ _ hheld₁ hglobals₁ => ?_)
    fun fd w₁ hheld₁ hglobals₁ => ?_)
  · exact wp_pure _ (h none w₁ hheld₁ hglobals₁)
  refine wp_bind (wp_reply fun ret w₂ hheld₂ hglobals₂ => ?_)
  refine wp_bind (wp_reply fun checkCcos w₃ hheld₃ hglobals₃ => ?_)
  refine wp_bind (wp_release (hheld₃.trans (hheld₂.trans hheld₁)) fun w₄ hheld₄ hglobals₄ => ?_)
  have hglobals : w₄.globals = w.globals := by rw [hglobals₄, hglobals₃, hglobals₂, hglobals₁]
  by_cases hccos : ret = 0 ∧ checkCcos ≠ 0
  · rw [if_pos hccos]
    exact wp_pure _ (h _ w₄ hheld₄ hglobals)
  · rw [if_neg hccos]
    exact wp_pure _ (h _ w₄ hheld₄ hglobals)

theorem Holds.congr {w' : World Kind Globals} (h : Holds kept ids w) (hheld : w'.held = w.held)
    (hglobals : w'.globals = w.globals) : Holds kept ids w' := by
  rw [Holds, hheld, hglobals]
  exact h

theorem Runs.congr {w' : World Kind Globals} (h : Runs ids w) (hglobals : w'.globals = w.globals) :
    Runs ids w' := by
  rw [Runs, hglobals]
  exact h

/-- What an agent's init does: the agent runs then, or nothing has changed. -/
theorem wp_startAgent (id : AgentId) (bufferSize : UInt32) (hnew : id ∉ ids)
    (hholds : Holds kept ids w) (hruns : Runs ids w) {Q : Int → World Kind Globals → Prop}
    (herror : ∀ ret w', ret ≠ 0 → Holds kept ids w' → Runs ids w' → Q ret w')
    (hok : ∀ w', Holds kept (ids ++ [id]) w' → Runs (ids ++ [id]) w' → Q 0 w') :
    wp (startAgent id bufferSize) Q w := by
  refine wp_bind (wp_agentInit id bufferSize (fun w₁ hheld₁ hglobals₁ => ?_)
    fun a w₁ hheld₁ hglobals₁ hfd hcontrol => ?_)
  · exact wp_pure _ (herror _ w₁ (by decide) (hholds.congr hheld₁ hglobals₁)
      (hruns.congr hglobals₁))
  refine wp_bind (wp_bind (wp_globals (wp_setGlobals _ fun w₂ hheld₂ hglobals₂ => ?_)))
  refine wp_pure _ (hok w₂ ?_ fun j => ?_)
  · rw [Holds, hheld₂, hheld₁, hholds, hglobals₂, hglobals₁, owned_append, owned_cons,
      owned_update_of_notMem hnew]
    dsimp only
    rw [Function.update_self, agentOwned, owned, owned, List.map_nil, List.sum_nil]
    abel
  · rw [hglobals₂, hglobals₁]
    by_cases hj : j = id
    · rw [if_pos (by rw [hj]; simp), hj]
      exact ⟨a, bufferSize, Function.update_self .., hfd, hcontrol⟩
    · have hiff : j ∈ ids ++ [id] ↔ j ∈ ids := by simp [hj]
      dsimp only
      simp only [hiff, Function.update_of_ne hj]
      exact hruns j

theorem wp_init (id : AgentId) (hnew : id ∉ ids) (hholds : Holds kept ids w) (hruns : Runs ids w)
    {Q : Int → World Kind Globals → Prop}
    (herror : ∀ ret w', ret ≠ 0 → Holds kept ids w' → Runs ids w' → Q ret w')
    (hok : ∀ w', Holds kept (ids ++ [id]) w' → Runs (ids ++ [id]) w' → Q 0 w') :
    wp id.init Q w := by
  cases id with
  | fs =>
      refine wp_bind (wp_fsBufferSize fun o w₁ hheld₁ hglobals₁ => ?_)
      cases o with
      | none =>
          exact wp_pure _ (herror _ w₁ (by decide) (hholds.congr hheld₁ hglobals₁)
            (hruns.congr hglobals₁))
      | some bufferSize =>
          exact wp_startAgent .fs bufferSize hnew (hholds.congr hheld₁ hglobals₁)
            (hruns.congr hglobals₁) herror hok
  | misc => exact wp_startAgent .misc transBuffSize hnew hholds hruns herror hok
  | secfileLoad => exact wp_startAgent .secfileLoad transBuffSize hnew hholds hruns herror hok

theorem wp_endAgent (id : AgentId) (hnew : id ∉ ids) (hholds : Holds kept (id :: ids) w)
    (hruns : Runs (id :: ids) w) {Q : Unit → World Kind Globals → Prop}
    (h : ∀ w', Holds kept ids w' → Runs ids w' → Q () w') : wp (endAgent id) Q w := by
  have hid := hruns id
  rw [if_pos List.mem_cons_self] at hid
  obtain ⟨a, size, hsome, -⟩ := hid
  refine wp_bind (wp_globals ?_)
  rw [hsome]
  have hheld : w.held = a.owned + (w.globals.stuck + (owned w.globals.agents ids + kept)) := by
    rw [hholds, owned_cons, hsome, agentOwned]
    abel
  refine wp_bind (wp_agentExit hheld fun w₁ hheld₁ hagents₁ => ?_)
  refine wp_bind (wp_globals (wp_setGlobals _ fun w₂ hheld₂ hglobals₂ => h w₂ ?_ fun j => ?_))
  · rw [Holds, hheld₂, hheld₁, hglobals₂, hagents₁, owned_update_of_notMem hnew]
    abel
  · have hj := hruns j
    rw [hglobals₂, hagents₁]
    by_cases heq : j = id
    · rw [heq, if_neg hnew]
      exact Function.update_self ..
    · dsimp only
      simp only [List.mem_cons, heq, false_or] at hj
      rw [Function.update_of_ne heq]
      exact hj

/-! ### The loops -/

theorem wp_initLoop (table : List AgentId) (hnodup : (ids ++ table).Nodup)
    (hholds : Holds kept ids w) (hruns : Runs ids w) :
    wp (initLoop table) (fun left w' => ∃ started, table = started ++ left ∧
      Holds kept (ids ++ started) w' ∧ Runs (ids ++ started) w') w := by
  induction table generalizing ids w with
  | nil =>
      refine wp_pure _ ⟨[], rfl, ?_⟩
      rw [List.append_nil]
      exact ⟨hholds, hruns⟩
  | cons id table ih =>
      have hnew : id ∉ ids := by
        rw [List.nodup_append] at hnodup
        exact fun hmem => hnodup.2.2 id hmem id List.mem_cons_self rfl
      refine wp_bind (wp_init id hnew hholds hruns (fun ret w₁ hret hholds₁ hruns₁ => ?_)
        fun w₁ hholds₁ hruns₁ => ?_)
      · rw [if_pos hret]
        refine wp_pure _ ⟨[], rfl, ?_⟩
        rw [List.append_nil]
        exact ⟨hholds₁, hruns₁⟩
      · rw [if_neg (not_not.mpr rfl)]
        have hnodup' : (ids ++ [id] ++ table).Nodup := by
          rw [List.append_assoc]
          exact hnodup
        refine (ih hnodup' hholds₁ hruns₁).mono fun left w₂ hpost => ?_
        obtain ⟨started, htable, hholds₂, hruns₂⟩ := hpost
        refine ⟨id :: started, by rw [htable]; rfl, ?_⟩
        rw [← List.singleton_append, ← List.append_assoc]
        exact ⟨hholds₂, hruns₂⟩

theorem wp_finiLoop (hnodup : ids.Nodup) (hholds : Holds kept ids w) (hruns : Runs ids w)
    {Q : Unit → World Kind Globals → Prop}
    (h : ∀ w', Holds kept [] w' → Runs [] w' → Q () w') : wp (finiLoop ids) Q w := by
  induction ids generalizing w with
  | nil => exact wp_pure _ (h w hholds hruns)
  | cons id ids ih =>
      obtain ⟨hnew, hnodup'⟩ := List.nodup_cons.mp hnodup
      exact wp_bind (wp_endAgent id hnew hholds hruns fun w₁ hholds₁ hruns₁ =>
        ih hnodup' hholds₁ hruns₁)

/-- The agents of a table from `ProcessAgentInit` to `ProcessAgentExit`: all of them run, or none
does; and when none does, only what the driver did not take back is left. -/
def AllOrNone (kept : Multiset Handle) (table : List AgentId) (w : World Kind Globals) : Prop :=
  wp (processAgentInit table) (fun ret w₁ =>
    if ret = 0 then
      Runs table w₁ ∧ Holds kept table w₁ ∧
        wp (processAgentExit table) (fun _ w₂ =>
          Runs [] w₂ ∧ w₂.held = w₂.globals.stuck + kept) w₁
    else Runs [] w₁ ∧ w₁.held = w₁.globals.stuck + kept) w

theorem held_of_holds_nil (h : Holds kept [] w) : w.held = w.globals.stuck + kept := by
  rw [h, owned, List.map_nil, List.sum_nil, zero_add]

/-- For every table without repetition and every outcome of every call. -/
theorem agents_allOrNone (table : List AgentId) (hnodup : table.Nodup) (w : World Kind Globals)
    (hheld : w.held = w.globals.stuck + kept) (hnone : ∀ id, w.globals.agents id = none) :
    AllOrNone kept table w := by
  have hholds : Holds kept [] w := by
    rw [Holds, hheld, owned, List.map_nil, List.sum_nil, zero_add]
  have hruns : Runs [] w := by
    intro id
    rw [if_neg List.not_mem_nil]
    exact hnone id
  refine wp_bind ((wp_initLoop table (by simpa using hnodup) hholds hruns).mono fun left w₁ h => ?_)
  obtain ⟨started, htable, hholds₁, hruns₁⟩ := h
  rw [List.nil_append] at hholds₁ hruns₁
  by_cases hleft : left = []
  · rw [if_pos hleft]
    rw [hleft, List.append_nil] at htable
    rw [← htable] at hholds₁ hruns₁
    refine wp_pure _ ?_
    rw [if_pos rfl]
    exact ⟨hruns₁, hholds₁, wp_finiLoop hnodup hholds₁ hruns₁ fun w₂ hholds₂ hruns₂ =>
      ⟨hruns₂, held_of_holds_nil hholds₂⟩⟩
  · rw [if_neg hleft]
    have htake : table.take (table.length - left.length) = started := by
      rw [htable, List.length_append, Nat.add_sub_cancel, List.take_left]
    have hnodup' : started.Nodup := by
      rw [htable] at hnodup
      exact (List.nodup_append.mp hnodup).1
    rw [htake]
    refine wp_bind (wp_finiLoop hnodup' hholds₁ hruns₁ fun w₂ hholds₂ hruns₂ => ?_)
    refine wp_pure _ ?_
    rw [if_neg (by decide)]
    exact ⟨hruns₂, held_of_holds_nil hholds₂⟩

def agentTable : List AgentId := [.fs, .misc, .secfileLoad]

/-- A daemon that starts, with these replies. -/
def start (replies : Nat → Int) : World Kind Globals where
  next := 0
  held := 0
  replies := replies
  globals := {}
  fresh := by simp
  nodup := Multiset.nodup_zero

/-- The driver refuses the last agent, and then does not take back the first. -/
def refusal (n : Nat) : Int := if n = 8 ∨ n = 9 then 1 else 0

/-- All agents start where every call succeeds; none does where the driver refuses the last. -/
theorem agents_allOrNone_start :
    ((processAgentInit agentTable (start fun _ => 0)).map Prod.fst = some 0 ∧
        AllOrNone 0 agentTable (start fun _ => 0)) ∧
      (processAgentInit agentTable (start refusal)).map (fun r => (r.1, r.2.held)) =
          some (-1, {⟨.registration AgentId.fs.number transBuffSize, 2⟩}) ∧
        AllOrNone 0 agentTable (start refusal) :=
  ⟨⟨by decide +kernel, agents_allOrNone _ (by decide) _ rfl fun _ => rfl⟩,
    by decide +kernel, agents_allOrNone _ (by decide) _ rfl fun _ => rfl⟩

end ITrustee.Teecd.Agents
