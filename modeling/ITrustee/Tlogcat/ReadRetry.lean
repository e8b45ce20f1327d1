import Mathlib.Tactic
import ITrustee.Tlogcat.LogItems

/-!
# Reading the log device

`ProcReadLog`, one read of the device after another. A read is what it returns and the bytes it leaves in
the buffer, and a turn goes from one `READ_RETRY` to the next, or to the return. Besides the buffer the
state counts the reads and the waits, and collects the buffers and lengths that `ReadLogBuffer` is given.

The status error is larger than the buffer. The check for invalid lengths comes first and takes it for
one of them, so that the branch that waits and tries again is never taken.
-/

namespace ITrustee.Tlogcat

def logReadStatusError : Int := 0xFFFF

/-- What a `read` of the device returns, and what it writes to the buffer. -/
structure ReadResult where
  ret : Int
  bytes : List UInt8
  fits : bytes.length ≤ readBufferLen

structure ProcState where
  logBuffer : List UInt8
  reads : Nat := 0
  waits : Nat := 0
  parsed : List (List UInt8 × Nat) := []
  written : List Action := []
  displayed : List UInt8 := []
  ret : Option Int32 := none

section Model

variable (writeFile : Bool)

/-- `ProcReadLog` from `READ_RETRY` on. -/
def procReadTurn (r : ReadResult) (s : ProcState) : Option ProcState :=
  let s := { s with
    logBuffer := r.bytes ++ s.logBuffer.drop r.bytes.length, reads := s.reads + 1 }
  if r.ret = 0 then some { s with ret := some (-1) }
  else if r.ret < 0 then some { s with ret := some (-1) }
  else if r.ret > readBufferLen then some { s with ret := some (-1) }
  else
    let readLen := r.ret.toNat
    if r.ret = logReadStatusError then some { s with waits := s.waits + 1 }
    else
      (readLogBuffer writeFile (readLen + 1) s.logBuffer readLen).map fun log =>
        { s with
          logBuffer := log.buffer
          parsed := s.parsed ++ [(s.logBuffer, readLen)]
          written := s.written ++ log.written
          displayed := s.displayed ++ log.displayed }

/-- The turns of `ProcReadLog` for the results that its reads have so far. -/
def procReadLoop : List ReadResult → ProcState → Option ProcState
  | [], s => some s
  | r :: results, s =>
      match s.ret with
      | some _ => some s
      | none => (procReadTurn writeFile r s).bind (procReadLoop results)

/-- `ProcReadLog`; `readable` says whether the device is in the set. -/
def procReadLog (readable : Bool) (results : List ReadResult) (logBuffer : List UInt8) :
    Option ProcState :=
  if readable then procReadLoop writeFile results { logBuffer } else some { logBuffer, ret := some 0 }

end Model

/-! ### Up to the first that stops -/

section UntilStop

variable {α : Type*} (stops : α → Prop) [DecidablePred stops]

/-- A sequence up to its first element that stops, and with it. -/
def untilStop : List α → List α
  | [] => []
  | x :: xs => if stops x then [x] else x :: untilStop xs

variable {stops}

/-- Only the elements up to the one that stops decide. -/
theorem untilStop_congr {stops' : α → Prop} [DecidablePred stops'] {xs : List α}
    (h : ∀ x ∈ untilStop stops xs, stops' x ↔ stops x) :
    untilStop stops' xs = untilStop stops xs := by
  induction xs with
  | nil => rfl
  | cons x xs ih =>
      rw [untilStop] at h ⊢
      rw [untilStop]
      by_cases hx : stops x
      · rw [if_pos hx] at h ⊢
        rw [if_pos ((h x (List.mem_singleton_self x)).mpr hx)]
      · rw [if_neg hx] at h ⊢
        rw [if_neg (fun hx' => hx ((h x (List.mem_cons_self ..)).mp hx')),
          ih fun y hy => h y (List.mem_cons_of_mem _ hy)]

theorem exists_stops_untilStop {xs : List α} :
    (∃ x ∈ untilStop stops xs, stops x) ↔ ∃ x ∈ xs, stops x := by
  induction xs with
  | nil => rfl
  | cons x xs ih =>
      rw [untilStop]
      by_cases hx : stops x
      · rw [if_pos hx]
        exact ⟨fun _ => ⟨x, List.mem_cons_self .., hx⟩, fun _ => ⟨x, List.mem_cons_self .., hx⟩⟩
      · rw [if_neg hx]
        simp only [List.mem_cons, exists_eq_or_imp, hx, false_or]
        exact ih

/-- An element is reached if none before it stops. -/
theorem mem_untilStop {xs : List α} {x : α} :
    x ∈ untilStop stops xs ↔ ∃ ys zs, xs = ys ++ x :: zs ∧ ∀ y ∈ ys, ¬ stops y := by
  constructor
  · intro hx
    induction xs with
    | nil => cases hx
    | cons w xs ih =>
        rw [untilStop] at hx
        split_ifs at hx with hw
        · exact ⟨[], xs, by rw [List.mem_singleton.mp hx, List.nil_append], by simp⟩
        · obtain rfl | hx := List.mem_cons.mp hx
          · exact ⟨[], xs, rfl, by simp⟩
          · obtain ⟨ys, zs, rfl, hys⟩ := ih hx
            exact ⟨w :: ys, zs, rfl, List.forall_mem_cons.mpr ⟨hw, hys⟩⟩
  · rintro ⟨ys, zs, rfl, hys⟩
    induction ys with
    | nil =>
        rw [List.nil_append, untilStop]
        split_ifs
        · exact List.mem_singleton_self x
        · exact List.mem_cons_self ..
    | cons y ys ih =>
        obtain ⟨hy, hys⟩ := List.forall_mem_cons.mp hys
        rw [List.cons_append, untilStop, if_neg hy]
        exact List.mem_cons_of_mem _ (ih hys)

end UntilStop

/-! ### Turns -/

def ReadResult.Succeeds (r : ReadResult) : Prop := 1 ≤ r.ret ∧ r.ret ≤ readBufferLen

/-- No data, an error, or a length that is neither valid nor the status error. -/
def ReadResult.Stops (r : ReadResult) : Prop :=
  r.ret = 0 ∨ r.ret < 0 ∨ r.ret > readBufferLen ∧ r.ret ≠ logReadStatusError

def ReadResult.IsStatusError (r : ReadResult) : Prop := r.ret = logReadStatusError

instance : DecidablePred ReadResult.Succeeds := fun r => by unfold ReadResult.Succeeds; infer_instance
instance : DecidablePred ReadResult.Stops := fun r => by unfold ReadResult.Stops; infer_instance
instance : DecidablePred ReadResult.IsStatusError :=
  fun r => by unfold ReadResult.IsStatusError; infer_instance

theorem not_succeeds_iff (r : ReadResult) : ¬ r.Succeeds ↔ r.Stops ∨ r.IsStatusError := by
  rw [ReadResult.Succeeds, ReadResult.Stops, ReadResult.IsStatusError, logReadStatusError, readBufferLen]
  omega

/-- A call of `ReadLogBuffer` passes what the read left in the buffer, and its length. -/
def Passes (call : List UInt8 × Nat) (r : ReadResult) : Prop :=
  call.2 = r.ret ∧ r.bytes <+: call.1

section Turn

variable (writeFile : Bool) {r : ReadResult} {s : ProcState}

theorem procReadTurn_succeeds (hr : r.Succeeds) (hbuffer : s.logBuffer.length = readBufferLen) :
    ∃ s' call, procReadTurn writeFile r s = some s' ∧ s'.logBuffer.length = readBufferLen ∧
      s'.reads = s.reads + 1 ∧ s'.waits = s.waits ∧ s'.parsed = s.parsed ++ [call] ∧
        Passes call r ∧ s'.ret = s.ret := by
  obtain ⟨hpos, hmax⟩ := hr
  obtain ⟨readLen, hlen⟩ := Int.eq_ofNat_of_zero_le (zero_le_one.trans hpos)
  have hfilled : (r.bytes ++ s.logBuffer.drop r.bytes.length).length = readBufferLen := by
    have hfits := r.fits
    rw [List.length_append, List.length_drop, hbuffer]
    omega
  have hstart : Reading _ readLen
      (lookAt 0 readLen { buffer := r.bytes ++ s.logBuffer.drop r.bytes.length }) :=
    Reading.lookAt (s := { buffer := r.bytes ++ s.logBuffer.drop r.bytes.length }) rfl rfl rfl
      (by simp) (by simp) (show 0 < readLen by omega) (by omega)
  obtain ⟨log, hloop, hread, -⟩ := hstart.loop hfilled (by omega) writeFile
  have hlog : readLogBuffer writeFile (readLen + 1) (r.bytes ++ s.logBuffer.drop r.bytes.length)
      readLen = some log :=
    hloop (readLen + 1) (Nat.lt_succ_of_le (Nat.sub_le ..))
  have hstatus : r.ret ≠ logReadStatusError := by
    rw [readBufferLen] at hmax
    rw [logReadStatusError]
    omega
  rw [procReadTurn]
  dsimp only
  rw [if_neg (by omega), if_neg (by omega), if_neg (by omega), if_neg hstatus, hlen, Int.toNat_natCast,
    hlog]
  exact ⟨_, _, rfl, hread.length_eq.trans hfilled, rfl, rfl, rfl, ⟨hlen.symm, List.prefix_append ..⟩, rfl⟩

theorem procReadTurn_stops (hr : ¬ r.Succeeds) :
    ∃ s', procReadTurn writeFile r s = some s' ∧ s'.reads = s.reads + 1 ∧ s'.waits = s.waits ∧
      s'.parsed = s.parsed ∧ s'.ret = some (-1) := by
  rw [procReadTurn]
  dsimp only
  rw [ReadResult.Succeeds] at hr
  split_ifs
  · exact ⟨_, rfl, rfl, rfl, rfl, rfl⟩
  · exact ⟨_, rfl, rfl, rfl, rfl, rfl⟩
  · exact ⟨_, rfl, rfl, rfl, rfl, rfl⟩
  · omega
  · omega

/-- What the loop has done with the results: it stops at the first that is not a valid length. -/
theorem procReadLoop_spec (results : List ReadResult) (hret : s.ret = none)
    (hbuffer : s.logBuffer.length = readBufferLen) :
    ∃ s' calls, procReadLoop writeFile results s = some s' ∧
      s'.reads = s.reads + (untilStop (fun r => ¬ ReadResult.Succeeds r) results).length ∧
      s'.waits = s.waits ∧ s'.parsed = s.parsed ++ calls ∧
      List.Forall₂ Passes calls
        ((untilStop (fun r => ¬ ReadResult.Succeeds r) results).filter ReadResult.Succeeds) ∧
      s'.ret = if ∃ r ∈ results, ¬ r.Succeeds then some (-1) else none := by
  induction results generalizing s with
  | nil => exact ⟨s, [], rfl, rfl, rfl, (List.append_nil _).symm, List.Forall₂.nil, by simpa using hret⟩
  | cons r results ih =>
      rw [procReadLoop, hret, untilStop]
      dsimp only
      by_cases hr : r.Succeeds
      · obtain ⟨s₁, call, hturn, hbuffer₁, hreads, hwaits, hparsed, hpass, hret₁⟩ :=
          procReadTurn_succeeds writeFile hr hbuffer
        obtain ⟨s', calls, hloop, hreads', hwaits', hparsed', hpasses, hret'⟩ :=
          ih (hret₁.trans hret) hbuffer₁
        rw [hturn, Option.bind_some, if_neg (not_not.mpr hr), List.filter_cons_of_pos (by simpa using hr)]
        refine ⟨s', call :: calls, hloop, ?_, hwaits'.trans hwaits, ?_, hpasses.cons hpass, ?_⟩
        · rw [hreads', hreads, List.length_cons, Nat.add_assoc, Nat.add_comm 1]
        · rw [hparsed', hparsed, List.append_assoc, List.singleton_append]
        · rw [hret']
          simp only [List.mem_cons, exists_eq_or_imp, hr, not_true_eq_false, false_or]
      · obtain ⟨s', hturn, hreads, hwaits, hparsed, hret'⟩ := procReadTurn_stops writeFile (s := s) hr
        rw [hturn, Option.bind_some, if_pos hr, List.filter_cons_of_neg (by simpa using hr)]
        refine ⟨s', [], ?_, hreads, hwaits, ?_, List.Forall₂.nil, ?_⟩
        · cases results with
          | nil => rfl
          | cons => rw [procReadLoop, hret']
        · rw [hparsed, List.append_nil]
        · rw [hret', if_pos ⟨r, List.mem_cons_self .., hr⟩]

end Turn

/-! ### Retries -/

/-- After the results, every one up to the first that stops has been read, the status errors have been
waited for, the other ones have been passed to `ReadLogBuffer` in order, and the function has returned
exactly if one of them stops. -/
structure ReadsOn (results : List ReadResult) (s : ProcState) : Prop where
  reads : s.reads = (untilStop ReadResult.Stops results).length
  waits : s.waits = (untilStop ReadResult.Stops results).countP ReadResult.IsStatusError
  parsed : List.Forall₂ Passes s.parsed
    ((untilStop ReadResult.Stops results).filter ReadResult.Succeeds)
  ret : s.ret = if ∃ r ∈ results, r.Stops then some (-1) else none

def ProcExact (writeFile : Bool) (results : List ReadResult) : Prop :=
  ∀ logBuffer, logBuffer.length = readBufferLen →
    ∃ s, procReadLog writeFile true results logBuffer = some s ∧ ReadsOn results s

/-- `ProcReadLog` retries unless it reads a status error, which it does not wait for. -/
theorem procReadLog_exact_iff (writeFile : Bool) (results : List ReadResult) :
    ProcExact writeFile results ↔
      ∀ before r after, results = before ++ r :: after → r.ret = logReadStatusError →
        ∃ q ∈ before, q.Stops := by
  have hcond : (∀ before r after, results = before ++ r :: after → r.ret = logReadStatusError →
      ∃ q ∈ before, q.Stops) ↔
        ∀ r ∈ untilStop ReadResult.Stops results, ¬ r.IsStatusError := by
    constructor
    · intro h r hr hstatus
      obtain ⟨before, after, heq, hbefore⟩ := mem_untilStop.mp hr
      obtain ⟨q, hq, hstops⟩ := h before r after heq hstatus
      exact hbefore q hq hstops
    · intro h before r after heq hstatus
      by_contra! hbefore
      exact h r (mem_untilStop.mpr ⟨before, after, heq, hbefore⟩) hstatus
  rw [hcond]
  constructor
  · intro hexact r hr hstatus
    obtain ⟨s, hrun, hreads⟩ := hexact (List.replicate readBufferLen 0) (List.length_replicate ..)
    obtain ⟨s', calls, hloop, -, hwaits, -⟩ :=
      procReadLoop_spec writeFile (s := { logBuffer := List.replicate readBufferLen 0 }) results rfl
        (List.length_replicate ..)
    obtain rfl : s = s' := Option.some.inj (hrun.symm.trans hloop)
    -- the code has waited for nothing
    have hnone := hreads.waits.symm.trans hwaits
    rw [List.countP_eq_zero] at hnone
    exact hnone r hr (by simpa using hstatus)
  · intro hstatus logBuffer hbuffer
    obtain ⟨s, calls, hloop, hreads, hwaits, hparsed, hpasses, hret⟩ :=
      procReadLoop_spec writeFile (s := { logBuffer }) results rfl hbuffer
    have hsame : untilStop (fun r => ¬ ReadResult.Succeeds r) results =
        untilStop ReadResult.Stops results := by
      apply untilStop_congr
      intro r hr
      rw [not_succeeds_iff]
      exact or_iff_left (hstatus r hr)
    have hstops : (∃ r ∈ results, ¬ r.Succeeds) ↔ ∃ r ∈ results, r.Stops := by
      rw [← exists_stops_untilStop, hsame, ← @exists_stops_untilStop _ ReadResult.Stops]
      apply exists_congr
      intro r
      apply and_congr_right
      intro hr
      rw [not_succeeds_iff]
      exact or_iff_left (hstatus r hr)
    rw [hsame] at hreads hpasses
    refine ⟨s, hloop, ?_, ?_, ?_, ?_⟩
    · exact hreads.trans (Nat.zero_add _)
    · rw [hwaits]
      symm
      rw [List.countP_eq_zero]
      intro r hr
      simpa using hstatus r hr
    · rw [hparsed]
      exact hpasses
    · rw [hret]
      exact if_congr hstops rfl rfl

/-- The status error ends the reading of the log. -/
theorem procReadLog_statusError :
    ∃ s, procReadLog true true [⟨0xFFFF, [], by decide⟩, ⟨0, [], by decide⟩]
        (List.replicate readBufferLen 0) = some s ∧
      s.reads = 1 ∧ s.waits = 0 ∧ s.ret = some (-1) ∧
        ¬ ProcExact true [⟨0xFFFF, [], by decide⟩, ⟨0, [], by decide⟩] := by
  refine ⟨_, rfl, rfl, rfl, rfl, fun hexact => ?_⟩
  obtain ⟨s, hrun, hreads⟩ := hexact (List.replicate readBufferLen 0) (List.length_replicate ..)
  obtain rfl := Option.some.inj hrun
  exact absurd hreads.reads (by decide)

end ITrustee.Tlogcat
