import Mathlib.Tactic
import ITrustee.Tlogcat.ArchiveRetention
import ITrustee.Tlogcat.LogRecords
import ITrustee.Tlogcat.LogRotation

/-!
# Collecting the logs

The loop of `Func` when it writes files, one wakeup after another: the open files are closed, the device
is waited for and read until a read returns no valid length, and each text goes to the file of its
identifier. Over all wakeups no text is lost, doubled or moved: what the compressions of an identifier
have packed, together with what its log files hold, is what arrived for it.

A wakeup needs one slot for each identifier in it, and there are 128.
-/

namespace ITrustee.Tlogcat

open LogPaths

/-! ### The loop -/

section Model

variable (C : Config)

end Model

/-! ### Specification -/

/-- What a compression packs of the log files with these contents. -/
def packFiles (C : Config) (u : TeeUuid) (files : List (Option (List LogByte))) : List LogByte :=
  C.tarZip ((List.range logFileIndexMax).filterMap fun i =>
    (files.getD i none).map fun bytes => (C.paths.tempFile u i, bytes))

/-- The bytes that an event writes for an identifier. -/
def Event.wroteFor (u : TeeUuid) : Event → List UInt8
  | .wrote v bytes => if v = u then bytes else []
  | .full _ _ _ | .moved _ _ => []

/-- The files that an event moves of an identifier. -/
def Event.movedOf (u : TeeUuid) : Event → List (List (Option (List LogByte)))
  | .moved v files => if v = u then [files] else []
  | .wrote _ _ | .full _ _ _ => []

def wroteFor (u : TeeUuid) (trace : List Event) : List UInt8 := trace.flatMap (Event.wroteFor u)

def movedOf (u : TeeUuid) (trace : List Event) : List (List (Option (List LogByte))) :=
  trace.flatMap (Event.movedOf u)

variable {C : Config} {u v : TeeUuid} {s t s' : LogState} {f : LogFile} {i : Nat}

theorem wroteFor_append (u : TeeUuid) (trace : List Event) (e : Event) :
    wroteFor u (trace ++ [e]) = wroteFor u trace ++ e.wroteFor u := by
  rw [wroteFor, List.flatMap_append, List.flatMap_singleton, ← wroteFor]

theorem movedOf_append (u : TeeUuid) (trace : List Event) (e : Event) :
    movedOf u (trace ++ [e]) = movedOf u trace ++ e.movedOf u := by
  rw [movedOf, List.flatMap_append, List.flatMap_singleton, ← movedOf]

theorem GoodTrace.of_append {trace : List Event} {e : Event} (h : GoodTrace (trace ++ [e])) :
    GoodTrace trace ∧ e.Good trace := by
  refine ⟨fun before e' after heq => ?_, h trace e [] rfl⟩
  refine h before e' (after ++ [e]) ?_
  rw [heq, List.append_assoc, List.cons_append]

/-- Each byte is in one of the compressions or written since the last one. -/
theorem GoodTrace.account {trace : List Event} (h : GoodTrace trace) (u : TeeUuid) :
    (movedOf u trace).flatMap keptItems ++ pending u trace = wroteFor u trace := by
  induction trace using List.reverseRecOn with
  | nil => rfl
  | append_singleton trace e ih =>
      obtain ⟨hbefore, hgood⟩ := h.of_append
      rw [movedOf_append, pending_append, wroteFor_append, ← ih hbefore, List.flatMap_append]
      cases e with
      | wrote v bytes =>
          rw [Event.movedOf, pendingStep, Event.wroteFor, List.flatMap_nil, List.append_nil]
          split_ifs
          · rw [List.append_assoc]
          · rw [List.append_nil]
      | full v index existed =>
          rw [Event.movedOf, pendingStep, Event.wroteFor, List.flatMap_nil, List.append_nil,
            List.append_nil]
      | moved v files =>
          rw [Event.movedOf, pendingStep, Event.wroteFor, List.append_nil]
          split_ifs with hv
          · rw [hv] at hgood
            rw [List.append_nil, List.flatMap_singleton, hgood]
          · rw [List.flatMap_nil, List.append_nil]

/-! ### What one operation collects -/

/-- The archives are the last four of the old ones and of those that were packed. -/
def ArchivesHold (C : Config) (u : TeeUuid) (old : List (List LogByte)) (s : LogState) : Prop :=
  HoldsArchives C u s ((old ++ (movedOf u s.trace).map (packFiles C u)).rtake logFileIndexMax)

/-- What an action writes for an identifier. -/
def Action.textFor (u : TeeUuid) : Action → List UInt8
  | .write v bytes => if v = u then bytes else []
  | .close => []

def textsFor (u : TeeUuid) (as : List Action) : List UInt8 := as.flatMap (Action.textFor u)

/-- The texts were written, and the archives are those that were packed. -/
structure Gathers (C : Config) (as : List Action) (s s' : LogState) : Prop where
  wrote : ∀ u, wroteFor u s'.trace = wroteFor u s.trace ++ textsFor u as
  archived : ∀ u old, ArchivesHold C u old s → ArchivesHold C u old s'

theorem Gathers.trans {as bs : List Action} (h : Gathers C as s t) (h' : Gathers C bs t s') :
    Gathers C (as ++ bs) s s' := by
  refine ⟨fun u => ?_, fun u old hold => h'.archived u old (h.archived u old hold)⟩
  rw [h'.wrote, h.wrote, textsFor, textsFor, textsFor, List.flatMap_append, List.append_assoc]

/-- An operation that leaves the archives and packs nothing. -/
theorem Gathers.of_sameArchives {as : List Action} (hsame : SameArchives C s s')
    (hmoved : ∀ u, movedOf u s'.trace = movedOf u s.trace)
    (hwrote : ∀ u, wroteFor u s'.trace = wroteFor u s.trace ++ textsFor u as) :
    Gathers C as s s' := by
  refine ⟨hwrote, fun u old hold => ?_⟩
  rw [ArchivesHold, hmoved]
  exact hsame.holds hold

theorem Gathers.of_trace (hsame : SameArchives C s s') (htrace : s'.trace = s.trace) :
    Gathers C [] s s' := by
  refine .of_sameArchives hsame (fun u => by rw [htrace]) fun u => ?_
  rw [htrace, textsFor, List.flatMap_nil, List.append_nil]

theorem Gathers.refl (C : Config) (s : LogState) : Gathers C [] s s := .of_trace (fun _ _ => rfl) rfl

/-- With a free slot, `LogFilesAdd` takes one. -/
theorem logFilesAdd_spec {logName : List Char} {file : OpenFile} {fileLen index : Nat}
    {r : LogState × Option Nat} (hfree : ∃ f ∈ s.g_files, f.file = none ∧ f.valid = false)
    (hadd : logFilesAdd u logName file fileLen index s = r) :
    (∃ i, r.2 = some i) ∧ r.1.trace = s.trace ∧ r.1.disk = s.disk ∧
      ∀ v j, InUse r.1 v j → v = u ∨ InUse s v j := by
  rw [logFilesAdd] at hadd
  split at hadd
  · next hnone =>
      rw [List.findIdx?_eq_none_iff] at hnone
      obtain ⟨f, hf, hfile, hvalid⟩ := hfree
      have hthis := hnone f hf
      rw [hfile, hvalid] at hthis
      cases hthis
  · next i hi =>
      subst hadd
      refine ⟨⟨i, rfl⟩, rfl, rfl, fun v j huse => ?_⟩
      obtain ⟨f, hf, hvalid, huuid⟩ := huse
      dsimp only at hf
      rw [List.getElem?_set] at hf
      split_ifs at hf
      · rw [← Option.some.inj hf] at huuid
        exact Or.inl huuid.symm
      · exact Or.inr ⟨f, hf, hvalid, huuid⟩

section Slots

variable {S : Finset TeeUuid}

end Slots

/-! ### Closing -/

end ITrustee.Tlogcat
