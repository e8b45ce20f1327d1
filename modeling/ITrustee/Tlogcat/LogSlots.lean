import Mathlib.Tactic
import ITrustee.Tlogcat.Compression

/-!
# Slots and the log directory

What ties the table of open files to the log directory. A slot in use is the only one of its identifier
and stands at the end of the '-0' file; its index is at most 3 and no log file has a higher one, so the
name that the full file gets is free. The items in the files '-1', '-2', '-3' and '-0', in this order,
are those written since the last compression.

Every operation works for one identifier and at most one slot. `LogInv.update` says once what such a
step has to show.
-/

namespace ITrustee.Tlogcat

open LogPaths

/-! ### Items -/

/-- The bytes of log items in a file. -/
def itemsOf (content : Option (List LogByte)) : List UInt8 :=
  ((content.getD []).filter fun byte => byte.origin = .item).map LogByte.value

/-- The items in the files '-0' to '-3', the oldest first. -/
def keptItems (files : List (Option (List LogByte))) : List UInt8 :=
  (files.drop 1 ++ files.take 1).flatMap itemsOf

def logContents (C : Config) (u : TeeUuid) (s : LogState) : List (Option (List LogByte)) :=
  (List.range logFileIndexMax).map fun i => s.content (C.paths.logFile u i)

/-- The bytes written for an identifier since its last compression. -/
def pendingStep (u : TeeUuid) (bytes : List UInt8) : Event → List UInt8
  | .wrote v new => if v = u then bytes ++ new else bytes
  | .full _ _ _ => bytes
  | .moved v _ => if v = u then [] else bytes

def pending (u : TeeUuid) (trace : List Event) : List UInt8 := trace.foldl (pendingStep u) []

/-- A full file gets a new name, with an index in range; a compression moves what was written. -/
def Event.Good (before : List Event) : Event → Prop
  | .wrote _ _ => True
  | .full _ index existed => existed = false ∧ index < logFileIndexMax
  | .moved u files => keptItems files = pending u before

def GoodTrace (trace : List Event) : Prop :=
  ∀ before e after, trace = before ++ e :: after → e.Good before

/-- The identifier an event is for. -/
def Event.uuid : Event → TeeUuid
  | .wrote u _ => u
  | .full u _ _ => u
  | .moved u _ => u

variable {C : Config} {u v : TeeUuid} {s s' : LogState} {f : LogFile} {i : Nat}

theorem itemsOf_none : itemsOf none = [] := rfl

theorem itemsOf_append (xs ys : List LogByte) :
    itemsOf (some (xs ++ ys)) = itemsOf (some xs) ++ itemsOf (some ys) := by
  rw [itemsOf, Option.getD_some, List.filter_append, List.map_append]
  rfl

theorem itemsOf_item (bytes : List UInt8) :
    itemsOf (some (bytes.map fun value => ⟨.item, value⟩)) = bytes := by
  induction bytes with
  | nil => rfl
  | cons b bytes ih => exact congrArg (b :: ·) ih

theorem itemsOf_version (bytes : List UInt8) :
    itemsOf (some (bytes.map fun value => ⟨.version, value⟩)) = [] := by
  induction bytes with
  | nil => rfl
  | cons b bytes ih => exact ih

theorem keptItems_logContents (C : Config) (u : TeeUuid) (s : LogState) :
    keptItems (logContents C u s) =
      itemsOf (s.content (C.paths.logFile u 1)) ++ (itemsOf (s.content (C.paths.logFile u 2)) ++
        (itemsOf (s.content (C.paths.logFile u 3)) ++ itemsOf (s.content (C.paths.logFile u 0)))) := by
  change itemsOf _ ++ (itemsOf _ ++ (itemsOf _ ++ (itemsOf _ ++ []))) = _
  rw [List.append_nil]

theorem pending_append (u : TeeUuid) (trace : List Event) (e : Event) :
    pending u (trace ++ [e]) = pendingStep u (pending u trace) e := by
  rw [pending, List.foldl_append]
  rfl

theorem pendingStep_of_ne {e : Event} (h : e.uuid ≠ u) (bytes : List UInt8) :
    pendingStep u bytes e = bytes := by
  cases e with
  | wrote v new => exact if_neg h
  | full v index existed => rfl
  | moved v files => exact if_neg h

theorem goodTrace_nil : GoodTrace [] := by
  intro before e after h
  simp at h

theorem GoodTrace.append {trace : List Event} (h : GoodTrace trace) {e : Event}
    (he : e.Good trace) : GoodTrace (trace ++ [e]) := by
  intro before e' after heq
  obtain rfl | ⟨after', last, rfl⟩ := after.eq_nil_or_concat
  · obtain ⟨hbefore, hlast⟩ := List.append_inj' heq rfl
    rw [← (List.cons.inj hlast).1, ← hbefore]
    exact he
  · rw [List.concat_eq_append, ← List.cons_append, ← List.append_assoc] at heq
    exact h before e' after' (List.append_inj' heq rfl).1

/-! ### The invariant -/

/-- A slot in use: its stream is at the end of the '-0' file, and no log file has a higher index. -/
structure Opened (C : Config) (s : LogState) (f : LogFile) : Prop where
  stream : ∃ file bytes, f.file = some file ∧
    s.disk.find (C.paths.logFile f.uuid 0) = some file.inode ∧
      s.content (C.paths.logFile f.uuid 0) = some bytes ∧ file.pos = bytes.length
  index_lt : f.fileIndex < logFileIndexMax
  above : ∀ j, f.fileIndex < j → j < logFileIndexMax →
    s.disk.find (C.paths.logFile f.uuid j) = none

structure LogInv (C : Config) (s : LogState) : Prop where
  length : s.g_files.length = logFilesMax
  opened : ∀ f ∈ s.g_files, f.valid = true → Opened C s f
  closed : ∀ f ∈ s.g_files, f.valid = false → f.file = none
  unique : ∀ (i j : Nat) (f g : LogFile), s.g_files[i]? = some f → s.g_files[j]? = some g →
    f.valid = true → g.valid = true → f.uuid = g.uuid → i = j
  items : ∀ u, keptItems (logContents C u s) = pending u s.trace
  trace : GoodTrace s.trace

/-- The log files of an identifier are as before. -/
def SameLogs (C : Config) (u : TeeUuid) (s s' : LogState) : Prop :=
  ∀ j, SameFile s s' (C.paths.logFile u j)

theorem SameLogs.logContents_eq (h : SameLogs C u s s') : logContents C u s' = logContents C u s :=
  List.map_congr_left fun j _ => (h j).2

theorem SameLogs.opened (h : SameLogs C f.uuid s s') (hf : Opened C s f) : Opened C s' f := by
  obtain ⟨file, bytes, hfile, hfind, hcontent, hpos⟩ := hf.stream
  refine ⟨⟨file, bytes, hfile, (h 0).1.trans hfind, (h 0).2.trans hcontent, hpos⟩, hf.index_lt,
    fun j hj hlt => ?_⟩
  rw [(h j).1]
  exact hf.above j hj hlt

/-- A step for the identifier `u` that sets slot `i`, which is the slot of `u` if it has one. -/
theorem LogInv.update (h : LogInv C s) (u : TeeUuid) {i : Nat} {g : LogFile}
    (hfiles : s'.g_files = s.g_files.set i g)
    (hslot : ∀ j f, s.g_files[j]? = some f → f.valid = true → f.uuid = u → j = i)
    (hlogs : ∀ v, v ≠ u → SameLogs C v s s')
    (hvalid : g.valid = true → g.uuid = u ∧ Opened C s' g) (hclosed : g.valid = false → g.file = none)
    (hpending : ∀ v, v ≠ u → pending v s'.trace = pending v s.trace)
    (hitems : keptItems (logContents C u s') = pending u s'.trace) (htrace : GoodTrace s'.trace) :
    LogInv C s' := by
  have hget (j : Nat) (f : LogFile) (hj : s'.g_files[j]? = some f) :
      j = i ∧ f = g ∨ j ≠ i ∧ s.g_files[j]? = some f := by
    rw [hfiles, List.getElem?_set] at hj
    split_ifs at hj with hij hlt
    · exact Or.inl ⟨hij.symm, (Option.some.inj hj).symm⟩
    · exact Or.inr ⟨fun heq => hij heq.symm, hj⟩
  have hother (j : Nat) (f : LogFile) (hj : s.g_files[j]? = some f) (hji : j ≠ i)
      (hf : f.valid = true) : f.uuid ≠ u :=
    fun hu => hji (hslot j f hj hf hu)
  refine ⟨?_, fun f hmem hf => ?_, fun f hmem hf => ?_, fun j k f f' hj hk hf hf' huuid => ?_,
    fun v => ?_, htrace⟩
  · rw [hfiles, List.length_set]
    exact h.length
  · obtain ⟨j, hj⟩ := List.getElem?_of_mem hmem
    obtain ⟨-, rfl⟩ | ⟨hji, hold⟩ := hget j f hj
    · exact (hvalid hf).2
    · exact (hlogs f.uuid (hother j f hold hji hf)).opened
        (h.opened f (List.mem_of_getElem? hold) hf)
  · obtain ⟨j, hj⟩ := List.getElem?_of_mem hmem
    obtain ⟨-, rfl⟩ | ⟨-, hold⟩ := hget j f hj
    · exact hclosed hf
    · exact h.closed f (List.mem_of_getElem? hold) hf
  · obtain ⟨rfl, rfl⟩ | ⟨hji, hold⟩ := hget j f hj
    · obtain ⟨rfl, -⟩ | ⟨hki, hold'⟩ := hget k f' hk
      · rfl
      · exact absurd (huuid.symm.trans (hvalid hf).1) (hother k f' hold' hki hf')
    · obtain ⟨rfl, rfl⟩ | ⟨hki, hold'⟩ := hget k f' hk
      · exact absurd (huuid.trans (hvalid hf').1) (hother j f hold hji hf)
      · exact h.unique j k f f' hold hold' hf hf' huuid
  · by_cases hv : v = u
    · rw [hv]
      exact hitems
    · rw [(hlogs v hv).logContents_eq, hpending v hv]
      exact h.items v

/-- If a slot of `u` is in use, it is the only one. -/
theorem LogInv.slot_eq (h : LogInv C s) (hi : s.g_files[i]? = some f) (hf : f.valid = true) (j : Nat)
    (g : LogFile) (hj : s.g_files[j]? = some g) (hg : g.valid = true) (huuid : g.uuid = f.uuid) :
    j = i :=
  h.unique j i g f hj hi hg hf huuid

theorem LogInv.valid_of_file (h : LogInv C s) (hi : s.g_files[i]? = some f) (hfile : f.file ≠ none) :
    f.valid = true := by
  by_contra hf
  exact hfile (h.closed f (List.mem_of_getElem? hi) (Bool.eq_false_iff.mpr hf))

end ITrustee.Tlogcat
