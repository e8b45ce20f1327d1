import Mathlib
import ITrustee.TeeTeleport.ParamTokens

/-!
# Leading arguments

What `ParseParam` may write to in each of the four run modes, and when it keeps to that. The element two
before the parameters is the class path in the run of a Java class only. With a jar file it is the
'-jar' flag, and in front of the one leading argument of a Python or ELF run there is nothing.
-/

namespace ITrustee.TeeTeleport

open Tokens

/-! ### Copies of a class path -/

section Copies

variable {slot : Bool} {maxNum : Nat} {σ : TokenState}

/-- A class path was copied, or there was nowhere to copy it to. -/
def TokenEnd.Copies : TokenEnd → Prop
  | .ok σ => σ.classPaths ≠ []
  | .full σ => σ.classPaths ≠ []
  | .outside _ => True

/-- A class path once copied is on record. -/
theorem copies_of_copied (ts : List Token) (h : σ.classPaths ≠ []) :
    (tokenRun slot maxNum σ ts).Copies := by
  induction ts generalizing σ with
  | nil => exact h
  | cons t ts ih =>
      rw [tokenRun]
      cases hstep : tokenStep maxNum σ t with
      | none => exact h
      | some σ' =>
          dsimp only
          split_ifs
          · trivial
          · apply ih
            rw [tokenStep] at hstep
            split_ifs at hstep
            · split at hstep
              · obtain rfl := Option.some.inj hstep
                exact h
              · obtain rfl := Option.some.inj hstep
                exact List.append_ne_nil_of_right_ne_nil _ (List.cons_ne_nil _ _)
            · obtain rfl := Option.some.inj hstep
              exact List.append_ne_nil_of_right_ne_nil _ (List.cons_ne_nil _ _)
            · obtain rfl := Option.some.inj hstep
              exact h

/-- A step that copies a class path. -/
theorem copies_of_step {t : Token} (ts : List Token) {σ' : TokenState}
    (hstep : tokenStep maxNum σ t = some σ') (hnew : σ'.classPaths ≠ []) :
    (tokenRun slot maxNum σ (t :: ts)).Copies := by
  rw [tokenRun, hstep]
  dsimp only
  split_ifs
  · trivial
  · exact copies_of_copied ts hnew

/-- While no flag has come, one that can be stored and has a token before it makes a copy. -/
theorem copies_plain_iff (ts : List Token) (hpending : σ.pending = false) (hstored : σ.stored ≠ [])
    (hnone : σ.classPaths = []) :
    (tokenRun slot maxNum σ ts).Copies ↔
      ∃ t ∈ ts.take (maxNum - σ.stored.length), isFlag t = true := by
  induction ts generalizing σ with
  | nil =>
      rw [tokenRun, List.take_nil]
      exact iff_of_false (fun h => h hnone) (by simp)
  | cons t ts ih =>
      by_cases hroom : maxNum ≤ σ.stored.length
      · rw [tokenRun, tokenStep, if_pos hroom, Nat.sub_eq_zero_of_le hroom, List.take_zero]
        exact iff_of_false (fun h => h hnone) (by simp)
      · have hleft : maxNum - σ.stored.length = maxNum - (σ.stored.length + 1) + 1 := by omega
        rw [hleft, List.take_succ_cons]
        cases hflag : isFlag t with
        | true =>
            obtain ⟨u, hu⟩ := Option.isSome_iff_exists.mp (List.getLast?_isSome.mpr hstored)
            refine iff_of_true (copies_of_step ts (tokenStep_flag_last hroom hflag hu) (by simp)) ?_
            exact ⟨t, List.mem_cons_self .., hflag⟩
        | false =>
            have hrest := ih (σ := { σ with stored := σ.stored ++ [t] }) hpending (by simp) hnone
            rw [tokenRun, tokenStep_store hroom hflag hpending]
            dsimp only at hrest ⊢
            rw [if_neg (by simp), hrest, List.length_append, List.length_singleton]
            simp [hflag]

/-- While only flags have come, any other token makes a copy. -/
theorem copies_pending_iff (ts : List Token) (hmax : 0 < maxNum) (hpending : σ.pending = true)
    (hstored : σ.stored = []) (hnone : σ.classPaths = []) :
    (tokenRun slot maxNum σ ts).Copies ↔ ∃ t ∈ ts, isFlag t = false := by
  induction ts with
  | nil =>
      rw [tokenRun]
      exact iff_of_false (fun h => h hnone) (by simp)
  | cons t ts ih =>
      have hroom : ¬ maxNum ≤ σ.stored.length := by
        rw [hstored]
        exact Nat.not_le.mpr hmax
      cases hflag : isFlag t with
      | true =>
          have hstays : { σ with pending := true } = σ := by rw [← hpending]
          rw [tokenRun, tokenStep_flag_first hroom hflag hstored, hstays]
          dsimp only
          rw [if_neg (by simp), ih]
          simp [hflag]
      | false =>
          have hstep := tokenStep_classPath hroom hflag hpending
          refine iff_of_true (copies_of_step ts hstep (by simp)) ?_
          exact ⟨t, List.mem_cons_self .., hflag⟩

/-- A class path is copied unless there is no flag among the tokens that can be stored, or nothing but
flags. -/
theorem copies_iff (ts : List Token) (hmax : 0 < maxNum) :
    (tokenRun slot maxNum {} ts).Copies ↔
      ¬ ((∀ t ∈ ts.take maxNum, isFlag t = false) ∨ ∀ t ∈ ts, isFlag t = true) := by
  cases ts with
  | nil =>
      rw [tokenRun]
      exact iff_of_false (fun h => h rfl) (by simp)
  | cons t ts =>
      have hroom : ¬ maxNum ≤ ([] : List Token).length := Nat.not_le.mpr hmax
      obtain ⟨max, rfl⟩ := Nat.exists_eq_succ_of_ne_zero (Nat.ne_of_gt hmax)
      cases hflag : isFlag t with
      | true =>
          rw [tokenRun, tokenStep_flag_first hroom hflag rfl]
          dsimp only
          rw [if_neg (by simp), copies_pending_iff ts hmax rfl rfl rfl]
          simp [hflag]
      | false =>
          rw [tokenRun, tokenStep_store hroom hflag rfl]
          dsimp only
          rw [if_neg (by simp), copies_plain_iff ts rfl (List.cons_ne_nil _ _) rfl]
          simp [hflag]

/-- With a place for the class path no access is outside `argv`. -/
theorem tokenRun_ne_outside (hslot : slot = true) (ts : List Token) (σ' : TokenState) :
    tokenRun slot maxNum σ ts ≠ .outside σ' := by
  induction ts generalizing σ with
  | nil => rintro ⟨⟩
  | cons t ts ih =>
      rw [tokenRun]
      cases tokenStep maxNum σ t with
      | none => rintro ⟨⟩
      | some σ₁ =>
          dsimp only
          rw [if_neg (by simp [hslot])]
          exact ih

end Copies

/-! ### The run modes -/

/-- The writes that a mode has set aside. -/
def RunMode.Allows (mode : RunMode) (size : Nat) : ArgWrite → Prop
  | .argv i => mode.resultIndex ≤ i ∧ i < paramNumMax
  | .lead n => mode = .javaClass ∧ n = 1
  | .param i => i ≤ size

/-- The call writes to the parameters in `argv` and to their string, and to the class path of a Java
class. The leading elements, and what they point to otherwise, stay as they are. -/
def RunMode.KeepsArguments (mode : RunMode) (lib : Securec.Strings) (lead : List (List Char))
    (param : List Char) : Prop :=
  ∃ ret s, mode.parse lib lead (some param) = some (.ret ret s) ∧
    (∀ w ∈ s.writes, mode.Allows param.length w) ∧
      s.argv.take mode.resultIndex = (mode.args lead).argv.take mode.resultIndex ∧
        ∀ n, ¬ (mode = .javaClass ∧ n = 1) → s.lead[n]? = lead[n]?

section Modes

variable {mode : RunMode} {lead : List (List Char)} {size : Nat} {σ : TokenState}
  {done left : List Char} {s : ParseState}

/-- Without a copy only parameters are written. -/
theorem Follows.keeps_of_none (h : Follows mode.resultIndex (mode.args lead) size σ done left s)
    (hnone : σ.classPaths = []) :
    (∀ w ∈ s.writes, mode.Allows size w) ∧
      s.argv.take mode.resultIndex = (mode.args lead).argv.take mode.resultIndex ∧
        s.lead = lead := by
  refine ⟨fun w hw => ?_, h.tracks.leading, ?_⟩
  · have hin := h.writes w hw
    cases w with
    | argv i => exact hin
    | param i => exact hin
    | lead n =>
        obtain rfl : n = _ := hin
        exact absurd hnone (h.copied.mp hw)
  · rw [h.lead, hnone]
    exact rfl

/-- In the run of a Java class a copy goes to the class path. -/
theorem Follows.keeps_of_class
    (h : Follows RunMode.javaClass.resultIndex (RunMode.javaClass.args lead) size σ done left s) :
    (∀ w ∈ s.writes, RunMode.javaClass.Allows size w) ∧
      s.argv.take RunMode.javaClass.resultIndex =
        (RunMode.javaClass.args lead).argv.take RunMode.javaClass.resultIndex ∧
        ∀ n, n ≠ 1 → s.lead[n]? = lead[n]? := by
  refine ⟨fun w hw => ?_, h.tracks.leading, fun n hn => ?_⟩
  · have hin := h.writes w hw
    cases w with
    | argv i => exact hin
    | param i => exact hin
    | lead n => exact ⟨rfl, hin⟩
  · rw [h.lead, leadAfter]
    split
    · rfl
    · exact List.getElem?_set_ne hn.symm

/-- In the other modes there is no place for a class path. -/
theorem Follows.not_keeps (h : Follows mode.resultIndex (mode.args lead) size σ done left s)
    (hmode : mode ≠ .javaClass) (hcopied : σ.classPaths ≠ []) :
    ¬ ∀ w ∈ s.writes, mode.Allows size w := by
  intro hwrites
  exact hmode (hwrites _ (h.copied.mpr hcopied)).1

end Modes

/-- The call keeps to its arguments if its end does. -/
theorem RunMode.keepsArguments_of_ret {mode : RunMode} {lib : Securec.Strings}
    {lead : List (List Char)} {param : List Char} {ret : Int32} {s : ParseState}
    (h : mode.parse lib lead (some param) = some (.ret ret s)) :
    mode.KeepsArguments lib lead param ↔
      (∀ w ∈ s.writes, mode.Allows param.length w) ∧
        s.argv.take mode.resultIndex = (mode.args lead).argv.take mode.resultIndex ∧
          ∀ n, ¬ (mode = .javaClass ∧ n = 1) → s.lead[n]? = lead[n]? := by
  constructor
  · rintro ⟨ret', s', h', hkeeps⟩
    rw [h] at h'
    obtain ⟨-, rfl⟩ := ParseEnd.ret.inj (Option.some.inj h')
    exact hkeeps
  · intro hkeeps
    exact ⟨ret, s, h, hkeeps⟩

/-- A call that follows the tokens to its end, in a mode other than the run of a Java class. -/
theorem Follows.keeps_iff_not_copied {mode : RunMode} {lib : Securec.Strings} {lead : List (List Char)}
    {param done left : List Char} {σ : TokenState} {ret : Int32} {s : ParseState}
    (h : Follows mode.resultIndex (mode.args lead) param.length σ done left s)
    (hmode : mode ≠ .javaClass) (hret : mode.parse lib lead (some param) = some (.ret ret s)) :
    mode.KeepsArguments lib lead param ↔ ¬ σ.classPaths ≠ [] := by
  rw [RunMode.keepsArguments_of_ret hret]
  constructor
  · intro hkeeps hcopied
    exact h.not_keeps hmode hcopied hkeeps.1
  · intro hnone
    obtain ⟨hwrites, hargv, hlead⟩ := h.keeps_of_none (not_not.mp hnone)
    exact ⟨hwrites, hargv, fun n _ => by rw [hlead]⟩

theorem RunMode.keepsArguments_javaClass {lib : Securec.Strings} (hlib : lib.JoinsWhole)
    (lead : List (List Char)) {param : List Char} (hnul : '\x00' ∉ param)
    (hsize : param.length < paramLenMax) :
    RunMode.javaClass.KeepsArguments lib lead param := by
  have hspec := RunMode.javaClass.parse_spec hlib lead hnul hsize
  have hends : ∀ {ret σ s done left},
      RunMode.javaClass.parse lib lead (some param) = some (.ret ret s) →
      Follows RunMode.javaClass.resultIndex (RunMode.javaClass.args lead) param.length σ done left s →
      RunMode.javaClass.KeepsArguments lib lead param := by
    intro ret σ s done left hret h
    obtain ⟨hwrites, hargv, hlead⟩ := h.keeps_of_class
    exact ⟨ret, s, hret, hwrites, hargv, fun n hn => hlead n fun h1 => hn ⟨rfl, h1⟩⟩
  cases hrun : tokenRun (gapToClassPath ≤ RunMode.javaClass.resultIndex) RunMode.javaClass.maxNum {}
      (tokens isspace 0 param) with
  | ok σ =>
      rw [hrun] at hspec
      obtain ⟨s, done, left, hret, h⟩ := hspec
      exact hends hret h
  | full σ =>
      rw [hrun] at hspec
      obtain ⟨s, done, left, hret, h⟩ := hspec
      exact hends hret h
  | outside σ => exact absurd hrun (tokenRun_ne_outside (by decide) _ _)

/-- The leading arguments stay intact in the run of a Java class, and otherwise if there is no flag among
the tokens that can be stored, or nothing but flags. -/
theorem RunMode.keepsArguments_iff (mode : RunMode) (lib : Securec.Strings) (hlib : lib.JoinsWhole)
    (lead : List (List Char)) (param : List Char) (hnul : '\x00' ∉ param)
    (hsize : param.length < paramLenMax) :
    mode.KeepsArguments lib lead param ↔
      mode = .javaClass ∨ (∀ t ∈ (tokens isspace 0 param).take mode.maxNum, isFlag t = false) ∨
        ∀ t ∈ tokens isspace 0 param, isFlag t = true := by
  by_cases hmode : mode = .javaClass
  · subst hmode
    exact iff_of_true (keepsArguments_javaClass hlib lead hnul hsize) (Or.inl rfl)
  · have hmax : 0 < mode.maxNum := by cases mode <;> decide
    have hspec := mode.parse_spec hlib lead hnul hsize
    have hcopies : (tokenRun (gapToClassPath ≤ mode.resultIndex) mode.maxNum {}
        (tokens isspace 0 param)).Copies ↔ _ := copies_iff _ hmax
    rw [or_iff_right hmode, ← not_iff_not, ← hcopies]
    cases hrun : tokenRun (gapToClassPath ≤ mode.resultIndex) mode.maxNum {}
        (tokens isspace 0 param) with
    | ok σ =>
        rw [hrun] at hspec
        obtain ⟨s, done, left, hret, h⟩ := hspec
        rw [h.keeps_iff_not_copied hmode hret, not_not]
        exact Iff.rfl
    | full σ =>
        rw [hrun] at hspec
        obtain ⟨s, done, left, hret, h⟩ := hspec
        rw [h.keeps_iff_not_copied hmode hret, not_not]
        exact Iff.rfl
    | outside σ =>
        rw [hrun] at hspec
        obtain ⟨s, hret⟩ := hspec
        refine iff_of_true ?_ trivial
        rintro ⟨ret, s', hret', -⟩
        rw [hret] at hret'
        exact absurd (Option.some.inj hret') (by simp)

/-- A flag and a class path, in the run of a Java class. -/
theorem keepsArguments_class :
    RunMode.javaClass.KeepsArguments Securec.Strings.reference
      ["-cp".toList, ['d'], ['M']] "-cp x".toList :=
  (RunMode.keepsArguments_iff .javaClass Securec.Strings.reference Securec.Strings.reference_joinsWhole
    ["-cp".toList, ['d'], ['M']] "-cp x".toList (by decide) (by decide)).mpr (Or.inl rfl)

/-- With a jar file the class path replaces the '-jar' flag. -/
theorem keepsArguments_jar :
    ¬ RunMode.javaJar.KeepsArguments Securec.Strings.reference
      ["-jar".toList, "a.jar".toList] "-cp x".toList := by
  have hrun : ∃ ret s, RunMode.javaJar.parse Securec.Strings.reference
      ["-jar".toList, "a.jar".toList] (some "-cp x".toList) = some (.ret ret s) ∧
        s.lead = [['x'], "a.jar".toList] := ⟨0, _, rfl, rfl⟩
  obtain ⟨ret, s, hret, hlead⟩ := hrun
  rw [RunMode.keepsArguments_of_ret hret]
  rintro ⟨-, -, hkeeps⟩
  have hfirst := hkeeps 0 (by decide)
  rw [hlead] at hfirst
  exact absurd hfirst (by decide)

end ITrustee.TeeTeleport
