import Mathlib
import ITrustee.Foundation.ReflectedWalk
import ITrustee.TeeTeleport.ParamTokens

/-!
# Parameter splitting

The parameters of a Java class are the tokens that are neither a flag nor behind one; a token behind a
flag is a class path, and the last flag's stays. `ParseParam` agrees as long as its flags come first: it
takes the class path from the end of what it has stored, so a flag behind a parameter takes that one away
and leaves its own class path among the parameters.

The number of stored tokens is a walk with a floor. A flag takes it down by one, any other token up by
one, and below nothing stored there is only a flag that waits.
-/

namespace ITrustee.TeeTeleport

open CString Tokens ReflectedWalk

/-! ### The tokens to keep -/

/-- The parameters among the tokens; `after` says that the token before them is a flag. -/
def keptTokens : Bool → List Token → List Token
  | _, [] => []
  | after, t :: ts =>
      if isFlag t then keptTokens true ts
      else if after then keptTokens false ts
      else t :: keptTokens false ts

/-- The class paths among the tokens. -/
def classPathTokens : Bool → List Token → List Token
  | _, [] => []
  | after, t :: ts =>
      if isFlag t then classPathTokens true ts
      else if after then t :: classPathTokens false ts
      else classPathTokens false ts

/-- The token that follows the last flag. -/
def followsLastFlag : List Token → Option Token
  | [] => none
  | t :: ts =>
      if ts.any isFlag then followsLastFlag ts
      else if isFlag t then ts.head?
      else none

/-- No flag stands behind a token that is kept. -/
def flagsFirst : Bool → List Token → Bool
  | _, [] => true
  | after, t :: ts =>
      if isFlag t then flagsFirst true ts
      else if after then flagsFirst false ts
      else ts.all fun u => !isFlag u

/-- There is a place for every token to keep. -/
def ParamsFit (maxNum : Nat) (ts : List Token) : Prop := (keptTokens false ts).length ≤ maxNum

instance (maxNum : Nat) (ts : List Token) : Decidable (ParamsFit maxNum ts) :=
  inferInstanceAs (Decidable (_ ≤ _))

/-- The flags taken from the other tokens. -/
def balance (ts : List Token) : ℤ :=
  (ts.map fun t => if isFlag t then -1 else 1).sum

/-- Before some token the others outnumber the flags by what can be stored, or by one more in the last
stretch before it. -/
def ParamsOverflow (maxNum : Nat) (ts : List Token) : Prop :=
  ∃ i < ts.length, (maxNum : ℤ) ≤ balance (ts.take i) ∨
    ∃ before last, ts.take i = before ++ last ∧ maxNum + 1 ≤ balance last

/-! ### The number of stored tokens -/

section Levels

variable {maxNum : Nat} {σ σ' : TokenState}

/-- The number of stored tokens, one below none while a flag waits. -/
def TokenState.level (σ : TokenState) : ℤ :=
  if σ.pending then -1 else σ.stored.length

theorem tokenStep_level {t : Token} (hwait : σ.pending = true → σ.stored = [])
    (hroom : ¬ maxNum ≤ σ.stored.length) :
    ∃ σ', tokenStep maxNum σ t = some σ' ∧ (σ'.pending = true → σ'.stored = []) ∧
      σ'.level = max (σ.level + if isFlag t then -1 else 1) (-1) := by
  cases hflag : isFlag t with
  | true =>
      cases hlast : σ.stored.getLast? with
      | none =>
          have hstored := List.getLast?_eq_none_iff.mp hlast
          refine ⟨_, tokenStep_flag_first hroom hflag hstored, fun _ => hstored, ?_⟩
          rw [TokenState.level, TokenState.level, hstored]
          cases σ.pending <;> simp
      | some u =>
          have hpos : 0 < σ.stored.length := by
            cases hstored : σ.stored with
            | nil => rw [hstored] at hlast; exact absurd hlast (by simp)
            | cons v vs => exact Nat.succ_pos _
          have hidle : σ.pending = false := by
            cases hpending : σ.pending with
            | false => rfl
            | true =>
                rw [hwait hpending] at hpos
                exact absurd hpos (Nat.lt_irrefl 0)
          refine ⟨_, tokenStep_flag_last hroom hflag hlast, nofun, ?_⟩
          rw [TokenState.level, TokenState.level, hidle]
          simp
          omega
  | false =>
      cases hpending : σ.pending with
      | true =>
          refine ⟨_, tokenStep_classPath hroom hflag hpending, nofun, ?_⟩
          rw [TokenState.level, TokenState.level, hpending, hwait hpending]
          simp
      | false =>
          refine ⟨_, tokenStep_store hroom hflag hpending, fun h => ?_, ?_⟩
          · exact absurd (hpending.symm.trans h) (by decide)
          · rw [TokenState.level, TokenState.level, hpending]
            simp
            omega

/-- All tokens are taken unless the walk reaches the number that can be stored. -/
theorem tokenRun_ok_iff (hmax : 0 < maxNum) (hwait : σ.pending = true → σ.stored = [])
    (ts : List Token) :
    (∃ σ', tokenRun true maxNum σ ts = .ok σ') ↔
      ∀ i < ts.length,
        reach (-1) σ.level ((ts.take i).map fun t => if isFlag t then -1 else 1) < maxNum := by
  induction ts generalizing σ with
  | nil => exact iff_of_true ⟨σ, rfl⟩ (by simp)
  | cons t ts ih =>
      by_cases hroom : maxNum ≤ σ.stored.length
      · have hidle : σ.pending = false := by
          cases hpending : σ.pending with
          | false => rfl
          | true =>
              rw [hwait hpending, List.length_nil] at hroom
              omega
        have hstops : ¬ ∃ σ', tokenRun true maxNum σ (t :: ts) = .ok σ' := by
          rw [tokenRun, tokenStep, if_pos hroom]
          simp
        refine iff_of_false hstops fun hall => ?_
        have hfirst := hall 0 (Nat.succ_pos _)
        rw [List.take_zero, List.map_nil, reach, TokenState.level, if_neg (by rw [hidle]; decide)] at hfirst
        omega
      · obtain ⟨σ', hstep, hwait', hlevel⟩ := tokenStep_level (t := t) hwait hroom
        have hfirst : σ.level < maxNum := by
          rw [TokenState.level]
          split <;> omega
        rw [tokenRun, hstep, List.length_cons, Nat.forall_lt_succ_left]
        dsimp only
        rw [if_neg (by simp), ih hwait', hlevel]
        simp only [List.take_zero, List.map_nil, reach, List.take_succ_cons, List.map_cons, hfirst, true_and]

theorem tokenRun_of_not_overflow (hmax : 0 < maxNum) (ts : List Token) :
    (∃ σ', tokenRun true maxNum {} ts = .ok σ') ↔ ¬ ParamsOverflow maxNum ts := by
  rw [tokenRun_ok_iff hmax (fun _ => rfl), ParamsOverflow, not_exists]
  refine forall_congr' fun i => ?_
  rw [not_and]
  refine forall_congr' fun hi => ?_
  rw [← not_le, not_iff_not]
  show (maxNum : ℤ) ≤ reach (-1) 0 _ ↔ _
  rw [le_reach_iff (by decide), zero_add]
  refine or_congr Iff.rfl ?_
  constructor
  · rintro ⟨before, last, heq, hle⟩
    obtain ⟨before, last, hts, rfl, rfl⟩ := List.map_eq_append_iff.mp heq
    refine ⟨before, last, hts, ?_⟩
    rw [balance]
    omega
  · rintro ⟨before, last, heq, hle⟩
    refine ⟨_, _, by rw [heq, List.map_append], ?_⟩
    rw [balance] at hle
    omega

end Levels

/-! ### What is stored -/

section Stored

variable {slot : Bool} {maxNum : Nat} {σ σ' : TokenState}

theorem keptTokens_subset (after : Bool) (ts : List Token) : ∀ t ∈ keptTokens after ts, t ∈ ts := by
  induction ts generalizing after with
  | nil => exact fun _ h => h
  | cons t ts ih =>
      intro u hu
      rw [keptTokens] at hu
      split_ifs at hu
      · exact List.mem_cons_of_mem _ (ih _ u hu)
      · exact List.mem_cons_of_mem _ (ih _ u hu)
      · obtain rfl | hu := List.mem_cons.mp hu
        · exact List.mem_cons_self ..
        · exact List.mem_cons_of_mem _ (ih _ u hu)

theorem keptTokens_of_plain {ts : List Token} (hplain : ∀ t ∈ ts, isFlag t = false) :
    keptTokens false ts = ts ∧ classPathTokens false ts = [] := by
  induction ts with
  | nil => exact ⟨rfl, rfl⟩
  | cons t ts ih =>
      obtain ⟨ht, hplain⟩ := List.forall_mem_cons.mp hplain
      obtain ⟨hkept, hclass⟩ := ih hplain
      rw [keptTokens, classPathTokens, hkept, hclass, ht]
      exact ⟨rfl, rfl⟩

/-- The first step of a run that takes all tokens. -/
theorem tokenRun_cons_ok {t : Token} {ts : List Token}
    (h : tokenRun slot maxNum σ (t :: ts) = .ok σ') :
    ¬ maxNum ≤ σ.stored.length ∧
      ∀ σ₁, tokenStep maxNum σ t = some σ₁ → tokenRun slot maxNum σ₁ ts = .ok σ' := by
  rw [tokenRun] at h
  constructor
  · intro hfull
    rw [tokenStep, if_pos hfull] at h
    cases h
  · intro σ₁ hstep
    rw [hstep] at h
    dsimp only at h
    split_ifs at h
    exact h

theorem stored_subset {ts : List Token} (h : tokenRun slot maxNum σ ts = .ok σ') :
    ∀ u ∈ σ'.stored, u ∈ σ.stored ∨ u ∈ ts := by
  induction ts generalizing σ with
  | nil =>
      obtain rfl := TokenEnd.ok.inj h
      exact fun u hu => Or.inl hu
  | cons t ts ih =>
      intro u hu
      obtain ⟨hroom, hrest⟩ := tokenRun_cons_ok h
      cases hstep : tokenStep maxNum σ t with
      | none =>
          rw [tokenRun, hstep] at h
          cases h
      | some σ₁ =>
          obtain hu | hu := ih (hrest σ₁ hstep) u hu
          · rw [tokenStep, if_neg hroom] at hstep
            split_ifs at hstep
            · split at hstep
              · obtain rfl := Option.some.inj hstep
                exact Or.inl hu
              · obtain rfl := Option.some.inj hstep
                exact Or.inl (List.mem_of_mem_dropLast hu)
            · obtain rfl := Option.some.inj hstep
              exact Or.inl hu
            · obtain rfl := Option.some.inj hstep
              obtain hu | hu := List.mem_append.mp hu
              · exact Or.inl hu
              · rw [List.mem_singleton.mp hu]
                exact Or.inr (List.mem_cons_self ..)
          · exact Or.inr (List.mem_cons_of_mem _ hu)

theorem tokenRun_of_plain {ts : List Token} (h : tokenRun slot maxNum σ ts = .ok σ')
    (hplain : ∀ t ∈ ts, isFlag t = false) (hidle : σ.pending = false) :
    σ' = { σ with stored := σ.stored ++ ts } := by
  induction ts generalizing σ with
  | nil =>
      obtain rfl := TokenEnd.ok.inj h
      rw [List.append_nil]
  | cons t ts ih =>
      obtain ⟨ht, hplain⟩ := List.forall_mem_cons.mp hplain
      obtain ⟨hroom, hrest⟩ := tokenRun_cons_ok h
      have hstored := ih (hrest _ (tokenStep_store hroom ht hidle)) hplain hidle
      rw [hstored, List.append_assoc, List.singleton_append]

/-- While flags come first, the stored tokens are the ones to keep. -/
theorem tokenRun_of_flagsFirst {ts : List Token} (h : tokenRun slot maxNum σ ts = .ok σ')
    (hstored : σ.stored = []) (hfirst : flagsFirst σ.pending ts = true) :
    σ'.stored = keptTokens σ.pending ts ∧
      σ'.classPaths = σ.classPaths ++ classPathTokens σ.pending ts := by
  induction ts generalizing σ with
  | nil =>
      obtain rfl := TokenEnd.ok.inj h
      exact ⟨hstored, (List.append_nil _).symm⟩
  | cons t ts ih =>
      obtain ⟨hroom, hrest⟩ := tokenRun_cons_ok h
      rw [flagsFirst] at hfirst
      rw [keptTokens, classPathTokens]
      cases hflag : isFlag t with
      | true =>
          rw [if_pos hflag] at hfirst
          exact ih (hrest _ (tokenStep_flag_first hroom hflag hstored)) hstored hfirst
      | false =>
          rw [if_neg (by rw [hflag]; decide)] at hfirst
          cases hpending : σ.pending with
          | true =>
              rw [if_pos hpending] at hfirst
              have hrun := hrest _ (tokenStep_classPath hroom hflag hpending)
              obtain ⟨hkept, hclass⟩ := ih hrun hstored hfirst
              refine ⟨hkept, ?_⟩
              rw [hclass]
              exact List.append_assoc _ [t] _
          | false =>
              rw [if_neg (by rw [hpending]; decide), List.all_eq_true] at hfirst
              have hplain : ∀ u ∈ ts, isFlag u = false := fun u hu => by simpa using hfirst u hu
              have hrun := hrest _ (tokenStep_store hroom hflag hpending)
              obtain rfl := tokenRun_of_plain hrun hplain hpending
              obtain ⟨hkept, hclass⟩ := keptTokens_of_plain hplain
              simp [hstored, hkept, hclass]

theorem tokenRun_plain_iff {ts : List Token} (hplain : ∀ t ∈ ts, isFlag t = false)
    (hidle : σ.pending = false) (hroom : σ.stored.length ≤ maxNum) :
    (∃ σ', tokenRun slot maxNum σ ts = .ok σ') ↔ σ.stored.length + ts.length ≤ maxNum := by
  induction ts generalizing σ with
  | nil => exact iff_of_true ⟨σ, rfl⟩ hroom
  | cons t ts ih =>
      obtain ⟨ht, hplain⟩ := List.forall_mem_cons.mp hplain
      rw [tokenRun, List.length_cons]
      by_cases hfull : maxNum ≤ σ.stored.length
      · rw [tokenStep, if_pos hfull]
        exact iff_of_false (by simp) (by omega)
      · rw [tokenStep_store hfull ht hidle]
        have hlen : (σ.stored ++ [t]).length = σ.stored.length + 1 := by
          rw [List.length_append, List.length_singleton]
        have hrest := ih (σ := { σ with stored := σ.stored ++ [t] }) hplain hidle (by rw [hlen]; omega)
        dsimp only at hrest ⊢
        rw [if_neg (by simp), hrest, hlen]
        omega

theorem tokenRun_plain_ne_outside {ts : List Token} (hplain : ∀ t ∈ ts, isFlag t = false)
    (hidle : σ.pending = false) (σ' : TokenState) : tokenRun slot maxNum σ ts ≠ .outside σ' := by
  induction ts generalizing σ with
  | nil => rintro ⟨⟩
  | cons t ts ih =>
      obtain ⟨ht, hplain⟩ := List.forall_mem_cons.mp hplain
      rw [tokenRun]
      by_cases hfull : maxNum ≤ σ.stored.length
      · rw [tokenStep, if_pos hfull]
        rintro ⟨⟩
      · rw [tokenStep_store hfull ht hidle]
        dsimp only
        rw [if_neg (by simp)]
        exact ih hplain hidle

/-- While flags come first, nothing is stored before the last of them. -/
theorem tokenRun_flagsFirst_iff (hmax : 0 < maxNum) {ts : List Token} (hstored : σ.stored = [])
    (hfirst : flagsFirst σ.pending ts = true) :
    (∃ σ', tokenRun true maxNum σ ts = .ok σ') ↔ (keptTokens σ.pending ts).length ≤ maxNum := by
  have hroom : ¬ maxNum ≤ σ.stored.length := by rw [hstored]; exact Nat.not_le.mpr hmax
  induction ts generalizing σ with
  | nil => exact iff_of_true ⟨σ, rfl⟩ (Nat.zero_le _)
  | cons t ts ih =>
      rw [flagsFirst] at hfirst
      rw [keptTokens]
      cases hflag : isFlag t with
      | true =>
          rw [if_pos hflag] at hfirst
          have hrest := ih (σ := { σ with pending := true }) hstored hfirst hroom
          rw [tokenRun, tokenStep_flag_first hroom hflag hstored]
          dsimp only
          rw [if_neg (by simp), if_pos rfl]
          exact hrest
      | false =>
          rw [if_neg (by rw [hflag]; decide)] at hfirst
          cases hpending : σ.pending with
          | true =>
              rw [if_pos hpending] at hfirst
              have hrest := ih (σ := ⟨σ.stored, false, σ.classPaths ++ [t]⟩) hstored hfirst hroom
              rw [tokenRun, tokenStep_classPath hroom hflag hpending]
              dsimp only
              rw [if_neg (by simp)]
              exact hrest
          | false =>
              rw [if_neg (by rw [hpending]; decide), List.all_eq_true] at hfirst
              have hplain : ∀ u ∈ t :: ts, isFlag u = false :=
                List.forall_mem_cons.mpr ⟨hflag, fun u hu => by simpa using hfirst u hu⟩
              rw [tokenRun_plain_iff hplain hpending (Nat.le_of_not_le hroom), hstored]
              have hkept := (keptTokens_of_plain (List.forall_mem_cons.mp hplain).2).1
              simp [hkept]

/-- A flag behind a stored token takes a token away for good. -/
theorem tokenRun_loses_stored {ts : List Token} (h : tokenRun slot maxNum σ ts = .ok σ')
    (hidle : σ.pending = false) (hsome : σ.stored ≠ []) (hnodup : (σ.stored ++ ts).Nodup)
    (hflag : ∃ t ∈ ts, isFlag t = true) :
    ∃ u ∈ σ.stored ++ keptTokens false ts, u ∉ σ'.stored := by
  induction ts generalizing σ with
  | nil =>
      obtain ⟨t, ht, -⟩ := hflag
      exact absurd ht (List.not_mem_nil)
  | cons t ts ih =>
      obtain ⟨hroom, hrest⟩ := tokenRun_cons_ok h
      cases ht : isFlag t with
      | true =>
          obtain ⟨u, hlast⟩ := Option.isSome_iff_exists.mp (List.getLast?_isSome.mpr hsome)
          have hrun := hrest _ (tokenStep_flag_last hroom ht hlast)
          have hsplit := List.dropLast_append_getLast? u hlast
          refine ⟨u, List.mem_append_left _ (List.mem_of_getLast? hlast), fun hu => ?_⟩
          rw [← hsplit, List.append_assoc] at hnodup
          obtain ⟨-, hmore, hapart⟩ := List.nodup_append.mp hnodup
          obtain hu | hu := stored_subset hrun u hu
          · exact hapart u hu u (List.mem_cons_self ..) rfl
          · exact (List.nodup_cons.mp hmore).1 (List.mem_cons_of_mem _ hu)
      | false =>
          have hmore : ∃ u ∈ ts, isFlag u = true := by
            obtain ⟨u, hu, hflag⟩ := hflag
            obtain rfl | hu := List.mem_cons.mp hu
            · exact absurd (hflag.symm.trans ht) (by decide)
            · exact ⟨u, hu, hflag⟩
          have hrun := hrest _ (tokenStep_store hroom ht hidle)
          rw [List.append_cons] at hnodup
          obtain ⟨u, hu, hlost⟩ := ih hrun hidle
            (List.append_ne_nil_of_right_ne_nil _ (List.cons_ne_nil _ _)) hnodup hmore
          refine ⟨u, ?_, hlost⟩
          rw [keptTokens, if_neg (by rw [ht]; decide)]
          show u ∈ σ.stored ++ t :: keptTokens false ts
          rw [List.append_cons]
          exact hu

/-- With a flag behind a token to keep, a token to keep is not stored. -/
theorem tokenRun_loses {ts : List Token} (h : tokenRun slot maxNum σ ts = .ok σ')
    (hstored : σ.stored = []) (hnodup : ts.Nodup) (hfirst : flagsFirst σ.pending ts = false) :
    ∃ u ∈ keptTokens σ.pending ts, u ∉ σ'.stored := by
  induction ts generalizing σ with
  | nil => exact absurd hfirst nofun
  | cons t ts ih =>
      obtain ⟨hroom, hrest⟩ := tokenRun_cons_ok h
      obtain ⟨-, hrestnodup⟩ := List.nodup_cons.mp hnodup
      rw [flagsFirst] at hfirst
      rw [keptTokens]
      cases hflag : isFlag t with
      | true =>
          rw [if_pos hflag] at hfirst
          exact ih (hrest _ (tokenStep_flag_first hroom hflag hstored)) hstored hrestnodup hfirst
      | false =>
          rw [if_neg (by rw [hflag]; decide)] at hfirst
          cases hpending : σ.pending with
          | true =>
              rw [if_pos hpending] at hfirst
              exact ih (hrest _ (tokenStep_classPath hroom hflag hpending)) hstored hrestnodup hfirst
          | false =>
              rw [if_neg (by rw [hpending]; decide), List.all_eq_false] at hfirst
              have hmore : ∃ u ∈ ts, isFlag u = true := by simpa using hfirst
              have hrun := hrest _ (tokenStep_store hroom hflag hpending)
              rw [hstored] at hrun
              obtain ⟨u, hu, hlost⟩ :=
                tokenRun_loses_stored hrun hpending (List.cons_ne_nil _ _) hnodup hmore
              exact ⟨u, hu, hlost⟩

end Stored

/-! ### The class path -/

/-- The last token is a flag. -/
def endsInFlag (ts : List Token) : Bool := ts.getLast?.any isFlag

theorem followsLastFlag_of_plain {ts : List Token} (hplain : ts.any isFlag = false) :
    followsLastFlag ts = none := by
  cases ts with
  | nil => rfl
  | cons t ts =>
      rw [List.any_cons, Bool.or_eq_false_iff] at hplain
      rw [followsLastFlag, if_neg (by rw [hplain.2]; decide), if_neg (by rw [hplain.1]; decide)]

/-- Nothing follows a flag at the end. -/
theorem followsLastFlag_of_end {ts : List Token} (hend : endsInFlag ts = true) :
    followsLastFlag ts = none := by
  induction ts with
  | nil => rfl
  | cons t ts ih =>
      rw [followsLastFlag]
      split_ifs with hmore hflag
      · cases ts with
        | nil => exact absurd hmore (by simp)
        | cons u us => exact ih (by rwa [endsInFlag, List.getLast?_cons_cons] at hend)
      · cases ts with
        | nil => rfl
        | cons u us =>
            rw [endsInFlag, List.getLast?_cons_cons] at hend
            obtain ⟨v, hlast⟩ : ∃ v, (u :: us).getLast? = some v :=
              ⟨_, List.getLast?_eq_some_getLast (List.cons_ne_nil _ _)⟩
            rw [hlast] at hend
            refine absurd ?_ hmore
            exact List.any_eq_true.mpr ⟨v, List.mem_of_getLast? hlast, hend⟩
      · rfl

/-- Otherwise the token behind the last flag is the last class path. -/
theorem followsLastFlag_of_some {ts : List Token} (hend : endsInFlag ts = false)
    (hsome : ts.any isFlag = true) (after : Bool) :
    ∃ u, followsLastFlag ts = some u ∧ (classPathTokens after ts).getLast? = some u := by
  induction ts generalizing after with
  | nil => exact absurd hsome (by simp)
  | cons t ts ih =>
      have hnext : ∀ u us, ts = u :: us → endsInFlag ts = false := by
        rintro u us rfl
        rwa [endsInFlag, List.getLast?_cons_cons] at hend
      rw [followsLastFlag]
      by_cases hmore : ts.any isFlag = true
      · rw [if_pos hmore]
        have hinner : ∀ after', ∃ u, followsLastFlag ts = some u ∧
            (classPathTokens after' ts).getLast? = some u := by
          cases hts : ts with
          | nil => rw [hts] at hmore; exact absurd hmore (by simp)
          | cons u us => rw [← hts]; exact ih (hnext u us hts) hmore
        rw [classPathTokens]
        split_ifs
        · exact hinner true
        · obtain ⟨u, hfollows, hlast⟩ := hinner false
          refine ⟨u, hfollows, ?_⟩
          rw [List.getLast?_cons, hlast, Option.getD_some]
        · exact hinner false
      · rw [Bool.not_eq_true] at hmore
        rw [List.any_cons, hmore, Bool.or_false] at hsome
        rw [if_neg (by rw [hmore]; decide), if_pos hsome, classPathTokens, if_pos hsome]
        cases hts : ts with
        | nil =>
            rw [hts, endsInFlag, List.getLast?_singleton, Option.any_some] at hend
            exact absurd (hend.symm.trans hsome) (by decide)
        | cons u us =>
            rw [hts, List.any_cons, Bool.or_eq_false_iff] at hmore
            have hplain : ∀ v ∈ us, isFlag v = false := by
              simpa using List.any_eq_false.mp hmore.2
            refine ⟨u, rfl, ?_⟩
            rw [classPathTokens, if_neg (by rw [hmore.1]; decide), if_pos rfl,
              (keptTokens_of_plain hplain).2, List.getLast?_singleton]

theorem followsLastFlag_eq {ts : List Token} (hend : endsInFlag ts = false) :
    followsLastFlag ts = (classPathTokens false ts).getLast? := by
  cases hany : ts.any isFlag with
  | true =>
      obtain ⟨u, hfollows, hlast⟩ := followsLastFlag_of_some hend hany false
      exact hfollows.trans hlast.symm
  | false =>
      have hplain : ∀ t ∈ ts, isFlag t = false := by simpa using List.any_eq_false.mp hany
      rw [followsLastFlag_of_plain hany, (keptTokens_of_plain hplain).2]
      exact rfl

/-! ### The call -/

/-- What `ParseParam` leaves of the string for the run of a Java class, as the tokens of the string say. -/
structure SplitsInto (classPath : List Char) (ts : List Token) (s : ParseState) : Prop where
  num : s.num = (keptTokens false ts).length
  elements : (s.argv.drop RunMode.javaClass.resultIndex).take s.num =
    (keptTokens false ts).map fun t => some (.param t.1)
  texts : ∀ t ∈ keptTokens false ts, stringAt s.param t.1 = t.2
  classPath : s.lead[1]? = some (((followsLastFlag ts).map Prod.snd).getD classPath)

/-- `ParseParam` succeeds if its parameters fit, and they are the tokens that are neither a flag nor
behind one. -/
def SplitsParams (lib : Securec.Strings) (cmd classPath className param : List Char) : Prop :=
  ((∃ s, RunMode.javaClass.parse lib [cmd, classPath, className] (some param) = some (.ret 0 s)) ↔
      ParamsFit RunMode.javaClass.maxNum (tokens isspace 0 param)) ∧
    ∀ s, RunMode.javaClass.parse lib [cmd, classPath, className] (some param) = some (.ret 0 s) →
      SplitsInto classPath (tokens isspace 0 param) s

/-- With a flag at the end no token follows the last one; a class path copied before it must then be what
was there. -/
def ClassPathStays (classPath : List Char) (ts : List Token) : Prop :=
  endsInFlag ts = true → ∀ u ∈ (classPathTokens false ts).getLast?, u.2 = classPath

instance (classPath : List Char) (ts : List Token) : Decidable (ClassPathStays classPath ts) :=
  inferInstanceAs (Decidable (endsInFlag ts = true → _))

section Call

variable {lib : Securec.Strings} {cmd classPath className param : List Char}

theorem tokens_places_nodup (s : List Char) : ((tokens isspace 0 s).map Prod.fst).Nodup := by
  apply List.pairwise_map.mpr
  exact (tokens_increasing 0 s).2.imp fun hlt => Nat.ne_of_lt hlt

/-- The call succeeds as the run over the tokens does. -/
theorem tokenRun_of_parse (hlib : lib.JoinsWhole) (hnul : '\x00' ∉ param)
    (hsize : param.length < paramLenMax) {s : ParseState}
    (hret : RunMode.javaClass.parse lib [cmd, classPath, className] (some param) = some (.ret 0 s)) :
    ∃ σ done left, tokenRun true RunMode.javaClass.maxNum {} (tokens isspace 0 param) = .ok σ ∧
      Follows RunMode.javaClass.resultIndex (RunMode.javaClass.args [cmd, classPath, className])
        param.length σ done left s := by
  have hspec := RunMode.javaClass.parse_spec hlib [cmd, classPath, className] hnul hsize
  have hslot : decide (gapToClassPath ≤ RunMode.javaClass.resultIndex) = true := rfl
  rw [hslot] at hspec
  cases hrun : tokenRun true RunMode.javaClass.maxNum {} (tokens isspace 0 param) with
  | ok σ =>
      rw [hrun] at hspec
      obtain ⟨s', done, left, hret', hfollows⟩ := hspec
      rw [hret] at hret'
      obtain ⟨-, rfl⟩ := ParseEnd.ret.inj (Option.some.inj hret')
      exact ⟨σ, done, left, rfl, hfollows⟩
  | full σ =>
      rw [hrun] at hspec
      obtain ⟨s', -, -, hret', -⟩ := hspec
      rw [hret] at hret'
      exact absurd (ParseEnd.ret.inj (Option.some.inj hret')).1 (by decide)
  | outside σ =>
      rw [hrun] at hspec
      obtain ⟨s', hret'⟩ := hspec
      rw [hret] at hret'
      exact absurd (Option.some.inj hret') nofun

theorem parse_succeeds_iff (hlib : lib.JoinsWhole) (hnul : '\x00' ∉ param)
    (hsize : param.length < paramLenMax) :
    (∃ s, RunMode.javaClass.parse lib [cmd, classPath, className] (some param) = some (.ret 0 s)) ↔
      ∃ σ, tokenRun true RunMode.javaClass.maxNum {} (tokens isspace 0 param) = .ok σ := by
  constructor
  · rintro ⟨s, hret⟩
    obtain ⟨σ, -, -, hrun, -⟩ := tokenRun_of_parse hlib hnul hsize hret
    exact ⟨σ, hrun⟩
  · rintro ⟨σ, hrun⟩
    have hspec := RunMode.javaClass.parse_spec hlib [cmd, classPath, className] hnul hsize
    have hslot : decide (gapToClassPath ≤ RunMode.javaClass.resultIndex) = true := rfl
    rw [hslot, hrun] at hspec
    obtain ⟨s, -, -, hret, -⟩ := hspec
    exact ⟨s, hret⟩

/-- The result while flags come first. -/
theorem Follows.splitsInto_iff {ts : List Token} {σ : TokenState} {done left : List Char} {s : ParseState}
    (h : Follows RunMode.javaClass.resultIndex (RunMode.javaClass.args [cmd, classPath, className])
      param.length σ done left s)
    (hkept : σ.stored = keptTokens false ts) (hclass : σ.classPaths = classPathTokens false ts) :
    SplitsInto classPath ts s ↔ ClassPathStays classPath ts := by
  have hlead : s.lead[1]? =
      some ((((classPathTokens false ts).getLast?).map Prod.snd).getD classPath) := by
    rw [h.lead, leadAfter, hclass]
    cases (classPathTokens false ts).getLast? with
    | none => exact rfl
    | some u => exact rfl
  have hpaths : s.lead[1]? = some (((followsLastFlag ts).map Prod.snd).getD classPath) ↔
      ClassPathStays classPath ts := by
    rw [hlead, Option.some_inj, ClassPathStays]
    cases hend : endsInFlag ts with
    | false =>
        rw [followsLastFlag_eq hend]
        exact iff_of_true rfl (by simp)
    | true =>
        rw [followsLastFlag_of_end hend]
        cases (classPathTokens false ts).getLast? with
        | none => exact iff_of_true rfl (by simp)
        | some u => simp
  rw [← hpaths]
  constructor
  · exact SplitsInto.classPath
  · intro hslot
    have hnum : s.num = (keptTokens false ts).length := by rw [h.tracks.num, hkept]
    refine ⟨hnum, ?_, fun t ht => ?_, hslot⟩
    · rw [hnum, ← hkept]
      exact h.tracks.elements
    · rw [h.tracks.param]
      exact (h.tracks.texts t (hkept ▸ ht)).stringAt

/-- A token to keep that is not stored is missed in the result. -/
theorem Follows.not_splitsInto {σ : TokenState} {done left : List Char} {s : ParseState} {u : Token}
    (h : Follows RunMode.javaClass.resultIndex (RunMode.javaClass.args [cmd, classPath, className])
      param.length σ done left s)
    (hstored : ∀ t ∈ σ.stored, t ∈ tokens isspace 0 param)
    (hu : u ∈ keptTokens false (tokens isspace 0 param)) (hlost : u ∉ σ.stored) :
    ¬ SplitsInto classPath (tokens isspace 0 param) s := by
  intro hsplits
  have helements := hsplits.elements
  rw [h.tracks.num, h.tracks.elements] at helements
  have hmem : some (ArgPtr.param u.1) ∈ σ.stored.map fun t => some (ArgPtr.param t.1) := by
    rw [helements]
    exact List.mem_map_of_mem hu
  obtain ⟨t, ht, heq⟩ := List.mem_map.mp hmem
  obtain rfl := List.inj_on_of_nodup_map (tokens_places_nodup param) (hstored t ht)
    (keptTokens_subset false _ u hu) (ArgPtr.param.inj (Option.some.inj heq))
  exact hlost ht

end Call

/-- `ParseParam` splits the parameters as the tokens say if no flag stands behind a parameter and a flag
at the end changes nothing; where the parameters do not fit, if more than can be stored come up between
the flags. -/
theorem splitsParams_iff (lib : Securec.Strings) (hlib : lib.JoinsWhole)
    (cmd classPath className param : List Char) (hnul : '\x00' ∉ param)
    (hsize : param.length < paramLenMax) :
    SplitsParams lib cmd classPath className param ↔
      if ParamsFit RunMode.javaClass.maxNum (tokens isspace 0 param) then
        flagsFirst false (tokens isspace 0 param) = true ∧
          ClassPathStays classPath (tokens isspace 0 param)
      else ParamsOverflow RunMode.javaClass.maxNum (tokens isspace 0 param) := by
  have hmax : 0 < RunMode.javaClass.maxNum := by decide
  have hsucceeds : (∃ s, RunMode.javaClass.parse lib [cmd, classPath, className] (some param) =
      some (.ret 0 s)) ↔ _ := parse_succeeds_iff hlib hnul hsize
  split_ifs with hfit
  · cases hfirst : flagsFirst false (tokens isspace 0 param) with
    | true =>
        obtain ⟨σ, hrun⟩ := (tokenRun_flagsFirst_iff (σ := {}) hmax rfl hfirst).mpr hfit
        obtain ⟨s, hret⟩ := hsucceeds.mpr ⟨σ, hrun⟩
        obtain ⟨σ', done, left, hrun', hfollows⟩ := tokenRun_of_parse hlib hnul hsize hret
        obtain rfl := TokenEnd.ok.inj (hrun.symm.trans hrun')
        obtain ⟨hkept, hclass⟩ := tokenRun_of_flagsFirst hrun rfl hfirst
        rw [and_iff_right rfl, ← hfollows.splitsInto_iff hkept hclass]
        constructor
        · exact fun h => h.2 s hret
        · refine fun h => ⟨iff_of_true ⟨s, hret⟩ hfit, fun s' hret' => ?_⟩
          rw [hret] at hret'
          obtain ⟨-, rfl⟩ := ParseEnd.ret.inj (Option.some.inj hret')
          exact h
    | false =>
        refine iff_of_false (fun h => ?_) nofun
        obtain ⟨s, hret⟩ := h.1.mpr hfit
        obtain ⟨σ, done, left, hrun, hfollows⟩ := tokenRun_of_parse hlib hnul hsize hret
        have hnodup := List.Nodup.of_map _ (tokens_places_nodup param)
        obtain ⟨u, hu, hlost⟩ := tokenRun_loses hrun rfl hnodup hfirst
        refine hfollows.not_splitsInto (fun t ht => ?_) hu hlost (h.2 s hret)
        obtain ht | ht := stored_subset hrun t ht
        · exact absurd ht List.not_mem_nil
        · exact ht
  · rw [SplitsParams, hsucceeds, tokenRun_of_not_overflow hmax]
    constructor
    · intro h
      by_contra hoverflow
      exact hfit (h.1.mp hoverflow)
    · intro hoverflow
      refine ⟨iff_of_false (not_not.mpr hoverflow) hfit, fun s hret => ?_⟩
      have hrun := hsucceeds.mp ⟨s, hret⟩
      exact absurd hoverflow ((tokenRun_of_not_overflow hmax _).mp hrun)

/-- Flags and class paths first, and then the parameters. -/
theorem splitsParams_flags_first :
    SplitsParams Securec.Strings.reference "-cp".toList ['.'] ['M'] "-cp d a b".toList :=
  (splitsParams_iff Securec.Strings.reference Securec.Strings.reference_joinsWhole "-cp".toList ['.'] ['M']
    "-cp d a b".toList (by decide) (by decide)).mpr
      (by rw [if_pos (by decide +kernel)]; decide +kernel)

/-- The parameter before a flag becomes the class path, and the class path a parameter. -/
theorem splitsParams_flag_behind :
    ¬ SplitsParams Securec.Strings.reference "-cp".toList ['.'] ['M'] "a -cp b".toList := by
  have hret : ∃ s, RunMode.javaClass.parse Securec.Strings.reference ["-cp".toList, ['.'], ['M']]
      (some "a -cp b".toList) = some (.ret 0 s) ∧ s.lead[1]? = some ['a'] := ⟨_, rfl, rfl⟩
  obtain ⟨s, hret, hlead⟩ := hret
  intro hsplits
  have hclass := (hsplits.2 s hret).classPath
  rw [hlead] at hclass
  exact absurd hclass (by decide)

end ITrustee.TeeTeleport
