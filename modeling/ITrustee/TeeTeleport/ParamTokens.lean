import Mathlib.Tactic
import ITrustee.TeeTeleport.ParseParam

/-!
# Run parameters as tokens

`ParseParam` takes the tokens of the parameter string one by one. What it keeps between two of them are
the tokens stored so far, whether a flag waits for its class path, and the class paths copied. A flag
waits only while nothing is stored: the code looks for the class path among the stored tokens, and takes
the one before the flag if there is one.
-/

namespace ITrustee.TeeTeleport

open CString Tokens

/-- A token and its place in the string. -/
abbrev Token := Nat × List Char

def isFlag (t : Token) : Bool := isClassPathFlag t.2

structure TokenState where
  stored : List Token := []
  pending : Bool := false
  /-- The class paths that were copied. -/
  classPaths : List Token := []
  deriving DecidableEq

/-- What a token does; `none` when there is no room to store it. -/
def tokenStep (maxNum : Nat) (σ : TokenState) (t : Token) : Option TokenState :=
  if maxNum ≤ σ.stored.length then none
  else if isFlag t then
    match σ.stored.getLast? with
    | none => some { σ with pending := true }
    | some u =>
        some ⟨σ.stored.dropLast, false, σ.classPaths ++ [u]⟩
  else if σ.pending then some { σ with pending := false, classPaths := σ.classPaths ++ [t] }
  else some { σ with stored := σ.stored ++ [t] }

section Steps

variable {maxNum : Nat} {σ : TokenState} {t : Token}

theorem tokenStep_flag_first (hroom : ¬ maxNum ≤ σ.stored.length) (hflag : isFlag t = true)
    (hstored : σ.stored = []) : tokenStep maxNum σ t = some { σ with pending := true } := by
  rw [tokenStep, if_neg hroom, if_pos hflag, hstored]
  exact rfl

/-- A flag behind a stored token takes that one as the class path. -/
theorem tokenStep_flag_last {u : Token} (hroom : ¬ maxNum ≤ σ.stored.length) (hflag : isFlag t = true)
    (hlast : σ.stored.getLast? = some u) :
    tokenStep maxNum σ t = some ⟨σ.stored.dropLast, false, σ.classPaths ++ [u]⟩ := by
  rw [tokenStep, if_neg hroom, if_pos hflag, hlast]

theorem tokenStep_classPath (hroom : ¬ maxNum ≤ σ.stored.length) (hflag : isFlag t = false)
    (hpending : σ.pending = true) :
    tokenStep maxNum σ t =
      some { σ with pending := false, classPaths := σ.classPaths ++ [t] } := by
  rw [tokenStep, if_neg hroom, if_neg (by rw [hflag]; decide), if_pos hpending]

theorem tokenStep_store (hroom : ¬ maxNum ≤ σ.stored.length) (hflag : isFlag t = false)
    (hpending : σ.pending = false) :
    tokenStep maxNum σ t = some { σ with stored := σ.stored ++ [t] } := by
  rw [tokenStep, if_neg hroom, if_neg (by rw [hflag]; decide), if_neg (by rw [hpending]; decide)]

end Steps

/-- How the tokens end: all taken, no room for one, or a class path with nowhere to copy it to. -/
inductive TokenEnd where
  | ok (σ : TokenState)
  | full (σ : TokenState)
  | outside (σ : TokenState)
  deriving DecidableEq

/-- The tokens in order; `slot` says whether there is a place for a class path. -/
def tokenRun (slot : Bool) (maxNum : Nat) : TokenState → List Token → TokenEnd
  | σ, [] => .ok σ
  | σ, t :: ts =>
      match tokenStep maxNum σ t with
      | none => .full σ
      | some σ' =>
          if !slot ∧ σ'.classPaths ≠ σ.classPaths then .outside σ else tokenRun slot maxNum σ' ts

/-! ### Elements of argv -/

/-- A token stands at its place, with a terminator behind it. -/
def StandsIn (done : List Char) (t : Token) : Prop :=
  '\x00' ∉ t.2 ∧ ∃ before after, done = before ++ (t.2 ++ '\x00' :: after) ∧ before.length = t.1

theorem StandsIn.append {done : List Char} {t : Token} (h : StandsIn done t) (more : List Char) :
    StandsIn (done ++ more) t := by
  obtain ⟨hnul, before, after, rfl, hlen⟩ := h
  exact ⟨hnul, before, after ++ more, by simp, hlen⟩

theorem StandsIn.stringAt {done left : List Char} {t : Token} (h : StandsIn done t) :
    stringAt (done ++ left) t.1 = t.2 := by
  obtain ⟨hnul, before, after, rfl, hlen⟩ := h
  rw [List.append_assoc, List.append_assoc, List.cons_append]
  exact stringAt_append hlen hnul

theorem StandsIn.length_lt {done : List Char} {t : Token} (h : StandsIn done t) :
    t.2.length < done.length := by
  obtain ⟨-, before, after, rfl, -⟩ := h
  simp only [List.length_append, List.length_cons]
  omega

section Elements

variable {result : Nat} {args : RunArgs} {stored : List Token} {done left : List Char} {s : ParseState}

/-- The parameters in `argv` are the stored tokens, and the elements before them are those of the
caller. -/
structure Tracks (result : Nat) (args : RunArgs) (stored : List Token) (done left : List Char)
    (s : ParseState) : Prop where
  param : s.param = done ++ left
  argv_length : s.argv.length = paramNumMax
  leading : s.argv.take result = args.argv.take result
  num : s.num = stored.length
  elements : (s.argv.drop result).take stored.length = stored.map fun t => some (.param t.1)
  texts : ∀ t ∈ stored, StandsIn done t

theorem Tracks.congr {s' : ParseState} (h : Tracks result args stored done left s)
    (hparam : s'.param = s.param) (hargv : s'.argv = s.argv) (hnum : s'.num = s.num) :
    Tracks result args stored done left s' where
  param := hparam.trans h.param
  argv_length := by rw [hargv, h.argv_length]
  leading := by rw [hargv, h.leading]
  num := hnum.trans h.num
  elements := by rw [hargv, h.elements]
  texts := h.texts

/-- A token is stored, and its terminator written. -/
theorem Tracks.store (h : Tracks result args stored done left s) {spaces word tail : List Char} {c : Char}
    (hleft : left = spaces ++ (word ++ c :: tail)) (hword : '\x00' ∉ word)
    (hroom : result + stored.length < paramNumMax) :
    Tracks result args (stored ++ [(done.length + spaces.length, word)])
      (done ++ spaces ++ word ++ ['\x00']) tail
      (endToken (done.length + spaces.length + word.length)
        (storeParam result (done.length + spaces.length) s)) := by
  constructor
  · show s.param.set _ _ = _
    have hsplit : s.param = (done ++ spaces ++ word) ++ c :: tail := by
      rw [h.param, hleft]
      simp only [List.append_assoc]
    rw [hsplit, ← List.length_append, ← List.length_append, List.set_append_right _ _ le_rfl, Nat.sub_self,
      List.set_cons_zero, List.append_assoc _ ['\x00'], List.singleton_append]
  · show (s.argv.set _ _).length = _
    rw [List.length_set]
    exact h.argv_length
  · show (s.argv.set _ _).take result = _
    rw [List.take_set_of_le (Nat.le_add_right ..)]
    exact h.leading
  · show s.num + 1 = _
    rw [h.num, List.length_append, List.length_singleton]
  · show ((s.argv.set _ _).drop result).take _ = _
    have hfits : s.num < (s.argv.drop result).length := by
      rw [List.length_drop, h.argv_length, h.num]
      omega
    rw [List.drop_set, if_neg (Nat.not_lt.mpr (Nat.le_add_right ..)), Nat.add_sub_cancel_left,
      List.length_append, List.length_singleton, ← h.num, List.take_add_one,
      List.take_set_of_le le_rfl, List.getElem?_set_self hfits, h.num, h.elements, List.map_append]
    exact rfl
  · intro t ht
    obtain ht | ht := List.mem_append.mp ht
    · have := (h.texts t ht).append (spaces ++ word ++ ['\x00'])
      simpa using this
    · rw [List.mem_singleton.mp ht]
      exact ⟨hword, done ++ spaces, [], by simp, List.length_append⟩

theorem Tracks.last {t : Token} (h : Tracks result args (stored ++ [t]) done left s) :
    lastParam result s = t.2 := by
  have hnum : s.num = stored.length + 1 := by
    rw [h.num, List.length_append, List.length_singleton]
  have hlast : s.argv[result + (s.num - 1)]? = some (some (.param t.1)) := by
    have helement := congrArg (fun l => l[stored.length]?) h.elements
    rw [List.length_append, List.length_singleton] at helement
    simpa [hnum] using helement
  rw [lastParam, hlast]
  show stringAt s.param t.1 = t.2
  rw [h.param]
  exact (h.texts t (List.mem_append_right _ (List.mem_singleton_self t))).stringAt

theorem Tracks.pop {t : Token} (h : Tracks result args (stored ++ [t]) done left s) :
    Tracks result args stored done left { s with num := s.num - 1 } := by
  refine ⟨h.param, h.argv_length, h.leading, ?_, ?_, fun u hu => h.texts u (List.mem_append_left _ hu)⟩
  · show s.num - 1 = _
    rw [h.num, List.length_append, List.length_singleton, Nat.add_sub_cancel]
  · have helements := congrArg (List.take stored.length) h.elements
    rw [List.take_take, List.length_append, Nat.min_eq_left (Nat.le_add_right ..), List.map_append] at helements
    rw [helements, List.take_left']
    rw [List.length_map]

/-- The elements before the parameters point to the buffers of the leading arguments. -/
def RunArgs.Leading (args : RunArgs) (result : Nat) : Prop :=
  ∀ n < result, args.argv[n]? = some (some (.lead n))

/-- The last stored token is copied to where the class path belongs, if that is in `argv`. -/
theorem Tracks.saveClassPath {lib : Securec.Strings} (hlib : lib.JoinsWhole) (hargs : args.Leading result)
    {t : Token} (h : Tracks result args (stored ++ [t]) done left s) (hlen : done.length ≤ paramLenMax)
    (hflag : s.cpFlag = true) :
    saveClassPath lib result s =
      if gapToClassPath ≤ result then
        .ok { s with
          lead := s.lead.set (result - gapToClassPath) t.2
          num := s.num - 1
          cpFlag := false
          writes := s.writes ++ [.lead (result - gapToClassPath)] }
      else .error (.outside s) := by
  have hnum : s.num > 0 := by
    rw [h.num, List.length_append]
    exact Nat.succ_pos _
  rw [TeeTeleport.saveClassPath, if_pos ⟨hflag, hnum⟩]
  by_cases hslot : gapToClassPath ≤ result
  · have hpos : result - gapToClassPath < result := by
      rw [gapToClassPath] at *
      omega
    have helement : s.argv[result - gapToClassPath]? = some (some (.lead (result - gapToClassPath))) := by
      rw [← List.getElem?_take_of_lt hpos, h.leading, List.getElem?_take_of_lt hpos]
      exact hargs _ hpos
    have hshort : t.2.length < pathMax :=
      (h.texts t (List.mem_append_right _ (List.mem_singleton_self t))).length_lt.trans_le hlen
    rw [if_neg (Nat.not_lt.mpr hslot), if_pos hslot, helement]
    dsimp only
    rw [h.last, hlib.copies, if_pos ⟨by decide, hshort⟩]
  · rw [if_pos (Nat.lt_of_not_le hslot), if_neg hslot]

end Elements

/-! ### Turns -/

section Turns

variable {lib : Securec.Strings} {result maxNum : Nat} {args : RunArgs} {size : Nat} {σ : TokenState}
  {done left : List Char} {s : ParseState}

/-- The buffers of the leading arguments after the class paths were copied. -/
def leadAfter (result : Nat) (args : RunArgs) (classPaths : List Token) : List (List Char) :=
  match classPaths.getLast? with
  | none => args.lead
  | some t => args.lead.set (result - gapToClassPath) t.2

theorem leadAfter_append (classPaths : List Token) (t : Token) :
    (leadAfter result args classPaths).set (result - gapToClassPath) t.2 =
      leadAfter result args (classPaths ++ [t]) := by
  rw [leadAfter, leadAfter, List.getLast?_concat]
  cases classPaths.getLast? with
  | none => rfl
  | some u => exact List.set_set ..

/-- A write to the parameters in `argv`, to the string, or to where the class path belongs. -/
def ArgWrite.InArgs (result size : Nat) : ArgWrite → Prop
  | .argv i => result ≤ i ∧ i < paramNumMax
  | .lead n => n = result - gapToClassPath
  | .param i => i ≤ size

/-- The call has come as far as the tokens. -/
structure Follows (result : Nat) (args : RunArgs) (size : Nat) (σ : TokenState) (done left : List Char)
    (s : ParseState) : Prop where
  tracks : Tracks result args σ.stored done left s
  start : s.start = done.length
  length : done.length + left.length = size + 1
  cpFlag : s.cpFlag = σ.pending
  plain : ∀ t ∈ σ.stored, isFlag t = false
  pending : σ.pending = true → σ.stored = []
  lead : s.lead = leadAfter result args σ.classPaths
  writes : ∀ w ∈ s.writes, w.InArgs result size
  copied : .lead (result - gapToClassPath) ∈ s.writes ↔ σ.classPaths ≠ []

/-- The token that a turn finds. -/
theorem Follows.turn_eq (h : Follows result args size σ done left s) {spaces word tail : List Char}
    {c : Char} (hleft : left = spaces ++ (word ++ c :: tail))
    (hspaces : ∀ x ∈ spaces, isspace x = true) (hne : word ≠ []) (hword : ∀ x ∈ word, isspace x = false)
    (hnul : '\x00' ∉ word) (hc : isspace c = true ∨ c = '\x00') :
    parseTurn lib result maxNum s =
      if maxNum ≤ σ.stored.length then .error (.ret (-eFault) s)
      else
        match saveClassPath lib result (judgeFlag result
          (endToken (done.length + spaces.length + word.length)
            (storeParam result (done.length + spaces.length) s))) with
        | .error done => .error done
        | .ok s' => .ok { s' with start := done.length + spaces.length + word.length + 1 } := by
  have hrest : s.param.drop s.start = spaces ++ (word ++ c :: tail) := by
    rw [h.tracks.param, h.start, List.drop_left, hleft]
  have hskip : (s.param.drop s.start).takeWhile isspace = spaces := by
    rw [hrest, List.takeWhile_append_of_pos hspaces]
    cases word with
    | nil => exact absurd rfl hne
    | cons d word =>
        rw [List.cons_append, List.takeWhile_cons_of_neg, List.append_nil]
        rw [hword d (List.mem_cons_self ..)]
        decide
  have hflag : s.param.drop (done.length + spaces.length) = word ++ c :: tail := by
    rw [← h.start, ← List.drop_drop, hrest, List.drop_left]
  have hstops : ∀ x ∈ word, (!isspace x && x != '\x00') = true := by
    intro x hx
    have hx0 : x ≠ '\x00' := by
      rintro rfl
      exact hnul hx
    simp [hword x hx, hx0]
  have hend : (word ++ c :: tail).takeWhile (fun x => !isspace x && x != '\x00') = word := by
    rw [List.takeWhile_append_of_pos hstops, List.takeWhile_cons_of_neg, List.append_nil]
    obtain hc | rfl := hc
    · simp [hc]
    · simp
  have hnonempty : s.param.getD (done.length + spaces.length) '\x00' ≠ '\x00' := by
    cases word with
    | nil => exact absurd rfl hne
    | cons d word =>
        have hhead := congrArg List.head? hflag
        rw [List.head?_drop] at hhead
        rw [List.getD_eq_getElem?_getD, hhead]
        rintro rfl
        exact hnul (List.mem_cons_self ..)
  rw [parseTurn]
  dsimp only
  rw [hskip, h.start, ← h.tracks.num]
  by_cases hroom : maxNum ≤ s.num
  · rw [if_pos ⟨hnonempty, hroom⟩, if_pos hroom]
  · have hparam : (storeParam result (done.length + spaces.length) s).param = s.param := rfl
    rewrite [if_neg fun hfull => hroom hfull.2, if_neg hroom, if_neg hnonempty, hparam, hflag, hend]
    exact rfl

/-- The end of a turn that copies a class path. -/
theorem Follows.copy {stored classPaths : List Token} {t : Token} (hlib : lib.JoinsWhole)
    (hargs : args.Leading result) (hsize : size < paramLenMax)
    (htracks : Tracks result args (stored ++ [t]) done left s) (hflag : s.cpFlag = true)
    (hlength : done.length + left.length = size + 1)
    (hplain : ∀ u ∈ stored, isFlag u = false) (hlead : s.lead = leadAfter result args classPaths)
    (hwrites : ∀ w ∈ s.writes, w.InArgs result size) :
    if classPaths ++ [t] = classPaths ∨ gapToClassPath ≤ result then
      ∃ s', (match saveClassPath lib result s with
          | .error ended => .error ended
          | .ok s' => .ok { s' with start := done.length }) = Except.ok s' ∧
        Follows result args size ⟨stored, false, classPaths ++ [t]⟩ done left s'
    else ∃ s', (match saveClassPath lib result s with
        | .error ended => .error ended
        | .ok s' => .ok { s' with start := done.length }) = Except.error (ParseEnd.outside s') := by
  rw [htracks.saveClassPath hlib hargs (by omega) hflag]
  by_cases hslot : gapToClassPath ≤ result
  · rw [if_pos (Or.inr hslot), if_pos hslot]
    refine ⟨_, rfl, ?_⟩
    exact
      { tracks := htracks.pop.congr rfl rfl rfl
        start := rfl
        length := hlength
        cpFlag := rfl
        plain := hplain
        pending := nofun
        lead := by
          show s.lead.set (result - gapToClassPath) t.2 = _
          rw [hlead]
          exact leadAfter_append classPaths t
        writes := by
          intro w hw
          obtain hw | hw := List.mem_append.mp hw
          · exact hwrites w hw
          · rw [List.mem_singleton.mp hw]
            exact rfl
        copied := iff_of_true (List.mem_append_right _ (List.mem_singleton_self _))
          (List.append_ne_nil_of_right_ne_nil _ (List.cons_ne_nil _ _)) }
  · have hnew : classPaths ++ [t] ≠ classPaths := by simp
    rw [if_neg (not_or.mpr ⟨hnew, hslot⟩), if_neg hslot]
    exact ⟨_, rfl⟩

/-- A turn of the loop that finds a token. -/
theorem Follows.turn (h : Follows result args size σ done left s) (hlib : lib.JoinsWhole)
    (hargs : args.Leading result) (hsize : size < paramLenMax) (hmax : result + maxNum < paramNumMax)
    {spaces word tail : List Char} {c : Char} (hleft : left = spaces ++ (word ++ c :: tail))
    (hspaces : ∀ x ∈ spaces, isspace x = true) (hne : word ≠ []) (hword : ∀ x ∈ word, isspace x = false)
    (hnul : '\x00' ∉ word) (hc : isspace c = true ∨ c = '\x00') :
    match tokenStep maxNum σ (done.length + spaces.length, word) with
    | none => parseTurn lib result maxNum s = .error (.ret (-eFault) s)
    | some σ' =>
        if σ'.classPaths = σ.classPaths ∨ gapToClassPath ≤ result then
          ∃ s', parseTurn lib result maxNum s = .ok s' ∧
            Follows result args size σ' (done ++ spaces ++ word ++ ['\x00']) tail s'
        else ∃ s', parseTurn lib result maxNum s = .error (.outside s') := by
  rw [h.turn_eq hleft hspaces hne hword hnul hc, tokenStep]
  by_cases hroom : maxNum ≤ σ.stored.length
  · rw [if_pos hroom, if_pos hroom]
  rw [if_neg hroom, if_neg hroom]
  have hstored := h.tracks.store hleft hnul (by omega)
  generalize hs₁ : endToken (done.length + spaces.length + word.length)
    (storeParam result (done.length + spaces.length) s) = s₁ at hstored ⊢
  have hlast := hstored.last
  have hnum : s₁.num > 0 := by
    rw [hstored.num, List.length_append]
    exact Nat.succ_pos _
  have hlength : (done ++ spaces ++ word ++ ['\x00']).length =
      done.length + spaces.length + word.length + 1 := by
    simp only [List.length_append, List.length_singleton]
  have htotal := h.length
  rw [hleft] at htotal
  simp only [List.length_append, List.length_cons] at htotal
  have hleads : s₁.lead = leadAfter result args σ.classPaths := by
    rw [← hs₁]
    exact h.lead
  have hcpFlag : s₁.cpFlag = σ.pending := by
    rw [← hs₁]
    exact h.cpFlag
  have hwritten : s₁.writes = s.writes ++ [.argv (result + s.num)] ++
      [.param (done.length + spaces.length + word.length)] := by
    rw [← hs₁]
    exact rfl
  have hwrites : ∀ w ∈ s₁.writes, w.InArgs result size := by
    intro w hw
    rw [hwritten, List.append_assoc, List.mem_append] at hw
    obtain hw | hw := hw
    · exact h.writes w hw
    · obtain rfl | hw := List.mem_cons.mp hw
      · refine ⟨Nat.le_add_right .., ?_⟩
        rw [h.tracks.num]
        omega
      · rw [List.mem_singleton.mp hw]
        show done.length + spaces.length + word.length ≤ size
        omega
  have hcopied : ArgWrite.lead (result - gapToClassPath) ∈ s₁.writes ↔ σ.classPaths ≠ [] := by
    rw [hwritten, ← h.copied]
    simp
  have hsum : (done ++ spaces ++ word ++ ['\x00']).length + tail.length = size + 1 := by
    rw [hlength]
    omega
  rw [← hlength]
  by_cases hflag : isFlag (done.length + spaces.length, word)
  · have hjudge : judgeFlag result s₁ = { s₁ with cpFlag := true, num := s₁.num - 1 } := by
      rw [judgeFlag, hlast, if_pos ⟨hnum, hflag⟩]
    rw [hjudge, if_pos hflag]
    have hpopped : Tracks result args σ.stored (done ++ spaces ++ word ++ ['\x00']) tail
        { s₁ with cpFlag := true, num := s₁.num - 1 } :=
      hstored.pop.congr rfl rfl rfl
    cases hprevious : σ.stored.getLast? with
    | none =>
        rw [List.getLast?_eq_none_iff] at hprevious
        have hzero : s₁.num - 1 = 0 := by
          rw [hstored.num, hprevious]
          exact rfl
        rw [saveClassPath, if_neg fun hmore => absurd hmore.2 (by dsimp only; omega)]
        dsimp only
        rw [if_pos (Or.inl rfl)]
        refine ⟨_, rfl, ?_⟩
        exact
          { tracks := hpopped.congr rfl rfl rfl
            start := rfl
            length := hsum
            cpFlag := rfl
            plain := h.plain
            pending := fun _ => hprevious
            lead := hleads
            writes := hwrites
            copied := hcopied }
    | some u =>
        have hsplit := List.dropLast_append_getLast? u hprevious
        rw [← hsplit] at hpopped
        exact Follows.copy hlib hargs hsize hpopped rfl hsum
          (fun t ht => h.plain t (List.mem_of_mem_dropLast ht)) hleads hwrites
  · have hjudge : judgeFlag result s₁ = s₁ := by
      rw [judgeFlag, hlast, if_neg fun hjudged => hflag hjudged.2]
    rw [hjudge, if_neg hflag]
    by_cases hpending : σ.pending
    · rw [if_pos hpending]
      have hnone := h.pending hpending
      rw [hnone] at hstored
      rw [hnone]
      exact Follows.copy hlib hargs hsize hstored (hcpFlag.trans hpending) hsum (by simp) hleads hwrites
    · rw [if_neg hpending, saveClassPath, if_neg (by rw [hcpFlag]; exact fun hflag => hpending hflag.1)]
      dsimp only
      rw [if_pos (Or.inl rfl)]
      refine ⟨_, rfl, ?_⟩
      exact
        { tracks := hstored.congr rfl rfl rfl
          start := rfl
          length := hsum
          cpFlag := hcpFlag
          plain := by
            intro t ht
            obtain ht | ht := List.mem_append.mp ht
            · exact h.plain t ht
            · rw [List.mem_singleton.mp ht]
              simpa using hflag
          pending := fun hwaits => absurd hwaits hpending
          lead := hleads
          writes := hwrites
          copied := hcopied }

/-- A turn that finds no token any more. -/
theorem Follows.turn_end (h : Follows result args size σ done left s) {spaces : List Char}
    (hleft : left = spaces ++ ['\x00']) (hspaces : ∀ x ∈ spaces, isspace x = true) :
    ∃ s', parseTurn lib result maxNum s = .ok s' ∧
      Follows result args size σ (done ++ left) [] s' := by
  have htotal := h.length
  rw [hleft, List.length_append, List.length_singleton] at htotal
  have hrest : s.param.drop s.start = spaces ++ ['\x00'] := by
    rw [h.tracks.param, h.start, List.drop_left, hleft]
  have hskip : (s.param.drop s.start).takeWhile isspace = spaces := by
    rw [hrest, List.takeWhile_append_of_pos hspaces, List.takeWhile_cons_of_neg (by decide),
      List.append_nil]
  have hflag : s.param.drop (done.length + spaces.length) = ['\x00'] := by
    rw [← h.start, ← List.drop_drop, hrest, List.drop_left]
  have hempty : s.param.getD (done.length + spaces.length) '\x00' = '\x00' := by
    have hhead := congrArg List.head? hflag
    rw [List.head?_drop] at hhead
    rw [List.getD_eq_getElem?_getD, hhead]
    rfl
  have hkept : s.param.set (done.length + spaces.length) '\x00' = done ++ left := by
    rw [h.tracks.param, hleft, ← List.append_assoc, ← List.length_append,
      List.set_append_right _ _ le_rfl, Nat.sub_self, List.set_cons_zero]
  have htracks : Tracks result args σ.stored (done ++ left) []
      (endToken (done.length + spaces.length) s) := by
    refine ⟨?_, h.tracks.argv_length, h.tracks.leading, h.tracks.num, h.tracks.elements,
      fun t ht => (h.tracks.texts t ht).append left⟩
    rw [List.append_nil]
    exact hkept
  have hjudge : judgeFlag result (endToken (done.length + spaces.length) s) =
      endToken (done.length + spaces.length) s := by
    rw [judgeFlag, if_neg]
    rintro ⟨hpos, hflagged⟩
    rw [htracks.num] at hpos
    obtain ⟨t, ht⟩ := List.getLast?_isSome.mpr (List.ne_nil_of_length_pos hpos) |> Option.isSome_iff_exists.mp
    rw [← List.dropLast_append_getLast? t ht] at htracks
    rw [htracks.last] at hflagged
    have hplain := h.plain t (List.mem_of_getLast? ht)
    rw [isFlag, hflagged] at hplain
    cases hplain
  have hwaits : ¬ ((endToken (done.length + spaces.length) s).cpFlag = true ∧
      (endToken (done.length + spaces.length) s).num > 0) := by
    rintro ⟨hcpFlag, hpos⟩
    have hnone := h.pending (h.cpFlag ▸ hcpFlag)
    rw [htracks.num, hnone] at hpos
    exact absurd hpos (lt_irrefl 0)
  have hturn : parseTurn lib result maxNum s =
      .ok { endToken (done.length + spaces.length) s with start := done.length + spaces.length + 1 } := by
    rw [parseTurn]
    dsimp only
    rw [hskip, h.start, if_neg fun hfull => hfull.1 hempty, if_pos hempty, hflag,
      List.takeWhile_cons_of_neg (by decide), List.length_nil, Nat.add_zero, hjudge, saveClassPath,
      if_neg hwaits]
  refine ⟨_, hturn, ?_⟩
  exact
    { tracks := htracks.congr rfl rfl rfl
      start := by rw [hleft, List.length_append, List.length_append]; exact rfl
      length := by
        rw [hleft, List.length_append, List.length_append, List.length_nil, List.length_singleton]
        omega
      cpFlag := h.cpFlag
      plain := h.plain
      pending := h.pending
      lead := h.lead
      writes := by
        intro w hw
        obtain hw | hw := List.mem_append.mp hw
        · exact h.writes w hw
        · rw [List.mem_singleton.mp hw]
          show done.length + spaces.length ≤ size
          omega
      copied := by
        rw [← h.copied]
        show _ ∈ s.writes ++ [.param (done.length + spaces.length)] ↔ _
        simp }

/-! ### The loop -/

/-- What is left is a string, or nothing when the terminator has been passed. -/
def Leaves (left rest : List Char) : Prop := left = rest ++ ['\x00'] ∨ left = [] ∧ rest = []

/-- The call ends as its tokens do. -/
theorem Follows.loop (h : Follows result args size σ done left s) (hlib : lib.JoinsWhole)
    (hargs : args.Leading result) (hsize : size < paramLenMax) (hmax : result + maxNum < paramNumMax)
    {rest : List Char} (hrest : Leaves left rest) (hnul : '\x00' ∉ rest) {fuel : Nat}
    (hfuel : rest.length < fuel) :
    match tokenRun (gapToClassPath ≤ result) maxNum σ (tokens isspace done.length rest) with
    | .ok σ' => ∃ s' done' left', parseLoop lib result maxNum size fuel s = some (.ret 0 s') ∧
        Follows result args size σ' done' left' s'
    | .full σ' => ∃ s' done' left',
        parseLoop lib result maxNum size fuel s = some (.ret (-eFault) s') ∧
          Follows result args size σ' done' left' s'
    | .outside _ => ∃ s', parseLoop lib result maxNum size fuel s = some (.outside s') := by
  have hlength := h.length
  induction fuel generalizing σ done left s rest with
  | zero => exact absurd hfuel (Nat.not_lt_zero _)
  | succ fuel ih =>
      rw [parseLoop, h.start]
      by_cases hmore : rest = []
      · -- the loop is over
        have hover : ¬ done.length < size := by
          obtain rfl | ⟨rfl, -⟩ := hrest
          · rw [hmore, List.nil_append, List.length_singleton] at hlength
            omega
          · rw [List.length_nil] at hlength
            omega
        rw [if_neg hover, hmore, tokens, tokenRun]
        exact ⟨s, done, left, rfl, h⟩
      · have hleft : left = rest ++ ['\x00'] := hrest.resolve_right fun hnone => hmore hnone.2
        have hpos := List.length_pos_of_ne_nil hmore
        have hgoes : done.length < size := by
          rw [hleft, List.length_append, List.length_singleton] at hlength
          omega
        rw [if_pos hgoes]
        obtain hspaces | ⟨spaces, word, tail, rfl, hspaces, hne, hword, hend⟩ :=
          cases_tokens isspace rest
        · obtain ⟨s', hturn, hs'⟩ : ∃ s', parseTurn lib result maxNum s = .ok s' ∧
              Follows result args size σ (done ++ left) [] s' := h.turn_end hleft hspaces
          rw [hturn, tokens_of_spaces hspaces, tokenRun]
          have hnone : ([] : List Char) = [] ++ ['\x00'] ∨ ([] : List Char) = [] ∧ ([] : List Char) = [] :=
            Or.inr ⟨rfl, rfl⟩
          have hlast := ih hs' hnone List.not_mem_nil (by
            rw [List.length_nil]
            omega) hs'.length
          rw [tokens, tokenRun] at hlast
          exact hlast
        · have hnulWord : '\x00' ∉ word := fun hmem =>
            hnul (List.mem_append_right _ (List.mem_append_left _ hmem))
          -- what ends the token, and what follows it
          obtain ⟨c, left', tail', hsplit, hc, hrest', htokens, hnul', hshort⟩ :
              ∃ c left' tail', tail ++ ['\x00'] = c :: left' ∧ (isspace c = true ∨ c = '\x00') ∧
                Leaves left' tail' ∧
                (∀ i, tokens isspace i tail = tokens isspace (i + 1) tail') ∧ '\x00' ∉ tail' ∧
                tail'.length ≤ tail.length := by
            cases tail with
            | nil =>
                exact ⟨'\x00', [], [], rfl, Or.inr rfl, Or.inr ⟨rfl, rfl⟩, fun _ => rfl,
                  List.not_mem_nil, le_rfl⟩
            | cons c tail =>
                have hspace : isspace c = true := hend
                refine ⟨c, tail ++ ['\x00'], tail, rfl, Or.inl hspace, Or.inl rfl,
                  fun i => tokens_sep hspace i tail, fun hmem => hnul ?_, Nat.le_succ _⟩
                exact List.mem_append_right _ (List.mem_append_right _ (List.mem_cons_of_mem c hmem))
          have hleft' : left = spaces ++ (word ++ c :: left') := by
            rw [hleft, ← hsplit, List.append_assoc, List.append_assoc]
          have hturn := h.turn hlib hargs hsize hmax hleft' hspaces hne hword hnulWord hc
          rw [tokens_spaces hspaces, tokens_word hne hword hend, htokens, tokenRun]
          have hdone : (done ++ spaces ++ word ++ ['\x00']).length =
              done.length + spaces.length + word.length + 1 := by
            simp only [List.length_append, List.length_singleton]
          cases hstep : tokenStep maxNum σ (done.length + spaces.length, word) with
          | none =>
              rw [hstep] at hturn
              exact ⟨s, done, left, by rw [hturn], h⟩
          | some σ' =>
              rw [hstep] at hturn
              dsimp only at hturn ⊢
              by_cases hgoesOn : σ'.classPaths = σ.classPaths ∨ gapToClassPath ≤ result
              · rw [if_pos hgoesOn] at hturn
                obtain ⟨s', hturn, hs'⟩ := hturn
                rw [hturn, if_neg, ← hdone]
                · rw [List.length_append, List.length_append] at hfuel
                  have hword := List.length_pos_of_ne_nil hne
                  exact ih hs' hrest' hnul' (by omega) hs'.length
                · rintro ⟨hslot, hnew⟩
                  obtain hsame | hslot' := hgoesOn
                  · exact hnew hsame
                  · simp [hslot'] at hslot
              · rw [if_neg hgoesOn] at hturn
                obtain ⟨s', hturn⟩ := hturn
                obtain ⟨hnew, hslot⟩ := not_or.mp hgoesOn
                rw [hturn, if_pos ⟨by simp [hslot], hnew⟩]
                exact ⟨s', rfl⟩

end Turns

/-! ### The call -/

theorem RunMode.args_leading (mode : RunMode) (lead : List (List Char)) :
    (mode.args lead).Leading mode.resultIndex := by
  intro n hn
  show ((List.range mode.resultIndex).map (fun n => some (ArgPtr.lead n)) ++ _)[n]? = _
  rw [List.getElem?_append_left (by rwa [List.length_map, List.length_range]), List.getElem?_map,
    List.getElem?_range hn, Option.map_some]

theorem RunMode.result_add_maxNum (mode : RunMode) :
    mode.resultIndex + mode.maxNum < paramNumMax := by
  cases mode <;> decide

/-- `ParseParam` ends, and as the tokens of the string do. -/
theorem RunMode.parse_spec (mode : RunMode) {lib : Securec.Strings} (hlib : lib.JoinsWhole)
    (lead : List (List Char)) {param : List Char} (hnul : '\x00' ∉ param)
    (hsize : param.length < paramLenMax) :
    match tokenRun (gapToClassPath ≤ mode.resultIndex) mode.maxNum {} (tokens isspace 0 param) with
    | .ok σ => ∃ s done left, mode.parse lib lead (some param) = some (.ret 0 s) ∧
        Follows mode.resultIndex (mode.args lead) param.length σ done left s
    | .full σ => ∃ s done left, mode.parse lib lead (some param) = some (.ret (-eFault) s) ∧
        Follows mode.resultIndex (mode.args lead) param.length σ done left s
    | .outside _ => ∃ s, mode.parse lib lead (some param) = some (.outside s) := by
  have hstart : Follows mode.resultIndex (mode.args lead) param.length {} [] (param ++ ['\x00'])
      { mode.args lead with param := param ++ ['\x00'] } := by
    refine ⟨⟨rfl, ?_, rfl, rfl, rfl, by simp⟩, rfl, ?_, rfl, by simp, fun _ => rfl, rfl, by simp, by simp⟩
    · show ((List.range mode.resultIndex).map _ ++ List.replicate _ _).length = _
      cases mode <;> decide
    · simp
  exact hstart.loop hlib (mode.args_leading lead) hsize mode.result_add_maxNum (Or.inl rfl) hnul
    (Nat.lt_succ_self _)

end ITrustee.TeeTeleport
