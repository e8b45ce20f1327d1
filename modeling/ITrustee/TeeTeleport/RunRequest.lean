import Mathlib
import ITrustee.TeeTeleport.Identifiers
import ITrustee.TeeTeleport.MakeArgs
import ITrustee.TeeTeleport.ParamSplitting
import ITrustee.TeeTeleport.RunArguments

/-!
# Requests of a run

`DoRun` checks the options of a run, one of four functions puts the leading arguments before what
`ParseParam` leaves of the parameters, and `TeeRun` joins them in the portal. On its way a parameter is
only cut and joined again: the TEE, which splits the string of the portal at its spaces, finds the tokens
that the user wrote. Characters a shell would act on are refused in the parameters; in the file to run
nothing looks for them.
-/

namespace ITrustee.TeeTeleport

open CString Tokens

/-- `PORTAL_RUN_ARGS_MAXSIZE`. -/
def portalRunArgsMaxsize : UInt32 := 512

inductive Program where
  | runPython | runJava | runElf
  deriving DecidableEq

/-- The fields of the portal that a run sets. -/
structure RunPortal where
  type : Program
  sessionID : UInt32
  reeUID : UInt32
  cwd : List Char
  xargsSize : UInt32
  xargs : List Char
  envParam : List Char
  deriving DecidableEq

structure TeeRunParam where
  sessionID : UInt32
  envParam : Option (List Char)

/-- What the calls outside give: the portal or an error, the working directory or `errno`, the user, and
the results of the two calls that come before the portal is triggered. -/
structure RunEnv where
  getPortal : Except Int32 RunPortal
  getcwd : Except Int32 (List Char)
  getuid : UInt32
  prctl : Int32
  posixProxyInit : Int32

/-- How a run is requested: the portal is triggered, a result is returned, or `argv` is left. -/
inductive RunEnd where
  | triggered (portal : RunPortal)
  | ret (ret : Int32)
  | outside
  deriving DecidableEq

/-! ### Checks -/

def filter : List Char := "|;&$<>`\\!\n".toList

def isLegalParam (paramVal : List Char) : Int32 :=
  if paramVal.any fun c => filter.contains c then -eInval else 0

def isLegalEnvParam (paramVal : List Char) : Int32 :=
  if paramVal.length < "sep=:;x".length ∨ portalRunArgsMaxsize.toNat < paramVal.length then -eInval
  else if paramVal.take "sep=".length ≠ "sep=".toList then -eInval
  else 0

def checkTeePath (path : List Char) : Int32 :=
  if path.any isspace then -eInval
  else if path.head? = some '/' then -eInval
  else if path.take 2 = ['.', '.'] then -eInval
  else 0

/-! ### The portal -/

section Model

variable (lib : Securec.Strings) (memsetS : List Char → Nat → Char → Nat → List Char) (env : RunEnv)

def configPortal (portal : RunPortal) (program : Program) (runParam : TeeRunParam) :
    Except Int32 RunPortal :=
  match runParam.envParam with
  | none => .ok { portal with type := program, sessionID := runParam.sessionID }
  | some envParam =>
      let cleared := memsetS portal.envParam portalRunArgsMaxsize.toNat '\x00' portalRunArgsMaxsize.toNat
      match strcat lib cleared portalRunArgsMaxsize envParam with
      | none => .error (-eFault)
      | some joined =>
          .ok { portal with envParam := joined, type := program, sessionID := runParam.sessionID }

def runInitPortal (program : Program) (argc : Int) (argv : List (Option (List Char)))
    (runParam : TeeRunParam) : Except Int32 RunPortal :=
  match env.getPortal with
  | .error ret => .error ret
  | .ok portal =>
      match env.getcwd with
      | .error errno => .error (-errno)
      | .ok cwd =>
          match makeArgs lib memsetS argc argv portal.xargs portalRunArgsMaxsize with
          | none => .error (-1)
          | some (xargs, argSize) =>
              configPortal lib memsetS
                { portal with cwd := cwd, xargs := xargs, xargsSize := argSize, reeUID := env.getuid }
                program runParam

/-- `TeeRun` as far as the portal that it triggers, in the build with the posix proxy. -/
def teeRun (program : Program) (argc : Int) (argv : List (Option (List Char)))
    (runParam : TeeRunParam) : Except Int32 RunPortal :=
  if argc ≤ 1 ∨ argv.head?.join = none then .error (-eInval)
  else
    match runInitPortal lib memsetS env program argc argv runParam with
    | .error ret => .error ret
    | .ok portal =>
        if env.prctl ≠ 0 then .error env.prctl
        else if env.posixProxyInit ≠ 0 then .error env.posixProxyInit
        else .ok portal

/-- The string that an element of `argv` points to. -/
def ParseState.argument (s : ParseState) : ArgPtr → List Char
  | .lead n => s.lead.getD n []
  | .param offset => stringAt s.param offset

def RunMode.program : RunMode → Program
  | .javaClass => .runJava
  | .javaJar => .runJava
  | .python => .runPython
  | .elf => .runElf

/-- `TeeRunJavaClass`, `TeeRunJavaJar`, `TeeRunPython` and `TeeRunElf` from `ParseParam` on. -/
def RunMode.run (mode : RunMode) (lead : List (List Char)) (runParam : TeeRunParam)
    (param : Option (List Char)) : Option RunEnd :=
  match mode.parse lib lead param with
  | none => none
  | some (.outside _) => some .outside
  | some (.ret ret s) =>
      if ret ≠ 0 then some (.ret (-eFault))
      else
        let argv := s.argv.set (s.num + mode.resultIndex) none
        match teeRun lib memsetS env mode.program (s.num + (mode.resultIndex + 1))
            (argv.map (Option.map s.argument)) runParam with
        | .error ret => some (.ret ret)
        | .ok portal => some (.triggered portal)

/-- `DoRun` with `ExcuteTeeRun` as far as that portal, for a file that the mode runs; `lead` is what the
mode makes of the path of the file. -/
def RunMode.doRun (mode : RunMode) (lead : List (List Char)) (runPath : List Char) (sessionID : UInt32)
    (paramVal envParam : Option (List Char)) : Option RunEnd :=
  if paramVal.any fun s => isLegalParam s != 0 then some (.ret (-eInval))
  else if envParam.any fun s => isLegalEnvParam s != 0 then some (.ret (-eInval))
  else if checkTeePath runPath ≠ 0 then some (.ret (-eInval))
  else if sessionID = 0 then some (.ret (-eInval))
  else
    match mode.run lib memsetS env lead ⟨sessionID, envParam⟩ paramVal with
    | some (.ret _) => some (.ret (-eFault))
    | done => done

end Model

/-! ### The arguments -/

/-- The tokens of the parameters, if there are any. -/
def paramTokens (param : Option (List Char)) : List Token := tokens isspace 0 (param.getD [])

/-- The run of a Java class takes class paths before its parameters, and no other run takes one. -/
def RunMode.Takes (mode : RunMode) (param : Option (List Char)) : Prop :=
  (∀ t ∈ paramTokens param, isFlag t = false) ∨
    mode = .javaClass ∧ flagsFirst false (paramTokens param) = true

instance (mode : RunMode) (param : Option (List Char)) : Decidable (mode.Takes param) :=
  inferInstanceAs (Decidable (_ ∨ _))

/-- The parameters of a run. -/
def runParams (param : Option (List Char)) : List (List Char) :=
  (keptTokens false (paramTokens param)).map Prod.snd

/-- The arguments of a run: the leading ones, with the class path of the user if there is one, and the
parameters. -/
def RunMode.arguments (mode : RunMode) (lead : List (List Char)) (param : Option (List Char)) :
    List (List Char) :=
  leadAfter mode.resultIndex (mode.args lead) (classPathTokens false (paramTokens param)) ++
    runParams param

section Arguments

variable {lib : Securec.Strings} {mode : RunMode} {lead : List (List Char)} {param : Option (List Char)}

theorem classPathTokens_subset (after : Bool) (ts : List Token) :
    ∀ t ∈ classPathTokens after ts, t ∈ ts := by
  induction ts generalizing after with
  | nil => exact fun _ h => h
  | cons t ts ih =>
      intro u hu
      rw [classPathTokens] at hu
      split_ifs at hu
      · exact List.mem_cons_of_mem _ (ih _ u hu)
      · obtain rfl | hu := List.mem_cons.mp hu
        · exact List.mem_cons_self ..
        · exact List.mem_cons_of_mem _ (ih _ u hu)
      · exact List.mem_cons_of_mem _ (ih _ u hu)

theorem length_leadAfter (classPaths : List Token) :
    (leadAfter mode.resultIndex (mode.args lead) classPaths).length = lead.length := by
  rw [leadAfter]
  cases classPaths.getLast? with
  | none => rfl
  | some t => exact List.length_set ..

/-- An argument of the run is a leading one, or a token of the parameters. -/
theorem mem_arguments {arg : List Char} (harg : arg ∈ mode.arguments lead param) :
    arg ∈ lead ∨ ∃ t ∈ paramTokens param, t.2 = arg := by
  obtain harg | harg := List.mem_append.mp harg
  · rw [leadAfter] at harg
    cases hlast : (classPathTokens false (paramTokens param)).getLast? with
    | none =>
        rw [hlast] at harg
        exact Or.inl harg
    | some u =>
        rw [hlast] at harg
        obtain harg | rfl := List.mem_or_eq_of_mem_set harg
        · exact Or.inl harg
        · exact Or.inr ⟨u, classPathTokens_subset false _ u (List.mem_of_getLast? hlast), rfl⟩
  · obtain ⟨t, ht, rfl⟩ := List.mem_map.mp harg
    exact Or.inr ⟨t, keptTokens_subset false _ t ht, rfl⟩

theorem isArgument_of_token (hnul : ∀ s ∈ param, '\x00' ∉ s)
    (hsize : ∀ s ∈ param, s.length < paramLenMax) {t : Token} (ht : t ∈ paramTokens param) :
    IsArgument t.2 := by
  obtain ⟨hne, hword, hpart⟩ := tokens_parts 0 _ t ht
  cases param with
  | none => exact absurd ht List.not_mem_nil
  | some s =>
      have hshort : t.2.length < maxArgvLength := hpart.length_le.trans_lt (hsize s rfl)
      exact ⟨hne, hshort, hword, fun h => hnul s rfl (hpart.subset h)⟩

/-- The arguments that the elements of `argv` point to. -/
theorem Tracks.arguments {stored : List Token} {done left : List Char} {s : ParseState}
    (h : Tracks mode.resultIndex (mode.args lead) stored done left s)
    (hlen : s.lead.length = mode.resultIndex) :
    ((s.argv.set (s.num + mode.resultIndex) none).map (Option.map s.argument)).take
        (s.num + mode.resultIndex) =
      (s.lead ++ stored.map Prod.snd).map some := by
  have hlead : (s.argv.take mode.resultIndex).map (Option.map s.argument) = s.lead.map some := by
    have hargs : (mode.args lead).argv.take mode.resultIndex =
        (List.range mode.resultIndex).map fun n => some (.lead n) := by
      rw [RunMode.args, List.take_left' (by simp)]
    rw [h.leading, hargs]
    apply List.ext_getElem (by simp [hlen])
    intro n hn hn'
    rw [List.length_map] at hn'
    simp [ParseState.argument, List.getD_eq_getElem?_getD, List.getElem?_eq_getElem hn']
  have hparams : ((s.argv.drop mode.resultIndex).take stored.length).map (Option.map s.argument) =
      (stored.map Prod.snd).map some := by
    rw [h.elements, List.map_map, List.map_map]
    apply List.map_congr_left
    intro t ht
    show some (stringAt s.param t.1) = some t.2
    rw [h.param, (h.texts t ht).stringAt]
  rw [← List.map_take, List.take_set_of_le le_rfl, h.num, Nat.add_comm, List.take_add, List.map_append,
    List.map_append, hlead, hparams]

/-- `ParseParam` takes the parameters unless there are too many of them. -/
theorem RunMode.parse_takes (hlib : lib.JoinsWhole) (hlead : lead.length = mode.resultIndex)
    (hnul : ∀ s ∈ param, '\x00' ∉ s) (hsize : ∀ s ∈ param, s.length < paramLenMax)
    (htakes : mode.Takes param) :
    if (runParams param).length ≤ mode.maxNum then
      ∃ s, mode.parse lib lead param = some (.ret 0 s) ∧ s.num = (runParams param).length ∧
        ((s.argv.set (s.num + mode.resultIndex) none).map (Option.map s.argument)).take
            (s.num + mode.resultIndex) = (mode.arguments lead param).map some
    else ∃ s, mode.parse lib lead param = some (.ret (-eFault) s) := by
  cases param with
  | none =>
      rw [if_pos (show (runParams none).length ≤ mode.maxNum from Nat.zero_le _)]
      have htracks : Tracks mode.resultIndex (mode.args lead) [] [] []
          { mode.args lead with param := [] } := by
        refine ⟨rfl, ?_, rfl, rfl, rfl, by simp⟩
        show ((List.range mode.resultIndex).map _ ++ List.replicate _ _).length = _
        cases mode <;> decide
      exact ⟨_, rfl, rfl, htracks.arguments hlead⟩
  | some param =>
      have hspec := mode.parse_spec hlib lead (hnul param rfl) (hsize param rfl)
      have hmax : 0 < mode.maxNum := by cases mode <;> decide
      change (∀ t ∈ tokens isspace 0 param, isFlag t = false) ∨ _ ∧
        flagsFirst false (tokens isspace 0 param) = true at htakes
      have hcount : (runParams (some param)).length = (keptTokens false (tokens isspace 0 param)).length :=
        List.length_map ..
      have hok : (∃ σ, tokenRun (gapToClassPath ≤ mode.resultIndex) mode.maxNum {}
          (tokens isspace 0 param) = .ok σ) ↔ (runParams (some param)).length ≤ mode.maxNum := by
        rw [hcount]
        obtain hplain | ⟨rfl, hfirst⟩ := htakes
        · rw [tokenRun_plain_iff (σ := {}) hplain rfl (Nat.zero_le mode.maxNum),
            (keptTokens_of_plain hplain).1, List.length_nil, Nat.zero_add]
        · exact tokenRun_flagsFirst_iff (σ := {}) hmax rfl hfirst
      have hstays : ∀ σ, tokenRun (gapToClassPath ≤ mode.resultIndex) mode.maxNum {}
          (tokens isspace 0 param) ≠ .outside σ := by
        intro σ
        obtain hplain | ⟨rfl, -⟩ := htakes
        · exact tokenRun_plain_ne_outside hplain rfl σ
        · exact tokenRun_ne_outside rfl _ σ
      cases hrun : tokenRun (gapToClassPath ≤ mode.resultIndex) mode.maxNum {}
          (tokens isspace 0 param) with
      | ok σ =>
          rw [hrun] at hspec
          obtain ⟨s, done, left, hret, hfollows⟩ := hspec
          have htokens : σ.stored = keptTokens false (tokens isspace 0 param) ∧
              σ.classPaths = classPathTokens false (tokens isspace 0 param) := by
            obtain hplain | ⟨rfl, hfirst⟩ := htakes
            · obtain rfl := tokenRun_of_plain hrun hplain rfl
              obtain ⟨hkept, hclass⟩ := keptTokens_of_plain hplain
              exact ⟨hkept.symm, hclass.symm⟩
            · exact tokenRun_of_flagsFirst hrun rfl hfirst
          rw [if_pos (hok.mp ⟨σ, hrun⟩)]
          refine ⟨s, hret, ?_, ?_⟩
          · rw [hfollows.tracks.num, htokens.1, hcount]
          · rw [hfollows.tracks.arguments (by rw [hfollows.lead, length_leadAfter, hlead]), hfollows.lead,
              htokens.1, htokens.2]
            exact rfl
      | full σ =>
          rw [hrun] at hspec
          obtain ⟨s, -, -, hret, -⟩ := hspec
          rw [if_neg fun hfits => ?_]
          · exact ⟨s, hret⟩
          · obtain ⟨σ', hrun'⟩ := hok.mpr hfits
            rw [hrun] at hrun'
            cases hrun'
      | outside σ => exact absurd hrun (hstays σ)

end Arguments

/-! ### What the portal holds -/

/-- The portal asks for the run of the arguments: the TEE, which splits at spaces, finds them. -/
structure RunPortal.Requests (portal : RunPortal) (env : RunEnv) (program : Program)
    (args : List (List Char)) (runParam : TeeRunParam) : Prop where
  type : portal.type = program
  sessionID : portal.sessionID = runParam.sessionID
  reeUID : portal.reeUID = env.getuid
  cwd : env.getcwd = .ok portal.cwd
  xargsSize : portal.xargsSize.toNat = packedSize args
  xargs : (stringAt portal.xargs 0).splitOn ' ' = args
  envParam : ∀ s ∈ runParam.envParam, stringAt portal.envParam 0 = s

/-- There are a portal and a working directory. -/
def RunEnv.HasPortal (env : RunEnv) : Prop := env.getPortal.isOk = true ∧ env.getcwd.isOk = true

instance (env : RunEnv) : Decidable env.HasPortal := inferInstanceAs (Decidable (_ ∧ _))

/-- The calls outside succeed. -/
def RunEnv.Ready (env : RunEnv) : Prop := env.HasPortal ∧ env.prctl = 0 ∧ env.posixProxyInit = 0

instance (env : RunEnv) : Decidable env.Ready := inferInstanceAs (Decidable (_ ∧ _))

/-- The arguments, and the environment if there is one, fit the portal with a terminator. An environment
that is as long as its buffer passes the check and does not fit. -/
def FitsPortal (args : List (List Char)) (envParam : Option (List Char)) : Prop :=
  packedSize args < portalRunArgsMaxsize.toNat ∧ ∀ s ∈ envParam, s.length < portalRunArgsMaxsize.toNat

instance (args : List (List Char)) (envParam : Option (List Char)) : Decidable (FitsPortal args envParam) :=
  inferInstanceAs (Decidable (_ ∧ _))

section Portal

variable {lib : Securec.Strings} {memsetS : List Char → Nat → Char → Nat → List Char} {env : RunEnv}
  {program : Program} {runParam : TeeRunParam}

variable (program) in
theorem configPortal_spec (hlib : lib.JoinsWhole) (hfills : Securec.Fills memsetS)
    (hnul : ∀ s ∈ runParam.envParam, '\x00' ∉ s) (portal : RunPortal) :
    if ∀ s ∈ runParam.envParam, s.length < portalRunArgsMaxsize.toNat then
      ∃ joined, configPortal lib memsetS portal program runParam =
          .ok { portal with envParam := joined, type := program, sessionID := runParam.sessionID } ∧
        ∀ s ∈ runParam.envParam, stringAt joined 0 = s
    else configPortal lib memsetS portal program runParam = .error (-eFault) := by
  rw [configPortal]
  cases henv : runParam.envParam with
  | none =>
      rw [if_pos (by simp)]
      exact ⟨portal.envParam, rfl, by simp⟩
  | some envParam =>
      have hnul := hnul envParam henv
      obtain ⟨rest, hcleared⟩ := memset_cleared hfills portal.envParam
        (show 0 < portalRunArgsMaxsize.toNat by decide) (by decide)
      have hjoined : strcat lib ([] ++ '\x00' :: rest) portalRunArgsMaxsize envParam = _ :=
        strcat_eq hlib List.not_mem_nil envParam
      rw [List.nil_append, List.nil_append] at hjoined
      dsimp only
      rw [hcleared, hjoined]
      by_cases hfits : envParam.length < portalRunArgsMaxsize.toNat
      · rw [if_pos (by simpa using hfits), if_pos ⟨by decide, hfits⟩]
        refine ⟨_, rfl, fun s hs => ?_⟩
        obtain rfl := Option.some.inj hs
        exact stringAt_append (a := []) rfl hnul
      · rw [if_neg (by simpa using hfits), if_neg fun h => hfits h.2]

variable {args : List (List Char)} {argc : Int} {argv : List (Option (List Char))}

variable (env program) in
theorem runInitPortal_spec (hlib : lib.JoinsWhole) (hfills : Securec.Fills memsetS)
    (hnul : ∀ s ∈ runParam.envParam, '\x00' ∉ s) (hargs : ∀ arg ∈ args, IsArgument arg)
    (hsome : args ≠ []) (htake : argv.take (argc - 1).toNat = args.map some) :
    if env.HasPortal ∧ FitsPortal args runParam.envParam then
      ∃ portal, runInitPortal lib memsetS env program argc argv runParam = .ok portal ∧
        portal.Requests env program args runParam
    else ∃ ret, runInitPortal lib memsetS env program argc argv runParam = .error ret := by
  have hpresent : presentArgs (argv.take (argc - 1).toNat) = args := by
    rw [htake, presentArgs, List.filterMap_map]
    exact List.filterMap_some
  have hpos : 0 < packedSize args := by
    obtain ⟨arg, rest, rfl⟩ := List.exists_cons_of_ne_nil hsome
    show 0 < arg.length + 1 + packedSize rest
    omega
  rw [runInitPortal]
  cases hportal : env.getPortal with
  | error ret =>
      have hnot : ¬ env.HasPortal := fun h => by simpa [hportal, Except.isOk, Except.toBool] using h.1
      rw [if_neg fun h => hnot h.1]
      exact ⟨ret, rfl⟩
  | ok portal =>
      cases hcwd : env.getcwd with
      | error errno =>
          have hnot : ¬ env.HasPortal := fun h => by simpa [hcwd, Except.isOk, Except.toBool] using h.2
          rw [if_neg fun h => hnot h.1]
          exact ⟨-errno, rfl⟩
      | ok cwd =>
          have hready : env.HasPortal := ⟨by rw [hportal]; rfl, by rw [hcwd]; rfl⟩
          have hspec := makeArgs_spec hlib hfills (hpresent.symm ▸ hargs) portal.xargs portalRunArgsMaxsize
          rw [hpresent] at hspec
          dsimp only
          by_cases hroom : packedSize args < portalRunArgsMaxsize.toNat
          · rw [if_pos ⟨hpos, hroom, by decide⟩] at hspec
            obtain ⟨packed, hmake, hsize, hstring⟩ := hspec
            have hsplits : (stringAt packed.1 0).splitOn ' ' = args := by
              rw [hstring]
              refine List.splitOn_intercalate _ (fun arg harg hspace => ?_) hsome
              exact absurd ((hargs arg harg).2.2.1 ' ' hspace) (by decide)
            rw [hmake]
            dsimp only
            have hconfig := configPortal_spec program hlib hfills hnul
              { portal with cwd := cwd, xargs := packed.1, xargsSize := packed.2, reeUID := env.getuid }
            by_cases hfits : ∀ s ∈ runParam.envParam, s.length < portalRunArgsMaxsize.toNat
            · rw [if_pos hfits] at hconfig
              obtain ⟨joined, hconfig, henv⟩ := hconfig
              rw [if_pos ⟨hready, hroom, hfits⟩]
              exact ⟨_, hconfig, rfl, rfl, rfl, hcwd, hsize, hsplits, henv⟩
            · rw [if_neg hfits] at hconfig
              rw [if_neg fun h => hfits h.2.2]
              exact ⟨_, hconfig⟩
          · rw [if_neg fun h => hroom h.2.1] at hspec
            rw [hspec, if_neg fun h => hroom h.2.1]
            exact ⟨_, rfl⟩

/-- There is a first argument. -/
theorem teeRun_checked (hsome : args ≠ []) (hargc : argc = args.length + 1)
    (htake : argv.take (argc - 1).toNat = args.map some) : ¬ (argc ≤ 1 ∨ argv.head?.join = none) := by
  obtain ⟨arg, rest, rfl⟩ := List.exists_cons_of_ne_nil hsome
  have hcount : (argc - 1).toNat = rest.length + 1 := by
    rw [hargc, List.length_cons]
    omega
  rw [hcount] at htake
  cases argv with
  | nil => exact absurd htake (by simp)
  | cons first argv =>
      obtain ⟨rfl, -⟩ := List.cons.inj htake
      rw [hargc, List.length_cons]
      simp

variable (env program) in
theorem teeRun_spec (hlib : lib.JoinsWhole) (hfills : Securec.Fills memsetS)
    (hnul : ∀ s ∈ runParam.envParam, '\x00' ∉ s) (hargs : ∀ arg ∈ args, IsArgument arg)
    (hsome : args ≠ []) (hargc : argc = args.length + 1)
    (htake : argv.take (argc - 1).toNat = args.map some) :
    if env.Ready ∧ FitsPortal args runParam.envParam then
      ∃ portal, teeRun lib memsetS env program argc argv runParam = .ok portal ∧
        portal.Requests env program args runParam
    else ∃ ret, teeRun lib memsetS env program argc argv runParam = .error ret := by
  have hinit := runInitPortal_spec env program hlib hfills hnul hargs hsome htake
  rw [teeRun, if_neg (teeRun_checked hsome hargc htake)]
  by_cases hfits : env.HasPortal ∧ FitsPortal args runParam.envParam
  · rw [if_pos hfits] at hinit
    obtain ⟨portal, hinit, hrequests⟩ := hinit
    rw [hinit]
    dsimp only
    by_cases hprctl : env.prctl = 0
    · rw [if_neg (not_not.mpr hprctl)]
      by_cases hproxy : env.posixProxyInit = 0
      · rw [if_neg (not_not.mpr hproxy), if_pos ⟨⟨hfits.1, hprctl, hproxy⟩, hfits.2⟩]
        exact ⟨portal, rfl, hrequests⟩
      · rw [if_pos hproxy, if_neg fun h => hproxy h.1.2.2]
        exact ⟨env.posixProxyInit, rfl⟩
    · rw [if_pos hprctl, if_neg fun h => hprctl h.1.2.1]
      exact ⟨env.prctl, rfl⟩
  · rw [if_neg hfits] at hinit
    obtain ⟨ret, hinit⟩ := hinit
    rw [hinit, if_neg fun h => hfits ⟨h.1.1, h.2⟩]
    exact ⟨ret, rfl⟩

end Portal

/-! ### The request -/

/-- What `DoRun` and `ExcuteTeeRun` check. -/
def Checked (runPath : List Char) (sessionID : UInt32) (paramVal envParam : Option (List Char)) : Prop :=
  (∀ s ∈ paramVal, isLegalParam s = 0) ∧ (∀ s ∈ envParam, isLegalEnvParam s = 0) ∧
    checkTeePath runPath = 0 ∧ sessionID ≠ 0

instance (runPath : List Char) (sessionID : UInt32) (paramVal envParam : Option (List Char)) :
    Decidable (Checked runPath sessionID paramVal envParam) :=
  inferInstanceAs (Decidable (_ ∧ _))

theorem isLegalParam_eq_zero_iff (s : List Char) : isLegalParam s = 0 ↔ ∀ c ∈ s, c ∉ filter := by
  rw [isLegalParam]
  split_ifs with hany
  · refine iff_of_false (by decide) fun hnone => ?_
    obtain ⟨c, hc, hbad⟩ := List.any_eq_true.mp hany
    exact hnone c hc (List.contains_iff_mem.mp hbad)
  · refine iff_of_true rfl fun c hc hbad => hany ?_
    exact List.any_eq_true.mpr ⟨c, hc, List.contains_iff_mem.mpr hbad⟩

theorem mem_intercalate_space {c : Char} {args : List (List Char)} (h : c ∈ [' '].intercalate args) :
    c = ' ' ∨ ∃ arg ∈ args, c ∈ arg := by
  induction args with
  | nil => exact absurd h List.not_mem_nil
  | cons arg args ih =>
      cases args with
      | nil =>
          rw [List.intercalate_singleton] at h
          exact Or.inr ⟨arg, List.mem_cons_self .., h⟩
      | cons next args =>
          rw [List.intercalate_cons_cons, List.mem_append, List.mem_append] at h
          obtain (h | h) | h := h
          · exact Or.inr ⟨arg, List.mem_cons_self .., h⟩
          · exact Or.inl (List.mem_singleton.mp h)
          · obtain h | ⟨other, hother, hc⟩ := ih h
            · exact Or.inl h
            · exact Or.inr ⟨other, List.mem_cons_of_mem _ hother, hc⟩

section Request

variable {lib : Securec.Strings} {memsetS : List Char → Nat → Char → Nat → List Char} {env : RunEnv}
  {mode : RunMode} {lead : List (List Char)} {param : Option (List Char)}

theorem RunMode.resultIndex_pos (mode : RunMode) : 0 < mode.resultIndex := by cases mode <;> decide

variable (env) in
theorem RunMode.run_spec (hlib : lib.JoinsWhole) (hfills : Securec.Fills memsetS)
    (hlead : lead.length = mode.resultIndex) (hargs : ∀ arg ∈ lead, IsArgument arg)
    (hnul : ∀ s ∈ param, '\x00' ∉ s) (hsize : ∀ s ∈ param, s.length < paramLenMax)
    (htakes : mode.Takes param) (runParam : TeeRunParam) (henv : ∀ s ∈ runParam.envParam, '\x00' ∉ s) :
    if (runParams param).length ≤ mode.maxNum ∧ env.Ready ∧
        FitsPortal (mode.arguments lead param) runParam.envParam then
      ∃ portal, mode.run lib memsetS env lead runParam param = some (.triggered portal) ∧
        portal.Requests env mode.program (mode.arguments lead param) runParam
    else ∃ ret, mode.run lib memsetS env lead runParam param = some (.ret ret) := by
  have hparse := mode.parse_takes hlib hlead hnul hsize htakes
  rw [RunMode.run]
  by_cases hcount : (runParams param).length ≤ mode.maxNum
  · rw [if_pos hcount] at hparse
    obtain ⟨s, hret, hnum, htake⟩ := hparse
    have hlen : (mode.arguments lead param).length = s.num + mode.resultIndex := by
      rw [RunMode.arguments, List.length_append, length_leadAfter, hlead, hnum, Nat.add_comm]
    have hsome : mode.arguments lead param ≠ [] := by
      apply List.ne_nil_of_length_pos
      have := mode.resultIndex_pos
      omega
    have hall : ∀ arg ∈ mode.arguments lead param, IsArgument arg := by
      intro arg harg
      obtain harg | ⟨t, ht, rfl⟩ := mem_arguments harg
      · exact hargs arg harg
      · exact isArgument_of_token hnul hsize ht
    have hargc : (s.num + (mode.resultIndex + 1) : Int) = (mode.arguments lead param).length + 1 := by
      rw [hlen]
      omega
    have hcut : ((s.num + (mode.resultIndex + 1) : Int) - 1).toNat = s.num + mode.resultIndex := by omega
    have hcall : ((s.argv.set (s.num + mode.resultIndex) none).map (Option.map s.argument)).take
        ((s.num + (mode.resultIndex + 1) : Int) - 1).toNat = (mode.arguments lead param).map some := by
      rw [hcut]
      exact htake
    have hteeRun := teeRun_spec env mode.program hlib hfills henv hall hsome hargc hcall
    rw [hret]
    dsimp only
    rw [if_neg (not_not.mpr (rfl : (0 : Int32) = 0))]
    by_cases hfits : env.Ready ∧ FitsPortal (mode.arguments lead param) runParam.envParam
    · rw [if_pos hfits] at hteeRun
      obtain ⟨portal, hteeRun, hrequests⟩ := hteeRun
      rw [hteeRun, if_pos ⟨hcount, hfits⟩]
      exact ⟨portal, rfl, hrequests⟩
    · rw [if_neg hfits] at hteeRun
      obtain ⟨ret, hteeRun⟩ := hteeRun
      rw [hteeRun, if_neg fun h => hfits h.2]
      exact ⟨ret, rfl⟩
  · rw [if_neg hcount] at hparse
    obtain ⟨s, hret⟩ := hparse
    rw [hret, if_neg fun h => hcount h.1]
    exact ⟨-eFault, rfl⟩

section Checks

variable {runPath : List Char} {sessionID : UInt32} {paramVal envParam : Option (List Char)}

theorem any_check_iff (check : List Char → Int32) (o : Option (List Char)) :
    (o.any fun s => check s != 0) = true ↔ ¬ ∀ s ∈ o, check s = 0 := by
  cases o <;> simp

theorem RunMode.doRun_of_unchecked (h : ¬ Checked runPath sessionID paramVal envParam) :
    mode.doRun lib memsetS env lead runPath sessionID paramVal envParam = some (.ret (-eInval)) := by
  rw [RunMode.doRun]
  split_ifs with hparam henvParam hpath hsession
  · rfl
  · rfl
  · rfl
  · rfl
  · rw [any_check_iff, not_not] at hparam henvParam
    exact absurd ⟨hparam, henvParam, not_not.mp hpath, hsession⟩ h

theorem RunMode.doRun_of_triggered (h : Checked runPath sessionID paramVal envParam)
    {portal : RunPortal}
    (hrun : mode.run lib memsetS env lead ⟨sessionID, envParam⟩ paramVal = some (.triggered portal)) :
    mode.doRun lib memsetS env lead runPath sessionID paramVal envParam = some (.triggered portal) := by
  obtain ⟨hparam, henvParam, hpath, hsession⟩ := h
  rw [RunMode.doRun, if_neg (by rwa [any_check_iff, not_not]), if_neg (by rwa [any_check_iff, not_not]),
    if_neg (not_not.mpr hpath), if_neg hsession, hrun]

theorem RunMode.doRun_of_ret (h : Checked runPath sessionID paramVal envParam) {ret : Int32}
    (hrun : mode.run lib memsetS env lead ⟨sessionID, envParam⟩ paramVal = some (.ret ret)) :
    mode.doRun lib memsetS env lead runPath sessionID paramVal envParam = some (.ret (-eFault)) := by
  obtain ⟨hparam, henvParam, hpath, hsession⟩ := h
  rw [RunMode.doRun, if_neg (by rwa [any_check_iff, not_not]), if_neg (by rwa [any_check_iff, not_not]),
    if_neg (not_not.mpr hpath), if_neg hsession, hrun]

end Checks

/-- A character that the check refuses comes from a leading argument. -/
theorem shell_mem_lead (hlegal : ∀ s ∈ param, isLegalParam s = 0) {xargs : List Char}
    (hsplits : xargs.splitOn ' ' = mode.arguments lead param) {c : Char} (hc : c ∈ xargs)
    (hfilter : c ∈ filter) : ∃ arg ∈ lead, c ∈ arg := by
  have hjoined : [' '].intercalate (xargs.splitOn ' ') = xargs := List.intercalate_splitOn ' '
  rw [← hjoined, hsplits] at hc
  obtain rfl | ⟨arg, harg, hmem⟩ := mem_intercalate_space hc
  · exact absurd hfilter (by decide)
  · obtain harg | ⟨t, ht, rfl⟩ := mem_arguments harg
    · exact ⟨arg, harg, hmem⟩
    · obtain ⟨-, -, hpart⟩ := tokens_parts 0 _ t ht
      cases param with
      | none => exact absurd ht List.not_mem_nil
      | some s =>
          have hclean := (isLegalParam_eq_zero_iff s).mp (hlegal s rfl)
          exact absurd hfilter (hclean c (hpart.subset hmem))

end Request

/-- A run that passes the checks and fits is requested with the arguments that the user wrote, and no
character that is refused comes from the parameters; any other run fails. -/
theorem RunMode.doRun_requests (mode : RunMode) (lib : Securec.Strings) (hlib : lib.JoinsWhole)
    (memsetS : List Char → Nat → Char → Nat → List Char) (hfills : Securec.Fills memsetS)
    (env : RunEnv) (lead : List (List Char)) (hlead : lead.length = mode.resultIndex)
    (hargs : ∀ arg ∈ lead, IsArgument arg) (runPath : List Char) (sessionID : UInt32)
    (paramVal envParam : Option (List Char)) (hnul : ∀ s ∈ paramVal, '\x00' ∉ s)
    (hsize : ∀ s ∈ paramVal, s.length < paramLenMax) (htakes : mode.Takes paramVal)
    (henv : ∀ s ∈ envParam, '\x00' ∉ s) :
    if Checked runPath sessionID paramVal envParam ∧ (runParams paramVal).length ≤ mode.maxNum ∧
        env.Ready ∧ FitsPortal (mode.arguments lead paramVal) envParam then
      ∃ portal, mode.doRun lib memsetS env lead runPath sessionID paramVal envParam =
          some (.triggered portal) ∧
        portal.Requests env mode.program (mode.arguments lead paramVal) ⟨sessionID, envParam⟩ ∧
          ∀ c ∈ filter, c ∈ stringAt portal.xargs 0 → ∃ arg ∈ lead, c ∈ arg
    else
      ∃ ret ≠ 0, mode.doRun lib memsetS env lead runPath sessionID paramVal envParam =
        some (.ret ret) := by
  have hrun := RunMode.run_spec env hlib hfills hlead hargs hnul hsize htakes ⟨sessionID, envParam⟩ henv
  by_cases hchecked : Checked runPath sessionID paramVal envParam
  · by_cases hfits : (runParams paramVal).length ≤ mode.maxNum ∧ env.Ready ∧
        FitsPortal (mode.arguments lead paramVal) envParam
    · rw [if_pos hfits] at hrun
      obtain ⟨portal, hrun, hrequests⟩ := hrun
      rw [if_pos ⟨hchecked, hfits⟩]
      refine ⟨portal, RunMode.doRun_of_triggered hchecked hrun, hrequests, fun c hfilter hc => ?_⟩
      exact shell_mem_lead hchecked.1 hrequests.xargs hc hfilter
    · rw [if_neg hfits] at hrun
      obtain ⟨ret, hrun⟩ := hrun
      rw [if_neg fun h => hfits h.2]
      exact ⟨-eFault, by decide, RunMode.doRun_of_ret hchecked hrun⟩
  · rw [if_neg fun h => hchecked h.1]
    exact ⟨-eInval, by decide, RunMode.doRun_of_unchecked hchecked⟩

/-- A Java class with a class path, two parameters and an environment. -/
theorem doRun_java_class :
    ∃ portal : RunPortal, RunMode.javaClass.doRun Securec.Strings.reference Securec.fill
        ⟨.ok ⟨.runElf, 0, 0, [], 0, [], []⟩, .ok ['/'], 5, 0, 0⟩ ["-cp".toList, ['.'], ['M']] ['M'] 7
        (some "-cp d a b".toList) (some "sep=;x=1".toList) = some (.triggered portal) ∧
      (stringAt portal.xargs 0).splitOn ' ' = ["-cp".toList, ['d'], ['M'], ['a'], ['b']] := by
  have hrequest := RunMode.javaClass.doRun_requests Securec.Strings.reference
    Securec.Strings.reference_joinsWhole Securec.fill Securec.fill_fills
    ⟨.ok ⟨.runElf, 0, 0, [], 0, [], []⟩, .ok ['/'], 5, 0, 0⟩ ["-cp".toList, ['.'], ['M']] rfl
    (by simp [IsArgument, isspace, maxArgvLength]) ['M'] 7 (some "-cp d a b".toList)
    (some "sep=;x=1".toList) (by decide) (by decide) (by decide) (by decide)
  rw [if_pos (by decide +kernel)] at hrequest
  obtain ⟨portal, htriggered, hrequests, -⟩ := hrequest
  exact ⟨portal, htriggered, hrequests.xargs⟩

end ITrustee.TeeTeleport
