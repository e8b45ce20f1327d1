import Mathlib.Tactic
import ITrustee.Foundation.Securec
import ITrustee.Foundation.Strtok
import ITrustee.Foundation.Tokens

/-!
# Run parameters

`ParseParam` of `tee_teleport.c` in the memory of its four callers. Each of them has an array `argv` whose
leading elements point to buffers of its own, and passes the rest of the array for the parameters. The
string of parameters is cut into tokens in place. A class path is copied to where the element two before
the first parameter points: in the run of a Java class that is the buffer of the class path.

The memory records what is written: elements of `argv`, buffers of leading arguments, and characters of
the string of parameters. A call ends with a result, or by an access outside `argv`.
-/

namespace ITrustee.TeeTeleport

open CString Tokens

def paramNumMax : Nat := 64

def pathMax : Nat := 4096

def paramLenMax : Nat := pathMax

def gapToClassPath : Nat := 2

def isspace (c : Char) : Bool :=
  c == ' ' || c == '\t' || c == '\n' || c == '\x0b' || c == '\x0c' || c == '\r'

/-- What an element of `argv` points to: the buffer of a leading argument, or a place in the string of
parameters. -/
inductive ArgPtr where
  | lead (n : Nat)
  | param (offset : Nat)
  deriving DecidableEq

inductive ArgWrite where
  | argv (i : Nat)
  | lead (n : Nat)
  | param (i : Nat)
  deriving DecidableEq

/-- `argv`, and the strings in the buffers of the leading arguments. -/
structure RunArgs where
  argv : List (Option ArgPtr)
  lead : List (List Char)
  deriving DecidableEq

structure ParseState extends RunArgs where
  param : List Char
  num : Nat := 0
  start : Nat := 0
  cpFlag : Bool := false
  writes : List ArgWrite := []
  deriving DecidableEq

/-- How a call ends: with a result, or at an access outside `argv`. -/
inductive ParseEnd where
  | ret (ret : Int32) (s : ParseState)
  | outside (s : ParseState)
  deriving DecidableEq

def eFault : Int32 := 14

section Model

variable (lib : Securec.Strings) (result maxNum : Nat)

/-- The string that the last stored element points to. -/
def lastParam (s : ParseState) : List Char :=
  match s.argv[result + (s.num - 1)]? with
  | some (some (.param offset)) => stringAt s.param offset
  | some (some (.lead n)) => s.lead.getD n []
  | _ => []

def storeParam (flag : Nat) (s : ParseState) : ParseState :=
  { s with
    argv := s.argv.set (result + s.num) (some (.param flag))
    num := s.num + 1
    writes := s.writes ++ [.argv (result + s.num)] }

/-- The terminator behind a token. -/
def endToken (stop : Nat) (s : ParseState) : ParseState :=
  { s with param := s.param.set stop '\x00', writes := s.writes ++ [.param stop] }

def isClassPathFlag (token : List Char) : Bool :=
  token == "-classpath".toList || token == "-cp".toList

/-- A flag is not stored as a parameter. -/
def judgeFlag (s : ParseState) : ParseState :=
  if s.num > 0 ∧ isClassPathFlag (lastParam result s) then
    { s with cpFlag := true, num := s.num - 1 }
  else s

/-- The last stored token is the class path. -/
def saveClassPath (s : ParseState) : Except ParseEnd ParseState :=
  if s.cpFlag ∧ s.num > 0 then
    if result < gapToClassPath then .error (.outside s)
    else
      match s.argv[result - gapToClassPath]? with
      | some (some (.lead n)) =>
          match lib.strcpyS pathMax (lastParam result s) with
          | none => .error (.ret (-eFault) s)
          | some classPath =>
              .ok { s with
                lead := s.lead.set n classPath
                num := s.num - 1
                cpFlag := false
                writes := s.writes ++ [.lead n] }
      | _ => .error (.outside s)
  else .ok s

/-- One turn of the loop of `ParseParam`. -/
def parseTurn (s : ParseState) : Except ParseEnd ParseState :=
  let flag := s.start + ((s.param.drop s.start).takeWhile isspace).length
  let empty := s.param.getD flag '\x00' = '\x00'
  if ¬ empty ∧ maxNum ≤ s.num then .error (.ret (-eFault) s)
  else
    let s := if empty then s else storeParam result flag s
    let stop := flag + ((s.param.drop flag).takeWhile fun c => !isspace c && c != '\x00').length
    match saveClassPath lib result (judgeFlag result (endToken stop s)) with
    | .error done => .error done
    | .ok s => .ok { s with start := stop + 1 }

/-- The loop, for at most `fuel` turns. -/
def parseLoop (stop : Nat) : Nat → ParseState → Option ParseEnd
  | 0, _ => none
  | fuel + 1, s =>
      if s.start < stop then
        match parseTurn lib result maxNum s with
        | .error done => some done
        | .ok s => parseLoop stop fuel s
      else some (.ret 0 s)

/-- `ParseParam`; a turn moves on by one character at least. -/
def parseParam (args : RunArgs) (param : Option (List Char)) : Option ParseEnd :=
  match param with
  | none => some (.ret 0 { args with param := [] })
  | some param =>
      parseLoop lib result maxNum param.length (param.length + 1)
        { args with param := param ++ ['\x00'] }

end Model

/-! ### Callers -/

inductive RunMode where
  | javaClass | javaJar | python | elf
  deriving DecidableEq

/-- Where the parameters begin in `argv`, which is the number of leading arguments. -/
def RunMode.resultIndex : RunMode → Nat
  | .javaClass => 3
  | .javaJar => 2
  | .python => 1
  | .elf => 1

def RunMode.maxNum (mode : RunMode) : Nat := paramNumMax - (mode.resultIndex + 1)

/-- `argv` with the leading arguments set. -/
def RunMode.args (mode : RunMode) (lead : List (List Char)) : RunArgs where
  argv := (List.range mode.resultIndex).map (fun n => some (.lead n)) ++
    List.replicate (paramNumMax - mode.resultIndex) none
  lead := lead

/-- The call of `ParseParam` in `TeeRunJavaClass`, `TeeRunJavaJar`, `TeeRunPython` and `TeeRunElf`. -/
def RunMode.parse (mode : RunMode) (lib : Securec.Strings) (lead : List (List Char))
    (param : Option (List Char)) : Option ParseEnd :=
  parseParam lib mode.resultIndex mode.maxNum (mode.args lead) param

end ITrustee.TeeTeleport
