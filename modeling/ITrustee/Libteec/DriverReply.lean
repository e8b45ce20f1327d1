import Mathlib.Tactic
import ITrustee.Libteec.ContextCalls

/-!
# What becomes of a reply of the driver

`TEEC_DoOpenSession` and `ProcessInvokeCommand` translate what the driver returns into the result of the
call and its origin, each by a cascade of its own. A failed `ioctl` returns -1 and leaves the reason in
`errno`: the invocation translates the reason, the opening of a session the -1.
-/

namespace ITrustee.Libteec

def teecOriginComms : UInt32 := 0x2

def eFault : Int := 14
def eNoMem : Int := 12
def eInval : Int := 22

/-- What `ioctl` returns: 0 or a positive number, or -1 with `errno` set. -/
inductive IoctlResult where
  | returned (ret : Nat)
  | failed (errno : Int)
  deriving DecidableEq

def IoctlResult.ret : IoctlResult → Int
  | returned ret => ret
  | failed _ => -1

/-- `errno` after the call, which a call that does not fail leaves as it was. -/
def IoctlResult.errno (before : Int) : IoctlResult → Int
  | returned _ => before
  | failed errno => errno

/-- The result of an `ioctl` and `returns` of the context behind it. -/
structure DriverReply where
  ioctl : IoctlResult
  code : UInt32
  origin : UInt32
  deriving DecidableEq

/-- The result of a call and `returns.origin` of the context. -/
structure ClientResult where
  teecRet : UInt32
  origin : UInt32
  deriving DecidableEq

/-- The loop of `TEEC_DoOpenSession`: the last of the driver's replies, with `i` retries left. -/
def openRequest (replies : Nat → DriverReply) : Nat → DriverReply
  | 0 => replies 0
  | i + 1 =>
      if (replies 0).code = teeErrorCaAuthFail then openRequest (fun n => replies (n + 1)) i
      else replies 0

/-- What `AddSessionList` returns. -/
def addSessionList (lockRet : Int) : UInt32 :=
  if lockRet ≠ 0 then teecErrorGeneric else teecSuccess

def teecDoOpenSession (replies : Nat → DriverReply) (lockRet : Int) : ClientResult :=
  let reply := openRequest replies caAuthRetryTimes
  let ret := reply.ioctl.ret
  if ret < 0 then ⟨translateRetValue ret, teecOriginComms⟩
  else if 0 < ret then
    ⟨if reply.code ≠ 0 then reply.code else teecErrorGeneric, reply.origin⟩
  else ⟨addSessionList lockRet, reply.origin⟩

def processInvokeCommand (errno : Int) (reply : DriverReply) : ClientResult :=
  let ret := reply.ioctl.ret
  if ret = 0 then ⟨teecSuccess, reply.origin⟩
  else if ret < 0 then ⟨translateRetValue (-reply.ioctl.errno errno), teecOriginComms⟩
  else ⟨if reply.code ≠ 0 then reply.code else teecErrorGeneric, reply.origin⟩

/-! ### The two translations -/

/-- The reasons that `TranslateRetValue` knows. -/
def HasOwnError (errno : Int) : Prop := errno = eFault ∨ errno = eNoMem ∨ errno = eInval

instance (errno : Int) : Decidable (HasOwnError errno) :=
  inferInstanceAs (Decidable (_ ∨ _ ∨ _))

/-- Both paths make the same of the first reply, and a failure for a known reason gets its error. -/
def SameResult (replies : Nat → DriverReply) (lockRet errno : Int) : Prop :=
  teecDoOpenSession replies lockRet = processInvokeCommand errno (replies 0) ∧
    ∀ reason, (replies 0).ioctl = .failed reason → HasOwnError reason →
      (teecDoOpenSession replies lockRet).teecRet = translateRetValue (-reason)

/-- The driver does not fail for a known reason, and the session of a success is listed. -/
def PlainReply (lockRet : Int) : IoctlResult → Prop
  | .returned 0 => lockRet = 0
  | .returned (_ + 1) => True
  | .failed errno => ¬HasOwnError errno

section Replies

variable {replies : Nat → DriverReply}

theorem openRequest_first (hretry : (replies 0).code ≠ teeErrorCaAuthFail) (i : Nat) :
    openRequest replies i = replies 0 := by
  cases i with
  | zero => rfl
  | succ i => rw [openRequest, if_neg hretry]

theorem translateRetValue_generic_iff (errno : Int) :
    translateRetValue (-errno) = teecErrorGeneric ↔ ¬HasOwnError errno := by
  rw [translateRetValue, HasOwnError, eFault, eNoMem, eInval]
  split_ifs with hfault hmem hinval
  · exact iff_of_false (by decide) (not_not.mpr (Or.inl (by omega)))
  · exact iff_of_false (by decide) (not_not.mpr (Or.inr (Or.inl (by omega))))
  · exact iff_of_false (by decide) (not_not.mpr (Or.inr (Or.inr (by omega))))
  · exact iff_of_true rfl (by omega)

theorem translateRetValue_minusOne : translateRetValue (-1) = teecErrorGeneric := by decide

/-- The result of the call is the one that a turn of the loop hands on. -/
theorem doOpenSessionStep_result {o : Outcome} {lockRet : Int}
    (hioctl : o.ioctlRet = (replies 0).ioctl.ret) (hcode : o.code = (replies 0).code)
    (hretry : (replies 0).code ≠ teeErrorCaAuthFail) (hfail : o.ioctlRet ≠ 0) (m : SessionTable)
    (h id i : Nat) :
    (doOpenSessionStep o m h id i).2 = .put id (teecDoOpenSession replies lockRet).teecRet := by
  rw [doOpenSessionStep, if_neg fun hc => hretry (hcode.symm.trans hc.1), teecDoOpenSession,
    openRequest_first hretry]
  rw [hcode, ← hioctl]
  by_cases hneg : o.ioctlRet < 0
  · rw [if_pos hneg, if_pos hneg]
  · have hpos : 0 < o.ioctlRet := by omega
    rw [if_neg hneg, if_neg hneg, if_pos hpos, if_pos hpos]

/-- Unless the driver asks for a retry, opening a session and invoking a command agree on its reply
exactly when it does not fail for a reason that has an error of its own, and a session that it opened
is listed. -/
theorem sameResult_iff (lockRet errno : Int) (hretry : (replies 0).code ≠ teeErrorCaAuthFail) :
    SameResult replies lockRet errno ↔ PlainReply lockRet (replies 0).ioctl := by
  rw [SameResult, teecDoOpenSession, processInvokeCommand, openRequest_first hretry]
  cases hreply : (replies 0).ioctl with
  | failed reason =>
      have hret : (IoctlResult.failed reason).ret = -1 := rfl
      have hreason : (IoctlResult.failed reason).errno errno = reason := rfl
      rw [hret, hreason, if_pos (by decide), if_neg (by decide), if_pos (by decide),
        translateRetValue_minusOne, PlainReply, ← translateRetValue_generic_iff]
      constructor
      · rintro ⟨hsame, -⟩
        exact (congrArg ClientResult.teecRet hsame).symm
      · intro hgeneric
        refine ⟨by rw [hgeneric], fun other hother hown => ?_⟩
        obtain rfl := IoctlResult.failed.inj hother
        exact absurd hown ((translateRetValue_generic_iff reason).mp hgeneric)
  | returned ret =>
      have hret : (IoctlResult.returned ret).ret = ret := rfl
      rw [hret]
      cases ret with
      | zero =>
          rw [if_neg (by decide), if_neg (by decide), if_pos Nat.cast_zero, PlainReply,
            addSessionList]
          constructor
          · rintro ⟨hsame, -⟩
            by_contra hlock
            rw [if_pos hlock] at hsame
            exact absurd (congrArg ClientResult.teecRet hsame)
              (show teecErrorGeneric ≠ teecSuccess by decide)
          · intro hlock
            exact ⟨by rw [if_neg (not_not.mpr hlock)], fun reason hfailed => by cases hfailed⟩
      | succ ret =>
          have hpos : 0 < ((ret + 1 : Nat) : Int) := by omega
          rw [if_neg hpos.le.not_gt, if_pos hpos, if_neg hpos.ne', if_neg hpos.le.not_gt, PlainReply]
          exact iff_of_true ⟨rfl, fun reason hfailed => by cases hfailed⟩ trivial

end Replies

theorem busyDriver_sameResult :
    SameResult (fun _ => ⟨.failed 16, 0, 4⟩) 0 0 :=
  (sameResult_iff 0 0 (show (0 : UInt32) ≠ teeErrorCaAuthFail by decide)).mpr
    (show ¬HasOwnError 16 by decide)

/-- Without memory the driver fails with `ENOMEM`: the opening returns a generic error. -/
theorem noMemory_differs :
    teecDoOpenSession (fun _ => ⟨.failed 12, 0, 4⟩) 0 = ⟨teecErrorGeneric, teecOriginComms⟩ ∧
      processInvokeCommand 0 ⟨.failed 12, 0, 4⟩ = ⟨teecErrorOutOfMemory, teecOriginComms⟩ ∧
      ¬ SameResult (fun _ => ⟨.failed 12, 0, 4⟩) 0 0 := by
  have hopen : teecDoOpenSession (fun _ => ⟨.failed 12, 0, 4⟩) 0 =
      ⟨teecErrorGeneric, teecOriginComms⟩ := by decide
  have hinvoke : processInvokeCommand 0 ⟨.failed 12, 0, 4⟩ =
      ⟨teecErrorOutOfMemory, teecOriginComms⟩ := by decide
  refine ⟨hopen, hinvoke, fun hsame => ?_⟩
  have heq := hsame.1
  rw [hopen, hinvoke] at heq
  exact absurd heq (by decide)

end ITrustee.Libteec
