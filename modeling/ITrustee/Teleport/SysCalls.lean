import Mathlib.Tactic
import ITrustee.Foundation.NulStrings
import ITrustee.Teleport.Dispatch
import ITrustee.Teleport.SerializeRoundTrip

/-!
# Handlers that only make a call

Most handlers of `posix_file.c`, `posix_network.c` and `posix_other.c` read the arguments of one function
of the C library from the request, call it with them, and return what it returns. The function reads and
writes in the argument region, at the pointers it is given. What it does there is the parameter `Os`: it
sees what the pointers lead to, and not where they point.

A call is over any type of pointers. The proxy has offsets of the argument region, the application that
made the request has the arguments of its request, and the function has strings and bytes.
-/

namespace ITrustee.Teleport.Remote

open CInt Serialize

/-! ### Functions of the C library -/

/-- The structures whose size depends on the platform. -/
inductive CStruct where
  | stat | statfs | epollEvent

/-- How much of a buffer a function uses. -/
inductive Extent where
  | fixed (n : Nat)
  | struct (t : CStruct)
  /-- As much as the parameter with this number says. -/
  | param (i : Nat)
  /-- As much as the `socklen_t` says that the parameter with this number points to. -/
  | pointed (i : Nat)

inductive Access where
  | input | output | inout

inductive CType where
  | int | uint | long | ulong
  | path
  | buffer (access : Access) (extent : Extent)

inductive RetType where
  | int | uint | long
  deriving DecidableEq

inductive SysFunc where
  | «open» | openat | read | write | access | faccessat | lseek | chdir | fchdir | chmod | fchmod
  | fchmodat | stat | fstat | statfs | fstatfs | lstat | fstatat | symlink | symlinkat | readlink
  | readlinkat | fsync | truncate | ftruncate | rename | renameat | mkdir | umask | unlink | sendfile
  | remove | rmdir
  | socket | connect | bind | listen | accept | accept4 | shutdown | getsockname | getsockopt
  | setsockopt | getpeername
  | epollCreate1 | epollCtl | eventfd
  deriving DecidableEq

/-- The prototypes. The mode of `open` and `openat` is read as a `mode_t`. -/
def SysFunc.params : SysFunc → List CType
  | .«open» => [.path, .int, .uint]
  | .openat => [.int, .path, .int, .uint]
  | .read => [.int, .buffer .output (.param 2), .ulong]
  | .write => [.int, .buffer .input (.param 2), .ulong]
  | .access => [.path, .int]
  | .faccessat => [.int, .path, .int, .int]
  | .lseek => [.int, .long, .int]
  | .chdir | .unlink | .remove | .rmdir => [.path]
  | .fchdir | .fsync | .epollCreate1 => [.int]
  | .chmod | .mkdir => [.path, .uint]
  | .fchmod => [.int, .uint]
  | .fchmodat => [.int, .path, .uint, .int]
  | .stat | .lstat => [.path, .buffer .output (.struct .stat)]
  | .fstat => [.int, .buffer .output (.struct .stat)]
  | .statfs => [.path, .buffer .output (.struct .statfs)]
  | .fstatfs => [.int, .buffer .output (.struct .statfs)]
  | .fstatat => [.int, .path, .buffer .output (.struct .stat), .int]
  | .symlink | .rename => [.path, .path]
  | .symlinkat => [.path, .int, .path]
  | .readlink => [.path, .buffer .output (.param 2), .ulong]
  | .readlinkat => [.int, .path, .buffer .output (.param 3), .ulong]
  | .truncate => [.path, .long]
  | .ftruncate => [.int, .long]
  | .renameat => [.int, .path, .int, .path]
  | .umask => [.uint]
  | .sendfile => [.int, .int, .buffer .inout (.fixed 8), .ulong]
  | .socket => [.int, .int, .int]
  | .connect | .bind => [.int, .buffer .input (.param 2), .uint]
  | .listen | .shutdown => [.int, .int]
  | .accept | .getsockname | .getpeername =>
      [.int, .buffer .output (.pointed 2), .buffer .inout (.fixed 4)]
  | .accept4 => [.int, .buffer .output (.pointed 2), .buffer .inout (.fixed 4), .int]
  | .getsockopt => [.int, .int, .int, .buffer .inout (.pointed 4), .buffer .inout (.fixed 4)]
  | .setsockopt => [.int, .int, .int, .buffer .input (.param 4), .uint]
  | .epollCtl => [.int, .int, .int, .buffer .input (.struct .epollEvent)]
  | .eventfd => [.uint, .int]

/-- What a function returns. The length of a path, which `readlink` returns, is an `int`. -/
def SysFunc.ret : SysFunc → RetType
  | .read | .write | .lseek | .sendfile => .long
  | .umask => .uint
  | _ => .int

def RetType.Holds (r : Int) : RetType → Prop
  | .int => -2 ^ 31 ≤ r ∧ r < 2 ^ 31
  | .uint => 0 ≤ r ∧ r < 2 ^ 32
  | .long => -2 ^ 63 ≤ r ∧ r < 2 ^ 63

/-- A variable of the type, which a result is assigned to. -/
def RetType.store (r : Int) : RetType → Int
  | .int => i32 r
  | .uint => toU32 r
  | .long => r

theorem RetType.store_eq {t : RetType} {r : Int} (h : t.Holds r) : t.store r = r := by
  cases t with
  | int => exact i32_of_range h.1 h.2
  | uint =>
      rw [RetType.store, toU32, Int.toNat_of_nonneg (Int.emod_nonneg _ (by norm_num))]
      exact Int.emod_eq_of_lt h.1 h.2
  | long => rfl

/-! ### Calls -/

inductive SysArg (P : Type) where
  | scalar (n : Int)
  | ptr (p : P)

structure SysCall (P : Type) where
  func : SysFunc
  args : List (SysArg P)

/-- What a request has for an argument. -/
inductive Passed (P : Type) where
  | integer (value : UInt64)
  | point (p : P)

/-- What a function sees of an argument. An empty buffer is as good as none. -/
inductive Seen where
  | null
  | text (s : List UInt8)
  | data (bytes : List UInt8)
  /-- A buffer that is only written. -/
  | room (n : Nat)
  deriving DecidableEq

def Seen.size : Seen → Nat
  | .null => 0
  | .text s => s.length
  | .data bytes => bytes.length
  | .room n => n

def Access.seen (bytes : List UInt8) : Access → Seen
  | .output => if bytes.length = 0 then .null else .room bytes.length
  | .input | .inout => if bytes.length = 0 then .null else .data bytes

theorem Access.size_seen (access : Access) (bytes : List UInt8) : (access.seen bytes).size = bytes.length := by
  cases access <;> rw [Access.seen] <;> split_ifs with h <;> first | exact h.symm | rfl

section Calls

variable {P : Type}

/-- An argument of the request as a parameter: integers are converted to the type of the parameter. -/
def CType.pass : CType → Passed P → Option (SysArg P)
  | .int, .integer value => some (.scalar (asInt value).toInt)
  | .uint, .integer value => some (.scalar value.toUInt32.toNat)
  | .long, .integer value => some (.scalar value.toInt64.toInt)
  | .ulong, .integer value => some (.scalar value.toNat)
  | .path, .point p | .buffer _ _, .point p => some (.ptr p)
  | _, _ => none

def passAll : List CType → List (Passed P) → Option (List (SysArg P))
  | [], [] => some []
  | type :: types, arg :: args => (type.pass arg).bind fun a => (passAll types args).map (a :: ·)
  | _, _ => none

def CType.writes : CType → Bool
  | .buffer .output _ | .buffer .inout _ => true
  | _ => false

def SysArg.ptrs : SysArg P → List P
  | .scalar _ => []
  | .ptr p => [p]

/-- The buffers that a function writes. -/
def writable : List CType → List (SysArg P) → List P
  | type :: types, arg :: args => (if type.writes then arg.ptrs else []) ++ writable types args
  | _, _ => []

def SysCall.writable (call : SysCall P) : List P := Remote.writable call.func.params call.args

/-- What pointers lead to. -/
structure Reader (P : Type) where
  text : P → Option Seen
  /-- So many bytes; none from a null pointer. -/
  bytes : P → Access → Nat → Option (List UInt8)

variable (sizeof : CStruct → Nat) (r : Reader P)

def Extent.size (args : List (SysArg P)) : Extent → Option Nat
  | .fixed n => some n
  | .struct t => some (sizeof t)
  | .param i =>
      match args[i]? with
      | some (.scalar n) => some n.toNat
      | _ => none
  | .pointed i =>
      match args[i]? with
      | some (.ptr p) => (r.bytes p .input 4).map Bytes.value
      | _ => none

def CType.look (args : List (SysArg P)) (p : P) : CType → Option Seen
  | .path => r.text p
  | .buffer access extent =>
      (extent.size sizeof r args).bind fun n => (r.bytes p access n).map access.seen
  | _ => none

def seeArgs (args : List (SysArg P)) : List CType → List (SysArg P) → Option (List (SysArg Seen))
  | [], [] => some []
  | _ :: types, .scalar n :: rest => (seeArgs args types rest).map (.scalar n :: ·)
  | type :: types, .ptr p :: rest =>
      (type.look sizeof r args p).bind fun seen => (seeArgs args types rest).map (.ptr seen :: ·)
  | _, _ => none

/-- What the function sees. There is no call when it reads outside of what is there. -/
def SysCall.see (call : SysCall P) : Option (SysCall Seen) :=
  (seeArgs sizeof r call.args call.func.params call.args).map (⟨call.func, ·⟩)

end Calls

structure SysReply where
  ret : Int
  /-- The `errno` of a call that fails; another one leaves it alone. -/
  errno : Option Int32
  /-- What is written to each of the buffers, from its start on. -/
  outs : List (List UInt8)

/-- The functions of the C library over the state of the system. -/
structure Os (σ : Type) where
  sizeof : CStruct → Nat
  perform : SysCall Seen → σ → SysReply × σ
  ret_holds : ∀ (call : SysCall Seen) s, call.func.ret.Holds (perform call s).1.ret
  errno_iff : ∀ call s, (perform call s).1.errno.isSome = true ↔ (perform call s).1.ret = -1
  outs_fit : ∀ call s, List.Forall₂ (fun out seen => out.length ≤ seen.size)
    (perform call s).1.outs call.writable
  read_outs : ∀ (call : SysCall Seen) s, call.func = .read → ∀ out ∈ (perform call s).1.outs,
    out.length = (perform call s).1.ret.toNat

/-! ### Handlers -/

section Handlers

variable {P : Type}

/-- The parameters of the function, each an argument of the request or the argument region itself. -/
def arrange (start : P) (args : List (Passed P)) : List (Option Nat) → Option (List (Passed P))
  | [] => some []
  | some i :: order => args[i]?.bind fun a => (arrange start args order).map (a :: ·)
  | none :: order => (arrange start args order).map (.point start :: ·)

/-- The arguments of the request that are written. -/
def written : List CType → List (Option Nat) → List (Option Nat)
  | type :: types, source :: order => (if type.writes then [source] else []) ++ written types order
  | _, _ => []

/-- Either the region is the only thing written, or some arguments of the request are. -/
def Apart (targets : List (Option Nat)) : Prop :=
  targets = [none] ∨ none ∉ targets ∧ targets.Nodup

instance (targets : List (Option Nat)) : Decidable (Apart targets) :=
  inferInstanceAs (Decidable (_ ∨ _))

/-- A handler that hands the arguments of a request to a function. -/
structure Forwarding where
  types : List ArgRef
  func : SysFunc
  /-- The type of the variable that is returned. -/
  var : RetType := .int
  /-- The arguments of the request, in the order of the parameters; the region is none of them. -/
  order : List (Option Nat) := (List.range types.length).map some
  /-- The `errno` when the arguments cannot be read. -/
  refusal : Option Int32 := some (Int32.ofInt eInval)
  apart : Apart (written func.params order) := by decide
  read_region : none ∈ order → func = .read := by decide
  var_eq : var = func.ret := by decide

def Forwarding.call (f : Forwarding) (start : P) (args : List (Passed P)) : Option (SysCall P) :=
  (arrange start args f.order).bind fun args => (passAll f.func.params args).map (⟨f.func, ·⟩)

def passed : RetArg → Passed (Option Nat)
  | .integer value => .integer value
  | .point ref _ => .point ref

/-- Pointers into the argument region. -/
def regionReader (region : List UInt8) : Reader (Option Nat) where
  text
    | none => some .null
    | some off => (NulStrings.read (region.drop off)).map (.text ·.1)
  bytes
    | none, _, _ => some []
    | some off, _, n => if off + n ≤ region.length then some (Bytes.slice region off n) else none

def writeBack (region : List UInt8) : List (Option Nat) → List (List UInt8) → List UInt8
  | some off :: targets, out :: outs => writeBack (Bytes.store region off out) targets outs
  | none :: targets, _ :: outs => writeBack region targets outs
  | _, _ => region

structure Worked (σ : Type) where
  ret : Int
  errno : Option Int32
  region : List UInt8
  os : σ

/-- The handler. There is no result when it reads more arguments than `DeSerialize` has stored, or when
the function leaves the memory of the message. -/
def Forwarding.work {σ : Type} (f : Forwarding) (os : Os σ) (argsCnt : UInt32) (argsSz : UInt64)
    (region : List UInt8) (s : σ) : Option (Worked σ) :=
  if argsCnt.toNat ≠ f.types.length then none
  else
    match deSerialize f.types (some region) argsSz.toUInt32 with
    | .error _ => some ⟨-1, f.refusal, region, s⟩
    | .ok decoded =>
        match f.call (some 0) (decoded.map fun d => passed d.arg) with
        | none => none
        | some call =>
            (call.see os.sizeof (regionReader region)).map fun seen =>
              let (reply, s) := os.perform seen s
              ⟨f.var.store reply.ret, reply.errno, writeBack region call.writable reply.outs, s⟩

end Handlers

end ITrustee.Teleport.Remote
