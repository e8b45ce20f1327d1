import Mathlib.Tactic
import ITrustee.Teleport.RemoteReplies

/-!
# Programs that make their calls through the proxy

A program makes calls one after the other, and what it does next depends on what they return. It can make
them itself (`runLocal`), or serialize each into the block it shares with the proxy, wait for the proxy to
serve it, and read the reply there (`runRemote`). The second comes to the same as the first, for the system
and for the program.

The layout of the block is that of a `PosixCall`; the application's side of it is not part of the
repository.
-/

namespace ITrustee.Teleport.Remote

open CInt Serialize

/-! ### One request -/

/-- The call that the application means with these arguments, and what the function sees of it. -/
def Forwarding.request {σ : Type} (f : Forwarding) (os : Os σ) (values : List Value) (capacity : Nat) :
    Option (SysCall Target × SysCall Seen) :=
  if values.map Value.ref = f.types then
    (f.call .region (passedValues values)).bind fun call =>
      (call.see os.sizeof (requestReader values capacity)).map (call, ·)
  else none

section Request

variable {σ : Type} {os : Os σ} {f : Forwarding} {values : List Value}

theorem mem_of_mem_written {types : List CType} {order : List (Option Nat)} {source : Option Nat}
    (h : source ∈ written types order) : source ∈ order := by
  induction types generalizing order with
  | nil => cases order <;> cases h
  | cons type types ih =>
      cases order with
      | nil => cases h
      | cons head order =>
          rw [written, List.mem_append] at h
          obtain h | h := h
          · split_ifs at h
            · rw [List.mem_singleton.mp h]
              exact List.mem_cons_self
            · cases h
          · exact List.mem_cons_of_mem _ (ih h)

theorem request_some {capacity : Nat} {call : SysCall Target} {seen : SysCall Seen}
    (h : f.request os values capacity = some (call, seen)) :
    values.map Value.ref = f.types ∧ f.call .region (passedValues values) = some call ∧
      call.see os.sizeof (requestReader values capacity) = some seen := by
  rw [Forwarding.request] at h
  split_ifs at h with htypes
  obtain ⟨call', hcall, h⟩ := Option.bind_eq_some_iff.mp h
  obtain ⟨seen', hseen, h⟩ := Option.map_eq_some_iff.mp h
  cases h
  exact ⟨htypes, hcall, hseen⟩

theorem call_func {P : Type} {start : P} {args : List (Passed P)} {call : SysCall P}
    (h : f.call start args = some call) : call.func = f.func := by
  obtain ⟨_, -, hpass⟩ := Option.bind_eq_some_iff.mp h
  obtain ⟨_, -, rfl⟩ := Option.map_eq_some_iff.mp hpass
  rfl

theorem see_some {P : Type} {sizeof : CStruct → Nat} {r : Reader P} {call : SysCall P} {seen : SysCall Seen}
    (h : call.see sizeof r = some seen) :
    seen.func = call.func ∧ seeArgs sizeof r call.args call.func.params call.args = some seen.args := by
  obtain ⟨args, hargs, rfl⟩ := Option.map_eq_some_iff.mp h
  exact ⟨rfl, hargs⟩

theorem outs_fit_request {capacity : Nat} {call : SysCall Target} {seen : SysCall Seen}
    (h : call.see os.sizeof (requestReader values capacity) = some seen) (s : σ) :
    List.Forall₂ (Fits values capacity) (os.perform seen s).1.outs call.writable := by
  obtain ⟨hfunc, hargs⟩ := see_some h
  have houts := os.outs_fit seen s
  rw [SysCall.writable, hfunc] at houts
  exact seeArgs_fits hargs houts

/-- What the handler leaves in the region is what the application reads there. -/
theorem writeBack_request {tail : List UInt8} {call : SysCall Target} {seen : SysCall Seen}
    (h : f.request os values (message values ++ tail).length = some (call, seen)) (s : σ)
    {ptrs : List (Option Nat)} (hleads : List.Forall₂ (Leads values) ptrs call.writable) :
    let reply := (os.perform seen s).1
    let region := writeBack (message values ++ tail) ptrs reply.outs
    region.length = (message values ++ tail).length ∧
      call.writable.map (readOut values region reply.ret) =
        List.zipWith (localOut values) call.writable reply.outs := by
  intro reply region
  obtain ⟨-, hcall, hsee⟩ := request_some h
  have hfit := outs_fit_request hsee s
  have hwritable := writable_call hcall
  obtain honly | ⟨hnone, hnodup⟩ := f.apart
  · -- The region is the only buffer, and the function is `read`.
    have hread := os.read_outs seen s (((see_some hsee).1.trans (call_func hcall)).trans
      (f.read_region (mem_of_mem_written (honly ▸ List.mem_singleton_self none))))
    rw [honly] at hwritable
    change call.writable = [.region] at hwritable
    rw [hwritable] at hleads hfit ⊢
    obtain _ | ⟨rfl, _ | _⟩ := hleads
    change List.Forall₂ _ reply.outs _ at hfit
    cases houts : reply.outs with
    | nil =>
        rw [houts] at hfit
        cases hfit
    | cons out outs =>
        rw [houts] at hfit
        obtain _ | ⟨hhead, _ | _⟩ := hfit
        have hlength : out.length = reply.ret.toNat :=
          hread out (show out ∈ reply.outs from houts ▸ List.mem_singleton_self out)
        have hregion : region = Bytes.store (message values ++ tail) 0 out := by
          simp only [region, houts, writeBack]
        rw [hregion]
        refine ⟨length_store_zero hhead, ?_⟩
        rw [List.map_singleton, List.zipWith_cons_cons, List.zipWith_nil_left, readOut, localOut,
          Bytes.store_zero, ← hlength, List.take_left]
  · have hregion : .region ∉ call.writable := by
      rw [hwritable]
      intro hmem
      obtain ⟨source, hsource, htarget⟩ := List.mem_map.mp hmem
      cases source with
      | none => exact hnone hsource
      | some i => cases htarget
    have htargets : call.writable.Nodup := by
      rw [hwritable]
      refine hnodup.map ?_
      intro a b hab
      cases a <;> cases b <;> cases hab <;> rfl
    have hwrites : region = message (overwriteAll values call.writable reply.outs) ++ tail :=
      writeBack_message hleads hregion hfit
    obtain ⟨-, -, hsize⟩ := payloadAt_overwriteAll hregion hfit 0
    rw [hwrites, List.length_append, List.length_append, length_message, length_message, hsize]
    exact ⟨rfl, readOuts_message htargets hregion hfit reply.ret⟩

/-- The handler makes the call that the application means, and returns what it returns. -/
theorem work_request {tail : List UInt8} {call : SysCall Target} {seen : SysCall Seen}
    (h : f.request os values (message values ++ tail).length = some (call, seen)) {argsCnt : UInt32}
    (hcount : argsCnt.toNat = f.types.length) {argsSz : UInt64}
    (hroom : totalSize values ≤ argsSz.toUInt32.toNat) (s : σ) :
    ∃ region, f.work os argsCnt argsSz (message values ++ tail) s =
        some ⟨(os.perform seen s).1.ret, (os.perform seen s).1.errno, region, (os.perform seen s).2⟩ ∧
      region.length = (message values ++ tail).length ∧
      call.writable.map (readOut values region (os.perform seen s).1.ret) =
        List.zipWith (localOut values) call.writable (os.perform seen s).1.outs := by
  obtain ⟨htypes, hcall, hsee⟩ := request_some h
  obtain ⟨args, hargs, hleads⟩ := call_leads hcall
  have hptrs := writable_leads hleads call.func.params
  obtain ⟨hfunc, hseeArgs⟩ := see_some hsee
  have hseen : SysCall.see os.sizeof (regionReader (message values ++ tail)) ⟨call.func, args⟩ =
      some seen := by
    rw [SysCall.see, seeArgs_leads hleads hleads hseeArgs, Option.map_some, ← hfunc]
  have hret : f.var.store (os.perform seen s).1.ret = (os.perform seen s).1.ret := by
    refine RetType.store_eq ?_
    rw [f.var_eq, ← call_func hcall, ← hfunc]
    exact os.ret_holds seen s
  refine ⟨_, ?_, writeBack_request h s hptrs⟩
  rw [Forwarding.work, if_neg (not_not.mpr hcount), ← htypes, deSerialize_layout values tail _ hroom]
  dsimp only
  rw [hargs]
  dsimp only
  rw [hseen, Option.map_some, hret]
  rfl

end Request

/-! ### Programs -/

/-- What a program gets from a call: what it finds in its buffers is part of it. -/
structure Result where
  ret : Int
  errno : Option Int32
  outs : List (List UInt8)
  deriving DecidableEq

inductive Prog (α : Type) where
  | done (a : α)
  | call (type func : UInt32) (values : List Value) (next : Result → Prog α)

/-- The program makes its calls itself. There is no result where a call has no handler of this kind, does
not match its prototype, or is too large for the shared block. -/
def Prog.runLocal {σ α : Type} (os : Os σ) (capacity : Nat) : Prog α → σ → Option (α × σ)
  | .done a, s => some (a, s)
  | .call type func values next, s =>
      (forwardingAt type.toNat func.toNat).bind fun (_, f) =>
        if totalSize values ≤ capacity then
          (f.request os values capacity).bind fun (c, seen) =>
            let (reply, s) := os.perform seen s
            (next ⟨reply.ret, reply.errno, List.zipWith (localOut values) c.writable reply.outs⟩).runLocal
              os capacity s
        else none

/-- The shared block with a `PosixCall`, whose error is not set. -/
def posixCall (type func : UInt32) (argsSz : Nat) (args : List UInt8) : List UInt8 :=
  Bytes.le 4 type.toNat ++ (Bytes.le 4 func.toNat ++ (Bytes.le 8 0 ++ (Bytes.le 8 argsSz ++ args)))

/-- A request in the shared block. -/
def send (lib : Securec) (type func : UInt32) (values : List Value) (shared : List UInt8) :
    Option (List UInt8) :=
  let (ret, args) := serialize lib (values.map Value.arg) (some (shared.drop 24))
    (.ofNat (shared.drop 24).length)
  if ret ≠ 0 then none
  else some (posixCall type func (calculateBuffSize (values.map Value.arg)).2 args)

/-- What the application reads in the block, and the value that the proxy returned. -/
def receive {σ : Type} (f : Forwarding) (values : List Value) (served : Served σ) : Result where
  ret := served.ret
  errno := if served.ret = -1 then some (UInt32.ofNat (Bytes.load 4 served.membuf 8)).toInt32 else none
  outs := (f.call .region (passedValues values)).elim [] fun call =>
    call.writable.map (readOut values (served.membuf.drop 24) served.ret)

/-- The program sends its calls to the proxy, whose `errno` is anything before it serves the `k`-th. -/
def Prog.runRemote {σ α : Type} (os : Os σ) (lib : Securec) (errno : Nat → Int32) :
    Nat → Prog α → List UInt8 → σ → Option (α × σ)
  | _, .done a, _, s => some (a, s)
  | k, .call type func values next, shared, s =>
      (forwardingAt type.toNat func.toNat).bind fun (_, f) =>
        (send lib type func values shared).bind fun membuf =>
          (posixDataServe os (errno k) membuf s).bind fun served =>
            (next (receive f values served)).runRemote os lib errno (k + 1) served.membuf served.os

/-! ### The block -/

section Block

variable {σ : Type} {os : Os σ} {values : List Value}

theorem length_posixCall (type func : UInt32) (argsSz : Nat) (args : List UInt8) :
    (posixCall type func argsSz args).length = 24 + args.length := by
  rw [posixCall, List.length_append, List.length_append, List.length_append, List.length_append,
    Bytes.le_length, Bytes.le_length, Bytes.le_length, Bytes.le_length]
  omega

theorem loadPosixCall_posixCall {type func : UInt32} {argsSz : Nat} (hsize : argsSz < 2 ^ 64)
    (args : List UInt8) :
    loadPosixCall (posixCall type func argsSz args) =
      ⟨type.toNat, func.toNat, .ofNat argsSz, args⟩ := by
  have htype := Bytes.load_le_append 4 type.toNat
    (Bytes.le 4 func.toNat ++ (Bytes.le 8 0 ++ (Bytes.le 8 argsSz ++ args)))
  have hfunc := Bytes.load_append 4 (Bytes.le 4 type.toNat)
    (Bytes.le 4 func.toNat ++ (Bytes.le 8 0 ++ (Bytes.le 8 argsSz ++ args))) 0
  have hargsSz := Bytes.load_append 8 (Bytes.le 4 type.toNat ++ (Bytes.le 4 func.toNat ++ Bytes.le 8 0))
    (Bytes.le 8 argsSz ++ args) 0
  have hargs : (posixCall type func argsSz args).drop 24 = args := by
    rw [posixCall, ← List.append_assoc, ← List.append_assoc, ← List.append_assoc]
    exact List.drop_left' (by simp only [List.length_append, Bytes.le_length])
  have hword (n : UInt32) : n.toNat % 256 ^ 4 = n.toNat := Nat.mod_eq_of_lt n.toNat_lt
  rw [hword] at htype
  rw [Bytes.load_le_append, hword, Bytes.le_length] at hfunc
  rw [Bytes.load_le_append, show argsSz % 256 ^ 8 = argsSz from Nat.mod_eq_of_lt hsize] at hargsSz
  simp only [List.length_append, Bytes.le_length, List.append_assoc, Nat.add_zero, Nat.reduceAdd]
    at hargsSz hfunc
  rw [← posixCall] at htype hfunc hargsSz
  rw [loadPosixCall, hargs, htype, hfunc, hargsSz]

theorem posixDataServe_forward {errno : Int32} {membuf : List UInt8} {s : σ} {argsCnt : UInt32}
    {f : Forwarding}
    (h : forwardingAt (loadPosixCall membuf).type (loadPosixCall membuf).func = some (argsCnt, f)) :
    posixDataServe os errno membuf s =
      (f.work os argsCnt (loadPosixCall membuf).argsSz (loadPosixCall membuf).args s).map fun w =>
        ⟨w.ret, setErr (membuf.take 24 ++ w.region) (w.errno.getD errno), w.os⟩ := by
  obtain ⟨funcs, hfuncs, h⟩ := Option.bind_eq_some_iff.mp h
  obtain ⟨entry, hentry, h⟩ := Option.bind_eq_some_iff.mp h
  obtain ⟨funcPtr, hptr, h⟩ := Option.bind_eq_some_iff.mp h
  obtain ⟨g, hg, h⟩ := Option.map_eq_some_iff.mp h
  cases h
  have hlt := (List.getElem?_eq_some_iff.mp hentry).choose
  rw [posixDataServe, hfuncs]
  dsimp only
  rw [if_neg (by omega), hentry]
  dsimp only
  rw [hptr]
  exact (congrArg (Option.bind · _) hg).trans (Option.bind_some _ _)

theorem load_setErr {membuf : List UInt8} (hlength : 24 ≤ membuf.length) (err : Int32) :
    (UInt32.ofNat (Bytes.load 4 (setErr membuf err) 8)).toInt32 = err := by
  rw [setErr, Bytes.load_store_le _ (by omega),
    show err.toUInt32.toNat % 256 ^ 4 = err.toUInt32.toNat from Nat.mod_eq_of_lt err.toUInt32.toNat_lt,
    UInt32.ofNat_toNat]
  rfl

theorem drop_setErr {membuf : List UInt8} (hlength : 24 ≤ membuf.length) (err : Int32) :
    (setErr membuf err).drop 24 = membuf.drop 24 := by
  have hle := Bytes.le_length 4 err.toUInt32.toNat
  exact Bytes.drop_store (by omega) (by omega)

theorem length_setErr {membuf : List UInt8} (hlength : 24 ≤ membuf.length) (err : Int32) :
    (setErr membuf err).length = membuf.length := by
  have hle := Bytes.le_length 4 err.toUInt32.toNat
  exact Bytes.store_length (by omega)

theorem send_eq {lib : Securec} (hlib : lib.CopiesWithinMax) {type func : UInt32} {shared : List UInt8}
    (hmax : shared.length ≤ 2 ^ 31 - 1) (hroom : totalSize values ≤ shared.length - 24) :
    send lib type func values shared = some (posixCall type func (totalSize values)
      (message values ++ (shared.drop 24).drop (totalSize values))) := by
  have hlength : (shared.drop 24).length = shared.length - 24 := List.length_drop
  have hserialize := serialize_eq hlib values (shared.drop 24) (.ofNat (shared.drop 24).length)
    (UInt32.toNat_ofNat_of_lt (show (shared.drop 24).length < 2 ^ 32 by omega))
    (show (shared.drop 24).length ≤ 2 ^ 31 - 1 by omega) (by omega)
  rw [send, hserialize, calculateBuffSize_eq values (by omega)]
  exact if_neg (not_not.mpr rfl)

/-- A request through the shared block, and the reply in it. -/
theorem serve_request {f : Forwarding} {type func argsCnt : UInt32}
    (hentry : forwardingAt type.toNat func.toNat = some (argsCnt, f)) {tail : List UInt8}
    {call : SysCall Target} {seen : SysCall Seen}
    (hrequest : f.request os values (message values ++ tail).length = some (call, seen))
    (hsize : totalSize values < 2 ^ 32) (errno : Int32) (s : σ) :
    ∃ served, posixDataServe os errno (posixCall type func (totalSize values) (message values ++ tail)) s =
        some served ∧ served.membuf.length = 24 + (message values ++ tail).length ∧
      served.os = (os.perform seen s).2 ∧
      receive f values served = ⟨(os.perform seen s).1.ret, (os.perform seen s).1.errno,
        List.zipWith (localOut values) call.writable (os.perform seen s).1.outs⟩ := by
  have hload : loadPosixCall (posixCall type func (totalSize values) (message values ++ tail)) =
      ⟨type.toNat, func.toNat, .ofNat (totalSize values), message values ++ tail⟩ :=
    loadPosixCall_posixCall (by omega) _
  have hserve := @posixDataServe_forward σ os errno
    (posixCall type func (totalSize values) (message values ++ tail)) s argsCnt f (by rw [hload]; exact hentry)
  have hargsSz : (UInt64.ofNat (totalSize values)).toUInt32.toNat = totalSize values := by
    have hlt : totalSize values < 2 ^ 64 := by omega
    rw [UInt64.toNat_toUInt32, UInt64.toNat_ofNat', Nat.mod_eq_of_lt hlt]
    exact Nat.mod_eq_of_lt hsize
  obtain ⟨region, hwork, hlength, houts⟩ :=
    work_request hrequest (forwardingAt_argsCnt hentry) hargsSz.ge s
  rw [hload] at hserve
  dsimp only at hserve
  rw [hwork, Option.map_some] at hserve
  have htake : ((posixCall type func (totalSize values) (message values ++ tail)).take 24).length = 24 := by
    rw [List.length_take_of_le]
    rw [length_posixCall]
    omega
  have hblock : 24 ≤ ((posixCall type func (totalSize values) (message values ++ tail)).take 24 ++
      region).length := by
    rw [List.length_append, htake]
    omega
  refine ⟨_, hserve, ?_, rfl, ?_⟩
  · dsimp only
    rw [length_setErr hblock, List.length_append, htake, hlength]
  · have hdrop := drop_setErr hblock ((os.perform seen s).1.errno.getD errno)
    rw [List.drop_left' htake] at hdrop
    have herrno := os.errno_iff seen s
    rw [receive]
    dsimp only
    rw [hdrop, (request_some hrequest).2.1, Option.elim_some, houts, load_setErr hblock]
    congr 1
    split_ifs with hfailed
    · obtain ⟨e, he⟩ := Option.isSome_iff_exists.mp (herrno.mpr hfailed)
      rw [he, Option.getD_some]
    · exact (Option.not_isSome_iff_eq_none.mp fun hsome => hfailed (herrno.mp hsome)).symm

end Block

/-- A program that makes its calls through the proxy does what it does when it makes them itself. -/
theorem runRemote_eq_runLocal {σ α : Type} (os : Os σ) (lib : Securec) (hlib : lib.CopiesWithinMax)
    (errno : Nat → Int32) (p : Prog α) (k : Nat) (shared : List UInt8) (hhead : 24 ≤ shared.length)
    (hmax : shared.length ≤ 2 ^ 31 - 1) (s : σ) (r : α × σ)
    (h : p.runLocal os (shared.length - 24) s = some r) :
    p.runRemote os lib errno k shared s = some r := by
  induction p generalizing k shared s with
  | done a => exact h
  | call type func values next ih =>
      obtain ⟨⟨argsCnt, f⟩, hentry, h⟩ := Option.bind_eq_some_iff.mp h
      dsimp only at h
      split_ifs at h with hroom
      obtain ⟨⟨c, seen⟩, hrequest, h⟩ := Option.bind_eq_some_iff.mp h
      have hlength : (message values ++ (shared.drop 24).drop (totalSize values)).length =
          shared.length - 24 := by
        rw [List.length_append, length_message, List.length_drop, List.length_drop]
        omega
      rw [← hlength] at hrequest
      obtain ⟨served, hserve, hblock, hos, hreceive⟩ :=
        serve_request hentry hrequest (by omega) (errno k) s
      rw [hlength, Nat.add_sub_cancel' hhead] at hblock
      rw [Prog.runRemote, hentry, Option.bind_some]
      dsimp only
      rw [send_eq hlib hmax hroom, Option.bind_some, hserve, Option.bind_some, hreceive, hos]
      exact ih _ _ _ (by omega) (by omega) _ (by rw [hblock]; exact h)

/-! ### A file -/

/-- A system with one file, and the place in it. -/
structure OneFile where
  content : List UInt8
  pos : Nat
  deriving DecidableEq

def OneFile.perform (call : SysCall Seen) (s : OneFile) : SysReply × OneFile :=
  let nothing := call.writable.map fun _ => []
  match call.func, call.args with
  | .«open», _ => (⟨3, none, nothing⟩, s)
  | .umask, _ => (⟨0, none, nothing⟩, s)
  | .write, [_, .ptr (.data bytes), _] =>
      if bytes.length < 2 ^ 31 then
        (⟨bytes.length, none, nothing⟩, { s with content := s.content ++ bytes })
      else (⟨-1, some 22, nothing⟩, s)
  | .lseek, [_, .scalar _, _] => (⟨0, none, nothing⟩, { s with pos := 0 })
  | .read, [_, .ptr (.room n), _] =>
      let out := (s.content.drop s.pos).take (min n (2 ^ 31 - 1))
      (⟨out.length, none, [out]⟩, { s with pos := s.pos + out.length })
  | _, _ => (⟨-1, some 38, nothing⟩, s)

theorem nothing_fits (targets : List Seen) :
    List.Forall₂ (fun (out : List UInt8) seen => out.length ≤ seen.size) (targets.map fun _ => []) targets := by
  induction targets with
  | nil => exact .nil
  | cons target targets ih => exact .cons (Nat.zero_le _) ih

/-- What `perform` does, branch by branch. -/
theorem OneFile.perform_cases (call : SysCall Seen) (s : OneFile) :
    (∃ ret errno s', OneFile.perform call s = (⟨ret, errno, call.writable.map fun _ => []⟩, s') ∧
      (ret = -1 ∧ call.func ≠ .umask ∧ errno.isSome = true ∨
        0 ≤ ret ∧ ret < 2 ^ 31 ∧ (call.func = .read → ret = 0) ∧ errno = none)) ∨
    ∃ a n b, call = ⟨.read, [a, .ptr (.room n), b]⟩ ∧
      let out := (s.content.drop s.pos).take (min n (2 ^ 31 - 1))
      OneFile.perform call s = (⟨out.length, none, [out]⟩, { s with pos := s.pos + out.length }) := by
  obtain ⟨func, args⟩ := call
  rw [OneFile.perform]
  dsimp only
  split
  case h_1 => exact Or.inl ⟨_, _, _, rfl, Or.inr ⟨by decide, by decide, (fun h => by cases h), rfl⟩⟩
  case h_2 => exact Or.inl ⟨_, _, _, rfl, Or.inr ⟨by decide, by decide, (fun h => by cases h), rfl⟩⟩
  case h_3 bytes _ =>
      split_ifs with hlength
      · refine Or.inl ⟨_, _, _, rfl, Or.inr ⟨Int.natCast_nonneg _, ?_, False.elim, rfl⟩⟩
        exact_mod_cast hlength
      · exact Or.inl ⟨_, _, _, rfl, Or.inl ⟨rfl, by decide, rfl⟩⟩
  case h_4 => exact Or.inl ⟨_, _, _, rfl, Or.inr ⟨by decide, by decide, (fun h => by cases h), rfl⟩⟩
  case h_5 a n b => exact Or.inr ⟨a, n, b, rfl, rfl⟩
  case h_6 _ humask _ _ _ => exact Or.inl ⟨_, _, _, rfl, Or.inl ⟨rfl, humask, rfl⟩⟩

theorem holds_of_int {func : SysFunc} {ret : Int}
    (h : ret = -1 ∧ func ≠ .umask ∨ 0 ≤ ret ∧ ret < 2 ^ 31) : func.ret.Holds ret := by
  have hlow : -1 ≤ ret := by omega
  have hhigh : ret < 2 ^ 31 := by omega
  rcases hret : func.ret with _ | _ | _
  · exact ⟨hlow.trans' (by norm_num), hhigh⟩
  · have humask : func = .umask := by cases func <;> first | rfl | cases hret
    exact ⟨(h.resolve_left fun h => h.2 humask).1, hhigh.trans (by norm_num)⟩
  · exact ⟨hlow.trans' (by norm_num), hhigh.trans (by norm_num)⟩

def oneFile : Os OneFile where
  sizeof _ := 128
  perform := OneFile.perform
  ret_holds call s := by
    obtain ⟨ret, errno, s', hperform, hret⟩ | ⟨a, n, b, rfl, hperform⟩ := OneFile.perform_cases call s
    · rw [hperform]
      exact holds_of_int (hret.imp (fun h => ⟨h.1, h.2.1⟩) fun h => ⟨h.1, h.2.1⟩)
    · rw [hperform]
      refine holds_of_int (Or.inr ⟨Int.natCast_nonneg _, ?_⟩)
      dsimp only
      rw [List.length_take]
      omega
  errno_iff call s := by
    obtain ⟨ret, errno, s', hperform, hret⟩ | ⟨a, n, b, rfl, hperform⟩ := OneFile.perform_cases call s
    · rw [hperform]
      obtain ⟨rfl, -, herrno⟩ | ⟨hret, -, -, rfl⟩ := hret
      · exact iff_of_true herrno rfl
      · refine iff_of_false Bool.false_ne_true ?_
        dsimp only
        omega
    · rw [hperform]
      refine iff_of_false Bool.false_ne_true ?_
      dsimp only
      omega
  outs_fit call s := by
    obtain ⟨ret, errno, s', hperform, -⟩ | ⟨a, n, b, rfl, hperform⟩ := OneFile.perform_cases call s
    · rw [hperform]
      exact nothing_fits _
    · rw [hperform]
      refine .cons ?_ .nil
      rw [List.length_take]
      exact (min_le_left _ _).trans (min_le_left _ _)
  read_outs call s hfunc out hout := by
    obtain ⟨ret, errno, s', hperform, hret⟩ | ⟨a, n, b, rfl, hperform⟩ := OneFile.perform_cases call s
    · rw [hperform] at hout ⊢
      obtain ⟨-, -, rfl⟩ := List.mem_map.mp hout
      obtain ⟨rfl, -⟩ | ⟨-, -, hzero, -⟩ := hret
      · rfl
      · rw [hzero hfunc]
        rfl
    · rw [hperform] at hout ⊢
      rw [List.mem_singleton.mp hout]
      rfl

/-- Writes two bytes to the file and reads them back. -/
def writeRead : Prog (List (List UInt8)) :=
  .call 0 1 [.bytes [102, 0], .integer 2, .integer 0] fun opened =>
    .call 0 4 [.integer (.ofInt opened.ret), .bytes [104, 105], .integer 2] fun _ =>
      .call 0 8 [.integer (.ofInt opened.ret), .integer 0, .integer 0] fun _ =>
        .call 0 3 [.integer (.ofInt opened.ret), .null, .integer 2] fun read => .done read.outs

theorem runRemote_eq_runLocal_writeRead :
    writeRead.runRemote oneFile Securec.reference (fun _ => 0) 0 (List.replicate 200 0) ⟨[], 0⟩ =
      some ([[104, 105]], ⟨[104, 105], 2⟩) :=
  runRemote_eq_runLocal oneFile Securec.reference Securec.reference_copiesWithinMax _ writeRead 0
    (List.replicate 200 0) (by rw [List.length_replicate]; decide)
    (by rw [List.length_replicate]; decide) _ _ (by decide +kernel)

end ITrustee.Teleport.Remote
