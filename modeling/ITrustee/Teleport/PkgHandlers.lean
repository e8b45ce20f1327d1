import Mathlib.Tactic
import ITrustee.Foundation.Machine
import ITrustee.Foundation.Securec
import ITrustee.Teleport.FdList

/-!
# Requests on packages

The handlers of `posix_other.c` and `posix_network.c` that use the package list, running side by side
with each other and with the timeout thread. A handler is a request, the point it has reached, and its
argument region, into which `PkgRecvWork` returns data. Its steps are the locked functions of the list
and what lies between two of them; a system call that may block is entered in one step and left in
another. The arguments are those a successful `DeSerialize` leaves: a request that fails there does not
come near the list.

A step is undefined, `none`, where the code uses a freed package or buffer, or follows a null pointer.
`handlerStep_cases` lists what the other steps do; the invariants start from there.
-/

namespace ITrustee.Teleport

/-! ### Data -/

inductive Request where
  | pkgSend (fd teeIndex totalLen : UInt64) (data : Option (List UInt8)) (offset blkSz : UInt64)
  | pkgRecv (fd teeIndex totalLen offset blkSz : UInt64)
  | pkgTerminate (fd teeIndex : UInt64)
  | netSendto (fd len teeIndex : UInt64)
  | netSendmsg (fd bufLen teeIndex : UInt64)
  | netRecvfrom (fd len teeIndex : UInt64)
  | netRecvmsg (fd teeIndex : UInt64)
  deriving DecidableEq

/-- The descriptor, converted to `int` for the list. -/
def Request.fd : Request → Int32
  | pkgSend fd .. | pkgRecv fd .. | pkgTerminate fd _ | netSendto fd .. | netSendmsg fd ..
  | netRecvfrom fd .. | netRecvmsg fd _ => fd.toUInt32.toInt32

def Request.teeIndex : Request → UInt64
  | pkgSend _ teeIndex .. | pkgRecv _ teeIndex .. | pkgTerminate _ teeIndex
  | netSendto _ _ teeIndex | netSendmsg _ _ teeIndex | netRecvfrom _ _ teeIndex
  | netRecvmsg _ teeIndex => teeIndex

def Request.isSend : Request → Bool
  | netSendto .. | netSendmsg .. => true
  | _ => false

/-- Where a handler is. A package or a buffer in the list is referred to by its number. -/
inductive Pc where
  | start
  /-- A buffer was allocated, and `FdListPutPkg` is called. -/
  | put (buff : List UInt8) (buffLen : UInt64)
  /-- `FdListGetPkg` returned 0. -/
  | working (pkg : Option Nat)
  /-- In `sendto` or `sendmsg`. -/
  | sending (pkg : Option Nat)
  | release (pkg : Option Nat) (ret : Int)
  /-- Before the second `FdListReleasePkg` of a send. -/
  | releaseAgain (pkg : Option Nat) (ret : Int)
  /-- In `recvfrom` or `recvmsg`, with the buffer of a package. -/
  | receiving (pkg : Option Nat)
  | releaseIndex (pkg : Option Nat) (ret : Int)
  /-- Before `SerializeMsgBuf`. -/
  | serialize (pkg : Option Nat) (ret : Int)
  /-- Before `free(ioBuf)`. -/
  | freeIoBuf (pkg : Option Nat)
  | done (ret : Int)
  deriving DecidableEq

structure Handler where
  request : Request
  pc : Pc := .start
  args : List UInt8 := []
  deriving DecidableEq

/-- What the calls of one step return. `constructMsg` is the buffer `ConstructMsg` leaves, `received`
what a receive writes. -/
structure Outcome where
  lock : Lock := .acquired
  alloc : Bool := true
  created : Except Errno UInt64 := .ok 0
  constructMsg : Option (List UInt8) := none
  ret : Int := 0
  received : List UInt8 := []
  serializeMsgBuf : Bool := true

structure State where
  fdList : FdList := {}
  handlers : List Handler := []
  deriving DecidableEq

/-! ### The handlers -/

section Steps

variable (lib : Securec)

/-- `InsertFirstPkg` up to `FdListPutPkg`. -/
def insertFirstPkg (o : Outcome) (data : Option (List UInt8)) (blkSz totalLen : UInt64) :
    Option (List UInt8) :=
  match data with
  | none => none
  | some data =>
      if totalLen < blkSz then none
      else if !o.alloc then none
      else
        let pkgTmpBuf := List.replicate totalLen.toNat 0
        if blkSz > 0 then
          let (ret, pkgTmpBuf) := lib.memcpyS pkgTmpBuf blkSz.toNat data blkSz.toNat
          if ret ≠ 0 then none else some pkgTmpBuf
        else some pkgTmpBuf

/-- The lookup of a package at the start of a request. -/
def getPkg (o : Outcome) (l : FdList) (h : Handler) : FdList × Handler :=
  let (ret, pkg, l) := fdListGetPkg o.lock h.request.fd h.request.teeIndex l
  (l, { h with pc := if ret = 0 then .working pkg else .done (-1) })

def startStep (o : Outcome) (l : FdList) (h : Handler) : FdList × Handler :=
  match h.request with
  | .pkgSend _ _ totalLen data offset blkSz =>
      if offset = 0 then
        match insertFirstPkg lib o data blkSz totalLen with
        | none => (l, { h with pc := .done (-1) })
        | some buff => (l, { h with pc := .put buff totalLen })
      else getPkg o l h
  | .pkgRecv .. => getPkg o l h
  | .pkgTerminate .. =>
      let (ret, l) := fdListReleasePkgByIndex o.lock h.request.fd h.request.teeIndex l
      (l, { h with pc := .done (if ret ≠ 0 then -1 else 0) })
  | .netSendto _ _ teeIndex =>
      if teeIndex > 0 then getPkg o l h else (l, { h with pc := .sending none })
  | .netSendmsg _ _ teeIndex =>
      if teeIndex > 0 then getPkg o l h
      else
        match o.constructMsg with
        | none => (l, { h with pc := .release none (-1) })
        | some _ => (l, { h with pc := .sending none })
  | .netRecvfrom _ len teeIndex =>
      if teeIndex > 0 then
        if !o.alloc then (l, { h with pc := .done (-1) })
        else (l, { h with pc := .put (List.replicate len.toNat 0) len })
      else (l, { h with pc := .receiving none })
  | .netRecvmsg .. =>
      match o.constructMsg with
      | none => (l, { h with pc := .done (-1) })
      | some ioBuf => (l, { h with pc := .put ioBuf (UInt64.ofNat ioBuf.length) })

/-- Where a handler goes on after it put a package. -/
def putPc (r : Request) (pkg : Option Nat) : Pc :=
  match r with
  | .pkgSend _ _ _ _ _ blkSz => .done blkSz.toNat
  | _ => .receiving pkg

def putStep (o : Outcome) (buff : List UInt8) (buffLen : UInt64) (l : FdList) (h : Handler) :
    FdList × Handler :=
  let (ret, pkg, l) :=
    fdListPutPkg o.lock o.created h.request.fd h.request.teeIndex buff buffLen l
  (l, { h with pc := if ret = 0 then putPc h.request pkg else .done (-1) })

/-- The buffer after `PkgSendWork` copied a chunk into it. -/
def copyChunk (p : PkgTmpBuf) (data : Option (List UInt8)) (offset blkSz : UInt64) : List UInt8 :=
  if blkSz > 0 then
    p.buff.take offset.toNat ++
      match data with
      | none => Securec.copyNull (p.buff.drop offset.toNat) blkSz.toNat
      | some data => (lib.memcpyS (p.buff.drop offset.toNat) blkSz.toNat data blkSz.toNat).2
  else p.buff

/-- What a handler does with the package it looked up. -/
def workStep (o : Outcome) (p : PkgTmpBuf) (l : FdList) (h : Handler) : FdList × Handler :=
  match h.request with
  | .pkgSend _ _ totalLen data offset blkSz =>
      if totalLen ≠ p.buffLen ∨ offset > p.buffLen then
        (l, { h with pc := .release (some p.id) (-1) })
      else if p.buffLen - offset < blkSz then (l, { h with pc := .release (some p.id) (-1) })
      else
        (l.modifyPkg p.id fun q => { q with buff := copyChunk lib p data offset blkSz },
          { h with pc := .release (some p.id) blkSz.toUInt32.toInt32.toInt })
  | .pkgRecv _ _ totalLen offset blkSz =>
      if totalLen > p.buffLen ∨ offset > 0xFFFFFFFFFFFFFFFF - blkSz ∨
          offset + blkSz > p.buffLen then
        (l, { h with pc := .release (some p.id) (-1) })
      else
        let (ret, args) :=
          lib.memcpyS h.args h.args.length (p.buff.drop offset.toNat) blkSz.toNat
        (l, { h with
          args := args
          pc := .release (some p.id) (if ret ≠ 0 then -1 else blkSz.toUInt32.toInt32.toInt) })
  | .netSendto _ len _ =>
      if len ≠ p.buffLen then (l, { h with pc := .release (some p.id) (-1) })
      else (l, { h with pc := .sending (some p.id) })
  | .netSendmsg _ bufLen _ =>
      if bufLen ≠ p.buffLen then (l, { h with pc := .release (some p.id) (-1) })
      else
        match o.constructMsg with
        | none => (l, { h with pc := .release (some p.id) (-1) })
        | some buff =>
            (l.modifyPkg p.id fun q => { q with buff := buff },
              { h with pc := .sending (some p.id) })
  | _ => (l, h)

/-- What a receive does when its call returns. -/
def receivedPc (r : Request) (pkg : Option Nat) (ret : Int) : Pc :=
  match r with
  | .netRecvmsg .. => if ret ≤ 0 then .releaseIndex pkg ret else .serialize pkg ret
  | _ => if ret ≤ 0 ∧ r.teeIndex > 0 then .releaseIndex pkg ret else .done ret

def handlerStep (o : Outcome) (l : FdList) (h : Handler) : Option (FdList × Handler) :=
  match h.pc with
  | .start => some (startStep lib o l h)
  | .put buff buffLen => some (putStep o buff buffLen l h)
  | .working none => none
  | .working (some id) => (l.pkg? id).map fun p => workStep lib o p l h
  | .sending none => some (l, { h with pc := .release none o.ret })
  | .sending (some id) =>
      (l.pkg? id).map fun _ => (l, { h with pc := .release (some id) o.ret })
  | .release pkg ret =>
      (fdListReleasePkg o.lock pkg l).map fun (_, l) =>
        (l, { h with pc := if h.request.isSend then .releaseAgain pkg ret else .done ret })
  | .releaseAgain pkg ret =>
      (fdListReleasePkg o.lock pkg l).map fun (_, l) => (l, { h with pc := .done ret })
  | .receiving none => some (l, { h with pc := receivedPc h.request none o.ret })
  | .receiving (some id) =>
      if id ∈ l.freedBuffs then none
      else
        some (l.modifyPkg id fun q =>
            { q with buff := o.received ++ q.buff.drop o.received.length },
          { h with pc := receivedPc h.request (some id) o.ret })
  | .releaseIndex pkg ret =>
      let (_, l) := fdListReleasePkgByIndex o.lock h.request.fd h.request.teeIndex l
      match h.request with
      | .netRecvmsg .. =>
          some (l, { h with pc := if ret ≥ 0 then .serialize pkg ret else .done ret })
      | _ => some (l, { h with pc := .done ret })
  | .serialize pkg ret =>
      some (l, { h with pc := if o.serializeMsgBuf then .done ret else .freeIoBuf pkg })
  | .freeIoBuf none => some (l, { h with pc := .done (-1) })
  | .freeIoBuf (some id) =>
      if id ∈ l.freedBuffs then none
      else some ({ l with freedBuffs := id :: l.freedBuffs }, { h with pc := .done (-1) })
  | .done _ => none

/-! ### The system -/

inductive Action where
  /-- A request arrives with its argument region. -/
  | request (r : Request) (args : List UInt8)
  /-- A handler takes its next step. -/
  | run (i : Nat) (o : Outcome)
  /-- The timeout thread scans the list. -/
  | timeout (lock : Lock) (clock : List (Except Errno UInt64))

def pkgStep (s : State) : Action → Option State
  | .request r args => some { s with handlers := s.handlers ++ [{ request := r, args := args }] }
  | .run i o => do
      let h ← s.handlers[i]?
      let (l, h) ← handlerStep lib o s.fdList h
      return { fdList := l, handlers := s.handlers.set i h }
  | .timeout lock clock => some { s with fdList := (fdListDelTimeoutPkg lock clock s.fdList).2 }

/-! ### What a step of a handler does -/

/-- The list after a receive wrote to the buffer of its package. -/
def FdList.received (pkg : Option Nat) (received : List UInt8) (l : FdList) : FdList :=
  match pkg with
  | none => l
  | some id => l.modifyPkg id fun q => { q with buff := received ++ q.buff.drop received.length }

/-- The list after `free(ioBuf)`, where the handler knows the package. -/
def FdList.freeIoBuf (pkg : Option Nat) (l : FdList) : FdList :=
  match pkg with
  | none => l
  | some id => { l with freedBuffs := id :: l.freedBuffs }

/-- The steps that are defined, by the point the handler has reached. -/
inductive HandlerStep (o : Outcome) (l : FdList) (h : Handler) : FdList → Handler → Prop
  | start (hpc : h.pc = .start) :
      HandlerStep o l h (startStep lib o l h).1 (startStep lib o l h).2
  | put {buff : List UInt8} {buffLen : UInt64} (hpc : h.pc = .put buff buffLen) :
      HandlerStep o l h (putStep o buff buffLen l h).1 (putStep o buff buffLen l h).2
  | work {id : Nat} {p : PkgTmpBuf} (hpc : h.pc = .working (some id)) (hp : l.pkg? id = some p) :
      HandlerStep o l h (workStep lib o p l h).1 (workStep lib o p l h).2
  | sent {pkg : Option Nat} (hpc : h.pc = .sending pkg) :
      HandlerStep o l h l { h with pc := .release pkg o.ret }
  | release {pkg : Option Nat} {ret ret' : Int} {l' : FdList} (hpc : h.pc = .release pkg ret)
      (hrel : fdListReleasePkg o.lock pkg l = some (ret', l')) :
      HandlerStep o l h l'
        { h with pc := if h.request.isSend then .releaseAgain pkg ret else .done ret }
  | releaseAgain {pkg : Option Nat} {ret ret' : Int} {l' : FdList}
      (hpc : h.pc = .releaseAgain pkg ret)
      (hrel : fdListReleasePkg o.lock pkg l = some (ret', l')) :
      HandlerStep o l h l' { h with pc := .done ret }
  | received {pkg : Option Nat} (hpc : h.pc = .receiving pkg) :
      HandlerStep o l h (l.received pkg o.received)
        { h with pc := receivedPc h.request pkg o.ret }
  | releaseIndex {pkg : Option Nat} {ret : Int} {pc : Pc} (hpc : h.pc = .releaseIndex pkg ret)
      (hnext : pc = .done ret ∨ ret ≥ 0 ∧ pc = .serialize pkg ret) :
      HandlerStep o l h
        (fdListReleasePkgByIndex o.lock h.request.fd h.request.teeIndex l).2 { h with pc := pc }
  | serialize {pkg : Option Nat} {ret : Int} (hpc : h.pc = .serialize pkg ret) :
      HandlerStep o l h l
        { h with pc := if o.serializeMsgBuf then .done ret else .freeIoBuf pkg }
  | freeIoBuf {pkg : Option Nat} (hpc : h.pc = .freeIoBuf pkg) :
      HandlerStep o l h (l.freeIoBuf pkg) { h with pc := .done (-1) }

variable {lib}

theorem putPc_cases (r : Request) (pkg : Option Nat) :
    (∃ ret, putPc r pkg = .done ret) ∨ putPc r pkg = .receiving pkg := by
  cases r with
  | pkgSend => exact Or.inl ⟨_, rfl⟩
  | _ => exact Or.inr rfl

/-- A package is put with a new number, or nothing is put. -/
theorem putStep_cases (o : Outcome) (buff : List UInt8) (buffLen : UInt64) (l : FdList)
    (h : Handler) :
    (∃ pc, ((∃ ret, pc = .done ret) ∨ pc = .receiving none) ∧
      putStep o buff buffLen l h = (l, { h with pc })) ∨
    ∃ creatTimeUs, putStep o buff buffLen l h =
      ({ l with
          list := l.list ++
            [⟨l.next, h.request.fd, h.request.teeIndex, buff, buffLen, 1, creatTimeUs⟩]
          next := l.next + 1 },
        { h with pc := putPc h.request (some l.next) }) := by
  have hrefused (ret : Int) (hput : fdListPutPkg o.lock o.created h.request.fd
      h.request.teeIndex buff buffLen l = (ret, none, l)) :
      ∃ pc, ((∃ ret, pc = .done ret) ∨ pc = .receiving none) ∧
        putStep o buff buffLen l h = (l, { h with pc }) := by
    refine ⟨_, ?_, by rw [putStep, hput]⟩
    split_ifs
    · exact putPc_cases h.request none
    · exact Or.inl ⟨_, rfl⟩
  cases hlock : o.lock with
  | failed errno => exact Or.inl (hrefused (-errno) (by rw [hlock]; rfl))
  | acquired =>
      cases hsearch : fdListSearchPkg l h.request.fd h.request.teeIndex with
      | some p => exact Or.inl (hrefused (-eBadF) (by simp only [fdListPutPkg, hlock, hsearch]))
      | none =>
          cases hcreated : o.created with
          | error errno =>
              exact Or.inl (hrefused (-errno)
                (by simp only [fdListPutPkg, hlock, hsearch, hcreated]))
          | ok creatTimeUs =>
              refine Or.inr ⟨creatTimeUs, ?_⟩
              simp only [putStep, fdListPutPkg, hlock, hsearch, hcreated, if_true]

theorem handlerStep_cases {o : Outcome} {l l' : FdList} {h h' : Handler}
    (hstep : handlerStep lib o l h = some (l', h')) : HandlerStep lib o l h l' h' := by
  rw [handlerStep] at hstep
  cases hpc : h.pc with
  | start =>
      simp only [hpc] at hstep
      obtain ⟨rfl, rfl⟩ := Prod.mk.inj (Option.some.inj hstep)
      exact .start hpc
  | put buff buffLen =>
      simp only [hpc] at hstep
      obtain ⟨rfl, rfl⟩ := Prod.mk.inj (Option.some.inj hstep)
      exact .put hpc
  | working pkg =>
      cases pkg with
      | none => simp [hpc] at hstep
      | some id =>
          simp only [hpc] at hstep
          obtain ⟨p, hp, heq⟩ := Option.map_eq_some_iff.mp hstep
          obtain ⟨rfl, rfl⟩ := Prod.mk.inj heq
          exact .work hpc hp
  | sending pkg =>
      cases pkg with
      | none =>
          simp only [hpc] at hstep
          obtain ⟨rfl, rfl⟩ := Prod.mk.inj (Option.some.inj hstep)
          exact .sent hpc
      | some id =>
          simp only [hpc] at hstep
          obtain ⟨p, -, heq⟩ := Option.map_eq_some_iff.mp hstep
          obtain ⟨rfl, rfl⟩ := Prod.mk.inj heq
          exact .sent hpc
  | release pkg ret =>
      simp only [hpc] at hstep
      obtain ⟨⟨ret', l''⟩, hrel, heq⟩ := Option.map_eq_some_iff.mp hstep
      obtain ⟨rfl, rfl⟩ := Prod.mk.inj heq
      exact .release hpc hrel
  | releaseAgain pkg ret =>
      simp only [hpc] at hstep
      obtain ⟨⟨ret', l''⟩, hrel, heq⟩ := Option.map_eq_some_iff.mp hstep
      obtain ⟨rfl, rfl⟩ := Prod.mk.inj heq
      exact .releaseAgain hpc hrel
  | receiving pkg =>
      cases pkg with
      | none =>
          simp only [hpc] at hstep
          obtain ⟨rfl, rfl⟩ := Prod.mk.inj (Option.some.inj hstep)
          exact .received hpc
      | some id =>
          simp only [hpc] at hstep
          split_ifs at hstep
          obtain ⟨rfl, rfl⟩ := Prod.mk.inj (Option.some.inj hstep)
          exact .received hpc
  | releaseIndex pkg ret =>
      simp only [hpc] at hstep
      cases hreq : h.request with
      | netRecvmsg fd teeIndex =>
          rw [hreq] at hstep
          obtain ⟨rfl, rfl⟩ := Prod.mk.inj (Option.some.inj hstep)
          rw [← hreq]
          refine .releaseIndex hpc ?_
          by_cases hret : ret ≥ 0
          · rw [if_pos hret]
            exact Or.inr ⟨hret, rfl⟩
          · rw [if_neg hret]
            exact Or.inl rfl
      | _ =>
          rw [hreq] at hstep
          obtain ⟨rfl, rfl⟩ := Prod.mk.inj (Option.some.inj hstep)
          rw [← hreq]
          exact .releaseIndex hpc (Or.inl rfl)
  | serialize pkg ret =>
      simp only [hpc] at hstep
      obtain ⟨rfl, rfl⟩ := Prod.mk.inj (Option.some.inj hstep)
      exact .serialize hpc
  | freeIoBuf pkg =>
      cases pkg with
      | none =>
          simp only [hpc] at hstep
          obtain ⟨rfl, rfl⟩ := Prod.mk.inj (Option.some.inj hstep)
          exact .freeIoBuf hpc
      | some id =>
          simp only [hpc] at hstep
          split_ifs at hstep
          obtain ⟨rfl, rfl⟩ := Prod.mk.inj (Option.some.inj hstep)
          exact .freeIoBuf hpc
  | done ret => simp [hpc] at hstep

end Steps

end ITrustee.Teleport
