import Mathlib
import ITrustee.Foundation.Bytes
import ITrustee.Foundation.Machine
import ITrustee.Teleport.PkgLedger

/-!
# The content of packages

A package that a `PkgSend` creates is a buffer of zeros that the chunks of the accepted `PkgSend`
requests overwrite one after the other, whatever their order and however they overlap. The log of a
run holds the chunks in the order in which they were accepted; `contentOf` replays it. As long as the
package is in the list and no send takes it, its buffer is what the log says, and `PkgRecv` returns
slices of that. A client sees a chunk rejected by a negative result.
-/

namespace ITrustee.Teleport

open Machine

/-- Bytes written at an offset. -/
structure Chunk where
  offset : Nat
  bytes : List UInt8
  deriving DecidableEq

def Chunk.write (c : Chunk) (buff : List UInt8) : List UInt8 := Bytes.store buff c.offset c.bytes

inductive PkgEvent where
  /-- A first chunk put a package in the list. -/
  | created (id : Nat) (totalLen : UInt64) (chunk : Chunk)
  /-- A later chunk was accepted. -/
  | updated (id : Nat) (chunk : Chunk)
  deriving DecidableEq

def contentStep (id : Nat) (content : Option (List UInt8)) : PkgEvent → Option (List UInt8)
  | .created id' totalLen chunk =>
      if id' = id then some (chunk.write (List.replicate totalLen.toNat 0)) else content
  | .updated id' chunk => if id' = id then content.map chunk.write else content

/-- The buffer of zeros with the chunks of the log written to it, `none` for a package that no
`PkgSend` created. -/
def contentOf (id : Nat) (log : List PkgEvent) : Option (List UInt8) :=
  log.foldl (contentStep id) none

/-- The chunk of a `PkgSend`. -/
def sentChunk (data : Option (List UInt8)) (offset blkSz : UInt64) : Chunk :=
  ⟨offset.toNat, (data.getD []).take blkSz.toNat⟩

/-- What the log records of a step of one handler. -/
def handlerEvent (l : FdList) (h : Handler) (l' : FdList) (h' : Handler) : Option PkgEvent :=
  match h.request with
  | .pkgSend _ _ totalLen data offset blkSz =>
      match h.pc, h'.pc with
      | .put _ _, _ =>
          if l.next < l'.next then some (.created l.next totalLen (sentChunk data offset blkSz))
          else none
      | .working (some id), .release _ ret =>
          if 0 ≤ ret then some (.updated id (sentChunk data offset blkSz)) else none
      | _, _ => none
  | _ => none

def pkgEvent (s : State) (a : Action) (s' : State) : Option PkgEvent :=
  match a with
  | .run i _ =>
      match s.handlers[i]?, s'.handlers[i]? with
      | some h, some h' => handlerEvent s.fdList h s'.fdList h'
      | _, _ => none
  | _ => none

/-- The log of a run. -/
def pkgLog (lib : Securec) (s : State) : List Action → List PkgEvent
  | [] => []
  | a :: as =>
      match pkgStep lib s a with
      | none => []
      | some s' => (pkgEvent s a s').toList ++ pkgLog lib s' as

/-! ### What is asked of a run -/

/-- The data region of a chunk holds the bytes the request announces. -/
def Request.HoldsData : Request → Prop
  | .pkgSend _ _ _ data _ blkSz => blkSz.toNat ≤ (data.getD []).length
  | _ => True

def Action.HoldsData : Action → Prop
  | .request r _ => r.HoldsData
  | _ => True

/-- The package has at most the size the copying library accepts. -/
def PkgEvent.Fits (id : Nat) : PkgEvent → Prop
  | .created id' totalLen _ => id' = id → totalLen.toNat ≤ Securec.maxLen
  | .updated .. => True

/-- A send that has found the package goes on with it. -/
def ConsumesPkg (id : Nat) (s : State) : Action → Prop
  | .run i _ =>
      match s.handlers[i]? with
      | some h => h.pc = .working (some id) ∧ h.request.isSend = true
      | none => False
  | _ => False

instance (a : Action) : Decidable a.HoldsData := by
  unfold Action.HoldsData Request.HoldsData
  split
  · split <;> infer_instance
  · infer_instance

instance (id : Nat) (e : PkgEvent) : Decidable (e.Fits id) := by
  unfold PkgEvent.Fits
  split <;> infer_instance

instance (id : Nat) (s : State) (a : Action) : Decidable (ConsumesPkg id s a) := by
  unfold ConsumesPkg
  split
  · split <;> infer_instance
  · infer_instance

/-! ### What is promised -/

/-- The points of `PkgSendWork` at which the result of a request is settled. -/
def Pc.decides : Pc → Bool
  | start | put .. | working _ => true
  | _ => false

/-- A step in which a `PkgSend` is rejected changes nothing of the package. -/
def RejectionKeeps (id : Nat) (s : State) (a : Action) (s' : State) : Prop :=
  ∀ i o h h' fd teeIndex totalLen data offset blkSz ret, a = .run i o →
    s.handlers[i]? = some h → s'.handlers[i]? = some h' →
    h.request = .pkgSend fd teeIndex totalLen data offset blkSz →
    h.pc.decides = true → (h'.pc = .done ret ∨ ∃ pkg, h'.pc = .release pkg ret) →
      ret < 0 → s'.fdList.pkg? id = s.fdList.pkg? id

/-- A step in which a `PkgRecv` on the package succeeds returns the slice of the content it asked
for. -/
def ReceiptExact (id : Nat) (content : List UInt8) (s : State) (a : Action) (s' : State) : Prop :=
  ∀ i o h h' fd teeIndex totalLen offset blkSz pkg ret, a = .run i o →
    s.handlers[i]? = some h → s'.handlers[i]? = some h' →
    h.request = .pkgRecv fd teeIndex totalLen offset blkSz → h.pc = .working (some id) →
    h'.pc = .release pkg ret → 0 ≤ ret →
      ret = blkSz.toNat ∧ offset.toNat + blkSz.toNat ≤ content.length ∧
        h'.args = Bytes.slice content offset.toNat blkSz.toNat ++ h.args.drop blkSz.toNat

/-! ### Replaying the log -/

theorem contentOf_append (id : Nat) (log : List PkgEvent) (e : PkgEvent) :
    contentOf id (log ++ [e]) = contentStep id (contentOf id log) e :=
  List.foldl_concat ..

theorem Chunk.write_length {c : Chunk} {buff : List UInt8}
    (h : c.offset + c.bytes.length ≤ buff.length) : (c.write buff).length = buff.length :=
  Bytes.store_length h

theorem sentChunk_length {data : Option (List UInt8)} {blkSz : UInt64}
    (hdata : blkSz.toNat ≤ (data.getD []).length) (offset : UInt64) :
    (sentChunk data offset blkSz).bytes.length = blkSz.toNat := by
  rw [sentChunk, List.length_take]
  omega

/-! ### Operations that leave a buffer alone -/

/-- If the package is still in the list, its buffer is as before. -/
def SameBuff (id : Nat) (l l' : FdList) : Prop :=
  ∀ p', l'.pkg? id = some p' → ∃ p, l.pkg? id = some p ∧ p'.buff = p.buff ∧ p'.buffLen = p.buffLen

section SameBuff

variable {id : Nat} {l l' l'' : FdList}

theorem SameBuff.refl (id : Nat) (l : FdList) : SameBuff id l l :=
  fun p h => ⟨p, h, rfl, rfl⟩

theorem SameBuff.trans (h : SameBuff id l l') (h' : SameBuff id l' l'') : SameBuff id l l'' := by
  intro p'' hp''
  obtain ⟨p', hp', hbuff', hlen'⟩ := h' p'' hp''
  obtain ⟨p, hp, hbuff, hlen⟩ := h p' hp'
  exact ⟨p, hp, hbuff'.trans hbuff, hlen'.trans hlen⟩

theorem sameBuff_modifyPkg (id k : Nat) (l : FdList) {f : PkgTmpBuf → PkgTmpBuf}
    (hid : ∀ q, (f q).id = q.id)
    (hf : k = id → ∀ q, (f q).buff = q.buff ∧ (f q).buffLen = q.buffLen) :
    SameBuff id l (l.modifyPkg k f) := by
  intro p' hp'
  rw [FdList.pkg?_modifyPkg k id hid] at hp'
  obtain ⟨p, hp, rfl⟩ := Option.map_eq_some_iff.mp hp'
  refine ⟨p, hp, ?_⟩
  split_ifs with hk
  · exact hf (hk.symm.trans (FdList.mem_of_pkg? hp).2) p
  · exact ⟨rfl, rfl⟩

theorem sameBuff_fdListFreePkg (id : Nat) (p : PkgTmpBuf) (l : FdList) :
    SameBuff id l (fdListFreePkg p l) := by
  intro p' hp'
  refine ⟨p', ?_, rfl, rfl⟩
  have hmem := FdList.mem_of_pkg? hp'
  rw [FdList.pkg?, fdListFreePkg, List.find?_filter] at hp'
  have hne : id ≠ p.id := by
    have hkept := hmem.1
    rw [fdListFreePkg, List.mem_filter] at hkept
    rw [← hmem.2]
    simpa using hkept.2
  rw [FdList.pkg?, ← hp']
  congr 1
  funext q
  by_cases hq : q.id = id
  · simp [hq, hne]
  · simp [hq]

theorem sameBuff_derefPkg (id : Nat) (p : PkgTmpBuf) (l : FdList) :
    SameBuff id l (derefPkg p l) := by
  rw [derefPkg]
  split_ifs
  · exact sameBuff_fdListFreePkg id p l
  · exact sameBuff_modifyPkg id p.id l (fun _ => rfl) fun _ _ => ⟨rfl, rfl⟩

theorem sameBuff_releaseByIndex (id : Nat) (lock : Lock) (fd : Int32) (teeIndex : UInt64)
    (l : FdList) : SameBuff id l (fdListReleasePkgByIndex lock fd teeIndex l).2 := by
  cases lock with
  | failed errno => exact SameBuff.refl id l
  | acquired =>
      cases hsearch : fdListSearchPkg l fd teeIndex with
      | none =>
          simp only [fdListReleasePkgByIndex, hsearch]
          exact SameBuff.refl id l
      | some p =>
          simp only [fdListReleasePkgByIndex, hsearch]
          exact sameBuff_derefPkg id p l

theorem next_releaseByIndex (lock : Lock) (fd : Int32) (teeIndex : UInt64) (l : FdList) :
    (fdListReleasePkgByIndex lock fd teeIndex l).2.next = l.next := by
  cases lock with
  | failed errno => rfl
  | acquired =>
      cases hsearch : fdListSearchPkg l fd teeIndex with
      | none => simp only [fdListReleasePkgByIndex, hsearch]
      | some p =>
          simp only [fdListReleasePkgByIndex, hsearch]
          exact next_derefPkg p l

theorem sameBuff_release (id : Nat) {lock : Lock} {pkg : Option Nat} {ret : Int}
    (hrel : fdListReleasePkg lock pkg l = some (ret, l')) : SameBuff id l l' := by
  cases pkg with
  | none =>
      obtain ⟨_, rfl⟩ := Prod.mk.inj (Option.some.inj hrel)
      exact SameBuff.refl id l
  | some id' =>
      cases lock with
      | failed errno =>
          obtain ⟨_, rfl⟩ := Prod.mk.inj (Option.some.inj hrel)
          exact SameBuff.refl id l
      | acquired =>
          obtain ⟨p, _, heq⟩ := Option.map_eq_some_iff.mp hrel
          obtain ⟨_, rfl⟩ := Prod.mk.inj heq
          exact sameBuff_derefPkg id p l

theorem sameBuff_delTimeoutPkg (id : Nat) (lock : Lock) (clock : List (Except Errno UInt64))
    (l : FdList) : SameBuff id l (fdListDelTimeoutPkg lock clock l).2 := by
  cases lock with
  | failed errno => exact SameBuff.refl id l
  | acquired =>
      rw [fdListDelTimeoutPkg]
      generalize l.list = pkgs
      fun_induction delTimeoutLoop pkgs clock l with
      | case1 => exact SameBuff.refl id _
      | case2 p ps currTime clock l ih =>
          refine SameBuff.trans ?_ ih
          split_ifs
          · exact sameBuff_derefPkg id p l
          · exact SameBuff.refl id l
      | case3 | case4 => exact SameBuff.refl id _

theorem sameBuff_getPkg (id : Nat) (o : Outcome) (l : FdList) (h : Handler) :
    SameBuff id l (getPkg o l h).1 ∧ (getPkg o l h).1.next = l.next := by
  rw [getPkg]
  cases o.lock with
  | failed errno => exact ⟨SameBuff.refl id l, rfl⟩
  | acquired =>
      cases hsearch : fdListSearchPkg l h.request.fd h.request.teeIndex with
      | none =>
          simp only [fdListGetPkg, hsearch]
          exact ⟨SameBuff.refl id l, trivial⟩
      | some p =>
          simp only [fdListGetPkg, hsearch]
          exact ⟨sameBuff_modifyPkg id p.id l (fun _ => rfl) fun _ _ => ⟨rfl, rfl⟩, rfl⟩

end SameBuff

/-! ### Copies -/

section Copies

variable {lib : Securec} {o : Outcome} {data : Option (List UInt8)} {totalLen offset blkSz : UInt64}

/-- The buffer of a first chunk, as `InsertFirstPkg` makes it. -/
structure FirstBuff (totalLen : UInt64) (data : Option (List UInt8)) (offset blkSz : UInt64)
    (buff : List UInt8) (buffLen : UInt64) : Prop where
  offset_eq : offset = 0
  buffLen_eq : buffLen = totalLen
  blkSz_le : blkSz.toNat ≤ totalLen.toNat
  buff_eq : totalLen.toNat ≤ Securec.maxLen →
    buff = (sentChunk data offset blkSz).write (List.replicate totalLen.toNat 0)

theorem memcpyS_eq_store (hlib : lib.CopiesWithinMax) (buff src : List UInt8) (n : Nat)
    (hpos : 0 < n) (hmax : n ≤ Securec.maxLen) (hsrc : n ≤ src.length) (off : Nat) :
    buff.take off ++ (lib.memcpyS (buff.drop off) n src n).2 = Bytes.store buff off (src.take n) := by
  rw [hlib.copies (buff.drop off) n src n hpos hmax le_rfl, Bytes.store, List.length_take,
    Nat.min_eq_left hsrc, List.drop_drop, List.append_assoc]

theorem insertFirstPkg_firstBuff (hlib : lib.CopiesWithinMax)
    (hdata : blkSz.toNat ≤ (data.getD []).length) {buff : List UInt8}
    (h : insertFirstPkg lib o data blkSz totalLen = some buff) :
    FirstBuff totalLen data 0 blkSz buff totalLen := by
  cases data with
  | none => cases h
  | some src =>
      simp only [insertFirstPkg] at h
      split_ifs at h with hlen halloc hblk hret
      · obtain rfl := Option.some.inj h
        have hle := UInt64.le_iff_toNat_le.mp (UInt64.not_lt.mp hlen)
        refine ⟨rfl, rfl, hle, fun hmax => ?_⟩
        have hstore := memcpyS_eq_store hlib (List.replicate totalLen.toNat 0) src blkSz.toNat
          (UInt64.lt_iff_toNat_lt.mp hblk) (hle.trans hmax) hdata 0
        exact hstore
      · obtain rfl := Option.some.inj h
        have hzero : blkSz.toNat = 0 := by
          have hnot := UInt64.lt_iff_toNat_lt.not.mp hblk
          exact Nat.eq_zero_of_not_pos hnot
        refine ⟨rfl, rfl, UInt64.le_iff_toNat_le.mp (UInt64.not_lt.mp hlen), fun _ => ?_⟩
        rw [sentChunk, Chunk.write, hzero, List.take_zero]
        exact (Bytes.store_zero (List.replicate totalLen.toNat 0) []).symm

theorem copyChunk_eq_write (hlib : lib.CopiesWithinMax)
    (hdata : blkSz.toNat ≤ (data.getD []).length) (hmax : blkSz.toNat ≤ Securec.maxLen)
    (p : PkgTmpBuf) :
    copyChunk lib p data offset blkSz = (sentChunk data offset blkSz).write p.buff := by
  have hempty (hzero : blkSz.toNat = 0) : p.buff = (sentChunk data offset blkSz).write p.buff := by
    rw [sentChunk, Chunk.write, hzero, List.take_zero, Bytes.store, List.append_nil,
      List.length_nil, Nat.add_zero, List.take_append_drop]
  rw [copyChunk.eq_def]
  by_cases hblk : blkSz > 0
  · rw [if_pos hblk]
    have hpos := UInt64.lt_iff_toNat_lt.mp hblk
    cases data with
    | none => exact absurd (Nat.le_zero.mp hdata) hpos.ne'
    | some src => exact memcpyS_eq_store hlib p.buff src blkSz.toNat hpos hmax hdata offset.toNat
  · rw [if_neg hblk]
    exact hempty (Nat.eq_zero_of_not_pos (UInt64.lt_iff_toNat_lt.not.mp hblk))

end Copies

/-! ### The invariant -/

/-- What the invariant asks of a handler, for the package `id` and the log so far. -/
structure HandlerInv (id : Nat) (log : List PkgEvent) (h : Handler) : Prop where
  holds : h.request.HoldsData
  puts : ∀ buff buffLen fd teeIndex totalLen data offset blkSz, h.pc = .put buff buffLen →
    h.request = .pkgSend fd teeIndex totalLen data offset blkSz →
      FirstBuff totalLen data offset blkSz buff buffLen
  receives : h.pc = .receiving (some id) → contentOf id log = none

structure ContentInv (id : Nat) (log : List PkgEvent) (s : State) : Prop where
  wellFormed : s.WellFormed
  handlers : ∀ h ∈ s.handlers, HandlerInv id log h
  unused : s.fdList.next ≤ id → contentOf id log = none
  content : ∀ bytes, contentOf id log = some bytes → bytes.length ≤ Securec.maxLen ∧
    ∀ p, s.fdList.pkg? id = some p → p.buff = bytes ∧ p.buffLen.toNat = bytes.length

section Inv

variable {id i : Nat} {log : List PkgEvent} {s s' : State} {l' : FdList} {h h' : Handler}
  {lib : Securec} {o : Outcome}

/-- A step that writes to no buffer, unless it is that of a package no `PkgSend` created. -/
theorem ContentInv.quiet (hinv : ContentInv id log s)
    (hwf : State.WellFormed ⟨l', s.handlers.set i h'⟩) (hnext : s.fdList.next ≤ l'.next)
    (hsame : contentOf id log = none ∨ SameBuff id s.fdList l') (hh' : HandlerInv id log h') :
    ContentInv id log ⟨l', s.handlers.set i h'⟩ := by
  refine ⟨hwf, fun g hg => ?_, fun hle => hinv.unused (hnext.trans hle), fun bytes hbytes => ?_⟩
  · obtain hold | rfl := List.mem_or_eq_of_mem_set hg
    · exact hinv.handlers g hold
    · exact hh'
  · obtain ⟨hmax, hbuff⟩ := hinv.content bytes hbytes
    refine ⟨hmax, fun p' hp' => ?_⟩
    obtain hnone | hsame := hsame
    · rw [hnone] at hbytes
      cases hbytes
    · obtain ⟨p, hp, hpbuff, hplen⟩ := hsame p' hp'
      rw [hpbuff, hplen]
      exact hbuff p hp

theorem handlerEvent_eq_none (hput : ∀ buff buffLen, h.pc ≠ .put buff buffLen)
    (hworking : ∀ id, h.pc ≠ .working (some id)) (l : FdList) :
    handlerEvent l h l' h' = none := by
  rw [handlerEvent]
  split
  · split
    · next hpc => exact absurd hpc (hput _ _)
    · next hpc _ => exact absurd hpc (hworking _)
    · rfl
  · rfl

theorem HandlerInv.goto (hat : HandlerInv id log h) (pc : Pc)
    (hput : ∀ buff buffLen, pc ≠ .put buff buffLen) (hrecv : pc ≠ .receiving (some id))
    (args : List UInt8) :
    HandlerInv id log ⟨h.request, pc, args⟩ :=
  ⟨hat.holds, fun buff buffLen _ _ _ _ _ _ hpc _ => absurd hpc (hput buff buffLen),
    fun hpc => absurd hpc hrecv⟩

theorem HandlerInv.putOther (hat : HandlerInv id log h) (buff : List UInt8) (buffLen : UInt64)
    (hreq : ∀ fd teeIndex totalLen data offset blkSz,
      h.request ≠ .pkgSend fd teeIndex totalLen data offset blkSz) :
    HandlerInv id log ⟨h.request, .put buff buffLen, h.args⟩ :=
  ⟨hat.holds, fun _ _ fd teeIndex totalLen data offset blkSz _ hr =>
    absurd hr (hreq fd teeIndex totalLen data offset blkSz), nofun⟩

theorem getPkg_inv (hat : HandlerInv id log h) (l : FdList) : SameBuff id l (getPkg o l h).1 ∧
    (getPkg o l h).1.next = l.next ∧ HandlerInv id log (getPkg o l h).2 := by
  obtain ⟨hsame, hnext⟩ := sameBuff_getPkg id o l h
  refine ⟨hsame, hnext, ?_⟩
  rw [getPkg]
  dsimp only
  split_ifs
  · exact hat.goto (.working _) (by simp) (by simp) h.args
  · exact hat.goto (.done (-1)) (by simp) (by simp) h.args

theorem startStep_inv (hlib : lib.CopiesWithinMax) (hat : HandlerInv id log h) (l : FdList) :
    SameBuff id l (startStep lib o l h).1 ∧ (startStep lib o l h).1.next = l.next ∧
      HandlerInv id log (startStep lib o l h).2 := by
  have hlocal (pc : Pc) (hput : ∀ buff buffLen, pc ≠ .put buff buffLen)
      (hrecv : pc ≠ .receiving (some id)) :
      SameBuff id l (l, { h with pc }).1 ∧ (l, { h with pc }).1.next = l.next ∧
        HandlerInv id log (l, { h with pc }).2 :=
    ⟨SameBuff.refl id l, rfl, hat.goto pc hput hrecv h.args⟩
  have hget := getPkg_inv (o := o) hat l
  rw [startStep]
  cases hreq : h.request with
  | pkgSend fd teeIndex totalLen data offset blkSz =>
      rw [hreq] at hlocal
      dsimp only
      split_ifs with hoffset
      · cases hfirst : insertFirstPkg lib o data blkSz totalLen with
        | none => exact hlocal _ (by simp) (by simp)
        | some buff =>
            have hdata := hat.holds
            rw [hreq] at hdata
            refine ⟨SameBuff.refl id l, rfl, hdata, fun buff' buffLen fd' teeIndex' totalLen' data'
              offset' blkSz' hpc hr => ?_, by simp⟩
            cases hpc
            cases hr
            rw [hoffset]
            exact insertFirstPkg_firstBuff hlib hdata hfirst
      · exact hget
  | pkgRecv => exact hget
  | pkgTerminate fd teeIndex =>
      have hgoto := hat.goto (.done (if (fdListReleasePkgByIndex o.lock
        (Request.pkgTerminate fd teeIndex).fd (Request.pkgTerminate fd teeIndex).teeIndex l).1 ≠ 0
          then -1 else 0)) (by simp) (by simp) h.args
      rw [hreq] at hgoto
      exact ⟨sameBuff_releaseByIndex id o.lock _ _ l, next_releaseByIndex o.lock _ _ l, hgoto⟩
  | netSendto fd len teeIndex =>
      rw [hreq] at hlocal
      dsimp only
      split_ifs
      · exact hget
      · exact hlocal _ (by simp) (by simp)
  | netSendmsg fd bufLen teeIndex =>
      rw [hreq] at hlocal
      dsimp only
      split_ifs
      · exact hget
      · cases o.constructMsg with
        | none => exact hlocal _ (by simp) (by simp)
        | some buff => exact hlocal _ (by simp) (by simp)
  | netRecvfrom fd len teeIndex =>
      have hput := hat.putOther (List.replicate len.toNat 0) len (by simp [hreq])
      rw [hreq] at hlocal hput
      dsimp only
      split_ifs
      · exact hlocal _ (by simp) (by simp)
      · exact ⟨SameBuff.refl id l, rfl, hput⟩
      · exact hlocal _ (by simp) (by simp)
  | netRecvmsg fd teeIndex =>
      rw [hreq] at hlocal
      cases o.constructMsg with
      | none => exact hlocal _ (by simp) (by simp)
      | some ioBuf =>
          have hput := hat.putOther ioBuf (UInt64.ofNat ioBuf.length) (by simp [hreq])
          rw [hreq] at hput
          exact ⟨SameBuff.refl id l, rfl, hput⟩

theorem contentOf_updated (log : List PkgEvent) (k : Nat) (c : Chunk) :
    contentOf id (log ++ [.updated k c]) =
      if k = id then (contentOf id log).map c.write else contentOf id log :=
  contentOf_append ..

theorem contentOf_created (log : List PkgEvent) (k : Nat) (totalLen : UInt64) (c : Chunk) :
    contentOf id (log ++ [.created k totalLen c]) =
      if k = id then some (c.write (List.replicate totalLen.toNat 0)) else contentOf id log :=
  contentOf_append ..

/-- A package put by a first chunk has the content of the log that records it. -/
theorem ContentInv.created (hinv : ContentInv id log s) {p : PkgTmpBuf}
    {data : Option (List UInt8)} {totalLen offset blkSz : UInt64} (hid : p.id = s.fdList.next)
    (hdata : blkSz.toNat ≤ (data.getD []).length)
    (hfirst : FirstBuff totalLen data offset blkSz p.buff p.buffLen)
    (hfits : s.fdList.next = id → totalLen.toNat ≤ Securec.maxLen)
    (hl' : l' = { s.fdList with list := s.fdList.list ++ [p], next := s.fdList.next + 1 })
    (hwf : State.WellFormed ⟨l', s.handlers.set i h'⟩)
    (hh' : HandlerInv id (log ++ [.created s.fdList.next totalLen (sentChunk data offset blkSz)]) h') :
    ContentInv id (log ++ [.created s.fdList.next totalLen (sentChunk data offset blkSz)])
      ⟨l', s.handlers.set i h'⟩ := by
  have hpkg (k : Nat) : l'.pkg? k = if p.id = k then some p else s.fdList.pkg? k := by
    rw [hl', pkg?_append hinv.wellFormed.fdList hid]
  have hnext : l'.next = s.fdList.next + 1 := by rw [hl']
  refine ⟨hwf, fun g hg => ?_, fun hle => ?_, fun bytes hbytes => ?_⟩
  · obtain hold | rfl := List.mem_or_eq_of_mem_set hg
    · obtain ⟨hholds, hputs, hreceives⟩ := hinv.handlers g hold
      refine ⟨hholds, hputs, fun hpc => ?_⟩
      have hlt := (hinv.wellFormed.handlers g hold).pkg_lt id (by rw [hpc]; rfl)
      rw [contentOf_created, if_neg hlt.ne']
      exact hreceives hpc
    · exact hh'
  · rw [hnext] at hle
    rw [contentOf_created, if_neg (Nat.ne_of_lt hle)]
    exact hinv.unused (Nat.le_of_succ_le hle)
  · rw [contentOf_created] at hbytes
    split_ifs at hbytes with hnew
    · obtain rfl := Option.some.inj hbytes
      have hlength : ((sentChunk data offset blkSz).write (List.replicate totalLen.toNat 0)).length =
          totalLen.toNat := by
        rw [Chunk.write_length, List.length_replicate]
        rw [sentChunk_length hdata, List.length_replicate, sentChunk, hfirst.offset_eq]
        exact (Nat.zero_add _).le.trans hfirst.blkSz_le
      refine ⟨hlength.le.trans (hfits hnew), fun q hq => ?_⟩
      rw [hpkg, if_pos (hid.trans hnew)] at hq
      obtain rfl := Option.some.inj hq
      refine ⟨hfirst.buff_eq (hfits hnew), ?_⟩
      rw [hlength, hfirst.buffLen_eq]
    · obtain ⟨hmax, hbuff⟩ := hinv.content bytes hbytes
      refine ⟨hmax, fun q hq => ?_⟩
      rw [hpkg, if_neg (fun heq => hnew (hid.symm.trans heq))] at hq
      exact hbuff q hq

theorem ContentInv.putStep_inv (hinv : ContentInv id log s) (hh : s.handlers[i]? = some h)
    {buff : List UInt8} {buffLen : UInt64} (hpc : h.pc = .put buff buffLen)
    (hstep : putStep o buff buffLen s.fdList h = (l', h'))
    (hwf : State.WellFormed ⟨l', s.handlers.set i h'⟩)
    (hfits : ∀ e ∈ handlerEvent s.fdList h l' h', e.Fits id) :
    ContentInv id (log ++ (handlerEvent s.fdList h l' h').toList) ⟨l', s.handlers.set i h'⟩ := by
  have hat := hinv.handlers h (List.mem_of_getElem? hh)
  have hgoto (pkg : Option Nat) (hpkg : pkg = some id → contentOf id log = none) :
      HandlerInv id log ⟨h.request, putPc h.request pkg, h.args⟩ := by
    obtain ⟨ret, hdone⟩ | hrecv := putPc_cases h.request pkg
    · rw [hdone]
      exact hat.goto (.done ret) (by simp) (by simp) h.args
    · rw [hrecv]
      exact ⟨hat.holds, by simp, fun heq => hpkg (Pc.receiving.inj heq)⟩
  obtain ⟨pc, hpc', hput⟩ | ⟨creatTimeUs, hput⟩ := putStep_cases o buff buffLen s.fdList h
  · rw [hput] at hstep
    obtain ⟨rfl, rfl⟩ := Prod.mk.inj hstep
    have hevent : handlerEvent s.fdList h s.fdList { h with pc } = none := by
      rw [handlerEvent]
      split
      · simp only [hpc, lt_irrefl, if_false]
      · rfl
    rw [hevent, Option.toList_none, List.append_nil]
    refine hinv.quiet hwf le_rfl (Or.inr (SameBuff.refl id _)) ?_
    obtain ⟨ret, rfl⟩ | rfl := hpc'
    · exact hat.goto (.done ret) (by simp) (by simp) h.args
    · exact hat.goto (.receiving none) (by simp) (by simp) h.args
  · rw [hput] at hstep
    obtain ⟨rfl, rfl⟩ := Prod.mk.inj hstep
    cases hreq : h.request with
    | pkgSend fd teeIndex totalLen data offset blkSz =>
        have hdata := hat.holds
        rw [hreq] at hdata
        have hevent := hfits (.created s.fdList.next totalLen (sentChunk data offset blkSz))
        simp only [handlerEvent, hreq, hpc, Nat.lt_succ_self, if_true] at hevent hwf ⊢
        refine hinv.created rfl hdata
          (hat.puts buff buffLen fd teeIndex totalLen data offset blkSz hpc hreq)
          (hevent rfl) rfl hwf ?_
        exact ⟨hdata, by rintro _ _ _ _ _ _ _ _ ⟨⟩, by rintro ⟨⟩⟩
    | _ =>
        simp only [handlerEvent, hreq, Option.toList_none, List.append_nil] at hwf ⊢
        have hh' := hgoto (some s.fdList.next) fun heq => hinv.unused (Option.some.inj heq).le
        rw [hreq] at hh'
        refine hinv.quiet hwf (Nat.le_succ _) ?_ hh'
        by_cases hnew : s.fdList.next = id
        · exact Or.inl (hinv.unused hnew.le)
        · refine Or.inr fun p' hp' => ?_
          rw [pkg?_append hinv.wellFormed.fdList rfl, if_neg hnew] at hp'
          exact ⟨p', hp', rfl, rfl⟩

theorem toInt_of_small {n : UInt64} (h : n.toNat ≤ Securec.maxLen) :
    n.toUInt32.toInt32.toInt = n.toNat := by
  rw [Securec.maxLen] at h
  have hmod : n.toUInt32.toNat = n.toNat := by
    rw [UInt64.toNat_toUInt32]
    omega
  rw [← Int32.toInt_toBitVec, UInt32.toBitVec_toInt32, BitVec.toInt_eq_toNat_of_lt,
    UInt32.toNat_toBitVec, hmod]
  rw [UInt32.toNat_toBitVec, hmod]
  omega

theorem chunk_fits {buffLen offset blkSz : UInt64} (hoffset : ¬offset > buffLen)
    (hblk : ¬buffLen - offset < blkSz) : offset.toNat + blkSz.toNat ≤ buffLen.toNat := by
  have hle := UInt64.not_lt.mp hoffset
  have hsub := UInt64.le_iff_toNat_le.mp (UInt64.not_lt.mp hblk)
  rw [UInt64.toNat_sub_of_le _ _ hle] at hsub
  have hle' := UInt64.le_iff_toNat_le.mp hle
  omega

theorem recv_fits {buffLen offset blkSz : UInt64} (hoverflow : ¬offset > 0xFFFFFFFFFFFFFFFF - blkSz)
    (hend : ¬offset + blkSz > buffLen) : offset.toNat + blkSz.toNat ≤ buffLen.toNat := by
  have hle := UInt64.le_iff_toNat_le.mp (UInt64.not_lt.mp hoverflow)
  have hblk : blkSz ≤ 0xFFFFFFFFFFFFFFFF := by
    rw [UInt64.le_iff_toNat_le]
    exact Nat.le_of_lt_succ blkSz.toNat_lt
  rw [UInt64.toNat_sub_of_le _ _ hblk] at hle
  have hmax : (0xFFFFFFFFFFFFFFFF : UInt64).toNat = 2 ^ 64 - 1 := rfl
  have hlt := blkSz.toNat_lt
  have hsum := UInt64.le_iff_toNat_le.mp (UInt64.not_lt.mp hend)
  rw [UInt64.toNat_add, Nat.mod_eq_of_lt (by omega)] at hsum
  exact hsum

/-- A chunk written to a package, and the record of it if the result is not negative. -/
theorem ContentInv.updated (hinv : ContentInv id log s) (hlib : lib.CopiesWithinMax)
    {p : PkgTmpBuf} {k : Nat} (hp : s.fdList.pkg? k = some p) {data : Option (List UInt8)}
    {offset blkSz : UInt64} (hdata : blkSz.toNat ≤ (data.getD []).length)
    (hfit : offset.toNat + blkSz.toNat ≤ p.buffLen.toNat)
    (hl' : l' = s.fdList.modifyPkg p.id fun q =>
      { q with buff := copyChunk lib p data offset blkSz })
    (hwf : State.WellFormed ⟨l', s.handlers.set i h'⟩) (hh' : HandlerInv id log h')
    (hrecv : h'.pc ≠ .receiving (some id)) {event : List PkgEvent}
    (hevent : event = if 0 ≤ blkSz.toUInt32.toInt32.toInt then
      [.updated k (sentChunk data offset blkSz)] else []) :
    ContentInv id (log ++ event) ⟨l', s.handlers.set i h'⟩ := by
  have hid := (FdList.mem_of_pkg? hp).2
  have hnext : s.fdList.next = l'.next := by rw [hl', FdList.modifyPkg]
  -- nothing is promised of the package `id`, unless the chunk is for it and the log knows it
  have hother (hne : k = id → contentOf id log = none) :
      contentOf id (log ++ event) = contentOf id log := by
    rw [hevent]
    split_ifs
    · rw [contentOf_updated]
      split_ifs with hk
      · rw [hne hk]
        rfl
      · rfl
    · rw [List.append_nil]
  by_cases hne : k = id → contentOf id log = none
  · have hlog := hother hne
    have hquiet := hinv.quiet hwf hnext.le ?_ hh'
    · exact ⟨hwf, fun g hg => ⟨(hquiet.handlers g hg).holds, (hquiet.handlers g hg).puts,
        fun hpc => hlog.trans ((hquiet.handlers g hg).receives hpc)⟩,
        fun hle => hlog.trans (hquiet.unused hle), fun bytes hbytes =>
          hquiet.content bytes (hlog.symm.trans hbytes)⟩
    · by_cases hk : k = id
      · exact Or.inl (hne hk)
      · refine Or.inr ?_
        rw [hl', hid]
        exact sameBuff_modifyPkg id k s.fdList (fun _ => rfl) fun heq => absurd heq hk
  · obtain ⟨rfl, hcreated⟩ := Classical.not_imp.mp hne
    obtain ⟨bytes, hbytes⟩ := Option.ne_none_iff_exists'.mp hcreated
    obtain ⟨hmax, hbuff⟩ := hinv.content bytes hbytes
    obtain ⟨hpbuff, hplen⟩ := hbuff p hp
    have hblk : blkSz.toNat ≤ Securec.maxLen := by omega
    have hcopy : copyChunk lib p data offset blkSz = (sentChunk data offset blkSz).write p.buff :=
      copyChunk_eq_write hlib hdata hblk p
    have hresult : 0 ≤ blkSz.toUInt32.toInt32.toInt := by
      rw [toInt_of_small hblk]
      exact Int.natCast_nonneg _
    have hlog : contentOf k (log ++ event) = some ((sentChunk data offset blkSz).write bytes) := by
      rw [hevent, if_pos hresult, contentOf_updated, if_pos rfl, hbytes]
      rfl
    have hlength : ((sentChunk data offset blkSz).write bytes).length = bytes.length := by
      apply Chunk.write_length
      rw [sentChunk_length hdata, ← hplen]
      exact hfit
    refine ⟨hwf, fun g hg => ?_, fun hle => ?_, fun content hcontent => ?_⟩
    · obtain hold | rfl := List.mem_or_eq_of_mem_set hg
      · obtain ⟨hholds, hputs, hreceives⟩ := hinv.handlers g hold
        exact ⟨hholds, hputs, fun hpc => absurd (hreceives hpc) hcreated⟩
      · exact ⟨hh'.holds, hh'.puts, fun hpc => absurd hpc hrecv⟩
    · rw [← hnext] at hle
      exact absurd (hinv.unused hle) hcreated
    · rw [hlog] at hcontent
      obtain rfl := Option.some.inj hcontent
      refine ⟨hlength.le.trans hmax, fun q hq => ?_⟩
      change l'.pkg? k = some q at hq
      rw [hl', FdList.pkg?_modifyPkg p.id k (by intro q; rfl), hp, Option.map_some, if_pos rfl] at hq
      obtain rfl := Option.some.inj hq
      dsimp only
      rw [hcopy, hpbuff, hlength]
      exact ⟨rfl, hplen⟩

theorem ContentInv.workStep_inv (hinv : ContentInv id log s) (hlib : lib.CopiesWithinMax)
    (hh : s.handlers[i]? = some h) {k : Nat} (hpc : h.pc = .working (some k))
    (hsend : ¬(k = id ∧ h.request.isSend = true)) {p : PkgTmpBuf} (hp : s.fdList.pkg? k = some p)
    (hstep : workStep lib o p s.fdList h = (l', h'))
    (hwf : State.WellFormed ⟨l', s.handlers.set i h'⟩) :
    ContentInv id (log ++ (handlerEvent s.fdList h l' h').toList) ⟨l', s.handlers.set i h'⟩ := by
  have hat := hinv.handlers h (List.mem_of_getElem? hh)
  have hid := (FdList.mem_of_pkg? hp).2
  have hquiet (hevent : handlerEvent s.fdList h l' h' = none) (hnext : s.fdList.next ≤ l'.next)
      (hsame : SameBuff id s.fdList l') (hh' : HandlerInv id log h') :
      ContentInv id (log ++ (handlerEvent s.fdList h l' h').toList) ⟨l', s.handlers.set i h'⟩ := by
    rw [hevent, Option.toList_none, List.append_nil]
    exact hinv.quiet hwf hnext (Or.inr hsame) hh'
  have hgoto (pc : Pc) (args : List UInt8) (hput : ∀ buff buffLen, pc ≠ .put buff buffLen)
      (hrecv : pc ≠ .receiving (some id)) := hat.goto pc hput hrecv args
  rw [workStep] at hstep
  cases hreq : h.request with
  | pkgSend fd teeIndex totalLen data offset blkSz =>
      rw [hreq] at hstep hgoto
      dsimp only at hstep
      split_ifs at hstep with hlen hblk
      · obtain ⟨rfl, rfl⟩ := Prod.mk.inj hstep
        exact hquiet (by simp [handlerEvent, hreq, hpc]) le_rfl (SameBuff.refl id _)
          (hgoto _ h.args (by simp) (by simp))
      · obtain ⟨rfl, rfl⟩ := Prod.mk.inj hstep
        exact hquiet (by simp [handlerEvent, hreq, hpc]) le_rfl (SameBuff.refl id _)
          (hgoto _ h.args (by simp) (by simp))
      · obtain ⟨rfl, rfl⟩ := Prod.mk.inj hstep
        have hdata := hat.holds
        rw [hreq] at hdata
        refine hinv.updated hlib hp hdata (chunk_fits (not_or.mp hlen).2 hblk) rfl hwf
          (hgoto _ h.args (by simp) (by simp)) (by simp) ?_
        simp only [handlerEvent, hreq, hpc]
        split_ifs <;> rfl
  | pkgRecv fd teeIndex totalLen offset blkSz =>
      rw [hreq] at hstep hgoto
      dsimp only at hstep
      split_ifs at hstep
      all_goals
        obtain ⟨rfl, rfl⟩ := Prod.mk.inj hstep
        exact hquiet (by simp only [handlerEvent, hreq]) le_rfl (SameBuff.refl id _)
          (hgoto (.release _ _) _ (by simp) (by simp))
  | netSendto fd len teeIndex =>
      rw [hreq] at hstep hgoto
      dsimp only at hstep
      split_ifs at hstep
      · obtain ⟨rfl, rfl⟩ := Prod.mk.inj hstep
        exact hquiet (by simp only [handlerEvent, hreq]) le_rfl (SameBuff.refl id _)
          (hgoto _ h.args (by simp) (by simp))
      · obtain ⟨rfl, rfl⟩ := Prod.mk.inj hstep
        exact hquiet (by simp only [handlerEvent, hreq]) le_rfl (SameBuff.refl id _)
          (hgoto _ h.args (by simp) (by simp))
  | netSendmsg fd bufLen teeIndex =>
      have hother : k ≠ id := fun heq => hsend ⟨heq, by rw [hreq]; rfl⟩
      rw [hreq] at hstep hgoto
      dsimp only at hstep
      split_ifs at hstep
      · obtain ⟨rfl, rfl⟩ := Prod.mk.inj hstep
        exact hquiet (by simp only [handlerEvent, hreq]) le_rfl (SameBuff.refl id _)
          (hgoto _ h.args (by simp) (by simp))
      · cases hmsg : o.constructMsg with
        | none =>
            rw [hmsg] at hstep
            obtain ⟨rfl, rfl⟩ := Prod.mk.inj hstep
            exact hquiet (by simp only [handlerEvent, hreq]) le_rfl (SameBuff.refl id _)
              (hgoto _ h.args (by simp) (by simp))
        | some buff =>
            rw [hmsg] at hstep
            obtain ⟨rfl, rfl⟩ := Prod.mk.inj hstep
            refine hquiet (by simp only [handlerEvent, hreq]) le_rfl ?_
              (hgoto _ h.args (by simp) (by simp))
            rw [hid]
            exact sameBuff_modifyPkg id k s.fdList (by intro q; rfl) fun heq => absurd heq hother
  | _ =>
      rw [hreq] at hstep
      obtain ⟨rfl, rfl⟩ := Prod.mk.inj hstep
      exact hquiet (by simp only [handlerEvent, hreq]) le_rfl (SameBuff.refl id _) hat

theorem ContentInv.handlerStep_inv (hinv : ContentInv id log s) (hlib : lib.CopiesWithinMax)
    (hh : s.handlers[i]? = some h)
    (hsend : ¬(h.pc = .working (some id) ∧ h.request.isSend = true))
    (hstep : handlerStep lib o s.fdList h = some (l', h'))
    (hwf : State.WellFormed ⟨l', s.handlers.set i h'⟩)
    (hfits : ∀ e ∈ handlerEvent s.fdList h l' h', e.Fits id) :
    ContentInv id (log ++ (handlerEvent s.fdList h l' h').toList) ⟨l', s.handlers.set i h'⟩ := by
  have hat := hinv.handlers h (List.mem_of_getElem? hh)
  have hquiet (hput : ∀ buff buffLen, h.pc ≠ .put buff buffLen)
      (hworking : ∀ k, h.pc ≠ .working (some k)) (hnext : s.fdList.next ≤ l'.next)
      (hsame : contentOf id log = none ∨ SameBuff id s.fdList l') (hh' : HandlerInv id log h') :
      ContentInv id (log ++ (handlerEvent s.fdList h l' h').toList) ⟨l', s.handlers.set i h'⟩ := by
    rw [handlerEvent_eq_none hput hworking, Option.toList_none, List.append_nil]
    exact hinv.quiet hwf hnext hsame hh'
  have hsame : contentOf id log = none ∨ SameBuff id s.fdList s.fdList :=
    Or.inr (SameBuff.refl id s.fdList)
  cases handlerStep_cases hstep with
  | start hpc =>
      simp only [hpc] at hquiet
      obtain ⟨hbuff, hnext, hh'⟩ := startStep_inv (o := o) hlib hat s.fdList
      exact hquiet nofun nofun hnext.ge (Or.inr hbuff) hh'
  | put hpc => exact hinv.putStep_inv hh hpc rfl hwf hfits
  | work hpc hp =>
      refine hinv.workStep_inv hlib hh hpc ?_ hp rfl hwf
      rintro ⟨rfl, hreq⟩
      exact hsend ⟨hpc, hreq⟩
  | @sent pkg hpc =>
      simp only [hpc] at hquiet
      exact hquiet nofun nofun le_rfl hsame (hat.goto (.release pkg o.ret) nofun nofun h.args)
  | @release pkg ret ret' l' hpc hrel =>
      simp only [hpc] at hquiet
      have hnext := (fdListReleasePkg_wellFormed hinv.wellFormed.fdList hrel).2
      refine hquiet nofun nofun hnext.ge (Or.inr (sameBuff_release id hrel)) ?_
      split_ifs
      · exact hat.goto (.releaseAgain pkg ret) nofun nofun h.args
      · exact hat.goto (.done ret) nofun nofun h.args
  | @releaseAgain pkg ret ret' l' hpc hrel =>
      simp only [hpc] at hquiet
      have hnext := (fdListReleasePkg_wellFormed hinv.wellFormed.fdList hrel).2
      exact hquiet nofun nofun hnext.ge (Or.inr (sameBuff_release id hrel))
        (hat.goto (.done ret) nofun nofun h.args)
  | @received pkg hpc =>
      simp only [hpc] at hquiet
      have hh' : HandlerInv id log { h with pc := receivedPc h.request pkg o.ret } := by
        obtain ⟨hpc', -⟩ | ⟨hpc', -⟩ | hpc' := receivedPc_cases h.request pkg o.ret
        · rw [hpc']
          exact hat.goto (.releaseIndex pkg o.ret) nofun nofun h.args
        · rw [hpc']
          exact hat.goto (.serialize pkg o.ret) nofun nofun h.args
        · rw [hpc']
          exact hat.goto (.done o.ret) nofun nofun h.args
      cases pkg with
      | none => exact hquiet nofun nofun le_rfl hsame hh'
      | some k =>
          refine hquiet nofun nofun le_rfl ?_ hh'
          by_cases hk : k = id
          · rw [hk] at hpc
            exact Or.inl (hat.receives hpc)
          · exact Or.inr (sameBuff_modifyPkg id k s.fdList (by intro q; rfl)
              fun heq => absurd heq hk)
  | @releaseIndex pkg ret pc hpc hnextPc =>
      simp only [hpc] at hquiet
      have hbuff := sameBuff_releaseByIndex id o.lock h.request.fd h.request.teeIndex s.fdList
      have hnext := next_releaseByIndex o.lock h.request.fd h.request.teeIndex s.fdList
      refine hquiet nofun nofun hnext.ge (Or.inr hbuff) ?_
      cases hnextPc with
      | inl hdone =>
          rw [hdone]
          exact hat.goto (.done ret) nofun nofun h.args
      | inr hserialize =>
          rw [hserialize.2]
          exact hat.goto (.serialize pkg ret) nofun nofun h.args
  | @serialize pkg ret hpc =>
      simp only [hpc] at hquiet
      refine hquiet nofun nofun le_rfl hsame ?_
      split_ifs
      · exact hat.goto (.done ret) nofun nofun h.args
      · exact hat.goto (.freeIoBuf pkg) nofun nofun h.args
  | @freeIoBuf pkg hpc =>
      simp only [hpc] at hquiet
      cases pkg with
      | none => exact hquiet nofun nofun le_rfl hsame (hat.goto (.done (-1)) nofun nofun h.args)
      | some k =>
          exact hquiet nofun nofun le_rfl (Or.inr fun p hp => ⟨p, hp, rfl, rfl⟩)
            (hat.goto (.done (-1)) nofun nofun h.args)

theorem ContentInv.pkgStep_inv {a : Action} (hinv : ContentInv id log s)
    (hlib : lib.CopiesWithinMax) (hdata : a.HoldsData) (hsend : ¬ConsumesPkg id s a)
    (hstep : pkgStep lib s a = some s') (hfits : ∀ e ∈ pkgEvent s a s', e.Fits id) :
    ContentInv id (log ++ (pkgEvent s a s').toList) s' := by
  have hwf := pkgStep_wellFormed hinv.wellFormed hstep
  cases a with
  | request r args =>
      obtain rfl := Option.some.inj hstep
      change ContentInv id (log ++ []) _
      rw [List.append_nil]
      refine ⟨hwf, fun h hh => ?_, hinv.unused, hinv.content⟩
      rw [List.mem_append, List.mem_singleton] at hh
      obtain hold | rfl := hh
      · exact hinv.handlers h hold
      · exact ⟨hdata, nofun, nofun⟩
  | run i o =>
      obtain ⟨h, l', h', hh, hl, rfl⟩ := pkgStep_run hstep
      have hlt : i < s.handlers.length := (List.getElem?_eq_some_iff.mp hh).1
      have hevent : pkgEvent s (.run i o) ⟨l', s.handlers.set i h'⟩ =
          handlerEvent s.fdList h l' h' := by
        simp only [pkgEvent, hh, List.getElem?_set_self hlt]
      rw [hevent] at hfits ⊢
      rw [ConsumesPkg, hh] at hsend
      exact hinv.handlerStep_inv hlib hh hsend hl hwf hfits
  | timeout lock clock =>
      obtain rfl := Option.some.inj hstep
      change ContentInv id (log ++ []) _
      rw [List.append_nil]
      have hnext := (fdListDelTimeoutPkg_wellFormed hinv.wellFormed.fdList lock clock).2
      refine ⟨hwf, hinv.handlers, fun hle => hinv.unused (hnext.ge.trans hle), fun bytes hbytes => ?_⟩
      obtain ⟨hmax, hbuff⟩ := hinv.content bytes hbytes
      refine ⟨hmax, fun p' hp' => ?_⟩
      obtain ⟨p, hp, hpbuff, hplen⟩ := sameBuff_delTimeoutPkg id lock clock s.fdList p' hp'
      rw [hpbuff, hplen]
      exact hbuff p hp

theorem ContentInv.run_inv {actions : List Action} (hinv : ContentInv id log s)
    (hlib : lib.CopiesWithinMax) (hdata : ∀ a ∈ actions, a.HoldsData)
    (hsends : Along (pkgStep lib) (fun t a => ¬ConsumesPkg id t a) s actions)
    (hfits : ∀ e ∈ pkgLog lib s actions, e.Fits id)
    (hexec : exec (pkgStep lib) s actions = some s') :
    ContentInv id (log ++ pkgLog lib s actions) s' := by
  induction actions generalizing s log with
  | nil =>
      obtain rfl := Option.some.inj hexec
      rw [pkgLog, List.append_nil]
      exact hinv
  | cons a actions ih =>
      obtain ⟨t, ht, hrest⟩ := Option.bind_eq_some_iff.mp hexec
      rw [pkgLog, ht] at hfits ⊢
      dsimp only at hfits ⊢
      rw [← List.append_assoc]
      refine ih (hinv.pkgStep_inv hlib (hdata a List.mem_cons_self) hsends.1 ht fun e he => ?_)
        (fun b hb => hdata b (List.mem_cons_of_mem a hb)) (hsends.2 t ht)
        (fun e he => hfits e (List.mem_append_right _ he)) hrest
      exact hfits e (List.mem_append_left _ (Option.mem_toList.mpr he))

theorem initial_contentInv (id : Nat) : ContentInv id [] {} :=
  ⟨initial_wellFormed, nofun, fun _ => rfl, nofun⟩

/-! ### Rejections and receipts -/

theorem pkg?_modifyPkg_of_ne {k : Nat} (hne : k ≠ id) (l : FdList) {f : PkgTmpBuf → PkgTmpBuf}
    (hf : ∀ q, (f q).id = q.id) : (l.modifyPkg k f).pkg? id = l.pkg? id := by
  rw [FdList.pkg?_modifyPkg k id hf]
  cases hp : l.pkg? id with
  | none => rfl
  | some p =>
      have hid : p.id ≠ k := by
        rw [(FdList.mem_of_pkg? hp).2]
        exact hne.symm
      rw [Option.map_some, if_neg hid]

theorem ContentInv.rejectionKeeps {a : Action} {bytes : List UInt8} (hinv : ContentInv id log s)
    (hbytes : contentOf id log = some bytes) (hstep : pkgStep lib s a = some s') :
    RejectionKeeps id s a s' := by
  rintro i o h h' fd teeIndex totalLen data offset blkSz ret rfl hh hh' hreq hdecides hresult
    hneg
  obtain ⟨g, l', g', hg, hl, rfl⟩ := pkgStep_run hstep
  obtain rfl := Option.some.inj (hg.symm.trans hh)
  have hlt : i < s.handlers.length := (List.getElem?_eq_some_iff.mp hh).1
  obtain rfl := Option.some.inj ((List.getElem?_set_self hlt).symm.trans hh')
  change l'.pkg? id = s.fdList.pkg? id
  rw [handlerStep] at hl
  cases hpc : g.pc with
  | start =>
      simp only [hpc, startStep, hreq] at hl
      split_ifs at hl
      · split at hl <;> obtain ⟨rfl, rfl⟩ := Prod.mk.inj (Option.some.inj hl) <;> rfl
      · have hget := Option.some.inj hl
        rw [getPkg] at hget
        cases hlock : o.lock with
        | failed errno =>
            rw [hlock] at hget
            obtain ⟨rfl, -⟩ := Prod.mk.inj hget
            rfl
        | acquired =>
            cases hsearch : fdListSearchPkg s.fdList g.request.fd g.request.teeIndex with
            | none =>
                simp only [fdListGetPkg, hlock, hsearch] at hget
                obtain ⟨rfl, -⟩ := Prod.mk.inj hget
                rfl
            | some p =>
                simp only [fdListGetPkg, hlock, hsearch, if_true] at hget
                obtain ⟨-, rfl⟩ := Prod.mk.inj hget
                obtain hdone | ⟨pkg, hrel⟩ := hresult
                · cases hdone
                · cases hrel
  | put buff buffLen =>
      simp only [hpc, putStep] at hl
      have hput := Option.some.inj hl
      cases hlock : o.lock with
      | failed errno =>
          rw [hlock] at hput
          obtain ⟨rfl, -⟩ := Prod.mk.inj hput
          rfl
      | acquired =>
          cases hsearch : fdListSearchPkg s.fdList g.request.fd g.request.teeIndex with
          | some p =>
              simp only [fdListPutPkg, hlock, hsearch] at hput
              obtain ⟨rfl, -⟩ := Prod.mk.inj hput
              rfl
          | none =>
              cases hcreated : o.created with
              | error errno =>
                  simp only [fdListPutPkg, hlock, hsearch, hcreated] at hput
                  obtain ⟨rfl, -⟩ := Prod.mk.inj hput
                  rfl
              | ok creatTimeUs =>
                  simp only [fdListPutPkg, hlock, hsearch, hcreated, if_true] at hput
                  obtain ⟨-, rfl⟩ := Prod.mk.inj hput
                  rw [hreq] at hresult
                  obtain hdone | ⟨pkg, hrel⟩ := hresult
                  · cases hdone
                    exact absurd (Int.natCast_nonneg _) (not_le.mpr hneg)
                  · cases hrel
  | working pkg =>
      cases pkg with
      | none => simp [hpc] at hl
      | some k =>
          simp only [hpc] at hl
          obtain ⟨p, hp, hwork⟩ := Option.map_eq_some_iff.mp hl
          have hid := (FdList.mem_of_pkg? hp).2
          simp only [workStep, hreq] at hwork
          split_ifs at hwork with hlen hblk
          · obtain ⟨rfl, -⟩ := Prod.mk.inj hwork
            rfl
          · obtain ⟨rfl, -⟩ := Prod.mk.inj hwork
            rfl
          · obtain ⟨rfl, rfl⟩ := Prod.mk.inj hwork
            by_cases hk : k = id
            · obtain rfl := hk
              obtain ⟨hmax, hbuff⟩ := hinv.content bytes hbytes
              have hfit := chunk_fits (not_or.mp hlen).2 hblk
              rw [(hbuff p hp).2] at hfit
              obtain hdone | ⟨pkg, hrel⟩ := hresult
              · cases hdone
              · cases hrel
                rw [toInt_of_small (by omega)] at hneg
                exact absurd (Int.natCast_nonneg _) (not_le.mpr hneg)
            · rw [hid]
              exact pkg?_modifyPkg_of_ne hk s.fdList (by intro q; rfl)
  | _ =>
      rw [hpc] at hdecides
      cases hdecides

theorem ContentInv.receiptExact {a : Action} {bytes : List UInt8} (hinv : ContentInv id log s)
    (hlib : lib.CopiesWithinMax) (hbytes : contentOf id log = some bytes)
    (hstep : pkgStep lib s a = some s') : ReceiptExact id bytes s a s' := by
  rintro i o h h' fd teeIndex totalLen offset blkSz pkg ret rfl hh hh' hreq hpc hpc' hret
  obtain ⟨g, l', g', hg, hl, rfl⟩ := pkgStep_run hstep
  obtain rfl := Option.some.inj (hg.symm.trans hh)
  have hlt : i < s.handlers.length := (List.getElem?_eq_some_iff.mp hh).1
  obtain rfl := Option.some.inj ((List.getElem?_set_self hlt).symm.trans hh')
  simp only [handlerStep, hpc] at hl
  obtain ⟨p, hp, hwork⟩ := Option.map_eq_some_iff.mp hl
  obtain ⟨hmax, hbuff⟩ := hinv.content bytes hbytes
  obtain ⟨hpbuff, hplen⟩ := hbuff p hp
  simp only [workStep, hreq] at hwork
  split_ifs at hwork with hrange hcopied
  · obtain ⟨-, rfl⟩ := Prod.mk.inj hwork
    cases hpc'
    exact absurd hret (by decide)
  · obtain ⟨-, rfl⟩ := Prod.mk.inj hwork
    cases hpc'
    exact absurd hret (by decide)
  · obtain ⟨-, rfl⟩ := Prod.mk.inj hwork
    cases hpc'
    obtain ⟨-, hrest⟩ := not_or.mp hrange
    obtain ⟨hoverflow, hend⟩ := not_or.mp hrest
    have hfit : offset.toNat + blkSz.toNat ≤ bytes.length := by
      rw [← hplen]
      exact recv_fits hoverflow hend
    have haccepted : 0 < g.args.length ∧ g.args.length ≤ Securec.maxLen ∧
        blkSz.toNat ≤ g.args.length := by
      by_contra hrefused
      exact hcopied (hlib.refuses g.args g.args.length (p.buff.drop offset.toNat) blkSz.toNat
        hrefused)
    refine ⟨toInt_of_small (by omega), hfit, ?_⟩
    have hcopy := hlib.copies g.args g.args.length (p.buff.drop offset.toNat) blkSz.toNat
      haccepted.1 haccepted.2.1 haccepted.2.2
    refine (congrArg Prod.snd hcopy).trans ?_
    rw [hpbuff]
    rfl

/-- In every run from the empty list a package that a `PkgSend` created holds, while it is in the list
and no send takes it, the zeros overwritten by the accepted chunks in their order; a rejected chunk
changes nothing, and a successful `PkgRecv` returns the slice it asked for. -/
theorem run_pkgContent (hlib : lib.CopiesWithinMax) {actions : List Action} {bytes : List UInt8}
    (hdata : ∀ a ∈ actions, a.HoldsData) (hfits : ∀ e ∈ pkgLog lib {} actions, e.Fits id)
    (hsends : Along (pkgStep lib) (fun t a => ¬ConsumesPkg id t a) {} actions)
    (hexec : exec (pkgStep lib) {} actions = some s)
    (hbytes : contentOf id (pkgLog lib {} actions) = some bytes) :
    (∀ p, s.fdList.pkg? id = some p → p.buff = bytes) ∧
      ∀ a s', pkgStep lib s a = some s' → RejectionKeeps id s a s' ∧ ReceiptExact id bytes s a s' := by
  have hinv := (initial_contentInv id).run_inv hlib hdata hsends hfits hexec
  rw [List.nil_append] at hinv
  obtain ⟨-, hbuff⟩ := hinv.content bytes hbytes
  refine ⟨fun p hp => (hbuff p hp).1, fun a s' hstep => ⟨?_, ?_⟩⟩
  · exact hinv.rejectionKeeps hbytes hstep
  · exact hinv.receiptExact hlib hbytes hstep

/-- A package of eight bytes: a first chunk, an overlapping one, one that is too long, and a `PkgRecv`
about to read. -/
theorem overlappingChunks_content :
    let send (data : List UInt8) (offset blkSz : UInt64) : Action :=
      .request (.pkgSend 3 7 8 (some data) offset blkSz) []
    let actions := [send [1, 2, 3] 0 3, .run 0 {}, .run 0 {},
      send [9, 9] 2 2, .run 1 {}, .run 1 {}, .run 1 {},
      send [5, 5] 7 2, .run 2 {}, .run 2 {}, .run 2 {},
      .request (.pkgRecv 3 7 8 1 4) [0, 0, 0, 0, 0, 0], .run 3 {}]
    ∃ s, exec (pkgStep Securec.reference) {} actions = some s ∧
      (∀ p, s.fdList.pkg? 0 = some p → p.buff = [1, 2, 9, 9, 0, 0, 0, 0]) ∧
      ∀ a s', pkgStep Securec.reference s a = some s' →
        RejectionKeeps 0 s a s' ∧ ReceiptExact 0 [1, 2, 9, 9, 0, 0, 0, 0] s a s' := by
  intro send actions
  have hrun : ((exec (pkgStep Securec.reference) {} actions).map fun s => s.fdList.next) = some 1 := by
    decide +kernel
  obtain ⟨s, hexec, -⟩ := Option.map_eq_some_iff.mp hrun
  refine ⟨s, hexec, run_pkgContent Securec.reference_copiesWithinMax ?_ ?_ ?_ hexec ?_⟩
  · decide +kernel
  · decide +kernel
  · decide +kernel
  · decide +kernel

end Inv

end ITrustee.Teleport
