import Mathlib.Tactic
import ITrustee.Foundation.RefCount
import ITrustee.Libteec.SessionPool

/-!
# The accounts of the session pool

The sessions opened so far are those below `opened`. Each of them is free, with its bit set, or lent
to one call, or crashed, and the free ones are counted by the semaphore together with the calls that
took a key and have not cleared a bit and with the posts that are due. Bits from `opened` on may be
set, since the bitmap is not initialised. They do no harm: the search takes the lowest bit, and who has
a key finds one below `opened`.
-/

namespace ITrustee.Libteec

open BitSet CInt RefCount

/-! ### What the accounts are about -/

/-- The index a call got from `GetSessionFromPool` and has not put back. -/
def InvokePc.held : InvokePc → Option Int
  | .holding index | .put index _ => some index
  | _ => none

/-- The call passed `sem_wait` and has not cleared a bit. -/
def InvokePc.hasKey : InvokePc → Bool
  | .key => true
  | _ => false

/-- The call set a bit and has not posted. -/
def InvokePc.isPosting : InvokePc → Bool
  | .posting _ => true
  | _ => false

def CreatePc.isPosting : CreatePc → Bool
  | .post .. => true
  | _ => false

/-- The call number `k` holds an index. -/
def Holds (invokes : List InvokePc) (k : Nat) (index : Int) : Prop :=
  ∃ pc, invokes[k]? = some pc ∧ pc.held = some index

/-- The calls between `sem_wait` and the clearing of a bit, and the posts that are due. -/
def inTransit (invokes : List InvokePc) (createFn : CreatePc) : Nat :=
  invokes.countP InvokePc.hasKey + (invokes.countP InvokePc.isPosting + createFn.isPosting.toNat)

structure PoolSound (s : PoolState) : Prop where
  held_distinct : ∀ k l index, Holds s.invokes k index → Holds s.invokes l index → k = l
  held_opened : ∀ k index, Holds s.invokes k index → ∃ i ∈ s.opens, index = (i : Int)
  held_alive : ∀ k index, Holds s.invokes k index → ∀ i ∈ s.crashed, index ≠ (i : Int)
  balanced : s.pool.keys + inTransit s.invokes s.createFn = (toSet s.pool.usage).ncard
  not_corrupted : InvokePc.corrupted ∉ s.invokes

/-! ### The invariant -/

/-- The free sessions. -/
def available (usage : List UInt8) (opened : Nat) : Set Nat := {i | i ∈ toSet usage ∧ i < opened}

/-- How many sessions the runs of `CreateSessionsFn` started so far may open. -/
def openBound (creator : CreatorPc) (poolSize : Nat) : Nat :=
  match creator with
  | .returned _ => poolSize
  | _ => 1

/-- `CreateSessionsFn` runs in the creator or in the worker. -/
def MayRun : CreatorPc → Prop
  | .opening | .returned _ => True
  | .spawn | .failing _ => False

def CreatePc.isFinished : CreatePc → Bool
  | .finished _ => true
  | _ => false

def CreateAt (bound opened : Nat) : CreatePc → Prop
  | .start reqCount => opened + reqCount ≤ bound
  | .call last i | .opening last i | .record last i => i = opened ∧ i < last ∧ last ≤ bound
  | .post last i => i + 1 = opened ∧ last ≤ bound
  | .finished _ => True

/-- The session that is open and not yet counted. -/
def CreatePc.uncounted : CreatePc → Nat
  | .record .. => 1
  | _ => 0

/-- `stale` are the bits that the bitmap was allocated with. -/
structure PoolInv (stale : Set Nat) (s : PoolState) : Prop where
  poolSize_le : s.pool.poolSize ≤ sessionPoolCapMax
  poolSize_pos : 0 < s.pool.poolSize
  usageSize_eq : s.pool.usageSize = s.pool.poolSize
  usage_length : s.pool.usage.length = s.pool.usageSize
  opened_le : s.pool.opened ≤ openBound s.creator s.pool.poolSize
  createAt : CreateAt (openBound s.creator s.pool.poolSize) s.pool.opened s.createFn
  mayRun : s.createFn.isFinished = false → MayRun s.creator
  opens_eq : s.opens = List.range (s.pool.opened + s.createFn.uncounted)
  balance : s.pool.keys + inTransit s.invokes s.createFn =
    (available s.pool.usage s.pool.opened).ncard
  lent : ∀ k index, Holds s.invokes k index →
    ∃ i : Nat, index = i ∧ i < s.pool.opened ∧ i ∉ toSet s.pool.usage ∧ i ∉ s.crashed
  distinct : ∀ k l index, Holds s.invokes k index → Holds s.invokes l index → k = l
  lost : ∀ i ∈ s.crashed, i < s.pool.opened ∧ i ∉ toSet s.pool.usage
  not_corrupted : InvokePc.corrupted ∉ s.invokes
  bits : ∀ i ∈ toSet s.pool.usage, i < s.pool.opened ∨ i ∈ stale

variable {s s' : PoolState} {o : PoolOutcome} {stale : Set Nat}

/-! ### Lists of calls -/

section Lists

variable {invokes : List InvokePc} {k l : Nat} {pc pc' : InvokePc} {index : Int}

theorem holds_set (h : Holds (invokes.set k pc') l index) :
    (l = k ∧ pc'.held = some index) ∨ (l ≠ k ∧ Holds invokes l index) := by
  obtain ⟨q, hq, hheld⟩ := h
  obtain ⟨rfl, rfl⟩ | ⟨hl, hq⟩ := getElem?_set_cases hq
  · exact Or.inl ⟨rfl, hheld⟩
  · exact Or.inr ⟨Ne.symm hl, q, hq, hheld⟩

/-- A call that holds nothing new. -/
theorem holds_of_set (hk : invokes[k]? = some pc) (hheld : pc'.held = none ∨ pc'.held = pc.held)
    (h : Holds (invokes.set k pc') l index) : Holds invokes l index := by
  obtain ⟨rfl, hnew⟩ | ⟨-, hold⟩ := holds_set h
  · obtain hnone | hsame := hheld
    · rw [hnone] at hnew
      cases hnew
    · exact ⟨pc, hk, by rw [← hsame, hnew]⟩
  · exact hold

theorem holds_append_waiting (h : Holds (invokes ++ [.waiting]) l index) :
    Holds invokes l index := by
  obtain ⟨q, hq, hheld⟩ := h
  by_cases hl : l < invokes.length
  · rw [List.getElem?_append_left hl] at hq
    exact ⟨q, hq, hheld⟩
  · rw [List.getElem?_append_right (Nat.le_of_not_lt hl)] at hq
    have hmem := List.mem_of_getElem? hq
    rw [List.mem_singleton.mp hmem] at hheld
    cases hheld

theorem not_mem_set (hpc : pc' ≠ .corrupted) (h : InvokePc.corrupted ∉ invokes) :
    InvokePc.corrupted ∉ invokes.set k pc' := by
  intro hmem
  obtain hmem | heq := List.mem_or_eq_of_mem_set hmem
  · exact h hmem
  · exact hpc heq.symm

end Lists

theorem inTransit_set {invokes : List InvokePc} (createFn : CreatePc) {k : Nat} {pc : InvokePc}
    (pc' : InvokePc) (hk : invokes[k]? = some pc) :
    inTransit (invokes.set k pc') createFn + (pc.hasKey.toNat + pc.isPosting.toNat) =
      inTransit invokes createFn + (pc'.hasKey.toNat + pc'.isPosting.toNat) := by
  have hkey := countP_set_add (b := pc') InvokePc.hasKey hk
  have hpost := countP_set_add (b := pc') InvokePc.isPosting hk
  rw [inTransit, inTransit]
  omega

/-! ### The set of free sessions -/

section Available

variable {usage : List UInt8} {i opened byteMax : Nat}

theorem available_finite (usage : List UInt8) (opened : Nat) : (available usage opened).Finite :=
  (Set.finite_Iio opened).subset fun _ h => h.2

/-- The bit of a session that is not free is set. -/
theorem ncard_available_setBit (hlen : usage.length = byteMax) (hi : i < 8 * byteMax)
    (hfree : i ∉ toSet usage) (hopened : i < opened) :
    (available (setBit i byteMax usage) opened).ncard = (available usage opened).ncard + 1 := by
  have hset : available (setBit i byteMax usage) opened = insert i (available usage opened) := by
    subst hlen
    ext j
    rw [available, toSet_setBit hi]
    constructor
    · intro h
      obtain ⟨rfl | hj, hlt⟩ := h
      · exact Or.inl rfl
      · exact Or.inr ⟨hj, hlt⟩
    · intro h
      obtain rfl | ⟨hj, hlt⟩ := h
      · exact ⟨Or.inl rfl, hopened⟩
      · exact ⟨Or.inr hj, hlt⟩
  rw [hset, Set.ncard_insert_of_notMem (fun h => hfree h.1) (available_finite usage opened)]

/-- A session is counted, and its bit, stale or not, is set. -/
theorem ncard_available_succ (hlen : usage.length = byteMax) (hi : opened < 8 * byteMax) :
    (available (setBit opened byteMax usage) (opened + 1)).ncard =
      (available usage opened).ncard + 1 := by
  have hset : available (setBit opened byteMax usage) (opened + 1) =
      insert opened (available usage opened) := by
    subst hlen
    ext j
    rw [available, toSet_setBit hi]
    constructor
    · intro h
      obtain ⟨rfl | hj, hlt⟩ := h
      · exact Or.inl rfl
      · by_cases heq : j = opened
        · exact Or.inl heq
        · exact Or.inr ⟨hj, lt_of_le_of_ne (Nat.lt_succ_iff.mp hlt) heq⟩
    · intro h
      obtain rfl | ⟨hj, hlt⟩ := h
      · exact ⟨Or.inl rfl, Nat.lt_succ_self _⟩
      · exact ⟨Or.inr hj, Nat.lt_succ_of_lt hlt⟩
  rw [hset, Set.ncard_insert_of_notMem (fun h => lt_irrefl _ h.2) (available_finite usage opened)]

/-- A session is lent. -/
theorem ncard_available_clearBit (hlen : usage.length = byteMax) (hi : i ∈ available usage opened) :
    (available (clearBit i byteMax usage) opened).ncard + 1 = (available usage opened).ncard := by
  have hset : available (clearBit i byteMax usage) opened = available usage opened \ {i} := by
    subst hlen
    ext j
    rw [available, toSet_clearBit (lt_of_mem hi.1)]
    constructor
    · intro h
      exact ⟨⟨h.1.1, h.2⟩, h.1.2⟩
    · intro h
      exact ⟨⟨h.1.1, h.2⟩, h.1.2⟩
  rw [hset, Set.ncard_sdiff_singleton_add_one hi (available_finite usage opened)]

end Available

/-! ### Steps of the creator and of the worker -/

theorem createLoop_at {bound last i : Nat} (ret : UInt32) (h : last ≤ bound) :
    CreateAt bound i (createLoop last i ret) := by
  rw [createLoop]
  split
  · exact ⟨rfl, ‹_›, h⟩
  · trivial

theorem createLoop_uncounted (last i : Nat) (ret : UInt32) :
    (createLoop last i ret).uncounted = 0 := by
  rw [createLoop]
  split <;> rfl

theorem createLoop_isPosting (last i : Nat) (ret : UInt32) :
    (createLoop last i ret).isPosting = false := by
  rw [createLoop]
  split <;> rfl

theorem openBound_le (creator : CreatorPc) {poolSize : Nat} (h : 0 < poolSize) :
    openBound creator poolSize ≤ poolSize := by
  cases creator with
  | returned => exact le_rfl
  | opening | spawn | failing => exact h

/-- Every session has a bit. -/
theorem PoolInv.lt_bits (h : PoolInv stale s) {i : Nat} (hi : i < s.pool.poolSize) :
    i < 8 * s.pool.usageSize := by
  rw [h.usageSize_eq]
  omega

theorem PoolInv.mem_setBit (h : PoolInv stale s) {i j : Nat} (hi : i < s.pool.poolSize) :
    j ∈ toSet (setBit i s.pool.usageSize s.pool.usage) ↔ j = i ∨ j ∈ toSet s.pool.usage := by
  have hbits := h.lt_bits hi
  have hlen := h.usage_length
  rw [← hlen] at hbits ⊢
  rw [toSet_setBit hbits, Set.mem_insert_iff]

/-- A step of `CreateSessionsFn` that counts nothing. -/
theorem PoolInv.setCreateFn (h : PoolInv stale s) (pc : CreatePc) {isDead : Nat → Bool} {keys : Nat}
    {opens : List Nat} (hrun : MayRun s.creator)
    (hat : CreateAt (openBound s.creator s.pool.poolSize) s.pool.opened pc)
    (hopens : opens = List.range (s.pool.opened + pc.uncounted))
    (hkeys : keys + pc.isPosting.toNat = s.pool.keys + s.createFn.isPosting.toNat) :
    PoolInv stale { s with pool := { s.pool with isDead, keys }, createFn := pc, opens } := by
  have hbalance : keys + inTransit s.invokes pc =
      (available s.pool.usage s.pool.opened).ncard := by
    rw [← h.balance, inTransit, inTransit]
    omega
  exact { h with createAt := hat, mayRun := fun _ => hrun, opens_eq := hopens, balance := hbalance }

/-- The session that was opened is counted. -/
theorem PoolInv.record (h : PoolInv stale s) {last i : Nat} (hpc : s.createFn = .record last i) :
    PoolInv stale { s with pool := recordSession s.pool i, createFn := .post last i } := by
  have hat := h.createAt
  have hopens := h.opens_eq
  have hbalance := h.balance
  rw [hpc] at hat hopens hbalance
  obtain ⟨rfl, hlt, hle⟩ := hat
  have hsize : s.pool.opened < s.pool.poolSize :=
    (hlt.trans_le hle).trans_le (openBound_le s.creator h.poolSize_pos)
  have hbalance' : s.pool.keys + inTransit s.invokes (.post last s.pool.opened) =
      (available (setBit s.pool.opened s.pool.usageSize s.pool.usage) (s.pool.opened + 1)).ncard := by
    rw [ncard_available_succ h.usage_length (h.lt_bits hsize), ← hbalance]
    rfl
  refine { h with
    usage_length := (setBit_length _).trans h.usage_length
    opened_le := hlt.trans_le hle
    createAt := ⟨rfl, hle⟩
    mayRun := fun _ => h.mayRun (by rw [hpc]; rfl)
    opens_eq := hopens
    balance := hbalance'
    lent := fun k index hk => ?_
    lost := fun i hi => ?_
    bits := fun i hi => ?_ }
  · obtain ⟨i, rfl, hi, hfree, halive⟩ := h.lent k index hk
    refine ⟨i, rfl, Nat.lt_succ_of_lt hi, ?_, halive⟩
    rw [recordSession, h.mem_setBit hsize]
    exact not_or.mpr ⟨hi.ne, hfree⟩
  · obtain ⟨hopened, hfree⟩ := h.lost i hi
    refine ⟨Nat.lt_succ_of_lt hopened, ?_⟩
    rw [recordSession, h.mem_setBit hsize]
    exact not_or.mpr ⟨hopened.ne, hfree⟩
  · rw [recordSession, h.mem_setBit hsize] at hi
    obtain rfl | hi := hi
    · exact Or.inl (Nat.lt_succ_self _)
    · exact (h.bits i hi).imp_left Nat.lt_succ_of_lt

theorem PoolInv.createStep_inv (h : PoolInv stale s) (hstep : createStep o s = some s') :
    PoolInv stale s' := by
  have hat := h.createAt
  have hopens := h.opens_eq
  have hrun := h.mayRun
  rw [createStep] at hstep
  cases hpc : s.createFn with
  | start reqCount =>
      rw [hpc] at hstep hat hopens hrun
      obtain rfl := Option.some.inj hstep
      apply h.setCreateFn _ (hrun rfl) (createLoop_at _ hat)
      · rw [createLoop_uncounted, hopens]
        rfl
      · rw [createLoop_isPosting, hpc]
        rfl
  | call last i =>
      rw [hpc] at hstep hat hopens hrun
      obtain rfl := Option.some.inj hstep
      exact h.setCreateFn _ (hrun rfl) hat hopens (by rw [hpc]; rfl)
  | opening last i =>
      rw [hpc] at hstep hat hopens hrun
      dsimp only at hstep
      split_ifs at hstep
      · obtain rfl := Option.some.inj hstep
        exact h.setCreateFn _ (hrun rfl) trivial hopens (by rw [hpc]; rfl)
      · obtain rfl := Option.some.inj hstep
        obtain ⟨rfl, hlt, hle⟩ := hat
        apply h.setCreateFn (.record last s.pool.opened) (hrun rfl) ⟨rfl, hlt, hle⟩
        · rw [hopens]
          exact List.range_succ.symm
        · rw [hpc]
          rfl
  | record last i =>
      rw [hpc] at hstep
      obtain rfl := Option.some.inj hstep
      exact h.record hpc
  | post last i =>
      rw [hpc] at hstep hat hopens hrun
      obtain rfl := Option.some.inj hstep
      obtain ⟨hi, hle⟩ := hat
      rw [← hi] at hopens
      apply h.setCreateFn _ (hrun rfl)
      · rw [← hi]
        exact createLoop_at _ hle
      · rw [createLoop_uncounted, hopens, ← hi]
        rfl
      · rw [createLoop_isPosting, hpc]
        rfl
  | finished ret =>
      rw [hpc] at hstep
      cases hstep

theorem PoolInv.setCreator (h : PoolInv stale s) (creator : CreatorPc) (pc : CreatePc)
    (destroy : Option DestroyPc)
    (hopened : s.pool.opened ≤ openBound creator s.pool.poolSize)
    (hat : CreateAt (openBound creator s.pool.poolSize) s.pool.opened pc)
    (hrun : pc.isFinished = false → MayRun creator)
    (huncounted : pc.uncounted = s.createFn.uncounted)
    (hposting : pc.isPosting = s.createFn.isPosting) :
    PoolInv stale { s with creator, createFn := pc, destroy } := by
  have hopens : s.opens = List.range (s.pool.opened + pc.uncounted) := by
    rw [huncounted, h.opens_eq]
  have hbalance : s.pool.keys + inTransit s.invokes pc =
      (available s.pool.usage s.pool.opened).ncard := by
    rw [inTransit, hposting]
    exact h.balance
  exact { h with
    opened_le := hopened
    createAt := hat
    mayRun := hrun
    opens_eq := hopens
    balance := hbalance }

/-- Between the two runs of `CreateSessionsFn` nothing is under way in it. -/
theorem PoolInv.finished (h : PoolInv stale s) (hrun : ¬ MayRun s.creator) :
    ∃ ret, s.createFn = .finished ret := by
  have hmay := h.mayRun
  cases hpc : s.createFn with
  | finished ret => exact ⟨ret, rfl⟩
  | start | call | opening | record | post =>
      rw [hpc] at hmay
      exact absurd (hmay rfl) hrun

theorem PoolInv.creatorStep_inv (h : PoolInv stale s) (hstep : creatorStep o s = some s') :
    PoolInv stale s' := by
  have hopened := h.opened_le
  have hfinished := h.finished
  rw [creatorStep] at hstep
  cases hcreator : s.creator with
  | opening =>
      rw [hcreator] at hopened
      rw [hcreator] at hstep
      cases hpc : s.createFn with
      | finished ret =>
          rw [hpc] at hstep
          dsimp only at hstep
          split_ifs at hstep
          · obtain rfl := Option.some.inj hstep
            refine h.setCreator (.failing ret) (.finished ret) _ hopened trivial nofun ?_ ?_
            · rw [hpc]
            · rw [hpc]
          · obtain rfl := Option.some.inj hstep
            refine h.setCreator .spawn (.finished ret) _ hopened trivial nofun ?_ ?_
            · rw [hpc]
            · rw [hpc]
      | start | call | opening | record | post =>
          rw [hpc] at hstep
          cases hstep
  | spawn =>
      rw [hcreator] at hstep hopened hfinished
      obtain ⟨ret, hpc⟩ := hfinished id
      have hle : s.pool.opened ≤ 1 := hopened
      have hpos := h.poolSize_pos
      dsimp only at hstep
      split_ifs at hstep
      · obtain rfl := Option.some.inj hstep
        refine h.setCreator (.returned teecSuccess) (.start _) _ (hle.trans hpos) ?_
          (fun _ => trivial) ?_ ?_
        · show s.pool.opened + (s.pool.poolSize - 1) ≤ s.pool.poolSize
          omega
        · rw [hpc]
          rfl
        · rw [hpc]
          rfl
      · obtain rfl := Option.some.inj hstep
        refine h.setCreator (.failing teecErrorGeneric) s.createFn _ hopened ?_ ?_ rfl rfl
        · rw [hpc]
          trivial
        · rw [hpc]
          exact nofun
  | failing ret =>
      rw [hcreator] at hstep hopened hfinished
      obtain ⟨ret', hpc⟩ := hfinished id
      have hle : s.pool.opened ≤ 1 := hopened
      have hpos := h.poolSize_pos
      dsimp only at hstep
      split_ifs at hstep
      obtain rfl := Option.some.inj hstep
      refine h.setCreator (.returned ret) s.createFn s.destroy (hle.trans hpos) ?_
        (fun _ => trivial) rfl rfl
      rw [hpc]
      trivial
  | returned ret =>
      rw [hcreator] at hstep
      cases hstep

/-! ### Steps of the calls -/

section Calls

variable {k : Nat} {pc : InvokePc}

/-- A step that lends nothing and takes nothing back. -/
theorem PoolInv.rerun (h : PoolInv stale s) (hk : s.invokes[k]? = some pc) {pc' : InvokePc} {keys : Nat}
    (hheld : pc'.held = none ∨ pc'.held = pc.held) (hsound : pc' ≠ .corrupted)
    (hkeys : keys + (pc'.hasKey.toNat + pc'.isPosting.toNat) =
      s.pool.keys + (pc.hasKey.toNat + pc.isPosting.toNat)) :
    PoolInv stale { s with pool := { s.pool with keys }, invokes := s.invokes.set k pc' } := by
  have hbalance : keys + inTransit (s.invokes.set k pc') s.createFn =
      (available s.pool.usage s.pool.opened).ncard := by
    have hset := inTransit_set s.createFn pc' hk
    rw [← h.balance]
    omega
  exact { h with
    balance := hbalance
    lent := fun l index hl => h.lent l index (holds_of_set hk hheld hl)
    distinct := fun l m index hl hm =>
      h.distinct l m index (holds_of_set hk hheld hl) (holds_of_set hk hheld hm)
    not_corrupted := not_mem_set hsound h.not_corrupted }

/-- Who took a key finds the bit of an opened session. -/
theorem PoolInv.getSession_eq (h : PoolInv stale s) (hk : s.invokes[k]? = some .key) :
    ∃ i ∈ available s.pool.usage s.pool.opened,
      getSession s.pool = (.holding i, { s.pool with
        usage := clearBit i s.pool.usageSize s.pool.usage, inuse := s.pool.inuse + 1 }) := by
  have hbalance := h.balance
  have htransit := inTransit_set s.createFn .waiting hk
  have hcard : 0 < (available s.pool.usage s.pool.opened).ncard := by
    simp only [InvokePc.hasKey, InvokePc.isPosting, Bool.toNat_true, Bool.toNat_false] at htransit
    omega
  obtain ⟨j, hj⟩ := (Set.ncard_pos (available_finite _ _)).mp hcard
  have hlen : s.pool.usage.length ≤ 2 ^ 28 := by
    have hle := h.poolSize_le
    rw [sessionPoolCapMax] at hle
    rw [h.usage_length, h.usageSize_eq]
    omega
  obtain ⟨-, hnone⟩ | ⟨i, hi, hleast, hget⟩ := getAndCleartBit_spec hlen
  · exact absurd hj.1 (hnone j)
  · have hle : i ≤ j := Nat.le_of_not_lt fun hlt => hleast j hlt hj.1
    refine ⟨i, ⟨hi, hle.trans_lt hj.2⟩, ?_⟩
    rw [h.usage_length] at hget
    rw [getSession, hget, if_neg (by omega)]

theorem PoolInv.lend (h : PoolInv stale s) (hk : s.invokes[k]? = some .key) :
    PoolInv stale { s with
      pool := (getSession s.pool).2, invokes := s.invokes.set k (getSession s.pool).1 } := by
  obtain ⟨i, hi, hget⟩ := h.getSession_eq hk
  have hmem (j : Nat) : j ∈ toSet (clearBit i s.pool.usageSize s.pool.usage) ↔
      j ∈ toSet s.pool.usage ∧ j ≠ i := by
    have hbits := lt_of_mem hi.1
    rw [← h.usage_length, toSet_clearBit hbits]
    exact Iff.rfl
  have hbalance : s.pool.keys + inTransit (s.invokes.set k (.holding i)) s.createFn =
      (available (clearBit i s.pool.usageSize s.pool.usage) s.pool.opened).ncard := by
    have hset := inTransit_set s.createFn (.holding i) hk
    have hclear := ncard_available_clearBit h.usage_length hi
    simp only [InvokePc.hasKey, InvokePc.isPosting, Bool.toNat_true, Bool.toNat_false] at hset
    rw [← h.balance] at hclear
    omega
  rw [hget]
  refine { h with
    usage_length := (clearBit_length _).trans h.usage_length
    balance := hbalance
    lent := fun l index hl => ?_
    distinct := fun l m index hl hm => ?_
    lost := fun j hj => ⟨(h.lost j hj).1, fun hbit => (h.lost j hj).2 ((hmem j).mp hbit).1⟩
    not_corrupted := not_mem_set nofun h.not_corrupted
    bits := fun j hj => h.bits j ((hmem j).mp hj).1 }
  · obtain ⟨rfl, hnew⟩ | ⟨-, hold⟩ := holds_set hl
    · refine ⟨i, (Option.some.inj hnew).symm, hi.2, fun hbit => ((hmem i).mp hbit).2 rfl, ?_⟩
      exact fun hcrash => (h.lost i hcrash).2 hi.1
    · obtain ⟨j, rfl, hopened, hfree, halive⟩ := h.lent l index hold
      exact ⟨j, rfl, hopened, fun hbit => hfree ((hmem j).mp hbit).1, halive⟩
  · have hother (l : Nat) : ¬ Holds s.invokes l (i : Int) := by
      intro hold
      obtain ⟨j, hj, -, hfree, -⟩ := h.lent l i hold
      obtain rfl := Int.ofNat.inj hj
      exact hfree hi.1
    obtain ⟨rfl, hnew⟩ | ⟨-, hold⟩ := holds_set hl
    · obtain ⟨rfl, -⟩ | ⟨-, hold'⟩ := holds_set hm
      · rfl
      · rw [← Option.some.inj hnew] at hold'
        exact absurd hold' (hother m)
    · obtain ⟨rfl, hnew⟩ | ⟨-, hold'⟩ := holds_set hm
      · rw [← Option.some.inj hnew] at hold
        exact absurd hold (hother l)
      · exact h.distinct l m index hold hold'

/-- The other calls hold other sessions. -/
theorem PoolInv.other_ne (h : PoolInv stale s) {i j l : Nat} (hk : Holds s.invokes k i) (hl : l ≠ k)
    (hj : Holds s.invokes l j) : j ≠ i := by
  rintro rfl
  exact hl (h.distinct l k j hj hk)

theorem PoolInv.giveBack (h : PoolInv stale s) {index : Int} {ret : UInt32}
    (hk : s.invokes[k]? = some (.put index ret)) :
    PoolInv stale { s with
      pool := putSession s.pool index, invokes := s.invokes.set k (.posting ret) } := by
  obtain ⟨i, rfl, hopened, hfree, halive⟩ := h.lent k index ⟨_, hk, rfl⟩
  have hholds : Holds s.invokes k i := ⟨_, hk, rfl⟩
  have hsize : i < s.pool.poolSize :=
    (hopened.trans_le h.opened_le).trans_le (openBound_le s.creator h.poolSize_pos)
  have hcap := h.poolSize_le
  rw [sessionPoolCapMax] at hcap
  have hindex : toU32 (i : Int) = i := toU32_of_lt rfl (by omega)
  have hbalance : s.pool.keys + inTransit (s.invokes.set k (.posting ret)) s.createFn =
      (available (setBit i s.pool.usageSize s.pool.usage) s.pool.opened).ncard := by
    have hset := inTransit_set s.createFn (.posting ret) hk
    simp only [InvokePc.hasKey, InvokePc.isPosting, Bool.toNat_true, Bool.toNat_false] at hset
    rw [ncard_available_setBit h.usage_length (h.lt_bits hsize) hfree hopened, ← h.balance]
    omega
  rw [putSession, hindex]
  refine { h with
    usage_length := (setBit_length _).trans h.usage_length
    balance := hbalance
    lent := fun l index hl => ?_
    distinct := fun l m index hl hm =>
      h.distinct l m index (holds_of_set hk (Or.inl rfl) hl) (holds_of_set hk (Or.inl rfl) hm)
    lost := fun j hj => ⟨(h.lost j hj).1, ?_⟩
    not_corrupted := not_mem_set nofun h.not_corrupted
    bits := fun j hj => ?_ }
  · obtain ⟨-, hnew⟩ | ⟨hne, hold⟩ := holds_set hl
    · cases hnew
    · obtain ⟨j, rfl, hj, hjfree, hjalive⟩ := h.lent l index hold
      refine ⟨j, rfl, hj, ?_, hjalive⟩
      rw [h.mem_setBit hsize]
      exact not_or.mpr ⟨h.other_ne hholds hne hold, hjfree⟩
  · rw [h.mem_setBit hsize]
    refine not_or.mpr ⟨?_, (h.lost j hj).2⟩
    rintro rfl
    exact halive hj
  · rw [h.mem_setBit hsize] at hj
    obtain rfl | hj := hj
    · exact Or.inl hopened
    · exact h.bits j hj

theorem PoolInv.crash (h : PoolInv stale s) {index : Int} {ret : UInt32} {isDead : Nat → Bool}
    (hk : s.invokes[k]? = some (.holding index)) :
    PoolInv stale { s with
      pool := { s.pool with isDead }
      invokes := s.invokes.set k (.returned ret)
      crashed := s.crashed ++ [index.toNat] } := by
  obtain ⟨i, rfl, hopened, hfree, halive⟩ := h.lent k index ⟨_, hk, rfl⟩
  have hholds : Holds s.invokes k i := ⟨_, hk, rfl⟩
  have hbalance : s.pool.keys + inTransit (s.invokes.set k (.returned ret)) s.createFn =
      (available s.pool.usage s.pool.opened).ncard := by
    have hset := inTransit_set s.createFn (.returned ret) hk
    simp only [InvokePc.hasKey, InvokePc.isPosting, Bool.toNat_false] at hset
    rw [← h.balance]
    omega
  rw [Int.toNat_natCast]
  refine { h with
    balance := hbalance
    lent := fun l index hl => ?_
    distinct := fun l m index hl hm =>
      h.distinct l m index (holds_of_set hk (Or.inl rfl) hl) (holds_of_set hk (Or.inl rfl) hm)
    lost := fun j hj => ?_
    not_corrupted := not_mem_set nofun h.not_corrupted }
  · obtain ⟨-, hnew⟩ | ⟨hne, hold⟩ := holds_set hl
    · cases hnew
    · obtain ⟨j, rfl, hj, hjfree, hjalive⟩ := h.lent l index hold
      refine ⟨j, rfl, hj, hjfree, fun hmem => ?_⟩
      obtain hmem | hmem := List.mem_append.mp hmem
      · exact hjalive hmem
      · exact h.other_ne hholds hne hold (List.mem_singleton.mp hmem)
  · obtain hj | hj := List.mem_append.mp hj
    · exact h.lost j hj
    · rw [List.mem_singleton.mp hj]
      exact ⟨hopened, hfree⟩

theorem PoolInv.runStep_inv (h : PoolInv stale s) (hk : s.invokes[k]? = some pc)
    (hstep : runStep o k s pc = some s') : PoolInv stale s' := by
  cases pc with
  | waiting =>
      rw [runStep] at hstep
      split_ifs at hstep with _ hkeys
      · obtain rfl := Option.some.inj hstep
        exact h
      · obtain rfl := Option.some.inj hstep
        refine h.rerun hk (Or.inl rfl) nofun ?_
        simp only [InvokePc.hasKey, InvokePc.isPosting, Bool.toNat_true, Bool.toNat_false]
        omega
  | key =>
      obtain rfl := Option.some.inj hstep
      exact h.lend hk
  | corrupted => exact absurd (List.mem_of_getElem? hk) h.not_corrupted
  | holding index =>
      rw [runStep] at hstep
      split_ifs at hstep
      · obtain rfl := Option.some.inj hstep
        exact h.crash hk
      · obtain rfl := Option.some.inj hstep
        exact h.rerun hk (Or.inr rfl) nofun rfl
  | put index ret =>
      obtain rfl := Option.some.inj hstep
      exact h.giveBack hk
  | posting ret =>
      obtain rfl := Option.some.inj hstep
      exact h.rerun hk (Or.inl rfl) nofun rfl
  | returned ret => cases hstep

end Calls

/-! ### Runs -/

theorem PoolInv.destroyStep_inv (h : PoolInv stale s) (hstep : destroyStep s = some s') :
    PoolInv stale s' := by
  rw [destroyStep] at hstep
  split at hstep
  · split at hstep <;> obtain rfl := Option.some.inj hstep <;> exact { h with }
  · obtain rfl := Option.some.inj hstep
    exact { h with }
  · cases hstep
  · cases hstep

theorem PoolInv.poolStep_inv {a : PoolAction} (h : PoolInv stale s) (hstep : poolStep s a = some s') :
    PoolInv stale s' := by
  cases a with
  | create o =>
      rw [poolStep] at hstep
      split_ifs at hstep
      exact h.createStep_inv hstep
  | creator o => exact h.creatorStep_inv hstep
  | invoke =>
      rw [poolStep] at hstep
      split_ifs at hstep
      obtain rfl := Option.some.inj hstep
      have htransit : inTransit (s.invokes ++ [.waiting]) s.createFn =
          inTransit s.invokes s.createFn := by
        rw [inTransit, List.countP_append, List.countP_append]
        rfl
      refine { h with
        balance := ?_
        lent := fun k index hk => h.lent k index (holds_append_waiting hk)
        distinct := fun k l index hk hl =>
          h.distinct k l index (holds_append_waiting hk) (holds_append_waiting hl)
        not_corrupted := ?_ }
      · exact (congrArg (s.pool.keys + ·) htransit).trans h.balance
      · intro hmem
        obtain hmem | hmem := List.mem_append.mp hmem
        · exact h.not_corrupted hmem
        · cases List.mem_singleton.mp hmem
  | run k o =>
      rw [poolStep] at hstep
      split_ifs at hstep
      obtain ⟨pc, hk, hrun⟩ := Option.bind_eq_some_iff.mp hstep
      exact h.runStep_inv hk hrun
  | destroy =>
      rw [poolStep] at hstep
      split_ifs at hstep
      obtain rfl := Option.some.inj hstep
      exact { h with }
  | destroyStep => exact h.destroyStep_inv hstep

theorem sessionPoolCreate_eq {poolSize : Nat} {isDead : Nat → Bool} {usage : List UInt8}
    (hcreate : sessionPoolCreate poolSize isDead usage = some s) :
    s = { pool := { poolSize, isDead, usage, usageSize := poolSize } } ∧
      usage.length = poolSize ∧ sessionPoolCapMin ≤ poolSize ∧ poolSize ≤ sessionPoolCapMax := by
  have hsize : poolSize / 1 + (if poolSize % 1 ≠ 0 then 1 else 0) = poolSize := by
    rw [Nat.mod_one, Nat.div_one, if_neg (not_not.mpr rfl), Nat.add_zero]
  rw [sessionPoolCreate] at hcreate
  simp only [hsize] at hcreate
  split_ifs at hcreate with hrange hlen
  rw [not_or, Nat.not_lt, Nat.not_lt] at hrange
  exact ⟨(Option.some.inj hcreate).symm, not_not.mp hlen, hrange.2, hrange.1⟩

theorem sessionPoolCreate_inv {poolSize : Nat} {isDead : Nat → Bool} {usage : List UInt8}
    (hcreate : sessionPoolCreate poolSize isDead usage = some s) :
    PoolInv (toSet usage) s := by
  obtain ⟨rfl, hlen, hmin, hmax⟩ := sessionPoolCreate_eq hcreate
  have havailable : available usage 0 = ∅ := Set.eq_empty_of_forall_notMem fun i hi => by
    exact absurd hi.2 (Nat.not_lt_zero i)
  exact
    { poolSize_le := hmax
      poolSize_pos := lt_of_lt_of_le (by decide) hmin
      usageSize_eq := rfl
      usage_length := hlen
      opened_le := Nat.zero_le _
      createAt := le_rfl
      mayRun := fun _ => trivial
      opens_eq := rfl
      balance := by
        rw [havailable, Set.ncard_empty]
        rfl
      lent := by
        intro k index hk
        obtain ⟨pc, hpc, -⟩ := hk
        cases hpc
      distinct := by
        intro k l index hk
        obtain ⟨pc, hpc, -⟩ := hk
        cases hpc
      lost := nofun
      not_corrupted := nofun
      bits := fun i hi => Or.inr hi }

/-- In every run. -/
theorem run_poolInv {poolSize : Nat} {isDead : Nat → Bool} {usage : List UInt8} {s₀ : PoolState}
    (hcreate : sessionPoolCreate poolSize isDead usage = some s₀) {is : List PoolAction}
    (hrun : Machine.exec poolStep s₀ is = some s) : PoolInv (toSet usage) s :=
  Machine.exec_invariant (PoolInv (toSet usage)) (fun _ _ _ h hstep => h.poolStep_inv hstep)
    (sessionPoolCreate_inv hcreate) hrun

theorem PoolInv.mem_opens (h : PoolInv stale s) {i : Nat} (hi : i < s.pool.opened) :
    i ∈ s.opens := by
  rw [h.opens_eq, List.mem_range]
  omega

/-- Started with a zero bitmap, a pool keeps its accounts in every run. -/
theorem run_poolSound {poolSize : Nat} {isDead : Nat → Bool} {s₀ : PoolState}
    (hcreate : sessionPoolCreate poolSize isDead (List.replicate poolSize 0) = some s₀)
    {is : List PoolAction} (hrun : Machine.exec poolStep s₀ is = some s) : PoolSound s := by
  have h := run_poolInv hcreate hrun
  have hzero : toSet (List.replicate poolSize 0) = ∅ := by
    refine Set.eq_empty_of_forall_notMem fun i hi => ?_
    obtain ⟨b, hb, hbit⟩ := hi
    rw [List.eq_of_mem_replicate (List.mem_of_getElem? hb)] at hbit
    simp at hbit
  have hbits : available s.pool.usage s.pool.opened = toSet s.pool.usage := by
    ext i
    refine ⟨fun hi => hi.1, fun hi => ⟨hi, ?_⟩⟩
    have hor := h.bits i hi
    rw [hzero] at hor
    exact hor.resolve_right (Set.notMem_empty i)
  have hbalance := h.balance
  rw [hbits] at hbalance
  refine ⟨h.distinct, fun k index hk => ?_, fun k index hk i hi => ?_, hbalance, h.not_corrupted⟩
  · obtain ⟨i, rfl, hi, -⟩ := h.lent k index hk
    exact ⟨i, h.mem_opens hi, rfl⟩
  · obtain ⟨j, rfl, -, -, halive⟩ := h.lent k index hk
    intro heq
    rw [Int.ofNat.inj heq] at halive
    exact halive hi

/-- The first session is open, the worker opens another one, and a call has taken the only key. -/
def firstKey : List PoolAction :=
  List.replicate 5 (.create {}) ++ [.creator {}, .creator {}, .invoke, .invoke, .run 0 {}] ++
    List.replicate 3 (.create {})

/-- The first call's session crashes, and the second call waits for the one the worker opens. -/
def crashRun : List PoolAction :=
  firstKey ++ [.run 0 {}, .create {}, .create {}, .run 1 {}, .run 1 {},
    .run 0 { ret := teecErrorTargetDead }, .run 1 {}, .run 1 {}, .run 1 {}]

theorem crashRun_sound :
    ∃ s₀ s, sessionPoolCreate 5 (fun _ => true) (List.replicate 5 0) = some s₀ ∧
      Machine.exec poolStep s₀ crashRun = some s ∧ s.crashed = [0] ∧ PoolSound s := by
  have hall : ((sessionPoolCreate 5 (fun _ => true) (List.replicate 5 0)).bind fun s₀ =>
      Machine.exec poolStep s₀ crashRun).map (·.crashed) = some [0] := by
    decide +kernel
  obtain ⟨s, hs, hcrashed⟩ := Option.map_eq_some_iff.mp hall
  obtain ⟨s₀, hcreate, hrun⟩ := Option.bind_eq_some_iff.mp hs
  exact ⟨s₀, s, hcreate, hrun, hcrashed, run_poolSound hcreate hrun⟩

/-- Whatever the bitmap was allocated with, in every run `GetSessionFromPool` returns an index of an
opened session. -/
theorem run_getSession_opened {poolSize : Nat} {isDead : Nat → Bool} {usage : List UInt8}
    {s₀ : PoolState} (hcreate : sessionPoolCreate poolSize isDead usage = some s₀)
    {is : List PoolAction} (hrun : Machine.exec poolStep s₀ is = some s) {k : Nat}
    (hk : s.invokes[k]? = some .key) :
    ∃ i ∈ s.opens, i < s.pool.poolSize ∧ (getSession s.pool).1 = .holding i := by
  have h := run_poolInv hcreate hrun
  obtain ⟨i, hi, hget⟩ := h.getSession_eq hk
  have hopened := h.opened_le.trans (openBound_le s.creator h.poolSize_pos)
  refine ⟨i, h.mem_opens hi.2, hi.2.trans_le hopened, ?_⟩
  rw [hget]

/-- A bitmap of ones: the call gets the session that is open. -/
theorem firstKey_opened :
    ∃ s₀ s, sessionPoolCreate 5 (fun _ => true) (List.replicate 5 0xff) = some s₀ ∧
      Machine.exec poolStep s₀ firstKey = some s ∧
      ∃ i ∈ s.opens, i < s.pool.poolSize ∧ (getSession s.pool).1 = .holding i := by
  have hall : ((sessionPoolCreate 5 (fun _ => true) (List.replicate 5 0xff)).bind fun s₀ =>
      Machine.exec poolStep s₀ firstKey).map (·.invokes[0]?) = some (some .key) := by
    decide +kernel
  obtain ⟨s, hs, hkey⟩ := Option.map_eq_some_iff.mp hall
  obtain ⟨s₀, hcreate, hrun⟩ := Option.bind_eq_some_iff.mp hs
  exact ⟨s₀, s, hcreate, hrun, run_getSession_opened hcreate hrun hkey⟩

end ITrustee.Libteec
