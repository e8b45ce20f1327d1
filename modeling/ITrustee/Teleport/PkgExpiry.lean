import Mathlib.Tactic
import ITrustee.Teleport.FdList

/-!
# Expiry of packages

The scan reads the wall clock anew for every package and takes the age of the package as a difference
of unsigned numbers. A clock that was set back makes this difference a huge one. A package then loses
a reference although it has not lived for its time, or not at all.
-/

namespace ITrustee.Teleport

open RefCount

/-! ### The clock -/

/-- What `gettimeofday` stores. -/
structure Timeval where
  tvSec : Int
  tvUsec : Int
  deriving DecidableEq

def Timeval.us (tv : Timeval) : Int := tv.tvSec * 1000000 + tv.tvUsec

/-- `GetTimestampUs` on what `gettimeofday` does. -/
def getTimestampUs (tv : Except Errno Timeval) : Except Errno UInt64 :=
  tv.map fun tv => UInt64.ofInt tv.us

/-- The scan, with the readings of the clock in the order of the packages. -/
def scanTimeouts (lock : Lock) (readings : List (Except Errno Timeval)) (l : FdList) : Int × FdList :=
  fdListDelTimeoutPkg lock (readings.map getTimestampUs) l

/-- The packages that the loop comes to, each with the reading that its age is taken from. -/
def readPkgs : List PkgTmpBuf → List (Except Errno Timeval) → List (PkgTmpBuf × Timeval)
  | p :: ps, .ok tv :: readings => (p, tv) :: readPkgs ps readings
  | _, _ => []

def scannedPkgs (lock : Lock) (readings : List (Except Errno Timeval)) (l : FdList) :
    List (PkgTmpBuf × Timeval) :=
  match lock with
  | .failed _ => []
  | .acquired => readPkgs l.list readings

/-! ### Ages -/

/-- Ten seconds per started gigabyte. -/
def timeoutUs (buffLen : UInt64) : Nat := (buffLen.toNat + (2 ^ 30 - 1)) / 2 ^ 30 * 10000000

/-- The package was created before the reading, at least its timeout ago. -/
def Expired (p : PkgTmpBuf) (tv : Timeval) : Prop :=
  p.creatTimeUs.toNat < tv.us ∧ timeoutUs p.buffLen ≤ tv.us - p.creatTimeUs.toNat

/-- The scan drops references of expired packages only. -/
def DropsExpired (lock : Lock) (readings : List (Except Errno Timeval)) (l : FdList) : Prop :=
  ∀ p ∈ l.list, (scanTimeouts lock readings l).2.refCnt? p.id ≠ l.refCnt? p.id →
    ∃ tv, (p, tv) ∈ scannedPkgs lock readings l ∧ Expired p tv

/-- Where the clock reads less than the creation time of a package, it was set back so far that the
difference, modulo the range of the counter, is within the timeout again. -/
def StepsBackWithin (lock : Lock) (readings : List (Except Errno Timeval)) (l : FdList) : Prop :=
  ∀ x ∈ scannedPkgs lock readings l, x.2.us < x.1.creatTimeUs.toNat →
    (x.2.us - x.1.creatTimeUs.toNat) % 2 ^ 64 ≤ timeoutUs x.1.buffLen

instance (lock : Lock) (readings : List (Except Errno Timeval)) (l : FdList) :
    Decidable (StepsBackWithin lock readings l) :=
  inferInstanceAs (Decidable (∀ x ∈ scannedPkgs lock readings l, x.2.us < x.1.creatTimeUs.toNat →
    (x.2.us - x.1.creatTimeUs.toNat) % 2 ^ 64 ≤ timeoutUs x.1.buffLen))

/-! ### The scan -/

theorem toNat_getPkgTimeOutByLen (buffLen : UInt64) :
    (getPkgTimeOutByLen buffLen).toNat = timeoutUs buffLen := by
  have hlt := UInt64.toNat_lt buffLen
  have hgb : gb.toNat = 2 ^ 30 := by decide
  have hper : timeoutPerGbUs.toNat = 10000000 := by decide
  rw [getPkgTimeOutByLen, timeoutUs, UInt64.toNat_mul, hper]
  by_cases hrest : buffLen % gb ≠ 0
  · have hrest' : buffLen.toNat % 2 ^ 30 ≠ 0 := by
      rw [← hgb, ← UInt64.toNat_mod]
      intro h
      exact hrest (UInt64.toNat_inj.mp h)
    rw [if_pos hrest, UInt64.toNat_add, UInt64.toNat_div, hgb, UInt64.toNat_one]
    omega
  · have hrest' : buffLen.toNat % 2 ^ 30 = 0 := by
      rw [← hgb, ← UInt64.toNat_mod, not_not.mp hrest]
      rfl
    rw [if_neg hrest, UInt64.toNat_div, hgb]
    omega

theorem isTimedOut_iff (tv : Timeval) (p : PkgTmpBuf) :
    isTimedOut (UInt64.ofInt tv.us) p ↔
      timeoutUs p.buffLen < (tv.us - p.creatTimeUs.toNat) % 2 ^ 64 := by
  have hlt := UInt64.toNat_lt p.creatTimeUs
  rw [isTimedOut, decide_eq_true_eq, gt_iff_lt, UInt64.lt_iff_toNat_lt, toNat_getPkgTimeOutByLen,
    UInt64.toNat_sub, UInt64.ofInt, UInt64.toNat_ofNat']
  omega

theorem timedOutPkgs_readings (ps : List PkgTmpBuf) (readings : List (Except Errno Timeval)) :
    timedOutPkgs ps (readings.map getTimestampUs) =
      ((readPkgs ps readings).filter fun x => isTimedOut (UInt64.ofInt x.2.us) x.1).map
        Prod.fst := by
  fun_induction readPkgs ps readings with
  | case1 p ps tv readings ih =>
      have hreading : (.ok tv :: readings : List (Except Errno Timeval)).map getTimestampUs =
          .ok (UInt64.ofInt tv.us) :: readings.map getTimestampUs := rfl
      rw [hreading, timedOutPkgs, List.filter_cons]
      by_cases hout : isTimedOut (UInt64.ofInt tv.us) p
      · rw [if_pos hout, if_pos hout, List.map_cons, ih]
      · rw [if_neg hout, if_neg hout, ih]
  | case2 ps readings hnot =>
      rw [List.filter_nil, List.map_nil, timedOutPkgs]
      intro p ps' currTime clock hps hclock
      cases readings with
      | nil => cases hclock
      | cons tv rest =>
          cases tv with
          | error errno => cases hclock
          | ok tv => exact hnot p ps' tv rest hps rfl

theorem readPkgs_prefix_list (ps : List PkgTmpBuf) (readings : List (Except Errno Timeval)) :
    (readPkgs ps readings).map Prod.fst <+: ps := by
  fun_induction readPkgs ps readings with
  | case1 p ps tv readings ih => exact (List.prefix_cons_inj p).mpr ih
  | case2 => exact List.nil_prefix

section Scan

variable {lock : Lock} {readings : List (Except Errno Timeval)} {l : FdList}

theorem mem_of_scannedPkgs {x : PkgTmpBuf × Timeval} (h : x ∈ scannedPkgs lock readings l) :
    x.1 ∈ l.list := by
  cases lock with
  | failed errno => cases h
  | acquired => exact (readPkgs_prefix_list l.list readings).subset (List.mem_map_of_mem h)

/-- The loop reads the clock once for a package. -/
theorem scannedPkgs_inj (hl : l.WellFormed) {x y : PkgTmpBuf × Timeval}
    (hx : x ∈ scannedPkgs lock readings l) (hy : y ∈ scannedPkgs lock readings l)
    (hid : x.1.id = y.1.id) : x = y := by
  cases lock with
  | failed errno => cases hx
  | acquired =>
      have hprefix := (readPkgs_prefix_list l.list readings).map PkgTmpBuf.id
      rw [List.map_map] at hprefix
      exact List.inj_on_of_nodup_map (hl.nodup.sublist hprefix.sublist) hx hy hid

/-- A package loses a reference exactly when the difference for it exceeds the timeout. -/
theorem drops_iff (hl : l.WellFormed) {p : PkgTmpBuf} (hp : p ∈ l.list) (hcnt : 0 < p.refCnt) :
    (scanTimeouts lock readings l).2.refCnt? p.id ≠ l.refCnt? p.id ↔
      ∃ tv, (p, tv) ∈ scannedPkgs lock readings l ∧ isTimedOut (UInt64.ofInt tv.us) p := by
  cases lock with
  | failed errno =>
      refine iff_of_false (fun h => h rfl) ?_
      rintro ⟨tv, hmem, -⟩
      cases hmem
  | acquired =>
      have hmem : p ∈ timedOutPkgs l.list (readings.map getTimestampUs) ↔
          ∃ tv, (p, tv) ∈ readPkgs l.list readings ∧ isTimedOut (UInt64.ofInt tv.us) p := by
        rw [timedOutPkgs_readings]
        simp
      have hspec := (delTimeoutLoop_spec (readings.map getTimestampUs) hl (fun q hq => hq)
        hl.nodup).2 p.id
      rw [FdList.refCnt?_of_mem hl hp] at hspec ⊢
      rw [scannedPkgs, ← hmem]
      show (delTimeoutLoop l.list (readings.map getTimestampUs) l).2.refCnt? p.id ≠ _ ↔ _
      cases hspec with
      | inl hout =>
          obtain ⟨q, hq, hid, hless⟩ := hout
          have heq : q = p := List.inj_on_of_nodup_map hl.nodup (mem_of_mem_timedOutPkgs hq) hp hid
          rw [heq] at hq hless
          refine iff_of_true ?_ hq
          rw [hless, less]
          split_ifs
          · exact fun h => by cases h
          · intro h
            have hsame := Option.some.inj h
            omega
      | inr hkept =>
          obtain ⟨hnone, hsame⟩ := hkept
          exact iff_of_false (fun h => h hsame) fun h => hnone p h rfl

/-- The scan drops references of expired packages only, exactly when the clock was not set back behind
the creation of a package that it comes to. -/
theorem dropsExpired_iff (lock : Lock) (readings : List (Except Errno Timeval)) (l : FdList)
    (hl : l.WellFormed) (hcnt : l.Counted) :
    DropsExpired lock readings l ↔ StepsBackWithin lock readings l := by
  constructor
  · intro hdrops x hx hback
    by_contra hover
    have hp := mem_of_scannedPkgs hx
    have htimedOut := (isTimedOut_iff x.2 x.1).mpr (not_le.mp hover)
    obtain ⟨tv, hmem, hcreated, -⟩ := hdrops x.1 hp
      ((drops_iff hl hp (hcnt x.1 hp)).mpr ⟨x.2, hx, htimedOut⟩)
    have hsame : x = (x.1, tv) := scannedPkgs_inj hl hx hmem rfl
    rw [hsame] at hback
    exact absurd hcreated (not_lt.mpr hback.le)
  · intro hwithin p hp hdropped
    obtain ⟨tv, hmem, htimedOut⟩ := (drops_iff hl hp (hcnt p hp)).mp hdropped
    have hover := (isTimedOut_iff tv p).mp htimedOut
    have hforward : (p.creatTimeUs.toNat : Int) ≤ tv.us := by
      by_contra hback
      have hle := hwithin (p, tv) hmem (not_le.mp hback)
      exact absurd hover (not_lt.mpr hle)
    refine ⟨tv, hmem, ?_, ?_⟩
    · omega
    · omega

end Scan

/-- A package of one byte, created at second 100. -/
def youngPkg : PkgTmpBuf := ⟨0, 3, 1, [0], 1, 1, 100000000⟩

def youngList : FdList := { list := [youngPkg], next := 1 }

theorem youngList_wellFormed : youngList.WellFormed :=
  ⟨by decide, by decide, by decide, by decide, by decide, by decide⟩

/-- Eleven seconds later the package is dropped. -/
theorem laterReading_dropsExpired :
    (scanTimeouts .acquired [.ok ⟨111, 0⟩] youngList).2.list = [] ∧
      DropsExpired .acquired [.ok ⟨111, 0⟩] youngList :=
  ⟨by decide +kernel,
    (dropsExpired_iff .acquired [.ok ⟨111, 0⟩] youngList youngList_wellFormed (by decide)).mpr
      (by decide)⟩

/-- The clock was set back by a second: the package is freed before its time of creation. -/
theorem earlierReading_drops :
    (scanTimeouts .acquired [.ok ⟨99, 0⟩] youngList).2.list = [] ∧
      ¬ DropsExpired .acquired [.ok ⟨99, 0⟩] youngList := by
  have hgone : (scanTimeouts .acquired [.ok ⟨99, 0⟩] youngList).2.refCnt? youngPkg.id = none := by
    decide +kernel
  refine ⟨by decide +kernel, fun hdrops => ?_⟩
  obtain ⟨tv, hmem, hcreated, -⟩ := hdrops youngPkg List.mem_cons_self (by rw [hgone]; decide)
  have hscanned : scannedPkgs .acquired [.ok ⟨99, 0⟩] youngList = [(youngPkg, ⟨99, 0⟩)] := rfl
  rw [hscanned, List.mem_singleton, Prod.mk.injEq] at hmem
  rw [hmem.2] at hcreated
  exact absurd hcreated (by decide)

end ITrustee.Teleport
