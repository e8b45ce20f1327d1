import Mathlib.Tactic
import ITrustee.Authentication.Passwd

/-!
# Accesses to a passwd line

What stands in the buffer after `fgets` is any bytes but no fewer than one, then a null byte, then whatever
was there before. However malformed these bytes are, `SplitFields` and `UidCompare` return, and what they
return does not depend on what is behind the null byte, even if nothing is: they do not read there, since in
the model that has no result, and neither has a write outside of the array of places.
-/

namespace ITrustee.Authentication

/-- A byte that is no digit ends the loop of `UidCompare`, however many rounds it has left. -/
theorem uidCompareLoop_contained (bytes : List UInt8) (left : Nat) (uidNum : UInt64) :
    ∃ r, ∀ stale, uidCompareLoop (bytes ++ 0 :: stale) left uidNum = some r := by
  induction bytes generalizing left uidNum with
  | nil =>
      cases left with
      | zero => exact ⟨some uidNum, fun stale => rfl⟩
      | succ left => exact ⟨none, fun stale => rfl⟩
  | cons c bytes ih =>
      cases left with
      | zero => exact ⟨some uidNum, fun stale => rfl⟩
      | succ left =>
          by_cases hc : isNumber c = true
          · obtain ⟨r, hr⟩ := ih left (10 * uidNum + (c - 48).toUInt64)
            refine ⟨r, fun stale => ?_⟩
            rw [List.cons_append, uidCompareLoop, if_pos hc]
            exact hr stale
          · refine ⟨none, fun stale => ?_⟩
            rw [List.cons_append, uidCompareLoop, if_neg hc]

theorem uidCompare_contained (caUid : UInt32) (bytes : List UInt8) (uidLen : Nat) :
    ∃ ret, ∀ stale, uidCompare caUid (bytes ++ 0 :: stale) uidLen = some ret := by
  obtain ⟨r, hr⟩ := uidCompareLoop_contained bytes uidLen 0
  cases r with
  | none => exact ⟨-1, fun stale => by rw [uidCompare, hr]⟩
  | some uidNum =>
      by_cases huid : uidNum = caUid.toUInt64
      · exact ⟨0, fun stale => by rw [uidCompare, hr]; exact if_pos huid⟩
      · exact ⟨-1, fun stale => by rw [uidCompare, hr]; exact if_neg huid⟩

/-- The test for an extra field comes before the write, so that the array is never left; the places it holds are
inside of the line. -/
theorem splitFieldsLoop_contained (bytes : List UInt8) (left i n : Nat) {count : Nat}
    (hcount : count ≤ 7) {delimIndices : List Nat} (hlength : delimIndices.length = 7)
    (hn : i + bytes.length = n) (hplaces : ∀ place ∈ delimIndices, place < n) :
    ∃ ret places, (∀ stale, splitFieldsLoop (bytes ++ 0 :: stale) left i count delimIndices =
      some (ret, places)) ∧ places.length = 7 ∧ ∀ place ∈ places, place < n := by
  induction bytes generalizing left i count delimIndices with
  | nil =>
      refine ⟨0, delimIndices, fun stale => ?_, hlength, hplaces⟩
      cases left with
      | zero => rfl
      | succ left => rfl
  | cons c bytes ih =>
      rw [List.length_cons] at hn
      cases left with
      | zero => exact ⟨0, delimIndices, fun stale => rfl, hlength, hplaces⟩
      | succ left =>
          by_cases hnull : c = 0
          · refine ⟨0, delimIndices, fun stale => ?_, hlength, hplaces⟩
            rw [List.cons_append, splitFieldsLoop, if_pos hnull]
          by_cases hextra : delimCount < count
          · refine ⟨-1, delimIndices, fun stale => ?_, hlength, hplaces⟩
            rw [List.cons_append, splitFieldsLoop, if_neg hnull, if_pos hextra]
          have hcount : count ≤ 6 := Nat.le_of_not_lt hextra
          by_cases hcolon : c = colon
          · have hset : ∀ place ∈ delimIndices.set count i, place < n := by
              intro place hplace
              obtain hplace | rfl := List.mem_or_eq_of_mem_set hplace
              · exact hplaces place hplace
              · omega
            obtain ⟨ret, places, hloop, hrest⟩ := ih left (i + 1) (Nat.succ_le_succ hcount)
              ((List.length_set ..).trans hlength) (by omega) hset
            refine ⟨ret, places, fun stale => ?_, hrest⟩
            rw [List.cons_append, splitFieldsLoop, if_neg hnull, if_neg hextra, if_pos hcolon,
              if_pos (by omega)]
            exact hloop stale
          · obtain ⟨ret, places, hloop, hrest⟩ := ih left (i + 1) (Nat.le_succ_of_le hcount) hlength
              (by omega) hplaces
            refine ⟨ret, places, fun stale => ?_, hrest⟩
            rw [List.cons_append, splitFieldsLoop, if_neg hnull, if_neg hextra, if_neg hcolon]
            exact hloop stale

/-- The bytes from a place of the line on end with the null byte that ends the line. -/
theorem drop_line {line : List UInt8} {place : Nat} (hplace : place < line.length)
    (stale : List UInt8) :
    (line ++ 0 :: stale).drop (place + 1) = line.drop (place + 1) ++ 0 :: stale :=
  List.drop_append_of_le_length hplace

/-- `SplitFields` and `UidCompare` on any line that `fgets` leaves, for any bound on its length. -/
theorem parseUserName_contained (caUid : UInt32) (c : UInt8) (content : List UInt8)
    (nameBufLen : Nat) :
    ∃ ret delimIndices,
      (∀ stale, splitFields (List.replicate (delimCount + 1) 0) (c :: content ++ 0 :: stale)
        nameBufLen = some (ret, delimIndices)) ∧
      delimIndices.length = delimCount + 1 ∧
      (∀ uidLen, ∃ ret', ∀ stale,
        uidCompare caUid ((c :: content ++ 0 :: stale).drop (delimIndices.getD uidPos 0 + 1)) uidLen =
          some ret') ∧
      ∃ userNameLen, ∀ stale,
        parseUserName caUid (c :: content ++ 0 :: stale) nameBufLen = some userNameLen := by
  obtain ⟨ret, places, hsplit, hlength, hplaces⟩ :=
    splitFieldsLoop_contained (c :: content) nameBufLen 0 (c :: content).length (Nat.zero_le 7)
      (List.length_replicate (n := 7) (a := 0)) (Nat.zero_add _) (by
        intro place hplace
        rw [List.eq_of_mem_replicate hplace]
        exact Nat.succ_pos _)
  have hplace : places.getD uidPos 0 < (c :: content).length := by
    have hlt : uidPos < places.length := by
      rw [hlength]
      exact (by decide : uidPos < 7)
    rw [List.getD_eq_getElem _ _ hlt]
    exact hplaces _ (List.getElem_mem hlt)
  have hcompare (uidLen : Nat) : ∃ ret', ∀ stale, uidCompare caUid
      ((c :: content ++ 0 :: stale).drop (places.getD uidPos 0 + 1)) uidLen = some ret' := by
    obtain ⟨ret', hret⟩ := uidCompare_contained caUid _ uidLen
    refine ⟨ret', fun stale => ?_⟩
    rw [drop_line hplace]
    exact hret stale
  refine ⟨ret, places, hsplit, hlength, hcompare, ?_⟩
  have hfields (stale : List UInt8) : splitFields (List.replicate (delimCount + 1) 0)
      (c :: content ++ 0 :: stale) nameBufLen = some (ret, places) := hsplit stale
  by_cases hret : ret = 0
  · obtain ⟨ret', hcompare⟩ := hcompare
      (CInt.toU64 (places.getD (uidPos + 1) 0 - places.getD uidPos 0 - 1))
    refine ⟨if ret' = 0 then places.getD namePos 0 else -1, fun stale => ?_⟩
    rw [parseUserName, hfields]
    dsimp only
    rw [if_neg (not_not.mpr hret), hcompare stale]
    dsimp only
    split_ifs
    · rfl
    · rfl
  · refine ⟨ret, fun stale => ?_⟩
    rw [parseUserName, hfields]
    exact if_pos hret

end ITrustee.Authentication
