import Mathlib.Tactic
import Mathlib.Data.List.AList

/-!
# Files and their names

A disk holds files, known by their numbers, and gives each of them at most one name: there are no hard
links. `rename` and `unlink` change names and leave the contents alone, so an open stream, which keeps
the number of its file and a position, goes on with the same file whatever happens to its name. A
program that looks at files through their names sees `content`.
-/

/-- Files in use have been created, and different names are names of different files. -/
structure Disk (β : Type*) where
  names : AList fun _ : List Char => Nat
  data : Nat → List β
  used : Nat
  lt_used : ∀ p n, names.lookup p = some n → n < used
  distinct : ∀ p q n, names.lookup p = some n → names.lookup q = some n → p = q

/-- An open file and the position of its next byte. -/
structure OpenFile where
  inode : Nat
  pos : Nat
  deriving DecidableEq

namespace Disk

variable {β : Type*}

/-- No file has a name. -/
def empty : Disk β where
  names := ∅
  data _ := []
  used := 0
  lt_used := nofun
  distinct := nofun

/-- The file of a name. -/
def find (d : Disk β) (p : List Char) : Option Nat := d.names.lookup p

def content (d : Disk β) (p : List Char) : Option (List β) := (d.find p).map d.data

/-- A new, empty file takes the name. -/
def create (d : Disk β) (p : List Char) : Disk β where
  names := d.names.insert p d.used
  data := Function.update d.data d.used []
  used := d.used + 1
  lt_used q n h := by
    by_cases hq : q = p
    · rw [hq, AList.lookup_insert] at h
      rw [← Option.some.inj h]
      exact Nat.lt_succ_self _
    · rw [AList.lookup_insert_ne hq] at h
      exact Nat.lt_succ_of_lt (d.lt_used q n h)
  distinct q r n hq hr := by
    have hnew (s : List Char) (hs : s ≠ p) (h : (d.names.insert p d.used).lookup s = some d.used) :
        False := by
      rw [AList.lookup_insert_ne hs] at h
      exact lt_irrefl _ (d.lt_used s d.used h)
    by_cases hqp : q = p
    · rw [hqp, AList.lookup_insert] at hq
      obtain rfl := Option.some.inj hq
      by_contra hne
      exact hnew r (fun hrp => hne (hqp.trans hrp.symm)) hr
    · by_cases hrp : r = p
      · rw [hrp, AList.lookup_insert] at hr
        obtain rfl := Option.some.inj hr
        exact (hnew q hqp hq).elim
      · rw [AList.lookup_insert_ne hqp] at hq
        rw [AList.lookup_insert_ne hrp] at hr
        exact d.distinct q r n hq hr

/-- `unlink`; a name that is not there changes nothing. -/
def unlink (d : Disk β) (p : List Char) : Disk β where
  names := d.names.erase p
  data := d.data
  used := d.used
  lt_used q n h := by
    by_cases hq : q = p
    · rw [hq, AList.lookup_erase] at h
      cases h
    · rw [AList.lookup_erase_ne hq] at h
      exact d.lt_used q n h
  distinct q r n hq hr := by
    have hkept (s : List Char) (h : (d.names.erase p).lookup s = some n) :
        d.names.lookup s = some n := by
      by_cases hs : s = p
      · rw [hs, AList.lookup_erase] at h
        cases h
      · rw [AList.lookup_erase_ne hs] at h
        exact h
    exact d.distinct q r n (hkept q hq) (hkept r hr)

/-- The file `n`, which has no name, takes the name `p`, whose file loses it. -/
def link (d : Disk β) (p : List Char) (n : Nat) (hn : n < d.used)
    (hfree : ∀ q, d.names.lookup q ≠ some n) : Disk β where
  names := d.names.insert p n
  data := d.data
  used := d.used
  lt_used q m h := by
    by_cases hq : q = p
    · rw [hq, AList.lookup_insert] at h
      rw [← Option.some.inj h]
      exact hn
    · rw [AList.lookup_insert_ne hq] at h
      exact d.lt_used q m h
  distinct q r m hq hr := by
    by_cases hqp : q = p
    · rw [hqp, AList.lookup_insert] at hq
      obtain rfl := Option.some.inj hq
      by_contra hne
      rw [AList.lookup_insert_ne (fun hrp => hne (hqp.trans hrp.symm))] at hr
      exact hfree r hr
    · rw [AList.lookup_insert_ne hqp] at hq
      by_cases hrp : r = p
      · rw [hrp, AList.lookup_insert] at hr
        obtain rfl := Option.some.inj hr
        exact absurd hq (hfree q)
      · rw [AList.lookup_insert_ne hrp] at hr
        exact d.distinct q r m hq hr

theorem unlink_free (d : Disk β) {p : List Char} {n : Nat} (h : d.find p = some n)
    (q : List Char) : (d.unlink p).names.lookup q ≠ some n := by
  intro hq
  by_cases hqp : q = p
  · rw [hqp, unlink, AList.lookup_erase] at hq
    cases hq
  · rw [unlink, AList.lookup_erase_ne hqp] at hq
    exact hqp (d.distinct q p n hq h)

/-- `rename`, `none` if there is no file of the old name. -/
def rename (d : Disk β) (old new : List Char) : Option (Disk β) :=
  match h : d.find old with
  | none => none
  | some n => some ((d.unlink old).link new n (d.lt_used old n h) (d.unlink_free h))

/-- Bytes written to a file from a position on. -/
def write (d : Disk β) (s : OpenFile) (bytes : List β) : Disk β :=
  { d with
    data := Function.update d.data s.inode
      ((d.data s.inode).take s.pos ++ bytes ++ (d.data s.inode).drop (s.pos + bytes.length)) }

/-! ### Names -/

theorem find_create (d : Disk β) (p q : List Char) :
    (d.create p).find q = if q = p then some d.used else d.find q := by
  rw [find, create, find]
  split_ifs with hq
  · rw [hq, AList.lookup_insert]
  · rw [AList.lookup_insert_ne hq]

theorem find_unlink (d : Disk β) (p q : List Char) :
    (d.unlink p).find q = if q = p then none else d.find q := by
  rw [find, unlink, find]
  split_ifs with hq
  · rw [hq, AList.lookup_erase]
  · rw [AList.lookup_erase_ne hq]

@[simp] theorem find_write (d : Disk β) (s : OpenFile) (bytes : List β) (p : List Char) :
    (d.write s bytes).find p = d.find p := rfl

theorem rename_eq_none (d : Disk β) (old new : List Char) :
    d.rename old new = none ↔ d.find old = none := by
  rw [rename]
  split
  · next h => exact ⟨fun _ => h, fun _ => rfl⟩
  · next h => simp [h]

/-- A renamed file keeps its number and has the new name only. -/
theorem rename_some {d d' : Disk β} {old new : List Char} (h : d.rename old new = some d') :
    ∃ n, d.find old = some n ∧ d'.data = d.data ∧ d'.used = d.used ∧
      ∀ q, d'.find q = if q = new then some n else if q = old then none else d.find q := by
  rw [rename] at h
  split at h
  · cases h
  · next n hn =>
      obtain rfl := Option.some.inj h
      refine ⟨n, hn, rfl, rfl, fun q => ?_⟩
      change ((d.names.erase old).insert new n).lookup q = _
      split_ifs with hnew hold
      · rw [hnew, AList.lookup_insert]
      · rw [AList.lookup_insert_ne hnew, hold]
        exact AList.lookup_erase old d.names
      · rw [AList.lookup_insert_ne hnew]
        exact AList.lookup_erase_ne hold

theorem find_lt (d : Disk β) {p : List Char} {n : Nat} (h : d.find p = some n) : n < d.used :=
  d.lt_used p n h

theorem find_inj (d : Disk β) {p q : List Char} {n : Nat} (hp : d.find p = some n)
    (hq : d.find q = some n) : p = q :=
  d.distinct p q n hp hq

/-! ### Contents -/

theorem content_eq_none (d : Disk β) (p : List Char) : d.content p = none ↔ d.find p = none :=
  Option.map_eq_none_iff

/-- A name whose file and its data are the same has the same content. -/
theorem content_congr {d d' : Disk β} {p : List Char} (hfind : d'.find p = d.find p)
    (hdata : ∀ n, d.find p = some n → d'.data n = d.data n) : d'.content p = d.content p := by
  rw [content, content, hfind]
  cases h : d.find p with
  | none => rfl
  | some n => exact congrArg some (hdata n h)

theorem content_create (d : Disk β) (p q : List Char) :
    (d.create p).content q = if q = p then some [] else d.content q := by
  split_ifs with hq
  · rw [content, find_create, if_pos hq, Option.map_some]
    exact congrArg some (Function.update_self ..)
  · refine content_congr (by rw [find_create, if_neg hq]) fun n hn => ?_
    exact Function.update_of_ne (d.find_lt hn).ne _ _

theorem content_rename {d d' : Disk β} {old new : List Char} (h : d.rename old new = some d')
    (q : List Char) :
    d'.content q = if q = new then d.content old else if q = old then none else d.content q := by
  obtain ⟨n, hn, hdata, -, hfind⟩ := rename_some h
  rw [content, hfind, hdata]
  split_ifs
  · rw [content, hn]
  · rfl
  · rfl

theorem content_write_of_ne (d : Disk β) {s : OpenFile} (bytes : List β) {q : List Char}
    (h : d.find q ≠ some s.inode) : (d.write s bytes).content q = d.content q := by
  refine content_congr rfl fun n hn => ?_
  rw [write]
  refine Function.update_of_ne ?_ _ _
  rintro rfl
  exact h hn

theorem content_write (d : Disk β) {s : OpenFile} (bytes : List β) {p : List Char}
    (h : d.find p = some s.inode) :
    (d.write s bytes).content p = some ((d.data s.inode).take s.pos ++ bytes ++
      (d.data s.inode).drop (s.pos + bytes.length)) := by
  rw [content, find_write, h, Option.map_some, write]
  exact congrArg some (Function.update_self ..)

end Disk
