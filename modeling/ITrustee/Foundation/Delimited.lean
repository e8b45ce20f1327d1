import Mathlib.Tactic
import Mathlib.Data.List.Basic

/-!
# Texts with delimiters

A text has lines, which a delimiter ends, and a line has fields with a delimiter between them. `fgets`
takes from a text up to the next end of a line, or what there is room for, so that a longer line comes in
several pieces. A field is found between two of the places where its delimiter stands.
-/

namespace Delimited

variable {α : Type} [DecidableEq α] (d : α)

/-! ### Definitions -/

/-- What `fgets` takes where there is room for so many characters, and what it leaves. -/
def fgets : Nat → List α → List α × List α
  | 0, s => ([], s)
  | _ + 1, [] => ([], [])
  | room + 1, c :: s => if c = d then ([c], s) else (c :: (fgets room s).1, (fgets room s).2)

/-- From offset `i` to the next delimiter, which the line itself does not contain. -/
def LineAt (text : List α) (i : Nat) (line : List α) : Prop :=
  d ∉ line ∧ ∃ before after, text = before ++ line ++ after ∧ before.length = i ∧
    (before = [] ∨ before.getLast? = some d) ∧ (after = [] ∨ after.head? = some d)

/-- Where the delimiter stands, counted from `i`. -/
def positions : Nat → List α → List Nat
  | _, [] => []
  | i, c :: s => if c = d then i :: positions (i + 1) s else positions (i + 1) s

/-- The field of that number; there are none behind the last. -/
def field (s : List α) (k : Nat) : List α := (s.splitOn d).getD k []

variable {d}

/-! ### Pieces -/

theorem fgets_append (room : Nat) (s : List α) : (fgets d room s).1 ++ (fgets d room s).2 = s := by
  induction room generalizing s with
  | zero => rfl
  | succ room ih =>
      cases s with
      | nil => rfl
      | cons c s =>
          rw [fgets]
          split_ifs
          · rfl
          · exact congrArg (c :: ·) (ih s)

theorem fgets_length (room : Nat) (s : List α) : (fgets d room s).1.length ≤ room := by
  induction room generalizing s with
  | zero => exact Nat.le_refl 0
  | succ room ih =>
      cases s with
      | nil => exact Nat.zero_le _
      | cons c s =>
          rw [fgets]
          split_ifs
          · exact Nat.succ_le_succ (Nat.zero_le room)
          · exact Nat.succ_le_succ (ih s)

theorem fgets_ne_nil {room : Nat} {s : List α} (hroom : 0 < room) (hs : s ≠ []) :
    (fgets d room s).1 ≠ [] := by
  cases room with
  | zero => exact absurd hroom (Nat.lt_irrefl 0)
  | succ room =>
      cases s with
      | nil => exact absurd rfl hs
      | cons c s =>
          rw [fgets]
          split_ifs
          · exact List.cons_ne_nil c []
          · exact List.cons_ne_nil c _

theorem fgets_left_lt {room : Nat} {s : List α} (hroom : 0 < room) (hs : s ≠ []) :
    (fgets d room s).2.length < s.length := by
  have hlength := congrArg List.length (fgets_append (d := d) room s)
  have hpiece := List.length_pos_iff.mpr (fgets_ne_nil (d := d) hroom hs)
  rw [List.length_append] at hlength
  omega

/-- A piece has a delimiter at most at its end. -/
theorem not_mem_of_fgets {room : Nat} {s before : List α} {c : α}
    (h : before ++ [c] <+: (fgets d room s).1) : d ∉ before := by
  induction room generalizing s before with
  | zero =>
      rw [fgets, List.prefix_nil] at h
      simp at h
  | succ room ih =>
      cases s with
      | nil =>
          rw [fgets, List.prefix_nil] at h
          simp at h
      | cons x s =>
          rw [fgets] at h
          cases before with
          | nil => exact List.not_mem_nil
          | cons y before =>
              split_ifs at h with hx
              · rw [List.cons_append, List.cons_prefix_cons, List.prefix_nil] at h
                simp at h
              · rw [List.cons_append, List.cons_prefix_cons] at h
                rw [List.mem_cons, not_or, h.1]
                exact ⟨Ne.symm hx, ih h.2⟩

variable (d) in
/-- The pieces in which a text is read. -/
def pieces (room : Nat) (s : List α) : List (List α) :=
  if s = [] ∨ room = 0 then []
  else (fgets d room s).1 :: pieces room (fgets d room s).2
termination_by s.length
decreasing_by
  rename_i h
  rw [not_or] at h
  exact fgets_left_lt (Nat.pos_of_ne_zero h.2) h.1

theorem pieces_cons {room : Nat} {s : List α} (hroom : 0 < room) (hs : s ≠ []) :
    pieces d room s = (fgets d room s).1 :: pieces d room (fgets d room s).2 := by
  rw [pieces, if_neg (not_or.mpr ⟨hs, hroom.ne'⟩)]

theorem pieces_nil (room : Nat) : pieces d room [] = [] := by
  rw [pieces, if_pos (Or.inl rfl)]

theorem flatten_pieces {room : Nat} (hroom : 0 < room) (s : List α) :
    (pieces d room s).flatten = s := by
  induction s using pieces.induct d room with
  | case1 s h =>
      obtain rfl := h.resolve_right hroom.ne'
      rw [pieces_nil]
      rfl
  | case2 s h ih =>
      rw [pieces_cons hroom (not_or.mp h).1, List.flatten_cons, ih, fgets_append]

/-- Every piece is what is taken from some rest of the text. -/
theorem mem_pieces {room : Nat} {s piece : List α} (h : piece ∈ pieces d room s) :
    piece ≠ [] ∧ piece.length ≤ room ∧ ∀ before c, before ++ [c] <+: piece → d ∉ before := by
  induction s using pieces.induct d room with
  | case1 s hs =>
      rw [pieces, if_pos hs] at h
      cases h
  | case2 s hs ih =>
      rw [pieces, if_neg hs] at h
      rw [not_or] at hs
      obtain rfl | h := List.mem_cons.mp h
      · exact ⟨fgets_ne_nil (Nat.pos_of_ne_zero hs.2) hs.1, fgets_length room s,
          fun before c => not_mem_of_fgets⟩
      · exact ih h

omit [DecidableEq α] in
/-- A text without delimiters that starts where a line starts is the start of the line. -/
theorem LineAt.prefix {text line before rest p : List α} (h : LineAt d text before.length line)
    (htext : text = before ++ rest) (hp : d ∉ p) (hrest : p <+: rest) : p <+: line := by
  obtain ⟨hline, before', after, rfl, hlength, -, hafter⟩ := h
  rw [List.append_assoc] at htext
  obtain ⟨-, rfl⟩ := List.append_inj htext hlength
  obtain hshort | hlong := List.prefix_or_prefix_of_prefix hrest (List.prefix_append line after)
  · exact hshort
  · obtain ⟨tail, rfl⟩ := hlong
    rw [List.prefix_append_right_inj] at hrest
    obtain rfl | hhead := hafter
    · rw [List.prefix_nil.mp hrest, List.append_nil]
    · cases tail with
      | nil => rw [List.append_nil]
      | cons c tail =>
          obtain ⟨more, rfl⟩ := hrest
          obtain rfl := Option.some.inj hhead
          exact absurd (by simp) hp

/-! ### Fields -/

theorem splitOn_append {f : List α} (hf : d ∉ f) (t : List α) :
    (f ++ d :: t).splitOn d = f :: t.splitOn d := by
  rw [List.splitOn_eq_splitOnP, List.splitOn_eq_splitOnP]
  refine List.splitOnP_append_cons_of_forall_mem (p := (· == d)) (fun x hx => ?_) d
    (beq_self_eq_true d) t
  exact beq_eq_false_iff_ne.mpr fun hd => hf (hd ▸ hx)

theorem field_append_zero {f : List α} (hf : d ∉ f) (t : List α) : field d (f ++ d :: t) 0 = f := by
  rw [field, splitOn_append hf, List.getD_cons_zero]

theorem field_append_succ {f : List α} (hf : d ∉ f) (t : List α) (k : Nat) :
    field d (f ++ d :: t) (k + 1) = field d t k := by
  rw [field, field, splitOn_append hf, List.getD_cons_succ]

theorem positions_append {f : List α} (hf : d ∉ f) (i : Nat) (t : List α) :
    positions d i (f ++ d :: t) = (i + f.length) :: positions d (i + f.length + 1) t := by
  induction f generalizing i with
  | nil => exact if_pos rfl
  | cons c f ih =>
      rw [List.mem_cons, not_or] at hf
      rw [List.cons_append, positions, if_neg (Ne.symm hf.1), ih hf.2, List.length_cons,
        Nat.add_right_comm, Nat.add_assoc i f.length 1]

theorem length_positions (i : Nat) (s : List α) : (positions d i s).length = s.count d := by
  induction s generalizing i with
  | nil => rfl
  | cons c s ih =>
      rw [positions, List.count_cons]
      split_ifs with hc hbeq hbeq
      · rw [List.length_cons, ih]
      · exact absurd (beq_iff_eq.mpr hc) hbeq
      · exact absurd (beq_iff_eq.mp hbeq) hc
      · rw [ih, Nat.add_zero]

/-- Up to the first delimiter. -/
theorem exists_field {s : List α} (h : 0 < s.count d) :
    ∃ f t, s = f ++ d :: t ∧ d ∉ f ∧ t.count d + 1 = s.count d := by
  obtain ⟨f, t, rfl, hf⟩ := List.eq_append_cons_of_mem (List.count_pos_iff.mp h)
  exact ⟨f, t, rfl, hf, by rw [List.count_append, List.count_eq_zero.mpr hf]; simp⟩

theorem length_splitOn (s : List α) : (s.splitOn d).length = s.count d + 1 := by
  generalize hn : s.count d = n
  induction n generalizing s with
  | zero =>
      have hnot : ∀ x ∈ s, (x == d) = false := fun x hx =>
        beq_eq_false_iff_ne.mpr fun hd => List.count_eq_zero.mp hn (hd ▸ hx)
      rw [List.splitOn_eq_splitOnP, List.splitOnP_eq_singleton hnot]
      rfl
  | succ n ih =>
      obtain ⟨f, t, rfl, hf, ht⟩ := exists_field (d := d) (s := s) (by omega)
      rw [splitOn_append hf, List.length_cons, ih t (by omega)]

/-- The positions lie in the text. -/
theorem lt_of_mem_positions {i p : Nat} {s : List α} (h : p ∈ positions d i s) :
    i ≤ p ∧ p < i + s.length := by
  induction s generalizing i with
  | nil => cases h
  | cons c s ih =>
      rw [positions] at h
      rw [List.length_cons]
      split_ifs at h
      · obtain rfl | h := List.mem_cons.mp h
        · omega
        · have := ih h
          omega
      · have := ih h
        omega

end Delimited
