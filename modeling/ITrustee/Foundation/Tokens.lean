import Mathlib.Data.List.TakeWhile
import Mathlib.Tactic

/-!
# Tokens

A sequence is cut at its separators. Its tokens are the parts between them that are not empty, each with
the position at which it stands: equal parts at different places are different tokens. Two equations take
a sequence apart from the left: a separator is skipped, and a part that ends at a separator, or at the end,
is the first token.
-/

namespace Tokens

variable {α : Type*} (sep : α → Bool)

/-- The next element is a separator, or there is none. -/
def endsHere : List α → Bool
  | [] => true
  | c :: _ => sep c

/-- The tokens of what stands at a position. -/
def tokens : Nat → List α → List (Nat × List α)
  | _, [] => []
  | i, c :: s =>
      if sep c then tokens (i + 1) s
      else if endsHere sep s then (i, [c]) :: tokens (i + 1) s
      else
        match tokens (i + 1) s with
        | [] => []
        | (_, word) :: rest => (i, c :: word) :: rest

variable {sep}

theorem tokens_sep {c : α} (hc : sep c = true) (i : Nat) (s : List α) :
    tokens sep i (c :: s) = tokens sep (i + 1) s := by
  rw [tokens, if_pos hc]

theorem tokens_spaces {spaces : List α} (hspaces : ∀ c ∈ spaces, sep c = true) (i : Nat) (s : List α) :
    tokens sep i (spaces ++ s) = tokens sep (i + spaces.length) s := by
  induction spaces generalizing i with
  | nil => rfl
  | cons c spaces ih =>
      obtain ⟨hc, hspaces⟩ := List.forall_mem_cons.mp hspaces
      rw [List.cons_append, tokens_sep hc, ih hspaces, List.length_cons, Nat.add_assoc,
        Nat.add_comm 1]

/-- A part without separators that something ends is the first token. -/
theorem tokens_word {word s : List α} (hne : word ≠ []) (hword : ∀ c ∈ word, sep c = false)
    (hend : endsHere sep s = true) (i : Nat) :
    tokens sep i (word ++ s) = (i, word) :: tokens sep (i + word.length) s := by
  induction word generalizing i with
  | nil => exact absurd rfl hne
  | cons c word ih =>
      obtain ⟨hc, hword⟩ := List.forall_mem_cons.mp hword
      rw [List.cons_append, tokens, if_neg (by rw [hc]; decide)]
      cases word with
      | nil => rw [List.nil_append, if_pos hend, List.length_singleton]
      | cons d word =>
          have hd := hword d (List.mem_cons_self ..)
          have hgoes : endsHere sep (d :: word ++ s) = false := hd
          rw [if_neg (by rw [hgoes]; decide), ih (List.cons_ne_nil _ _) hword]
          have hlen : (c :: d :: word).length = 1 + (d :: word).length := Nat.add_comm ..
          rw [hlen, ← Nat.add_assoc]

/-- A sequence is separators, and then nothing, or a token and something that ends it. -/
theorem cases_tokens (sep : α → Bool) (s : List α) :
    (∀ c ∈ s, sep c = true) ∨ ∃ spaces word rest, s = spaces ++ (word ++ rest) ∧
      (∀ c ∈ spaces, sep c = true) ∧ word ≠ [] ∧ (∀ c ∈ word, sep c = false) ∧
        endsHere sep rest = true := by
  cases hdrop : s.dropWhile sep with
  | nil =>
      rw [List.dropWhile_eq_nil_iff] at hdrop
      exact Or.inl hdrop
  | cons c tail =>
      have hc := List.head?_dropWhile_not sep s
      rw [hdrop] at hc
      refine Or.inr ⟨s.takeWhile sep, (c :: tail).takeWhile fun d => !sep d,
        (c :: tail).dropWhile fun d => !sep d, ?_, ?_, ?_, ?_, ?_⟩
      · rw [List.takeWhile_append_dropWhile, ← hdrop, List.takeWhile_append_dropWhile]
      · exact fun d hd => List.mem_takeWhile_imp hd
      · rw [List.takeWhile_cons_of_pos (by simpa using hc)]
        exact List.cons_ne_nil _ _
      · exact fun d hd => by simpa using List.mem_takeWhile_imp hd
      · cases hrest : (c :: tail).dropWhile fun d => !sep d with
        | nil => rfl
        | cons d rest =>
            have hd := List.head?_dropWhile_not (fun d => !sep d) (c :: tail)
            rw [hrest] at hd
            show sep d = true
            simpa using hd

theorem tokens_of_spaces {s : List α} (hs : ∀ c ∈ s, sep c = true) (i : Nat) :
    tokens sep i s = [] := by
  have h := tokens_spaces hs i []
  rwa [List.append_nil] at h

/-- Tokens stand one after another. -/
theorem tokens_increasing (i : Nat) (s : List α) :
    (∀ t ∈ tokens sep i s, i ≤ t.1) ∧ (tokens sep i s).Pairwise fun t u => t.1 < u.1 := by
  induction hlen : s.length using Nat.strong_induction_on generalizing i s with
  | _ n ih =>
      obtain hs | ⟨spaces, word, rest, rfl, hspaces, hne, hword, hend⟩ := cases_tokens sep s
      · rw [tokens_of_spaces hs]
        exact ⟨by simp, List.Pairwise.nil⟩
      · have hpos := List.length_pos_of_ne_nil hne
        rw [List.length_append, List.length_append] at hlen
        obtain ⟨hge, hincreasing⟩ := ih rest.length (by omega) (i + spaces.length + word.length) rest rfl
        rw [tokens_spaces hspaces, tokens_word hne hword hend]
        constructor
        · intro t ht
          obtain rfl | ht := List.mem_cons.mp ht
          · exact Nat.le_add_right ..
          · have := hge t ht
            omega
        · refine List.Pairwise.cons (fun t ht => ?_) hincreasing
          have := hge t ht
          show i + spaces.length < t.1
          omega

/-- A token is a part of the sequence that is not empty and has no separator. -/
theorem tokens_parts (i : Nat) (s : List α) :
    ∀ t ∈ tokens sep i s, t.2 ≠ [] ∧ (∀ c ∈ t.2, sep c = false) ∧ t.2 <:+: s := by
  induction hlen : s.length using Nat.strong_induction_on generalizing i s with
  | _ n ih =>
      intro t ht
      obtain hs | ⟨spaces, word, rest, rfl, hspaces, hne, hword, hend⟩ := cases_tokens sep s
      · rw [tokens_of_spaces hs] at ht
        exact absurd ht List.not_mem_nil
      · have hpos := List.length_pos_of_ne_nil hne
        rw [List.length_append, List.length_append] at hlen
        rw [tokens_spaces hspaces, tokens_word hne hword hend] at ht
        obtain rfl | ht := List.mem_cons.mp ht
        · exact ⟨hne, hword, spaces, rest, List.append_assoc ..⟩
        · obtain ⟨htne, htword, hpart⟩ := ih rest.length (by omega) _ rest rfl t ht
          have hrest : rest <:+: spaces ++ (word ++ rest) :=
            ⟨spaces ++ word, [], by rw [List.append_nil, List.append_assoc]⟩
          exact ⟨htne, htword, hpart.trans hrest⟩

end Tokens
