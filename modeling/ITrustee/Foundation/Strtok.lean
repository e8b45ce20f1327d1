import Mathlib.Tactic
import ITrustee.Foundation.CString

/-!
# The tokeniser in memory

The first call of `strtok_r` on the memory from a string on. It reads up to the first zero or delimiter
behind the token, wherever that stands, and ends the token there. If a zero ends the string, the call
finds the parts that `strtokR` cuts the string into.
-/

namespace CString

/-- The string at an address. -/
def stringAt (memory : List Char) (i : Nat) : List Char :=
  (memory.drop i).takeWhile (· != '\x00')

/-- What a call of `strtok_r` leaves, and how far it read. -/
structure Tokenised where
  memory : List Char
  /-- The addresses of the token and of what the next call would look at. -/
  token : Option (Nat × Nat)
  reads : Nat

def strtokMemory (memory : List Char) (delim : Char) : Tokenised :=
  let start := (memory.takeWhile (· == delim)).length
  if memory[start]?.getD '\x00' = '\x00' then ⟨memory, none, start + 1⟩
  else
    let stop := start + ((memory.drop start).takeWhile fun c => c != delim && c != '\x00').length
    if memory[stop]?.getD '\x00' = '\x00' then ⟨memory, some (start, stop), stop + 1⟩
    else ⟨memory.set stop '\x00', some (start, stop + 1), stop + 1⟩

theorem stringAt_append {a s rest : List Char} {i : Nat} (hi : a.length = i) (hs : '\x00' ∉ s) :
    stringAt (a ++ (s ++ '\x00' :: rest)) i = s := by
  have hall : ∀ c ∈ s, (c != '\x00') = true := by
    intro c hc
    rw [bne_iff_ne]
    rintro rfl
    exact hs hc
  rw [stringAt, ← hi, List.drop_left, List.takeWhile_append_of_pos hall,
    List.takeWhile_cons_of_neg (by decide), List.append_nil]

/-- A string is delimiters, and then a token and what its delimiter stands before. -/
theorem token_cases (s : List Char) (delim : Char) :
    s.dropWhile (· == delim) = [] ∨ ∃ lead c token tail, s = lead ++ (c :: token ++ tail) ∧
      (∀ d ∈ lead, d = delim) ∧ c ≠ delim ∧ delim ∉ token ∧
        (tail = [] ∨ ∃ rest, tail = delim :: rest) := by
  cases hrest : s.dropWhile (· == delim) with
  | nil => exact Or.inl rfl
  | cons c rest =>
      have hhead := List.head?_dropWhile_not (· == delim) s
      rw [hrest] at hhead
      have hc : c ≠ delim := by simpa using hhead
      refine Or.inr ⟨s.takeWhile (· == delim), c, rest.takeWhile (· != delim),
        rest.dropWhile (· != delim), ?_, fun d hd => ?_, hc, fun hmem => ?_, ?_⟩
      · rw [List.cons_append, List.takeWhile_append_dropWhile, ← hrest,
          List.takeWhile_append_dropWhile]
      · simpa using List.mem_takeWhile_imp hd
      · simpa using List.mem_takeWhile_imp hmem
      · cases htail : rest.dropWhile (· != delim) with
        | nil => exact Or.inl rfl
        | cons d tail =>
            have hd := List.head?_dropWhile_not (· != delim) rest
            rw [htail] at hd
            obtain rfl : d = delim := by simpa using hd
            exact Or.inr ⟨tail, rfl⟩

section Token

variable {delim c : Char} {lead token : List Char}

theorem takeWhile_token (hc : c ≠ delim) (htoken : delim ∉ token) :
    ∀ d ∈ c :: token, (d != delim) = true := by
  intro d hd
  rw [bne_iff_ne]
  rintro rfl
  obtain rfl | hd := List.mem_cons.mp hd
  · exact hc rfl
  · exact htoken hd

theorem takeWhile_lead (hlead : ∀ d ∈ lead, d = delim) (hc : c ≠ delim) (tail : List Char) :
    (lead ++ (c :: token ++ tail)).takeWhile (· == delim) = lead ∧
      (lead ++ (c :: token ++ tail)).dropWhile (· == delim) = c :: token ++ tail := by
  have hall : ∀ d ∈ lead, (d == delim) = true := fun d hd => by simp [hlead d hd]
  rw [List.takeWhile_append_of_pos hall, List.dropWhile_append_of_pos hall, List.cons_append,
    List.takeWhile_cons_of_neg (by simpa using hc), List.dropWhile_cons_of_neg (by simpa using hc),
    List.append_nil]
  exact ⟨rfl, rfl⟩

theorem cut_token (hc : c ≠ delim) (htoken : delim ∉ token) {tail : List Char}
    (htail : tail = [] ∨ ∃ rest, tail = delim :: rest) :
    (c :: token ++ tail).takeWhile (· != delim) = c :: token ∧
      (c :: token ++ tail).dropWhile (· != delim) = tail := by
  have hall := takeWhile_token hc htoken
  rw [List.takeWhile_append_of_pos hall, List.dropWhile_append_of_pos hall]
  obtain rfl | ⟨rest, rfl⟩ := htail
  · exact ⟨List.append_nil _, rfl⟩
  · rw [List.takeWhile_cons_of_neg (by simp), List.dropWhile_cons_of_neg (by simp)]
    exact ⟨List.append_nil _, rfl⟩

/-- The call on memory that starts with delimiters and a token. -/
theorem strtokMemory_token (hlead : ∀ d ∈ lead, d = delim) (hc : c ≠ delim) (htoken : delim ∉ token)
    (hzero : '\x00' ∉ c :: token) {e : Char} (he : e = delim ∨ e = '\x00') (after : List Char) :
    strtokMemory (lead ++ (c :: token ++ e :: after)) delim =
      if e = '\x00' then
        ⟨lead ++ (c :: token ++ e :: after), some (lead.length, lead.length + (token.length + 1)),
          lead.length + (token.length + 1) + 1⟩
      else
        ⟨lead ++ (c :: token ++ '\x00' :: after),
          some (lead.length, lead.length + (token.length + 1) + 1),
          lead.length + (token.length + 1) + 1⟩ := by
  have hstart : (lead ++ (c :: token ++ e :: after))[lead.length]?.getD '\x00' = c := by
    rw [List.getElem?_append_right le_rfl, Nat.sub_self]
    rfl
  have hall : ∀ d ∈ c :: token, (d != delim && d != '\x00') = true := by
    intro d hd
    rw [takeWhile_token hc htoken d hd, Bool.true_and, bne_iff_ne]
    rintro rfl
    exact hzero hd
  have hstops : (e != delim && e != '\x00') = false := by
    obtain rfl | rfl := he <;> simp
  have hcut : ((lead ++ (c :: token ++ e :: after)).drop lead.length).takeWhile
      (fun d => d != delim && d != '\x00') = c :: token := by
    rw [List.drop_left, List.takeWhile_append_of_pos hall,
      List.takeWhile_cons_of_neg (by simp [hstops]), List.append_nil]
  have hend : (lead ++ (c :: token ++ e :: after))[lead.length + (token.length + 1)]?.getD '\x00' =
      e := by
    rw [← List.append_assoc, List.getElem?_append_right (by simp)]
    simp
  have hset : (lead ++ (c :: token ++ e :: after)).set (lead.length + (token.length + 1)) '\x00' =
      lead ++ (c :: token ++ '\x00' :: after) := by
    rw [← List.append_assoc, List.set_append_right _ _ (by simp), ← List.append_assoc]
    simp
  have hne : c ≠ '\x00' := by
    rintro rfl
    exact hzero List.mem_cons_self
  rw [strtokMemory, (takeWhile_lead hlead hc _).1, hstart, if_neg hne, hcut, List.length_cons]
  dsimp only
  rw [hend, hset]

end Token

/-- On the memory of a terminated string the call cuts off the token of the string, and reads up to the
delimiter that ends it. -/
theorem strtokMemory_spec {s : List Char} (delim : Char) (rest : List Char) (hs : '\x00' ∉ s)
    (hdelim : delim ≠ '\x00') :
    ((strtokMemory (s ++ '\x00' :: rest) delim).token.map fun t =>
        (stringAt (strtokMemory (s ++ '\x00' :: rest) delim).memory t.1,
          stringAt (strtokMemory (s ++ '\x00' :: rest) delim).memory t.2)) = strtokR s delim ∧
      (strtokMemory (s ++ '\x00' :: rest) delim).reads = (s.takeWhile (· == delim)).length +
        ((s.dropWhile (· == delim)).takeWhile (· != delim)).length + 1 := by
  obtain hnone | ⟨lead, c, token, tail, rfl, hlead, hc, htoken, htail⟩ := token_cases s delim
  · have hall : ∀ d ∈ s, (d == delim) = true := List.dropWhile_eq_nil_iff.mp hnone
    have hstart : ((s ++ '\x00' :: rest).takeWhile (· == delim)).length = s.length := by
      rw [List.takeWhile_append_of_pos hall, List.takeWhile_cons_of_neg (by simpa using hdelim.symm),
        List.append_nil]
    have hend : (s ++ '\x00' :: rest)[s.length]?.getD '\x00' = '\x00' := by
      rw [List.getElem?_append_right le_rfl, Nat.sub_self]
      rfl
    rw [strtokMemory, hstart, if_pos hend, strtokR, hnone, if_pos rfl,
      List.takeWhile_eq_self_iff.mpr hall]
    exact ⟨rfl, rfl⟩
  · rw [List.mem_append, List.mem_append, not_or, not_or] at hs
    have hmemory : lead ++ (c :: token ++ tail) ++ '\x00' :: rest =
        lead ++ (c :: token ++ (tail ++ '\x00' :: rest)) := by
      simp only [List.append_assoc]
    rw [hmemory, strtokR, (takeWhile_lead hlead hc tail).1, (takeWhile_lead hlead hc tail).2,
      (cut_token hc htoken htail).1, (cut_token hc htoken htail).2, if_neg (by simp)]
    have htokenAt (after : List Char) :
        stringAt (lead ++ (c :: token ++ '\x00' :: after)) lead.length = c :: token :=
      stringAt_append rfl hs.2.1
    obtain rfl | ⟨rest', rfl⟩ := htail
    · rw [List.nil_append, strtokMemory_token hlead hc htoken hs.2.1 (Or.inr rfl), if_pos rfl]
      have hnext : stringAt (lead ++ (c :: token ++ '\x00' :: rest))
          (lead.length + (token.length + 1)) = [] := by
        rw [← List.append_assoc]
        exact stringAt_append (s := []) (by simp) List.not_mem_nil
      dsimp only [Option.map_some]
      rw [htokenAt, hnext]
      exact ⟨rfl, rfl⟩
    · rw [List.cons_append (a := delim), strtokMemory_token hlead hc htoken hs.2.1 (Or.inl rfl),
        if_neg hdelim]
      have hrest : '\x00' ∉ rest' := fun hmem => hs.2.2 (List.mem_cons_of_mem _ hmem)
      have hnext : stringAt (lead ++ (c :: token ++ '\x00' :: (rest' ++ '\x00' :: rest)))
          (lead.length + (token.length + 1) + 1) = rest' := by
        have hassoc : lead ++ (c :: token ++ '\x00' :: (rest' ++ '\x00' :: rest)) =
            (lead ++ (c :: token ++ ['\x00'])) ++ (rest' ++ '\x00' :: rest) := by
          simp only [List.append_assoc, List.cons_append, List.nil_append]
        rw [hassoc]
        exact stringAt_append (by simp [Nat.add_assoc]) hrest
      dsimp only [Option.map_some]
      rw [htokenAt, hnext]
      exact ⟨rfl, rfl⟩

end CString
