import Mathlib.Data.List.Count

/-!
# Lists without earlier copies

`keepLast p l` is `l` without those of its elements that satisfy `p` and occur again later in `l`:
of equal ones only the last stays, and the others stay as they are.

`keepLastBefore p later l` is the same where `later` comes after `l`, which is how a loop from the
end sees it: `keepLastBefore_concat` is one turn of it.
-/

set_option autoImplicit false

namespace KeepLast

variable {α : Type*} [DecidableEq α] (p : α → Bool)

/-- The elements of `l` that stay in `l` when `later` comes after it. -/
def keepLastBefore (later : List α) : List α → List α
  | [] => []
  | a :: l =>
    if p a && (a ∈ l || a ∈ later) then keepLastBefore later l
    else a :: keepLastBefore later l

/-- The list with the selected elements at their last position only. -/
def keepLast (l : List α) : List α := keepLastBefore p [] l

variable {p} {later l : List α} {a : α}

theorem keepLast_cons :
    keepLast p (a :: l) = if p a ∧ a ∈ l then keepLast p l else a :: keepLast p l := by
  simp [keepLast, keepLastBefore]

/-- One turn of a loop from the end. -/
theorem keepLastBefore_concat :
    keepLastBefore p later (l ++ [a]) =
      if p a then
        if a ∈ later then keepLastBefore p later l else keepLastBefore p (a :: later) l ++ [a]
      else keepLastBefore p later l ++ [a] := by
  induction l with
  | nil =>
    by_cases hp : p a
    · by_cases ha : a ∈ later
      · simp [keepLastBefore, hp, ha]
      · simp [keepLastBefore, hp, ha]
    · simp [keepLastBefore, hp]
  | cons b l ih =>
    rw [List.cons_append, keepLastBefore, ih]
    by_cases hp : p a
    · by_cases ha : a ∈ later
      · rw [if_pos hp, if_pos hp, if_pos ha, if_pos ha, keepLastBefore]
        have hmem : (b ∈ l ++ [a] ∨ b ∈ later) ↔ (b ∈ l ∨ b ∈ later) := by
          rw [List.mem_append, List.mem_singleton]
          constructor
          · rintro ((hb | rfl) | hb)
            · exact .inl hb
            · exact .inr ha
            · exact .inr hb
          · exact Or.imp_left .inl
        simp only [Bool.and_eq_true, Bool.or_eq_true, decide_eq_true_iff, hmem]
      · rw [if_pos hp, if_pos hp, if_neg ha, if_neg ha, keepLastBefore]
        have hmem : (b ∈ l ++ [a] ∨ b ∈ later) ↔ (b ∈ l ∨ b ∈ a :: later) := by
          rw [List.mem_append, List.mem_singleton, List.mem_cons, or_assoc]
        simp only [Bool.and_eq_true, Bool.or_eq_true, decide_eq_true_iff, hmem]
        split <;> rfl
    · rw [if_neg hp, if_neg hp, keepLastBefore]
      have hmem : p b = true → ((b ∈ l ++ [a] ∨ b ∈ later) ↔ (b ∈ l ∨ b ∈ later)) := by
        intro hb
        have hne : b ≠ a := fun hba => hp (hba ▸ hb)
        simp [hne]
      by_cases hb : p b
      · simp only [Bool.and_eq_true, Bool.or_eq_true, decide_eq_true_iff, hmem hb]
        split <;> rfl
      · simp [hb]

theorem keepLastBefore_append (l t : List α) :
    keepLastBefore p later (l ++ t) =
      keepLastBefore p (t ++ later) l ++ keepLastBefore p later t := by
  induction l with
  | nil => rfl
  | cons a l ih =>
    rw [List.cons_append, keepLastBefore, keepLastBefore, ih]
    simp only [List.mem_append, Bool.decide_or, Bool.or_assoc]
    split <;> rfl

theorem keepLast_append (l t : List α) :
    keepLast p (l ++ t) = keepLastBefore p t l ++ keepLast p t := by
  rw [keepLast, keepLastBefore_append, List.append_nil, keepLast]

/-- What comes later matters only as far as it is selected and in the list. -/
theorem keepLastBefore_of_disjoint (h : ∀ a ∈ l, p a → a ∉ later) :
    keepLastBefore p later l = keepLast p l := by
  induction l with
  | nil => rfl
  | cons a l ih =>
    have hl := ih fun b hb => h b (List.mem_cons_of_mem a hb)
    rw [keepLast, keepLastBefore, keepLastBefore, hl, ← keepLast]
    by_cases hp : p a
    · simp [h a List.mem_cons_self hp]
    · simp [hp]

/-- A list without copies stays as it is. -/
theorem keepLast_eq_self [BEq α] [LawfulBEq α] (h : ∀ a ∈ l, p a → l.count a = 1) :
    keepLast p l = l := by
  induction l with
  | nil => rfl
  | cons a l ih =>
    have hnot : ∀ b ∈ l, p b → b ≠ a := by
      rintro b hb hp rfl
      have := h b List.mem_cons_self hp
      rw [List.count_cons_self] at this
      have := List.count_pos_iff.2 hb
      omega
    have hl : keepLast p l = l := by
      refine ih fun b hb hp => ?_
      have := h b (List.mem_cons_of_mem a hb) hp
      rwa [List.count_cons_of_ne (hnot b hb hp).symm] at this
    rw [keepLast_cons, hl, if_neg fun h => hnot a h.2 h.1 rfl]

theorem mem_keepLast : a ∈ keepLast p l ↔ a ∈ l := by
  induction l with
  | nil => rfl
  | cons b l ih =>
    rw [keepLast_cons]
    split
    · rename_i hb
      rw [ih, List.mem_cons]
      exact ⟨.inr, fun h => h.elim (fun hab => hab ▸ hb.2) id⟩
    · rw [List.mem_cons, List.mem_cons, ih]

/-- A selected element occurs once at most. -/
theorem count_keepLast_le [BEq α] [LawfulBEq α] (hp : p a) : (keepLast p l).count a ≤ 1 := by
  induction l with
  | nil => exact Nat.zero_le _
  | cons b l ih =>
    rw [keepLast_cons]
    split
    · exact ih
    · rename_i hb
      by_cases hba : b = a
      · subst hba
        have hnot : b ∉ keepLast p l := fun hmem => hb ⟨hp, mem_keepLast.1 hmem⟩
        simp [List.count_eq_zero.2 hnot]
      · rwa [List.count_cons_of_ne hba]

/-- The other elements stay. -/
theorem count_keepLast_of_not [BEq α] [LawfulBEq α] (hp : ¬ p a) :
    (keepLast p l).count a = l.count a := by
  induction l with
  | nil => rfl
  | cons b l ih =>
    rw [keepLast_cons]
    split
    · rename_i hb
      have hne : b ≠ a := fun hba => hp (hba ▸ hb.1)
      rw [ih, List.count_cons_of_ne hne]
    · rw [List.count_cons, List.count_cons, ih]

end KeepLast
