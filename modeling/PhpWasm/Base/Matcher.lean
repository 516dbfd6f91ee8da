import Mathlib.Data.List.Basic

/-!
# Matches that see what is in front of them

A regular expression with a look-behind decides at each place of a text, from the element in front
of the place and from the rest, whether a match begins there.  `replaceFirst` and `replaceAll` put
something else in the place of the first match and of all of them.

`Quiet m p t s` says that no match begins in `t` when `p` is in front of it and `s` follows.  Such
a piece is left alone (`replaceFirst_quiet`, `replaceAll_quiet`), so that a text that consists of
quiet pieces and of matches is rewritten piece by piece.
-/

set_option autoImplicit false

namespace Matching

variable {α : Type*}

/-- A match that begins at a place: what is put there instead, and what comes after the match. -/
abbrev Matcher (α : Type*) := Option α → List α → Option (List α × List α)

/-- The element in front of what follows `t`. -/
def before : Option α → List α → Option α
  | p, [] => p
  | _, c :: t => before (some c) t

/-- Whether there is a match. -/
def test (m : Matcher α) : Option α → List α → Bool
  | _, [] => false
  | p, c :: s => (m p (c :: s)).isSome || test m (some c) s

/-- The number of places where a match begins. -/
def count (m : Matcher α) : Option α → List α → Nat
  | _, [] => 0
  | p, c :: s => (if (m p (c :: s)).isSome then 1 else 0) + count m (some c) s

/-- The list with the first match replaced, if there is one. -/
def replaceFirst (m : Matcher α) : Option α → List α → Option (List α)
  | _, [] => none
  | p, c :: s =>
    match m p (c :: s) with
    | some (u, r) => some (u ++ r)
    | none => (replaceFirst m (some c) s).map (List.cons c)

/-- The list with all matches replaced, when its first `n` elements belong to the last one. -/
def replaceAll (m : Matcher α) : Nat → Option α → List α → List α
  | _, _, [] => []
  | n + 1, _, c :: s => replaceAll m n (some c) s
  | 0, p, c :: s =>
    match m p (c :: s) with
    | some (u, r) => u ++ replaceAll m (s.length - r.length) (some c) s
    | none => c :: replaceAll m 0 (some c) s

/-- The list cut into its matches and the elements between them, when its first `n` elements
belong to a match in front of it. -/
def split (m : Matcher α) : Nat → Option α → List α → List (List α ⊕ α)
  | _, _, [] => []
  | n + 1, _, c :: s => split m n (some c) s
  | 0, p, c :: s =>
    match m p (c :: s) with
    | some (_, r) =>
      .inl ((c :: s).take ((c :: s).length - r.length)) :: split m (s.length - r.length) (some c) s
    | none => .inr c :: split m 0 (some c) s

/-- No match begins in `t`, with `p` in front and `s` behind. -/
def Quiet (m : Matcher α) : Option α → List α → List α → Prop
  | _, [], _ => True
  | p, c :: t, s => m p (c :: (t ++ s)) = none ∧ Quiet m (some c) t s

variable {m : Matcher α} {p : Option α} {t t' s u : List α} {c : α}

@[simp] theorem before_append (p : Option α) (t t' : List α) :
    before p (t ++ t') = before (before p t) t' := by
  induction t generalizing p with
  | nil => rfl
  | cons c t ih => exact ih (some c)

theorem before_concat (p : Option α) (t : List α) (c : α) : before p (t ++ [c]) = some c := by
  rw [before_append]
  rfl

theorem quiet_append :
    Quiet m p (t ++ t') s ↔ Quiet m p t (t' ++ s) ∧ Quiet m (before p t) t' s := by
  induction t generalizing p with
  | nil => exact ⟨fun h => ⟨trivial, h⟩, fun h => h.2⟩
  | cons c t ih =>
    rw [List.cons_append, Quiet, Quiet, ih, List.append_assoc, and_assoc]
    rfl

/-- A quiet piece is quiet if no match begins at any of its places. -/
theorem quiet_of_forall (h : ∀ p u c v, t = u ++ c :: v → m p (c :: (v ++ s)) = none) :
    Quiet m p t s := by
  induction t generalizing p with
  | nil => trivial
  | cons c t ih =>
    refine ⟨h p [] c t rfl, ih fun p u d v heq => h p (c :: u) d v ?_⟩
    rw [heq, List.cons_append]

/-- Only the first element sees what is in front of a piece. -/
theorem quiet_congr {p' : Option α} (h : ∀ s, m p s = m p' s) : Quiet m p t s ↔ Quiet m p' t s := by
  match t with
  | [] => rfl
  | c :: t => rw [Quiet, Quiet, h]

/-- **The first match is not in a quiet piece.** -/
theorem replaceFirst_quiet (h : Quiet m p t s) :
    replaceFirst m p (t ++ s) = (replaceFirst m (before p t) s).map (t ++ ·) := by
  induction t generalizing p with
  | nil => simp [before]
  | cons c t ih =>
    rw [List.cons_append, replaceFirst, h.1]
    dsimp only
    rw [ih h.2, Option.map_map]
    rfl

/-- Nothing is counted in a quiet piece. -/
theorem count_quiet (h : Quiet m p t s) : count m p (t ++ s) = count m (before p t) s := by
  induction t generalizing p with
  | nil => rfl
  | cons c t ih =>
    rw [List.cons_append, count, h.1, ih h.2]
    exact Nat.zero_add _

theorem replaceFirst_match (h : m p (c :: s) = some (u, t)) :
    replaceFirst m p (c :: s) = some (u ++ t) := by
  rw [replaceFirst, h]

theorem replaceAll_skip (m : Matcher α) (p : Option α) (t s : List α) :
    replaceAll m t.length p (t ++ s) = replaceAll m 0 (before p t) s := by
  induction t generalizing p with
  | nil => rfl
  | cons c t ih => exact ih (some c)

/-- **A quiet piece is not changed.** -/
theorem replaceAll_quiet (h : Quiet m p t s) :
    replaceAll m 0 p (t ++ s) = t ++ replaceAll m 0 (before p t) s := by
  induction t generalizing p with
  | nil => rfl
  | cons c t ih =>
    rw [List.cons_append, replaceAll, h.1]
    dsimp only
    rw [ih h.2]
    rfl

/-- A match is replaced as a whole. -/
theorem replaceAll_match (ht : t ≠ []) (h : m p (t ++ s) = some (u, s)) :
    replaceAll m 0 p (t ++ s) = u ++ replaceAll m 0 (before p t) s := by
  match t, ht with
  | c :: t, _ =>
    rw [List.cons_append] at h
    rw [List.cons_append, replaceAll, h]
    dsimp only
    rw [List.length_append, Nat.add_sub_cancel, replaceAll_skip]
    rfl

theorem split_skip (m : Matcher α) (p : Option α) (t s : List α) :
    split m t.length p (t ++ s) = split m 0 (before p t) s := by
  induction t generalizing p with
  | nil => rfl
  | cons c t ih => exact ih (some c)

theorem split_quiet (h : Quiet m p t s) :
    split m 0 p (t ++ s) = t.map .inr ++ split m 0 (before p t) s := by
  induction t generalizing p with
  | nil => rfl
  | cons c t ih =>
    rw [List.cons_append, split, h.1]
    exact congrArg (List.cons (.inr c)) (ih h.2)

theorem split_match (ht : t ≠ []) (h : m p (t ++ s) = some (u, s)) :
    split m 0 p (t ++ s) = .inl t :: split m 0 (before p t) s := by
  match t, ht with
  | c :: t, _ =>
    have htake : (c :: (t ++ s)).take ((c :: (t ++ s)).length - s.length) = c :: t := by
      rw [← List.cons_append, List.length_append, Nat.add_sub_cancel]
      exact List.take_left
    rw [List.cons_append] at h
    rw [List.cons_append, split, h]
    dsimp only
    rw [htake, List.length_append, Nat.add_sub_cancel, split_skip]
    rfl

theorem test_quiet (h : Quiet m p t s) : test m p (t ++ s) = test m (before p t) s := by
  induction t generalizing p with
  | nil => rfl
  | cons c t ih =>
    rw [List.cons_append, test, h.1, ih h.2]
    rfl

/-- Only what the matcher sees of the element in front matters. -/
theorem test_congr {p' : Option α} (h : ∀ s, m p s = m p' s) (t : List α) :
    test m p t = test m p' t := by
  match t with
  | [] => rfl
  | c :: t => rw [test, test, h]

/-- What follows a piece does not matter for the matches that begin in it. -/
def Closed (m : Matcher α) : Option α → List α → List α → Prop
  | _, [], _ => True
  | p, c :: t, s => (m p (c :: (t ++ s))).isSome = (m p (c :: t)).isSome ∧ Closed m (some c) t s

theorem test_append (h : Closed m p t s) :
    test m p (t ++ s) = (test m p t || test m (before p t) s) := by
  induction t generalizing p with
  | nil => rfl
  | cons c t ih =>
    rw [List.cons_append, test, test, h.1, ih h.2, Bool.or_assoc]
    rfl

end Matching
