import Mathlib.Data.List.Basic

/-!
# Patterns that capture

A pattern is a row of elements and of groups, and a group captures a run of elements of its kind, at
least one.  The matcher takes the longest run first, and a shorter one where it cannot go on behind
that, as a regular expression does.

* `exists_matchRow`: it finds a match wherever there is one, and what it captures fits.
* `fits_pinned`: where an element that is not of the kind of the only group comes behind it, there
  is only one way to capture something.
-/

set_option autoImplicit false

namespace Capture

/-- A part of a pattern, for groups of some kinds. -/
inductive Part (α κ : Type*)
  | lit (a : α)
  | group (k : κ)
  deriving DecidableEq

variable {α κ : Type*}

/-- A run behind `t`, the longest first, and what comes of what is behind it. -/
def greedy (p : α → Bool) (next : List α → Option (List (List α) × List α)) :
    List α → List α → Option (List (List α) × List α)
  | _, [] => none
  | t, c :: s =>
    if p c then
      (greedy p next (t ++ [c]) s).or ((next s).map fun x => ((t ++ [c]) :: x.1, x.2))
    else none

section Match

variable [DecidableEq α] (kind : κ → α → Bool)

/-- What the groups capture at the beginning of a list, and what is behind the match. -/
def matchRow : List (Part α κ) → List α → Option (List (List α) × List α)
  | [], s => some ([], s)
  | .lit _ :: _, [] => none
  | .lit a :: row, c :: s => if a = c then matchRow row s else none
  | .group k :: row, s => greedy (kind k) (matchRow row) [] s

omit [DecidableEq α] in
/-- A text is the pattern with something in its groups. -/
inductive Fits : List (Part α κ) → List (List α) → List α → Prop
  | nil : Fits [] [] []
  | lit (a : α) {row xs t} : Fits row xs t → Fits (.lit a :: row) xs (a :: t)
  | group {k x row xs t} : x ≠ [] → (∀ c ∈ x, kind k c = true) → Fits row xs t →
      Fits (.group k :: row) (x :: xs) (x ++ t)

/-! ## What is matched -/

variable {kind} {row : List (Part α κ)} {xs : List (List α)} {s t rest : List α}

omit [DecidableEq α] in
/-- A run that is found is longer than `t` by elements of the kind. -/
theorem greedy_sound {p : α → Bool} {next : List α → Option (List (List α) × List α)}
    (h : greedy p next t s = some (xs, rest)) :
    ∃ x s' ys, x ≠ [] ∧ (∀ c ∈ x, p c = true) ∧ s = x ++ s' ∧ xs = (t ++ x) :: ys ∧
      next s' = some (ys, rest) := by
  induction s generalizing t with
  | nil => cases h
  | cons c s ih =>
    rw [greedy] at h
    split at h
    · rename_i hc
      rcases Option.or_eq_some_iff.1 h with hlong | ⟨-, hshort⟩
      · obtain ⟨x, s', ys, -, hx, rfl, hxs, hnext⟩ := ih hlong
        refine ⟨c :: x, s', ys, List.cons_ne_nil c x, ?_, rfl, by simpa using hxs, hnext⟩
        exact List.forall_mem_cons.2 ⟨hc, hx⟩
      · obtain ⟨⟨ys, rest'⟩, hnext, heq⟩ := Option.map_eq_some_iff.1 hshort
        obtain ⟨rfl, rfl⟩ := Prod.mk.inj heq
        exact ⟨[c], s, ys, List.cons_ne_nil c [], by simpa using hc, rfl, rfl, hnext⟩
    · cases h

omit [DecidableEq α] in
/-- A run is found wherever it is possible to go on behind one. -/
theorem greedy_isSome {p : α → Bool} {next : List α → Option (List (List α) × List α)}
    {x : List α} (hx : x ≠ []) (hp : ∀ c ∈ x, p c = true) (hnext : (next s).isSome) :
    (greedy p next t (x ++ s)).isSome := by
  induction x generalizing t with
  | nil => exact absurd rfl hx
  | cons c x ih =>
    obtain ⟨hc, hp⟩ := List.forall_mem_cons.1 hp
    rw [List.cons_append, greedy, if_pos hc, Option.isSome_or, Bool.or_eq_true]
    cases x with
    | nil => exact .inr (by rwa [Option.isSome_map])
    | cons d x => exact .inl (ih (List.cons_ne_nil d x) hp)

/-- **What is captured fits.** -/
theorem matchRow_sound (h : matchRow kind row s = some (xs, rest)) :
    ∃ t, Fits kind row xs t ∧ s = t ++ rest := by
  induction row generalizing s xs with
  | nil =>
    obtain ⟨rfl, rfl⟩ := Prod.mk.inj (Option.some.inj h)
    exact ⟨[], .nil, rfl⟩
  | cons part row ih =>
    match part, s, h with
    | .lit a, c :: s, h =>
      rw [matchRow] at h
      split at h
      · rename_i hac
        obtain ⟨t, ht, rfl⟩ := ih h
        exact ⟨a :: t, .lit a ht, by rw [hac, List.cons_append]⟩
      · cases h
    | .group k, s, h =>
      obtain ⟨x, s', ys, hx, hkind, rfl, rfl, hnext⟩ := greedy_sound h
      obtain ⟨t, ht, rfl⟩ := ih hnext
      exact ⟨x ++ t, .group hx hkind ht, by rw [List.append_assoc]⟩

/-- **A match is found wherever there is one.** -/
theorem exists_matchRow (h : Fits kind row xs t) (rest : List α) :
    (matchRow kind row (t ++ rest)).isSome := by
  induction h with
  | nil => rfl
  | lit a _ ih => rwa [List.cons_append, matchRow, if_pos rfl]
  | group hx hkind _ ih =>
    rw [List.append_assoc, matchRow]
    exact greedy_isSome hx hkind ih

end Match

/-! ## One group -/

section OneGroup

variable {kind : κ → α → Bool} {k : κ} {P L : List α}

/-- A pattern with one group, between two words. -/
def oneGroup (P : List α) (k : κ) (L : List α) : List (Part α κ) :=
  P.map .lit ++ .group k :: L.map .lit

theorem fits_map_lit {xs : List (List α)} {t w : List α} :
    Fits kind (w.map .lit) xs t ↔ xs = [] ∧ t = w := by
  induction w generalizing t with
  | nil =>
    constructor
    · rintro ⟨⟩
      exact ⟨rfl, rfl⟩
    · rintro ⟨rfl, rfl⟩
      exact .nil
  | cons a w ih =>
    constructor
    · intro h
      cases h with
      | lit _ h =>
        obtain ⟨rfl, rfl⟩ := ih.1 h
        exact ⟨rfl, rfl⟩
    · rintro ⟨rfl, rfl⟩
      exact .lit a (ih.2 ⟨rfl, rfl⟩)

theorem fits_oneGroup {xs : List (List α)} {t : List α} :
    Fits kind (oneGroup P k L) xs t ↔
      ∃ x, x ≠ [] ∧ (∀ c ∈ x, kind k c = true) ∧ xs = [x] ∧ t = P ++ x ++ L := by
  induction P generalizing t with
  | nil =>
    constructor
    · intro h
      cases h with
      | group hx hkind h =>
        obtain ⟨rfl, rfl⟩ := fits_map_lit.1 h
        exact ⟨_, hx, hkind, rfl, rfl⟩
    · rintro ⟨x, hx, hkind, rfl, rfl⟩
      exact .group hx hkind (fits_map_lit.2 ⟨rfl, rfl⟩)
  | cons a P ih =>
    constructor
    · intro h
      cases h with
      | lit _ h =>
        obtain ⟨x, hx, hkind, hxs, rfl⟩ := ih.1 h
        exact ⟨x, hx, hkind, hxs, rfl⟩
    · rintro ⟨x, hx, hkind, hxs, rfl⟩
      exact .lit a (ih.2 ⟨x, hx, hkind, hxs, rfl⟩)

/-- **Only one run can be captured** between two words, if some element of the second is not of the
kind. -/
theorem fits_pinned {x x' r r' : List α} (hL : ∃ c ∈ L, kind k c = false)
    (hx : ∀ c ∈ x, kind k c = true) (hx' : ∀ c ∈ x', kind k c = true)
    (h : P ++ x ++ L ++ r = P ++ x' ++ L ++ r') : x = x' := by
  -- up to the first such element, everything is of the kind
  have hrun : ∀ {y q : List α}, (∀ c ∈ y, kind k c = true) →
      (y ++ (L ++ q)).takeWhile (kind k) = y ++ L.takeWhile (kind k) := by
    intro y q hy
    rw [List.takeWhile_append_of_pos hy, List.append_cancel_left_eq, List.takeWhile_append,
      if_neg fun hlen => ?_]
    obtain ⟨c, hc, hnot⟩ := hL
    rw [← (List.takeWhile_prefix (kind k)).eq_of_length hlen] at hc
    have hkind := List.all_eq_true.1 List.all_takeWhile c hc
    rw [hnot] at hkind
    cases hkind
  simp only [List.append_assoc, List.append_cancel_left_eq] at h
  have hwhile := congrArg (List.takeWhile (kind k)) h
  rw [hrun hx, hrun hx'] at hwhile
  exact List.append_cancel_right hwhile

end OneGroup

end Capture
