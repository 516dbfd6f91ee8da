import Mathlib.Data.List.Infix

/-!
# Patterns in a text

A `Pattern α` recognises a nonempty piece at the start of a list.  Patterns are built from literal
words and runs of elements of one kind, one after the other.  A run is always taken whole: where
what follows a run cannot begin with an element of the run, this is what a regular expression
finds, with or without backtracking.

`scan` cuts a list into the pieces a pattern finds, from left to right and without overlap, and
the elements between them.  Nothing is lost (`text_scan`), so `replace`, which puts something else
in the place of each piece, leaves the rest as it is, and changes nothing at all when each piece
is its own replacement (`replace_eq_self`).
-/

set_option autoImplicit false

namespace Scan

/-- A recogniser of pieces: what it finds at the start of a list, and what comes after. -/
structure Pattern (α : Type*) where
  run : List α → Option (List α × List α)
  split : ∀ s t r, run s = some (t, r) → t ≠ [] ∧ t ++ r = s

variable {α : Type*}

/-- What holds of all elements of a known list is found out one by one. -/
theorem forall_mem_of_all {r : α → Prop} [DecidablePred r] {l : List α}
    (h : (l.all fun a => decide (r a)) = true) : ∀ a ∈ l, r a := fun a ha =>
  of_decide_eq_true (List.all_eq_true.1 h a ha)

/-- The rest of a list that begins with a word. -/
def strip [DecidableEq α] : List α → List α → Option (List α)
  | [], s => some s
  | _ :: _, [] => none
  | a :: w, c :: s => if a = c then strip w s else none

theorem append_of_strip [DecidableEq α] {w s r : List α} (h : strip w s = some r) :
    w ++ r = s := by
  induction w generalizing s with
  | nil => exact Option.some.inj h.symm
  | cons a w ih =>
    match s, h with
    | c :: s, h =>
      rw [strip] at h
      split at h
      · rename_i hac
        rw [hac, List.cons_append, ih h]
      · cases h

@[simp] theorem strip_append [DecidableEq α] (w s : List α) : strip w (w ++ s) = some s := by
  induction w with
  | nil => rfl
  | cons a w ih => rw [List.cons_append, strip, if_pos rfl, ih]

theorem strip_eq_some [DecidableEq α] {w s r : List α} : strip w s = some r ↔ s = w ++ r := by
  constructor
  · intro h
    exact (append_of_strip h).symm
  · rintro rfl
    exact strip_append w r

namespace Pattern

/-- A word, which is not empty. -/
def lit [DecidableEq α] (a : α) (w : List α) : Pattern α where
  run s := (strip (a :: w) s).map (Prod.mk (a :: w))
  split s t r h := by
    obtain ⟨r', hr, heq⟩ := Option.map_eq_some_iff.1 h
    cases heq
    exact ⟨List.cons_ne_nil a w, append_of_strip hr⟩

/-- A run of elements, at least one. -/
def plus (p : α → Bool) : Pattern α where
  run s := if s.takeWhile p = [] then none else some (s.takeWhile p, s.dropWhile p)
  split s t r h := by
    split at h
    · cases h
    · rename_i hne
      cases h
      exact ⟨hne, List.takeWhile_append_dropWhile⟩

/-- One pattern after another. -/
def seq (m m' : Pattern α) : Pattern α where
  run s := (m.run s).bind fun x => (m'.run x.2).map fun y => (x.1 ++ y.1, y.2)
  split s t r h := by
    obtain ⟨⟨t₁, r₁⟩, h₁, h⟩ := Option.bind_eq_some_iff.1 h
    obtain ⟨⟨t₂, r₂⟩, h₂, heq⟩ := Option.map_eq_some_iff.1 h
    cases heq
    obtain ⟨hne, happ⟩ := m.split _ _ _ h₁
    refine ⟨List.append_ne_nil_of_left_ne_nil hne _, ?_⟩
    rw [List.append_assoc, (m'.split _ _ _ h₂).2, happ]

end Pattern

/-! ## Scanning -/

/-- A piece of a list: one that was found, or an element between them. -/
inductive Piece (α : Type*)
  | gap (a : α)
  | found (t : List α)
  deriving DecidableEq

/-- What a piece stands for. -/
def Piece.text : Piece α → List α
  | gap a => [a]
  | found t => t

/-- The pieces of a list after its first `n` elements, which belong to the last piece. -/
def scanFrom (m : Pattern α) : Nat → List α → List (Piece α)
  | _, [] => []
  | n + 1, _ :: s => scanFrom m n s
  | 0, c :: s =>
    match m.run (c :: s) with
    | some (t, _) => .found t :: scanFrom m (t.length - 1) s
    | none => .gap c :: scanFrom m 0 s

/-- The pieces of a list. -/
def scan (m : Pattern α) (s : List α) : List (Piece α) := scanFrom m 0 s

theorem scanFrom_eq (m : Pattern α) (n : Nat) (s : List α) :
    scanFrom m n s = scan m (s.drop n) := by
  induction s generalizing n with
  | nil => cases n <;> rfl
  | cons c s ih =>
    cases n with
    | zero => rfl
    | succ n => exact ih n

variable {m : Pattern α}

theorem scan_of_run {s t r : List α} (h : m.run s = some (t, r)) :
    scan m s = .found t :: scan m r := by
  obtain ⟨hne, happ⟩ := m.split _ _ _ h
  match t, hne, s, happ with
  | a :: t, _, c :: s, happ =>
    have hs : t ++ r = s := (List.cons.inj happ).2
    rw [scan, scanFrom, h]
    dsimp only
    rw [scanFrom_eq, List.length_cons, Nat.add_sub_cancel, ← hs, List.drop_left]

theorem scan_of_run_none {c : α} {s : List α} (h : m.run (c :: s) = none) :
    scan m (c :: s) = .gap c :: scan m s := by
  rw [scan, scanFrom, h]
  rfl

/-- **Nothing is lost.** -/
theorem text_scan (m : Pattern α) (s : List α) : (scan m s).flatMap Piece.text = s := by
  induction hlen : s.length using Nat.strongRecOn generalizing s with
  | _ n ih =>
    match s, hlen with
    | [], _ => rfl
    | c :: s, hlen =>
      cases hrun : m.run (c :: s) with
      | none =>
        rw [scan_of_run_none hrun, List.flatMap_cons, ih s.length (by simp [← hlen]) s rfl]
        rfl
      | some x =>
        obtain ⟨t, r⟩ := x
        obtain ⟨hne, happ⟩ := m.split _ _ _ hrun
        have hshort : r.length < n := by
          have hpos := List.length_pos_iff.2 hne
          rw [← hlen, ← happ, List.length_append]
          omega
        rw [scan_of_run hrun, List.flatMap_cons, ih r.length hshort r rfl]
        exact happ

/-- The piece, if it was found by the pattern. -/
def Piece.found? : Piece α → Option (List α)
  | gap _ => none
  | found t => some t

/-- The pieces that are found. -/
def found (m : Pattern α) (s : List α) : List (List α) := (scan m s).filterMap Piece.found?

/-- The piece with something else in its place. -/
def Piece.put (u : List α) : Piece α → List α
  | gap a => [a]
  | found _ => u

/-- The list with `u` in the place of each piece that is found. -/
def replace (m : Pattern α) (u s : List α) : List α := (scan m s).flatMap (Piece.put u)

/-- A replacement that changes nothing. -/
theorem replace_eq_self {u s : List α} (h : ∀ t ∈ found m s, t = u) : replace m u s = s := by
  have hput : ∀ x ∈ scan m s, x.put u = x.text := by
    intro x hx
    cases x with
    | gap a => rfl
    | found t => exact (h t (List.mem_filterMap.2 ⟨_, hx, rfl⟩)).symm
  calc replace m u s = (scan m s).flatMap Piece.text := List.flatMap_congr hput
    _ = s := text_scan m s

/-! ## Replacing a word -/

section Word

variable {a c : α} {w u : List α}

theorem replace_of_run {s t r : List α} (h : m.run s = some (t, r)) :
    replace m u s = u ++ replace m u r := by
  rw [replace, scan_of_run h, List.flatMap_cons]
  rfl

theorem replace_of_run_none {s : List α} (h : m.run (c :: s) = none) :
    replace m u (c :: s) = c :: replace m u s := by
  rw [replace, scan_of_run_none h, List.flatMap_cons]
  rfl

variable [DecidableEq α]

theorem lit_run_eq_none {s : List α} : (Pattern.lit a w).run s = none ↔ ¬ a :: w <+: s := by
  rw [Pattern.lit, Option.map_eq_none_iff, Option.eq_none_iff_forall_ne_some]
  simp only [ne_eq, strip_eq_some, ← not_exists]
  exact not_congr (exists_congr fun _ => eq_comm)

/-- The word is replaced where it begins. -/
@[simp] theorem replace_lit_append (s : List α) :
    replace (.lit a w) u (a :: w ++ s) = u ++ replace (.lit a w) u s := by
  have hrun : (Pattern.lit a w).run (a :: w ++ s) = some (a :: w, s) :=
    congrArg (Option.map (Prod.mk (a :: w))) (strip_append (a :: w) s)
  exact replace_of_run hrun

/-- In front of the first place where it may begin, nothing changes. -/
theorem replace_append_of_not_mem {t : List α} (h : a ∉ t) (s : List α) :
    replace (.lit a w) u (t ++ s) = t ++ replace (.lit a w) u s := by
  induction t with
  | nil => rfl
  | cons c t ih =>
    obtain ⟨hc, ht⟩ := not_or.1 (mt List.mem_cons.2 h)
    rw [List.cons_append, replace_of_run_none, ih ht, List.cons_append]
    exact lit_run_eq_none.2 fun hprefix => hc (List.cons_prefix_cons.1 hprefix).1

theorem replace_of_not_mem {t : List α} (h : a ∉ t) : replace (.lit a w) u t = t := by
  have happend := replace_append_of_not_mem (w := w) (u := u) h []
  have hnil : replace (.lit a w) u [] = [] := rfl
  rwa [hnil, List.append_nil] at happend

/-- Where the word is, there is the other one. -/
theorem infix_replace {s : List α} (h : a :: w <:+: s) : u <:+: replace (.lit a w) u s := by
  induction s with
  | nil => cases List.infix_nil.1 h
  | cons c s ih =>
    by_cases hprefix : a :: w <+: c :: s
    · obtain ⟨r, hr⟩ := hprefix
      rw [← hr, replace_lit_append]
      exact (List.prefix_append u _).isInfix
    · rw [replace_of_run_none (lit_run_eq_none.2 hprefix)]
      exact List.infix_cons (ih ((List.infix_cons_iff.1 h).resolve_left hprefix))

/-- **An element that is not in the word** divides the list. -/
theorem replace_append_cons (hc : c ∉ a :: w) (t s : List α) :
    replace (.lit a w) u (t ++ c :: s) =
      replace (.lit a w) u t ++ c :: replace (.lit a w) u s := by
  induction hlen : t.length using Nat.strongRecOn generalizing t with
  | _ n ih =>
    cases t with
    | nil =>
      refine replace_of_run_none (lit_run_eq_none.2 fun hprefix => ?_)
      exact hc (List.mem_cons.2 (.inl (List.cons_prefix_cons.1 hprefix).1.symm))
    | cons d t =>
      by_cases hprefix : a :: w <+: d :: t
      · obtain ⟨r, hr⟩ := hprefix
        rw [← hr] at hlen ⊢
        have hshort : r.length < n := by
          rw [← hlen, List.length_append, List.length_cons]
          omega
        rw [List.append_assoc, replace_lit_append, replace_lit_append, ih _ hshort r rfl,
          List.append_assoc]
      · have hlong : ¬ a :: w <+: d :: (t ++ c :: s) := by
          rintro ⟨r, hr⟩
          rw [← List.cons_append] at hr
          rcases List.append_eq_append_iff.1 hr with ⟨v, hv, -⟩ | ⟨v, hv, hrest⟩
          · exact hprefix ⟨v, hv.symm⟩
          · cases v with
            | nil => exact hprefix ⟨[], by rw [hv, List.append_nil, List.append_nil]⟩
            | cons e v =>
              have he : c = e := (List.cons.inj hrest).1
              exact hc (hv ▸ List.mem_append_right _ (he ▸ List.mem_cons_self))
        rw [List.cons_append, replace_of_run_none (lit_run_eq_none.2 hlong),
          replace_of_run_none (lit_run_eq_none.2 hprefix),
          ih t.length (by rw [← hlen]; exact Nat.lt_succ_self _) t rfl, List.cons_append]

end Word

end Scan
