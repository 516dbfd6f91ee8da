import Mathlib.Data.List.Infix
import Mathlib.Data.List.TakeWhile

/-!
# Segments

A separator divides a list into segments.  A row of tests is for segments that follow one another,
each with the separator behind it.

* `readRow` reads such a row at the beginning of a list, and `RowAt` says where there is one among
  the segments.
* `putFirst` looks for the first place at which a row can be read, and puts something else in the
  place of one of its segments; `putFirst_segments` says what that does to the segments.
* `infix_iff_mem_splitOn`: what has no separator in it is in a list when it is in a segment.
-/

set_option autoImplicit false

namespace Segments

variable {α : Type*} {q : α}

/-! ## Dividing -/

section Divide

variable {s t r w : List α}

theorem infix_append_cons_iff (hw : q ∉ w) (t r : List α) :
    w <:+: t ++ q :: r ↔ w <:+: t ∨ w <:+: r := by
  constructor
  · rintro ⟨a, b, h⟩
    rcases List.append_eq_append_iff.1 h with ⟨u, rfl, -⟩ | ⟨u, hu, hr⟩
    · exact .inl ⟨a, u, rfl⟩
    cases u with
    | nil => exact .inl ⟨a, [], by rw [List.append_nil, hu, List.append_nil]⟩
    | cons c u =>
      obtain ⟨rfl, rfl⟩ := List.cons.inj hr
      rcases List.append_eq_append_iff.1 hu with ⟨v, -, hv⟩ | ⟨v, -, hv⟩
      · exact absurd (hv ▸ List.mem_append_right v List.mem_cons_self) hw
      cases v with
      | nil =>
        rw [List.nil_append] at hv
        exact absurd (hv ▸ List.mem_cons_self) hw
      | cons d v =>
        obtain ⟨-, rfl⟩ := List.cons.inj hv
        exact .inr ⟨v, b, rfl⟩
  · rintro (h | h)
    · exact h.trans (List.prefix_append t (q :: r)).isInfix
    · exact h.trans ((List.suffix_cons q r).trans (List.suffix_append t (q :: r))).isInfix

variable [DecidableEq α]

/-- A list is one segment, or begins with one. -/
theorem segment_cases (q : α) (s : List α) : q ∉ s ∨ ∃ t r, q ∉ t ∧ s = t ++ q :: r := by
  by_cases h : q ∈ s
  · obtain ⟨t, r, hs, ht⟩ := List.eq_append_cons_of_mem h
    exact .inr ⟨t, r, ht, hs⟩
  · exact .inl h

/-- **Segment by segment.** -/
theorem segment_induction (q : α) {motive : List α → Prop} (last : ∀ t, q ∉ t → motive t)
    (more : ∀ t r, q ∉ t → motive r → motive (t ++ q :: r)) (s : List α) : motive s := by
  induction hlen : s.length using Nat.strongRecOn generalizing s with
  | _ n ih =>
    rcases segment_cases q s with h | ⟨t, r, ht, rfl⟩
    · exact last s h
    · refine more t r ht (ih _ ?_ r rfl)
      rw [← hlen, List.length_append, List.length_cons]
      omega

theorem splitOn_injective (h : s.splitOn q = t.splitOn q) : s = t := by
  calc s = [q].intercalate (s.splitOn q) := (List.intercalate_splitOn q).symm
    _ = [q].intercalate (t.splitOn q) := by rw [h]
    _ = t := List.intercalate_splitOn q

theorem not_mem_of_mem_splitOn (h : t ∈ s.splitOn q) : q ∉ t := by
  induction s using segment_induction q with
  | last s hs =>
    rw [List.splitOn_eq_singleton hs] at h
    exact List.mem_singleton.1 h ▸ hs
  | more t' r ht' ih =>
    rw [List.splitOn_append_cons_self_of_not_mem ht'] at h
    rcases List.mem_cons.1 h with rfl | h
    · exact ht'
    · exact ih h

/-- Segments that are put together again. -/
theorem splitOn_flatMap {ts : List (List α)} (h : ∀ t ∈ ts, q ∉ t) (r : List α) :
    (ts.flatMap (· ++ [q]) ++ r).splitOn q = ts ++ r.splitOn q := by
  induction ts with
  | nil => rfl
  | cons t ts ih =>
    obtain ⟨ht, hts⟩ := List.forall_mem_cons.1 h
    rw [List.flatMap_cons, List.append_assoc, List.append_assoc, List.singleton_append,
      List.splitOn_append_cons_self_of_not_mem ht, ih hts, List.cons_append]

/-- **A word without a separator** is in a segment. -/
theorem infix_iff_mem_splitOn (hw : q ∉ w) (s : List α) :
    w <:+: s ↔ ∃ t ∈ s.splitOn q, w <:+: t := by
  induction s using segment_induction q with
  | last s hs => simp [List.splitOn_eq_singleton hs]
  | more t r ht ih =>
    rw [List.splitOn_append_cons_self_of_not_mem ht, infix_append_cons_iff hw, ih,
      List.exists_mem_cons_iff]

end Divide

/-! ## Reading a row -/

section Read

variable {test : List α → Bool} {row : List (List α → Bool)} {s t r : List α} {ts : List (List α)}
variable {L : List (List α)} {i : ℕ}

/-- The segments from `i` on pass the tests, and there is one more behind them. -/
structure RowAt (row : List (List α → Bool)) (L : List (List α)) (i : ℕ) : Prop where
  fits : ∀ k test, row[k]? = some test → ∃ t, L[i + k]? = some t ∧ test t = true
  behind : i + row.length < L.length

theorem rowAt_nil : RowAt [] L i ↔ i < L.length :=
  ⟨fun h => h.behind, fun h => ⟨nofun, h⟩⟩

theorem rowAt_cons_zero : RowAt (test :: row) (t :: L) 0 ↔ test t = true ∧ RowAt row L 0 := by
  constructor
  · intro h
    obtain ⟨t', ht', htest⟩ := h.fits 0 test rfl
    obtain rfl := Option.some.inj ht'
    refine ⟨htest, fun k test' hk => ?_, ?_⟩
    · obtain ⟨t', ht', htest'⟩ := h.fits (k + 1) test' hk
      exact ⟨t', by simpa using ht', htest'⟩
    · have hbehind := h.behind
      simp only [List.length_cons] at hbehind
      omega
  · rintro ⟨htest, h⟩
    refine ⟨fun k test' hk => ?_, ?_⟩
    · cases k with
      | zero =>
        obtain rfl := Option.some.inj hk
        exact ⟨t, rfl, htest⟩
      | succ k =>
        obtain ⟨t', ht', htest'⟩ := h.fits k test' hk
        exact ⟨t', by simpa using ht', htest'⟩
    · have hbehind := h.behind
      simp only [List.length_cons]
      omega

theorem rowAt_cons_succ : RowAt row (t :: L) (i + 1) ↔ RowAt row L i := by
  have hget : ∀ k, (t :: L)[i + 1 + k]? = L[i + k]? := fun k => by
    rw [Nat.add_right_comm, List.getElem?_cons_succ]
  constructor
  · rintro ⟨hfits, hbehind⟩
    rw [List.length_cons] at hbehind
    exact ⟨fun k test hk => hget k ▸ hfits k test hk, by omega⟩
  · rintro ⟨hfits, hbehind⟩
    exact ⟨fun k test hk => (hget k).symm ▸ hfits k test hk, by rw [List.length_cons]; omega⟩

/-- A row is still there when one of its segments, or another one, is something else that passes the
test. -/
theorem RowAt.set (h : RowAt row L i) (m : ℕ) (u : List α)
    (hu : ∀ k test, row[k]? = some test → m = i + k → test u = true) : RowAt row (L.set m u) i := by
  refine ⟨fun k test hk => ?_, by rw [List.length_set]; exact h.behind⟩
  obtain ⟨t, ht, htest⟩ := h.fits k test hk
  by_cases hm : m = i + k
  · refine ⟨u, ?_, hu k test hk hm⟩
    rw [hm, List.getElem?_set_self (List.getElem?_eq_some_iff.1 ht).1]
  · exact ⟨t, by rw [List.getElem?_set_ne hm, ht], htest⟩

variable [DecidableEq α]

/-- A segment that passes a test, and what is behind its separator. -/
def readSegment (q : α) (test : List α → Bool) (s : List α) : Option (List α × List α) :=
  match s.dropWhile fun c => c ≠ q with
  | [] => none
  | _ :: r =>
    if test (s.takeWhile fun c => c ≠ q) then some (s.takeWhile fun c => c ≠ q, r) else none

/-- Segments that pass the tests, and what is behind them. -/
def readRow (q : α) : List (List α → Bool) → List α → Option (List (List α) × List α)
  | [], s => some ([], s)
  | test :: row, s =>
    (readSegment q test s).bind fun x => (readRow q row x.2).map fun y => (x.1 :: y.1, y.2)

theorem readSegment_of_not_mem (h : q ∉ s) : readSegment q test s = none := by
  have hdrop : (s.dropWhile fun c => c ≠ q) = [] :=
    List.dropWhile_eq_nil_iff.2 fun c hc => decide_eq_true fun heq => h (heq ▸ hc)
  rw [readSegment, hdrop]

theorem readSegment_append (h : q ∉ t) (r : List α) :
    readSegment q test (t ++ q :: r) = if test t then some (t, r) else none := by
  have hall : ∀ c ∈ t, decide (c ≠ q) = true := fun c hc =>
    decide_eq_true fun heq => h (heq ▸ hc)
  have hdrop : ((t ++ q :: r).dropWhile fun c => c ≠ q) = q :: r := by
    rw [List.dropWhile_append_of_pos hall, List.dropWhile_cons_of_neg (by simp)]
  have htake : ((t ++ q :: r).takeWhile fun c => c ≠ q) = t := by
    rw [List.takeWhile_append_of_pos hall, List.takeWhile_cons_of_neg (by simp), List.append_nil]
  rw [readSegment, hdrop, htake]

/-- What is read of a list are its first segments. -/
theorem readRow_sound (h : readRow q row s = some (ts, r)) :
    s.splitOn q = ts ++ r.splitOn q ∧ ts.length = row.length ∧ RowAt row (s.splitOn q) 0 := by
  induction row generalizing s ts with
  | nil =>
    obtain ⟨rfl, rfl⟩ := Prod.mk.inj (Option.some.inj h)
    exact ⟨rfl, rfl, rowAt_nil.2 (List.length_pos_iff.2 (List.splitOn_ne_nil q s))⟩
  | cons test row ih =>
    obtain ⟨⟨t, r'⟩, hread, hrest⟩ := Option.bind_eq_some_iff.1 h
    obtain ⟨⟨ts', r''⟩, hrow, heq⟩ := Option.map_eq_some_iff.1 hrest
    obtain ⟨rfl, rfl⟩ := Prod.mk.inj heq
    rcases segment_cases q s with hs | ⟨t', r', ht', rfl⟩
    · rw [readSegment_of_not_mem hs] at hread
      cases hread
    rw [readSegment_append ht'] at hread
    split at hread
    · rename_i htest
      obtain ⟨rfl, rfl⟩ := Prod.mk.inj (Option.some.inj hread)
      obtain ⟨hsegments, hlen, hrow⟩ := ih hrow
      rw [List.splitOn_append_cons_self_of_not_mem ht']
      refine ⟨?_, ?_, rowAt_cons_zero.2 ⟨htest, hrow⟩⟩
      · rw [hsegments, List.cons_append]
      · rw [List.length_cons, List.length_cons, hlen]
    · cases hread

/-- **A row is read** where there is one. -/
theorem exists_readRow (h : RowAt row (s.splitOn q) 0) : readRow q row s ≠ none := by
  induction row generalizing s with
  | nil => exact nofun
  | cons test row ih =>
    rcases segment_cases q s with hs | ⟨t, r, ht, rfl⟩
    · rw [List.splitOn_eq_singleton hs] at h
      have hbehind := h.behind
      simp only [List.length_cons, List.length_nil] at hbehind
      omega
    · rw [List.splitOn_append_cons_self_of_not_mem ht, rowAt_cons_zero] at h
      rw [readRow, readSegment_append ht, if_pos h.1, Option.bind_some, ne_eq,
        Option.map_eq_none_iff]
      exact ih h.2

end Read

/-! ## Looking for the first place -/

section First

variable [DecidableEq α] {w u s : List α} {row : List (List α → Bool)} {n i : ℕ}
variable {L : List (List α)}

/-- The list with `u` in the place of segment `n` of the first row that can be read. -/
def putFirst (q : α) (row : List (List α → Bool)) (n : ℕ) (u : List α) : List α → Option (List α)
  | [] => none
  | c :: s =>
    match readRow q row (c :: s) with
    | some (ts, r) => some ((ts.set n u).flatMap (· ++ [q]) ++ r)
    | none => (putFirst q row n u s).map (c :: ·)

/-- A row that begins with the word `w`, which a segment may have something in front of. -/
def Entry (w : List α) (row : List (List α → Bool)) (L : List (List α)) (i : ℕ) : Prop :=
  RowAt ((fun t => decide (w <:+ t)) :: row) L i

/-- The first one. -/
structure FirstEntry (w : List α) (row : List (List α → Bool)) (L : List (List α)) (i : ℕ) :
    Prop where
  entry : Entry w row L i
  first : ∀ j < i, ¬ Entry w row L j

theorem FirstEntry.unique {j : ℕ} (h : FirstEntry w row L i) (h' : FirstEntry w row L j) : i = j := by
  rcases lt_trichotomy i j with hlt | heq | hgt
  · exact absurd h.entry (h'.first i hlt)
  · exact heq
  · exact absurd h'.entry (h.first j hgt)

/-- Where the same rows are, the first one is the same. -/
theorem firstEntry_congr {L' : List (List α)} (h : ∀ j, Entry w row L j ↔ Entry w row L' j) :
    FirstEntry w row L i ↔ FirstEntry w row L' i :=
  ⟨fun hL => ⟨(h i).1 hL.entry, fun j hj => mt (h j).2 (hL.first j hj)⟩,
    fun hL => ⟨(h i).2 hL.entry, fun j hj => mt (h j).1 (hL.first j hj)⟩⟩

theorem entry_cons_succ {t : List α} : Entry w row (t :: L) (i + 1) ↔ Entry w row L i :=
  rowAt_cons_succ

theorem entry_cons_zero {t : List α} : Entry w row (t :: L) 0 ↔ w <:+ t ∧ RowAt row L 0 := by
  rw [Entry, rowAt_cons_zero, decide_eq_true_iff]

/-- The row that is read at a place. -/
theorem rowAt_word {t : List α} :
    RowAt ((fun t => decide (t = w)) :: row) (t :: L) 0 ↔ t = w ∧ RowAt row L 0 := by
  rw [rowAt_cons_zero, decide_eq_true_iff]

/-- The rows behind an element that does not begin one. -/
theorem entry_splitOn_cons (hw : w ≠ []) {c : α}
    (hnone : readRow q ((fun t => decide (t = w)) :: row) (c :: s) = none) :
    ∃ t L, s.splitOn q = t :: L ∧
      ((c == q) = true ∧ (c :: s).splitOn q = [] :: t :: L ∧
          (∀ i, Entry w row ([] :: t :: L) i ↔ ∃ j, i = j + 1 ∧ Entry w row (t :: L) j) ∨
        ¬ (c == q) = true ∧ (c :: s).splitOn q = (c :: t) :: L ∧
          ∀ i, Entry w row ((c :: t) :: L) i ↔ Entry w row (t :: L) i) := by
  obtain ⟨t, L, hsegments⟩ := List.exists_cons_of_ne_nil (List.splitOn_ne_nil q s)
  refine ⟨t, L, hsegments, ?_⟩
  have hcons := List.splitOn_cons_eq_if_modifyHead (a := q) c s
  rw [hsegments] at hcons
  split at hcons
  · rename_i hc
    refine .inl ⟨hc, hcons, fun i => ?_⟩
    cases i with
    | zero =>
      rw [entry_cons_zero, List.suffix_nil]
      exact iff_of_false (fun h => hw h.1) (by simp)
    | succ i => simp [entry_cons_succ]
  · rename_i hc
    refine .inr ⟨hc, hcons, fun i => ?_⟩
    cases i with
    | zero =>
      have hword : ¬ (c :: t = w ∧ RowAt row L 0) := by
        rw [← rowAt_word]
        intro h
        rw [← List.modifyHead_cons (f := (c :: ·)), ← hcons] at h
        exact exists_readRow h hnone
      rw [entry_cons_zero, entry_cons_zero, List.suffix_cons_iff]
      constructor
      · rintro ⟨rfl | h, hrow⟩
        · exact absurd ⟨rfl, hrow⟩ hword
        · exact ⟨h, hrow⟩
      · exact fun h => ⟨.inr h.1, h.2⟩
    | succ i => rw [entry_cons_succ, entry_cons_succ]

/-- Where nothing is put, there is no row. -/
theorem putFirst_none (hw : w ≠ [])
    (h : putFirst q ((fun t => decide (t = w)) :: row) n u s = none) (i : ℕ) :
    ¬ Entry w row (s.splitOn q) i := by
  induction s generalizing i with
  | nil =>
    intro hentry
    have hbehind := hentry.behind
    simp only [List.splitOn_nil, List.length_cons, List.length_nil] at hbehind
    omega
  | cons c s ih =>
    rw [putFirst] at h
    split at h
    · cases h
    rename_i hnone
    have hrest := ih (Option.map_eq_none_iff.1 h)
    obtain ⟨t, L, hsegments, ⟨-, hcons, hentries⟩ | ⟨-, hcons, hentries⟩⟩ :=
      entry_splitOn_cons hw hnone
    all_goals
      rw [hsegments] at hrest
      rw [hcons, hentries]
    · rintro ⟨j, -, hentry⟩
      exact hrest j hentry
    · exact hrest i

/-- **What is put** is in the place of a segment of the first row. -/
theorem putFirst_segments (hw : w ≠ []) (hu : q ∉ u) (hn : n < row.length) {s' : List α}
    (h : putFirst q ((fun t => decide (t = w)) :: row) (n + 1) u s = some s') :
    ∃ i, FirstEntry w row (s.splitOn q) i ∧
      s'.splitOn q = (s.splitOn q).set (i + (n + 1)) u := by
  induction s generalizing s' with
  | nil => cases h
  | cons c s ih =>
    rw [putFirst] at h
    split at h
    · rename_i ts r hread
      obtain rfl := Option.some.inj h
      obtain ⟨hsegments, hlen, hrow⟩ := readRow_sound hread
      have hclean : ∀ t ∈ ts.set (n + 1) u, q ∉ t := by
        intro t ht
        rcases List.mem_or_eq_of_mem_set ht with ht | rfl
        · exact not_mem_of_mem_splitOn (hsegments ▸ List.mem_append_left _ ht)
        · exact hu
      refine ⟨0, ⟨?_, fun j hj => absurd hj (Nat.not_lt_zero j)⟩, ?_⟩
      · obtain ⟨t, L, hcons⟩ := List.exists_cons_of_ne_nil (List.splitOn_ne_nil q (c :: s))
        rw [hcons] at hrow ⊢
        obtain ⟨rfl, hbehind⟩ := rowAt_word.1 hrow
        exact entry_cons_zero.2 ⟨List.suffix_refl t, hbehind⟩
      · rw [splitOn_flatMap hclean, hsegments, Nat.zero_add, List.set_append_left]
        rw [hlen, List.length_cons]
        omega
    · rename_i hnone
      obtain ⟨s₀, hs₀, rfl⟩ := Option.map_eq_some_iff.1 h
      obtain ⟨i, ⟨hentry, hfirst⟩, hset⟩ := ih hs₀
      have hput := List.splitOn_cons_eq_if_modifyHead (a := q) c s₀
      rw [hset] at hput
      obtain ⟨t, L, hsegments, ⟨hc, hcons, hentries⟩ | ⟨hc, hcons, hentries⟩⟩ :=
        entry_splitOn_cons hw hnone
      all_goals
        rw [hsegments] at hentry hfirst hput
        rw [hcons]
      · -- a separator begins a segment of its own
        rw [if_pos hc] at hput
        refine ⟨i + 1, ⟨(hentries _).2 ⟨i, rfl, hentry⟩, fun j hj => ?_⟩, ?_⟩
        · rw [hentries]
          rintro ⟨j', rfl, hj'⟩
          exact hfirst j' (by omega) hj'
        · rw [hput, Nat.add_right_comm, List.set_cons_succ]
      · rw [if_neg hc, ← Nat.add_assoc, List.set_cons_succ, List.modifyHead_cons] at hput
        refine ⟨i, ⟨(hentries _).2 hentry, fun j hj => ?_⟩, ?_⟩
        · rw [hentries]
          exact hfirst j hj
        · rw [hput, ← Nat.add_assoc, List.set_cons_succ]

end First

end Segments
