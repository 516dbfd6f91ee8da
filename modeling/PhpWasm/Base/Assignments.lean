import Mathlib.Data.List.Basic

/-!
# Repeated assignments

A list of key–value pairs, oldest first, read as assignments made one after another.  A key may be
assigned more than once, and then it matters which assignment a reader goes by: `first` is the
value of the earliest assignment of a key and `last` that of the latest.

A store that is overwritten by each assignment in turn ends up with the last one, which is
`look_foldl`; one that is filled from the other end therefore ends up with the first.
-/

set_option autoImplicit false

namespace Assignments

variable {α β : Type*} [DecidableEq α]

/-- The value of the first assignment of `k`. -/
def first (k : α) (l : List (α × β)) : Option β := l.lookup k

/-- The value of the last assignment of `k`. -/
def last (k : α) (l : List (α × β)) : Option β := l.reverse.lookup k

@[simp] theorem last_reverse (k : α) (l : List (α × β)) : last k l.reverse = first k l := by
  rw [last, List.reverse_reverse, first]

theorem last_append (k : α) (l l' : List (α × β)) :
    last k (l ++ l') = (last k l').or (last k l) := by
  rw [last, List.reverse_append, List.lookup_append, last, last]

/-- An earlier assignment counts only when there is no later one. -/
theorem last_cons (k : α) (e : α × β) (l : List (α × β)) :
    last k (e :: l) = (last k l).or (if k = e.1 then some e.2 else none) := by
  obtain ⟨k', v⟩ := e
  rw [← List.singleton_append, last_append, last, last, List.reverse_singleton, List.lookup_cons,
    List.lookup_nil]
  by_cases hk : k = k'
  · simp [hk]
  · simp [hk, beq_eq_false_iff_ne.2 hk]

theorem first_eq_none_iff {k : α} {l : List (α × β)} :
    first k l = none ↔ ∀ e ∈ l, e.1 ≠ k := by
  simp only [first, List.lookup_eq_none_iff, bne_iff_ne]
  exact forall₂_congr fun _ _ => ne_comm

theorem last_eq_none_iff {k : α} {l : List (α × β)} : last k l = none ↔ ∀ e ∈ l, e.1 ≠ k := by
  rw [← List.reverse_reverse l, last_reverse, first_eq_none_iff]
  simp

/-- A key has a last value exactly when it has a first one. -/
theorem first_eq_none_iff_last {k : α} {l : List (α × β)} :
    first k l = none ↔ last k l = none :=
  first_eq_none_iff.trans last_eq_none_iff.symm

theorem mem_of_last {k : α} {v : β} {l : List (α × β)} (h : last k l = some v) : (k, v) ∈ l := by
  obtain ⟨l₁, l₂, hl, -⟩ := List.lookup_eq_some_iff.1 h
  rw [← List.mem_reverse, hl]
  exact List.mem_append_right _ List.mem_cons_self

/-- A key that is only ever assigned one value has that value. -/
theorem last_eq_some {k : α} {v : β} {l : List (α × β)} (hmem : (k, v) ∈ l)
    (hall : ∀ w, (k, w) ∈ l → w = v) : last k l = some v := by
  cases hlast : last k l with
  | none => exact absurd rfl (last_eq_none_iff.1 hlast _ hmem)
  | some w => rw [hall w (mem_of_last hlast)]

/-! ## Maps -/

/-- `map.set(k, v)`: a key that is there keeps its place. -/
def assign (k : α) (v : β) (l : List (α × β)) : List (α × β) :=
  if k ∈ l.map Prod.fst then l.map fun e => if e.1 = k then (k, v) else e else l ++ [(k, v)]

theorem first_cons (k : α) (e : α × β) (l : List (α × β)) :
    first k (e :: l) = if k = e.1 then some e.2 else first k l := by
  rw [first, List.lookup_cons, first]
  by_cases hk : k = e.1
  · rw [if_pos hk, beq_iff_eq.2 hk]
  · rw [if_neg hk, beq_eq_false_iff_ne.2 hk]

theorem first_map_ite (k : α) (v : β) (l : List (α × β)) (k' : α) :
    first k' (l.map fun e => if e.1 = k then (k, v) else e) =
      if k' = k then (first k l).map fun _ => v else first k' l := by
  induction l with
  | nil => simp [first]
  | cons e l ih =>
    rw [List.map_cons, first_cons, ih, first_cons, first_cons]
    by_cases he : e.1 = k
    · by_cases hk : k' = k <;> simp [he, hk]
    · by_cases hk : k' = k <;> by_cases hk' : k' = e.1 <;> simp_all

theorem first_isSome_iff {k : α} {l : List (α × β)} :
    (first k l).isSome ↔ k ∈ l.map Prod.fst := by
  rw [first, List.lookup_isSome_iff, List.mem_map]
  simp only [beq_iff_eq, eq_comm (a := k)]

@[simp] theorem first_assign (k : α) (v : β) (l : List (α × β)) (k' : α) :
    first k' (assign k v l) = if k' = k then some v else first k' l := by
  rw [assign]
  split
  · rename_i hmem
    obtain ⟨w, hw⟩ := Option.isSome_iff_exists.1 (first_isSome_iff.2 hmem)
    rw [first_map_ite, hw]
    rfl
  · rename_i hmem
    rw [← first_isSome_iff, Option.not_isSome_iff_eq_none] at hmem
    rw [first, List.lookup_append, ← first, ← first, first_cons]
    by_cases hk : k' = k
    · simp [hk, hmem]
    · simp [hk, first]

/-- A key is in a map once, so its first value is its last. -/
theorem last_assign (k : α) (v : β) {l : List (α × β)} (h : ∀ k, last k l = first k l) (k' : α) :
    last k' (assign k v l) = if k' = k then some v else last k' l := by
  rw [assign]
  split
  · rename_i hmem
    rw [last, ← List.map_reverse, ← first, first_map_ite, ← last_reverse, ← last_reverse,
      List.reverse_reverse]
    rw [← first_isSome_iff, ← h] at hmem
    obtain ⟨w, hw⟩ := Option.isSome_iff_exists.1 hmem
    rw [hw]
    rfl
  · rename_i hmem
    rw [last_append, last_cons]
    by_cases hk : k' = k <;> simp [hk, last]

/-- **Overwriting keeps the last assignment.**  `look` reads a store and `write` assigns to it; a
`good` key is one that the store keeps apart from every other. -/
theorem look_foldl {σ : Type*} (look : σ → α → Option β) (write : α → β → σ → σ) {good : α → Prop}
    (h : ∀ k v s k', good k → look (write k v s) k' = if k' = k then some v else look s k')
    {l : List (α × β)} (hl : ∀ e ∈ l, good e.1) (s : σ) (k : α) :
    look (l.foldl (fun s e => write e.1 e.2 s) s) k = (last k l).or (look s k) := by
  induction l generalizing s with
  | nil => rfl
  | cons e l ih =>
    rw [List.foldl_cons, ih (fun x hx => hl x (List.mem_cons_of_mem _ hx)),
      h _ _ _ _ (hl e List.mem_cons_self), last_cons, Option.or_assoc]
    split <;> rfl

end Assignments
