import Mathlib.Data.List.Basic
import Mathlib.Data.Nat.ModEq
import Mathlib.Logic.Function.Basic

/-!
# Tables with linear probing

An item has a slot where it starts, and is put into the first free slot from there on, around the
end of the table.  To find it, the slots are looked at in the same order, up to a free one.

* `place` puts an item into a table, and `fill` one after another.
* `Chained` is the invariant: from every slot on, the items that start there are met before the
  first free slot, in the order they were put in.
* `chained_fill`: it holds of a table with more slots than items.
-/

set_option autoImplicit false

namespace Probing

variable {α : Type*}

/-- The slots of a table. -/
abbrev Slots (α : Type*) := ℕ → Option α

/-- The slot after `i`, around the end. -/
def next (len i : ℕ) : ℕ := if i + 1 = len then 0 else i + 1

/-- Put an item into the first free slot from `i` on.  The fuel is for the slots that are taken. -/
def place (len : ℕ) (slots : Slots α) (a : α) : ℕ → ℕ → Slots α
  | 0, _ => slots
  | fuel + 1, i =>
    if (slots i).isSome then place len slots a fuel (next len i)
    else Function.update slots i (some a)

/-- Put items into a table, each from its own slot on. -/
def fill (len : ℕ) (start : α → ℕ) (slots : Slots α) : List α → Slots α
  | [] => slots
  | a :: items => fill len start (place len slots a len (start a)) items

/-- The slots from `s` on, all around. -/
def view (len : ℕ) (slots : Slots α) (s : ℕ) : List (Option α) :=
  (List.range len).map fun d => slots ((s + d) % len)

/-- What is met from `s` on: items, the first free slot, and what is behind it. -/
structure Chain (len : ℕ) (start : α → ℕ) (slots : Slots α) (items : List α) (s : ℕ) (met : List α)
    (rest : List (Option α)) : Prop where
  view : view len slots s = met.map some ++ none :: rest
  /-- The items that start here are met in order. -/
  filter : met.filter (fun a => start a = s) = items.filter fun a => start a = s
  /-- They are not behind the free slot. -/
  away : ∀ a, some a ∈ rest → start a ≠ s
  count : met.length + rest.countP Option.isSome = items.length

/-- **From every slot on**, what starts there is met before the first free slot. -/
def Chained (len : ℕ) (start : α → ℕ) (slots : Slots α) (items : List α) : Prop :=
  ∀ s < len, ∃ met rest, Chain len start slots items s met rest

variable {len s k : ℕ} {start : α → ℕ} {slots : Slots α} {items met : List α}
  {rest : List (Option α)} {a : α}

theorem next_mod (hlen : 0 < len) (s : ℕ) : next len (s % len) = (s + 1) % len := by
  have hlt := Nat.mod_lt s hlen
  have hmod : (s + 1) % len = (s % len + 1) % len := (Nat.mod_add_mod s len 1).symm
  rw [next, hmod]
  split
  · rename_i hlast
    rw [hlast, Nat.mod_self]
  · exact (Nat.mod_eq_of_lt (by omega)).symm

/-- Where an item is put: behind the slots that are taken. -/
theorem place_eq (hlen : 0 < len) {fuel : ℕ} (hfuel : k < fuel)
    (htaken : ∀ d < k, slots ((s + d) % len) ≠ none) (hfree : slots ((s + k) % len) = none) :
    place len slots a fuel (s % len) = Function.update slots ((s + k) % len) (some a) := by
  induction k generalizing s fuel with
  | zero =>
    obtain ⟨fuel, rfl⟩ := Nat.exists_eq_succ_of_ne_zero (Nat.ne_of_gt hfuel)
    rw [Nat.add_zero] at hfree
    have hnot : ¬ (slots (s % len)).isSome = true := by simp [hfree]
    rw [place, if_neg hnot, Nat.add_zero]
  | succ k ih =>
    obtain ⟨fuel, rfl⟩ := Nat.exists_eq_succ_of_ne_zero (Nat.ne_of_gt (Nat.zero_lt_of_lt hfuel))
    have hshift : ∀ d, s + 1 + d = s + (d + 1) := fun d => by omega
    have hfirst := htaken 0 (Nat.succ_pos k)
    rw [Nat.add_zero] at hfirst
    rw [place, if_pos (Option.isSome_iff_ne_none.2 hfirst), next_mod hlen,
      ih (Nat.lt_of_succ_lt_succ hfuel) (fun d hd => ?_) (by rw [hshift]; exact hfree), hshift]
    rw [hshift]
    exact htaken (d + 1) (Nat.succ_lt_succ hd)

theorem length_view : (view len slots s).length = len := by simp [view]

theorem getElem?_view (slots : Slots α) (s : ℕ) {d : ℕ} (hd : d < len) :
    (view len slots s)[d]? = some (slots ((s + d) % len)) := by
  simp [view, hd]

namespace Chain

theorem length (h : Chain len start slots items s met rest) :
    met.length + 1 + rest.length = len := by
  have hlength := congrArg List.length h.view
  simp only [length_view, List.length_append, List.length_map, List.length_cons] at hlength
  omega

theorem lt (h : Chain len start slots items s met rest) : met.length < len := by
  have := h.length
  omega

/-- The items that are met. -/
theorem met_eq (h : Chain len start slots items s met rest) {d : ℕ} (hd : d < met.length) :
    slots ((s + d) % len) = some met[d] := by
  have hview := getElem?_view slots s (Nat.lt_trans hd h.lt)
  rw [h.view, List.getElem?_append_left (by simpa using hd), List.getElem?_map,
    List.getElem?_eq_getElem hd] at hview
  exact (Option.some.inj hview).symm

/-- The first free slot. -/
theorem free (h : Chain len start slots items s met rest) :
    slots ((s + met.length) % len) = none := by
  have hview := getElem?_view slots s h.lt
  rw [h.view, List.getElem?_append_right (by simp)] at hview
  simpa using hview.symm

end Chain

/-- There is one first free slot. -/
theorem Chain.length_unique {met' : List α} {rest' : List (Option α)}
    (h : Chain len start slots items s met rest) (h' : Chain len start slots items s met' rest') :
    met.length = met'.length := by
  rcases Nat.lt_trichotomy met.length met'.length with hlt | heq | hlt
  · have hfree := h.free
    rw [h'.met_eq hlt] at hfree
    cases hfree
  · exact heq
  · have hfree := h'.free
    rw [h.met_eq hlt] at hfree
    cases hfree

/-- Writing one slot, seen from `s` on. -/
theorem view_update (slots : Slots α) (s : ℕ) (a : α) {m : ℕ} (hm : m < len) :
    view len (Function.update slots ((s + m) % len) (some a)) s =
      (view len slots s).set m (some a) := by
  refine List.ext_getElem (by simp [view]) fun d hd _ => ?_
  have hd : d < len := by simpa [view] using hd
  rw [List.getElem_set]
  simp only [view, List.getElem_map, List.getElem_range]
  by_cases hdm : m = d
  · rw [if_pos hdm, hdm, Function.update_self]
  · rw [if_neg hdm, Function.update_of_ne]
    intro hmod
    have hsub : (s + d) ≡ (s + m) [MOD len] := hmod
    exact hdm (Nat.ModEq.eq_of_lt_of_lt (Nat.ModEq.add_left_cancel' s hsub.symm) hm hd)

/-- A slot of the table, seen from `s` on. -/
theorem exists_distance (hlen : 0 < len) (s : ℕ) {e : ℕ} (he : e < len) :
    ∃ m < len, (s + m) % len = e := by
  refine ⟨(e + (len - s % len)) % len, Nat.mod_lt _ hlen, ?_⟩
  have hlt := Nat.mod_lt s hlen
  rw [Nat.add_mod_mod, ← Nat.mod_add_mod, show s % len + (e + (len - s % len)) = e + len by omega,
    Nat.add_mod_right, Nat.mod_eq_of_lt he]

/-- Where the chain from a slot is broken, seen from another one: at its own free slot, or behind
that. -/
theorem Chain.place_self (h : Chain len start slots items s met rest) (hs : s < len) :
    place len slots a len s = Function.update slots ((s + met.length) % len) (some a) := by
  have hplace := place_eq (a := a) (Nat.zero_lt_of_lt hs) h.lt
    (fun d hd => by rw [h.met_eq hd]; exact Option.some_ne_none _) h.free
  rwa [Nat.mod_eq_of_lt hs] at hplace

/-- A list with room has a first free slot. -/
theorem exists_split {l : List (Option α)} (h : l.countP Option.isSome < l.length) :
    ∃ (xs : List α) (ys : List (Option α)), l = xs.map some ++ none :: ys := by
  induction l with
  | nil => cases h
  | cons o l ih =>
    rcases o with _ | x
    · exact ⟨[], l, rfl⟩
    · rw [List.countP_cons_of_pos rfl, List.length_cons, Nat.add_lt_add_iff_right] at h
      obtain ⟨xs, ys, rfl⟩ := ih h
      exact ⟨x :: xs, ys, rfl⟩

/-- **One more item**, seen from a slot `s`, where it is put `m` slots further on. -/
theorem Chain.insert (h : Chain len start slots items s met rest) {m : ℕ} (hm : m < len)
    (hroom : items.length + 1 < len) (hfree : slots ((s + m) % len) = none)
    (hself : start a = s → m = met.length) :
    ∃ met' rest', Chain len start (Function.update slots ((s + m) % len) (some a)) (items ++ [a]) s
      met' rest' := by
  have hlength := h.length
  have hcount := h.count
  have hview := view_update slots s a hm
  rw [h.view] at hview
  have hle : met.length ≤ m := by
    by_contra hlt
    rw [h.met_eq (Nat.lt_of_not_le hlt)] at hfree
    cases hfree
  rcases Nat.eq_or_lt_of_le hle with rfl | hlt
  · -- The free slot is taken, and the chain goes on to the next one.
    obtain ⟨xs, ys, rfl⟩ := exists_split (l := rest) (by omega)
    have haway : ∀ x ∈ xs, start x ≠ s := fun x hx =>
      h.away x (List.mem_append_left _ (List.mem_map_of_mem hx))
    refine ⟨met ++ a :: xs, ys, ?_, ?_, fun x hx => h.away x (by simp [hx]), ?_⟩
    · rw [hview, List.set_append_right _ _ (by simp)]
      simp
    · have hnone : xs.filter (fun x => start x = s) = [] :=
        List.filter_eq_nil_iff.2 fun x hx => by simpa using haway x hx
      rw [List.filter_append, h.filter, List.filter_append, List.filter_cons, List.filter_cons,
        hnone]
      rfl
    · rw [List.countP_append, List.countP_cons_of_neg (by simp), List.countP_map] at hcount
      have hall : xs.countP (Option.isSome ∘ some) = xs.length :=
        List.countP_eq_length.2 fun _ _ => rfl
      simp only [List.length_append, List.length_cons, List.length_nil]
      omega
  · -- The item is put behind the free slot.
    obtain ⟨j, rfl⟩ : ∃ j, m = met.length + 1 + j := ⟨m - (met.length + 1), by omega⟩
    have hj : j < rest.length := by omega
    have hnone : rest[j] = none := by
      have hslot := getElem?_view slots s hm
      rw [h.view, hfree, List.getElem?_append_right (by simp; omega), List.length_map,
        show met.length + 1 + j - met.length = j + 1 by omega, List.getElem?_cons_succ,
        List.getElem?_eq_getElem hj] at hslot
      exact Option.some.inj hslot
    refine ⟨met, rest.set j (some a), ?_, ?_, fun x hx => ?_, ?_⟩
    · rw [hview, List.set_append_right _ _ (by simp; omega), List.length_map,
        show met.length + 1 + j - met.length = j + 1 by omega, List.set_cons_succ]
    · have hne : ¬ start a = s := fun heq => by have := hself heq; omega
      rw [h.filter, List.filter_append, List.filter_cons_of_neg (by simpa using hne),
        List.filter_nil, List.append_nil]
    · rcases List.mem_or_eq_of_mem_set hx with hold | hnew
      · exact h.away x hold
      · obtain rfl := Option.some.inj hnew
        exact fun heq => by have := hself heq; omega
    · rw [List.countP_set hj, hnone]
      simp only [List.length_append, List.length_cons, List.length_nil]
      simp
      omega

/-- **Placing an item** keeps the chains, as long as a slot is left free. -/
theorem Chained.place (h : Chained len start slots items) (hroom : items.length + 1 < len)
    (hstart : start a < len) :
    Chained len start (Probing.place len slots a len (start a)) (items ++ [a]) := by
  obtain ⟨met₀, rest₀, h₀⟩ := h (start a) hstart
  rw [h₀.place_self hstart]
  intro s hs
  obtain ⟨met, rest, hchain⟩ := h s hs
  obtain ⟨m, hm, he⟩ := exists_distance (Nat.zero_lt_of_lt hs) s
    (Nat.mod_lt (start a + met₀.length) (Nat.zero_lt_of_lt hs))
  rw [← he]
  refine hchain.insert hm hroom (he ▸ h₀.free) fun heq => ?_
  subst heq
  rw [Nat.ModEq.eq_of_lt_of_lt (Nat.ModEq.add_left_cancel' _ he) hm h₀.lt]
  exact h₀.length_unique hchain

theorem chained_empty (hlen : 0 < len) : Chained len start (fun _ => none : Slots α) [] := by
  intro s _
  refine ⟨[], List.replicate (len - 1) none, ?_, rfl, fun a ha => ?_, ?_⟩
  · rw [view, List.map_const', List.length_range, List.map_nil, List.nil_append,
      ← List.replicate_succ, Nat.sub_add_cancel hlen]
  · cases List.eq_of_mem_replicate ha
  · simp [List.countP_replicate]

/-- **A table with more slots than items.** -/
theorem chained_fill (added : List α) (h : Chained len start slots items)
    (hroom : items.length + added.length < len) (hstart : ∀ a ∈ added, start a < len) :
    Chained len start (fill len start slots added) (items ++ added) := by
  induction added generalizing slots items with
  | nil => simpa [fill] using h
  | cons a added ih =>
    rw [List.forall_mem_cons] at hstart
    rw [List.length_cons] at hroom
    have hfirst := h.place (by omega) hstart.1
    have hrest := ih hfirst (by simp; omega) hstart.2
    rwa [List.append_assoc] at hrest

/-! ## Items and what they carry -/

variable {β : Type*} (f : β → α)

theorem place_map (len : ℕ) (slots : Slots β) (b : β) (fuel i j : ℕ) :
    (place len slots b fuel i j).map f =
      place len (fun j => (slots j).map f) (f b) fuel i j := by
  induction fuel generalizing i with
  | zero => rfl
  | succ fuel ih =>
    rw [place, place, Option.isSome_map]
    split
    · exact ih (next len i)
    · by_cases hj : j = i
      · subst hj
        rw [Function.update_self, Function.update_self]
        rfl
      · rw [Function.update_of_ne hj, Function.update_of_ne hj]

/-- Where an item is put depends on its start alone. -/
theorem fill_map (len : ℕ) (start : α → ℕ) (slots : Slots β) (items : List β) (j : ℕ) :
    (fill len (start ∘ f) slots items j).map f =
      fill len start (fun j => (slots j).map f) (items.map f) j := by
  induction items generalizing slots with
  | nil => rfl
  | cons b items ih =>
    rw [fill, ih, List.map_cons, fill]
    exact congrArg (fun slots => fill len start slots (items.map f) j)
      (funext fun j => place_map f len slots b len (start (f b)) j)

theorem mem_place {fuel i j : ℕ} {b : α} (h : place len slots a fuel i j = some b) :
    slots j = some b ∨ b = a := by
  induction fuel generalizing i with
  | zero => exact .inl h
  | succ fuel ih =>
    rw [place] at h
    split at h
    · exact ih h
    · by_cases hj : j = i
      · rw [hj, Function.update_self] at h
        exact .inr (Option.some.inj h).symm
      · rw [Function.update_of_ne hj] at h
        exact .inl h

/-- Nothing is in the table that was not put there. -/
theorem mem_fill {j : ℕ} {b : α} (h : fill len start slots items j = some b) :
    slots j = some b ∨ b ∈ items := by
  induction items generalizing slots with
  | nil => exact .inl h
  | cons a items ih =>
    rcases ih h with hslot | hmem
    · rcases mem_place hslot with hold | rfl
      · exact .inl hold
      · exact .inr List.mem_cons_self
    · exact .inr (List.mem_cons_of_mem _ hmem)

end Probing
