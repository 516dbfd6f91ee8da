import PhpWasm.Base.Scan

/-!
# Searching for the first place

A search goes through a list from the left and stops at the first place where something is
recognised; a gap that is as short as possible, before what has to follow, is the same search.
What is recognised may depend on everything from there on.

* `lazily_append` is the rule for a text that nothing is recognised in; `Skips` says so.
* `skips_of_clashes` decides it for a known text, whatever comes behind that.
* `matchAll` goes on behind what was found.  `cut_matchAll` cuts the list into what it finds and
  what it skips, and `Cut.meets` says that nothing else could be found, but inside of that.
-/

set_option autoImplicit false

namespace LazySearch

variable {α β : Type*}

/-- What is recognised at the first place where anything is. -/
def lazily (recognise : List α → Option β) : List α → Option β
  | [] => recognise []
  | c :: s => (recognise (c :: s)).or (lazily recognise s)

/-- Nothing is recognised at a place in the text `a` that is in front of `s`. -/
def Skips (recognise : List α → Option β) : List α → List α → Prop
  | [], _ => True
  | c :: a, s => recognise (c :: (a ++ s)) = none ∧ Skips recognise a s

/-- What is left out of `s` to get `rest`, which it ends with. -/
def consumed (s rest : List α) : List α := s.take (s.length - rest.length)

variable {recognise : List α → Option β} {a b s : List α}

theorem lazily_of_some {x : β} (h : recognise s = some x) : lazily recognise s = some x := by
  cases s with
  | nil => exact h
  | cons c s => rw [lazily, h, Option.some_or]

/-- **What is skipped does not matter.** -/
theorem lazily_append (h : Skips recognise a s) :
    lazily recognise (a ++ s) = lazily recognise s := by
  induction a with
  | nil => rfl
  | cons c a ih => rw [List.cons_append, lazily, h.1, Option.none_or, ih h.2]

theorem skips_of_forall (h : ∀ c ∈ a, ∀ t, recognise (c :: t) = none) : Skips recognise a s := by
  induction a with
  | nil => trivial
  | cons c a ih =>
    exact ⟨h c List.mem_cons_self _, ih fun d hd => h d (List.mem_cons_of_mem c hd)⟩

theorem consumed_append (a s : List α) : consumed (a ++ s) s = a := by
  rw [consumed, List.length_append, Nat.add_sub_cancel, List.take_left]

section Word

variable [DecidableEq α] {w : List α}

/-- At every place of `a`, the word `w` and what is left of `a` differ somewhere. -/
def clashes (w : List α) : List α → Bool
  | [] => true
  | c :: a => !w.isPrefixOf (c :: a) && !(c :: a).isPrefixOf w && clashes w a

theorem clashes_append (ha : clashes w a) (hb : clashes w b) : clashes w (a ++ b) := by
  induction a with
  | nil => exact hb
  | cons c a ih =>
    simp only [List.cons_append, clashes, Bool.and_eq_true, Bool.not_eq_true', ← Bool.not_eq_true,
      List.isPrefixOf_iff_prefix] at ha ⊢
    obtain ⟨⟨hleft, hright⟩, hrest⟩ := ha
    have hfront : c :: a <+: c :: (a ++ b) := List.prefix_append (c :: a) b
    refine ⟨⟨fun h => ?_, fun h => hright (hfront.trans h)⟩, ih hrest⟩
    rcases List.prefix_or_prefix_of_prefix h hfront with h | h
    · exact hleft h
    · exact hright h

/-- A text that the word a recogniser begins with does not begin in. -/
theorem skips_of_clashes (hword : ∀ t x, recognise t = some x → w <+: t) (h : clashes w a) :
    Skips recognise a s := by
  induction a with
  | nil => trivial
  | cons c a ih =>
    simp only [clashes, Bool.and_eq_true, Bool.not_eq_true', ← Bool.not_eq_true,
      List.isPrefixOf_iff_prefix] at h
    obtain ⟨⟨hleft, hright⟩, hrest⟩ := h
    refine ⟨?_, ih hrest⟩
    by_contra hsome
    obtain ⟨x, hx⟩ := Option.ne_none_iff_exists'.1 hsome
    have hprefix : c :: a <+: c :: (a ++ s) := List.prefix_append (c :: a) s
    rcases List.prefix_or_prefix_of_prefix (hword _ x hx) hprefix with h | h
    · exact hleft h
    · exact hright h

end Word

/-- What is recognised one after the other, each time behind what was found before. -/
def matchAll (recognise : List α → Option (β × List α)) (s : List α) : List β :=
  match recognise s with
  | some x => if x.2.length < s.length then x.1 :: matchAll recognise x.2 else []
  | none =>
    match s with
    | [] => []
    | _ :: s => matchAll recognise s
termination_by s.length

section MatchAll

variable {recognise : List α → Option (β × List α)}

theorem matchAll_of_some {x : β} {rest : List α} (h : recognise s = some (x, rest))
    (hlt : rest.length < s.length) : matchAll recognise s = x :: matchAll recognise rest := by
  rw [matchAll.eq_def, h]
  exact if_pos hlt

theorem matchAll_append (h : Skips recognise a s) :
    matchAll recognise (a ++ s) = matchAll recognise s := by
  induction a with
  | nil => rfl
  | cons c a ih => rw [List.cons_append, matchAll.eq_def, h.1, ← ih h.2]

/-! ## What is skipped and what is found -/

/-- The list is cut into what is found in it and what is skipped. -/
inductive Cut (recognise : List α → Option (β × List α)) : List α → List β → Prop
  | last {a : List α} : Skips recognise a [] → recognise [] = none → Cut recognise a []
  | next {a s rest : List α} {x : β} {xs : List β} : Skips recognise a s → recognise s = some (x, rest) →
      Cut recognise rest xs → Cut recognise (a ++ s) (x :: xs)

/-- What is recognised is at the beginning, and not empty. -/
def Takes (recognise : List α → Option (β × List α)) : Prop :=
  ∀ s x rest, recognise s = some (x, rest) → ∃ t, t ≠ [] ∧ s = t ++ rest

theorem Skips.place {recognise : List α → Option β} {a u s : List α} {c : α}
    (h : Skips recognise (a ++ c :: u) s) : recognise (c :: (u ++ s)) = none := by
  induction a with
  | nil => exact h.1
  | cons d a ih => exact ih h.2

/-- **What a search for all matches finds.** -/
theorem cut_matchAll (htakes : Takes recognise) (s : List α) :
    Cut recognise s (matchAll recognise s) := by
  induction hlen : s.length using Nat.strongRecOn generalizing s with
  | _ n ih =>
    cases hrun : recognise s with
    | some found =>
      obtain ⟨x, rest⟩ := found
      obtain ⟨t, ht, rfl⟩ := htakes _ _ _ hrun
      have hlt : rest.length < (t ++ rest).length := by
        rw [List.length_append]
        exact Nat.lt_add_of_pos_left (List.length_pos_iff.2 ht)
      rw [matchAll_of_some hrun hlt]
      exact .next (a := []) trivial hrun (ih _ (by omega) rest rfl)
    | none =>
      match s, hlen, hrun with
      | [], _, hrun =>
        rw [matchAll.eq_def, hrun]
        exact .last (a := []) trivial hrun
      | c :: s, hlen, hrun =>
        have hcut := ih s.length (by rw [← hlen]; exact Nat.lt_succ_self _) s rfl
        rw [matchAll.eq_def, hrun]
        dsimp only
        generalize matchAll recognise s = xs at hcut
        cases hcut with
        | last hskips hnil => exact .last (a := c :: s) ⟨by rwa [List.append_nil], hskips⟩ hnil
        | @next a s _ _ _ hskips hsome hrest =>
          exact .next (a := c :: a) ⟨hrun, hskips⟩ hsome hrest

/-- What is found was recognised somewhere. -/
theorem Cut.mem {s : List α} {xs : List β} (htakes : Takes recognise) (h : Cut recognise s xs)
    {x : β} (hx : x ∈ xs) : ∃ before t rest, s = before ++ t ∧ recognise t = some (x, rest) := by
  induction h with
  | last _ _ => cases hx
  | @next a s rest y xs _ hsome _ ih =>
    rcases List.mem_cons.1 hx with rfl | hx
    · exact ⟨a, s, rest, rfl, hsome⟩
    · obtain ⟨before, t, rest', rfl, ht⟩ := ih hx
      obtain ⟨u, -, rfl⟩ := htakes _ _ _ hsome
      exact ⟨a ++ u ++ before, t, rest', by simp only [List.append_assoc], ht⟩

/-- **No place is left out**: where something could be recognised, it is found, or what is found
begins in front of there and goes on behind. -/
theorem Cut.meets {before s : List α} {xs : List β} (htakes : Takes recognise)
    (h : Cut recognise (before ++ s) xs) (hs : recognise s ≠ none) :
    ∃ a u x rest, before = a ++ u ∧ recognise (u ++ s) = some (x, rest) ∧
      rest.length < s.length ∧ x ∈ xs := by
  generalize htext : before ++ s = text at h
  induction h generalizing before with
  | @last a hskips hnil =>
    subst htext
    cases s with
    | nil => exact absurd hnil hs
    | cons c s =>
      have hnone := hskips.place
      rw [List.append_nil] at hnone
      exact absurd hnone hs
  | @next a t rest x xs hskips hsome hrest ih =>
    have hinside : ∀ {u}, before = a ++ u → u ++ s = t → ∃ a' u' x' rest', before = a' ++ u' ∧
        recognise (u' ++ s) = some (x', rest') ∧ rest'.length < s.length ∧ x' ∈ x :: xs := by
      intro u hbefore ht
      subst ht
      by_cases hlt : rest.length < s.length
      · exact ⟨a, u, x, rest, hbefore, hsome, hlt, List.mem_cons_self⟩
      · -- the place is behind what was found here
        obtain ⟨m, -, hm⟩ := htakes _ _ _ hsome
        obtain ⟨w, hw⟩ : ∃ w, rest = w ++ s := by
          have hsuffix : s <:+ m ++ rest := ⟨u, hm⟩
          have hsuffix' : rest <:+ m ++ rest := List.suffix_append m rest
          exact (List.suffix_of_suffix_length_le hsuffix hsuffix' (not_lt.1 hlt)).imp
            fun w hw => hw.symm
        obtain ⟨a', u', x', rest', rfl, hx', hlt', hmem⟩ := ih hw.symm
        refine ⟨a ++ m ++ a', u', x', rest', ?_, hx', hlt', List.mem_cons_of_mem x hmem⟩
        rw [hw, ← List.append_assoc, List.append_cancel_right_eq] at hm
        rw [hbefore, hm]
        simp only [List.append_assoc]
    rcases List.append_eq_append_iff.1 htext with ⟨u, ha, ht⟩ | ⟨u, hbefore, ht⟩
    · cases u with
      | nil =>
        rw [List.append_nil] at ha
        exact hinside (u := []) (by rw [ha, List.append_nil]) ht
      | cons c u =>
        subst ha ht
        exact absurd hskips.place hs
    · exact hinside hbefore ht.symm

end MatchAll

end LazySearch
