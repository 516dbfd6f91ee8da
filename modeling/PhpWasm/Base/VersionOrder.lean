import Mathlib.Order.PiLex
import Mathlib.Order.Compare
import Mathlib.Order.MinMax
import Mathlib.Order.RelClasses
import Mathlib.Data.Nat.Basic
import Mathlib.Tactic.Common

/-!
# Version numbers, component by component

Lists of numbers are compared from the first component on, and a component that one of them does
not have counts as zero: `1.2` and `1.2.0` are equally high.  `height` makes this the lexicographic
order of the sequences with zeros behind the last component, and `compare` finds it out by going
through the components up to the last one.
-/

set_option autoImplicit false

namespace VersionOrder

variable {β : Type*} [Zero β]

/-- The components, with zeros behind them. -/
def component (p : List β) (i : ℕ) : β := p.getD i 0

theorem component_of_le {p : List β} {i : ℕ} (h : p.length ≤ i) : component p i = 0 := by
  rw [component, List.getD_eq_getElem?_getD, List.getElem?_eq_none h, Option.getD_none]

variable [LinearOrder β]

/-- How high a version is. -/
def height (p : List β) : Lex (ℕ → β) := toLex (component p)

/-- The first difference among the first `n` components. -/
def firstDifference (p q : List β) (n : ℕ) : Option Ordering :=
  (List.range n).findSome? fun i =>
    match cmp (component p i) (component q i) with
    | .eq => none
    | order => some order

/-- The comparison of two versions. -/
def compare (p q : List β) : Ordering :=
  (firstDifference p q (max p.length q.length)).getD .eq

theorem firstDifference_spec (p q : List β) (n : ℕ) :
    match firstDifference p q n with
    | none => ∀ i < n, component p i = component q i
    | some order => ∃ i, (∀ j < i, component p j = component q j) ∧
        cmp (component p i) (component q i) = order ∧ order ≠ .eq := by
  induction n with
  | zero => exact fun i hi => absurd hi (Nat.not_lt_zero i)
  | succ n ih =>
    rw [firstDifference, List.range_succ, List.findSome?_append, ← firstDifference]
    cases hfirst : firstDifference p q n with
    | some order =>
      rw [hfirst] at ih
      exact ih
    | none =>
      rw [hfirst] at ih
      rw [Option.none_or, List.findSome?_singleton]
      cases hcmp : cmp (component p n) (component q n) with
      | eq =>
        intro i hi
        rcases Nat.lt_succ_iff_lt_or_eq.1 hi with hi | rfl
        · exact ih i hi
        · exact (cmp_eq_eq_iff _ _).1 hcmp
      | lt => exact ⟨n, ih, hcmp, by decide⟩
      | gt => exact ⟨n, ih, hcmp, by decide⟩

/-- **The loop compares the heights.** -/
theorem compare_eq_gt {p q : List β} : compare p q = .gt ↔ height q < height p := by
  have hspec := firstDifference_spec p q (max p.length q.length)
  rw [compare]
  cases hfirst : firstDifference p q (max p.length q.length) with
  | none =>
    rw [hfirst] at hspec
    have heq : height p = height q := by
      refine congrArg toLex (funext fun i => ?_)
      rcases Nat.lt_or_ge i (max p.length q.length) with hi | hi
      · exact hspec i hi
      · rw [component_of_le (max_le_iff.1 hi).1, component_of_le (max_le_iff.1 hi).2]
    rw [heq]
    exact iff_of_false (by decide) (lt_irrefl _)
  | some order =>
    rw [hfirst] at hspec
    obtain ⟨i, hbefore, hcmp, hne⟩ := hspec
    rw [Option.getD_some]
    cases order with
    | lt =>
      have hlt : height p < height q := ⟨i, hbefore, (cmp_eq_lt_iff _ _).1 hcmp⟩
      exact iff_of_false (by decide) hlt.not_gt
    | eq => exact absurd rfl hne
    | gt =>
      have hlt : height q < height p :=
        ⟨i, fun j hj => (hbefore j hj).symm, (cmp_eq_gt_iff _ _).1 hcmp⟩
      exact iff_of_true rfl hlt

theorem compare_ne_gt {p q : List β} : compare p q ≠ .gt ↔ height p ≤ height q := by
  rw [Ne, compare_eq_gt]
  exact not_lt

end VersionOrder
