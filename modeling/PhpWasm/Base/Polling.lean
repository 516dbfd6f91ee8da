import Mathlib.Order.Nat
import Mathlib.Tactic.Push

/-!
# Loops that look again

A loop takes one turn after another until a turn has an answer.  What a turn finds is given by its
number: the world that the loop looks at goes on meanwhile.

* `EndsAt turn k b` says that turn `k` is the first one with an answer, and that this is `b`.
* `poll` runs the loop for a number of turns; `poll_eq_some_iff` reads off it which turn was the
  last.
* `exists_endsAt` is how a loop is shown to end: something becomes less with every turn that has no
  answer.
-/

set_option autoImplicit false

namespace Polling

variable {β : Type*}

/-- The turns from `i` on, and at most `fuel` of them: the first that has an answer. -/
def pollFrom (turn : ℕ → Option β) : ℕ → ℕ → Option (ℕ × β)
  | 0, _ => none
  | fuel + 1, i => (turn i).elim (pollFrom turn fuel (i + 1)) fun b => some (i, b)

/-- The loop, for at most `fuel` turns. -/
def poll (turn : ℕ → Option β) (fuel : ℕ) : Option (ℕ × β) := pollFrom turn fuel 0

/-- The loop ends with turn `k`, and its answer is `b`. -/
structure EndsAt (turn : ℕ → Option β) (k : ℕ) (b : β) : Prop where
  before : ∀ i < k, turn i = none
  answer : turn k = some b

variable {turn : ℕ → Option β} {k : ℕ} {b : β}

theorem pollFrom_eq_some_iff {fuel i : ℕ} : pollFrom turn fuel i = some (k, b) ↔
    i ≤ k ∧ k < i + fuel ∧ (∀ j, i ≤ j → j < k → turn j = none) ∧ turn k = some b := by
  induction fuel generalizing i with
  | zero => exact iff_of_false nofun fun ⟨hle, hlt, _⟩ => absurd hle (by omega)
  | succ fuel ih =>
    rw [pollFrom]
    cases hi : turn i with
    | some b' =>
      simp only [Option.elim_some, Option.some.injEq, Prod.mk.injEq]
      refine ⟨?_, fun ⟨hle, _, hbefore, hk⟩ => ?_⟩
      · rintro ⟨rfl, rfl⟩
        exact ⟨le_rfl, by omega, fun j hle hlt => absurd hle (by omega), hi⟩
      · rcases hle.eq_or_lt with rfl | hlt
        · exact ⟨rfl, Option.some.inj (hi.symm.trans hk)⟩
        · exact absurd (hbefore i le_rfl hlt) (by simp [hi])
    | none =>
      rw [Option.elim_none, ih]
      refine ⟨fun ⟨hle, hlt, hbefore, hk⟩ => ?_, fun ⟨hle, hlt, hbefore, hk⟩ => ?_⟩
      · refine ⟨by omega, by omega, fun j hj hjk => ?_, hk⟩
        rcases hj.eq_or_lt with rfl | hj
        · exact hi
        · exact hbefore j hj hjk
      · have hne : i ≠ k := by
          rintro rfl
          exact absurd hi (by simp [hk])
        exact ⟨by omega, by omega, fun j hj hjk => hbefore j (by omega) hjk, hk⟩

/-- **What a run of the loop says.** -/
theorem poll_eq_some_iff {fuel : ℕ} :
    poll turn fuel = some (k, b) ↔ k < fuel ∧ EndsAt turn k b := by
  rw [poll, pollFrom_eq_some_iff, Nat.zero_add]
  exact ⟨fun ⟨_, hk, hbefore, hb⟩ => ⟨hk, fun i hi => hbefore i (Nat.zero_le i) hi, hb⟩,
    fun ⟨hk, h⟩ => ⟨Nat.zero_le k, hk, fun i _ hi => h.before i hi, h.answer⟩⟩

/-- A turn with an answer is the last one, or it comes too late. -/
theorem exists_endsAt_le {j : ℕ} (h : turn j ≠ none) : ∃ k ≤ j, ∃ b, EndsAt turn k b := by
  induction j using Nat.strong_induction_on with
  | h j ih =>
    by_cases hbefore : ∀ i < j, turn i = none
    · obtain ⟨b, hb⟩ := Option.ne_none_iff_exists'.1 h
      exact ⟨j, le_rfl, b, hbefore, hb⟩
    · push Not at hbefore
      obtain ⟨i, hi, hturn⟩ := hbefore
      obtain ⟨k, hk, b, hend⟩ := ih i hi hturn
      exact ⟨k, hk.trans hi.le, b, hend⟩

/-- **A loop ends** where something becomes less with every turn that has no answer, and after no
more turns than there is of it. -/
theorem exists_endsAt (μ : ℕ → ℕ) (hstep : ∀ i, turn i = none → μ (i + 1) < μ i) :
    ∃ k ≤ μ 0, ∃ b, EndsAt turn k b := by
  by_contra hnone
  have hsilent : ∀ i ≤ μ 0, turn i = none := by
    intro i hi
    by_contra hturn
    obtain ⟨k, hk, hend⟩ := exists_endsAt_le hturn
    exact hnone ⟨k, hk.trans hi, hend⟩
  have hless : ∀ i ≤ μ 0, μ (i + 1) + i < μ 0 := by
    intro i hi
    induction i with
    | zero => exact hstep 0 (hsilent 0 hi)
    | succ i ih =>
      have hnext := hstep (i + 1) (hsilent (i + 1) hi)
      have hbefore := ih (by omega)
      omega
  exact absurd (hless (μ 0) le_rfl) (by omega)

end Polling
