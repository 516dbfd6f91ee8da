import Mathlib.Data.List.Infix

/-!
# Runs of a step function

A machine is a step function `step : σ → ε → σ`: the state after one event.  What is said about a
run is either a statement about the *states* it passes through or a statement about the *steps* it
takes, and this file has one notion for each.

* `run step s es` is the state a run of the events `es` from `s` ends in.
* `Along step P s es` says that every step of that run satisfies `P`, a relation between the state
  the step starts in and its event.  `along_iff_split` reads it as a statement about every way of
  cutting the run in two.

The rules the rest of the development uses are `run_inv` (an invariant carried by steps that are
known to be good holds at the end; `run_inv_of_step` where every step carries it), `Along.of_inv`
(under such an invariant one property of the steps implies another) and `along_congr` (under such
an invariant two properties of the steps are interchangeable).

A machine may also answer: a handler takes a request in a state, answers it, and leaves a state.
Two handlers are compared through a relation of their states, which one step keeps and gives the
same answer in (`Simulates`), and then a whole session does (`Simulates.session`).
-/

set_option autoImplicit false

namespace Machine

variable {σ ε : Type*} (step : σ → ε → σ)

/-- The state after the events `es`, taken one after another from `s`. -/
def run (s : σ) (es : List ε) : σ := es.foldl step s

@[simp] theorem run_nil (s : σ) : run step s [] = s := rfl

@[simp] theorem run_cons (s : σ) (e : ε) (es : List ε) :
    run step s (e :: es) = run step (step s e) es := rfl

@[simp] theorem run_append (s : σ) (es es' : List ε) :
    run step s (es ++ es') = run step (run step s es) es' := List.foldl_append

/-- Every step of the run of `es` from `s` satisfies `P`. -/
def Along (P : σ → ε → Prop) : σ → List ε → Prop
  | _, [] => True
  | s, e :: es => P s e ∧ Along P (step s e) es

/-- Two machines that take the same events side by side: an implementation and the specification
it is compared with. -/
def both {τ : Type*} (spec : τ → ε → τ) (p : σ × τ) (e : ε) : σ × τ := (step p.1 e, spec p.2 e)

variable {step}

instance decidableAlong {P : σ → ε → Prop} [∀ s e, Decidable (P s e)] :
    ∀ (s : σ) (es : List ε), Decidable (Along step P s es)
  | _, [] => inferInstanceAs (Decidable True)
  | s, e :: es => @instDecidableAnd _ _ _ (decidableAlong (step s e) es)

@[simp] theorem along_nil {P : σ → ε → Prop} {s : σ} : Along step P s [] := trivial

@[simp] theorem along_cons {P : σ → ε → Prop} {s : σ} {e : ε} {es : List ε} :
    Along step P s (e :: es) ↔ P s e ∧ Along step P (step s e) es := Iff.rfl

theorem along_append {P : σ → ε → Prop} {s : σ} {es es' : List ε} :
    Along step P s (es ++ es') ↔ Along step P s es ∧ Along step P (run step s es) es' := by
  induction es generalizing s with
  | nil => simp
  | cons e es ih => simp [ih, and_assoc]

/-- A property of the steps, read as a property of every way of cutting the run in two. -/
theorem along_iff_split {P : σ → ε → Prop} {s : σ} {es : List ε} :
    Along step P s es ↔ ∀ pre e post, es = pre ++ e :: post → P (run step s pre) e := by
  constructor
  · rintro h pre e post rfl
    exact (along_append.1 h).2.1
  · induction es generalizing s with
    | nil => intro _; trivial
    | cons e es ih =>
      intro h
      refine ⟨h [] e es rfl, ih fun pre e' post he => ?_⟩
      exact h (e :: pre) e' post (by rw [he]; rfl)

/-- A property of the steps of one machine, when another takes the same events. -/
theorem along_both_fst {τ : Type*} {spec : τ → ε → τ} {P : σ → ε → Prop} {s : σ} {t : τ}
    {es : List ε} :
    Along (both step spec) (fun p e => P p.1 e) (s, t) es ↔ Along step P s es := by
  induction es generalizing s t with
  | nil => exact Iff.rfl
  | cons e es ih => exact and_congr_right fun _ => ih

/-- The same for the other machine. -/
theorem along_both_snd {τ : Type*} {spec : τ → ε → τ} {P : τ → ε → Prop} {s : σ} {t : τ}
    {es : List ε} :
    Along (both step spec) (fun p e => P p.2 e) (s, t) es ↔ Along spec P t es := by
  induction es generalizing s t with
  | nil => exact Iff.rfl
  | cons e es ih => exact and_congr_right fun _ => ih

/-! ## Invariants -/

variable {I : σ → Prop} {Good P : σ → ε → Prop}

/-- **The invariant rule.**  What every good step preserves holds at the end of a run of good
steps. -/
theorem run_inv (hstep : ∀ s e, I s → Good s e → I (step s e)) {s : σ} {es : List ε}
    (h : I s) (hg : Along step Good s es) : I (run step s es) := by
  induction es generalizing s with
  | nil => exact h
  | cons e es ih => exact ih (hstep s e h hg.1) hg.2

/-- The invariant rule, for what every step preserves. -/
theorem run_inv_of_step (hstep : ∀ s e, I s → I (step s e)) {s : σ} (h : I s) (es : List ε) :
    I (run step s es) := by
  induction es generalizing s with
  | nil => exact h
  | cons e es ih => exact ih (hstep s e h)

/-- Under an invariant carried by good steps, good steps are also `P` steps. -/
theorem Along.of_inv (hstep : ∀ s e, I s → Good s e → I (step s e))
    (hP : ∀ s e, I s → Good s e → P s e) {s : σ} {es : List ε} (h : I s)
    (hg : Along step Good s es) : Along step P s es := by
  induction es generalizing s with
  | nil => trivial
  | cons e es ih => exact ⟨hP s e h hg.1, ih (hstep s e h hg.1) hg.2⟩

/-- Two properties that are equivalent under an invariant are equivalent along a run, if the
invariant is carried by the steps that have them. -/
theorem along_congr {Q : σ → ε → Prop} (hstep : ∀ s e, I s → P s e → I (step s e))
    (hPQ : ∀ s e, I s → (P s e ↔ Q s e)) {s : σ} {es : List ε} (h : I s) :
    Along step P s es ↔ Along step Q s es :=
  ⟨Along.of_inv hstep (fun s e hs => (hPQ s e hs).1) h,
    Along.of_inv (fun s e hs hq => hstep s e hs ((hPQ s e hs).2 hq)) (fun s e hs => (hPQ s e hs).2)
      h⟩

/-! ## Machines that answer -/

section Answers

variable {τ α : Type*}

/-- The state after a request. -/
def leaves (handle : σ → ε → α × σ) (s : σ) (e : ε) : σ := (handle s e).2

/-- The answers to requests, one after another from `s`. -/
def answers (handle : σ → ε → α × σ) : σ → List ε → List α
  | _, [] => []
  | s, e :: es => (handle s e).1 :: answers handle (handle s e).2 es

/-- **One handler does what the other does**, on the requests that are good for it. -/
def Simulates (handle : σ → ε → α × σ) (spec : τ → ε → α × τ) (Good : τ → ε → Prop)
    (R : σ → τ → Prop) : Prop :=
  ∀ s t e, R s t → Good t e →
    (handle s e).1 = (spec t e).1 ∧ R (handle s e).2 (spec t e).2

/-- **A session**: the answers are the same, and the states in the end are related. -/
theorem Simulates.session {handle : σ → ε → α × σ} {spec : τ → ε → α × τ} {Good : τ → ε → Prop}
    {R : σ → τ → Prop} (h : Simulates handle spec Good R) {s : σ} {t : τ} (hst : R s t)
    {es : List ε} (hgood : Along (leaves spec) Good t es) :
    answers handle s es = answers spec t es ∧
      R (run (leaves handle) s es) (run (leaves spec) t es) := by
  induction es generalizing s t with
  | nil => exact ⟨rfl, hst⟩
  | cons e es ih =>
    obtain ⟨hanswer, hnext⟩ := h s t e hst hgood.1
    obtain ⟨hanswers, hend⟩ := ih hnext hgood.2
    exact ⟨congrArg₂ List.cons hanswer hanswers, hend⟩

end Answers

end Machine
