import Mathlib.Algebra.Order.Floor.Ring
import PhpWasm.Base.JsNumber
import PhpWasm.Base.Polling

/-!
# Polling until something is ready

Emscripten's `poll` looks at the descriptors once.  `__wrap_poll` waits: it looks, sleeps for up to
five milliseconds, and looks again, until a descriptor is ready or the deadline has passed.  The
clock is a double, and so are the deadline and the time that remains.

* `PollWait.turn` is one turn of the loop; the loop is that of `Polling`.
* `wrapPollRight`: on a clock that goes on by at least what is slept, the answer is that of the
  first look that finds something, `0` is answered only at the deadline, no sleep is much longer
  than what remains, and with a timeout there are no more than so many turns.
-/

set_option autoImplicit false

namespace PhpWasm.Socket

open Polling

/-! ## The loop -/

/-- What a turn finds: what `__real_poll` returns, and what `emscripten_get_now` returns then. -/
structure PollTurn where
  ready : Int
  now : ℚ

/-- What `__wrap_poll` is called with, and the time when it is. -/
structure PollWait where
  timeout : Int
  start : ℚ

/-- How a turn ends. -/
inductive TurnEnd
  | returns (n : Int)
  /-- `emscripten_sleep(ms)` -/
  | sleeps (ms : Nat)
  deriving DecidableEq

/-- The turn is the last one. -/
def TurnEnd.answer : TurnEnd → Option Int
  | returns n => some n
  | sleeps _ => none

namespace PollWait

/-- `emscripten_get_now() + timeout` -/
def deadline (w : PollWait) : ℚ := JsNumber.round (w.start + w.timeout)

/-- `timeout < 0 ? step_ms : deadline - emscripten_get_now()` -/
def remaining (w : PollWait) (now : ℚ) : ℚ :=
  if w.timeout < 0 then 5 else JsNumber.round (w.deadline - now)

/-- One turn of the loop. -/
def turn (w : PollWait) (t : PollTurn) : TurnEnd :=
  if t.ready ≠ 0 ∨ w.timeout = 0 then .returns t.ready
  else if w.remaining t.now ≤ 0 then .returns 0
  else if w.remaining t.now < 5 then .sleeps (⌊w.remaining t.now⌋₊ + 1)
  else .sleeps 5

/-- What the turns of the loop answer, in a world that goes on meanwhile. -/
def answers (w : PollWait) (world : ℕ → PollTurn) (i : ℕ) : Option Int := (w.turn (world i)).answer

/-- `__wrap_poll`, for at most `fuel` turns. -/
def wrapPoll (w : PollWait) (world : ℕ → PollTurn) (fuel : ℕ) : Option Int :=
  (poll (w.answers world) fuel).map Prod.snd

end PollWait

/-! ## What is asked of it -/

/-- The clock is a double of moderate size, and goes on by at least what is slept. -/
structure Paced (w : PollWait) (world : ℕ → PollTurn) : Prop where
  start : 0 ≤ w.start
  double : ∀ i, JsNumber.round (world i).now = (world i).now
  range : w.start + w.timeout < 2 ^ 52
  begins : ∀ i, w.start ≤ (world i).now
  sleeps : ∀ i ms, w.turn (world i) = .sleeps ms → (world i).now + ms ≤ (world (i + 1)).now

/-- **The wait is right.** -/
structure WrapPollRight (w : PollWait) (world : ℕ → PollTurn) : Prop where
  /-- It ends as soon as a look finds something. -/
  prompt : ∀ j, (world j).ready ≠ 0 → ∃ k ≤ j, ∃ n, EndsAt (w.answers world) k n
  /-- What is answered is what the last look found, and no look before found anything. -/
  answer : ∀ k n, EndsAt (w.answers world) k n →
    n = (world k).ready ∧ ∀ i < k, (world i).ready = 0
  /-- Nothing is answered only when the time is over, and never without a timeout. -/
  timely : ∀ k, EndsAt (w.answers world) k 0 →
    0 ≤ w.timeout ∧ (0 < w.timeout → w.deadline ≤ (world k).now)
  /-- The event loop runs in each turn, for up to five milliseconds. -/
  yields : ∀ i ms, w.turn (world i) = .sleeps ms → 1 ≤ ms ∧ ms ≤ 5
  /-- A sleep begins before the deadline, and is to end at most two milliseconds behind it. -/
  near : ∀ i ms, w.turn (world i) = .sleeps ms → 0 < w.timeout →
    (world i).now < w.deadline ∧ (world i).now + ms < w.deadline + 2
  /-- With a timeout there are no more turns than that. -/
  bounded : 0 ≤ w.timeout →
    ∃ k : ℕ, (k : ℤ) ≤ w.timeout / 5 + 1 ∧ ∃ n, EndsAt (w.answers world) k n

/-! ## One turn -/

section Turn

variable {w : PollWait} {t : PollTurn} {ms : Nat}

/-- A turn that returns, returns what it has found. -/
theorem turn_answer {n : Int} (h : (w.turn t).answer = some n) : n = t.ready := by
  rw [PollWait.turn] at h
  split at h
  · exact (Option.some.inj h).symm
  · rename_i hready
    rw [not_or, not_not] at hready
    split at h
    · exact (Option.some.inj h).symm.trans hready.1.symm
    · split at h <;> cases h

/-- A turn that finds something is the last one. -/
theorem turn_ready (h : t.ready ≠ 0) : (w.turn t).answer ≠ none := by
  rw [PollWait.turn, if_pos (.inl h)]
  exact nofun

/-- A turn that is not the last one has slept. -/
theorem turn_none (h : (w.turn t).answer = none) : ∃ ms, w.turn t = .sleeps ms := by
  cases hturn : w.turn t with
  | returns n =>
    rw [hturn] at h
    cases h
  | sleeps ms => exact ⟨ms, rfl⟩

/-- **What a turn that sleeps has found**: nothing, and some time that remains. -/
theorem turn_sleeps (h : w.turn t = .sleeps ms) :
    t.ready = 0 ∧ w.timeout ≠ 0 ∧ 0 < w.remaining t.now ∧
      ((w.remaining t.now < 5 ∧ ms = ⌊w.remaining t.now⌋₊ + 1) ∨
        (5 ≤ w.remaining t.now ∧ ms = 5)) := by
  rw [PollWait.turn] at h
  split at h
  · cases h
  · rename_i hready
    rw [not_or, not_not] at hready
    split at h
    · cases h
    · rename_i hremaining
      refine ⟨hready.1, hready.2, not_le.1 hremaining, ?_⟩
      split at h
      · rename_i hless
        exact .inl ⟨hless, (TurnEnd.sleeps.inj h).symm⟩
      · rename_i hmore
        exact .inr ⟨not_lt.1 hmore, (TurnEnd.sleeps.inj h).symm⟩

theorem one_le_sleep (h : w.turn t = .sleeps ms) : 1 ≤ ms ∧ ms ≤ 5 := by
  obtain ⟨-, -, hpos, ⟨hless, rfl⟩ | ⟨-, rfl⟩⟩ := turn_sleeps h
  · have hfloor : ⌊w.remaining t.now⌋₊ < 5 := (Nat.floor_lt hpos.le).2 hless
    omega
  · decide

/-- What remains, where there is a timeout. -/
theorem remaining_eq (h : 0 ≤ w.timeout) (now : ℚ) :
    w.remaining now = JsNumber.round (w.deadline - now) := by
  rw [PollWait.remaining, if_neg (by omega)]

end Turn

/-! ## Rounding -/

section Deadline

variable {w : PollWait} {t : PollTurn} {ms : Nat}

/-- Something remains, rounded, only before the deadline. -/
theorem lt_deadline {now : ℚ} (ht : 0 ≤ w.timeout) (h : 0 < w.remaining now) :
    now < w.deadline := by
  by_contra hle
  have hneg : w.deadline - now ≤ (0 : ℕ) := by
    rw [Nat.cast_zero]
    linarith
  have hround := JsNumber.round_le_natCast (hneg.trans_lt (by norm_num)) hneg
  rw [remaining_eq ht] at h
  rw [Nat.cast_zero] at hround
  exact absurd h (not_lt.2 hround)

/-- The deadline is where it should be, but for half a millisecond. -/
theorem deadline_le (hrange : w.start + w.timeout < 2 ^ 52) :
    w.deadline ≤ w.start + w.timeout + 1 / 2 := by
  have hplace : JsNumber.lastPlace (w.start + w.timeout) ≤ 0 :=
    JsNumber.lastPlace_nonpos (hrange.trans (by norm_num))
  have hone : (2 : ℚ) ^ JsNumber.lastPlace (w.start + w.timeout) ≤ 1 :=
    zpow_le_one_of_nonpos₀ (by norm_num) hplace
  have habs := (abs_le.1 (JsNumber.abs_round_sub_le (w.start + w.timeout))).2
  rw [PollWait.deadline]
  linarith

/-- **A sleep** reaches the deadline, or takes five milliseconds, and is not much longer than what
remains. -/
theorem sleep_reaches (ht : 0 ≤ w.timeout) (hnow : w.deadline - t.now < 2 ^ 53)
    (h : w.turn t = .sleeps ms) :
    (w.deadline < t.now + ms ∨ ms = 5) ∧ t.now + ms < w.deadline + 2 := by
  obtain ⟨-, -, hpos, hcases⟩ := turn_sleeps h
  rw [remaining_eq ht] at hpos hcases
  set d := w.deadline - t.now with hd
  -- rounding does not pass the integer above `d`
  have hceil : JsNumber.round d ≤ (⌈d⌉₊ : ℕ) := JsNumber.round_le_natCast hnow (Nat.le_ceil d)
  have hdpos : 0 < d := by
    by_contra hle
    have hround := JsNumber.round_le_natCast (n := 0) hnow (by rw [Nat.cast_zero]; linarith)
    rw [Nat.cast_zero] at hround
    linarith
  have hup := Nat.ceil_lt_add_one hdpos.le
  rcases hcases with ⟨-, rfl⟩ | ⟨hmore, rfl⟩
  · have hfloor := Nat.floor_le hpos.le
    have habove : d < (⌊JsNumber.round d⌋₊ + 1 : ℕ) := by
      by_contra hle
      have hround := JsNumber.natCast_le_round hnow (not_lt.1 hle)
      have hlt := Nat.lt_floor_add_one (JsNumber.round d)
      push_cast at hround
      linarith
    refine ⟨.inl ?_, ?_⟩
    · linarith
    · push_cast
      linarith
  · refine ⟨.inr rfl, ?_⟩
    have hfive : (5 : ℚ) ≤ ⌈d⌉₊ := hmore.trans hceil
    push_cast
    linarith

end Deadline

/-! ## The wait -/

section Wait

variable {w : PollWait} {world : ℕ → PollTurn}

theorem Paced.lt_range (h : Paced w world) (i : ℕ) : w.deadline - (world i).now < 2 ^ 53 := by
  have hdeadline := deadline_le h.range
  have hrange := h.range
  have hstart := h.start
  have hnow := h.begins i
  norm_num at hrange ⊢
  linarith

/-- How many sleeps of five milliseconds are left. -/
def sleepsLeft (w : PollWait) (world : ℕ → PollTurn) (i : ℕ) : ℕ :=
  ⌈(w.deadline - (world i).now) / 5⌉₊

/-- With every sleep, there is at least one less. -/
theorem Paced.sleepsLeft_lt (h : Paced w world) (ht : 0 ≤ w.timeout) {i : ℕ}
    (hnone : w.answers world i = none) : sleepsLeft w world (i + 1) < sleepsLeft w world i := by
  obtain ⟨ms, hsleeps⟩ := turn_none hnone
  have hbefore : (world i).now < w.deadline := lt_deadline ht (turn_sleeps hsleeps).2.2.1
  have hnext := h.sleeps i ms hsleeps
  have hleft : 0 < sleepsLeft w world i := by
    rw [sleepsLeft, Nat.ceil_pos]
    linarith
  rcases (sleep_reaches ht (h.lt_range i) hsleeps).1 with hreaches | rfl
  · have hzero : sleepsLeft w world (i + 1) = 0 := by
      rw [sleepsLeft, Nat.ceil_eq_zero]
      linarith
    omega
  · have hle : sleepsLeft w world (i + 1) ≤ sleepsLeft w world i - 1 := by
      rw [sleepsLeft, Nat.ceil_le, Nat.cast_sub hleft, Nat.cast_one]
      have hceil := Nat.le_ceil ((w.deadline - (world i).now) / 5)
      rw [← sleepsLeft] at hceil
      push_cast at hnext
      linarith
    omega

/-- At the beginning, there are not more than the timeout has room for. -/
theorem Paced.sleepsLeft_zero_le (h : Paced w world) (ht : 0 ≤ w.timeout) :
    (sleepsLeft w world 0 : ℤ) ≤ w.timeout / 5 + 1 := by
  have hdeadline := deadline_le h.range
  have hnow := h.begins 0
  obtain ⟨n, hn⟩ := Int.eq_ofNat_of_zero_le ht
  have hle : sleepsLeft w world 0 ≤ n / 5 + 1 := by
    rw [sleepsLeft, Nat.ceil_le]
    have hcast : (w.timeout : ℚ) = n := by rw [hn, Int.cast_natCast]
    have hroom : (n : ℚ) ≤ 5 * (n / 5 : ℕ) + 4 := by
      have : n ≤ 5 * (n / 5) + 4 := by omega
      exact_mod_cast this
    push_cast
    linarith
  rw [hn]
  omega

/-- With a timeout, the loop ends after no more turns than it has room for. -/
theorem Paced.ends (h : Paced w world) (ht : 0 ≤ w.timeout) :
    ∃ k : ℕ, (k : ℤ) ≤ w.timeout / 5 + 1 ∧ ∃ n, EndsAt (w.answers world) k n := by
  obtain ⟨k, hk, hend⟩ := exists_endsAt (sleepsLeft w world) fun i => h.sleepsLeft_lt ht
  exact ⟨k, (Int.ofNat_le.2 hk).trans (h.sleepsLeft_zero_le ht), hend⟩

/-- What `__wrap_poll` returns is the answer of the turn with which the loop ends. -/
theorem wrapPoll_eq_some_iff {fuel : ℕ} {n : Int} :
    w.wrapPoll world fuel = some n ↔ ∃ k < fuel, EndsAt (w.answers world) k n := by
  rw [PollWait.wrapPoll, Option.map_eq_some_iff]
  constructor
  · rintro ⟨⟨k, n⟩, hpoll, rfl⟩
    obtain ⟨hk, hend⟩ := poll_eq_some_iff.1 hpoll
    exact ⟨k, hk, hend⟩
  · rintro ⟨k, hk, hend⟩
    exact ⟨(k, n), poll_eq_some_iff.2 ⟨hk, hend⟩, rfl⟩

/-- **`__wrap_poll` returns** when it has a timeout. -/
theorem Paced.wrapPoll_returns (h : Paced w world) (ht : 0 ≤ w.timeout) {fuel : ℕ}
    (hfuel : w.timeout / 5 + 1 < fuel) : ∃ n, w.wrapPoll world fuel = some n := by
  obtain ⟨k, hk, n, hend⟩ := h.ends ht
  exact ⟨n, wrapPoll_eq_some_iff.2 ⟨k, by omega, hend⟩⟩

/-- **The wait is right.** -/
theorem wrapPollRight (h : Paced w world) : WrapPollRight w world where
  prompt _ hready := exists_endsAt_le (turn_ready hready)
  answer k n hend := by
    refine ⟨turn_answer hend.answer, fun i hi => ?_⟩
    obtain ⟨ms, hsleeps⟩ := turn_none (hend.before i hi)
    exact (turn_sleeps hsleeps).1
  timely k hend := by
    have hready : (world k).ready = 0 := (turn_answer hend.answer).symm
    have hturn := hend.answer
    rw [PollWait.answers, PollWait.turn] at hturn
    split at hturn
    · rename_i hcases
      have hzero : w.timeout = 0 := hcases.resolve_left (absurd hready)
      exact ⟨hzero.ge, fun hpos => absurd hzero hpos.ne'⟩
    · split at hturn
      · rename_i hremaining
        have ht : 0 ≤ w.timeout := by
          by_contra hneg
          rw [PollWait.remaining, if_pos (not_le.1 hneg)] at hremaining
          norm_num at hremaining
        refine ⟨ht, fun _ => ?_⟩
        rw [remaining_eq ht, PollWait.deadline, ← h.double k] at hremaining
        exact (JsNumber.le_of_round_sub_nonpos hremaining).trans (h.double k).le
      · split at hturn <;> cases hturn
  yields _ _ := one_le_sleep
  near i ms hsleeps ht :=
    ⟨lt_deadline ht.le (turn_sleeps hsleeps).2.2.1, (sleep_reaches ht.le (h.lt_range i) hsleeps).2⟩
  bounded ht := h.ends ht

end Wait

/-- Ten milliseconds, in which nothing becomes ready. -/
theorem wrapPollRight_ten : WrapPollRight ⟨10, 0⟩ fun i => ⟨0, ([0, 5].getD i 10 : ℕ)⟩ := by
  have hround : ∀ n : ℕ, n ≤ 10 → JsNumber.round n = n := fun n hn =>
    JsNumber.round_natCast (lt_of_le_of_lt (Nat.cast_le.2 hn) (by norm_num))
  have hclock : ∀ i, [0, 5].getD i 10 ≤ 10 := by
    rintro (_ | _ | i)
    · decide
    · decide
    · exact le_rfl
  have hdeadline : PollWait.deadline ⟨10, 0⟩ = (10 : ℕ) := by
    rw [← hround 10 le_rfl, PollWait.deadline]
    norm_num
  refine wrapPollRight ⟨le_rfl, fun i => hround _ (hclock i), by norm_num, fun i => ?_, ?_⟩
  · exact Nat.cast_nonneg _
  · intro i ms hsleeps
    have hms := (one_le_sleep hsleeps).2
    have hbefore := lt_deadline (by decide) (turn_sleeps hsleeps).2.2.1
    rw [hdeadline, Nat.cast_lt] at hbefore
    have hnext : [0, 5].getD i 10 + ms ≤ [0, 5].getD (i + 1) 10 := by
      rcases i with _ | _ | i
      · exact (Nat.zero_add ms).trans_le hms
      · exact Nat.add_le_add_left hms 5
      · exact absurd hbefore (lt_irrefl 10)
    have hcast := Nat.cast_le (α := ℚ).2 hnext
    rwa [Nat.cast_add] at hcast

end PhpWasm.Socket
