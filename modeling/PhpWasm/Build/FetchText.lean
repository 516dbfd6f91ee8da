import PhpWasm.Base.Polling
import PhpWasm.Build.Vendored
import Mathlib.Tactic.NormNum

/-!
# Fetching with retries

`fetchText` asks again, up to three times, where a server fails or does not answer in time, and
waits twice as long before each attempt.

* `fetchTurn` is one turn of its loop, with the `try` and what comes behind it.
* `fetchTextRight`: for every sequence of what the attempts come to, when there is a text, what is
  thrown otherwise, and how long was waited.  A text that does not arrive in time, after a status
  that was fine, is not asked for again, and is reported as that status (`BodyTimesOut`).
-/

set_option autoImplicit false

namespace PhpWasm.Build

open Polling
open Vendored (Text)

/-! ## The loop -/

/-- An error that is thrown. -/
structure JsError where
  name : Text
  message : Text
  deriving DecidableEq

/-- The name of the error of `AbortSignal.timeout`. -/
def timeoutError : Text := "TimeoutError".toList

/-- What an attempt comes to. -/
inductive Fetched
  | throws (error : JsError)
  /-- A response, and what comes of reading its text. -/
  | response (status : Nat) (text : Except JsError Text)
  deriving DecidableEq

/-- What `fetchText` throws: an error it has caught, or one of its own. -/
inductive FetchFailure
  | thrown (error : JsError)
  /-- `HTTP ${response.status} for ${url}` -/
  | http (status : Nat)
  deriving DecidableEq

/-- `response.ok` -/
def isOk (status : Nat) : Bool := 200 ≤ status && status ≤ 299

/-- Behind the `try`, when there is a response. -/
def behindTry (attempt status : Nat) : Option (Except FetchFailure Text) :=
  if status < 500 ∨ 4 ≤ attempt then some (.error (.http status)) else none

/-- The `catch`, when it throws again. -/
def throwsAgain (attempt : Nat) (error : JsError) : Bool :=
  error.name ≠ timeoutError || 4 ≤ attempt

/-- What is made of the text of a response that is fine. -/
def textTurn (attempt status : Nat) : Except JsError Text → Option (Except FetchFailure Text)
  | .ok body => some (.ok body)
  | .error error =>
    if throwsAgain attempt error then some (.error (.thrown error)) else behindTry attempt status

/-- One turn of the loop.  Without an answer, the loop sleeps and goes on. -/
def fetchTurn (attempt : Nat) : Fetched → Option (Except FetchFailure Text)
  | .throws error => if throwsAgain attempt error then some (.error (.thrown error)) else none
  | .response status text =>
    if isOk status then textTurn attempt status text else behindTry attempt status

/-- The turns of the loop, where attempt `i + 1` comes to `fetched i`. -/
def fetchTurns (fetched : ℕ → Fetched) (i : ℕ) : Option (Except FetchFailure Text) :=
  fetchTurn (i + 1) (fetched i)

/-- `fetchText`, with the number of attempts before the last one. -/
def fetchText (fetched : ℕ → Fetched) : Option (ℕ × Except FetchFailure Text) :=
  poll (fetchTurns fetched) 4

/-- How long is slept before attempt `k + 1`, all in all: `1000 * 2 ** attempt` each time. -/
def slept : ℕ → ℕ
  | 0 => 0
  | k + 1 => slept k + 1000 * 2 ^ (k + 1)

/-! ## What is asked of it -/

/-- The server fails, or does not answer in time. -/
def Fetched.Transient : Fetched → Prop
  | throws error => error.name = timeoutError
  | response status _ => 500 ≤ status

/-- The status is fine, and the text does not arrive in time. -/
def BodyTimesOut (f : Fetched) (status : Nat) : Prop :=
  isOk status = true ∧ ∃ error, error.name = timeoutError ∧ f = .response status (.error error)

/-- **The fetch is right**, for what its attempts come to. -/
structure FetchTextRight (fetched : ℕ → Fetched) : Prop where
  /-- It ends after four attempts, and fourteen seconds of sleep. -/
  ends : ∃ k ≤ 3, slept k ≤ 14000 ∧ ∃ r, fetchText fetched = some (k, r)
  /-- It asks again only where that may help. -/
  asksAgain : ∀ k r, fetchText fetched = some (k, r) → ∀ i < k, (fetched i).Transient
  /-- There is a text exactly if one of the four attempts has one, and those before ask for
  another. -/
  text : ∀ k body, fetchText fetched = some (k, .ok body) ↔
    k ≤ 3 ∧ (∀ i < k, (fetched i).Transient) ∧
      ∃ status, isOk status = true ∧ fetched k = .response status (.ok body)
  /-- Where it gives up, it is after four attempts or asking again cannot help, but for a text that
  has not arrived in time. -/
  givesUp : ∀ k failure, fetchText fetched = some (k, .error failure) →
    k = 3 ∨ ¬ (fetched k).Transient
  /-- A status that is fine is reported as a failure exactly in that case. -/
  fine : ∀ k status, isOk status = true →
    (fetchText fetched = some (k, .error (.http status)) ↔
      k < 3 ∧ (∀ i < k, (fetched i).Transient) ∧ BodyTimesOut (fetched k) status)

/-! ## One turn -/

section Turn

variable {attempt status : Nat} {f : Fetched} {text : Except JsError Text} {body : Text}

theorem behindTry_eq_none : behindTry attempt status = none ↔ 500 ≤ status ∧ attempt < 4 := by
  rw [behindTry]
  split
  · rename_i h
    exact iff_of_false nofun (by omega)
  · rename_i h
    exact iff_of_true rfl (by omega)

theorem behindTry_eq_some {r : Except FetchFailure Text} :
    behindTry attempt status = some r ↔
      (status < 500 ∨ 4 ≤ attempt) ∧ r = .error (.http status) := by
  rw [behindTry]
  split
  · rename_i h
    rw [Option.some.injEq, eq_comm]
    exact (and_iff_right h).symm
  · rename_i h
    exact iff_of_false nofun fun hr => h hr.1

theorem throwsAgain_eq_false {error : JsError} :
    throwsAgain attempt error = false ↔ error.name = timeoutError ∧ attempt < 4 := by
  simp [throwsAgain]

theorem lt_of_isOk (h : isOk status = true) : status < 500 := by
  rw [isOk, Bool.and_eq_true, decide_eq_true_iff, decide_eq_true_iff] at h
  omega

/-- A response that is fine ends the loop, with its text or without. -/
theorem textTurn_ne_none (h : isOk status = true) : textTurn attempt status text ≠ none := by
  cases text with
  | ok body => exact nofun
  | error error =>
    have hlt := lt_of_isOk h
    rw [textTurn]
    split
    · exact nofun
    · rw [Ne, behindTry_eq_none]
      omega

theorem textTurn_eq_ok : textTurn attempt status text = some (.ok body) ↔ text = .ok body := by
  cases text with
  | ok body' =>
    rw [textTurn, Option.some.injEq]
    simp only [Except.ok.injEq]
  | error error =>
    rw [textTurn]
    refine iff_of_false ?_ nofun
    split
    · exact nofun
    · rw [behindTry_eq_some]
      exact nofun

theorem textTurn_eq_http (h : isOk status = true) {status' : Nat} :
    textTurn attempt status text = some (.error (.http status')) ↔
      attempt < 4 ∧ status' = status ∧
        ∃ error, error.name = timeoutError ∧ text = .error error := by
  cases text with
  | ok body => exact iff_of_false nofun nofun
  | error error =>
    rw [textTurn]
    cases hagain : throwsAgain attempt error with
    | true =>
      rw [← Bool.not_eq_false, throwsAgain_eq_false] at hagain
      refine iff_of_false nofun ?_
      rintro ⟨hlt, -, error', hname, heq⟩
      cases heq
      exact hagain ⟨hname, hlt⟩
    | false =>
      obtain ⟨hname, hlt⟩ := throwsAgain_eq_false.1 hagain
      rw [if_neg nofun, behindTry_eq_some]
      refine ⟨fun ⟨_, heq⟩ => ?_, fun ⟨_, heq, _⟩ => ⟨.inl (lt_of_isOk h), by rw [heq]⟩⟩
      cases heq
      exact ⟨hlt, rfl, error, hname, rfl⟩

/-- **When the loop goes on.** -/
theorem fetchTurn_eq_none : fetchTurn attempt f = none ↔ f.Transient ∧ attempt < 4 := by
  cases f with
  | throws error =>
    rw [fetchTurn, Fetched.Transient, ← throwsAgain_eq_false]
    cases throwsAgain attempt error with
    | true => exact iff_of_false nofun nofun
    | false => exact iff_of_true rfl rfl
  | response status text =>
    rw [fetchTurn, Fetched.Transient]
    split
    · rename_i hok
      have hlt := lt_of_isOk hok
      exact iff_of_false (textTurn_ne_none hok) (by omega)
    · exact behindTry_eq_none

/-- When the loop ends with a text. -/
theorem fetchTurn_eq_ok : fetchTurn attempt f = some (.ok body) ↔
    ∃ status, isOk status = true ∧ f = .response status (.ok body) := by
  cases f with
  | throws error =>
    rw [fetchTurn]
    refine iff_of_false ?_ nofun
    split <;> exact nofun
  | response status text =>
    rw [fetchTurn]
    split
    · rename_i hok
      rw [textTurn_eq_ok]
      refine ⟨fun h => ⟨status, hok, by rw [h]⟩, ?_⟩
      rintro ⟨status', -, h⟩
      cases h
      rfl
    · rename_i hok
      rw [behindTry_eq_some]
      refine iff_of_false nofun ?_
      rintro ⟨status', hok', h⟩
      cases h
      exact hok hok'

/-- When the loop ends with a status that is fine. -/
theorem fetchTurn_eq_http (hok : isOk status = true) :
    fetchTurn attempt f = some (.error (.http status)) ↔ attempt < 4 ∧ BodyTimesOut f status := by
  cases f with
  | throws error =>
    rw [fetchTurn, BodyTimesOut]
    refine iff_of_false ?_ nofun
    split <;> exact nofun
  | response status' text =>
    rw [fetchTurn]
    split
    · rename_i hok'
      rw [textTurn_eq_http hok']
      refine and_congr_right fun _ => ?_
      rw [BodyTimesOut]
      constructor
      · rintro ⟨rfl, error, hname, rfl⟩
        exact ⟨hok, error, hname, rfl⟩
      · rintro ⟨-, error, hname, heq⟩
        cases heq
        exact ⟨rfl, error, hname, rfl⟩
    · rename_i hok'
      rw [behindTry_eq_some]
      refine iff_of_false ?_ ?_
      · rintro ⟨-, heq⟩
        cases heq
        exact hok' hok
      · rintro ⟨-, -, error, -, heq⟩
        cases heq
        exact hok' hok

end Turn

/-! ## The loop -/

section Loop

variable {fetched : ℕ → Fetched} {k : ℕ} {r : Except FetchFailure Text}

/-- Which attempt is the last one. -/
theorem fetchText_eq_some : fetchText fetched = some (k, r) ↔
    k ≤ 3 ∧ (∀ i < k, (fetched i).Transient) ∧ fetchTurns fetched k = some r := by
  rw [fetchText, poll_eq_some_iff, Nat.lt_succ_iff]
  refine and_congr_right fun hk =>
    ⟨fun h => ⟨fun i hi => ?_, h.answer⟩, fun ⟨h, hr⟩ => ⟨fun i hi => ?_, hr⟩⟩
  · exact (fetchTurn_eq_none.1 (h.before i hi)).1
  · exact fetchTurn_eq_none.2 ⟨h i hi, by omega⟩

/-- The fourth attempt is the last one at the latest. -/
theorem exists_fetchText (fetched : ℕ → Fetched) :
    ∃ k ≤ 3, ∃ r, fetchText fetched = some (k, r) := by
  have hfourth : fetchTurns fetched 3 ≠ none := fun hnone =>
    absurd (fetchTurn_eq_none.1 hnone).2 (lt_irrefl 4)
  obtain ⟨k, hk, r, hend⟩ := exists_endsAt_le hfourth
  exact ⟨k, hk, r, poll_eq_some_iff.2 ⟨Nat.lt_succ_of_le hk, hend⟩⟩

theorem slept_eq (k : ℕ) : slept k = 1000 * (2 ^ (k + 1) - 2) := by
  induction k with
  | zero => rfl
  | succ k ih =>
    have hpow : 2 ≤ 2 ^ (k + 1) := Nat.le_self_pow (Nat.succ_ne_zero k) 2
    rw [slept, ih, pow_succ 2 (k + 1)]
    omega

/-- **The fetch is right**, for every sequence of what its attempts come to. -/
theorem fetchTextRight (fetched : ℕ → Fetched) : FetchTextRight fetched where
  ends := by
    obtain ⟨k, hk, r, heq⟩ := exists_fetchText fetched
    refine ⟨k, hk, ?_, r, heq⟩
    have hpow : 2 ^ (k + 1) ≤ 2 ^ 4 := Nat.pow_le_pow_right two_pos (by omega)
    rw [slept_eq]
    omega
  asksAgain _ _ h := (fetchText_eq_some.1 h).2.1
  text k body := by
    rw [fetchText_eq_some, fetchTurns, fetchTurn_eq_ok]
  givesUp k failure h := by
    obtain ⟨hk, -, hturn⟩ := fetchText_eq_some.1 h
    by_contra hmore
    rw [not_or, not_not] at hmore
    have hnone := fetchTurn_eq_none.2 ⟨hmore.2, (by omega : k + 1 < 4)⟩
    rw [fetchTurns, hnone] at hturn
    cases hturn
  fine k status hok := by
    rw [fetchText_eq_some, fetchTurns, fetchTurn_eq_http hok]
    constructor
    · rintro ⟨-, hbefore, hlt, htimesOut⟩
      exact ⟨by omega, hbefore, htimesOut⟩
    · rintro ⟨hlt, hbefore, htimesOut⟩
      exact ⟨by omega, hbefore, by omega, htimesOut⟩

end Loop

end PhpWasm.Build
