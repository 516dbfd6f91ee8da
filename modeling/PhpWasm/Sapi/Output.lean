import PhpWasm.Sapi.Context
import Mathlib.Algebra.Ring.Nat
import Mathlib.Logic.Function.Iterate

/-!
# Writing output

`wasm_sapi_ub_write` writes a string by writing what is left of it until nothing is.  A write that
fails, or writes nothing, is reported to PHP as an aborted connection.  PHP then leaves the request
by `zend_bailout`, unless `ignore_user_abort` tells it to go on; in that case the loop tries again.

* `UbWrite.step` is one turn of the loop, against any results of the writes.
* `ubWriteRight_iff`: the loop comes to an end as it should, unless PHP ignores aborts, the writes
  fail for good, and something is still left to be written.
-/

set_option autoImplicit false

namespace PhpWasm

/-! ## The writes -/

/-- What is asked of the underlying write when `strLength` bytes are left: of `write` all of them,
where `PHP_WRITE_STDOUT` is defined, and of `fwrite` not more than 16384. -/
def requested (phpWriteStdout : Bool) (strLength : Nat) : Nat :=
  if phpWriteStdout then strLength else min strLength 16384

/-- `wasm_sapi_single_write`, when the underlying write answers `ret`. -/
def wasmSapiSingleWrite (ret : Int) : Nat := if ret ≤ 0 then 0 else ret.toNat

/-- How much the first `n` writes write. -/
def sent (ret : Nat → Int) : Nat → Nat
  | 0 => 0
  | n + 1 => sent ret n + wasmSapiSingleWrite (ret n)

/-- What the underlying write answers, call by call.  It never writes more than it is asked to. -/
structure WriteResults (phpWriteStdout : Bool) (strLength : Nat) where
  ret : Nat → Int
  bounded : ∀ n, sent ret n < strLength →
    ret n ≤ requested phpWriteStdout (strLength - sent ret n)

/-- A string with its length in a `size_t`. -/
structure OutputString where
  bytes : CString
  fits : bytes.length < 2 ^ 32

/-! ## The loop -/

/-- How `wasm_sapi_ub_write` ends. -/
inductive WriteEnd
  | returned (n : Nat)
  /-- `php_handle_aborted_connection` does not return. -/
  | bailout
  deriving DecidableEq

/-- The variables of `wasm_sapi_ub_write`, and what has happened so far. -/
structure UbWrite where
  /-- `ptr - str` -/
  ptr : Nat
  remaining : Nat
  /-- How often the underlying write was called. -/
  attempts : Nat
  /-- An aborted connection was signalled. -/
  aborted : Bool
  /-- What was written. -/
  written : CString
  /-- How the call ended, if it did. -/
  ended : Option WriteEnd
  deriving DecidableEq

namespace UbWrite

/-- Before the loop. -/
def start (str : OutputString) : UbWrite := ⟨0, str.bytes.length % 2 ^ 32, 0, false, [], none⟩

/-- One turn of the loop, or the return behind it. -/
def step (ignoreUserAbort : Bool) (str : OutputString) (ret : Nat → Int) (s : UbWrite) : UbWrite :=
  if s.ended ≠ none then s
  else if s.remaining = 0 then { s with ended := some (.returned str.bytes.length) }
  else
    let n := wasmSapiSingleWrite (ret s.attempts)
    let s := { s with attempts := s.attempts + 1 }
    if n = 0 ∧ ignoreUserAbort = false then { s with aborted := true, ended := some .bailout }
    else
      { s with
        aborted := s.aborted || n == 0
        written := s.written ++ (str.bytes.drop s.ptr).take n
        ptr := s.ptr + n
        remaining := s.remaining - n }

end UbWrite

/-- The call after `n` turns. -/
def wasmSapiUbWrite (ignoreUserAbort : Bool) (str : OutputString) (ret : Nat → Int) (n : Nat) :
    UbWrite :=
  (UbWrite.step ignoreUserAbort str ret)^[n] (.start str)

/-! ## What is asked of the call -/

/-- From some write on, every write writes something. -/
def EventuallyWrites (ret : Nat → Int) : Prop := ∃ n, ∀ i, n ≤ i → 0 < wasmSapiSingleWrite (ret i)

/-- From some write on, no write writes anything. -/
def EventuallyFails (ret : Nat → Int) : Prop := ∃ n, ∀ i, n ≤ i → wasmSapiSingleWrite (ret i) = 0

/-- **The call is right.** -/
structure UbWriteRight (ignoreUserAbort : Bool) (str : OutputString) (ret : Nat → Int) : Prop where
  /-- It comes to an end. -/
  ends : EventuallyWrites ret ∨ EventuallyFails ret →
    ∃ n, (wasmSapiUbWrite ignoreUserAbort str ret n).ended ≠ none
  /-- If it returns, then the length of the string; and if no abort was signalled, the string was
  written. -/
  exact : ∀ n k, (wasmSapiUbWrite ignoreUserAbort str ret n).ended = some (.returned k) →
    k = str.bytes.length ∧ ((wasmSapiUbWrite ignoreUserAbort str ret n).aborted = false →
      (wasmSapiUbWrite ignoreUserAbort str ret n).written = str.bytes)

/-! ## The turns -/

section

variable {phpWriteStdout ignoreUserAbort : Bool} {str : OutputString}
  {results : WriteResults phpWriteStdout str.bytes.length}

/-- The results never lead beyond the string. -/
theorem sent_succ_le {n : Nat} (h : sent results.ret n < str.bytes.length) :
    sent results.ret (n + 1) ≤ str.bytes.length := by
  have hbounded := results.bounded n h
  have hrequested : requested phpWriteStdout (str.bytes.length - sent results.ret n) ≤
      str.bytes.length - sent results.ret n := by
    rw [requested]
    split
    · exact Nat.le_refl _
    · exact Nat.min_le_left _ _
  rw [sent, wasmSapiSingleWrite]
  split <;> omega

/-- What holds after any number of turns. -/
structure UbWrite.Inv (str : OutputString) (ret : Nat → Int) (s : UbWrite) : Prop where
  sent_eq : s.ptr = sent ret s.attempts ∨ s.ended = some .bailout
  inside : s.ptr ≤ str.bytes.length
  remaining_eq : s.remaining = str.bytes.length - s.ptr
  written_eq : s.written = str.bytes.take s.ptr
  returned : ∀ k, s.ended = some (.returned k) → k = str.bytes.length ∧ s.ptr = str.bytes.length

theorem UbWrite.inv_start : (UbWrite.start str).Inv str results.ret :=
  ⟨.inl rfl, Nat.zero_le _, Nat.mod_eq_of_lt str.fits, rfl, fun _ h => by cases h⟩

theorem UbWrite.inv_step {s : UbWrite} (h : s.Inv str results.ret) :
    (s.step ignoreUserAbort str results.ret).Inv str results.ret := by
  rw [UbWrite.step]
  split
  · exact h
  · rename_i hrunning
    rw [not_not] at hrunning
    have hsent : s.ptr = sent results.ret s.attempts := h.sent_eq.resolve_right (by simp [hrunning])
    have hremaining := h.remaining_eq
    split
    · rename_i hzero
      have hinside := h.inside
      exact ⟨.inl hsent, h.inside, h.remaining_eq, h.written_eq, fun k hk => by
        cases hk
        have hend : s.ptr = str.bytes.length := by omega
        exact ⟨rfl, hend⟩⟩
    · dsimp only
      split
      · exact ⟨.inr rfl, h.inside, h.remaining_eq, h.written_eq, fun k hk => by cases hk⟩
      · have hlt : sent results.ret s.attempts < str.bytes.length := by omega
        have hle := sent_succ_le hlt
        rw [sent, ← hsent] at hle
        refine ⟨.inl ?_, hle, ?_, ?_, fun k hk => by rw [hrunning] at hk; cases hk⟩
        · rw [sent, hsent]
        · dsimp only
          omega
        · dsimp only
          rw [h.written_eq, List.take_add]

theorem inv_wasmSapiUbWrite (ignoreUserAbort : Bool)
    (results : WriteResults phpWriteStdout str.bytes.length) (n : Nat) :
    (wasmSapiUbWrite ignoreUserAbort str results.ret n).Inv str results.ret := by
  induction n with
  | zero => exact UbWrite.inv_start
  | succ n ih =>
    rw [wasmSapiUbWrite, Function.iterate_succ_apply']
    exact UbWrite.inv_step ih

/-- When a turn leaves the call running. -/
theorem UbWrite.ended_step {s : UbWrite} :
    (s.step ignoreUserAbort str results.ret).ended = none ↔
      s.ended = none ∧ s.remaining ≠ 0 ∧
        (ignoreUserAbort = false → 0 < wasmSapiSingleWrite (results.ret s.attempts)) := by
  rw [UbWrite.step]
  split
  · rename_i hended
    exact iff_of_false hended fun h => hended h.1
  · rename_i hrunning
    rw [not_not] at hrunning
    split
    · rename_i hzero
      exact iff_of_false (by simp) fun h => h.2.1 hzero
    · rename_i hsome
      dsimp only
      split
      · rename_i hfails
        exact iff_of_false (by simp) fun h => absurd hfails.1 (Nat.ne_of_gt (h.2.2 hfails.2))
      · rename_i hgoes
        exact iff_of_true hrunning ⟨hrunning, hsome, fun hignore =>
          Nat.pos_of_ne_zero fun hzero => hgoes ⟨hzero, hignore⟩⟩

/-- A turn that leaves the call running writes once. -/
theorem UbWrite.attempts_step {s : UbWrite}
    (h : (s.step ignoreUserAbort str results.ret).ended = none) :
    (s.step ignoreUserAbort str results.ret).attempts = s.attempts + 1 := by
  obtain ⟨hrunning, hsome, hgoes⟩ := UbWrite.ended_step.1 h
  rw [UbWrite.step, if_neg (not_not.2 hrunning), if_neg hsome]
  dsimp only
  split <;> rfl

/-- While the call goes on, it writes once in each turn. -/
theorem attempts_of_running {n : Nat}
    (h : (wasmSapiUbWrite ignoreUserAbort str results.ret n).ended = none) :
    (wasmSapiUbWrite ignoreUserAbort str results.ret n).attempts = n := by
  induction n with
  | zero => rfl
  | succ n ih =>
    rw [wasmSapiUbWrite, Function.iterate_succ_apply'] at h ⊢
    rw [UbWrite.attempts_step h]
    exact congrArg (· + 1) (ih (UbWrite.ended_step.1 h).1)

/-- The call is still going on after `n` turns if each of them had something to write, and either
wrote something of it or was allowed to fail. -/
theorem running_iff (n : Nat) :
    (wasmSapiUbWrite ignoreUserAbort str results.ret n).ended = none ↔
      ∀ m < n, sent results.ret m < str.bytes.length ∧
        (ignoreUserAbort = false → 0 < wasmSapiSingleWrite (results.ret m)) := by
  induction n with
  | zero => exact iff_of_true rfl fun m hm => absurd hm (Nat.not_lt_zero m)
  | succ n ih =>
    rw [Nat.forall_lt_succ_right, ← ih]
    rw [wasmSapiUbWrite, Function.iterate_succ_apply', ← wasmSapiUbWrite, UbWrite.ended_step]
    refine and_congr_right fun hrunning => ?_
    have hinv := inv_wasmSapiUbWrite ignoreUserAbort results n
    have hsent := hinv.sent_eq.resolve_right (by simp [hrunning])
    have hleft := hinv.remaining_eq
    rw [attempts_of_running hrunning] at hsent ⊢
    rw [hsent] at hleft
    rw [hleft, Nat.sub_ne_zero_iff_lt]

/-! ## When writes succeed, or fail -/

/-- `n` writes that all write something write at least `n` bytes. -/
theorem le_sent {ret : Nat → Int} {k : Nat} (h : ∀ i, k ≤ i → 0 < wasmSapiSingleWrite (ret i))
    (n : Nat) : n ≤ sent ret (k + n) := by
  induction n with
  | zero => exact Nat.zero_le _
  | succ n ih =>
    have hwrites := h (k + n) (Nat.le_add_right k n)
    rw [← Nat.add_assoc, sent]
    omega

end

/-- **When writing is right.** -/
theorem ubWriteRight_iff (phpWriteStdout ignoreUserAbort : Bool) (str : OutputString)
    (results : WriteResults phpWriteStdout str.bytes.length) :
    UbWriteRight ignoreUserAbort str results.ret ↔
      (ignoreUserAbort = true → EventuallyFails results.ret →
        ∃ n, str.bytes.length ≤ sent results.ret n) := by
  constructor
  · rintro h rfl hfails
    by_contra hshort
    rw [not_exists] at hshort
    obtain ⟨n, hended⟩ := h.ends (.inr hfails)
    refine hended ((running_iff n).2 fun m _ => ⟨Nat.lt_of_not_le (hshort m), fun hfalse => ?_⟩)
    cases hfalse
  · intro h
    refine ⟨fun hresults => ?_, fun n k hk => ?_⟩
    · by_contra hruns
      have hall : ∀ m, sent results.ret m < str.bytes.length ∧
          (ignoreUserAbort = false → 0 < wasmSapiSingleWrite (results.ret m)) := by
        intro m
        have hrunning := not_not.1 (not_exists.1 hruns (m + 1))
        exact (running_iff (m + 1)).1 hrunning m (Nat.lt_succ_self m)
      rcases hresults with ⟨k, hk⟩ | hfails
      · -- every write from `k` on takes a byte of the string
        have hle := le_sent hk str.bytes.length
        exact absurd (hall _).1 (Nat.not_lt.2 hle)
      · cases hignore : ignoreUserAbort with
        | true =>
          obtain ⟨n, hn⟩ := h hignore hfails
          exact absurd (hall n).1 (Nat.not_lt.2 hn)
        | false =>
          obtain ⟨n, hn⟩ := hfails
          exact absurd (hn n (Nat.le_refl n)) (Nat.ne_of_gt ((hall n).2 hignore))
    · have hinv := inv_wasmSapiUbWrite ignoreUserAbort results n
      obtain ⟨hlength, hend⟩ := hinv.returned k hk
      refine ⟨hlength, fun _ => ?_⟩
      rw [hinv.written_eq, hend, List.take_length]

/-- With `ignore_user_abort`, a write that always fails is tried forever. -/
theorem write_fails_forever :
    ∃ (str : OutputString) (results : WriteResults true str.bytes.length),
      str.bytes = bytes "a" ∧ results.ret = (fun _ => -1) ∧
        (∀ n, (wasmSapiUbWrite true str results.ret n).ended = none) ∧
        ¬ UbWriteRight true str results.ret := by
  let str : OutputString := ⟨bytes "a", by decide⟩
  have hsent : ∀ n, sent (fun _ => -1) n = 0 := by
    intro n
    induction n with
    | zero => rfl
    | succ n ih => rw [sent, ih]; rfl
  let results : WriteResults true str.bytes.length := ⟨fun _ => -1, fun n _ => by
    rw [hsent]
    decide⟩
  have hruns : ∀ n, (wasmSapiUbWrite true str results.ret n).ended = none := fun n =>
    (running_iff n).2 fun m _ => ⟨by rw [hsent]; decide, fun h => by cases h⟩
  refine ⟨str, results, rfl, rfl, hruns, fun h => ?_⟩
  obtain ⟨n, hn⟩ := h.ends (.inr ⟨0, fun _ _ => rfl⟩)
  exact hn (hruns n)

end PhpWasm
