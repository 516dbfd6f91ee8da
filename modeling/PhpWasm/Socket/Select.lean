import Mathlib.Algebra.Ring.Int.Defs
import Mathlib.Algebra.Ring.Nat
import Mathlib.Data.Int.Order.Basic
import Mathlib.Data.List.Range
import Mathlib.Logic.Function.Basic

/-!
# Selecting sockets

`__wrap_select` is what `select(2)` becomes: it polls the descriptors of the read set and of the
write set one after another and takes those that are not ready out of their set, while it goes
through the sets.  The except set is emptied and not counted.

* `pollBit` is the block the read set and the write set have in common, for one descriptor.
* `Polled` is the invariant of one set: what has been polled so far, and what that has left set.
* `ToTimeout` is what `php_tvtoto` makes of a timeout: whole milliseconds, in an `int`.
* `selectRight_iff`: the count and the sets are always right, and so is the sleep of a call that
  has nothing to poll if its timeout is a number of milliseconds that fits.  A timeout below a
  millisecond is not slept at all (`short_timeout_not_right`).
-/

set_option autoImplicit false

namespace PhpWasm.Socket

/-! ## The function -/

/-- `POLLIN` and `POLLOUT`, as they are passed here. -/
inductive SelectEvent
  | pollIn
  | pollOut
  deriving DecidableEq

/-- An `fd_set`.  The macros index `fds_bits` without a check, so that a set has as many bits as
its caller has made room for. -/
abbrev FdSet := Nat → Bool

/-- `set && FD_ISSET(i, set)` -/
def isWatched (i : Nat) (set : Option FdSet) : Bool := set.any fun s => s i

/-- `FD_CLR(i, set)` -/
def fdClr (i : Nat) (set : FdSet) : FdSet := Function.update set i false

/-- A call of `wasm_poll_socket`. -/
structure PollCall where
  fd : Nat
  event : SelectEvent
  timeoutms : Int
  /-- What it returns. -/
  answer : Int

/-- What the loop counts. -/
structure Counters where
  n : Nat
  polled : Bool
  /-- The calls of `wasm_poll_socket`, in order. -/
  calls : List PollCall

section Loop

variable (answers : Nat → Int) (timeoutms : Int)

/-- What is done for a descriptor of the read set (with `POLLIN`) or of the write set (with
`POLLOUT`). -/
def pollBit (event : SelectEvent) (i : Nat) (set : Option FdSet) (c : Counters) :
    Option FdSet × Counters :=
  if isWatched i set then
    let answer := answers c.calls.length
    let calls := c.calls ++ [⟨i, event, timeoutms, answer⟩]
    if answer ≠ 0 then (set, ⟨c.n + 1, true, calls⟩)
    else (set.map (fdClr i), ⟨c.n, true, calls⟩)
  else (set, c)

/-- The variables of the loop. -/
structure LoopState where
  readFds : Option FdSet
  writeFds : Option FdSet
  exceptFds : Option FdSet
  counters : Counters

/-- One turn of the loop. -/
def selectTurn (st : LoopState) (i : Nat) : LoopState :=
  let (readFds, c) := pollBit answers timeoutms .pollIn i st.readFds st.counters
  let (writeFds, c) := pollBit answers timeoutms .pollOut i st.writeFds c
  let exceptFds :=
    if isWatched i st.exceptFds then st.exceptFds.map (fdClr i) else st.exceptFds
  ⟨readFds, writeFds, exceptFds, c⟩

end Loop

/-- `struct timeval`, with no negative part. -/
structure Timeval where
  tvSec : Nat
  tvUsec : Nat

/-- The arguments of a call. -/
structure SelectArgs where
  maxFd : Int
  readFds : Option FdSet
  writeFds : Option FdSet
  exceptFds : Option FdSet
  timeout : Option Timeval

/-- What a call does: its return value, the sets, what it has polled and how long it has slept. -/
structure Selected where
  n : Nat
  readFds : Option FdSet
  writeFds : Option FdSet
  exceptFds : Option FdSet
  calls : List PollCall
  /-- The calls of `emscripten_sleep`. -/
  sleeps : List Int

/-- `__wrap_select`, where `wasm_poll_socket` answers `answers 0`, `answers 1` and so on. -/
def wrapSelect (phpTvtoto : Option Timeval → Int) (answers : Nat → Int) (a : SelectArgs) :
    Selected :=
  let timeoutms := phpTvtoto a.timeout
  let st := (List.range a.maxFd.toNat).foldl (selectTurn answers timeoutms)
    ⟨a.readFds, a.writeFds, a.exceptFds, ⟨0, false, []⟩⟩
  { n := st.counters.n
    readFds := st.readFds
    writeFds := st.writeFds
    exceptFds := st.exceptFds
    calls := st.counters.calls
    sleeps := 0 :: if !st.counters.polled && 0 < timeoutms then [timeoutms] else [] }

/-- **What `php_tvtoto` makes of a timeout**: the whole milliseconds of it, as an `int`, and -1
of `NULL`. -/
structure ToTimeout (phpTvtoto : Option Timeval → Int) : Prop where
  null : phpTvtoto none = -1
  millis : ∀ tv, phpTvtoto (some tv) = Int.bmod (tv.tvSec * 1000 + tv.tvUsec / 1000) (2 ^ 32)

/-! ## What is right -/

/-- The microseconds to wait, 0 without a timeout. -/
def SelectArgs.micros (a : SelectArgs) : Nat :=
  a.timeout.elim 0 fun tv => 1000000 * tv.tvSec + tv.tvUsec

/-- What the polls of a descriptor for an event have answered. -/
def answersFor (event : SelectEvent) (i : Nat) (calls : List PollCall) : List Int :=
  (calls.filter fun p => p.event = event ∧ p.fd = i).map PollCall.answer

/-- The number of bits below `max_fd` that are set. -/
def bitsBelow (maxFd : Int) (set : Option FdSet) : Nat :=
  (List.range maxFd.toNat).countP fun i => isWatched i set

/-- A read or write bit is watched. -/
def SelectArgs.Watches (a : SelectArgs) : Prop :=
  ∃ i : Nat, i < a.maxFd ∧ (isWatched i a.readFds ∨ isWatched i a.writeFds)

/-- **A set comes back right**: as a subset, with the bits from `max_fd` on untouched, and below it
with those that the one poll of their descriptor has found ready. -/
structure SetRight (maxFd : Int) (event : SelectEvent) (calls : List PollCall)
    (before after : Option FdSet) : Prop where
  null : after.isSome = before.isSome
  subset : ∀ i, isWatched i after → isWatched i before
  ready : ∀ i : Nat, i < maxFd → isWatched i before →
    ∃ answer, answersFor event i calls = [answer] ∧ (isWatched i after ↔ answer ≠ 0)
  untouched : ∀ i : Nat, maxFd ≤ i → isWatched i after = isWatched i before

/-- **A call is right.** -/
structure SelectRight (a : SelectArgs) (r : Selected) : Prop where
  count : r.n = bitsBelow a.maxFd r.readFds + bitsBelow a.maxFd r.writeFds
  read : SetRight a.maxFd .pollIn r.calls a.readFds r.readFds
  write : SetRight a.maxFd .pollOut r.calls a.writeFds r.writeFds
  except_cleared : ∀ i : Nat, i < a.maxFd → isWatched i r.exceptFds = false
  except_untouched : ∀ i : Nat, a.maxFd ≤ i → isWatched i r.exceptFds = isWatched i a.exceptFds
  /-- A call that has nothing to poll sleeps for its timeout, and not at all without one. -/
  sleeps : ¬ a.Watches → r.n = 0 ∧ 1000 * r.sleeps.sum = a.micros

/-- The timeout is a number of milliseconds, and that is an `int`. -/
def SelectArgs.InMilliseconds (a : SelectArgs) : Prop :=
  ∀ tv ∈ a.timeout, 1000 ∣ tv.tvUsec ∧ tv.tvSec * 1000 + tv.tvUsec / 1000 < 2 ^ 31

/-! ## One descriptor -/

@[simp] theorem isWatched_map_fdClr (i j : Nat) (set : Option FdSet) :
    isWatched j (set.map (fdClr i)) = (isWatched j set && j ≠ i) := by
  cases set with
  | none => rfl
  | some s =>
    by_cases h : j = i
    · simp [isWatched, fdClr, h]
    · simp [isWatched, fdClr, h]

theorem answersFor_concat (event : SelectEvent) (i : Nat) (calls : List PollCall) (p : PollCall) :
    answersFor event i (calls ++ [p]) =
      answersFor event i calls ++ if p.event = event ∧ p.fd = i then [p.answer] else [] := by
  by_cases h : p.event = event ∧ p.fd = i
  · simp [answersFor, h]
  · simp [answersFor, h]

/-- A set after the turns for the descriptors below `k`. -/
structure Polled (event : SelectEvent) (before : Option FdSet) (k : Nat) (set : Option FdSet)
    (calls : List PollCall) : Prop where
  null : set.isSome = before.isSome
  subset : ∀ i, isWatched i set → isWatched i before
  ready : ∀ i < k, isWatched i before →
    ∃ answer, answersFor event i calls = [answer] ∧ (isWatched i set ↔ answer ≠ 0)
  later : ∀ i, k ≤ i → isWatched i set = isWatched i before ∧ answersFor event i calls = []

section Bit

variable {answers : Nat → Int} {timeoutms : Int} {event event' : SelectEvent} {k : Nat}
  {before set : Option FdSet} {c : Counters}

/-- What the block leaves of the set: the bit of the descriptor, if it is ready, and the others. -/
theorem isWatched_pollBit (i : Nat) :
    isWatched i (pollBit answers timeoutms event k set c).1 =
      (isWatched i set && (i ≠ k || answers c.calls.length ≠ 0)) := by
  rw [pollBit]
  by_cases hw : isWatched k set
  · rw [if_pos hw]
    by_cases ha : answers c.calls.length = 0
    · simp [ha]
    · simp [ha]
  · rw [if_neg hw]
    by_cases hik : i = k
    · simp [hik, hw]
    · simp [hik]

/-- It calls `wasm_poll_socket` if the descriptor is in the set. -/
theorem calls_pollBit :
    (pollBit answers timeoutms event k set c).2.calls =
      c.calls ++
        if isWatched k set then [⟨k, event, timeoutms, answers c.calls.length⟩] else [] := by
  rw [pollBit]
  by_cases hw : isWatched k set
  · rw [if_pos hw, if_pos hw]
    dsimp only
    split <;> rfl
  · rw [if_neg hw, if_neg hw, List.append_nil]

theorem polled_pollBit :
    (pollBit answers timeoutms event k set c).2.polled = (c.polled || isWatched k set) := by
  rw [pollBit]
  by_cases hw : isWatched k set
  · rw [if_pos hw]
    dsimp only
    split <;> simp [hw]
  · simp [hw]

/-- **The count stays in step with the set.** -/
theorem n_pollBit :
    (pollBit answers timeoutms event k set c).2.n =
      c.n + (isWatched k (pollBit answers timeoutms event k set c).1).toNat := by
  rw [isWatched_pollBit, pollBit]
  by_cases hw : isWatched k set
  · by_cases ha : answers c.calls.length = 0
    · simp [hw, ha]
    · simp [hw, ha]
  · simp [hw]

theorem answersFor_pollBit (i : Nat) :
    answersFor event' i (pollBit answers timeoutms event k set c).2.calls =
      answersFor event' i c.calls ++
        if isWatched k set ∧ event = event' ∧ k = i then [answers c.calls.length] else [] := by
  rw [calls_pollBit]
  by_cases hw : isWatched k set
  · simp [hw, answersFor_concat]
  · simp [hw]

variable (answers timeoutms) in
/-- The set that is polled takes its step. -/
theorem Polled.bit (h : Polled event before k set c.calls) :
    Polled event before (k + 1) (pollBit answers timeoutms event k set c).1
      (pollBit answers timeoutms event k set c).2.calls where
  null := by
    rw [pollBit]
    split
    · dsimp only
      split
      · exact h.null
      · rw [Option.isSome_map, h.null]
    · exact h.null
  subset i hi := by
    rw [isWatched_pollBit, Bool.and_eq_true] at hi
    exact h.subset i hi.1
  ready i hi hbefore := by
    rcases Nat.lt_or_eq_of_le (Nat.le_of_lt_succ hi) with hlt | rfl
    · obtain ⟨answer, hans, hset⟩ := h.ready i hlt hbefore
      refine ⟨answer, ?_, ?_⟩
      · rw [answersFor_pollBit, if_neg (by omega), List.append_nil, hans]
      · simp [isWatched_pollBit, Nat.ne_of_lt hlt, hset]
    · obtain ⟨hset, hans⟩ := h.later i le_rfl
      have hw : isWatched i set = true := hset.trans hbefore
      refine ⟨answers c.calls.length, ?_, ?_⟩
      · rw [answersFor_pollBit, hans, if_pos ⟨hw, rfl, rfl⟩]
        rfl
      · simp [isWatched_pollBit, hw]
  later i hi := by
    obtain ⟨hset, hans⟩ := h.later i (by omega)
    refine ⟨?_, ?_⟩
    · have hik : i ≠ k := by omega
      simp [isWatched_pollBit, hik, hset]
    · rw [answersFor_pollBit, hans, if_neg (by omega), List.nil_append]

variable (answers timeoutms) in
/-- The other set does not notice. -/
theorem Polled.other_bit {k' : Nat} {other : Option FdSet} (hne : event ≠ event')
    (h : Polled event' before k' other c.calls) :
    Polled event' before k' other (pollBit answers timeoutms event k set c).2.calls := by
  have hsame : ∀ i, answersFor event' i (pollBit answers timeoutms event k set c).2.calls =
      answersFor event' i c.calls := by
    intro i
    rw [answersFor_pollBit, if_neg fun hc => hne hc.2.1, List.append_nil]
  exact ⟨h.null, h.subset, fun i hi hb => by rw [hsame]; exact h.ready i hi hb,
    fun i hi => by rw [hsame]; exact h.later i hi⟩

end Bit

/-! ## The loop -/

section Loop

variable {answers : Nat → Int} {timeoutms : Int} {a : SelectArgs} {k : Nat} {st : LoopState}

/-- The state after the turns for the descriptors below `k`. -/
structure LoopInv (a : SelectArgs) (k : Nat) (st : LoopState) : Prop where
  read : Polled .pollIn a.readFds k st.readFds st.counters.calls
  write : Polled .pollOut a.writeFds k st.writeFds st.counters.calls
  except_below : ∀ i < k, isWatched i st.exceptFds = false
  except_later : ∀ i, k ≤ i → isWatched i st.exceptFds = isWatched i a.exceptFds
  count : st.counters.n =
    (List.range k).countP (fun i => isWatched i st.readFds) +
      (List.range k).countP fun i => isWatched i st.writeFds
  polled : st.counters.polled = true ↔
    ∃ i < k, isWatched i a.readFds ∨ isWatched i a.writeFds

theorem loopInv_start :
    LoopInv a 0 ⟨a.readFds, a.writeFds, a.exceptFds, ⟨0, false, []⟩⟩ where
  read := ⟨rfl, fun _ h => h, fun _ h => absurd h (Nat.not_lt_zero _), fun _ _ => ⟨rfl, rfl⟩⟩
  write := ⟨rfl, fun _ h => h, fun _ h => absurd h (Nat.not_lt_zero _), fun _ _ => ⟨rfl, rfl⟩⟩
  except_below _ h := absurd h (Nat.not_lt_zero _)
  except_later _ _ := rfl
  count := rfl
  polled := by simp

/-- Polling `k` changes no bit below `k`. -/
theorem countP_pollBit {event : SelectEvent} {set : Option FdSet} {c : Counters} :
    (List.range k).countP
        (fun i => isWatched i (pollBit answers timeoutms event k set c).1) =
      (List.range k).countP fun i => isWatched i set := by
  refine List.countP_congr fun i hi => ?_
  have hik : i ≠ k := Nat.ne_of_lt (List.mem_range.1 hi)
  simp [isWatched_pollBit, hik]

theorem exists_lt_succ_iff {p : Nat → Prop} : (∃ i < k + 1, p i) ↔ (∃ i < k, p i) ∨ p k := by
  constructor
  · rintro ⟨i, hi, hp⟩
    rcases Nat.lt_or_eq_of_le (Nat.le_of_lt_succ hi) with hlt | rfl
    · exact .inl ⟨i, hlt, hp⟩
    · exact .inr hp
  · rintro (⟨i, hi, hp⟩ | hp)
    · exact ⟨i, Nat.lt_succ_of_lt hi, hp⟩
    · exact ⟨k, Nat.lt_succ_self k, hp⟩

/-- **One turn.** -/
theorem LoopInv.turn (h : LoopInv a k st) :
    LoopInv a (k + 1) (selectTurn answers timeoutms st k) where
  read := (h.read.bit answers timeoutms).other_bit answers timeoutms (by decide)
  write :=
    have hne : SelectEvent.pollIn ≠ .pollOut := by decide
    (h.write.other_bit answers timeoutms hne).bit answers timeoutms
  except_below i hi := by
    rw [selectTurn]
    dsimp only
    split
    · rename_i hk
      rcases Nat.lt_or_eq_of_le (Nat.le_of_lt_succ hi) with hlt | rfl
      · simp [h.except_below i hlt]
      · simp
    · rename_i hk
      rcases Nat.lt_or_eq_of_le (Nat.le_of_lt_succ hi) with hlt | rfl
      · exact h.except_below i hlt
      · exact Bool.eq_false_iff.2 hk
  except_later i hi := by
    have hik : i ≠ k := by omega
    rw [selectTurn, ← h.except_later i (by omega)]
    dsimp only
    split
    · simp [hik]
    · rfl
  count := by
    rw [List.range_succ, List.countP_append, List.countP_append, selectTurn]
    dsimp only
    rw [n_pollBit, n_pollBit, countP_pollBit, countP_pollBit, h.count]
    simp only [List.countP_singleton]
    split <;> split <;> simp_all <;> omega
  polled := by
    rw [exists_lt_succ_iff, ← h.polled, ← (h.read.later k le_rfl).1, ← (h.write.later k le_rfl).1,
      selectTurn]
    dsimp only
    rw [polled_pollBit, polled_pollBit, Bool.or_eq_true, Bool.or_eq_true, or_assoc]

variable (answers timeoutms a) in
/-- The whole loop. -/
theorem loopInv_foldl (k : Nat) :
    LoopInv a k ((List.range k).foldl (selectTurn answers timeoutms)
      ⟨a.readFds, a.writeFds, a.exceptFds, ⟨0, false, []⟩⟩) := by
  induction k with
  | zero => exact loopInv_start
  | succ k ih =>
    rw [List.range_succ, List.foldl_append]
    exact ih.turn

end Loop

/-! ## The call -/

theorem Polled.right {event : SelectEvent} {maxFd : Int} {before set : Option FdSet}
    {calls : List PollCall} (h : Polled event before maxFd.toNat set calls) :
    SetRight maxFd event calls before set where
  null := h.null
  subset := h.subset
  ready i hi := h.ready i (by omega)
  untouched i hi := (h.later i (by omega)).1

/-- The microseconds of a timeout are slept just when they are whole milliseconds that fit. -/
theorem slept_iff {phpTvtoto : Option Timeval → Int} (h : ToTimeout phpTvtoto) (a : SelectArgs) :
    1000 * max (phpTvtoto a.timeout) 0 = a.micros ↔ a.InMilliseconds := by
  rw [SelectArgs.micros, SelectArgs.InMilliseconds]
  cases a.timeout with
  | none =>
    rw [h.null]
    exact iff_of_true rfl fun tv htv => nomatch htv
  | some tv =>
    rw [h.millis, Int.bmod_def]
    simp only [Option.elim_some, Option.mem_def, Option.some.injEq, forall_eq']
    split <;> omega

/-- What a call sleeps. -/
theorem sum_sleeps (phpTvtoto : Option Timeval → Int) (answers : Nat → Int) {a : SelectArgs}
    (hnone : ¬ a.Watches) :
    (wrapSelect phpTvtoto answers a).sleeps.sum = max (phpTvtoto a.timeout) 0 := by
  have h := loopInv_foldl answers (phpTvtoto a.timeout) a a.maxFd.toNat
  have hpolled := mt h.polled.1 fun ⟨i, hi, hw⟩ => hnone ⟨i, by omega, hw⟩
  rw [Bool.not_eq_true] at hpolled
  rw [wrapSelect]
  dsimp only
  rw [hpolled]
  by_cases hms : 0 < phpTvtoto a.timeout
  · simp only [hms, Bool.not_false, decide_true, Bool.and_self, if_true, List.sum_cons,
      List.sum_nil]
    omega
  · simp only [hms, decide_false, Bool.and_false, Bool.false_eq_true, if_false, List.sum_cons,
      List.sum_nil]
    omega

/-- **When `__wrap_select` is right.** -/
theorem selectRight_iff {phpTvtoto : Option Timeval → Int} (h : ToTimeout phpTvtoto)
    (answers : Nat → Int) (a : SelectArgs) :
    SelectRight a (wrapSelect phpTvtoto answers a) ↔ a.Watches ∨ a.InMilliseconds := by
  have hloop := loopInv_foldl answers (phpTvtoto a.timeout) a a.maxFd.toNat
  constructor
  · intro hright
    by_cases hw : a.Watches
    · exact .inl hw
    · have hslept := (hright.sleeps hw).2
      rw [sum_sleeps _ _ hw] at hslept
      exact .inr ((slept_iff h a).1 hslept)
  · intro hcond
    refine ⟨hloop.count, hloop.read.right, hloop.write.right, ?_, ?_, fun hnone => ⟨?_, ?_⟩⟩
    · exact fun i hi => hloop.except_below i (by omega)
    · exact fun i hi => hloop.except_later i (by omega)
    · -- nothing is watched, so that nothing is left set either
      have hread : ∀ i < a.maxFd.toNat, ¬ isWatched i a.readFds :=
        fun i hi hw => hnone ⟨i, by omega, .inl hw⟩
      have hwrite : ∀ i < a.maxFd.toNat, ¬ isWatched i a.writeFds :=
        fun i hi hw => hnone ⟨i, by omega, .inr hw⟩
      have hcount := hloop.count
      rw [List.countP_eq_zero.2 fun i hi hw =>
          hread i (List.mem_range.1 hi) (hloop.read.subset i hw),
        List.countP_eq_zero.2 fun i hi hw =>
          hwrite i (List.mem_range.1 hi) (hloop.write.subset i hw)] at hcount
      exact hcount
    · rw [sum_sleeps _ _ hnone]
      exact (slept_iff h a).2 (hcond.resolve_left hnone)

/-- `php_tvtoto` -/
def tvToMs : Option Timeval → Int
  | none => -1
  | some tv => Int.bmod (tv.tvSec * 1000 + tv.tvUsec / 1000) (2 ^ 32)

theorem toTimeout_tvToMs : ToTimeout tvToMs := ⟨rfl, fun _ => rfl⟩

/-- Descriptor 3 in an except set alone, and a timeout. -/
def exceptSelect (tv : Timeval) : SelectArgs := ⟨4, none, none, some fun i => i = 3, some tv⟩

theorem not_watches_exceptSelect (tv : Timeval) : ¬ (exceptSelect tv).Watches := by
  simp [SelectArgs.Watches, exceptSelect, isWatched]

/-- A second and a half is slept. -/
theorem selectRight_iff_example :
    SelectRight (exceptSelect ⟨1, 500000⟩)
        (wrapSelect tvToMs (fun _ => 0) (exceptSelect ⟨1, 500000⟩)) ∧
      ¬ (exceptSelect ⟨1, 500000⟩).Watches :=
  ⟨(selectRight_iff toTimeout_tvToMs (fun _ => 0) _).2 (.inr fun tv htv => by
    obtain rfl := Option.some.inj htv
    decide), not_watches_exceptSelect _⟩

/-- Half a millisecond is not. -/
theorem short_timeout_not_right :
    ¬ SelectRight (exceptSelect ⟨0, 500⟩)
        (wrapSelect tvToMs (fun _ => 0) (exceptSelect ⟨0, 500⟩)) := by
  intro h
  exact absurd (h.sleeps (not_watches_exceptSelect _)).2 (by decide)

end PhpWasm.Socket
