import Mathlib.Data.List.Basic
import Mathlib.Algebra.Ring.Nat

/-!
# `js_fd_read`

A read of a pipe with nothing in it answers `EWOULDBLOCK` in Emscripten.  `js_fd_read` makes
blocking reads of that: it reads once without waiting, and if nothing is there yet it goes on in a
loop that sleeps between its attempts and gives up in the end.

* A `Moment` is what an attempt finds, and a call is run against a sequence of them: what the
  stream answers, its flags, the reference count of its pipe and whether it is closed may change
  from one attempt to the next.
* `jsFdRead` is the function and `fdRead` the call of it: where Asyncify has unwound the stack, the
  function is entered a second time to take the result.
* `fdRead_shape`: the attempts of a call are failures with `EWOULDBLOCK` and one last attempt,
  whose outcome is the call's.  `fdReadRight` is what follows from it.
-/

set_option autoImplicit false

namespace PhpWasm.FdRead

/-! ## Attempts -/

/-- The `errno` of an `ErrnoError`. -/
abbrev Errno := {n : Nat // n ≠ 0}

/-- `ERRNO_CODES.EWOULDBLOCK`, which is `ERRNO_CODES.EAGAIN` too. -/
def ewouldblock : Errno := ⟨6, by decide⟩

/-- `ERRNO_CODES.EBADF`. -/
def ebadf : Errno := ⟨8, by decide⟩

/-- How an attempt ends: with a number of bytes, which lie in a memory of 32-bit addresses, or with
an error. -/
abbrev Outcome := Except Errno UInt32

/-- A stream at the time of an attempt. -/
structure Stream where
  flags : BitVec 32
  /-- `FS.isClosed(stream)`, after the attempt. -/
  closed : Bool
  /-- `stream.node.pipe.refcnt`, if the stream is a pipe. -/
  refcnt : Option Nat
  /-- What `doReadv` answers. -/
  doReadv : Outcome

/-- What an attempt finds: the stream of the descriptor, if there is one. -/
structure Moment where
  stream : Option Stream

/-- `PHPWASM.O_NONBLOCK`. -/
def oNonblock : BitVec 32 := 2048#32

namespace Moment

variable (m : Moment)

/-- `SYSCALLS.getStreamFromFD(fd)` and `doReadv`. -/
def attempt : Outcome :=
  match m.stream with
  | none => .error ebadf
  | some s => s.doReadv

/-- `stream.flags & PHPWASM.O_NONBLOCK`. -/
def nonBlocking : Bool :=
  match m.stream with
  | none => false
  | some s => s.flags &&& oNonblock ≠ 0

/-- The reasons, other than too many retries, for the loop to give up. -/
def givesUp (returnCode : Errno) : Bool :=
  match m.stream with
  -- the variable may still hold an earlier stream then, but `EBADF` ends the loop with any
  | none => true
  | some s => s.closed || returnCode ≠ ewouldblock || s.refcnt.any (· < 2)

end Moment

/-! ## The function -/

/-- `timeout / interval`. -/
def maxRetries : Nat := 5000 / 50

/-- A call, or what is left of one. -/
structure Call where
  /-- The outcomes of its attempts to read. -/
  attempts : List Outcome
  /-- How often it sleeps. -/
  waits : Nat
  /-- What is at `pnum` in the end. -/
  pnum : UInt32
  /-- What it returns, or calls `wakeUp` with. -/
  result : Nat

/-- The call that begins with an attempt and goes on as another one. -/
def Call.after (o : Outcome) (sleeps : Bool) (c : Call) : Call :=
  { c with attempts := o :: c.attempts, waits := if sleeps then c.waits + 1 else c.waits }

@[simp] theorem attempts_after (o : Outcome) (sleeps : Bool) (c : Call) :
    (c.after o sleeps).attempts = o :: c.attempts := rfl

@[simp] theorem waits_after_true (o : Outcome) (c : Call) :
    (c.after o true).waits = c.waits + 1 := rfl

/-- The polling loop from the `i`-th attempt on. -/
def pollLoop (moments : Nat → Moment) (i retries : Nat) : Call :=
  match (moments i).attempt with
  | .ok num => ⟨[.ok num], 0, num, 0⟩
  | .error returnCode =>
    if retries + 1 > maxRetries ∨ (moments i).givesUp returnCode then
      -- `num` is `undefined`, which is stored as 0
      ⟨[.error returnCode], 0, 0, returnCode⟩
    else (pollLoop moments (i + 1) (retries + 1)).after (.error returnCode) true
termination_by maxRetries - retries
decreasing_by omega

/-- `Asyncify.state`, where there is such a thing, when the function is entered. -/
inductive AsyncifyState
  /-- Also without Asyncify. -/
  | normal
  /-- The stack is rewound, to return what `wakeUp` was called with. -/
  | rewinding (value : Nat)

/-- `js_fd_read`, with what is at `pnum`. -/
def jsFdRead (state : AsyncifyState) (pollAsync : Bool) (moments : Nat → Moment) (pnum : UInt32) :
    Call :=
  match state with
  | .rewinding value => if !pollAsync then ⟨[], 0, pnum, ewouldblock⟩ else ⟨[], 0, pnum, value⟩
  | .normal =>
    match (moments 0).attempt with
    | .ok num => ⟨[.ok num], 0, num, 0⟩
    | .error e =>
      if e ≠ ewouldblock then ⟨[.error e], 0, pnum, e⟩
      else if (moments 0).nonBlocking then ⟨[.error e], 0, pnum, e⟩
      else if !pollAsync then ⟨[.error e], 0, pnum, ewouldblock⟩
      -- the callback begins at once
      else (pollLoop moments 1 0).after (.error e) false

/-- How suspending calls are built. -/
inductive Build
  | jspi
  | asyncify

/-- A call of `js_fd_read` as its caller has it.  With Asyncify a call that sleeps unwinds the
stack, and is made again when `wakeUp` is called. -/
def fdRead (build : Build) (pollAsync : Bool) (moments : Nat → Moment) (pnum : UInt32) : Call :=
  let first := jsFdRead .normal pollAsync moments pnum
  match build with
  | .jspi => first
  | .asyncify =>
    if first.waits = 0 then first
    else
      let again := jsFdRead (.rewinding first.result) pollAsync moments first.pnum
      ⟨first.attempts ++ again.attempts, first.waits + again.waits, again.pnum, again.result⟩

/-- `wasm_read`: what it returns, and `errno` if that is set. -/
def wasmRead (build : Build) (moments : Nat → Moment) (num : UInt32) : Int × Option Nat :=
  let call := fdRead build true moments num
  if call.result ≠ 0 then (-1, some call.result) else (call.pnum.toBitVec.toInt, none)

/-! ## The shape of a call -/

/-- What the last attempt has to do with what is returned. -/
def Call.EndsWith (c : Call) : Outcome → Prop
  | .ok num => c.pnum = num ∧ c.result = 0
  | .error e => c.result = e

/-- The attempts of a call: failures with `EWOULDBLOCK`, and one last attempt, whose outcome is the
call's. -/
def Call.Shape (c : Call) (failures : Nat) : Prop :=
  ∃ last, c.attempts = List.replicate failures (.error ewouldblock) ++ [last] ∧ c.EndsWith last

/-- The outcomes of the attempts from the `i`-th on. -/
def outcomes (moments : Nat → Moment) (i n : Nat) : List Outcome :=
  (List.range' i n).map fun k => (moments k).attempt

theorem outcomes_succ (moments : Nat → Moment) (i n : Nat) :
    outcomes moments i (n + 1) = (moments i).attempt :: outcomes moments (i + 1) n := by
  rw [outcomes, List.range'_succ, List.map_cons, outcomes]

/-- Only `EWOULDBLOCK` keeps the loop going. -/
theorem eq_of_not_givesUp {m : Moment} {e : Errno} (h : ¬ m.givesUp e = true) :
    e = ewouldblock := by
  rw [Moment.givesUp] at h
  split at h
  · exact absurd rfl h
  · by_contra hne
    simp [hne] at h

theorem Call.Shape.after {c : Call} {w : Nat} (h : c.Shape w) (sleeps : Bool) :
    (c.after (.error ewouldblock) sleeps).Shape (w + 1) := by
  obtain ⟨last, hattempts, hends⟩ := h
  refine ⟨last, ?_, hends⟩
  rw [attempts_after, hattempts, List.replicate_succ, List.cons_append]

/-- **The loop**, which sleeps after each of its attempts but the last. -/
theorem pollLoop_shape (moments : Nat → Moment) {i retries : Nat} (h : retries ≤ maxRetries) :
    (pollLoop moments i retries).Shape (pollLoop moments i retries).waits ∧
      (pollLoop moments i retries).attempts =
        outcomes moments i (pollLoop moments i retries).attempts.length ∧
      retries + (pollLoop moments i retries).waits ≤ maxRetries := by
  induction i, retries using pollLoop.induct moments with
  | case1 i retries num hattempt =>
    rw [pollLoop, hattempt]
    refine ⟨⟨.ok num, rfl, rfl, rfl⟩, ?_, h⟩
    exact (congrArg (· :: []) hattempt.symm)
  | case2 i retries e hattempt hstop =>
    rw [pollLoop, hattempt]
    dsimp only
    rw [if_pos hstop]
    exact ⟨⟨.error e, rfl, rfl⟩, congrArg (· :: []) hattempt.symm, h⟩
  | case3 i retries e hattempt hgo ih =>
    rw [not_or] at hgo
    obtain ⟨hshape, heq, hle⟩ := ih (by omega)
    have he : e = ewouldblock := eq_of_not_givesUp hgo.2
    rw [pollLoop, hattempt]
    dsimp only
    rw [if_neg (not_or.2 hgo), he]
    refine ⟨hshape.after true, ?_, ?_⟩
    · rw [attempts_after, List.length_cons, outcomes_succ, hattempt, he, ← heq]
    · rw [waits_after_true]
      omega

/-- **The function**, entered with nothing to return yet. -/
theorem jsFdRead_shape (pollAsync : Bool) (moments : Nat → Moment) (pnum : UInt32) :
    ∃ failures ≤ maxRetries + 1,
      (jsFdRead .normal pollAsync moments pnum).Shape failures ∧
      (jsFdRead .normal pollAsync moments pnum).attempts =
        outcomes moments 0 (jsFdRead .normal pollAsync moments pnum).attempts.length ∧
      ((moments 0).nonBlocking ∨ pollAsync = false →
        (jsFdRead .normal pollAsync moments pnum).waits = 0 ∧ failures = 0) := by
  have hone : ∀ o, (moments 0).attempt = o → [o] = outcomes moments 0 1 :=
    fun o h => congrArg (· :: []) h.symm
  rw [jsFdRead]
  cases hattempt : (moments 0).attempt with
  | ok num => exact ⟨0, by omega, ⟨.ok num, rfl, rfl, rfl⟩, hone _ hattempt, fun _ => ⟨rfl, rfl⟩⟩
  | error e =>
    dsimp only
    split
    · exact ⟨0, by omega, ⟨.error e, rfl, rfl⟩, hone _ hattempt, fun _ => ⟨rfl, rfl⟩⟩
    rename_i he
    rw [not_not] at he
    split
    · exact ⟨0, by omega, ⟨.error e, rfl, rfl⟩, hone _ hattempt, fun _ => ⟨rfl, rfl⟩⟩
    split
    · exact ⟨0, by omega, ⟨.error e, rfl, by rw [he]; rfl⟩, hone _ hattempt, fun _ => ⟨rfl, rfl⟩⟩
    · rename_i hblocking hpoll
      obtain ⟨hshape, heq, hle⟩ := pollLoop_shape moments (i := 1) (Nat.zero_le maxRetries)
      refine ⟨(pollLoop moments 1 0).waits + 1, by omega, ?_, ?_, ?_⟩
      · rw [he]
        exact hshape.after false
      · rw [attempts_after, List.length_cons, outcomes_succ, hattempt, ← heq]
      · rintro (h | h)
        · exact absurd h hblocking
        · exact absurd (by rw [h]; rfl) hpoll

/-- **Entering it again** to take the result changes nothing. -/
theorem fdRead_eq (build : Build) (pollAsync : Bool) (moments : Nat → Moment) (pnum : UInt32) :
    fdRead build pollAsync moments pnum = jsFdRead .normal pollAsync moments pnum := by
  obtain ⟨failures, -, -, -, hwaits⟩ := jsFdRead_shape pollAsync moments pnum
  cases build with
  | jspi => rfl
  | asyncify =>
    rw [fdRead]
    dsimp only
    split
    · rfl
    · rename_i hslept
      have hpoll : pollAsync = true := by
        by_contra hne
        exact hslept (hwaits (.inr (by simpa using hne))).1
      simp [jsFdRead, hpoll]

/-! ## What is asked of a call -/

/-- The attempt has read something, or found the end. -/
def isRead : Outcome → Bool
  | .ok _ => true
  | .error _ => false

/-- The `errno` of a failed attempt. -/
def errno : Outcome → Option Errno
  | .ok _ => none
  | .error e => some e

/-- **What is asked of a call**: nothing that was read is dropped or delivered twice. -/
structure FdReadRight (pollAsync : Bool) (moments : Nat → Moment) (c : Call) : Prop where
  /-- It makes the attempts one after another. -/
  inOrder : c.attempts = outcomes moments 0 c.attempts.length
  bounded : c.attempts.length ≤ 1 + 101
  once : c.attempts.countP isRead ≤ 1
  success : ∀ before num after, c.attempts = before ++ .ok num :: after →
    after = [] ∧ c.pnum = num ∧ c.result = 0
  failure : (∀ num, .ok num ∉ c.attempts) → c.result ≠ 0 ∧
    c.result = ((c.attempts.filterMap errno).find? (· ≠ ewouldblock)).getD ewouldblock
  immediate : (moments 0).nonBlocking ∨ pollAsync = false →
    c.waits = 0 ∧ c.attempts.length = 1

section

variable {c : Call} {failures : Nat}

theorem Call.Shape.length (h : c.Shape failures) : c.attempts.length = failures + 1 := by
  obtain ⟨last, hattempts, -⟩ := h
  rw [hattempts, List.length_append, List.length_replicate, List.length_singleton]

theorem Call.Shape.once (h : c.Shape failures) : c.attempts.countP isRead ≤ 1 := by
  obtain ⟨last, hattempts, -⟩ := h
  rw [hattempts, List.countP_append, List.countP_replicate, if_neg (by decide), Nat.zero_add]
  exact List.countP_le_length

/-- A successful attempt is the last one. -/
theorem Call.Shape.success (h : c.Shape failures) {before after : List Outcome} {num : UInt32}
    (heq : c.attempts = before ++ .ok num :: after) :
    after = [] ∧ c.pnum = num ∧ c.result = 0 := by
  obtain ⟨last, hattempts, hends⟩ := h
  rw [hattempts] at heq
  rcases List.eq_nil_or_concat after with rfl | ⟨after', x, rfl⟩
  · obtain ⟨-, hlast⟩ := List.append_inj' heq rfl
    rw [List.singleton_inj.1 hlast] at hends
    exact ⟨rfl, hends⟩
  · -- otherwise it is among the failures
    rw [List.concat_eq_append, ← List.cons_append, ← List.append_assoc] at heq
    obtain ⟨hfailures, -⟩ := List.append_inj' heq rfl
    have hmem : .ok num ∈ List.replicate failures (.error ewouldblock : Outcome) := by
      rw [hfailures]
      exact List.mem_append_right _ List.mem_cons_self
    cases List.eq_of_mem_replicate hmem

theorem Call.Shape.failure (h : c.Shape failures) (hnone : ∀ num, .ok num ∉ c.attempts) :
    c.result ≠ 0 ∧
      c.result = ((c.attempts.filterMap errno).find? (· ≠ ewouldblock)).getD ewouldblock := by
  obtain ⟨last, hattempts, hends⟩ := h
  rw [hattempts] at hnone ⊢
  cases last with
  | ok num => exact absurd (List.mem_append_right _ (List.mem_singleton_self _)) (hnone num)
  | error e =>
    have hresult : c.result = e := hends
    rw [hresult]
    refine ⟨e.2, ?_⟩
    have hfailures : (List.replicate failures (.error ewouldblock : Outcome)).filterMap errno =
        List.replicate failures ewouldblock := List.filterMap_replicate_of_some rfl
    rw [List.filterMap_append, hfailures, List.find?_append, List.find?_replicate_of_neg (by simp)]
    by_cases he : e = ewouldblock
    · rw [he]
      rfl
    · simp [errno, he]

end

/-- **A read is made right**: against every sequence of what its attempts find, with Asyncify and
without. -/
theorem fdReadRight (build : Build) (pollAsync : Bool) (moments : Nat → Moment) (pnum : UInt32) :
    FdReadRight pollAsync moments (fdRead build pollAsync moments pnum) := by
  rw [fdRead_eq]
  obtain ⟨failures, hle, hshape, hinOrder, himmediate⟩ := jsFdRead_shape pollAsync moments pnum
  have hmax : maxRetries = 100 := rfl
  refine ⟨hinOrder, ?_, hshape.once, fun _ _ _ => hshape.success, hshape.failure, fun h => ?_⟩
  · rw [hshape.length]
    omega
  · obtain ⟨hwaits, hfailures⟩ := himmediate h
    exact ⟨hwaits, by rw [hshape.length, hfailures]⟩

/-- **`wasm_read`** returns what the successful attempt has read, or -1 and why there is none. -/
theorem wasmRead_eq (build : Build) (moments : Nat → Moment) (num : UInt32) :
    (∃ n, .ok n ∈ (fdRead build true moments num).attempts ∧
      wasmRead build moments num = (n.toBitVec.toInt, none)) ∨
    ((∀ n, .ok n ∉ (fdRead build true moments num).attempts) ∧
      wasmRead build moments num = (-1, some (fdRead build true moments num).result)) := by
  have h := fdReadRight build true moments num
  rw [wasmRead]
  by_cases hread : ∃ n, .ok n ∈ (fdRead build true moments num).attempts
  · obtain ⟨n, hn⟩ := hread
    obtain ⟨before, after, heq⟩ := List.append_of_mem hn
    obtain ⟨-, hpnum, hresult⟩ := h.success before n after heq
    refine Or.inl ⟨n, hn, ?_⟩
    rw [hresult, hpnum, if_neg (by decide)]
  · rw [not_exists] at hread
    refine Or.inr ⟨hread, ?_⟩
    rw [if_pos (h.failure hread).1]

end PhpWasm.FdRead
