import Mathlib.Data.List.Range
import PhpWasm.Base.Run

/-!
# Arrays whose slots start uninitialised

What a program does with one array on the heap is a list of `Access`es, and `Slots` is what a
memory checker would keep about it: its size and which slots hold a value.  An access is in order
(`Slots.Ok`) when a write stays inside the array and a read or the freeing of what a slot points
to finds a slot that was written; freeing leaves the slot dangling, so that freeing it twice is
not in order.  `Slots.Safe` is a list of accesses that are all in order.

The loops that fill and clear an array are `writes from count` and `frees n`.  `along_writes`,
`along_frees` and `init_run_writes` say when they are in order and what they leave.
-/

set_option autoImplicit false

namespace Memory

open Machine

/-- What is done with an array. -/
inductive Access
  /-- It is allocated with `n` slots. -/
  | alloc (n : Nat)
  /-- All its slots are set (`memset`). -/
  | fill
  | write (i : Nat)
  | read (i : Nat)
  /-- What slot `i` points to is freed. -/
  | free (i : Nat)
  /-- The array itself is freed. -/
  | release
  deriving DecidableEq

/-- An array, as a memory checker sees it. -/
structure Slots where
  size : Nat
  init : Nat → Bool

namespace Slots

/-- The array that was not allocated. -/
def absent : Slots := ⟨0, fun _ => false⟩

/-- What an access leaves.  A write outside of the array is not recorded. -/
def step (s : Slots) : Access → Slots
  | .alloc n => ⟨n, fun _ => false⟩
  | .fill => { s with init := fun i => i < s.size }
  | .write i => { s with init := fun j => s.init j || (j == i && decide (i < s.size)) }
  | .read _ => s
  | .free i => { s with init := fun j => s.init j && j != i }
  | .release => absent

/-- The access is in order. -/
def Ok (s : Slots) : Access → Prop
  | .write i => i < s.size
  | .read i => s.init i = true
  | .free i => s.init i = true
  | .alloc _ | .fill | .release => True

instance (s : Slots) : ∀ x, Decidable (s.Ok x)
  | .write i => inferInstanceAs (Decidable (i < s.size))
  | .read i => inferInstanceAs (Decidable (s.init i = true))
  | .free i => inferInstanceAs (Decidable (s.init i = true))
  | .alloc _ | .fill | .release => inferInstanceAs (Decidable True)

/-- **All accesses are in order.** -/
def Safe (xs : List Access) : Prop := Along step Ok absent xs

instance (xs : List Access) : Decidable (Safe xs) := inferInstanceAs (Decidable (Along _ _ _ _))

/-! ## Loops -/

/-- `count` slots are written, from slot `from_` on. -/
def writes (from_ count : Nat) : List Access := (List.range' from_ count).map .write

/-- The first `n` slots are freed. -/
def frees (n : Nat) : List Access := (List.range n).map .free

/-- The first `n` slots are read. -/
def reads (n : Nat) : List Access := (List.range n).map .read

variable (s : Slots)

@[simp] theorem writes_zero (k : Nat) : writes k 0 = [] := rfl

theorem writes_succ (k n : Nat) : writes k (n + 1) = .write k :: writes (k + 1) n := rfl

theorem frees_succ (n : Nat) : frees (n + 1) = frees n ++ [.free n] := by
  rw [frees, List.range_succ, List.map_append]
  rfl

theorem reads_succ (n : Nat) : reads (n + 1) = reads n ++ [.read n] := by
  rw [reads, List.range_succ, List.map_append]
  rfl

theorem size_run_writes (k n : Nat) : (run step s (writes k n)).size = s.size := by
  induction n generalizing s k with
  | zero => rfl
  | succ n ih =>
    rw [writes_succ, run_cons, ih]
    rfl

theorem init_step_write (i j : Nat) :
    (s.step (.write i)).init j = true ↔ s.init j = true ∨ (j = i ∧ i < s.size) := by
  simp [step]

/-- Writing is in order inside the array. -/
theorem along_writes (k n : Nat) : Along step Ok s (writes k n) ↔ n = 0 ∨ k + n ≤ s.size := by
  induction n generalizing s k with
  | zero => simp
  | succ n ih =>
    rw [writes_succ, along_cons, ih]
    have hsize : (s.step (.write k)).size = s.size := rfl
    rw [hsize, Ok]
    omega

/-- What a writing loop inside the array leaves. -/
theorem init_run_writes {k n : Nat} (h : n = 0 ∨ k + n ≤ s.size) (i : Nat) :
    (run step s (writes k n)).init i = true ↔ s.init i = true ∨ (k ≤ i ∧ i < k + n) := by
  induction n generalizing s k with
  | zero =>
    simp
  | succ n ih =>
    have hsize : (s.step (.write k)).size = s.size := rfl
    rw [writes_succ, run_cons, ih (s.step (.write k)) (by rw [hsize]; omega)]
    have hlt : k < s.size := by omega
    rw [init_step_write, or_assoc]
    exact or_congr_right (by omega)

theorem init_run_frees (n i : Nat) :
    (run step s (frees n)).init i = true ↔ s.init i = true ∧ n ≤ i := by
  induction n with
  | zero => simp [frees]
  | succ n ih =>
    have hstep : ((run step s (frees n)).step (.free n)).init i = true ↔
        (run step s (frees n)).init i = true ∧ i ≠ n := by
      simp [step]
    rw [frees_succ, run_append, run_cons, run_nil, hstep, ih, and_assoc]
    exact and_congr_right fun _ => by omega

/-- **Clearing** is in order when every slot it goes over was written. -/
theorem along_frees (n : Nat) : Along step Ok s (frees n) ↔ ∀ i < n, s.init i = true := by
  induction n with
  | zero => simp [frees]
  | succ n ih =>
    have hlast : Along step Ok (run step s (frees n)) [.free n] ↔ s.init n = true := by
      rw [along_cons, Ok, init_run_frees]
      simp
    rw [frees_succ, along_append, ih, hlast, Nat.forall_lt_succ_right]

theorem run_reads (n : Nat) : run step s (reads n) = s := by
  induction n with
  | zero => rfl
  | succ n ih => rw [reads_succ, run_append, ih]; rfl

/-- Reading is in order when every slot was written. -/
theorem along_reads (n : Nat) : Along step Ok s (reads n) ↔ ∀ i < n, s.init i = true := by
  induction n with
  | zero => simp [reads]
  | succ n ih =>
    have hlast : Along step Ok s [.read n] ↔ s.init n = true := by
      rw [along_cons, Ok]
      simp
    rw [reads_succ, along_append, ih, run_reads, hlast, Nat.forall_lt_succ_right]

end Slots

end Memory
