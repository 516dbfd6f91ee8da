import Mathlib.Logic.Basic
import Mathlib.Tactic.Common

/-!
# Heaps of blocks that are live or freed

`Heap α` is a heap whose blocks hold values of `α`.  Blocks are numbered in the order they are
allocated and a number is never used again, so a pointer to a freed block stays recognisable:
reading it answers `none`.  That is the point of the model, where a real allocator would hand the
block out again and let the read succeed with somebody else's bytes.
-/

set_option autoImplicit false

namespace Memory

/-- A pointer: the number of a block. -/
abbrev Ptr := Nat

/-- A heap of numbered blocks. -/
structure Heap (α : Type*) where
  /-- The number of the next block. -/
  next : Ptr
  /-- The contents of a block, if it is live. -/
  read : Ptr → Option α
  /-- Blocks that were not allocated yet are not live. -/
  fresh : ∀ p, next ≤ p → read p = none

namespace Heap

variable {α : Type*}

/-- The heap no block was allocated in. -/
def empty : Heap α := ⟨0, fun _ => none, fun _ _ => rfl⟩

/-- `malloc`, together with the first write to the block. -/
def alloc (h : Heap α) (a : α) : Ptr × Heap α where
  fst := h.next
  snd :=
    { next := h.next + 1
      read := fun p => if p = h.next then some a else h.read p
      fresh := fun p hp => by
        rw [if_neg (Nat.ne_of_gt hp)]; exact h.fresh p (Nat.le_of_succ_le hp) }

/-- `free`. -/
def free (h : Heap α) (p : Ptr) : Heap α where
  next := h.next
  read q := if q = p then none else h.read q
  fresh q hq := by
    split
    · rfl
    · exact h.fresh q hq

/-- `free` of a pointer that may be null. -/
def freeOpt (h : Heap α) : Option Ptr → Heap α
  | none => h
  | some p => h.free p

/-- An assignment to a live block.  Writing through a dangling pointer changes nothing here. -/
def write (h : Heap α) (p : Ptr) (a : α) : Heap α where
  next := h.next
  read q := if q = p then (h.read p).map fun _ => a else h.read q
  fresh q hq := by
    split
    · rename_i hqp
      rw [← hqp, h.fresh q hq]
      rfl
    · exact h.fresh q hq

/-- A change of all blocks that are live. -/
def map (h : Heap α) (f : α → α) : Heap α where
  next := h.next
  read p := (h.read p).map f
  fresh p hp := by rw [h.fresh p hp]; rfl

@[simp] theorem read_alloc_self (h : Heap α) (a : α) : (h.alloc a).2.read (h.alloc a).1 = some a :=
  if_pos rfl

/-- Allocation leaves the old blocks alone, live or freed. -/
theorem read_alloc_of_lt {h : Heap α} {p : Ptr} (hp : p < h.next) (a : α) :
    (h.alloc a).2.read p = h.read p :=
  if_neg (Nat.ne_of_lt hp)

/-- Allocation leaves the live blocks alone. -/
theorem read_alloc_of_live {h : Heap α} {p : Ptr} {b : α} (hp : h.read p = some b) (a : α) :
    (h.alloc a).2.read p = some b := by
  have hne : p ≠ h.next := by
    rintro rfl
    rw [h.fresh _ (Nat.le_refl _)] at hp
    exact absurd hp (by simp)
  rw [← hp]
  exact if_neg hne

@[simp] theorem read_free_self (h : Heap α) (p : Ptr) : (h.free p).read p = none := if_pos rfl

theorem read_free_of_ne (h : Heap α) {p q : Ptr} (hne : q ≠ p) : (h.free p).read q = h.read q :=
  if_neg hne

theorem read_write_self {h : Heap α} {p : Ptr} {a : α} (hp : h.read p = some a) (b : α) :
    (h.write p b).read p = some b := by
  simp [write, hp]

theorem read_write_of_ne (h : Heap α) {p q : Ptr} (hne : q ≠ p) (b : α) :
    (h.write p b).read q = h.read q :=
  if_neg hne

/-- Writing what is there changes nothing. -/
theorem write_of_read {h : Heap α} {p : Ptr} {a : α} (hp : h.read p = some a) :
    h.write p a = h := by
  have hread : (h.write p a).read = h.read := by
    funext q
    by_cases hqp : q = p
    · rw [hqp, read_write_self hp, hp]
    · exact read_write_of_ne h hqp a
  cases h
  simp only [write] at hread ⊢
  congr

/-- Writing keeps the live blocks live. -/
theorem isSome_read_write (h : Heap α) (p q : Ptr) (b : α) :
    ((h.write p b).read q).isSome = (h.read q).isSome := by
  by_cases hqp : q = p
  · simp [write, hqp]
  · rw [read_write_of_ne h hqp]

/-- What is live after an allocation is the new block or was live before. -/
theorem read_alloc_cases {h : Heap α} {a b : α} {p : Ptr} (hp : (h.alloc a).2.read p = some b) :
    (p = h.next ∧ b = a) ∨ h.read p = some b := by
  by_cases hpn : p = h.next
  · subst hpn
    have := hp.symm.trans (read_alloc_self h a)
    exact Or.inl ⟨rfl, Option.some.inj this⟩
  · exact Or.inr (by rw [← hp]; exact (if_neg hpn).symm)

/-- Freeing never revives a block. -/
theorem read_free_of_none {h : Heap α} {q : Ptr} (hq : h.read q = none) (p : Ptr) :
    (h.free p).read q = none := by
  by_cases hqp : q = p
  · rw [hqp, read_free_self]
  · rw [read_free_of_ne h hqp, hq]

end Heap

end Memory
