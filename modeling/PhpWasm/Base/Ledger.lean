import PhpWasm.Base.Heap
import Mathlib.Data.List.Basic

/-!
# Ledgers of allocations and releases

A `Heap` forgets that a block was freed twice.  A `Ledger α β` does not: it keeps every block that
was ever allocated, with an `α` that says what the block is, and every release that was ever made,
with a `β` that says how it was made.

* `Ledger.read` follows a pointer, and answers `none` when its block was released.
* `Ledger.Sound fits` is what an owner is asked for: no block is released twice, and each release
  is one that `fits` the block it releases.

Of the two operations, allocating keeps a ledger sound (`Sound.alloc`), and a release does exactly
when its block is live and it fits the block (`sound_release_iff`).
-/

set_option autoImplicit false

namespace Memory

/-- All allocations and all releases. -/
structure Ledger (α β : Type*) where
  /-- The blocks, in the order in which they were allocated: block `p` is at position `p`. -/
  blocks : List α
  /-- The releases, newest first. -/
  releases : List (Ptr × β)

namespace Ledger

variable {α β : Type*}

/-- Nothing was allocated yet. -/
def empty : Ledger α β := ⟨[], []⟩

/-- A new block. -/
def alloc (a : α) (l : Ledger α β) : Ptr × Ledger α β :=
  (l.blocks.length, { l with blocks := l.blocks ++ [a] })

/-- A release of a block, whatever was done to the block before. -/
def release (p : Ptr) (b : β) (l : Ledger α β) : Ledger α β :=
  { l with releases := (p, b) :: l.releases }

/-- A release through a pointer that may be null. -/
def releaseOpt (p : Option Ptr) (b : β) (l : Ledger α β) : Ledger α β :=
  p.elim l fun p => l.release p b

/-- The pointers that were released. -/
def released (l : Ledger α β) : List Ptr := l.releases.map Prod.fst

/-- Follow a pointer. -/
def read (l : Ledger α β) (p : Ptr) : Option α := if p ∈ l.released then none else l.blocks[p]?

/-- No block is released twice, and each release fits its block. -/
structure Sound (fits : α → β → Prop) (l : Ledger α β) : Prop where
  once : l.released.Nodup
  fits : ∀ x ∈ l.releases, ∃ a, l.blocks[x.1]? = some a ∧ fits a x.2

/-! ## Reading -/

variable {fits : α → β → Prop} {l : Ledger α β} {p q : Ptr} {a c : α}

theorem read_eq_some_iff : l.read p = some a ↔ p ∉ l.released ∧ l.blocks[p]? = some a := by
  rw [read]
  split
  · rename_i h
    exact iff_of_false nofun fun hp => hp.1 h
  · rename_i h
    exact ⟨fun hp => ⟨h, hp⟩, fun hp => hp.2⟩

@[simp] theorem read_release_self (l : Ledger α β) (p : Ptr) (b : β) :
    (l.release p b).read p = none :=
  if_pos List.mem_cons_self

theorem read_release_of_ne (h : q ≠ p) (b : β) : (l.release p b).read q = l.read q := by
  have hmem : q ∈ (l.release p b).released ↔ q ∈ l.released :=
    List.mem_cons.trans (or_iff_right h)
  simp only [read, hmem]
  rfl

/-- What was live is still live after an allocation. -/
theorem read_alloc_of_live (h : l.read p = some a) (c : α) : (l.alloc c).2.read p = some a := by
  obtain ⟨hfree, hblock⟩ := read_eq_some_iff.1 h
  refine read_eq_some_iff.2 ⟨hfree, ?_⟩
  obtain ⟨hlt, -⟩ := List.getElem?_eq_some_iff.1 hblock
  exact (List.getElem?_append_left hlt).trans hblock

/-- What was released stays released. -/
theorem read_alloc_of_released (h : p ∈ l.released) (c : α) : (l.alloc c).2.read p = none :=
  if_pos h

/-! ## Keeping the ledger sound -/

theorem sound_empty (fits : α → β → Prop) : (empty : Ledger α β).Sound fits :=
  ⟨List.nodup_nil, nofun⟩

/-- In a sound ledger, only what was allocated is released. -/
theorem Sound.lt_of_released (h : l.Sound fits) (hp : p ∈ l.released) : p < l.blocks.length := by
  obtain ⟨x, hx, rfl⟩ := List.mem_map.1 hp
  obtain ⟨a, hblock, -⟩ := h.fits x hx
  exact (List.getElem?_eq_some_iff.1 hblock).1

theorem Sound.read_alloc_self (h : l.Sound fits) (a : α) :
    (l.alloc a).2.read (l.alloc a).1 = some a :=
  read_eq_some_iff.2 ⟨fun hp => Nat.lt_irrefl _ (h.lt_of_released hp), by simp [alloc]⟩

/-- **Allocating** keeps a ledger sound. -/
theorem Sound.alloc (h : l.Sound fits) (a : α) : (l.alloc a).2.Sound fits := by
  refine ⟨h.once, fun x hx => ?_⟩
  obtain ⟨c, hblock, hfits⟩ := h.fits x hx
  obtain ⟨hlt, -⟩ := List.getElem?_eq_some_iff.1 hblock
  exact ⟨c, (List.getElem?_append_left hlt).trans hblock, hfits⟩

/-- **Releasing** keeps it sound exactly when the block is live and the release fits it. -/
theorem sound_release_iff {b : β} :
    (l.release p b).Sound fits ↔ l.Sound fits ∧ ∃ a, l.read p = some a ∧ fits a b := by
  constructor
  · intro h
    obtain ⟨hfree, honce⟩ := List.nodup_cons.1 h.once
    obtain ⟨a, hblock, hfits⟩ := h.fits (p, b) List.mem_cons_self
    refine ⟨⟨honce, fun x hx => h.fits x (List.mem_cons_of_mem _ hx)⟩, a, ?_, hfits⟩
    exact read_eq_some_iff.2 ⟨hfree, hblock⟩
  · rintro ⟨h, a, hread, hfits⟩
    obtain ⟨hfree, hblock⟩ := read_eq_some_iff.1 hread
    refine ⟨List.nodup_cons.2 ⟨hfree, h.once⟩, fun x hx => ?_⟩
    rcases List.mem_cons.1 hx with rfl | hx
    · exact ⟨a, hblock, hfits⟩
    · exact h.fits x hx

end Ledger

end Memory
