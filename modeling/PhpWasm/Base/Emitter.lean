import Mathlib.Data.List.Nodup

/-!
# Event emitters

The listener table of a Node `EventEmitter`: the listeners of all events in the order they were
added.  A listener that was added by `once` is taken off the table before it is called, and
`removeListener` takes off the one that was added last.

Several parties use one table, each with handlers of its own.  `part p` is the table as the party
`p` knows it, and the operations on the handlers of the others leave it as it is
(`part_removeListener_of_not`), while `emit` and the party's own operations act on it alone
(`part_emit`, `part_removeListener`).
-/

set_option autoImplicit false

namespace Emitter

/-- A registered listener. -/
structure Listener (κ η : Type*) where
  event : κ
  handler : η
  /-- Added by `once`. -/
  once : Bool
  deriving DecidableEq

/-- A listener table. -/
abbrev Table (κ η : Type*) := List (Listener κ η)

variable {κ η θ : Type*}

/-- `emitter.removeListener(event, handler)`. -/
def removeListener [DecidableEq κ] [DecidableEq η] (t : Table κ η) (k : κ) (h : η) : Table κ η :=
  (t.reverse.eraseP fun l => l.event = k ∧ l.handler = h).reverse

/-- What `emitter.emit(event)` leaves. -/
def emit [DecidableEq κ] (t : Table κ η) (k : κ) : Table κ η :=
  t.filter fun l => ¬ (l.event = k ∧ l.once)

/-- The handlers that `emitter.emit(event)` calls. -/
def called [DecidableEq κ] (t : Table κ η) (k : κ) : List η :=
  (t.filter fun l => l.event = k).map Listener.handler

/-- The operations on a table. -/
inductive Op (κ η : Type*)
  | on (k : κ) (h : η)
  | once (k : κ) (h : η)
  | removeListener (k : κ) (h : η)
  | emit (k : κ)
  deriving DecidableEq

namespace Op

/-- The operation on the handlers under another name. -/
def map (f : η → θ) : Op κ η → Op κ θ
  | on k h => on k (f h)
  | once k h => once k (f h)
  | removeListener k h => removeListener k (f h)
  | emit k => emit k

/-- What an operation makes of a table. -/
def apply [DecidableEq κ] [DecidableEq η] (t : Table κ η) : Op κ η → Table κ η
  | on k h => t ++ [⟨k, h, false⟩]
  | once k h => t ++ [⟨k, h, true⟩]
  | removeListener k h => Emitter.removeListener t k h
  | emit k => Emitter.emit t k

/-- The handler an operation is about. -/
def handler? : Op κ η → Option η
  | on _ h => some h
  | once _ h => some h
  | removeListener _ h => some h
  | emit _ => none

end Op

/-! ## The table of one party -/

/-- The listeners whose handlers belong to `p`. -/
def part (p : η → Bool) (t : Table κ η) : Table κ η := t.filter fun l => p l.handler

variable {p : η → Bool} {t : Table κ η} {k : κ} {h : η}

@[simp] theorem mem_part {l : Listener κ η} : l ∈ part p t ↔ l ∈ t ∧ p l.handler := by
  rw [part, List.mem_filter]

@[simp] theorem part_append (t t' : Table κ η) : part p (t ++ t') = part p t ++ part p t' :=
  List.filter_append t t'

/-- A table that belongs to one party. -/
theorem part_of_forall (ht : ∀ l ∈ t, p l.handler) : part p t = t := List.filter_eq_self.2 ht

theorem part_of_forall_not (ht : ∀ l ∈ t, p l.handler = false) : part p t = [] := by
  rw [part, List.filter_eq_nil_iff]
  intro l hl
  rw [ht l hl]
  exact Bool.false_ne_true

variable [DecidableEq κ] [DecidableEq η]

theorem part_removeListener (hp : p h) :
    part p (removeListener t k h) = removeListener (part p t) k h := by
  rw [part, removeListener, removeListener, part, ← List.filter_reverse, List.filter_reverse,
    List.eraseP_filter]
  congr 3
  funext l
  rw [Bool.eq_iff_iff]
  simp only [Bool.and_eq_true, decide_eq_true_eq]
  exact ⟨fun hl => ⟨hl, by rw [hl.2, hp]⟩, And.left⟩

/-- Erasing a listener of another party. -/
theorem part_eraseP_of_not (hp : p h = false) (t : Table κ η) :
    part p (t.eraseP fun l => l.event = k ∧ l.handler = h) = part p t := by
  induction t with
  | nil => rfl
  | cons x t ih =>
    by_cases hx : x.event = k ∧ x.handler = h
    · rw [List.eraseP_cons_of_pos (by simp [hx]), part, part,
        List.filter_cons_of_neg (by simp [hx.2, hp])]
    · rw [List.eraseP_cons_of_neg (by simp [hx]), part, part, List.filter_cons, List.filter_cons]
      rw [part, part] at ih
      rw [ih]

theorem part_removeListener_of_not (hp : p h = false) :
    part p (removeListener t k h) = part p t := by
  have herase := part_eraseP_of_not (k := k) hp t.reverse
  rw [part, part] at herase
  rw [part, removeListener, List.filter_reverse, herase, List.filter_reverse, List.reverse_reverse,
    part]

omit [DecidableEq η] in
theorem part_emit : part p (emit t k) = emit (part p t) k := List.filter_comm ..

/-- The operations on the handlers of one party are operations on its own table. -/
theorem part_apply (o : Op κ η) (ho : ∀ h ∈ o.handler?, p h) :
    part p (o.apply t) = o.apply (part p t) := by
  cases o with
  | on k h =>
    rw [Op.apply, Op.apply, part_append, part_of_forall (t := [_]) (by simpa using ho h rfl)]
  | once k h =>
    rw [Op.apply, Op.apply, part_append, part_of_forall (t := [_]) (by simpa using ho h rfl)]
  | removeListener k h => exact part_removeListener (ho h rfl)
  | emit k => exact part_emit

/-- The others' operations only ever take listeners of a party off: those added by `once`, when
their event is emitted. -/
theorem part_apply_sublist (o : Op κ η) (ho : ∀ h ∈ o.handler?, p h = false) :
    (part p (o.apply t)).Sublist (part p t) := by
  cases o with
  | on k h =>
    rw [Op.apply, part_append, part_of_forall_not (t := [_]) (by simpa using ho h rfl),
      List.append_nil]
  | once k h =>
    rw [Op.apply, part_append, part_of_forall_not (t := [_]) (by simpa using ho h rfl),
      List.append_nil]
  | removeListener k h => rw [Op.apply, part_removeListener_of_not (ho h rfl)]
  | emit k =>
    rw [Op.apply, part_emit]
    exact List.filter_sublist

theorem removeListener_sublist : (removeListener t k h).Sublist t := by
  have := (List.eraseP_sublist (l := t.reverse)
    (p := fun l => decide (l.event = k ∧ l.handler = h))).reverse
  rwa [List.reverse_reverse] at this

/-- Erasing the only listener with a handler. -/
theorem eraseP_gone (hnodup : (t.map Listener.handler).Nodup)
    (hk : ∀ l ∈ t, l.handler = h → l.event = k) :
    ∀ l ∈ t.eraseP fun l => l.event = k ∧ l.handler = h, l.handler ≠ h := by
  induction t with
  | nil => intro l hl; cases hl
  | cons x t ih =>
    intro l hl heq
    rw [List.map_cons, List.nodup_cons] at hnodup
    by_cases hx : x.handler = h
    · rw [List.eraseP_cons_of_pos (by simp [hx, hk x List.mem_cons_self hx])] at hl
      exact hnodup.1 (by rw [hx, ← heq]; exact List.mem_map_of_mem hl)
    · rw [List.eraseP_cons_of_neg (by simp [hx]), List.mem_cons] at hl
      rcases hl with rfl | hl
      · exact hx heq
      · exact ih hnodup.2 (fun l hl => hk l (List.mem_cons_of_mem x hl)) l hl heq

/-- **A handler that was added once, under one event, is gone** when it has been removed. -/
theorem removeListener_gone (hnodup : (t.map Listener.handler).Nodup)
    (hk : ∀ l ∈ t, l.handler = h → l.event = k) :
    ∀ l ∈ removeListener t k h, l.handler ≠ h := by
  intro l hl
  rw [removeListener, List.mem_reverse] at hl
  refine eraseP_gone ?_ (fun l hl => hk l (List.mem_reverse.1 hl)) l hl
  rwa [List.map_reverse, List.nodup_reverse]

end Emitter
