import Mathlib.Data.List.Infix

/-!
# Parts of a file

A file is a list, and `At file pos part` says that a part of it is at a position.

* `at_append`: parts that are side by side.
* `At.trans`: a part of a part.
* `at_flatMap`: the part that is written for one item of a list.
-/

set_option autoImplicit false

namespace Extent

variable {α : Type*} {file part after : List α} {pos : ℕ}

/-- The part is in the file, at `pos`. -/
def At (file : List α) (pos : ℕ) (part : List α) : Prop := part <+: file.drop pos

theorem at_append {a b : List α} :
    At file pos (a ++ b) ↔ At file pos a ∧ At file (pos + a.length) b := by
  constructor
  · rintro ⟨rest, h⟩
    refine ⟨⟨b ++ rest, by rw [← h, List.append_assoc]⟩, rest, ?_⟩
    rw [← List.drop_drop, ← h, List.append_assoc, List.drop_left]
  · rintro ⟨⟨rest, h⟩, ⟨rest', h'⟩⟩
    rw [← List.drop_drop, ← h, List.drop_left] at h'
    exact ⟨rest', by rw [← h, ← h', List.append_assoc]⟩

theorem at_append_right (before part : List α) : At (before ++ part) before.length part := by
  rw [At, List.drop_left]

theorem At.first {a : List α} (h : At file pos part) (h' : a <+: part) :
    At file pos a := List.IsPrefix.trans h' h

/-- What is in a part of the file is in the file. -/
theorem At.trans {inner : List α} {q : ℕ} (h : At file pos part) (h' : At part q inner) :
    At file (pos + q) inner := by
  obtain ⟨rest, h⟩ := h
  rw [At, ← List.drop_drop, ← h]
  rcases Nat.le_total q part.length with hle | hle
  · rw [List.drop_append_of_le_length hle]
    exact List.IsPrefix.trans h' (List.prefix_append _ _)
  · rw [At, List.drop_eq_nil_of_le hle, List.prefix_nil] at h'
    rw [h']
    exact List.nil_prefix

theorem At.left (h : At file pos part) (after : List α) : At (file ++ after) pos part := by
  have hfile : At (file ++ after) 0 file := List.prefix_append _ _
  rw [← Nat.zero_add pos]
  exact hfile.trans h

/-- What is read from where a part is. -/
theorem At.take_eq (h : At file pos part) : (file.drop pos).take part.length = part :=
  (List.prefix_iff_eq_take.1 h).symm

/-- What is written for an item is behind what is written for the items before it. -/
theorem at_flatMap {β : Type*} (f : β → List α) (before : List β) (b : β) (after : List β) :
    At ((before ++ b :: after).flatMap f) (before.flatMap f).length (f b) := by
  rw [List.flatMap_append, List.flatMap_cons]
  exact (at_append_right _ _).first (List.prefix_append _ _)

end Extent
