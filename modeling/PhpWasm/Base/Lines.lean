import Mathlib.Data.List.DropRight

/-!
# Text as lines

A text is a list, and a line of it ends with the first `nl` at or after its beginning; what comes
after the last `nl` is a line too, unless it is empty.  Lines keep their `nl`.

`Lines` is what is known of a text after some of it was seen: the lines that have ended, and the
beginning of the one that has not.  `Lines.feed_of_notMem` and `Lines.feed_ended` say what a piece
of text adds to it that holds no `nl`, or ends with the only one it holds.
-/

set_option autoImplicit false

namespace Text

variable {α : Type*}

/-- What some text consists of. -/
@[ext] structure Lines (α : Type*) where
  /-- The lines that have ended. -/
  ended : List (List α)
  /-- The line that has not. -/
  rest : List α
  deriving DecidableEq

namespace Lines

/-- The lines of a whole text. -/
def all (s : Lines α) : List (List α) :=
  if s.rest = [] then s.ended else s.ended ++ [s.rest]

theorem flatten_all (s : Lines α) : s.all.flatten = s.ended.flatten ++ s.rest := by
  rw [all]
  split
  · rename_i h
    rw [h, List.append_nil]
  · rw [List.flatten_append, List.flatten_singleton]

variable [DecidableEq α] {nl : α}

/-- One more element. -/
def push (nl : α) (s : Lines α) (x : α) : Lines α :=
  if x = nl then ⟨s.ended ++ [s.rest ++ [x]], []⟩ else ⟨s.ended, s.rest ++ [x]⟩

/-- Some more text. -/
def feed (nl : α) (s : Lines α) (xs : List α) : Lines α := xs.foldl (push nl) s

@[simp] theorem feed_nil (s : Lines α) : s.feed nl [] = s := rfl

theorem feed_append (s : Lines α) (xs ys : List α) :
    s.feed nl (xs ++ ys) = (s.feed nl xs).feed nl ys := List.foldl_append

/-- Text without `nl` goes on with the line that has not ended. -/
theorem feed_of_notMem (s : Lines α) {xs : List α} (h : nl ∉ xs) :
    s.feed nl xs = ⟨s.ended, s.rest ++ xs⟩ := by
  induction xs generalizing s with
  | nil => simp
  | cons x xs ih =>
    rw [List.mem_cons, not_or] at h
    have hpush : s.push nl x = ⟨s.ended, s.rest ++ [x]⟩ := if_neg (Ne.symm h.1)
    rw [feed, List.foldl_cons, hpush, ← feed, ih _ h.2, List.append_assoc]
    rfl

/-- Text whose only `nl` is at its end ends that line. -/
theorem feed_ended (s : Lines α) {xs : List α} (h : nl ∉ xs) :
    s.feed nl (xs ++ [nl]) = ⟨s.ended ++ [s.rest ++ (xs ++ [nl])], []⟩ := by
  rw [feed_append, feed_of_notMem s h]
  show push nl _ nl = _
  rw [push, if_pos rfl, List.append_assoc]

/-- Nothing of a text is lost, and nothing is added. -/
theorem flatten_feed (s : Lines α) (xs : List α) :
    (s.feed nl xs).ended.flatten ++ (s.feed nl xs).rest = s.ended.flatten ++ s.rest ++ xs := by
  induction xs generalizing s with
  | nil => simp
  | cons x xs ih =>
    rw [feed, List.foldl_cons, ← feed, ih, push]
    split <;> simp

end Lines

variable [DecidableEq α] {nl : α}

/-- The text, as lines. -/
def lines (nl : α) (xs : List α) : Lines α := Lines.feed nl ⟨[], []⟩ xs

/-- The lines of a text. -/
def linesOf (nl : α) (xs : List α) : List (List α) := (lines nl xs).all

theorem lines_append (xs ys : List α) : lines nl (xs ++ ys) = (lines nl xs).feed nl ys :=
  Lines.feed_append _ _ _

/-- The lines of a text, one after the other, are the text. -/
theorem flatten_linesOf (xs : List α) : (linesOf nl xs).flatten = xs := by
  rw [linesOf, Lines.flatten_all, lines, Lines.flatten_feed]
  rfl

example : linesOf 0 [1, 0, 0, 2] = [[1, 0], [0], [2]] := by decide

end Text
