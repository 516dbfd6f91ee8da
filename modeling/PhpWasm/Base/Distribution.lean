import Mathlib.Data.List.Basic
import Mathlib.Logic.Function.Basic

/-!
# Distributing items over buckets

Items are put into one array, those of a bucket side by side: every bucket has a place where it
ends, known from the sizes of the buckets, and is filled from there down.  Where the items come last
to first, each bucket has them in order in the end.

* `State.put` puts one item into its bucket, and `distribute` all of them.
* `slice_distribute`: what is in a bucket.
-/

set_option autoImplicit false

namespace Distribution

variable {α : Type*}

/-- The array, and where the filled part of each bucket starts. -/
structure State (α : Type*) where
  start : ℕ → ℕ
  split : ℕ → α

/-- `split[--start[bucket]] = a` -/
def State.put (bucket : α → ℕ) (s : State α) (a : α) : State α where
  start := Function.update s.start (bucket a) (s.start (bucket a) - 1)
  split := Function.update s.split (s.start (bucket a) - 1) a

/-- All of the items, the last one first. -/
def distribute (bucket : α → ℕ) (s : State α) (items : List α) : State α :=
  items.reverse.foldl (State.put bucket) s

/-- The number of items in a bucket. -/
def size (bucket : α → ℕ) (items : List α) (b : ℕ) : ℕ := items.countP fun a => bucket a = b

/-- The part of the array from where a bucket starts. -/
def State.slice (s : State α) (b n : ℕ) : List α :=
  (List.range n).map fun u => s.split (s.start b + u)

variable {bucket : α → ℕ} {s : State α}

/-- The buckets do not overlap when they are filled up to where they end, which is in `ends`. -/
structure Apart (bucket : α → ℕ) (items : List α) (ends : ℕ → ℕ) : Prop where
  fits : ∀ b, size bucket items b ≤ ends b
  apart : ∀ b b', b < b' → ends b + size bucket items b' ≤ ends b'

theorem put_start_self (s : State α) (a : α) :
    (s.put bucket a).start (bucket a) = s.start (bucket a) - 1 := Function.update_self ..

theorem put_start_of_ne (s : State α) {a : α} {b : ℕ} (h : b ≠ bucket a) :
    (s.put bucket a).start b = s.start b := Function.update_of_ne h ..

theorem put_split_self (s : State α) (a : α) :
    (s.put bucket a).split (s.start (bucket a) - 1) = a := Function.update_self ..

theorem put_split_of_ne (s : State α) {a : α} {i : ℕ} (h : i ≠ s.start (bucket a) - 1) :
    (s.put bucket a).split i = s.split i := Function.update_of_ne h ..

theorem distribute_cons (a : α) (items : List α) :
    distribute bucket s (a :: items) = (distribute bucket s items).put bucket a := by
  rw [distribute, List.reverse_cons, List.foldl_append]
  rfl

theorem size_cons_self {a : α} (items : List α) :
    size bucket (a :: items) (bucket a) = size bucket items (bucket a) + 1 :=
  List.countP_cons_of_pos (by simp)

theorem size_cons_of_ne {a : α} {b : ℕ} (h : b ≠ bucket a) (items : List α) :
    size bucket (a :: items) b = size bucket items b :=
  List.countP_cons_of_neg (by simpa using h.symm)

theorem size_le_cons (bucket : α → ℕ) (a : α) (items : List α) (b : ℕ) :
    size bucket items b ≤ size bucket (a :: items) b := by
  by_cases h : b = bucket a
  · rw [h, size_cons_self]
    exact Nat.le_succ _
  · exact Nat.le_of_eq (size_cons_of_ne h items).symm

theorem Apart.tail {a : α} {items : List α} {ends : ℕ → ℕ} (h : Apart bucket (a :: items) ends) :
    Apart bucket items ends where
  fits b := Nat.le_trans (size_le_cons bucket a items b) (h.fits b)
  apart b b' hlt := by
    have := h.apart b b' hlt
    have := size_le_cons bucket a items b'
    omega

/-- Where a bucket starts. -/
theorem start_distribute (bucket : α → ℕ) (s : State α) (items : List α) (b : ℕ) :
    (distribute bucket s items).start b = s.start b - size bucket items b := by
  induction items with
  | nil => rfl
  | cons a items ih =>
    rw [distribute_cons]
    by_cases h : b = bucket a
    · subst h
      rw [put_start_self, ih, size_cons_self]
      omega
    · rw [put_start_of_ne _ h, ih, size_cons_of_ne h]

/-- **A bucket** has its items, in order. -/
theorem slice_distribute {items : List α} (h : Apart bucket items s.start) (b : ℕ) :
    (distribute bucket s items).slice b (size bucket items b) =
      items.filter fun a => bucket a = b := by
  induction items with
  | nil => rfl
  | cons a items ih =>
    have hfits := h.fits (bucket a)
    have hstart := start_distribute bucket s items
    rw [size_cons_self] at hfits
    by_cases hb : b = bucket a
    · subst hb
      have hput : (distribute bucket s (a :: items)).start (bucket a) =
          s.start (bucket a) - size bucket items (bucket a) - 1 := by
        rw [start_distribute, size_cons_self]
        omega
      rw [size_cons_self, List.filter_cons_of_pos (by simp), ← ih h.tail, State.slice,
        List.range_succ_eq_map, List.map_cons, List.map_map, hput, Nat.add_zero, distribute_cons,
        ← hstart]
      refine congrArg₂ List.cons (put_split_self _ a) (List.map_congr_left fun u _ => ?_)
      have hpos : 0 < (distribute bucket s items).start (bucket a) := by
        rw [hstart]
        omega
      rw [Function.comp_apply, put_split_of_ne _ (by omega)]
      exact congrArg _ (by omega)
    · have hne : bucket a ≠ b := fun heq => hb heq.symm
      have hfitsb := h.tail.fits b
      rw [size_cons_of_ne hb, List.filter_cons_of_neg (by simpa using hne), ← ih h.tail,
        distribute_cons]
      refine List.map_congr_left fun u hu => ?_
      have hu := List.mem_range.1 hu
      have hslot : (distribute bucket s items).start b + u ≠
          (distribute bucket s items).start (bucket a) - 1 := by
        rw [hstart, hstart]
        rcases Nat.lt_or_gt_of_ne hb with hlt | hlt
        · have hapart := h.apart b (bucket a) hlt
          rw [size_cons_self] at hapart
          omega
        · have hapart := h.apart (bucket a) b hlt
          rw [size_cons_of_ne hb] at hapart
          omega
      rw [put_start_of_ne _ hb, put_split_of_ne _ hslot]

end Distribution
