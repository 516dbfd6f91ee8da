import Mathlib.Data.List.Nodup
import Mathlib.Logic.Basic
import Mathlib.Tactic.Common

/-!
# Descriptor tables

A process' descriptor table is a finite map from small integers to open file descriptions.  Here
it is a function `Int → Option δ` that is defined only on `{0, …, limit - 1}`; the bound is a
field, so that there is no such thing as an ill-formed table.  The type `δ` of open file
descriptions is a parameter: nothing here looks inside one.

The calls that change a table are `sysOpen`, `sysPipe`, `sysDup`, `sysDup2` and `close`, in the
convention of C: the result is a descriptor, or `-1` when the call fails.  A call fails when the
table leaves it no choice (no free descriptor, a descriptor that is not open), and it may also be
*refused* by its environment, which is what the first argument says.

Two relations on tables carry the proofs.  `Grows t t'` says that everything open in `t` is open
in `t'`, though perhaps for another description.  `Opened t₀ t fds` says that `fds` were opened on
the way from `t₀` to `t` and nothing else happened, and `Opened.closeAll_eq_iff` what must be closed
to undo it.
-/

set_option autoImplicit false

namespace Posix

universe u

/-- A descriptor table with room for `limit` descriptors. -/
@[ext] structure FdTable (δ : Type u) where
  /-- How many descriptors the table has room for. -/
  limit : Nat
  /-- The open file description a descriptor refers to, if it is open. -/
  get : Int → Option δ
  /-- Only descriptors below the limit are ever open. -/
  bounded : ∀ fd, get fd ≠ none → 0 ≤ fd ∧ fd < limit

namespace FdTable

variable {δ : Type u}

/-- The table in which nothing is open. -/
def empty (limit : Nat) : FdTable δ := ⟨limit, fun _ => none, fun _ h => absurd rfl h⟩

/-- Is `fd` a number this table could use? -/
def InRange (t : FdTable δ) (fd : Int) : Prop := 0 ≤ fd ∧ fd < t.limit

instance (t : FdTable δ) (fd : Int) : Decidable (t.InRange fd) :=
  inferInstanceAs (Decidable (_ ∧ _))

theorem get_neg (t : FdTable δ) {fd : Int} (h : fd < 0) : t.get fd = none := by
  by_contra hne
  exact absurd (t.bounded fd hne).1 (by omega)

/-- The table in which `fd` refers to `d`.  Nothing changes when `fd` is out of range. -/
def set (t : FdTable δ) (fd : Int) (d : δ) : FdTable δ where
  limit := t.limit
  get x := if x = fd ∧ t.InRange fd then some d else t.get x
  bounded x hx := by
    by_cases h : x = fd ∧ t.InRange fd
    · rw [h.1]; exact h.2
    · rw [if_neg h] at hx; exact t.bounded x hx

/-- `close(2)`: the table in which `fd` is closed.  Closing what is not open changes nothing. -/
def close (t : FdTable δ) (fd : Int) : FdTable δ where
  limit := t.limit
  get x := if x = fd then none else t.get x
  bounded x hx := by
    split at hx
    · exact absurd rfl hx
    · exact t.bounded x hx

theorem get_set (t : FdTable δ) (fd : Int) (d : δ) (x : Int) :
    (t.set fd d).get x = if x = fd ∧ t.InRange fd then some d else t.get x := rfl

theorem get_close (t : FdTable δ) (fd x : Int) :
    (t.close fd).get x = if x = fd then none else t.get x := rfl

@[simp] theorem get_close_self (t : FdTable δ) (fd : Int) : (t.close fd).get fd = none := by
  simp [get_close]

theorem get_close_ne (t : FdTable δ) {fd x : Int} (h : x ≠ fd) : (t.close fd).get x = t.get x := by
  simp [get_close, h]

/-- Closing a descriptor that is not open changes nothing. -/
theorem close_of_get_none {t : FdTable δ} {fd : Int} (h : t.get fd = none) : t.close fd = t := by
  refine FdTable.ext rfl (funext fun x => ?_)
  rw [get_close]
  split
  · rename_i hx; rw [hx, h]
  · rfl

@[simp] theorem close_neg_one (t : FdTable δ) : t.close (-1) = t :=
  close_of_get_none (t.get_neg (by omega))

/-- Closing what was just set in a free place undoes the setting. -/
theorem close_set {t : FdTable δ} {fd : Int} (h : t.get fd = none) (d : δ) :
    (t.set fd d).close fd = t := by
  refine FdTable.ext rfl (funext fun x => ?_)
  rw [get_close, get_set]
  by_cases hx : x = fd
  · rw [if_pos hx, hx, h]
  · simp [hx]

/-! ## The lowest free descriptor -/

/-- The lowest descriptor that is not open, if there is one. -/
def nextFd (t : FdTable δ) : Option Int :=
  ((List.range t.limit).map Int.ofNat).find? fun fd => (t.get fd).isNone

/-- No descriptor is left. -/
def Full (t : FdTable δ) : Prop := t.nextFd = none

instance (t : FdTable δ) : Decidable t.Full := inferInstanceAs (Decidable (_ = _))

theorem nextFd_inRange {t : FdTable δ} {fd : Int} (h : t.nextFd = some fd) : t.InRange fd := by
  have hmem := List.mem_of_find?_eq_some h
  rw [List.mem_map] at hmem
  obtain ⟨n, hn, rfl⟩ := hmem
  rw [List.mem_range] at hn
  exact ⟨Int.natCast_nonneg n, Int.ofNat_lt.2 hn⟩

theorem nextFd_free {t : FdTable δ} {fd : Int} (h : t.nextFd = some fd) : t.get fd = none := by
  simpa using List.find?_some h

/-! ## The calls -/

/-- `open(2)`, `fopen(3)`: a new description `d` at the lowest free descriptor. -/
def sysOpen (d : Option δ) (t : FdTable δ) : Int × FdTable δ :=
  match d, t.nextFd with
  | some d, some fd => (fd, t.set fd d)
  | _, _ => (-1, t)

/-- `dup(2)`: another descriptor for the description of `fd`. -/
def sysDup (granted : Bool) (fd : Int) (t : FdTable δ) : Int × FdTable δ :=
  match t.get fd with
  | some d => sysOpen (if granted then some d else none) t
  | none => (-1, t)

/-- `dup2(2)`: `new` is made to refer to the description of `old`. -/
def sysDup2 (granted : Bool) (old new : Int) (t : FdTable δ) : Int × FdTable δ :=
  match t.get old with
  | some d => if granted = true ∧ t.InRange new then (new, t.set new d) else (-1, t)
  | none => (-1, t)

/-- `pipe(2)`: the reading and the writing end, or nothing at all. -/
def sysPipe (ends : Option (δ × δ)) (t : FdTable δ) : Option (Int × Int) × FdTable δ :=
  match ends with
  | none => (none, t)
  | some (r, w) =>
    match sysOpen (some r) t with
    | (rfd, t₁) =>
      match sysOpen (some w) t₁ with
      | (wfd, t₂) => if rfd < 0 ∨ wfd < 0 then (none, t) else (some (rfd, wfd), t₂)

/-- When `open(2)` cannot succeed: it is refused, or there is no descriptor left. -/
def OpenFails (d : Option δ) (t : FdTable δ) : Prop := d = none ∨ t.Full

instance (d : Option δ) (t : FdTable δ) : Decidable (OpenFails d t) :=
  inferInstanceAs (Decidable (_ ∨ _))

theorem sysOpen_of_fails {d : Option δ} {t : FdTable δ} (h : OpenFails d t) :
    sysOpen d t = (-1, t) := by
  rcases h with rfl | h
  · rfl
  · rw [Full] at h
    simp [sysOpen, h]

/-- A successful `open(2)` takes a free descriptor and changes nothing else. -/
theorem sysOpen_of_not_fails {d : Option δ} {t : FdTable δ} (h : ¬ OpenFails d t) :
    ∃ fd e, d = some e ∧ t.InRange fd ∧ t.get fd = none ∧ sysOpen d t = (fd, t.set fd e) := by
  rw [OpenFails, not_or] at h
  obtain ⟨e, rfl⟩ := Option.ne_none_iff_exists'.1 h.1
  obtain ⟨fd, hfd⟩ := Option.ne_none_iff_exists'.1 h.2
  exact ⟨fd, e, rfl, nextFd_inRange hfd, nextFd_free hfd, by simp [sysOpen, hfd]⟩

/-- Whatever `open(2)` answers, closing the answer undoes the call. -/
theorem close_sysOpen (d : Option δ) (t : FdTable δ) :
    (sysOpen d t).2.close (sysOpen d t).1 = t := by
  by_cases h : OpenFails d t
  · rw [sysOpen_of_fails h]; exact t.close_neg_one
  · obtain ⟨fd, e, -, -, hfree, heq⟩ := sysOpen_of_not_fails h
    rw [heq]
    exact close_set hfree e

/-- `dup(2)` is an `open(2)` of the same description, or fails without effect. -/
theorem sysDup_eq (granted : Bool) (fd : Int) (t : FdTable δ) :
    ∃ d, sysDup granted fd t = sysOpen d t := by
  rw [sysDup]
  split
  · exact ⟨_, rfl⟩
  · exact ⟨none, rfl⟩

/-! ## What stays open -/

/-- Everything open in `t` is open in `t'`, though perhaps for another description. -/
structure Grows (t t' : FdTable δ) : Prop where
  /-- The two tables have the same size. -/
  limit : t'.limit = t.limit
  /-- Nothing was closed. -/
  get : ∀ x, t.get x ≠ none → t'.get x ≠ none

theorem Grows.refl (t : FdTable δ) : Grows t t := ⟨rfl, fun _ h => h⟩

theorem Grows.trans {t t' t'' : FdTable δ} (h : Grows t t') (h' : Grows t' t'') : Grows t t'' :=
  ⟨h'.limit.trans h.limit, fun x hx => h'.get x (h.get x hx)⟩

theorem grows_set (t : FdTable δ) (fd : Int) (d : δ) : Grows t (t.set fd d) := by
  refine ⟨rfl, fun x hx => ?_⟩
  rw [get_set]
  split
  · exact Option.some_ne_none d
  · exact hx

theorem grows_sysOpen (d : Option δ) (t : FdTable δ) : Grows t (sysOpen d t).2 := by
  unfold sysOpen
  split
  · exact grows_set t _ _
  · exact Grows.refl t

theorem grows_sysDup (granted : Bool) (fd : Int) (t : FdTable δ) :
    Grows t (sysDup granted fd t).2 := by
  obtain ⟨d, hd⟩ := sysDup_eq granted fd t
  rw [hd]
  exact grows_sysOpen d t

theorem grows_sysDup2 (granted : Bool) (old new : Int) (t : FdTable δ) :
    Grows t (sysDup2 granted old new t).2 := by
  rw [sysDup2]
  split
  · split
    · exact grows_set t new _
    · exact Grows.refl t
  · exact Grows.refl t

/-- The answer of `open(2)` was free before, so it is none of the descriptors in use. -/
theorem sysOpen_ne {d : Option δ} {t : FdTable δ} {x : Int} (hx : t.get x ≠ none) :
    (sysOpen d t).1 ≠ x := by
  by_cases h : OpenFails d t
  · rw [sysOpen_of_fails h]
    rintro rfl
    exact hx (t.get_neg (by omega))
  · obtain ⟨fd, e, -, -, hfree, heq⟩ := sysOpen_of_not_fails h
    rw [heq]
    rintro rfl
    exact hx hfree

theorem sysDup_ne {granted : Bool} {fd : Int} {t : FdTable δ} {x : Int} (hx : t.get x ≠ none) :
    (sysDup granted fd t).1 ≠ x := by
  obtain ⟨d, hd⟩ := sysDup_eq granted fd t
  rw [hd]
  exact sysOpen_ne hx

/-! ## What a piece of code opened -/

/-- Close several descriptors. -/
def closeAll (t : FdTable δ) (fds : List Int) : FdTable δ := fds.foldl close t

/-- Code that started with `t₀` and got to `t` opened `fds`, in this order, and changed nothing
else. -/
structure Opened (t₀ t : FdTable δ) (fds : List Int) : Prop where
  limit : t.limit = t₀.limit
  /-- They were free. -/
  free : ∀ fd ∈ fds, t₀.get fd = none
  /-- They are open. -/
  live : ∀ fd ∈ fds, t.get fd ≠ none
  /-- No number was handed out twice. -/
  nodup : fds.Nodup
  frame : ∀ fd, fd ∉ fds → t.get fd = t₀.get fd

variable {t₀ t : FdTable δ} {fds : List Int}

theorem Opened.refl (t : FdTable δ) : Opened t t [] :=
  ⟨rfl, by simp, by simp, List.nodup_nil, fun _ _ => rfl⟩

/-- Nothing was opened just when the table is as before. -/
theorem Opened.eq_iff (h : Opened t₀ t fds) : t = t₀ ↔ fds = [] := by
  constructor
  · rintro rfl
    cases fds with
    | nil => rfl
    | cons fd fds => exact absurd (h.free fd List.mem_cons_self) (h.live fd List.mem_cons_self)
  · rintro rfl
    exact FdTable.ext h.limit (funext fun fd => h.frame fd List.not_mem_nil)

/-- One more descriptor is opened. -/
theorem Opened.set (h : Opened t₀ t fds) {fd : Int} (hr : t.InRange fd) (hfree : t.get fd = none)
    (d : δ) : Opened t₀ (t.set fd d) (fds ++ [fd]) := by
  have hnew : fd ∉ fds := fun hmem => h.live fd hmem hfree
  have hself : (t.set fd d).get fd = some d := by rw [get_set, if_pos ⟨rfl, hr⟩]
  have hne : ∀ x, x ≠ fd → (t.set fd d).get x = t.get x := by
    intro x hx
    rw [get_set, if_neg fun hc => hx hc.1]
  refine ⟨h.limit, fun x hx => ?_, fun x hx => ?_, ?_, fun x hx => ?_⟩
  · rcases List.mem_append.1 hx with hx | hx
    · exact h.free x hx
    · rw [List.mem_singleton.1 hx, ← h.frame fd hnew, hfree]
  · rcases List.mem_append.1 hx with hx | hx
    · rw [hne x (fun hxfd => hnew (hxfd ▸ hx))]
      exact h.live x hx
    · rw [List.mem_singleton.1 hx, hself]
      exact Option.some_ne_none d
  · exact List.nodup_append.2 ⟨h.nodup, List.nodup_singleton fd,
      fun x hx y hy hxy => hnew (List.mem_singleton.1 hy ▸ hxy ▸ hx)⟩
  · rw [List.mem_append, List.mem_singleton, not_or] at hx
    rw [hne x hx.2]
    exact h.frame x hx.1

/-- `open(2)` fails without effect, or opens its answer. -/
theorem Opened.sysOpen (h : Opened t₀ t fds) (d : Option δ) :
    ((sysOpen d t).1 < 0 ∧ (sysOpen d t).2 = t) ∨
      (0 ≤ (sysOpen d t).1 ∧ Opened t₀ (sysOpen d t).2 (fds ++ [(sysOpen d t).1])) := by
  by_cases hf : OpenFails d t
  · rw [sysOpen_of_fails hf]
    exact Or.inl ⟨show (-1 : Int) < 0 by decide, rfl⟩
  · obtain ⟨fd, e, -, hr, hfree, heq⟩ := sysOpen_of_not_fails hf
    rw [heq]
    exact Or.inr ⟨hr.1, h.set hr hfree e⟩

theorem Opened.sysDup (h : Opened t₀ t fds) (granted : Bool) (fd : Int) :
    ((sysDup granted fd t).1 < 0 ∧ (sysDup granted fd t).2 = t) ∨
      (0 ≤ (sysDup granted fd t).1 ∧
        Opened t₀ (sysDup granted fd t).2 (fds ++ [(sysDup granted fd t).1])) := by
  obtain ⟨d, hd⟩ := sysDup_eq granted fd t
  rw [hd]
  exact h.sysOpen d

/-- `pipe(2)` fails without effect, or opens both ends. -/
theorem Opened.sysPipe (h : Opened t₀ t fds) (ends : Option (δ × δ)) :
    sysPipe ends t = (none, t) ∨
      ∃ r w t', sysPipe ends t = (some (r, w), t') ∧ Opened t₀ t' (fds ++ [r, w]) := by
  cases ends with
  | none => exact Or.inl rfl
  | some e =>
    rw [FdTable.sysPipe]
    rcases h.sysOpen (some e.1) with ⟨hr, -⟩ | ⟨hr, ht₁⟩
    · exact Or.inl (if_pos (Or.inl hr))
    · rcases ht₁.sysOpen (some e.2) with ⟨hw, -⟩ | ⟨hw, ht₂⟩
      · exact Or.inl (if_pos (Or.inr hw))
      · have hno := not_or.2 ⟨Int.not_lt.2 hr, Int.not_lt.2 hw⟩
        refine Or.inr ⟨_, _, _, if_neg hno, ?_⟩
        rwa [List.append_assoc] at ht₂

theorem get_closeAll (t : FdTable δ) (l : List Int) (x : Int) :
    (t.closeAll l).get x = if x ∈ l then none else t.get x := by
  induction l generalizing t with
  | nil => simp [closeAll]
  | cons a l ih =>
    have hcons : t.closeAll (a :: l) = (t.close a).closeAll l := rfl
    rw [hcons, ih, get_close]
    by_cases hxl : x ∈ l
    · simp [hxl]
    · by_cases hxa : x = a <;> simp [hxl, hxa]

@[simp] theorem limit_closeAll (t : FdTable δ) (l : List Int) : (t.closeAll l).limit = t.limit := by
  induction l generalizing t with
  | nil => rfl
  | cons a l ih => exact (ih (t.close a)).trans rfl

/-- **What must be closed**: closing some of what was opened gives the old table back just when it
is all of it. -/
theorem Opened.closeAll_eq_iff (h : Opened t₀ t fds) {l : List Int} (hl : ∀ fd ∈ l, fd ∈ fds) :
    t.closeAll l = t₀ ↔ ∀ fd ∈ fds, fd ∈ l := by
  constructor
  · intro heq fd hfd
    by_contra hno
    have hget := get_closeAll t l fd
    rw [heq, if_neg hno, h.free fd hfd] at hget
    exact h.live fd hfd hget.symm
  · intro hall
    refine FdTable.ext ((limit_closeAll t l).trans h.limit) (funext fun x => ?_)
    rw [get_closeAll]
    by_cases hx : x ∈ l
    · rw [if_pos hx, h.free x (hl x hx)]
    · rw [if_neg hx]
      exact h.frame x fun hmem => hx (hall x hmem)

end FdTable

end Posix
