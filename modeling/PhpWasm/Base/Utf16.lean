import Mathlib.Data.Char
import Mathlib.Logic.Function.Basic

/-!
# UTF-16

JavaScript's texts are sequences of UTF-16 code units, and that is how it compares and sorts them:
a character above U+FFFF begins with a surrogate and so comes before some of the characters below.
-/

set_option autoImplicit false

namespace Utf16

/-- The code units of a character. -/
def units (c : Char) : List Nat :=
  if c.toNat < 0x10000 then [c.toNat]
  else [0xD800 + (c.toNat - 0x10000) / 0x400, 0xDC00 + (c.toNat - 0x10000) % 0x400]

/-- The code units of a text. -/
def encode (s : List Char) : List Nat := s.flatMap units

theorem encode_cons (c : Char) (s : List Char) : encode (c :: s) = units c ++ encode s := rfl

/-- A character is no surrogate. -/
theorem not_surrogate (c : Char) : c.toNat < 0xD800 ∨ 0xDFFF < c.toNat :=
  c.valid.imp_right And.left

theorem toNat_lt (c : Char) : c.toNat < 0x110000 := by
  rcases c.valid with h | h
  · exact Nat.lt_trans h (by decide)
  · exact h.2

theorem units_ne_nil (c : Char) : units c ≠ [] := by
  rw [units]
  split <;> simp

/-- Where a character ends can be told from its code units. -/
theorem units_append_inj {c d : Char} {x y : List Nat} (h : units c ++ x = units d ++ y) :
    c = d ∧ x = y := by
  have hc := not_surrogate c
  have hd := not_surrogate d
  have hcTop := toNat_lt c
  have hdTop := toNat_lt d
  have heq : c.toNat = d.toNat → c = d := fun h => Char.ext (UInt32.toNat_inj.1 h)
  rw [units, units] at h
  split at h <;> split at h
  · obtain ⟨hcd, hxy⟩ := List.cons.inj h
    exact ⟨heq hcd, hxy⟩
  · have hhigh := (List.cons.inj h).1
    omega
  · have hhigh := (List.cons.inj h).1
    omega
  · obtain ⟨hhigh, hrest⟩ := List.cons.inj h
    obtain ⟨hlow, hxy⟩ := List.cons.inj hrest
    exact ⟨heq (by omega), hxy⟩

/-- **Different texts have different code units.** -/
theorem encode_injective : Function.Injective encode := by
  intro s t h
  induction s generalizing t with
  | nil =>
    cases t with
    | nil => rfl
    | cons d t =>
      rw [encode_cons] at h
      exact absurd (List.append_eq_nil_iff.1 h.symm).1 (units_ne_nil d)
  | cons c s ih =>
    cases t with
    | nil =>
      rw [encode_cons] at h
      exact absurd (List.append_eq_nil_iff.1 h).1 (units_ne_nil c)
    | cons d t =>
      obtain ⟨rfl, hrest⟩ := units_append_inj h
      rw [ih hrest]

end Utf16
