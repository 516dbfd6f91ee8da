import Mathlib.Algebra.Order.Field.Power
import Mathlib.Data.Int.Log
import Mathlib.Data.Nat.Cast.Order.Field
import Mathlib.Data.Rat.Floor
import Mathlib.Tactic.FieldSimp
import Mathlib.Tactic.Linarith
import Mathlib.Tactic.NormNum
import Mathlib.Tactic.Positivity
import Mathlib.Tactic.Push
import Mathlib.Tactic.Ring

/-!
# The numbers of JavaScript

A positive number becomes the nearest double, and a double is written with as few digits as lead
back to it.

* `round_mono`, `round_round`: rounding is monotone, and leaves a double alone.
* `roundNat_of_lt`, `floorDiv_of_lt`: natural numbers below 2^53 are doubles, and so they are
  divided as natural numbers are.
* `eq_of_round_eq`: two numbers of up to fifteen digits do not become the same double.
* `shortest_round`: so such a number is written with its own digits.
-/

set_option autoImplicit false

namespace JsNumber

/-! ## Rounding -/

/-- The nearest integer, and the even one of two. -/
def roundEven (q : ℚ) : ℤ :=
  if q - ⌊q⌋ < 1 / 2 then ⌊q⌋
  else if 1 / 2 < q - ⌊q⌋ then ⌊q⌋ + 1
  else if ⌊q⌋ % 2 = 0 then ⌊q⌋ else ⌊q⌋ + 1

/-- The exponent of the last binary place that a double near `q` has. -/
def lastPlace (q : ℚ) : ℤ := max (Int.log 2 q - 52) (-1074)

/-- From here on there are no doubles. -/
def limit : ℚ := 2 ^ 1024

/-- The nearest double, as long as there are doubles of this size. -/
def round (q : ℚ) : ℚ := roundEven (q / 2 ^ lastPlace q) * 2 ^ lastPlace q

theorem floor_le_roundEven (q : ℚ) : ⌊q⌋ ≤ roundEven q := by
  rw [roundEven]
  split_ifs <;> omega

theorem roundEven_le (q : ℚ) : roundEven q ≤ ⌊q⌋ + 1 := by
  rw [roundEven]
  split_ifs <;> omega

theorem roundEven_intCast (n : ℤ) : roundEven n = n := by
  rw [roundEven, Int.floor_intCast, sub_self, if_pos (by norm_num)]

theorem abs_roundEven_sub_le (q : ℚ) : |(roundEven q : ℚ) - q| ≤ 1 / 2 := by
  have hlow := Int.floor_le q
  have hhigh := Int.lt_floor_add_one q
  rw [abs_le, roundEven]
  split_ifs <;> push_cast <;> constructor <;> linarith

theorem roundEven_mono {q r : ℚ} (h : q ≤ r) : roundEven q ≤ roundEven r := by
  rcases (Int.floor_le_floor h).lt_or_eq with hlt | heq
  · exact (roundEven_le q).trans ((Int.add_one_le_iff.2 hlt).trans (floor_le_roundEven r))
  · rw [roundEven, roundEven, heq]
    split_ifs <;> first | omega | (exfalso; linarith)

theorem log_two_zpow (j : ℤ) : Int.log 2 ((2 : ℚ) ^ j) = j := by
  simpa using Int.log_zpow (R := ℚ) (b := 2) (by norm_num) j

theorem lt_two_zpow_iff {q : ℚ} (hq : 0 < q) {j : ℤ} : q < 2 ^ j ↔ Int.log 2 q < j := by
  simpa using Int.lt_zpow_iff_log_lt (b := 2) (by norm_num) (x := j) hq

/-- A power of two is a multiple of every smaller one. -/
theorem zpow_eq_intCast_mul {i j : ℤ} (h : i ≤ j) : ∃ m : ℤ, (2 : ℚ) ^ j = m * 2 ^ i := by
  refine ⟨2 ^ (j - i).toNat, ?_⟩
  have hexp : j = (j - i).toNat + i := by omega
  rw [Int.cast_pow, Int.cast_ofNat, ← zpow_natCast, ← zpow_add₀ (by norm_num), ← hexp]

/-- A number up to a multiple of its last place is not rounded beyond it. -/
theorem round_le {q : ℚ} {m : ℤ} (h : q ≤ m * 2 ^ lastPlace q) : round q ≤ m * 2 ^ lastPlace q := by
  have hpos : (0 : ℚ) < 2 ^ lastPlace q := by positivity
  have hle := roundEven_mono ((div_le_iff₀ hpos).2 h)
  rw [roundEven_intCast] at hle
  exact mul_le_mul_of_nonneg_right (by exact_mod_cast hle) hpos.le

theorem le_round {q : ℚ} {m : ℤ} (h : m * 2 ^ lastPlace q ≤ q) : m * 2 ^ lastPlace q ≤ round q := by
  have hpos : (0 : ℚ) < 2 ^ lastPlace q := by positivity
  have hle := roundEven_mono ((le_div_iff₀ hpos).2 h)
  rw [roundEven_intCast] at hle
  exact mul_le_mul_of_nonneg_right (by exact_mod_cast hle) hpos.le

theorem round_eq_self {q : ℚ} {m : ℤ} (h : q = m * 2 ^ lastPlace q) : round q = q :=
  le_antisymm ((round_le h.le).trans h.ge) (h.le.trans (le_round h.ge))

theorem round_le_zpow {q : ℚ} {j : ℤ} (h : q ≤ 2 ^ j) (hplace : lastPlace q ≤ j) :
    round q ≤ 2 ^ j := by
  obtain ⟨m, hm⟩ := zpow_eq_intCast_mul hplace
  rw [hm] at h ⊢
  exact round_le h

theorem zpow_le_round {q : ℚ} {j : ℤ} (h : 2 ^ j ≤ q) (hplace : lastPlace q ≤ j) :
    2 ^ j ≤ round q := by
  obtain ⟨m, hm⟩ := zpow_eq_intCast_mul hplace
  rw [hm] at h ⊢
  exact le_round h

theorem round_nonneg {q : ℚ} (h : 0 ≤ q) : 0 ≤ round q := by
  have hzero : ((0 : ℤ) : ℚ) * 2 ^ lastPlace q = 0 := by rw [Int.cast_zero, zero_mul]
  exact hzero ▸ le_round (hzero.trans_le h)

theorem lastPlace_mono {q r : ℚ} (hq : 0 < q) (h : q ≤ r) : lastPlace q ≤ lastPlace r :=
  max_le_max_right _ (sub_le_sub_right (Int.log_mono_right hq h) _)

/-- **Rounding is monotone.** -/
theorem round_mono {q r : ℚ} (hq : 0 < q) (h : q ≤ r) : round q ≤ round r := by
  rcases (lastPlace_mono hq h).lt_or_eq with hlt | heq
  · -- a power of two is between the two
    have hr : lastPlace r = Int.log 2 r - 52 := by
      rw [lastPlace, lastPlace] at hlt
      rw [lastPlace]
      omega
    have hlog : Int.log 2 q < Int.log 2 r := by
      rw [lastPlace, hr] at hlt
      omega
    have hbelow : q ≤ 2 ^ Int.log 2 r := ((lt_two_zpow_iff hq).2 hlog).le
    have habove : (2 : ℚ) ^ Int.log 2 r ≤ r := by
      rw [← not_lt, lt_two_zpow_iff (hq.trans_le h)]
      exact lt_irrefl _
    exact (round_le_zpow hbelow (by omega)).trans (zpow_le_round habove (by omega))
  · rw [round, round, heq]
    have hpos : (0 : ℚ) < 2 ^ lastPlace r := by positivity
    have hle := roundEven_mono (div_le_div_of_nonneg_right h hpos.le)
    exact mul_le_mul_of_nonneg_right (by exact_mod_cast hle) hpos.le

/-- **A double is not rounded again.** -/
theorem round_round {q : ℚ} (hq : 0 < q) : round (round q) = round q := by
  rcases (round_nonneg hq.le).lt_or_eq with hpos | hzero
  · have hlt : q < 2 ^ (Int.log 2 q + 1) := (lt_two_zpow_iff hq).2 (lt_add_one _)
    have hplaceLe : lastPlace q ≤ max (Int.log 2 q + 1) (-1074) := by
      rw [lastPlace]
      omega
    by_cases hplace : lastPlace (round q) ≤ lastPlace q
    · obtain ⟨m, hm⟩ := zpow_eq_intCast_mul hplace
      refine round_eq_self (m := roundEven (q / 2 ^ lastPlace q) * m) ?_
      rw [Int.cast_mul, mul_assoc, ← hm, ← round]
    · -- it was rounded up to the next power of two
      have hnormal : -1074 ≤ Int.log 2 q - 52 := by
        by_contra hsub
        have hsub' : lastPlace q = -1074 := by
          rw [lastPlace]
          omega
        have hsmall : round q ≤ 2 ^ (-1022 : ℤ) :=
          round_le_zpow (hlt.le.trans (zpow_le_zpow_right₀ (by norm_num) (by omega))) (by omega)
        have hlog := Int.log_mono_right (b := 2) hpos hsmall
        rw [log_two_zpow] at hlog
        rw [lastPlace] at hplace
        omega
      have hup : round q ≤ 2 ^ (Int.log 2 q + 1) := round_le_zpow hlt.le (by omega)
      have heq : round q = 2 ^ (Int.log 2 q + 1) := by
        refine hup.antisymm (not_lt.1 fun hbelow => hplace ?_)
        have hlog := (lt_two_zpow_iff hpos).1 hbelow
        rw [lastPlace, lastPlace]
        omega
      have hplace' : lastPlace (round q) ≤ Int.log 2 q + 1 := by
        rw [heq, lastPlace, log_two_zpow]
        omega
      obtain ⟨m, hm⟩ := zpow_eq_intCast_mul hplace'
      exact round_eq_self (heq.trans hm)
  · rw [← hzero]
    norm_num [round, roundEven]

/-- As long as integers are doubles, they are multiples of the last place. -/
theorem lastPlace_nonpos {q : ℚ} (hq : q < 2 ^ 53) : lastPlace q ≤ 0 := by
  rw [lastPlace, max_le_iff]
  refine ⟨?_, by norm_num⟩
  rcases le_or_gt q 0 with hle | hpos
  · rw [Int.log_of_right_le_zero 2 hle]
    norm_num
  · have hlog := (lt_two_zpow_iff hpos (j := 53)).1 (by exact_mod_cast hq)
    omega

theorem natCast_eq_mul {q : ℚ} (hq : q < 2 ^ 53) (n : ℕ) :
    ∃ m : ℤ, (n : ℚ) = m * 2 ^ lastPlace q := by
  obtain ⟨m, hm⟩ := zpow_eq_intCast_mul (lastPlace_nonpos hq)
  rw [zpow_zero] at hm
  exact ⟨n * m, by rw [Int.cast_mul, mul_assoc, ← hm, mul_one, Int.cast_natCast]⟩

/-- Rounding does not go beyond an integer. -/
theorem round_le_natCast {q : ℚ} {n : ℕ} (hq : q < 2 ^ 53) (h : q ≤ n) : round q ≤ n := by
  obtain ⟨m, hm⟩ := natCast_eq_mul hq n
  rw [hm] at h ⊢
  exact round_le h

theorem natCast_le_round {q : ℚ} {n : ℕ} (hq : q < 2 ^ 53) (h : n ≤ q) : n ≤ round q := by
  obtain ⟨m, hm⟩ := natCast_eq_mul hq n
  rw [hm] at h ⊢
  exact le_round h

theorem round_natCast {n : ℕ} (h : (n : ℚ) < 2 ^ 53) : round n = n :=
  (round_le_natCast h le_rfl).antisymm (natCast_le_round h le_rfl)

/-! ## How far rounding goes -/

theorem abs_round_sub_le (q : ℚ) : |round q - q| ≤ 2 ^ lastPlace q / 2 := by
  have hpos : (0 : ℚ) < 2 ^ lastPlace q := by positivity
  have hscaled : round q - q = (roundEven (q / 2 ^ lastPlace q) - q / 2 ^ lastPlace q)
      * 2 ^ lastPlace q := by
    rw [round, sub_mul, div_mul_cancel₀ _ hpos.ne']
  rw [hscaled, abs_mul, abs_of_pos hpos]
  calc |(roundEven (q / 2 ^ lastPlace q) : ℚ) - q / 2 ^ lastPlace q| * 2 ^ lastPlace q
      ≤ 1 / 2 * 2 ^ lastPlace q :=
        mul_le_mul_of_nonneg_right (abs_roundEven_sub_le _) hpos.le
    _ = 2 ^ lastPlace q / 2 := by ring

/-- The last place is small, for the number or for all numbers. -/
theorem two_zpow_lastPlace_le {q : ℚ} (hq : 0 < q) :
    (2 : ℚ) ^ lastPlace q ≤ q / 2 ^ 52 ∨ (2 : ℚ) ^ lastPlace q = 2 ^ (-1074 : ℤ) := by
  rcases max_choice (Int.log 2 q - 52) (-1074) with h | h
  · left
    have hlog : (2 : ℚ) ^ Int.log 2 q ≤ q := by
      rw [← not_lt, lt_two_zpow_iff hq]
      exact lt_irrefl _
    rw [lastPlace, h, zpow_sub₀ (by norm_num)]
    exact div_le_div_of_nonneg_right hlog (by positivity)
  · right
    rw [lastPlace, h]

/-- Every double is a multiple of the smallest one. -/
theorem round_eq_mul (q : ℚ) : ∃ m : ℤ, round q = m * 2 ^ (-1074 : ℤ) := by
  obtain ⟨m, hm⟩ := zpow_eq_intCast_mul (le_max_right (Int.log 2 q - 52) (-1074))
  exact ⟨roundEven (q / 2 ^ lastPlace q) * m,
    by rw [Int.cast_mul, mul_assoc, ← hm, round, lastPlace]⟩

/-- What the smallest double is not too large for is not rounded to zero. -/
theorem round_pos {q : ℚ} (h : 2 ^ (-1074 : ℤ) ≤ q) : 0 < round q := by
  have hpos : (0 : ℚ) < 2 ^ lastPlace q := by positivity
  have hq : 0 < q := lt_of_lt_of_le (by positivity) h
  have hplace : ((1 : ℤ) : ℚ) * 2 ^ lastPlace q ≤ q := by
    rw [Int.cast_one, one_mul]
    rcases two_zpow_lastPlace_le hq with hnormal | hsub
    · exact hnormal.trans (div_le_self hq.le (by norm_num))
    · exact hsub.trans_le h
  exact lt_of_lt_of_le (by rwa [Int.cast_one, one_mul]) (le_round hplace)

/-- **Of two doubles, the difference is not rounded to zero**, unless they are the same. -/
theorem le_of_round_sub_nonpos {q r : ℚ} (h : round (round q - round r) ≤ 0) :
    round q ≤ round r := by
  by_contra hlt
  obtain ⟨m, hm⟩ := round_eq_mul q
  obtain ⟨n, hn⟩ := round_eq_mul r
  have hpos : (0 : ℚ) < 2 ^ (-1074 : ℤ) := by positivity
  rw [not_le, hm, hn, mul_lt_mul_iff_left₀ hpos, Int.cast_lt] at hlt
  refine absurd h (not_le.2 (round_pos ?_))
  rw [hm, hn, ← sub_mul, ← Int.cast_sub]
  refine le_mul_of_one_le_left hpos.le ?_
  exact_mod_cast (by omega : 1 ≤ m - n)

theorem ten_pow_le : (10 : ℚ) ^ 300 ≤ 2 ^ 1000 := by
  calc (10 : ℚ) ^ 300 = (10 ^ 3) ^ 100 := by rw [← pow_mul]
    _ ≤ (2 ^ 10) ^ 100 := pow_le_pow_left₀ (by norm_num) (by norm_num) 100
    _ = 2 ^ 1000 := by rw [← pow_mul]

/-- The smallest double is nothing beside a moderate number. -/
theorem two_zpow_le : (2 : ℚ) ^ (-1074 : ℤ) ≤ 1 / 10 ^ 300 / 2 ^ 52 := by
  have hmul : (10 : ℚ) ^ 300 * 2 ^ 52 ≤ 2 ^ 1074 := by
    calc (10 : ℚ) ^ 300 * 2 ^ 52 ≤ 2 ^ 1000 * 2 ^ 52 :=
          mul_le_mul_of_nonneg_right ten_pow_le (by positivity)
      _ = 2 ^ 1052 := by rw [← pow_add]
      _ ≤ 2 ^ 1074 := pow_le_pow_right₀ (by norm_num) (by norm_num)
  rw [zpow_neg, div_div, one_div]
  exact inv_anti₀ (by positivity) (by exact_mod_cast hmul)

/-- Two numbers that become the same double are close together. -/
theorem abs_sub_le_of_round_eq {q r : ℚ} (hq : 1 / 10 ^ 300 ≤ q) (hr : 0 < r)
    (h : round q = round r) : |q - r| ≤ 3 * q / 2 ^ 53 ∧ |q - r| ≤ 3 * r / 2 ^ 53 := by
  have hq0 : 0 < q := lt_of_lt_of_le (by positivity) hq
  have hqErr := abs_le.1 (abs_round_sub_le q)
  have hrErr := abs_le.1 (abs_round_sub_le r)
  rw [h] at hqErr
  have hqPlace : (2 : ℚ) ^ lastPlace q ≤ q / 2 ^ 52 := by
    rcases two_zpow_lastPlace_le hq0 with hle | heq
    · exact hle
    · rw [heq]
      exact two_zpow_le.trans (div_le_div_of_nonneg_right hq (by positivity))
  have hrPlace : (2 : ℚ) ^ lastPlace r ≤ r / 2 ^ 52 ∨ (2 : ℚ) ^ lastPlace r ≤ q / 2 ^ 52 := by
    refine (two_zpow_lastPlace_le hr).imp_right fun heq => ?_
    rw [heq]
    exact two_zpow_le.trans (div_le_div_of_nonneg_right hq (by positivity))
  rw [abs_le, abs_le]
  rcases hrPlace with hrPlace | hrPlace <;> refine ⟨⟨?_, ?_⟩, ?_, ?_⟩ <;> linarith

/-- Up to fifteen digits, the last one not zero, with a moderate exponent. -/
structure Short (s : ℕ) (e : ℤ) : Prop where
  last : ¬ 10 ∣ s
  digits : s < 10 ^ 15
  low : -300 ≤ e
  high : e ≤ 280

theorem Short.pos {s : ℕ} {e : ℤ} (h : Short s e) : 0 < s :=
  Nat.pos_of_ne_zero fun hzero => h.last (hzero ▸ dvd_zero 10)

/-- The number with these digits and this exponent. -/
def decimal (s : ℕ) (e : ℤ) : ℚ := s * 10 ^ e

theorem decimal_pos {s : ℕ} (hs : 0 < s) (e : ℤ) : 0 < decimal s e := by
  rw [decimal]
  positivity

/-- Different numbers of up to fifteen digits are not close together. -/
theorem decimal_not_close {s m : ℕ} {e a : ℤ} (hs : s ≤ 10 ^ 15) (hea : e ≤ a)
    (hne : decimal s e ≠ decimal m a) : 3 * decimal s e / 2 ^ 53 < |decimal s e - decimal m a| := by
  have hpos : (0 : ℚ) < 10 ^ e := by positivity
  have hexp : a = (a - e).toNat + e := by omega
  have hscaled : decimal s e - decimal m a = ((s - m * 10 ^ (a - e).toNat : ℤ) : ℚ) * 10 ^ e := by
    rw [decimal, decimal]
    nth_rewrite 1 [hexp]
    rw [zpow_add₀ (by norm_num), zpow_natCast]
    push_cast
    ring
  have hint : (s - m * 10 ^ (a - e).toNat : ℤ) ≠ 0 := by
    intro hzero
    rw [hzero, Int.cast_zero, zero_mul, sub_eq_zero] at hscaled
    exact hne hscaled
  have hone : (1 : ℚ) ≤ |((s - m * 10 ^ (a - e).toNat : ℤ) : ℚ)| := by
    exact_mod_cast Int.one_le_abs hint
  have hsmall : 3 * (s : ℚ) / 2 ^ 53 < 1 := by
    have hs' : (s : ℚ) ≤ 10 ^ 15 := by exact_mod_cast hs
    linarith
  rw [hscaled, abs_mul, abs_of_pos hpos, decimal]
  calc 3 * ((s : ℚ) * 10 ^ e) / 2 ^ 53 = 3 * (s : ℚ) / 2 ^ 53 * 10 ^ e := by ring
    _ < 1 * 10 ^ e := mul_lt_mul_of_pos_right hsmall hpos
    _ ≤ _ := mul_le_mul_of_nonneg_right hone hpos.le

theorem Short.le_decimal {s : ℕ} {e : ℤ} (h : Short s e) : 1 / 10 ^ 300 ≤ decimal s e := by
  have hs : (1 : ℚ) ≤ s := by exact_mod_cast h.pos
  have hexp : (10 : ℚ) ^ (-300 : ℤ) ≤ 10 ^ e := zpow_le_zpow_right₀ (by norm_num) h.low
  calc (1 : ℚ) / 10 ^ 300 = 1 * 10 ^ (-300 : ℤ) := by norm_num
    _ ≤ s * 10 ^ e := mul_le_mul hs hexp (by positivity) (by positivity)

/-- **Two numbers of up to fifteen digits do not become the same double.** -/
theorem eq_of_round_eq {s m : ℕ} {e a : ℤ} (h : Short s e) (hm : 0 < m) (hm' : m ≤ 10 ^ 15)
    (hround : round (decimal s e) = round (decimal m a)) : decimal s e = decimal m a := by
  obtain ⟨hs, hm''⟩ := abs_sub_le_of_round_eq h.le_decimal (decimal_pos hm a) hround
  by_contra hne
  rcases le_total e a with hle | hle
  · exact absurd hs (decimal_not_close h.digits.le hle hne).not_ge
  · rw [abs_sub_comm] at hm''
    exact absurd hm'' (decimal_not_close hm' hle (Ne.symm hne)).not_ge

/-! ## Natural numbers -/

/-- A natural number as a double: from 2^53 on another one may be the nearest. -/
def roundNat (n : ℕ) : ℕ := ⌊round n⌋.toNat

/-- `Math.floor(n / d)` -/
def floorDiv (n d : ℕ) : ℕ := ⌊round (n / d)⌋.toNat

theorem roundNat_of_lt {n : ℕ} (h : n < 2 ^ 53) : roundNat n = n := by
  rw [roundNat, round_natCast (by exact_mod_cast h), Int.floor_natCast, Int.toNat_natCast]

/-- **A quotient is not rounded up to the next integer.** -/
theorem floorDiv_of_lt {n d : ℕ} (hn : n < 2 ^ 53) (hd : 0 < d) (hd' : d ≤ 2 ^ 53) :
    floorDiv n d = n / d := by
  have hd0 : (0 : ℚ) < d := by exact_mod_cast hd
  have hn' : (n : ℚ) < 2 ^ 53 := by exact_mod_cast hn
  have hlow : ((n / d : ℕ) : ℚ) ≤ n / d := Nat.cast_div_le
  have hsmall : (n : ℚ) / d < 2 ^ 53 :=
    lt_of_le_of_lt (div_le_self (Nat.cast_nonneg n) (by exact_mod_cast hd)) hn'
  have hhigh : (n : ℚ) / d + 1 / d ≤ (n / d : ℕ) + 1 := by
    rw [← add_div, div_le_iff₀ hd0]
    have hmod := Nat.lt_mul_div_succ n hd
    rw [mul_comm] at hmod
    exact_mod_cast hmod
  have hlt : round ((n : ℚ) / d) < (n / d : ℕ) + 1 := by
    rcases Nat.eq_zero_or_pos n with rfl | hpos
    · norm_num [round, roundEven]
    · -- half of the last place is less than what is missing
      have hq : (0 : ℚ) < n / d := div_pos (by exact_mod_cast hpos) hd0
      have herr := (abs_le.1 (abs_round_sub_le ((n : ℚ) / d))).2
      have hplace : (2 : ℚ) ^ lastPlace ((n : ℚ) / d) ≤ n / d / 2 ^ 52 := by
        rcases two_zpow_lastPlace_le hq with hle | heq
        · exact hle
        · have hfrac : (1 : ℚ) / 2 ^ 53 ≤ n / d := by
            rw [div_le_div_iff₀ (by positivity) hd0, one_mul]
            have hle : d ≤ n * 2 ^ 53 := hd'.trans (Nat.le_mul_of_pos_left _ hpos)
            exact_mod_cast hle
          have htiny : (2 : ℚ) ^ (-1074 : ℤ) ≤ 1 / 2 ^ 53 / 2 ^ 52 := by
            rw [div_div, ← pow_add, one_div, zpow_neg]
            exact inv_anti₀ (by positivity) (by
              exact_mod_cast pow_le_pow_right₀ (by norm_num : (1 : ℚ) ≤ 2) (by norm_num))
          rw [heq]
          exact htiny.trans (div_le_div_of_nonneg_right hfrac (by positivity))
      have hmissing : (n : ℚ) / d / 2 ^ 52 / 2 < 1 / d := by
        rw [div_div, div_div, div_lt_div_iff₀ (by positivity) hd0]
        nlinarith
      linarith
  have hfloor : ⌊round ((n : ℚ) / d)⌋ = (n / d : ℕ) :=
    Int.floor_eq_iff.2 ⟨by exact_mod_cast natCast_le_round hsmall hlow, by exact_mod_cast hlt⟩
  rw [floorDiv, hfloor, Int.toNat_natCast]

/-! ## The digits of a double -/

/-- Where the point is: in front of the first digit of `x` is this power of ten. -/
def point (x : ℚ) : ℤ := Int.log 10 x + 1

/-- The exponent of the last of `k` digits. -/
def place (x : ℚ) (k : ℕ) : ℤ := point x - k

/-- The number with `k` digits that is next below, and the one that is next above. -/
def below (x : ℚ) (k : ℕ) : ℕ := ⌊x / 10 ^ place x k⌋₊

def above (x : ℚ) (k : ℕ) : ℕ := ⌈x / 10 ^ place x k⌉₊

/-- These digits lead back to `x`. -/
def Leads (x : ℚ) (k m : ℕ) : Prop := round (decimal m (place x k)) = x

instance (x : ℚ) (k m : ℕ) : Decidable (Leads x k m) := inferInstanceAs (Decidable (_ = _))

/-- Some `k` digits lead back to `x`. -/
def Suffices (x : ℚ) (k : ℕ) : Prop := Leads x k (below x k) ∨ Leads x k (above x k)

instance (x : ℚ) (k : ℕ) : Decidable (Suffices x k) := inferInstanceAs (Decidable (_ ∨ _))

/-- The `k` digits that lead back and are nearest, and of two the even ones. -/
def nearest (x : ℚ) (k : ℕ) : ℕ :=
  let low := x - decimal (below x k) (place x k)
  let high := decimal (above x k) (place x k) - x
  if Leads x k (below x k) ∧
      (Leads x k (above x k) → low < high ∨ low = high ∧ below x k % 2 = 0) then below x k
  else above x k

/-- The fewest digits that lead back.  Seventeen always do. -/
def fewest (x : ℚ) : ℕ := ((List.range' 1 16).find? fun k => decide (Suffices x k)).getD 17

/-- The digits and the exponent a double is written with. -/
def shortest (x : ℚ) : ℕ × ℤ :=
  let m := nearest x (fewest x)
  if m = 10 ^ fewest x then (1, point x) else (m, place x (fewest x))

/-! ## The digits of a number that is read and written -/

theorem ten_zpow_le_iff {q : ℚ} (hq : 0 < q) {j : ℤ} : (10 : ℚ) ^ j ≤ q ↔ j ≤ Int.log 10 q := by
  simpa using Int.zpow_le_iff_le_log (b := 10) (by norm_num) (x := j) hq

theorem lt_ten_zpow_iff {q : ℚ} (hq : 0 < q) {j : ℤ} : q < 10 ^ j ↔ Int.log 10 q < j := by
  simpa using Int.lt_zpow_iff_log_lt (b := 10) (by norm_num) (x := j) hq

theorem decimal_pow (k : ℕ) (e : ℤ) : decimal (10 ^ k) e = 10 ^ (k + e) := by
  rw [decimal, Nat.cast_pow, Nat.cast_ofNat, ← zpow_natCast, ← zpow_add₀ (by norm_num)]

theorem decimal_mono {s m : ℕ} (h : s ≤ m) (e : ℤ) : decimal s e ≤ decimal m e :=
  mul_le_mul_of_nonneg_right (by exact_mod_cast h) (by positivity)

theorem decimal_shift (s j : ℕ) (e : ℤ) : decimal (s * 10 ^ j) e = decimal s (j + e) := by
  rw [decimal, decimal, zpow_add₀ (by norm_num), zpow_natCast]
  push_cast
  ring

section digits

variable {x : ℚ} {k : ℕ}

theorem decimal_below_le (hx : 0 < x) : decimal (below x k) (place x k) ≤ x :=
  (le_div_iff₀ (by positivity)).1 (Nat.floor_le (by positivity))

theorem le_below {m : ℕ} (h : decimal m (place x k) ≤ x) : m ≤ below x k :=
  Nat.le_floor ((le_div_iff₀ (by positivity)).2 h)

theorem le_decimal_above : x ≤ decimal (above x k) (place x k) :=
  (div_le_iff₀ (by positivity)).1 (Nat.le_ceil _)

theorem above_le {m : ℕ} (h : x ≤ decimal m (place x k)) : above x k ≤ m :=
  Nat.ceil_le.2 ((div_le_iff₀ (by positivity)).2 h)

theorem ten_pow_le_below (hx : 0 < x) (hk : 1 ≤ k) : 10 ^ (k - 1) ≤ below x k := by
  refine le_below ?_
  rw [decimal_pow, ten_zpow_le_iff hx, place, point]
  omega

theorem above_le_ten_pow (hx : 0 < x) : above x k ≤ 10 ^ k := by
  refine above_le ?_
  have hlt : x < 10 ^ (k + place x k) := by
    rw [lt_ten_zpow_iff hx, place, point]
    omega
  rw [decimal_pow]
  exact hlt.le

theorem below_le_above (hx : 0 < x) : below x k ≤ above x k :=
  Nat.cast_le.1 ((Nat.floor_le (by positivity)).trans (Nat.le_ceil (x / 10 ^ place x k)))

/-- When some number of `k` digits becomes `x`, then one of the two next to `x` does. -/
theorem suffices_of_round {s : ℕ} {e : ℤ} (hx : 0 < x) (hround : round (decimal s e) = x)
    (hk : 1 ≤ k) (hlow : 10 ^ (k - 1) ≤ s) (hhigh : s < 10 ^ k) : Suffices x k := by
  have hs : 0 < s := lt_of_lt_of_le (by positivity) hlow
  have hself : round x = x := by rw [← hround, round_round (decimal_pos hs e)]
  have hfrom : (10 : ℚ) ^ (((k - 1 : ℕ) : ℤ) + e) ≤ decimal s e := by
    rw [← decimal_pow]
    exact decimal_mono hlow e
  have hto : decimal s e < 10 ^ ((k : ℤ) + e) := by
    rw [← decimal_pow]
    exact mul_lt_mul_of_pos_right (by exact_mod_cast hhigh) (by positivity)
  rcases le_total (decimal s e) x with hle | hle
  · -- it is not above the one next below
    have hplace : e ≤ place x k := by
      have hlog := (ten_zpow_le_iff hx).1 (hfrom.trans hle)
      rw [place, point]
      omega
    have hbelow : decimal s e ≤ decimal (below x k) (place x k) := by
      rcases hplace.eq_or_lt with heq | hlt
      · rw [← heq]
        exact decimal_mono (le_below (heq ▸ hle)) e
      · refine (hto.le.trans ?_).trans (decimal_mono (ten_pow_le_below hx hk) _)
        rw [decimal_pow]
        exact zpow_le_zpow_right₀ (by norm_num) (by omega)
    left
    refine le_antisymm ?_ (hround.symm.trans_le (round_mono (decimal_pos hs e) hbelow))
    refine (round_mono ?_ (decimal_below_le hx)).trans_eq hself
    exact (decimal_pos hs e).trans_le hbelow
  · -- it is not below the one next above
    have hplace : place x k ≤ e := by
      have hlog := (lt_ten_zpow_iff hx).1 (hle.trans_lt hto)
      rw [place, point]
      omega
    have habove : decimal (above x k) (place x k) ≤ decimal s e := by
      have hshift := decimal_shift s (e - place x k).toNat (place x k)
      rw [show ((e - place x k).toNat : ℤ) + place x k = e by omega] at hshift
      rw [← hshift] at hle ⊢
      exact decimal_mono (above_le hle) _
    right
    refine le_antisymm ?_ (hself.symm.trans_le (round_mono hx le_decimal_above))
    exact (round_mono (hx.trans_le le_decimal_above) habove).trans_eq hround

theorem nearest_eq (x : ℚ) (k : ℕ) : nearest x k = below x k ∨ nearest x k = above x k := by
  rw [nearest]
  split_ifs <;> simp

theorem leads_nearest (h : Suffices x k) : Leads x k (nearest x k) := by
  rw [nearest]
  split_ifs with hbelow
  · exact hbelow.1
  · by_contra habove
    exact hbelow ⟨h.resolve_right habove, fun h => absurd h habove⟩

theorem nearest_pos (hx : 0 < x) (hk : 1 ≤ k) : 0 < nearest x k := by
  have hbelow : 0 < below x k := lt_of_lt_of_le (by positivity) (ten_pow_le_below hx hk)
  rcases nearest_eq x k with heq | heq <;> rw [heq]
  · exact hbelow
  · exact hbelow.trans_le (below_le_above hx)

theorem nearest_le (hx : 0 < x) : nearest x k ≤ 10 ^ k := by
  rcases nearest_eq x k with heq | heq <;> rw [heq]
  · exact (below_le_above hx).trans (above_le_ten_pow hx)
  · exact above_le_ten_pow hx

theorem one_le_fewest (x : ℚ) : 1 ≤ fewest x := by
  rw [fewest]
  match hfind : (List.range' 1 16).find? fun k => decide (Suffices x k) with
  | none => decide
  | some j => exact (List.mem_range'_1.1 (List.mem_of_find?_eq_some hfind)).1

theorem shortest_pos (hx : 0 < x) : 0 < (shortest x).1 := by
  rw [shortest]
  split
  · exact one_pos
  · exact nearest_pos hx (one_le_fewest x)

/-- No more digits are taken than lead back. -/
theorem fewest_le (hk : 1 ≤ k) (hk' : k ≤ 16) (h : Suffices x k) :
    fewest x ≤ k ∧ Suffices x (fewest x) := by
  have hmem : k ∈ List.range' 1 16 := List.mem_range'_1.2 ⟨hk, by omega⟩
  match hfind : (List.range' 1 16).find? fun k => decide (Suffices x k) with
  | none => exact absurd h (by simpa using List.find?_eq_none.1 hfind k hmem)
  | some j =>
    obtain ⟨hj, _, hleast⟩ := List.find?_range'_eq_some.1 hfind
    have hfewest : fewest x = j := by rw [fewest, hfind, Option.getD_some]
    rw [hfewest]
    refine ⟨?_, of_decide_eq_true hj⟩
    by_contra hlt
    exact absurd h (by simpa using hleast k hk (by omega))

end digits

/-- Digits with the larger exponent are the others without zeros. -/
theorem eq_mul_of_decimal_eq {s m : ℕ} {e a : ℤ} (h : decimal s e = decimal m a) (hle : e ≤ a) :
    s = m * 10 ^ (a - e).toNat := by
  have hshift := decimal_shift m (a - e).toNat e
  rw [show ((a - e).toNat : ℤ) + e = a by omega, ← h, decimal, decimal] at hshift
  exact_mod_cast (mul_right_cancel₀ (by positivity) hshift).symm

theorem eq_of_decimal_eq {s m : ℕ} {e a : ℤ} (hs : ¬ 10 ∣ s) (hm : ¬ 10 ∣ m)
    (h : decimal s e = decimal m a) : s = m ∧ e = a := by
  have hnil : ∀ {n j : ℕ}, ¬ 10 ∣ n * 10 ^ j → j = 0 := by
    intro n j hnot
    by_contra hj
    exact hnot (dvd_mul_of_dvd_right (dvd_pow_self 10 hj) n)
  rcases le_total e a with hle | hle
  · have heq := eq_mul_of_decimal_eq h hle
    have hj := hnil (heq ▸ hs)
    rw [hj, pow_zero, mul_one] at heq
    exact ⟨heq, by omega⟩
  · have heq := eq_mul_of_decimal_eq h.symm hle
    have hj := hnil (heq ▸ hm)
    rw [hj, pow_zero, mul_one] at heq
    exact ⟨heq.symm, by omega⟩

/-- Rounding hardly changes a moderate number. -/
theorem Short.abs_round_sub_le {s : ℕ} {e : ℤ} (h : Short s e) :
    |round (decimal s e) - decimal s e| ≤ decimal s e / 2 ^ 52 := by
  have hplace : (2 : ℚ) ^ lastPlace (decimal s e) ≤ decimal s e / 2 ^ 52 := by
    rcases two_zpow_lastPlace_le (decimal_pos h.pos e) with hle | heq
    · exact hle
    · rw [heq]
      exact two_zpow_le.trans (div_le_div_of_nonneg_right h.le_decimal (by positivity))
  have hhalf := half_le_self (show (0 : ℚ) ≤ 2 ^ lastPlace (decimal s e) by positivity)
  exact (JsNumber.abs_round_sub_le _).trans (hhalf.trans hplace)

theorem Short.round_pos {s : ℕ} {e : ℤ} (h : Short s e) : 0 < round (decimal s e) := by
  have hpos := decimal_pos h.pos e
  have herr := (abs_le.1 h.abs_round_sub_le).1
  linarith

theorem Short.round_lt {s : ℕ} {e : ℤ} (h : Short s e) : round (decimal s e) < limit := by
  have hpos := decimal_pos h.pos e
  have herr := (abs_le.1 h.abs_round_sub_le).2
  have hlt : decimal s e < 10 ^ 300 := by
    have hs : (s : ℚ) < 10 ^ 15 := by exact_mod_cast h.digits
    calc decimal s e < 10 ^ 15 * 10 ^ e := mul_lt_mul_of_pos_right hs (by positivity)
      _ = 10 ^ (15 + e) := by rw [zpow_add₀ (by norm_num)]; norm_cast
      _ ≤ 10 ^ (300 : ℤ) := zpow_le_zpow_right₀ (by norm_num) (by linarith [h.high])
      _ = 10 ^ 300 := zpow_ofNat 10 300
  have hlimit : (2 : ℚ) * 2 ^ 1000 ≤ limit := by
    rw [limit, ← pow_succ']
    exact pow_le_pow_right₀ (by norm_num) (by norm_num)
  have hten := ten_pow_le
  generalize (2 : ℚ) ^ 1000 = bound at hten hlimit
  generalize (10 : ℚ) ^ 300 = top at hten hlt
  linarith

/-- **A number of up to fifteen digits is written with its own digits.** -/
theorem shortest_round {s : ℕ} {e : ℤ} (h : Short s e) :
    shortest (round (decimal s e)) = (s, e) := by
  have hx := h.round_pos
  have hlog : Nat.log 10 s < 15 := Nat.log_lt_of_lt_pow h.pos.ne' h.digits
  have hone := one_le_fewest (round (decimal s e))
  obtain ⟨hle, hsuffices⟩ := fewest_le (by omega) (by omega)
    (suffices_of_round (k := Nat.log 10 s + 1) hx rfl (by omega)
      (Nat.pow_log_le_self 10 h.pos.ne') (Nat.lt_pow_succ_log_self (by norm_num) s))
  rw [shortest]
  generalize hk : fewest (round (decimal s e)) = k at hone hle hsuffices
  have hmle := nearest_le (k := k) hx
  have hsame := eq_of_round_eq h (nearest_pos hx hone)
    (hmle.trans (pow_le_pow_right₀ (by norm_num) (by omega))) (leads_nearest hsuffices).symm
  split
  · rename_i hpow
    rw [hpow, decimal_pow, place, add_sub_cancel] at hsame
    have hone' : decimal 1 (point (round (decimal s e))) = 10 ^ point (round (decimal s e)) := by
      rw [decimal, Nat.cast_one, one_mul]
    obtain ⟨h1, h2⟩ := eq_of_decimal_eq (by norm_num) h.last (hone'.trans hsame.symm)
    rw [h1, h2]
  · rename_i hpow
    have hlast : ¬ 10 ∣ nearest (round (decimal s e)) k := by
      intro hdvd
      rcases le_total e (place (round (decimal s e)) k) with hexp | hexp
      · have heq := eq_mul_of_decimal_eq hsame hexp
        exact h.last (heq ▸ hdvd.mul_right _)
      · -- then fewer digits lead back
        have heq := eq_mul_of_decimal_eq hsame.symm hexp
        have hj : (e - place (round (decimal s e)) k).toNat ≠ 0 := by
          intro hzero
          rw [hzero, pow_zero, mul_one] at heq
          exact h.last (heq ▸ hdvd)
        have hten : s * 10 < 10 ^ k := by
          refine lt_of_le_of_lt ?_ (hmle.lt_of_ne hpow)
          rw [heq]
          exact Nat.mul_le_mul_left s (Nat.le_self_pow hj 10)
        have hs : s < 10 ^ (k - 1) := by
          rw [show k = k - 1 + 1 by omega, pow_succ] at hten
          omega
        have := Nat.log_lt_of_lt_pow h.pos.ne' hs
        omega
    obtain ⟨h1, h2⟩ := eq_of_decimal_eq h.last hlast hsame
    rw [← h1, ← h2]

end JsNumber
