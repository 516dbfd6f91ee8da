import PhpWasm.Base.Json
import PhpWasm.Base.JsNumber

/-!
# Numbers as text

How JavaScript writes a number, and which texts are decimal number literals.

* `decimalLiteral_layout`: what is written is a literal with the same value.
* `ofLiteral_toText`: a literal that is laid out as JavaScript does it, with up to fifteen digits,
  is written as it was read.
-/

set_option autoImplicit false

namespace JsNumber

open Json (exponentPart exponentDigits)

/-! ## Writing -/

/-- The exponent behind an `e`. -/
def exponentText (n : ℤ) : List Char :=
  'e' :: (if n < 0 then '-' else '+') :: Nat.toDigits 10 n.natAbs

/-- Digits behind a point, and no point when there are none. -/
def fractionText (digits : List Char) : List Char :=
  if digits = [] then [] else '.' :: digits

/-- `Number::toString`, for the number with the digits of `s` and the exponent `e`. -/
def layout (s : ℕ) (e : ℤ) : List Char :=
  let digits := Nat.toDigits 10 s
  let k : ℤ := digits.length
  let n := k + e
  if k ≤ n ∧ n ≤ 21 then digits ++ List.replicate (n - k).toNat '0'
  else if 0 < n ∧ n ≤ 21 then digits.take n.toNat ++ '.' :: digits.drop n.toNat
  else if -6 < n ∧ n ≤ 0 then '0' :: '.' :: (List.replicate (-n).toNat '0' ++ digits)
  else digits.take 1 ++ fractionText (digits.drop 1) ++ exponentText (n - 1)

/-- A number that is not negative. -/
inductive Number
  | zero
  | infinity
  | finite (x : ℚ)
  deriving DecidableEq

/-- The double that is nearest to `q`. -/
def toNumber (q : ℚ) : Number :=
  if round q = 0 then .zero
  else if limit ≤ round q then .infinity
  else .finite (round q)

/-- `Number::toString` -/
def Number.toText : Number → List Char
  | .zero => "0".toList
  | .infinity => "Infinity".toList
  | .finite x => layout (shortest x).1 (shortest x).2

/-! ## Literals -/

/-- The digits behind a point, and what is left. -/
def optionalFraction : List Char → List Char × List Char
  | '.' :: r => (r.takeWhile Char.isDigit, r.dropWhile Char.isDigit)
  | r => ([], r)

/-- The value of a `DecimalLiteral`: digits without a leading zero, a point with digits behind it
and an exponent.  There are digits on one side of the point at least. -/
def decimalLiteral (t : List Char) : Option ℚ :=
  let digits := t.takeWhile Char.isDigit
  let f := optionalFraction (t.dropWhile Char.isDigit)
  if digits.head? = some '0' ∧ digits ≠ ['0'] ∨ digits ++ f.1 = [] then none
  else
    match exponentPart f.2 with
    | some (e, []) => some (decimal (Nat.ofDigitChars 10 (digits ++ f.1) 0) (e - f.1.length))
    | _ => none

/-! ## What is written is a literal -/

/-- What may follow the digits of a literal: nothing, or the exponent `e`. -/
structure EndsWith (t : List Char) (e : ℤ) : Prop where
  exponent : exponentPart t = some (e, [])
  stops : ∀ c ∈ t.head?, c.isDigit = false ∧ c ≠ '.'

theorem endsWith_nil : EndsWith [] 0 := ⟨by rw [exponentPart], by simp⟩

theorem toDigits_isDigit (n : ℕ) : ∀ c ∈ Nat.toDigits 10 n, c.isDigit = true := fun _ hc =>
  Nat.isDigit_of_mem_toDigits (by decide) (by decide) hc

/-- The digits in front of something that is no digit. -/
theorem takeWhile_digits {digits rest : List Char} (hdigits : ∀ c ∈ digits, c.isDigit = true)
    (hstop : ∀ c ∈ rest.head?, c.isDigit = false) :
    (digits ++ rest).takeWhile Char.isDigit = digits ∧
      (digits ++ rest).dropWhile Char.isDigit = rest := by
  rw [List.takeWhile_append_of_pos hdigits, List.dropWhile_append_of_pos hdigits]
  match rest with
  | [] => simp
  | c :: rest => simp [hstop c (by simp)]

theorem endsWith_exponentText (n : ℤ) : EndsWith (exponentText n) n := by
  refine ⟨?_, by simp [exponentText]⟩
  obtain ⟨htake, hdrop⟩ := takeWhile_digits (toDigits_isDigit n.natAbs)
    fun c hc => (endsWith_nil.stops c hc).1
  rw [List.append_nil] at htake hdrop
  have hdigits : exponentDigits (Nat.toDigits 10 n.natAbs) = some (n.natAbs, []) := by
    rw [exponentDigits, htake, hdrop, if_neg Nat.toDigits_ne_nil, Nat.ofDigitChars_ten_toDigits]
  rw [exponentText]
  split_ifs with hneg
  · rw [exponentPart, if_pos (.inl rfl)]
    rw [hdigits, Option.map_some, Option.some_inj, Prod.mk.injEq]
    exact ⟨by omega, rfl⟩
  · rw [exponentPart, if_pos (.inl rfl)]
    rw [hdigits, Option.map_some, Option.some_inj, Prod.mk.injEq]
    exact ⟨by omega, rfl⟩

section literal

variable {digits frac rest : List Char} {e : ℤ}

theorem optionalFraction_fractionText (hfrac : ∀ c ∈ frac, c.isDigit = true)
    (hrest : EndsWith rest e) : optionalFraction (fractionText frac ++ rest) = (frac, rest) := by
  rw [fractionText]
  split_ifs with hnil
  · rw [hnil, List.nil_append]
    match rest with
    | [] => rfl
    | c :: rest =>
      rw [optionalFraction]
      rintro r hr
      exact (hrest.stops c (by simp)).2 (List.cons.inj hr).1
  · obtain ⟨htake, hdrop⟩ := takeWhile_digits hfrac fun c hc => (hrest.stops c hc).1
    rw [List.cons_append, optionalFraction, htake, hdrop]

/-- A literal has the value of its digits, shifted by its exponent. -/
theorem decimalLiteral_eq (hdigits : ∀ c ∈ digits, c.isDigit = true)
    (hfrac : ∀ c ∈ frac, c.isDigit = true) (hrest : EndsWith rest e) (hnil : digits ≠ [])
    (hzero : digits.head? = some '0' → digits = ['0']) :
    decimalLiteral (digits ++ (fractionText frac ++ rest))
      = some (decimal (Nat.ofDigitChars 10 (digits ++ frac) 0) (e - frac.length)) := by
  have hstop : ∀ c ∈ (fractionText frac ++ rest).head?, c.isDigit = false := by
    intro c hc
    rw [fractionText] at hc
    split_ifs at hc
    · exact (hrest.stops c hc).1
    · cases hc
      rfl
  obtain ⟨htake, hdrop⟩ := takeWhile_digits hdigits hstop
  rw [decimalLiteral, htake, hdrop, optionalFraction_fractionText hfrac hrest, if_neg]
  · dsimp only
    rw [hrest.exponent]
  · rintro (⟨hhead, hne⟩ | hempty)
    · exact hne (hzero hhead)
    · exact hnil (List.append_eq_nil_iff.1 hempty).1

end literal

theorem zeros_isDigit {digits : List Char} (h : ∀ c ∈ digits, c.isDigit = true) (j : ℕ) :
    ∀ c ∈ List.replicate j '0' ++ digits, c.isDigit = true := by
  intro c hc
  rcases List.mem_append.1 hc with hc | hc
  · rw [List.eq_of_mem_replicate hc]
    rfl
  · exact h c hc

/-- Zeros in front of the digits do not count. -/
theorem ofDigitChars_zeros (digits : List Char) (j : ℕ) :
    Nat.ofDigitChars 10 (List.replicate j '0' ++ digits) 0 = Nat.ofDigitChars 10 digits 0 := by
  rw [Nat.ofDigitChars_append, Nat.ofDigitChars_replicate_zero, mul_zero]

/-- **What is written is a literal with the value.** -/
theorem decimalLiteral_layout {s : ℕ} (hs : 0 < s) (e : ℤ) :
    decimalLiteral (layout s e) = some (decimal s e) := by
  have hdigits := toDigits_isDigit s
  have hvalue : Nat.ofDigitChars 10 (Nat.toDigits 10 s) 0 = s := Nat.ofDigitChars_ten_toDigits
  have hlength : 0 < (Nat.toDigits 10 s).length := Nat.length_toDigits_pos
  have hnil : Nat.toDigits 10 s ≠ [] := Nat.toDigits_ne_nil
  have hhead : (Nat.toDigits 10 s).head? ≠ some '0' := fun h => hs.ne' (Json.head_toDigits h)
  rw [layout]
  generalize Nat.toDigits 10 s = digits at *
  have htakeNil : ∀ {j : ℕ}, 0 < j → digits.take j ≠ [] := by
    intro j hj h
    rcases List.take_eq_nil_iff.1 h with h | h
    · omega
    · exact hnil h
  have htakeHead : ∀ {j : ℕ}, 0 < j → (digits.take j).head? ≠ some '0' := by
    intro j hj
    rwa [List.head?_take, if_neg hj.ne']
  have htake : ∀ j, ∀ c ∈ digits.take j, c.isDigit = true :=
    fun j c hc => hdigits c (List.mem_of_mem_take hc)
  have hdrop : ∀ j, ∀ c ∈ digits.drop j, c.isDigit = true :=
    fun j c hc => hdigits c (List.mem_of_mem_drop hc)
  split_ifs with hplain hpoint hsmall
  · -- an integer
    obtain ⟨j, rfl⟩ := Int.eq_ofNat_of_zero_le (show 0 ≤ e by omega)
    have hzeros : ∀ c ∈ digits ++ List.replicate j '0', c.isDigit = true := fun c hc =>
      zeros_isDigit hdigits j c (List.mem_append.2 (List.mem_append.1 hc).symm)
    have heq := decimalLiteral_eq hzeros (List.forall_mem_nil _) endsWith_nil
      (List.append_ne_nil_of_left_ne_nil hnil _) fun h => by
        rw [List.head?_append_of_ne_nil _ hnil] at h
        exact absurd h hhead
    rw [fractionText, if_pos rfl, List.append_nil, List.append_nil, List.length_nil,
      Nat.ofDigitChars_append, hvalue, Nat.ofDigitChars_replicate_zero, mul_comm,
      decimal_shift] at heq
    rw [add_sub_cancel_left, Int.toNat_natCast, heq]
    simp
  · -- a point among the digits
    have heq := decimalLiteral_eq (htake (digits.length + e).toNat)
      (hdrop (digits.length + e).toNat) endsWith_nil (htakeNil (by omega))
      fun h => absurd h (htakeHead (by omega))
    have hfrac : digits.drop (digits.length + e).toNat ≠ [] := by
      rw [Ne, List.drop_eq_nil_iff]
      omega
    rw [fractionText, if_neg hfrac, List.append_nil, List.take_append_drop, hvalue,
      List.length_drop] at heq
    rw [heq]
    congr 2
    omega
  · -- zeros behind the point
    have hzeros := zeros_isDigit hdigits (-(digits.length + e)).toNat
    have hzero : ∀ c ∈ ['0'], c.isDigit = true := by simp
    have heq := decimalLiteral_eq hzero hzeros endsWith_nil (List.cons_ne_nil _ _) fun _ => rfl
    have hfrac : List.replicate (-(digits.length + e)).toNat '0' ++ digits ≠ [] :=
      List.append_ne_nil_of_right_ne_nil _ hnil
    rw [fractionText, if_neg hfrac, List.append_nil, List.singleton_append,
      show ['0'] ++ (List.replicate (-(digits.length + e)).toNat '0' ++ digits)
        = List.replicate ((-(digits.length + e)).toNat + 1) '0' ++ digits from rfl,
      ofDigitChars_zeros, hvalue, List.length_append, List.length_replicate] at heq
    refine heq.trans ?_
    congr 2
    push_cast
    omega
  · -- an exponent
    have hend := endsWith_exponentText (digits.length + e - 1)
    have heq := decimalLiteral_eq (htake 1) (hdrop 1) hend (htakeNil one_pos)
      fun h => absurd h (htakeHead one_pos)
    rw [List.take_append_drop, hvalue, List.length_drop] at heq
    rw [List.append_assoc, heq]
    congr 2
    omega

/-! ## What is read and written -/

theorem Number.toText_finite (x : ℚ) :
    (Number.finite x).toText = layout (shortest x).1 (shortest x).2 := rfl

/-- The digits `s` with the exponent `e` are those that the nearest double is written with. -/
structure Faithful (s : ℕ) (e : ℤ) : Prop where
  ne_zero : round (decimal s e) ≠ 0
  lt_limit : round (decimal s e) < limit
  shortest_eq : shortest (round (decimal s e)) = (s, e)

/-- Up to fifteen digits always are. -/
theorem Short.faithful {s : ℕ} {e : ℤ} (h : Short s e) : Faithful s e :=
  ⟨h.round_pos.ne', h.round_lt, shortest_round h⟩

theorem Faithful.pos {s : ℕ} {e : ℤ} (h : Faithful s e) : 0 < s := by
  refine Nat.pos_of_ne_zero fun hzero => h.ne_zero ?_
  rw [hzero, decimal, Nat.cast_zero, zero_mul]
  norm_num [round, roundEven]

theorem Faithful.toNumber_eq {s : ℕ} {e : ℤ} (h : Faithful s e) :
    toNumber (decimal s e) = .finite (round (decimal s e)) := by
  have hnot : ¬ limit ≤ round (decimal s e) := not_le.2 h.lt_limit
  rw [toNumber, if_neg h.ne_zero, if_neg hnot]

theorem decimalLiteral_nonneg {t : List Char} {q : ℚ} (h : decimalLiteral t = some q) : 0 ≤ q := by
  rw [decimalLiteral] at h
  split_ifs at h
  split at h
  · cases h
    exact mul_nonneg (by positivity) (by positivity)
  · cases h

/-- **Which literals are written as they were read**, apart from those that become zero. -/
theorem toText_eq_iff {t : List Char} {q : ℚ} (h : decimalLiteral t = some q) (hq : round q ≠ 0) :
    (toNumber q).toText = t ↔ ∃ s e, t = layout s e ∧ Faithful s e := by
  constructor
  · intro htext
    rw [toNumber, if_neg hq] at htext
    split_ifs at htext with hlimit
    · rw [← htext] at h
      cases h
    · have hpos : 0 < round q := (round_nonneg (decimalLiteral_nonneg h)).lt_of_ne hq.symm
      rw [Number.toText_finite] at htext
      have hvalue := decimalLiteral_layout (shortest_pos hpos) (shortest (round q)).2
      rw [htext, h, Option.some_inj] at hvalue
      exact ⟨_, _, htext.symm, hvalue ▸ hq, hvalue ▸ not_le.1 hlimit, hvalue ▸ rfl⟩
  · rintro ⟨s, e, rfl, hfaithful⟩
    rw [decimalLiteral_layout hfaithful.pos, Option.some_inj] at h
    rw [← h, hfaithful.toNumber_eq, Number.toText_finite, hfaithful.shortest_eq]

/-- A literal begins with a digit or with a point. -/
theorem decimalLiteral_cons {c : Char} (hdigit : c.isDigit = false) (hpoint : c ≠ '.')
    (t : List Char) : decimalLiteral (c :: t) = none := by
  have hfrac : optionalFraction (c :: t) = ([], c :: t) := by
    rw [optionalFraction]
    rintro r hr
    exact hpoint (List.cons.inj hr).1
  have htake : (c :: t).takeWhile Char.isDigit = [] := by
    rw [List.takeWhile_cons, hdigit]
    rfl
  have hdrop : (c :: t).dropWhile Char.isDigit = c :: t := by
    rw [List.dropWhile_cons, hdigit]
    rfl
  rw [decimalLiteral, htake, hdrop, hfrac]
  exact if_pos (.inr rfl)

theorem count_point_digits {t : List Char} (h : ∀ c ∈ t, c.isDigit = true) : t.count '.' = 0 :=
  List.count_eq_zero.2 fun hmem => absurd (h '.' hmem) (by decide)

theorem isDigit_of_mem_takeWhile {t : List Char} :
    ∀ c ∈ t.takeWhile Char.isDigit, c.isDigit = true :=
  List.all_eq_true.1 List.all_takeWhile

/-- What follows the digits of an exponent is what it leaves. -/
theorem count_point_of_exponentDigits {r : List Char} {n : ℕ}
    (h : exponentDigits r = some (n, [])) : r.count '.' = 0 := by
  rw [exponentDigits] at h
  split_ifs at h
  obtain ⟨-, hdrop⟩ := Prod.mk.inj (Option.some_inj.1 h)
  rw [← List.takeWhile_append_dropWhile (p := Char.isDigit) (l := r), hdrop, List.append_nil]
  exact count_point_digits isDigit_of_mem_takeWhile

/-- An exponent has no point. -/
theorem count_point_of_exponentPart {t : List Char} {e : ℤ}
    (h : exponentPart t = some (e, [])) : t.count '.' = 0 := by
  have hsome : ∀ {f : ℕ → ℤ} {r : List Char},
      ((exponentDigits r).map fun p => (f p.1, p.2)) = some (e, []) → r.count '.' = 0 := by
    intro f r hr
    obtain ⟨p, hp, hpe⟩ := Option.map_eq_some_iff.1 hr
    exact count_point_of_exponentDigits (n := p.1) (by rw [hp, ← (Prod.mk.inj hpe).2])
  match t with
  | [] => rfl
  | c :: r =>
    unfold exponentPart at h
    dsimp only at h
    split_ifs at h with hc
    · have hcount : (c :: r).count '.' = r.count '.' := by
        rcases hc with rfl | rfl <;> rfl
      rw [hcount]
      split at h
      · exact (List.count_cons_of_ne (by decide)).trans (hsome (f := fun n => -n) h)
      · exact (List.count_cons_of_ne (by decide)).trans (hsome (f := fun n => n) h)
      · exact hsome (f := fun n => n) h
    · cases (Prod.mk.inj (Option.some_inj.1 h)).2

/-- **A text with two points is no literal.** -/
theorem decimalLiteral_two_points {t : List Char} (h : 2 ≤ t.count '.') :
    decimalLiteral t = none := by
  have hsplit := congrArg (List.count '.')
    (List.takeWhile_append_dropWhile (p := Char.isDigit) (l := t))
  rw [List.count_append, count_point_digits isDigit_of_mem_takeWhile, zero_add] at hsplit
  have hfrac : ∀ r : List Char, r.count '.' ≤ 1 + (optionalFraction r).2.count '.' := by
    intro r
    match r with
    | [] => simp
    | c :: r =>
      rw [optionalFraction.eq_def]
      split
      · rename_i heq
        obtain ⟨rfl, rfl⟩ := List.cons.inj heq
        have hr := congrArg (List.count '.')
          (List.takeWhile_append_dropWhile (p := Char.isDigit) (l := r))
        rw [List.count_append, count_point_digits isDigit_of_mem_takeWhile, zero_add] at hr
        rw [List.count_cons_self, hr, add_comm]
      · exact Nat.le_add_left _ _
  rw [decimalLiteral]
  split_ifs
  · rfl
  · split
    · rename_i heq
      have hexponent := count_point_of_exponentPart heq
      have hle := hfrac (t.dropWhile Char.isDigit)
      omega
    · rfl

end JsNumber
