import Mathlib.Data.List.Basic
import Mathlib.Tactic.IntervalCases

/-!
# JSON texts

A reader for JSON texts as RFC 8259 has them: UTF-8, the six kinds of values, insignificant white
space around the structural characters, and strings in which every character but `"`, `\` and the
control characters may stand for itself.

The reader takes fuel, and `Document b v` asks for *some* amount of it that is enough to read the
bytes `b` as `v`.  More fuel never changes what is read (`value_mono`), so the bytes are read as
one value at most (`Document.unique`).
-/

set_option autoImplicit false

/-- A JSON value.  A number is `mantissa * 10 ^ exponent`, and an object keeps its members in the
order of the text. -/
inductive Json
  | null
  | bool (b : Bool)
  | number (mantissa exponent : Int)
  | string (s : List Char)
  | array (elements : List Json)
  | object (members : List (List Char × Json))

namespace Json

/-- A statement about the characters of a list is decided by going through the list. -/
scoped instance (priority := 2000) decidableForallMem {p : Char → Prop} [DecidablePred p]
    (l : List Char) : Decidable (∀ c ∈ l, p c) := List.decidableBAll p l

/-- The bytes of a text. -/
def utf8 (text : List Char) : List UInt8 := text.flatMap String.utf8EncodeChar

/-! ## White space and strings -/

/-- `ws = *( %x20 / %x09 / %x0A / %x0D )` -/
def isWs (c : Char) : Bool := c == ' ' || c == '\t' || c == '\n' || c == '\r'

/-- What is left of a text after white space. -/
def skipWs (t : List Char) : List Char := t.dropWhile isWs

/-- The value of a hexadecimal digit. -/
def hexDigit (c : Char) : Option Nat :=
  if '0' ≤ c ∧ c ≤ '9' then some (c.toNat - '0'.toNat)
  else if 'a' ≤ c ∧ c ≤ 'f' then some (c.toNat - 'a'.toNat + 10)
  else if 'A' ≤ c ∧ c ≤ 'F' then some (c.toNat - 'A'.toNat + 10)
  else none

/-- The character behind a `\`, other than `u`. -/
def escaped (c : Char) : Option Char :=
  if c = '"' ∨ c = '\\' ∨ c = '/' then some c
  else if c = 'b' then some '\x08'
  else if c = 'f' then some '\x0c'
  else if c = 'n' then some '\n'
  else if c = 'r' then some '\r'
  else if c = 't' then some '\t'
  else none

/-- A character of a string: written out, or a UTF-16 code unit given as `\uXXXX`. -/
inductive Piece
  | char (c : Char)
  | unit (u : Nat)

/-- The rest of a string behind its opening quotation mark. -/
def stringBody : List Char → Option (List Piece × List Char)
  | [] => none
  | c :: r =>
    if c = '"' then some ([], r)
    else if c = '\\' then
      match r with
      | 'u' :: h₃ :: h₂ :: h₁ :: h₀ :: r =>
        (hexDigit h₃).bind fun d₃ => (hexDigit h₂).bind fun d₂ => (hexDigit h₁).bind fun d₁ =>
          (hexDigit h₀).bind fun d₀ => (stringBody r).map fun p =>
            (.unit (((d₃ * 16 + d₂) * 16 + d₁) * 16 + d₀) :: p.1, p.2)
      | e :: r => (escaped e).bind fun c => (stringBody r).map fun p => (.char c :: p.1, p.2)
      | [] => none
    else if c.toNat < 0x20 then none
    else (stringBody r).map fun p => (.char c :: p.1, p.2)

/-- The character of a code unit that is not part of a surrogate pair.  The grammar allows a lone
surrogate, which stands for no character. -/
def unitChar (u : Nat) : Char := if 0xD800 ≤ u ∧ u < 0xE000 then '\uFFFD' else Char.ofNat u

/-- The characters of a string, from its pieces.  A code unit that may begin a surrogate pair waits
for the next piece. -/
def characters : Option Nat → List Piece → List Char
  | none, [] => []
  | some h, [] => [unitChar h]
  | none, .char c :: r => c :: characters none r
  | some h, .char c :: r => unitChar h :: c :: characters none r
  | none, .unit u :: r =>
    if 0xD800 ≤ u ∧ u < 0xDC00 then characters (some u) r else unitChar u :: characters none r
  | some h, .unit u :: r =>
    if 0xDC00 ≤ u ∧ u < 0xE000 then
      Char.ofNat (0x10000 + (h - 0xD800) * 0x400 + (u - 0xDC00)) :: characters none r
    else if 0xD800 ≤ u ∧ u < 0xDC00 then unitChar h :: characters (some u) r
    else unitChar h :: unitChar u :: characters none r

/-- A string behind its opening quotation mark. -/
def readString (t : List Char) : Option (List Char × List Char) :=
  (stringBody t).map fun p => (characters none p.1, p.2)

/-! ## Numbers -/

/-- `frac`, and no digits when there is none: the digits and what is left. -/
def fraction : List Char → Option (List Char × List Char)
  | '.' :: r =>
    if r.takeWhile Char.isDigit = [] then none
    else some (r.takeWhile Char.isDigit, r.dropWhile Char.isDigit)
  | r => some ([], r)

/-- The digits of `exp`, behind its sign. -/
def exponentDigits (r : List Char) : Option (Nat × List Char) :=
  if r.takeWhile Char.isDigit = [] then none
  else some (Nat.ofDigitChars 10 (r.takeWhile Char.isDigit) 0, r.dropWhile Char.isDigit)

/-- `exp`, and zero when there is none. -/
def exponentPart : List Char → Option (Int × List Char)
  | [] => some (0, [])
  | c :: r =>
    if c = 'e' ∨ c = 'E' then
      match r with
      | '-' :: r => (exponentDigits r).map fun p => (-p.1, p.2)
      | '+' :: r => (exponentDigits r).map fun p => (p.1, p.2)
      | r => (exponentDigits r).map fun p => (p.1, p.2)
    else some (0, c :: r)

/-- A number without its sign: `int`, `frac` and `exp`. -/
def unsigned (t : List Char) : Option ((Nat × Int) × List Char) :=
  let digits := t.takeWhile Char.isDigit
  if digits = [] ∨ (digits.head? = some '0' ∧ digits ≠ ['0']) then none
  else
    (fraction (t.dropWhile Char.isDigit)).bind fun f =>
      (exponentPart f.2).map fun e =>
        ((Nat.ofDigitChars 10 (digits ++ f.1) 0, e.1 - f.1.length), e.2)

/-- `number` -/
def readNumber : List Char → Option (Json × List Char)
  | '-' :: r => (unsigned r).map fun p => (.number (-p.1.1) p.1.2, p.2)
  | t => (unsigned t).map fun p => (.number p.1.1 p.1.2, p.2)

/-! ## Values -/

/-- The key of a member, with the colon behind it. -/
def readKey : List Char → Option (List Char × List Char)
  | '"' :: r =>
    (readString r).bind fun k =>
      match skipWs k.2 with
      | ':' :: r => some (k.1, r)
      | _ => none
  | _ => none

/-- A value that is not a string, an array or an object. -/
def readScalar (t : List Char) : Option (Json × List Char) :=
  if "null".toList.isPrefixOf t then some (.null, t.drop 4)
  else if "true".toList.isPrefixOf t then some (.bool true, t.drop 4)
  else if "false".toList.isPrefixOf t then some (.bool false, t.drop 5)
  else readNumber t

/-- What follows an item of an array or an object: a comma and the `next` items, or the closing
bracket. -/
def moreItems {α : Type*} (close : Char) (item : α)
    (next : List Char → Option (List α × List Char)) (t : List Char) :
    Option (List α × List Char) :=
  match skipWs t with
  | [] => none
  | c :: r =>
    if c = ',' then (next r).map fun q => (item :: q.1, q.2)
    else if c = close then some ([item], r)
    else none

mutual

/-- A value at the beginning of a text, and what is left of the text. -/
def readValue : Nat → List Char → Option (Json × List Char)
  | 0, _ => none
  | _ + 1, [] => none
  | n + 1, c :: r =>
    if c = '"' then (readString r).map fun p => (.string p.1, p.2)
    else if c = '[' then
      if (skipWs r).head? = some ']' then some (.array [], (skipWs r).tail)
      else (readElements n r).map fun p => (.array p.1, p.2)
    else if c = '{' then
      if (skipWs r).head? = some '}' then some (.object [], (skipWs r).tail)
      else (readMembers n r).map fun p => (.object p.1, p.2)
    else readScalar (c :: r)

/-- The elements of an array, from one of them to the closing bracket. -/
def readElements : Nat → List Char → Option (List Json × List Char)
  | 0, _ => none
  | n + 1, t =>
    (readValue n (skipWs t)).bind fun p => moreItems ']' p.1 (fun r => readElements n r) p.2

/-- The members of an object, from one of them to the closing brace. -/
def readMembers : Nat → List Char → Option (List (List Char × Json) × List Char)
  | 0, _ => none
  | n + 1, t =>
    (readKey (skipWs t)).bind fun k =>
      (readValue n (skipWs k.2)).bind fun p =>
        moreItems '}' (k.1, p.1) (fun r => readMembers n r) p.2

end

/-- A whole text: a value with white space around it. -/
def readText (n : Nat) (t : List Char) : Option Json :=
  (readValue n (skipWs t)).bind fun p => if skipWs p.2 = [] then some p.1 else none

/-- **The bytes are a JSON text for the value.** -/
def Document (b : List UInt8) (v : Json) : Prop :=
  ∃ t, b = utf8 t ∧ ∃ n, readText n t = some v

/-! ## More fuel reads the same -/

/-- `y` answers what `x` does, if `x` answers. -/
def Below {α : Type*} (x y : Option α) : Prop := ∀ a, x = some a → y = some a

section Below

variable {α β : Type*} {x y : Option α}

theorem Below.refl (x : Option α) : Below x x := fun _ h => h

theorem Below.map (h : Below x y) (f : α → β) : Below (x.map f) (y.map f) := by
  intro b hb
  obtain ⟨a, ha, rfl⟩ := Option.map_eq_some_iff.1 hb
  rw [h a ha, Option.map_some]

theorem Below.bind {f g : α → Option β} (h : Below x y) (hf : ∀ a, Below (f a) (g a)) :
    Below (x.bind f) (y.bind g) := by
  intro b hb
  obtain ⟨a, ha, hb⟩ := Option.bind_eq_some_iff.1 hb
  rw [h a ha, Option.bind_some]
  exact hf a b hb

theorem Below.ite {p : Prop} [Decidable p] {x' y' : Option α} (h : Below x y) (h' : Below x' y') :
    Below (if p then x else x') (if p then y else y') := by
  split
  · exact h
  · exact h'

end Below

theorem moreItems_below {α : Type*} (close : Char) (item : α)
    {next next' : List Char → Option (List α × List Char)} (h : ∀ r, Below (next r) (next' r))
    (t : List Char) : Below (moreItems close item next t) (moreItems close item next' t) := by
  rw [moreItems, moreItems]
  cases skipWs t with
  | nil => exact Below.refl _
  | cons c r => exact ((h r).map _).ite (Below.refl _)

/-- One more unit of fuel does not change what is read. -/
theorem read_below_succ (n : Nat) :
    (∀ t, Below (readValue n t) (readValue (n + 1) t)) ∧
      (∀ t, Below (readElements n t) (readElements (n + 1) t)) ∧
      ∀ t, Below (readMembers n t) (readMembers (n + 1) t) := by
  induction n with
  | zero =>
    refine ⟨fun t a h => ?_, fun t a h => ?_, fun t a h => ?_⟩
    · rw [readValue] at h; cases h
    · rw [readElements] at h; cases h
    · rw [readMembers] at h; cases h
  | succ n ih =>
    obtain ⟨hvalue, helements, hmembers⟩ := ih
    refine ⟨fun t => ?_, fun t => ?_, fun t => ?_⟩
    · cases t with
      | nil => rw [readValue, readValue]; exact Below.refl _
      | cons c r =>
        rw [readValue, readValue]
        refine (Below.refl _).ite (Below.ite ?_ (Below.ite ?_ (Below.refl _)))
        · exact (Below.refl _).ite ((helements _).map _)
        · exact (Below.refl _).ite ((hmembers _).map _)
    · rw [readElements, readElements]
      exact (hvalue _).bind fun p => moreItems_below _ _ helements _
    · rw [readMembers, readMembers]
      exact (Below.refl _).bind fun k => (hvalue _).bind fun p => moreItems_below _ _ hmembers _

theorem readText_below {m n : Nat} (h : m ≤ n) (t : List Char) :
    Below (readText m t) (readText n t) := by
  induction h with
  | refl => exact Below.refl _
  | step _ ih =>
    intro v hv
    exact ((read_below_succ _).1 _).bind (fun _ => Below.refl _) v (ih v hv)

/-! ## UTF-8 -/

theorem utf8_append (t t' : List Char) : utf8 (t ++ t') = utf8 t ++ utf8 t' :=
  List.flatMap_append

theorem utf8_cons (c : Char) (t : List Char) : utf8 (c :: t) = String.utf8EncodeChar c ++ utf8 t :=
  rfl

/-- The UTF-8 encoding of an ASCII character. -/
theorem utf8EncodeChar_ascii {c : Char} (h : c.toNat < 0x80) :
    String.utf8EncodeChar c = [c.toNat.toUInt8] := by
  have h' : c.val.toNat ≤ 0x7f := Nat.le_of_lt_succ h
  rw [String.utf8EncodeChar, if_pos h']
  rfl

/-- Every byte of a character outside ASCII is outside ASCII. -/
theorem le_of_mem_utf8EncodeChar {c : Char} (h : 0x80 ≤ c.toNat) {b : UInt8}
    (hb : b ∈ String.utf8EncodeChar c) : 0x80 ≤ b.toNat := by
  have h' : ¬ c.val.toNat ≤ 0x7f := Nat.not_le_of_lt h
  have hbyte : ∀ m k : Nat, 0x80 ≤ k → m + k < 256 → 0x80 ≤ (UInt8.ofNat (m + k)).toNat := by
    intro m k hk hlt
    rw [UInt8.toNat_ofNat', Nat.mod_eq_of_lt hlt]
    omega
  rw [String.utf8EncodeChar, if_neg h'] at hb
  split at hb
  · simp only [List.mem_cons, List.not_mem_nil, or_false] at hb
    rcases hb with rfl | rfl <;> exact hbyte _ _ (by decide) (by omega)
  · split at hb
    · simp only [List.mem_cons, List.not_mem_nil, or_false] at hb
      rcases hb with rfl | rfl | rfl <;> exact hbyte _ _ (by decide) (by omega)
    · simp only [List.mem_cons, List.not_mem_nil, or_false] at hb
      rcases hb with rfl | rfl | rfl | rfl <;> exact hbyte _ _ (by decide) (by omega)

/-- Different texts have different bytes. -/
theorem utf8_injective : Function.Injective utf8 := by
  intro t t' h
  have hencode : t.utf8Encode = t'.utf8Encode := congrArg List.toByteArray h
  have hdecode := congrArg ByteArray.utf8Decode? hencode
  rw [List.utf8Decode?_utf8Encode, List.utf8Decode?_utf8Encode] at hdecode
  simpa using hdecode

/-- **A document is read in one way.** -/
theorem Document.unique {b : List UInt8} {v w : Json} (hv : Document b v) (hw : Document b w) :
    v = w := by
  obtain ⟨t, rfl, m, hm⟩ := hv
  obtain ⟨t', ht', n, hn⟩ := hw
  obtain rfl := utf8_injective ht'
  have hm' := readText_below (Nat.le_max_left m n) t v hm
  have hn' := readText_below (Nat.le_max_right m n) t w hn
  exact Option.some_inj.1 (hm'.symm.trans hn')

/-! ## Reading what was written -/

theorem skipWs_cons {c : Char} (h : isWs c = false) (r : List Char) :
    skipWs (c :: r) = c :: r := by
  rw [skipWs, List.dropWhile_cons, if_neg (by rw [h]; exact Bool.false_ne_true)]

/-- Behind a comma there are more items. -/
theorem moreItems_comma {α : Type*} (close : Char) (item : α)
    (next : List Char → Option (List α × List Char)) (r : List Char) :
    moreItems close item next (',' :: r) = (next r).map fun q => (item :: q.1, q.2) := by
  rw [moreItems, skipWs_cons (by decide)]
  rfl

/-- Behind the closing bracket there are none. -/
theorem moreItems_close {α : Type*} {close : Char} (hc : close ≠ ',' ∧ isWs close = false)
    (item : α) (next : List Char → Option (List α × List Char)) (r : List Char) :
    moreItems close item next (close :: r) = some ([item], r) := by
  rw [moreItems, skipWs_cons hc.2]
  simp only [hc.1, if_false, if_true]

/-- A string with a backslash before each quotation mark and each backslash. -/
def quoted (t : List Char) : List Char :=
  t.flatMap fun c => if c = '"' ∨ c = '\\' then ['\\', c] else [c]

theorem quoted_cons (c : Char) (t : List Char) :
    quoted (c :: t) = (if c = '"' ∨ c = '\\' then ['\\', c] else [c]) ++ quoted t := rfl

theorem quoted_ne_quote (c : Char) (t r : List Char) : ∀ l, quoted (c :: t) ++ r ≠ '"' :: l := by
  intro l h
  rw [quoted_cons] at h
  by_cases hc : c = '"' ∨ c = '\\'
  · rw [if_pos hc] at h
    exact absurd (List.cons.inj h).1 (by decide)
  · rw [if_neg hc] at h
    exact hc (.inl (List.cons.inj h).1)

/-- A string ends at its first quotation mark that has no backslash before it. -/
theorem quoted_append_quote_inj {t t' r r' : List Char}
    (h : quoted t ++ '"' :: r = quoted t' ++ '"' :: r') : t = t' ∧ r = r' := by
  induction t generalizing t' with
  | nil =>
    cases t' with
    | nil => exact ⟨rfl, (List.cons.inj h).2⟩
    | cons c' t' => exact absurd h.symm (quoted_ne_quote c' t' _ _)
  | cons c t ih =>
    cases t' with
    | nil => exact absurd h (quoted_ne_quote c t _ _)
    | cons c' t' =>
      rw [quoted_cons, quoted_cons] at h
      -- the first character of each side says whether its own first character was escaped
      by_cases hc : c = '"' ∨ c = '\\'
      · by_cases hc' : c' = '"' ∨ c' = '\\'
        · rw [if_pos hc, if_pos hc'] at h
          obtain ⟨rfl, hrest⟩ := List.cons.inj (List.cons.inj h).2
          exact ⟨congrArg _ (ih hrest).1, (ih hrest).2⟩
        · rw [if_pos hc, if_neg hc'] at h
          exact absurd (.inr (List.cons.inj h).1.symm) hc'
      · by_cases hc' : c' = '"' ∨ c' = '\\'
        · rw [if_neg hc, if_pos hc'] at h
          exact absurd (.inr (List.cons.inj h).1) hc
        · rw [if_neg hc, if_neg hc'] at h
          obtain ⟨rfl, hrest⟩ := List.cons.inj h
          exact ⟨congrArg _ (ih hrest).1, (ih hrest).2⟩

/-- A character that may not stand for itself in a string. -/
def Control (c : Char) : Prop := c.toNat < 0x20

instance (c : Char) : Decidable (Control c) := inferInstanceAs (Decidable (_ < _))

theorem stringBody_quoted_cons {c : Char} (hc : ¬ Control c) (t r : List Char) :
    stringBody (quoted (c :: t) ++ r) =
      (stringBody (quoted t ++ r)).map fun p => (.char c :: p.1, p.2) := by
  rw [quoted_cons]
  by_cases hq : c = '"'
  · subst hq
    simp [stringBody, escaped]
  · by_cases hb : c = '\\'
    · subst hb
      simp [stringBody, escaped]
    · have hc' : ¬ c.toNat < 0x20 := hc
      simp only [hq, hb, or_self, if_false, List.nil_append, List.cons_append]
      rw [stringBody.eq_def]
      simp only [hq, hb, hc', if_false]

theorem stringBody_quoted_control {c : Char} (hc : Control c) (t r : List Char) :
    stringBody (quoted (c :: t) ++ r) = none := by
  have hq : c ≠ '"' := fun h => absurd hc (by rw [h]; decide)
  have hb : c ≠ '\\' := fun h => absurd hc (by rw [h]; decide)
  have hc' : c.toNat < 0x20 := hc
  rw [quoted_cons]
  simp only [hq, hb, or_self, if_false, List.nil_append, List.cons_append]
  rw [stringBody.eq_def]
  simp only [hq, hb, hc', if_false, if_true]

theorem characters_map_char (t : List Char) : characters none (t.map .char) = t := by
  induction t with
  | nil => rfl
  | cons c t ih => rw [List.map_cons, characters, ih]

/-- **Which strings can do with two escapes**: those without control characters. -/
theorem readString_quoted (t r : List Char) :
    readString (quoted t ++ '"' :: r) =
      if ∀ c ∈ t, ¬ Control c then some (t, r) else none := by
  have hbody : stringBody (quoted t ++ '"' :: r) =
      if ∀ c ∈ t, ¬ Control c then some (t.map .char, r) else none := by
    induction t with
    | nil =>
      rw [if_pos (by simp), quoted, List.flatMap_nil, List.nil_append, stringBody.eq_def]
      rfl
    | cons c t ih =>
      by_cases hc : Control c
      · rw [stringBody_quoted_control hc, if_neg fun h => h c List.mem_cons_self hc]
      · rw [stringBody_quoted_cons hc, ih]
        simp only [List.forall_mem_cons, hc, not_false_eq_true, true_and]
        split <;> rfl
  rw [readString, hbody]
  split
  · rw [Option.map_some, characters_map_char]
  · rfl

/-- A positive number does not start with a zero. -/
theorem head_toDigits {n : Nat} (h : (Nat.toDigits 10 n).head? = some '0') : n = 0 := by
  induction n using Nat.strongRecOn with
  | _ n ih =>
    by_cases hn : n < 10
    · rw [Nat.toDigits_of_lt_base hn, List.head?_cons, Option.some_inj] at h
      revert h
      interval_cases n <;> decide
    · have hsplit := Nat.toDigits_append_toDigits (b := 10) (n := n / 10) (d := n % 10)
        (by omega) (by omega) (by omega)
      rw [show 10 * (n / 10) + n % 10 = n by omega] at hsplit
      rw [← hsplit, List.head?_append_of_ne_nil _ Nat.toDigits_ne_nil] at h
      have := ih (n / 10) (by omega) h
      omega

/-- A character that cannot go on with a number. -/
def EndsNumber (c : Char) : Prop := c.isDigit = false ∧ c ≠ '.' ∧ c ≠ 'e' ∧ c ≠ 'E'

instance (c : Char) : Decidable (EndsNumber c) := inferInstanceAs (Decidable (_ ∧ _))

theorem unsigned_toDigits (n : Nat) {c : Char} (hc : EndsNumber c) (r : List Char) :
    unsigned (Nat.toDigits 10 n ++ c :: r) = some ((n, 0), c :: r) := by
  have hdigits : ∀ d ∈ Nat.toDigits 10 n, d.isDigit = true := fun d hd =>
    Nat.isDigit_of_mem_toDigits (by decide) (by decide) hd
  have htake : (Nat.toDigits 10 n ++ c :: r).takeWhile Char.isDigit = Nat.toDigits 10 n := by
    rw [List.takeWhile_append_of_pos hdigits, List.takeWhile_cons, hc.1]
    exact List.append_nil _
  have hdrop : (Nat.toDigits 10 n ++ c :: r).dropWhile Char.isDigit = c :: r := by
    rw [List.dropWhile_append_of_pos hdigits, List.dropWhile_cons, hc.1]
    rfl
  have hzero : ¬ (Nat.toDigits 10 n = [] ∨
      (Nat.toDigits 10 n).head? = some '0' ∧ Nat.toDigits 10 n ≠ ['0']) := by
    rintro (h | ⟨h, hne⟩)
    · exact Nat.toDigits_ne_nil h
    · exact hne (by rw [head_toDigits h]; rfl)
  have hfraction : fraction (c :: r) = some ([], c :: r) := by
    rw [fraction]
    rintro r' h
    exact hc.2.1 (List.cons.inj h).1
  have hexponent : exponentPart (c :: r) = some (0, c :: r) := by
    unfold exponentPart
    exact if_neg (not_or.2 ⟨hc.2.2.1, hc.2.2.2⟩)
  simp only [unsigned, htake, hdrop, if_neg hzero, hfraction, Option.bind_some, hexponent,
    Option.map_some, List.append_nil, Nat.ofDigitChars_ten_toDigits]
  rfl

/-- An integer is read back from its decimal digits. -/
theorem readNumber_toString (i : Int) {c : Char} (hc : EndsNumber c) (r : List Char) :
    readNumber ((toString i).toList ++ c :: r) = some (.number i 0, c :: r) := by
  have hminus : ∀ n r', Nat.toDigits 10 n ++ c :: r = '-' :: r' → False := by
    intro n r' h
    obtain ⟨d, ds, hds⟩ := List.exists_cons_of_ne_nil (Nat.toDigits_ne_nil (n := n) (b := 10))
    have hd : d.isDigit = true :=
      Nat.isDigit_of_mem_toDigits (b := 10) (n := n) (by decide) (by decide)
        (by rw [hds]; exact List.mem_cons_self)
    rw [hds, List.cons_append] at h
    rw [(List.cons.inj h).1] at hd
    exact absurd hd (by decide)
  rw [Int.toString_eq_repr, Int.repr_eq_if]
  split
  · rename_i h
    rw [Nat.toList_repr, readNumber.eq_2 _ (hminus _), unsigned_toDigits _ hc, Option.map_some,
      Int.toNat_of_nonneg h]
  · rename_i h
    have hneg : -((-i).toNat : Int) = i := by omega
    rw [String.toList_append, Nat.toList_repr]
    show ((unsigned (Nat.toDigits 10 (-i).toNat ++ c :: r)).map fun p =>
      (Json.number (-p.1.1) p.1.2, p.2)) = _
    rw [unsigned_toDigits _ hc, Option.map_some, hneg]

/-- A key without control characters. -/
theorem readKey_quoted {k : List Char} (hk : ∀ c ∈ k, ¬ Control c) (r : List Char) :
    readKey ('"' :: (quoted k ++ '"' :: ':' :: r)) = some (k, r) := by
  rw [readKey, readString_quoted, if_pos hk, Option.bind_some, skipWs_cons (by decide)]
  rfl

/-- A string value. -/
theorem readValue_quoted (n : Nat) (t r : List Char) :
    readValue (n + 1) ('"' :: (quoted t ++ '"' :: r)) =
      if ∀ c ∈ t, ¬ Control c then some (.string t, r) else none := by
  rw [readValue, if_pos rfl, readString_quoted]
  split <;> rfl

/-- An integer begins with a digit or a sign. -/
theorem toString_cons (i : Int) :
    ∃ d ds, (toString i).toList = d :: ds ∧ (d.isDigit = true ∨ d = '-') := by
  rw [Int.toString_eq_repr, Int.repr_eq_if]
  split
  · rw [Nat.toList_repr]
    obtain ⟨d, ds, hds⟩ :=
      List.exists_cons_of_ne_nil (Nat.toDigits_ne_nil (n := i.toNat) (b := 10))
    refine ⟨d, ds, hds, .inl ?_⟩
    exact Nat.isDigit_of_mem_toDigits (b := 10) (n := i.toNat) (by decide) (by decide)
      (by rw [hds]; exact List.mem_cons_self)
  · rw [String.toList_append]
    exact ⟨'-', _, rfl, .inr rfl⟩

/-- An integer value. -/
theorem readValue_toString (n : Nat) (i : Int) {c : Char} (hc : EndsNumber c) (r : List Char) :
    readValue (n + 1) (skipWs ((toString i).toList ++ c :: r)) = some (.number i 0, c :: r) := by
  obtain ⟨d, ds, hds, hd⟩ := toString_cons i
  have hother : ∀ e : Char, (e.isDigit = false ∧ e ≠ '-') → d ≠ e := by
    rintro e ⟨he, hminus⟩ rfl
    rcases hd with hd | hd
    · rw [he] at hd; cases hd
    · exact hminus hd
  have hws : isWs d = false := by
    simp only [isWs, Bool.or_eq_false_iff, beq_eq_false_iff_ne]
    exact ⟨⟨⟨hother _ (by decide), hother _ (by decide)⟩, hother _ (by decide)⟩,
      hother _ (by decide)⟩
  have hread := readNumber_toString i hc r
  rw [hds, List.cons_append] at hread ⊢
  rw [skipWs_cons hws, readValue, if_neg (hother _ (by decide)), if_neg (hother _ (by decide)),
    if_neg (hother _ (by decide)), readScalar]
  have hn : ('n' == d) = false := beq_eq_false_iff_ne.2 (hother 'n' (by decide)).symm
  have ht : ('t' == d) = false := beq_eq_false_iff_ne.2 (hother 't' (by decide)).symm
  have hf : ('f' == d) = false := beq_eq_false_iff_ne.2 (hother 'f' (by decide)).symm
  have hprefix : ∀ e es, (e == d) = false → ∀ l, List.isPrefixOf (e :: es) (d :: l) = false := by
    intro e es he l
    rw [List.isPrefixOf, he, Bool.false_and]
  rw [show "null".toList = ['n', 'u', 'l', 'l'] from rfl,
    show "true".toList = ['t', 'r', 'u', 'e'] from rfl,
    show "false".toList = ['f', 'a', 'l', 's', 'e'] from rfl, hprefix _ _ hn, hprefix _ _ ht,
    hprefix _ _ hf]
  exact hread

end Json
