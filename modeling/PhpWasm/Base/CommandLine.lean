import Mathlib.Algebra.GroupWithZero.Nat
import Mathlib.Data.List.Infix
import Mathlib.Data.List.Count

/-!
# Splitting a command line

How the Microsoft C runtime splits the command line of a program into its arguments.

* Arguments are separated by blanks and tabs outside quotes.
* `2n` backslashes before a quote stand for `n` backslashes, and the quote begins or ends a quoted
  part; `2n + 1` of them stand for `n` backslashes and the quote.  Other backslashes stand for
  themselves.
* Where a quoted part would end, another quote right after it stands for a quote, and the quoted
  part goes on.
* A quoted part that does not end goes on to the end of the line.

`State.next` reads one character, `feed` some text.  `State.weight` is what a splitting can only
lose of: a backslash weighs 2 and a quote 1.
-/

set_option autoImplicit false

namespace CommandLine

/-- Where a position is. -/
inductive Quoting
  | outside
  | inside
  /-- Right after the quote that ends a quoted part. -/
  | closed
  deriving DecidableEq

/-- The quoting after a character other than a quote. -/
def Quoting.settle : Quoting → Quoting
  | outside => outside
  | inside => inside
  | closed => outside

/-- What is known after some of a line: whether there is an argument, what it is so far, and how
many backslashes come after that. -/
inductive State
  | between
  | within (arg : List Char) (quoting : Quoting) (slashes : Nat)
  deriving DecidableEq

namespace State

/-- The argument so far. -/
def arg : State → List Char
  | between => []
  | within arg _ _ => arg

/-- Where the position is. -/
def quoting : State → Quoting
  | between => .outside
  | within _ q _ => q

/-- The backslashes that were read last. -/
def slashes : State → Nat
  | between => 0
  | within _ _ n => n

/-- The argument, if no quote comes next. -/
def text (st : State) : List Char := st.arg ++ List.replicate st.slashes '\\'

section

variable (a : List Char) (q : Quoting) (n : Nat)

@[simp] theorem arg_within : (within a q n).arg = a := rfl

@[simp] theorem quoting_within : (within a q n).quoting = q := rfl

@[simp] theorem slashes_within : (within a q n).slashes = n := rfl

@[simp] theorem text_within : (within a q n).text = a ++ List.replicate n '\\' := rfl

end

/-- The argument a line ends in. -/
def rest : State → List (List Char)
  | between => []
  | within arg _ n => [arg ++ List.replicate n '\\']

end State

/-- What separates arguments. -/
def isBlank (c : Char) : Bool := c = ' ' || c = '\t'

/-- One more character: the argument it ends, if it ends one, and what is known then. -/
def State.next (st : State) (c : Char) : List (List Char) × State :=
  if c = '\\' then ([], within st.arg st.quoting.settle (st.slashes + 1))
  else if c = '"' then
    let arg := st.arg ++ List.replicate (st.slashes / 2) '\\'
    if st.slashes % 2 = 1 then ([], within (arg ++ ['"']) st.quoting.settle 0)
    else
      match st.quoting with
      | .outside => ([], within arg .inside 0)
      | .inside => ([], within arg .closed 0)
      | .closed => ([], within (arg ++ ['"']) .inside 0)
  else if isBlank c && st.quoting ≠ .inside then (st.rest, between)
  else ([], within (st.text ++ [c]) st.quoting.settle 0)

/-- Some more text: the arguments that end in it, and what is known then. -/
def feed : State → List Char → List (List Char) × State
  | st, [] => ([], st)
  | st, c :: s => ((st.next c).1 ++ (feed (st.next c).2 s).1, (feed (st.next c).2 s).2)

/-- The arguments there are in a state, and in the rest of the line. -/
def args (st : State) (s : List Char) : List (List Char) := (feed st s).1 ++ (feed st s).2.rest

/-- **The arguments of a command line.** -/
def split (line : List Char) : List (List Char) := args .between line

/-! ## Feeding -/

@[simp] theorem feed_nil (st : State) : feed st [] = ([], st) := rfl

theorem feed_cons (st : State) (c : Char) (s : List Char) :
    feed st (c :: s) =
      ((st.next c).1 ++ (feed (st.next c).2 s).1, (feed (st.next c).2 s).2) := rfl

theorem feed_append (st : State) (s t : List Char) :
    feed st (s ++ t) = ((feed st s).1 ++ (feed (feed st s).2 t).1, (feed (feed st s).2 t).2) := by
  induction s generalizing st with
  | nil => rfl
  | cons c s ih => simp [feed_cons, ih]

@[simp] theorem args_nil (st : State) : args st [] = st.rest := rfl

theorem args_append (st : State) (s t : List Char) :
    args st (s ++ t) = (feed st s).1 ++ args (feed st s).2 t := by
  simp [args, feed_append]

theorem args_cons (st : State) (c : Char) (s : List Char) :
    args st (c :: s) = (st.next c).1 ++ args (st.next c).2 s := by
  simp [args, feed_cons]

/-! ## One character -/

@[simp] theorem next_backslash (st : State) :
    st.next '\\' = ([], .within st.arg st.quoting.settle (st.slashes + 1)) := rfl

theorem next_blank {st : State} (h : st.quoting ≠ .inside) : st.next ' ' = (st.rest, .between) := by
  simp [State.next, isBlank, h]

theorem next_blank_inside {st : State} (h : st.quoting = .inside) :
    st.next ' ' = ([], .within (st.text ++ [' ']) .inside 0) := by
  simp [State.next, h, Quoting.settle]

/-- A character without a meaning. -/
theorem next_other {st : State} {c : Char} (hs : c ≠ '\\') (hq : c ≠ '"')
    (hb : isBlank c = false ∨ st.quoting = .inside) :
    st.next c = ([], .within (st.text ++ [c]) st.quoting.settle 0) := by
  rcases hb with hb | hb
  · simp [State.next, hs, hq, hb]
  · simp [State.next, hs, hq, hb]

/-- Text without quotes and blanks, outside quotes, stands for itself. -/
theorem feed_outside {st : State} {s : List Char} (hst : st.quoting = .outside) (hne : s ≠ [])
    (hs : ∀ c ∈ s, c ≠ '"' ∧ isBlank c = false) :
    ∃ arg n, feed st s = ([], .within arg .outside n) ∧
      arg ++ List.replicate n '\\' = st.text ++ s := by
  induction s generalizing st with
  | nil => exact absurd rfl hne
  | cons c s ih =>
    have hc := hs c List.mem_cons_self
    have hnext : ∃ arg n, st.next c = ([], .within arg .outside n) ∧
        arg ++ List.replicate n '\\' = st.text ++ [c] := by
      by_cases hslash : c = '\\'
      · subst hslash
        refine ⟨st.arg, st.slashes + 1, ?_, ?_⟩
        · rw [next_backslash, hst]
          rfl
        · rw [State.text, List.replicate_succ', List.append_assoc]
      · refine ⟨st.text ++ [c], 0, ?_, List.append_nil _⟩
        rw [next_other hslash hc.1 (.inl hc.2), hst]
        rfl
    obtain ⟨arg, n, hn, htext⟩ := hnext
    rw [feed_cons, hn]
    by_cases hnil : s = []
    · subst hnil
      exact ⟨arg, n, rfl, htext⟩
    · have houtside : (State.within arg .outside n).quoting = .outside := rfl
      obtain ⟨arg', n', hfeed, htext'⟩ :=
        ih houtside hnil fun d hd => hs d (List.mem_cons_of_mem c hd)
      refine ⟨arg', n', by rw [hfeed]; rfl, ?_⟩
      rw [htext', State.text_within, htext, List.append_assoc, List.singleton_append]

/-! ## Weights -/

/-- The weight of a text. -/
def weight (s : List Char) : Nat := 2 * s.count '\\' + s.count '"'

@[simp] theorem weight_nil : weight [] = 0 := rfl

@[simp] theorem weight_append (s t : List Char) : weight (s ++ t) = weight s + weight t := by
  simp only [weight, List.count_append]
  omega

@[simp] theorem weight_replicate (n : Nat) : weight (List.replicate n '\\') = 2 * n := by
  simp [weight, List.count_replicate]

theorem weight_cons (c : Char) (s : List Char) : weight (c :: s) = weight [c] + weight s :=
  weight_append [c] s

@[simp] theorem weight_backslash : weight ['\\'] = 2 := rfl

@[simp] theorem weight_quote : weight ['"'] = 1 := rfl

theorem weight_other {c : Char} (hs : c ≠ '\\') (hq : c ≠ '"') : weight [c] = 0 := by
  simp [weight, hs, hq]

/-- The weight of arguments. -/
def weights (as : List (List Char)) : Nat := (as.map weight).sum

@[simp] theorem weights_nil : weights [] = 0 := rfl

@[simp] theorem weights_cons (a : List Char) (as : List (List Char)) :
    weights (a :: as) = weight a + weights as := rfl

@[simp] theorem weights_append (as bs : List (List Char)) :
    weights (as ++ bs) = weights as + weights bs := by
  simp [weights]

/-- The weight of what is known of an argument. -/
def State.weight (st : State) : Nat := CommandLine.weight st.arg + 2 * st.slashes

/-- A quote that comes right after the end of a quoted part adds to the argument. -/
def State.bonus (st : State) : Nat := if st.quoting = .closed then 1 else 0

theorem weight_text (st : State) : CommandLine.weight st.text = st.weight := by
  simp [State.text, State.weight]

theorem weights_rest (st : State) : weights st.rest = st.weight := by
  cases st with
  | between => rfl
  | within arg q n => simp [State.rest, State.weight, State.arg, State.slashes]

theorem Quoting.settle_ne_closed (q : Quoting) : q.settle ≠ .closed := by
  cases q <;> decide

/-- The weight of what is known after some text. -/
def weightAfter (st : State) (s : List Char) : Nat :=
  weights (feed st s).1 + (feed st s).2.weight

theorem weights_args (st : State) (s : List Char) : weights (args st s) = weightAfter st s := by
  rw [args, weights_append, weights_rest, weightAfter]

theorem weightAfter_cons (st : State) (c : Char) (s : List Char) :
    weightAfter st (c :: s) = weights (st.next c).1 + weightAfter (st.next c).2 s := by
  simp only [weightAfter, feed_cons, weights_append, Nat.add_assoc]

theorem weightAfter_append (st : State) (s t : List Char) :
    weightAfter st (s ++ t) = weights (feed st s).1 + weightAfter (feed st s).2 t := by
  simp only [weightAfter, feed_append, weights_append, Nat.add_assoc]

/-- What a quote does to the weight. -/
theorem weight_next_quote (st : State) :
    (st.next '"').1 = [] ∧
      (st.next '"').2.weight =
        CommandLine.weight st.arg + 2 * (st.slashes / 2) +
          (if st.slashes % 2 = 1 ∨ st.quoting = .closed then 1 else 0) ∧
      (st.next '"').2.slashes = 0 ∧
      ((st.next '"').2.quoting = .closed ↔ st.slashes % 2 = 0 ∧ st.quoting = .inside) := by
  rw [State.next, if_neg (by decide), if_pos rfl]
  dsimp only
  by_cases hodd : st.slashes % 2 = 1
  · rw [if_pos hodd, if_pos (.inl hodd)]
    refine ⟨rfl, by simp [State.weight, Nat.add_assoc], rfl, ?_⟩
    simp [st.quoting.settle_ne_closed, hodd]
  · have heven : st.slashes % 2 = 0 := by omega
    rw [if_neg hodd]
    cases hq : st.quoting with
    | outside => simp [State.weight, heven]
    | inside => simp [State.weight, heven]
    | closed => simp [State.weight, heven, Nat.add_assoc]

/-- A character other than a quote keeps the weight. -/
theorem weight_next_other (st : State) {c : Char} (hc : c ≠ '"') :
    weights (st.next c).1 + (st.next c).2.weight = st.weight + CommandLine.weight [c] ∧
      (st.next c).2.bonus = 0 := by
  by_cases hs : c = '\\'
  · subst hs
    rw [next_backslash]
    refine ⟨?_, if_neg st.quoting.settle_ne_closed⟩
    simp [State.weight, Nat.mul_add, Nat.add_assoc]
  · rw [State.next, if_neg hs, if_neg hc]
    split
    · refine ⟨?_, rfl⟩
      rw [weights_rest, weight_other hs hc]
      rfl
    · refine ⟨?_, if_neg st.quoting.settle_ne_closed⟩
      rw [weights_nil, Nat.zero_add, ← weight_text st]
      simp [State.weight]

theorem slashes_next_other (st : State) {c : Char} (hs : c ≠ '\\') (hq : c ≠ '"') :
    (st.next c).2.slashes = 0 := by
  rw [State.next, if_neg hs, if_neg hq]
  split <;> rfl

/-! ## The argument that has begun -/

theorem rest_of_ne {st : State} (h : st ≠ .between) : st.rest = [st.text] := by
  cases st with
  | between => exact absurd rfl h
  | within arg q n => rfl

/-- A character ends the argument or goes on with it. -/
theorem arg_prefix_next {st : State} (h : st ≠ .between) (c : Char) :
    (st.next c).1 = [st.text] ∨
      (st.next c).1 = [] ∧ (st.next c).2 ≠ .between ∧ st.arg <+: (st.next c).2.arg := by
  have hlong : ∀ s t, st.arg <+: st.arg ++ s ++ t :=
    fun s t => (List.prefix_append _ _).trans (List.prefix_append _ _)
  rw [State.next]
  split
  · exact .inr ⟨rfl, nofun, List.prefix_rfl⟩
  · split
    · refine .inr ?_
      dsimp only
      by_cases hodd : st.slashes % 2 = 1
      · rw [if_pos hodd]
        exact ⟨rfl, nofun, hlong _ _⟩
      · rw [if_neg hodd]
        cases st.quoting with
        | outside => exact ⟨rfl, nofun, List.prefix_append _ _⟩
        | inside => exact ⟨rfl, nofun, List.prefix_append _ _⟩
        | closed => exact ⟨rfl, nofun, hlong _ _⟩
    · split
      · exact .inl (rest_of_ne h)
      · exact .inr ⟨rfl, nofun, hlong _ _⟩

/-- What has been read of an argument stays its beginning. -/
theorem arg_prefix_args {st : State} (h : st ≠ .between) (s : List Char) :
    ∃ t ts, args st s = t :: ts ∧ st.arg <+: t := by
  induction s generalizing st with
  | nil => exact ⟨_, [], rest_of_ne h, List.prefix_append _ _⟩
  | cons c s ih =>
    rw [args_cons]
    rcases arg_prefix_next h c with hdone | ⟨hnil, hne, hpre⟩
    · exact ⟨_, _, by rw [hdone]; rfl, List.prefix_append _ _⟩
    · obtain ⟨t, ts, hargs, ht⟩ := ih hne
      exact ⟨t, ts, by rw [hnil, hargs]; rfl, hpre.trans ht⟩

end CommandLine
