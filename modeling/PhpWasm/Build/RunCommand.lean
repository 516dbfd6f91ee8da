import PhpWasm.Base.CommandLine
import PhpWasm.Build.Config
import PhpWasm.Build.Vendored

/-!
# Commands on Windows

`runCommand` starts a command through the shell on Windows, where the arguments become one command
line, which the program splits again.  An argument with white space or a quote in it is put in
quotes for that, its own quotes behind backslashes.

* `quoteArg` and `commandLine` are what `runCommand` does to the arguments.
* `commandLineRight_iff`: which lists of arguments come back.  The backslashes of an argument are
  not doubled, so that one right before a quote, or before the quote that is put at the end, is
  lost; and an empty argument is not quoted.
* The proof weighs what comes back: reading never adds weight (`weights_args_le`), and takes some
  away for every backslash that is read otherwise than it was meant (`weights_args_lt`).
-/

set_option autoImplicit false

namespace PhpWasm.Build

open CommandLine
open Vendored (Text)

/-! ## The function -/

/-- `/[\s"]/.test(arg)` -/
def needsQuotes (arg : Text) : Bool := arg.any fun c => isJsSpace c || c = '"'

/-- `arg.replace(/"/g, '\\"')` -/
def escapeQuotes (arg : Text) : Text := arg.flatMap fun c => if c = '"' then ['\\', '"'] else [c]

/-- An element of `quotedArgs`. -/
def quoteArg (arg : Text) : Text :=
  if needsQuotes arg then '"' :: (escapeQuotes arg ++ ['"']) else arg

/-- The command line after the command, as `spawn` joins it. -/
def commandLine (args : List Text) : Text := [' '].intercalate (args.map quoteArg)

/-- `quoteConfigArg` -/
def quoteConfigArg (name value : Text) : Text :=
  if value.any isJsSpace then name ++ ['=', '"'] ++ value ++ ['"'] else name ++ '=' :: value

/-! ## What is carried over -/

/-- No backslash comes before a quote, or before the end. -/
def Quotable (arg : Text) : Prop := ¬ ['\\', '"'] <:+: arg ∧ ¬ ['\\'] <:+ arg

instance (arg : Text) : Decidable (Quotable arg) := inferInstanceAs (Decidable (_ ∧ _))

/-- What can be carried over at any place. -/
def Carried (arg : Text) : Prop := arg ≠ [] ∧ (needsQuotes arg → Quotable arg)

/-- What can be carried over at the end only: the last quote of the line then stands for the
argument's last quote, and the quoted part goes on to the end. -/
def CarriedLast (arg : Text) : Prop := ∃ p, arg = p ++ ['\\', '"'] ∧ Quotable p

/-- The lists of arguments that come back. -/
def AllCarried (args : List Text) : Prop :=
  (∀ arg ∈ args.dropLast, Carried arg) ∧
    ∀ arg ∈ args.getLast?, Carried arg ∨ CarriedLast arg

/-! ### Backslashes and quotes -/

theorem quotable_nil : Quotable [] := by decide

theorem quotable_cons {c : Char} (hc : c ≠ '\\') (s : Text) : Quotable (c :: s) ↔ Quotable s := by
  simp [Quotable, List.infix_cons_iff, List.suffix_cons_iff, Ne.symm hc]

theorem quotable_backslash_cons (s : Text) :
    Quotable ('\\' :: s) ↔ s ≠ [] ∧ ¬ ['"'] <+: s ∧ Quotable s := by
  simp only [Quotable, List.infix_cons_iff, List.suffix_cons_iff, List.cons_prefix_cons,
    List.cons.injEq, true_and, not_or, eq_comm (a := []), Ne]
  tauto

theorem quotable_replicate (n : Nat) : Quotable (List.replicate n '\\') ↔ n = 0 := by
  induction n with
  | zero => simp [quotable_nil]
  | succ n ih =>
    rw [List.replicate_succ, quotable_backslash_cons, ih]
    constructor
    · rintro ⟨hne, -, rfl⟩
      exact absurd rfl hne
    · intro h
      cases h

theorem quotable_replicate_quote (n : Nat) (s : Text) :
    Quotable (List.replicate n '\\' ++ '"' :: s) ↔ n = 0 ∧ Quotable s := by
  induction n with
  | zero => simp [quotable_cons]
  | succ n ih =>
    rw [List.replicate_succ, List.cons_append, quotable_backslash_cons, ih]
    constructor
    · rintro ⟨-, hq, rfl, -⟩
      exact absurd (List.prefix_append ['"'] s) hq
    · rintro ⟨h, -⟩
      cases h

theorem quotable_replicate_other {c : Char} (hs : c ≠ '\\') (hq : c ≠ '"') (n : Nat) (s : Text) :
    Quotable (List.replicate n '\\' ++ c :: s) ↔ Quotable s := by
  induction n with
  | zero => exact quotable_cons hs s
  | succ n ih =>
    rw [List.replicate_succ, List.cons_append, quotable_backslash_cons, ih]
    have hhead : ¬ ['"'] <+: List.replicate n '\\' ++ c :: s := by
      cases n with
      | zero => simp [List.cons_prefix_cons, Ne.symm hq]
      | succ n => simp [List.replicate_succ, List.cons_prefix_cons]
    simp [hhead]

/-! ## What the rules make of a carried argument -/

theorem escapeQuotes_cons_quote (s : Text) :
    escapeQuotes ('"' :: s) = '\\' :: '"' :: escapeQuotes s := rfl

theorem escapeQuotes_cons {c : Char} (hc : c ≠ '"') (s : Text) :
    escapeQuotes (c :: s) = c :: escapeQuotes s := by
  simp [escapeQuotes, hc]

theorem escapeQuotes_append (s t : Text) :
    escapeQuotes (s ++ t) = escapeQuotes s ++ escapeQuotes t := List.flatMap_append

/-- Inside quotes, an argument that can be quoted is read as it was meant. -/
theorem feed_escapeQuotes {arg : Text} {n : Nat} {s : Text}
    (h : Quotable (List.replicate n '\\' ++ s)) :
    feed (.within arg .inside n) (escapeQuotes s) =
      ([], .within (arg ++ List.replicate n '\\' ++ s) .inside 0) := by
  induction s generalizing arg n with
  | nil =>
    rw [List.append_nil, quotable_replicate] at h
    subst h
    simp [escapeQuotes]
  | cons c s ih =>
    by_cases hs : c = '\\'
    · subst hs
      rw [escapeQuotes_cons (by decide), feed_cons, next_backslash]
      have hlist : List.replicate (n + 1) '\\' ++ s = List.replicate n '\\' ++ '\\' :: s := by
        rw [List.replicate_succ', List.append_assoc, List.singleton_append]
      rw [← hlist] at h
      simp only [State.arg_within, State.quoting_within, State.slashes_within, Quoting.settle]
      rw [ih h, List.append_assoc arg, hlist, List.append_assoc]
      rfl
    · by_cases hq : c = '"'
      · subst hq
        obtain ⟨rfl, hrest⟩ := (quotable_replicate_quote n s).1 h
        have hread : (State.within arg .inside (0 + 1)).next '"' =
            ([], .within (arg ++ ['"']) .inside 0) := by
          simp [State.next, Quoting.settle]
        rw [escapeQuotes_cons_quote, feed_cons, next_backslash, feed_cons]
        simp only [State.arg_within, State.quoting_within, State.slashes_within, Quoting.settle]
        rw [hread, @ih _ 0 hrest]
        simp
      · rw [escapeQuotes_cons hq, feed_cons, next_other hs hq (.inr rfl)]
        simp only [State.text_within, State.quoting_within, Quoting.settle]
        rw [@ih _ 0 ((quotable_replicate_other hs hq n s).1 h)]
        simp

theorem isJsSpace_of_isBlank {c : Char} (h : isBlank c = true) : isJsSpace c = true := by
  rw [isBlank, Bool.or_eq_true, decide_eq_true_iff, decide_eq_true_iff] at h
  rcases h with rfl | rfl
  · decide
  · decide

/-- An argument that is not quoted. -/
theorem feed_plain {arg : Text} (hne : arg ≠ []) (hq : needsQuotes arg = false) :
    ∃ a n, feed .between arg = ([], .within a .outside n) ∧
      a ++ List.replicate n '\\' = arg := by
  refine feed_outside rfl hne fun c hc => ?_
  have hplain : isJsSpace c = false ∧ c ≠ '"' := by
    simpa [needsQuotes] using List.any_eq_false.1 hq c hc
  exact ⟨hplain.2, Bool.eq_false_iff.2 fun hb => Bool.eq_false_iff.1 hplain.1
    (isJsSpace_of_isBlank hb)⟩

/-- An argument that is quoted, and can be. -/
theorem feed_quoted {arg : Text} (hq : needsQuotes arg = true) (h : Quotable arg) :
    feed .between (quoteArg arg) = ([], .within arg .closed 0) := by
  have hopen : State.between.next '"' = ([], .within [] .inside 0) := by decide
  have hclose : (State.within arg .inside 0).next '"' = ([], .within arg .closed 0) := by
    simp [State.next]
  have hread : feed (.within [] .inside 0) (escapeQuotes arg) = ([], .within arg .inside 0) :=
    feed_escapeQuotes h
  rw [quoteArg, if_pos hq, feed_cons, hopen, feed_append, hread, feed_cons, hclose]
  rfl

/-- An argument that ends in a backslash and a quote. -/
theorem feed_quoted_last {arg : Text} (h : CarriedLast arg) :
    feed .between (quoteArg arg) = ([], .within arg .inside 0) := by
  obtain ⟨p, rfl, h⟩ := h
  have hq : needsQuotes (p ++ ['\\', '"']) = true := by simp [needsQuotes]
  have hopen : State.between.next '"' = ([], .within [] .inside 0) := by decide
  have hread : feed (.within [] .inside 0) (escapeQuotes p) = ([], .within p .inside 0) :=
    feed_escapeQuotes h
  have hend : feed (.within p .inside 0) (escapeQuotes ['\\', '"'] ++ ['"']) =
      ([], .within (p ++ ['\\', '"']) .inside 0) := by
    simp [escapeQuotes, feed_cons, State.next, Quoting.settle]
  rw [quoteArg, if_pos hq, feed_cons, hopen, escapeQuotes_append, List.append_assoc, feed_append,
    hread, hend]
  rfl

/-- **A carried argument** comes back, at the end of the line and before a blank. -/
theorem args_quoteArg {arg : Text} (h : Carried arg) :
    args .between (quoteArg arg) = [arg] ∧
      ∀ s, args .between (quoteArg arg ++ ' ' :: s) = arg :: args .between s := by
  have hfeed : ∃ st, feed .between (quoteArg arg) = ([], st) ∧ st.quoting ≠ .inside ∧
      st.rest = [arg] := by
    by_cases hq : needsQuotes arg = true
    · exact ⟨_, feed_quoted hq (h.2 hq), (fun hst => by cases hst), by simp [State.rest]⟩
    · obtain ⟨a, n, hfeed, htext⟩ := feed_plain h.1 (Bool.eq_false_iff.2 hq)
      refine ⟨.within a .outside n, ?_, (fun hst => by cases hst), congrArg (fun t => [t]) htext⟩
      rw [quoteArg, if_neg hq, hfeed]
  obtain ⟨st, hst, hout, hrest⟩ := hfeed
  refine ⟨?_, fun s => ?_⟩
  · rw [args, hst, hrest]
    rfl
  · rw [args_append, hst, args_cons, next_blank hout, hrest]
    rfl

theorem commandLine_singleton (arg : Text) : commandLine [arg] = quoteArg arg := by
  simp [commandLine]

theorem commandLine_cons_cons (arg arg' : Text) (args : List Text) :
    commandLine (arg :: arg' :: args) = quoteArg arg ++ ' ' :: commandLine (arg' :: args) := by
  simp [commandLine, List.intercalate_cons_cons]

/-! ## What is lost otherwise -/

/-- The text can be quoted, where `n` backslashes come before it, or is what can be carried over at
the end only. -/
def Readable : Nat → Text → Prop
  | n, [] => n = 0
  | n, c :: s =>
    if c = '\\' then Readable (n + 1) s
    else if c = '"' then n = 0 ∧ Readable 0 s ∨ n = 1 ∧ s = []
    else Readable 0 s

theorem quotable_or_of_readable {n : Nat} {s : Text} (h : Readable n s) :
    Quotable (List.replicate n '\\' ++ s) ∨ CarriedLast (List.replicate n '\\' ++ s) := by
  induction s generalizing n with
  | nil =>
    rw [List.append_nil, quotable_replicate]
    exact .inl h
  | cons c s ih =>
    rw [Readable] at h
    split at h
    · rename_i hs
      subst hs
      have hlist : List.replicate (n + 1) '\\' ++ s = List.replicate n '\\' ++ '\\' :: s := by
        rw [List.replicate_succ', List.append_assoc, List.singleton_append]
      rw [← hlist]
      exact ih h
    · rename_i hs
      split at h
      · rename_i hq
        subst hq
        rcases h with ⟨rfl, h⟩ | ⟨rfl, rfl⟩
        · rcases ih h with h | ⟨p, hp, h⟩
          · exact .inl ((quotable_cons (by decide) s).2 h)
          · refine .inr ⟨'"' :: p, ?_, (quotable_cons (by decide) p).2 h⟩
            exact congrArg ('"' :: ·) hp
        · exact .inr ⟨[], rfl, quotable_nil⟩
      · rename_i hq
        rcases ih h with h | ⟨p, hp, h⟩
        · exact .inl ((quotable_replicate_other hs hq n s).2 h)
        · refine .inr ⟨List.replicate n '\\' ++ c :: p, ?_,
            (quotable_replicate_other hs hq n p).2 h⟩
          rw [List.append_assoc, List.cons_append]
          exact congrArg (fun t => List.replicate n '\\' ++ c :: t) hp

/-- Reading a character that was escaped. -/
theorem weight_feed_quote (st : State) :
    (feed st ['\\', '"']).1 = [] ∧
      (feed st ['\\', '"']).2.weight =
        weight st.arg + 2 * ((st.slashes + 1) / 2) + (st.slashes + 1) % 2 ∧
      (feed st ['\\', '"']).2.slashes = 0 ∧
      (feed st ['\\', '"']).2.bonus ≤ st.slashes % 2 := by
  obtain ⟨hnil, hweight, hslashes, hclosed⟩ :=
    weight_next_quote (.within st.arg st.quoting.settle (st.slashes + 1))
  simp only [State.arg_within, State.slashes_within, State.quoting_within,
    st.quoting.settle_ne_closed, or_false] at hweight hclosed
  rw [feed_cons, next_backslash, feed_cons, feed_nil, hnil]
  refine ⟨rfl, ?_, hslashes, ?_⟩
  · rw [hweight]
    split <;> omega
  · rw [State.bonus]
    split
    · rename_i hc
      have := (hclosed.1 hc).1
      omega
    · exact Nat.zero_le _

/-- The closing quote takes away some of the backslashes before it. -/
theorem weightAfter_close (st : State) :
    weightAfter st ['"'] ≤ st.weight + st.bonus ∧
      (1 ≤ st.slashes → weightAfter st ['"'] < st.weight + st.bonus) := by
  obtain ⟨hnil, hweight, -, -⟩ := weight_next_quote st
  rw [weightAfter_cons, hnil, weights_nil, Nat.zero_add, weightAfter, feed_nil, weights_nil,
    Nat.zero_add, hweight, State.weight, State.bonus]
  by_cases hc : st.quoting = .closed
  · rw [if_pos (.inr hc), if_pos hc]
    omega
  · rw [if_neg hc]
    split
    · rename_i hodd
      have := hodd.resolve_right hc
      omega
    · omega

/-- The weight when the quoted rest of an argument has been read. -/
theorem weightAfter_escapeQuotes_le (s : Text) (st : State) :
    weightAfter st (escapeQuotes s ++ ['"']) ≤
      st.weight + (if s = [] then st.bonus else 0) + weight s := by
  induction s generalizing st with
  | nil => exact (weightAfter_close st).1
  | cons c s ih =>
    rw [if_neg (List.cons_ne_nil c s), weight_cons]
    by_cases hq : c = '"'
    · subst hq
      obtain ⟨hnil, hweight, -, hbonus⟩ := weight_feed_quote st
      have hrest := ih (feed st ['\\', '"']).2
      have happ : escapeQuotes ('"' :: s) ++ ['"'] = ['\\', '"'] ++ (escapeQuotes s ++ ['"']) := rfl
      have hst : st.weight = weight st.arg + 2 * st.slashes := rfl
      rw [happ, weightAfter_append, hnil, weights_nil, weight_quote]
      split at hrest <;> omega
    · obtain ⟨hweight, hbonus⟩ := weight_next_other st hq
      have hrest := ih (st.next c).2
      rw [hbonus, ite_self] at hrest
      rw [escapeQuotes_cons hq, List.cons_append, weightAfter_cons]
      omega

/-- If the argument is not readable, something is lost. -/
theorem weightAfter_escapeQuotes_lt {s : Text} {st : State} (h : ¬ Readable st.slashes s) :
    weightAfter st (escapeQuotes s ++ ['"']) <
      st.weight + (if s = [] then st.bonus else 0) + weight s := by
  induction s generalizing st with
  | nil => exact (weightAfter_close st).2 (Nat.one_le_iff_ne_zero.2 h)
  | cons c s ih =>
    rw [if_neg (List.cons_ne_nil c s), weight_cons]
    rw [Readable] at h
    by_cases hq : c = '"'
    · subst hq
      rw [if_neg (by decide), if_pos rfl, not_or] at h
      obtain ⟨hnil, hweight, hslashes, hbonus⟩ := weight_feed_quote st
      have happ : escapeQuotes ('"' :: s) ++ ['"'] = ['\\', '"'] ++ (escapeQuotes s ++ ['"']) := rfl
      have hst : st.weight = weight st.arg + 2 * st.slashes := rfl
      rw [happ, weightAfter_append, hnil, weights_nil, weight_quote]
      by_cases hzero : st.slashes = 0
      · have hunread : ¬ Readable (feed st ['\\', '"']).2.slashes s := by
          rw [hslashes]
          exact fun hs => h.1 ⟨hzero, hs⟩
        have hrest := ih hunread
        split at hrest <;> omega
      · have hrest := weightAfter_escapeQuotes_le s (feed st ['\\', '"']).2
        split at hrest
        · rename_i hs
          have hone : st.slashes ≠ 1 := fun h1 => h.2 ⟨h1, hs⟩
          omega
        · omega
    · obtain ⟨hweight, hbonus⟩ := weight_next_other st hq
      have hunread : ¬ Readable (st.next c).2.slashes s := by
        by_cases hs : c = '\\'
        · subst hs
          rwa [if_pos rfl] at h
        · rwa [if_neg hs, if_neg hq, ← slashes_next_other st hs hq] at h
      have hrest := ih hunread
      rw [hbonus, ite_self] at hrest
      rw [escapeQuotes_cons hq, List.cons_append, weightAfter_cons]
      omega

/-- Between two arguments no backslashes and no quote are pending. -/
def Fresh (st : State) : Prop := st.slashes = 0 ∧ st.quoting ≠ .closed

theorem fresh_between : Fresh .between := ⟨rfl, nofun⟩

/-- A blank keeps the weight. -/
theorem weight_next_blank (st : State) :
    weights (st.next ' ').1 + (st.next ' ').2.weight = st.weight ∧ Fresh (st.next ' ').2 := by
  obtain ⟨hweight, hbonus⟩ := weight_next_other st (c := ' ') (by decide)
  refine ⟨hweight, slashes_next_other st (by decide) (by decide), fun hc => ?_⟩
  rw [State.bonus, if_pos hc] at hbonus
  cases hbonus

/-- Text without quotes keeps the weight. -/
theorem weightAfter_plain {s : Text} (hs : ∀ c ∈ s, c ≠ '"') (st : State) :
    weightAfter st s = st.weight + weight s := by
  induction s generalizing st with
  | nil => simp [weightAfter]
  | cons c s ih =>
    obtain ⟨hweight, -⟩ := weight_next_other st (hs c List.mem_cons_self)
    rw [weightAfter_cons, ih (fun d hd => hs d (List.mem_cons_of_mem c hd)), weight_cons]
    omega

/-- An argument that loses something wherever it stands. -/
def Lossy (arg : Text) : Prop := needsQuotes arg = true ∧ ¬ Readable 0 arg

/-- Reading an argument adds no weight. -/
theorem weightAfter_quoteArg {st : State} (hst : Fresh st) (arg : Text) :
    weightAfter st (quoteArg arg) ≤ st.weight + weight arg ∧
      (Lossy arg → weightAfter st (quoteArg arg) < st.weight + weight arg) := by
  by_cases hq : needsQuotes arg = true
  · obtain ⟨hnil, hweight, hslashes, -⟩ := weight_next_quote st
    have hopen : (st.next '"').2.weight = st.weight := by
      rw [hweight, State.weight, hst.1, if_neg (by simp [hst.2])]
    have hne : arg ≠ [] := by
      rintro rfl
      cases hq
    rw [quoteArg, if_pos hq, weightAfter_cons, hnil, weights_nil, Nat.zero_add, ← hopen]
    have hle := weightAfter_escapeQuotes_le arg (st.next '"').2
    rw [if_neg hne] at hle
    refine ⟨hle, fun hlossy => ?_⟩
    have hlt := @weightAfter_escapeQuotes_lt arg (st.next '"').2 (by rw [hslashes]; exact hlossy.2)
    rwa [if_neg hne] at hlt
  · have hplain : ∀ c ∈ arg, c ≠ '"' := by
      rintro c hc rfl
      exact hq (List.any_eq_true.2 ⟨'"', hc, by simp⟩)
    rw [quoteArg, if_neg hq, weightAfter_plain hplain]
    exact ⟨le_rfl, fun hlossy => absurd hlossy.1 hq⟩

/-- **Reading the line adds no weight**, and loses some where an argument is lossy. -/
theorem weightAfter_commandLine {st : State} (hst : Fresh st) (args : List Text) :
    weightAfter st (commandLine args) ≤ st.weight + weights args ∧
      ((∃ arg ∈ args, Lossy arg) →
        weightAfter st (commandLine args) < st.weight + weights args) := by
  induction args generalizing st with
  | nil =>
    refine ⟨by simp [commandLine, weightAfter], ?_⟩
    rintro ⟨arg, harg, -⟩
    cases harg
  | cons arg args ih =>
    obtain ⟨hle, hlt⟩ := weightAfter_quoteArg hst arg
    rw [weights_cons]
    cases args with
    | nil =>
      rw [commandLine_singleton, weights_nil]
      refine ⟨hle, ?_⟩
      rintro ⟨a, ha, hlossy⟩
      rw [List.mem_singleton.1 ha] at hlossy
      exact hlt hlossy
    | cons arg' args =>
      obtain ⟨hblank, hfresh⟩ := weight_next_blank (feed st (quoteArg arg)).2
      obtain ⟨hle', hlt'⟩ := ih hfresh
      rw [commandLine_cons_cons, weightAfter_append, weightAfter_cons]
      rw [weightAfter] at hle hlt
      refine ⟨by omega, ?_⟩
      rintro ⟨a, ha, hlossy⟩
      rcases List.mem_cons.1 ha with rfl | ha
      · have := hlt hlossy
        omega
      · have := hlt' ⟨a, ha, hlossy⟩
        omega

/-! ## The round trip -/

/-- What an argument can be that loses nothing. -/
theorem cases_of_not_lossy {arg : Text} (h : ¬ Lossy arg) :
    arg = [] ∨ Carried arg ∨ CarriedLast arg := by
  by_cases hne : arg = []
  · exact .inl hne
  · by_cases hq : needsQuotes arg = true
    · have hread : Readable 0 arg := not_not.1 fun hr => h ⟨hq, hr⟩
      rcases quotable_or_of_readable hread with hgood | hlast
      · exact .inr (.inl ⟨hne, fun _ => hgood⟩)
      · exact .inr (.inr hlast)
    · exact .inr (.inl ⟨hne, fun hq' => absurd hq' hq⟩)

/-- An argument that can be carried over at the end only takes in what comes after it. -/
theorem args_quoteArg_last {arg : Text} (h : CarriedLast arg) (s : Text) :
    ∃ t ts, args .between (quoteArg arg ++ ' ' :: s) = t :: ts ∧ arg ++ [' '] <+: t := by
  have hnext : (State.within arg .inside 0).next ' ' =
      ([], .within (arg ++ [' ']) .inside 0) := by
    rw [next_blank_inside rfl]
    simp
  rw [args_append, feed_quoted_last h, args_cons, hnext]
  exact @arg_prefix_args (.within (arg ++ [' ']) .inside 0) nofun s

theorem quoteArg_nil : quoteArg [] = [] := rfl

theorem split_blank (s : Text) : split (' ' :: s) = split s := rfl

/-- No argument that comes back first is empty. -/
theorem head_ne_nil {args : List Text} (hargs : ∀ arg ∈ args, ¬ Lossy arg) {t : Text}
    {ts : List Text} (h : split (commandLine args) = t :: ts) : t ≠ [] := by
  induction args with
  | nil => cases h
  | cons arg args ih =>
    rcases cases_of_not_lossy (hargs arg List.mem_cons_self) with rfl | hcarried | hlast
    · cases args with
      | nil => cases h
      | cons arg' args =>
        rw [commandLine_cons_cons, quoteArg_nil, List.nil_append, split_blank] at h
        exact ih (fun a ha => hargs a (List.mem_cons_of_mem _ ha)) h
    · obtain ⟨hend, hblank⟩ := args_quoteArg hcarried
      cases args with
      | nil =>
        rw [commandLine_singleton, split, hend] at h
        exact (List.cons.inj h).1 ▸ hcarried.1
      | cons arg' args =>
        rw [commandLine_cons_cons, split, hblank] at h
        exact (List.cons.inj h).1 ▸ hcarried.1
    · have hprefix : arg <+: t := by
        cases args with
        | nil =>
          rw [commandLine_singleton, split, CommandLine.args, feed_quoted_last hlast] at h
          rw [← (List.cons.inj h).1]
          exact List.prefix_append _ _
        | cons arg' args =>
          obtain ⟨u, us, hargs', hpre⟩ := args_quoteArg_last hlast (commandLine (arg' :: args))
          rw [commandLine_cons_cons, split, hargs'] at h
          rw [← (List.cons.inj h).1]
          exact (List.prefix_append _ _).trans hpre
      obtain ⟨p, rfl, -⟩ := hlast
      rintro rfl
      simp at hprefix

theorem allCarried_singleton (arg : Text) :
    AllCarried [arg] ↔ Carried arg ∨ CarriedLast arg := by
  simp [AllCarried]

theorem allCarried_cons_cons (arg arg' : Text) (args : List Text) :
    AllCarried (arg :: arg' :: args) ↔ Carried arg ∧ AllCarried (arg' :: args) := by
  simp [AllCarried, List.dropLast_cons_cons, and_assoc]

theorem allCarried_of_split {args : List Text} (hargs : ∀ arg ∈ args, ¬ Lossy arg)
    (h : split (commandLine args) = args) : AllCarried args := by
  induction args with
  | nil => simp [AllCarried]
  | cons arg args ih =>
    have hrest : ∀ a ∈ args, ¬ Lossy a := fun a ha => hargs a (List.mem_cons_of_mem _ ha)
    have hcases := cases_of_not_lossy (hargs arg List.mem_cons_self)
    cases args with
    | nil =>
      rw [allCarried_singleton]
      refine hcases.resolve_left ?_
      rintro rfl
      cases h
    | cons arg' args =>
      rw [allCarried_cons_cons]
      rw [commandLine_cons_cons] at h
      rcases hcases with rfl | hcarried | hlast
      · rw [quoteArg_nil, List.nil_append, split_blank] at h
        exact absurd rfl (head_ne_nil hrest h)
      · rw [split, (args_quoteArg hcarried).2] at h
        exact ⟨hcarried, ih hrest (List.cons.inj h).2⟩
      · -- the blank that follows belongs to the argument then
        obtain ⟨t, ts, hargs', hpre⟩ := args_quoteArg_last hlast (commandLine (arg' :: args))
        rw [split, hargs'] at h
        rw [(List.cons.inj h).1] at hpre
        have := hpre.length_le
        rw [List.length_append, List.length_singleton] at this
        omega

theorem split_of_allCarried {args : List Text} (h : AllCarried args) :
    split (commandLine args) = args := by
  induction args with
  | nil => rfl
  | cons arg args ih =>
    cases args with
    | nil =>
      rw [commandLine_singleton, split]
      rcases (allCarried_singleton arg).1 h with hcarried | hlast
      · exact (args_quoteArg hcarried).1
      · rw [CommandLine.args, feed_quoted_last hlast]
        simp [State.rest]
    | cons arg' args =>
      obtain ⟨hcarried, hrest⟩ := (allCarried_cons_cons arg arg' args).1 h
      rw [commandLine_cons_cons, split, (args_quoteArg hcarried).2, ← split, ih hrest]

/-! ## Configuration pairs -/

theorem quotable_append_of_notMem {s : Text} (h : '\\' ∉ s) (t : Text) :
    Quotable (s ++ t) ↔ Quotable t := by
  induction s with
  | nil => rfl
  | cons c s ih =>
    rw [List.mem_cons, not_or] at h
    rw [List.cons_append, quotable_cons (Ne.symm h.1), ih h.2]

theorem quotable_concat_quote {s : Text} (h : '"' ∉ s) :
    Quotable (s ++ ['"']) ↔ ¬ ['\\'] <:+ s := by
  induction s with
  | nil => decide
  | cons c s ih =>
    rw [List.mem_cons, not_or] at h
    rw [List.cons_append, List.suffix_cons_iff, not_or, ← ih h.2]
    by_cases hc : c = '\\'
    · subst hc
      rw [quotable_backslash_cons]
      cases s with
      | nil => decide
      | cons d s =>
        have hd : ¬ '"' = d := fun hd => h.2 (hd ▸ List.mem_cons_self)
        simp [List.cons_prefix_cons, hd]
    · simp [quotable_cons hc, Ne.symm hc]

/-- A pair whose value has blanks comes back, as one of several arguments, unless the value ends in
a backslash. -/
theorem carried_quoteConfigArg_iff {name value : Text} (hname : '\\' ∉ name)
    (hspace : value.any isJsSpace = true) (hvalue : '"' ∉ value) :
    Carried (quoteConfigArg name value) ↔ ¬ ['\\'] <:+ value := by
  have hquotes : needsQuotes (quoteConfigArg name value) = true := by
    simp [quoteConfigArg, hspace, needsQuotes]
  have hne : quoteConfigArg name value ≠ [] := by
    simp [quoteConfigArg, hspace]
  have hpre : '\\' ∉ name ++ ['=', '"'] := by simp [hname]
  rw [Carried, quoteConfigArg, if_pos hspace, List.append_assoc (name ++ ['=', '"']),
    quotable_append_of_notMem hpre, quotable_concat_quote hvalue, ← List.append_assoc]
  rw [quoteConfigArg, if_pos hspace] at hquotes hne
  exact ⟨fun h => h.2 hquotes, fun h => ⟨hne, fun _ => h⟩⟩

/-! ## The result -/

/-- **Which lists of arguments come back.** -/
theorem commandLineRight_iff (args : List Text) :
    split (commandLine args) = args ↔ AllCarried args := by
  constructor
  · intro h
    refine allCarried_of_split (fun arg harg hlossy => ?_) h
    have hlt := (weightAfter_commandLine fresh_between args).2 ⟨arg, harg, hlossy⟩
    have hweight := weights_args .between (commandLine args)
    rw [← split, h] at hweight
    have hzero : State.between.weight = 0 := rfl
    omega
  · exact split_of_allCarried

/-- A path with a blank that ends in a backslash swallows what comes after it. -/
theorem windows_path_not_right :
    split (commandLine ["--source".toList, "C:\\my ext\\".toList, "--name".toList]) ≠
      ["--source".toList, "C:\\my ext\\".toList, "--name".toList] := by
  decide

end PhpWasm.Build
