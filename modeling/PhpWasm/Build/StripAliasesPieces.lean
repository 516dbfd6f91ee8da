import PhpWasm.Build.StripAliases

/-!
# What the regular expressions find in a statement

An alias statement is found where it stands and nowhere else, and so is a declaration.  This is seen
by cutting both into words and what is between them: a match begins with a word, and what follows
this word tells the words of the two statements apart.

* `aliasMatcher_self`, `varMatcher_decl`: a statement is found as a whole.
* `quiet_aliasAt_text`, `quiet_aliasAt_decl`, `quiet_varMatcher_text`: in the other statements
  nothing is found.
* `quiet_calledMatcher_text`, `closed_calledMatcher`: no name is called in an alias statement, and
  what follows a piece does not matter for the calls in it.
-/

set_option autoImplicit false

namespace PhpWasm.Build.StripAliases

open Vendored (Text)
open Matching (Matcher Quiet Closed before)
open Scan (forall_mem_of_all strip strip_append strip_eq_some)

/-! ## Characters -/

theorem isJsSpace_of_isWord {c : Char} (h : isWord c = true) : isJsSpace c = false := by
  have hrange : (48 ≤ c.toNat ∧ c.toNat ≤ 57) ∨ (65 ≤ c.toNat ∧ c.toNat ≤ 90) ∨
      (97 ≤ c.toNat ∧ c.toNat ≤ 122) ∨ c.toNat = 95 ∨ c.toNat = 36 := by
    rw [isWord, Bool.or_eq_true, Bool.or_eq_true, beq_iff_eq, beq_iff_eq] at h
    rcases h with (h | rfl) | rfl
    · have halnum : c.isAlphanum = ((decide (65 ≤ c.toNat ∧ c.toNat ≤ 90) ||
          (decide (97 ≤ c.toNat) && decide (c.toNat ≤ 122))) ||
            (decide (48 ≤ c.toNat) && decide (c.toNat ≤ 57))) := rfl
      simp only [halnum, Bool.or_eq_true, Bool.and_eq_true, decide_eq_true_eq] at h
      omega
    · decide
    · decide
  rw [isJsSpace]
  simp
  omega

theorem isWord_eq_false_of_isJsSpace {c : Char} (h : isJsSpace c = true) : isWord c = false := by
  by_contra hword
  rw [isJsSpace_of_isWord (by simpa using hword)] at h
  cases h

theorem isJsSpace_of_isBlank {c : Char} (h : isBlank c = true) : isJsSpace c = true := by
  rw [isBlank, Bool.or_eq_true, beq_iff_eq, beq_iff_eq] at h
  rcases h with rfl | rfl <;> decide

theorem isWord_quote (q : Quote) : isWord q.char = false := by
  have hq := q.isQuote
  rw [Bool.or_eq_true, beq_iff_eq, beq_iff_eq] at hq
  rcases hq with h | h <;> rw [h] <;> decide

theorem isJsSpace_quote (q : Quote) : isJsSpace q.char = false := by
  have hq := q.isQuote
  rw [Bool.or_eq_true, beq_iff_eq, beq_iff_eq] at hq
  rcases hq with h | h <;> rw [h] <;> decide

theorem skipSpace_cons {c : Char} (h : isJsSpace c = false) (s : Text) :
    skipSpace (c :: s) = c :: s := by
  rw [skipSpace, List.dropWhile_cons, h]
  rfl

theorem skipSpace_gap {w : Text} (hw : ∀ c ∈ w, isJsSpace c = true) (s : Text) :
    skipSpace (w ++ s) = skipSpace s := List.dropWhile_append_of_pos hw

/-- A word is told from what follows. -/
theorem word_append_inj {x y s t : Text} (hx : ∀ c ∈ x, isWord c = true)
    (hy : ∀ c ∈ y, isWord c = true) (hs : s.head?.any isWord = false)
    (ht : t.head?.any isWord = false) (h : x ++ s = y ++ t) : x = y ∧ s = t := by
  have htake : ∀ {x s : Text}, (∀ c ∈ x, isWord c = true) → s.head?.any isWord = false →
      (x ++ s).takeWhile isWord = x := by
    intro x s hx hs
    rw [List.takeWhile_append_of_pos hx]
    match s with
    | [] => simp
    | c :: s =>
      rw [List.takeWhile_cons, show isWord c = false from hs]
      simp
  have hxy : x = y := by rw [← htake hx hs, h, htake hy ht]
  subst hxy
  exact ⟨rfl, List.append_cancel_left h⟩

/-! ## Where an alias statement begins -/

/-- An alias statement begins with its name, and `=` follows. -/
theorem aliasStatement_some {x s r : Text} (h : aliasStatement x s = some r) :
    ∃ t, s = x ++ t ∧ (skipSpace t).head? = some '=' := by
  rw [aliasStatement] at h
  obtain ⟨t, ht, h⟩ := Option.bind_eq_some_iff.1 h
  obtain ⟨u, hu, -⟩ := Option.bind_eq_some_iff.1 h
  refine ⟨t, strip_eq_some.1 ht, ?_⟩
  rw [strip_eq_some.1 hu]
  rfl

/-- What is in front of the `=` is no word. -/
theorem head_of_skipSpace {t : Text} (h : (skipSpace t).head? = some '=') :
    t.head?.any isWord = false := by
  match t with
  | [] => rfl
  | c :: t =>
    cases hc : isJsSpace c with
    | true => exact isWord_eq_false_of_isJsSpace hc
    | false =>
      rw [skipSpace_cons hc] at h
      cases h
      rfl

variable {x : Word} {p : Option Char} {s t w : Text} {c : Char}

theorem aliasAt_of_not_word (h : isWord c = false) (p : Option Char) (s : Text) :
    aliasAt x.text p (c :: s) = none := by
  rw [aliasAt]
  split
  · rfl
  · rw [Option.map_eq_none_iff, Option.eq_none_iff_forall_ne_some]
    intro r hr
    obtain ⟨t, ht, -⟩ := aliasStatement_some hr
    obtain ⟨d, y, hy⟩ := List.exists_cons_of_ne_nil x.ne_nil
    rw [hy, List.cons_append] at ht
    rw [(List.cons.inj ht).1, x.isWord d (by rw [hy]; exact List.mem_cons_self)] at h
    cases h

/-- No alias statement begins with what is no word. -/
theorem quiet_aliasAt_of_not_word (h : ∀ c ∈ t, isWord c = false) :
    Quiet (aliasAt x.text) p t s := by
  refine Matching.quiet_of_forall fun p u c v heq => aliasAt_of_not_word (h c ?_) p _
  rw [heq]
  simp

/-- Nor does one begin with a word that no `=` follows. -/
theorem quiet_aliasAt_of_word (h : ∀ c ∈ t, isWord c = true) (hs : s.head?.any isWord = false)
    (hstop : (skipSpace s).head? ≠ some '=') : Quiet (aliasAt x.text) p t s := by
  refine Matching.quiet_of_forall fun p u c v heq => ?_
  rw [aliasAt]
  split
  · rfl
  · rw [Option.map_eq_none_iff, Option.eq_none_iff_forall_ne_some]
    intro r hr
    obtain ⟨r', hr', hhead⟩ := aliasStatement_some hr
    have hv : ∀ d ∈ c :: v, isWord d = true := fun d hd => h d (by rw [heq]; simp_all)
    obtain ⟨-, rfl⟩ := word_append_inj hv x.isWord hs (head_of_skipSpace hhead) hr'
    exact hstop hhead

/-- Inside a word the look-behind fails. -/
theorem quiet_aliasAt_inside (hc : isWord c = true) (ht : ∀ c ∈ t, isWord c = true) :
    Quiet (aliasAt x.text) (some c) t s := by
  induction t generalizing c with
  | nil => trivial
  | cons d t ih =>
    exact ⟨if_pos hc, ih (ht d List.mem_cons_self) fun e he => ht e (List.mem_cons_of_mem d he)⟩

/-- Nor with another name. -/
theorem quiet_aliasAt_of_ne (h : ∀ c ∈ t, isWord c = true) (hne : t ≠ x.text)
    (hs : s.head?.any isWord = false) : Quiet (aliasAt x.text) p t s := by
  match t with
  | [] => trivial
  | c :: t =>
    refine ⟨?_, ?_⟩
    · rw [aliasAt]
      split
      · rfl
      · rw [Option.map_eq_none_iff, Option.eq_none_iff_forall_ne_some]
        intro r hr
        obtain ⟨r', hr', hhead⟩ := aliasStatement_some hr
        exact hne (word_append_inj h x.isWord hs (head_of_skipSpace hhead) hr').1
    · exact quiet_aliasAt_inside (h c List.mem_cons_self) fun e he =>
        h e (List.mem_cons_of_mem c he)

theorem jsName_isWord (a : Alias) : ∀ c ∈ a.jsName, isWord c = true := by
  intro c hc
  rcases List.mem_cons.1 hc with rfl | hc
  · exact a.first_isWord
  · exact a.isWord c hc

/-- In front of a word there is a word or white space. -/
theorem head_gap {w : Text} (hw : ∀ c ∈ w, isJsSpace c = true) (hs : s.head?.any isWord = false) :
    (w ++ s).head?.any isWord = false := by
  match w with
  | [] => exact hs
  | c :: w => exact isWord_eq_false_of_isJsSpace (hw c List.mem_cons_self)

theorem gap_not_word (g : Gap) : ∀ c ∈ g.text, isWord c = false := fun c hc =>
  isWord_eq_false_of_isJsSpace (g.isSpace c hc)

/-- Behind the name of the variable there are words that nothing but punctuation follows. -/
theorem quiet_value {m : Matcher Char} (hnot : ∀ p t s, (∀ c ∈ t, isWord c = false) → Quiet m p t s)
    (hword : ∀ p t c s, (∀ c ∈ t, isWord c = true) → isWord c = false → isJsSpace c = false →
      c ≠ '=' → c ≠ '(' → Quiet m p t (c :: s)) (a : Alias) (p : Option Char) (s : Text) :
    Quiet m p (a.value ++ a.lineEnd) s := by
  have hknown : ∀ t, (t.all fun c => decide (isWord c = false)) = true → ∀ p s, Quiet m p t s :=
    fun t ht p s => hnot p t s (forall_mem_of_all ht)
  have hline : (a.lineEnd.all fun c => decide (isWord c = false)) = true := by
    rw [Alias.lineEnd]
    split <;> decide
  have hgap : ∀ i p s, Quiet m p (a.gaps i).text s := fun i p s => hnot p _ s (gap_not_word _)
  have hquote : ∀ i p s, Quiet m p [(a.quotes i).char] s := fun i p s =>
    hnot p _ s fun c hc => List.mem_singleton.1 hc ▸ isWord_quote _
  have hquoted : ∀ t, (∀ c ∈ t, isWord c = true) → ∀ i p s,
      Quiet m p t ((a.quotes i).char :: s) := by
    intro t ht i p s
    have hq : ∀ c, (a.quotes i).char = c → (c == '\'' || c == '"') = true := by
      rintro c rfl
      exact (a.quotes i).isQuote
    exact hword p t _ s ht (isWord_quote _) (isJsSpace_quote _)
      (fun heq => by cases hq _ heq) fun heq => by cases hq _ heq
  have hobject : ∀ t, (t.all fun c => decide (isWord c = true)) = true → ∀ p s,
      Quiet m p t ('[' :: s) := fun t ht p s =>
    hword p t '[' s (forall_mem_of_all ht) (by decide) (by decide) (by decide) (by decide)
  simp only [Alias.value, List.append_assoc, Matching.quiet_append]
  refine ⟨hgap 0 _ _, hknown _ (by decide) _ _, hgap 1 _ _, hobject _ (by decide) _ _,
    hknown _ (by decide) _ _, hquote 0 _ _, hquoted _ (jsName_isWord a) 1 _ _, hquote 1 _ _,
    hknown _ (by decide) _ _, hgap 2 _ _, hknown _ (by decide) _ _, hgap 3 _ _,
    hobject _ (by decide) _ _, hknown _ (by decide) _ _, hquote 2 _ _, hquoted _ a.isWord 3 _ _,
    hquote 3 _ _, hknown _ (by decide) _ _, hgap 4 _ _, hknown _ (by decide) _ _,
    hknown _ hline _ _⟩

theorem quiet_aliasAt_value (a : Alias) (p : Option Char) (s : Text) :
    Quiet (aliasAt x.text) p (a.value ++ a.lineEnd) s := by
  refine quiet_value (fun p t s => quiet_aliasAt_of_not_word) (fun p t c s ht hc hspace heq _ => ?_)
    a p s
  refine quiet_aliasAt_of_word ht hc ?_
  rw [skipSpace_cons hspace]
  simpa using heq

theorem head_value (a : Alias) (s : Text) :
    ((a.value ++ a.lineEnd) ++ s).head?.any isWord = false := by
  rw [Alias.value, List.append_assoc, List.append_assoc]
  exact head_gap (a.gaps 0).isSpace rfl

/-- The name ends where no word goes on. -/
theorem takeWhile_jsName (a : Alias) (hs : s.head?.any isWord = false) :
    (a.jsName ++ s).takeWhile isWord = a.jsName := by
  rw [List.takeWhile_append_of_pos (jsName_isWord a)]
  rcases s with _ | ⟨c, s⟩
  · simp
  · rw [List.head?_cons, Option.any_some] at hs
    rw [List.takeWhile_cons_of_neg (by simp [hs]), List.append_nil]

theorem indent_not_word (a : Alias) : ∀ c ∈ a.indent, isWord c = false := fun c hc =>
  isWord_eq_false_of_isJsSpace (isJsSpace_of_isBlank (a.isBlank c hc))

/-- The alias statement for another name is passed over. -/
theorem quiet_aliasAt_text {a : Alias} (hne : a.jsName ≠ x.text) (p : Option Char) (s : Text) :
    Quiet (aliasAt x.text) p a.text s := by
  rw [Alias.text, Matching.quiet_append, Matching.quiet_append]
  exact ⟨quiet_aliasAt_of_not_word (indent_not_word a),
    quiet_aliasAt_of_ne (jsName_isWord a) hne (head_value a s), quiet_aliasAt_value a _ s⟩

/-- An alias statement is recognised. -/
theorem aliasStatement_self (a : Alias) (s : Text) :
    aliasStatement a.jsName (a.jsName ++ (a.value ++ s)) = some s := by
  have hq : ∀ i s, quote ([(a.quotes i).char] ++ s) = some s := fun i s =>
    if_pos (a.quotes i).isQuote
  have hgap : ∀ i c s, isJsSpace c = false → skipSpace ((a.gaps i).text ++ c :: s) = c :: s := by
    intro i c s hc
    rw [skipSpace_gap (a.gaps i).isSpace, skipSpace_cons hc]
  have hequal : ∀ i s, skipSpace ((a.gaps i).text ++ ("=".toList ++ s)) = "=".toList ++ s :=
    fun i s => hgap i '=' s (by decide)
  have hmodule : ∀ i s, skipSpace ((a.gaps i).text ++ ("Module".toList ++ ("[".toList ++ s))) =
      "Module[".toList ++ s := fun i s => hgap i 'M' _ (by decide)
  have hexports : ∀ i s,
      skipSpace ((a.gaps i).text ++ ("wasmExports".toList ++ ("[".toList ++ s))) =
        "wasmExports[".toList ++ s := fun i s => hgap i 'w' _ (by decide)
  have hend : ∀ i s, skipSpace ((a.gaps i).text ++ (";".toList ++ s)) = ";".toList ++ s :=
    fun i s => hgap i ';' s (by decide)
  have hname : a.jsName.drop 1 = a.wasmName := rfl
  simp only [aliasStatement, Alias.value, List.append_assoc, strip_append, Option.bind_eq_bind,
    Option.bind_some, hequal, hmodule, hexports, hend, hq, hname]

/-- No word goes on from `p` into a text. -/
def Breaks (p : Option Char) (s : Text) : Prop :=
  p.any isWord = true → s.head?.any isWord = false

theorem breaks_none (s : Text) : Breaks none s := fun h => by cases h

theorem breaks_of_not_word (h : p.any isWord = false) (s : Text) : Breaks p s := fun hp => by
  rw [h] at hp
  cases hp

/-- A text that begins with a word. -/
theorem Breaks.not_word (hp : Breaks p (c :: s)) (hc : isWord c = true) : p.any isWord = false := by
  by_contra hword
  have := hp (by simpa using hword)
  rw [List.head?_cons, Option.any_some, hc] at this
  cases this

/-- What is not seen at a place where a word ends. -/
theorem quiet_of_breaks {m : Matcher Char} (hm : ∀ p c s, isWord c = false → m p (c :: s) = none)
    (hp : Breaks p (t ++ s)) (h : ∀ p, p.any isWord = false → Quiet m p t s) : Quiet m p t s := by
  cases hword : p.any isWord with
  | false => exact h p hword
  | true =>
    match t with
    | [] => trivial
    | c :: t => exact ⟨hm p c _ (hp hword), (h none rfl).2⟩

theorem before_not_word (hp : p.any isWord = false) (ht : ∀ c ∈ t, isWord c = false) :
    (before p t).any isWord = false := by
  induction t generalizing p with
  | nil => exact hp
  | cons c t ih => exact ih (ht c List.mem_cons_self) fun d hd => ht d (List.mem_cons_of_mem c hd)

theorem text_append (a : Alias) (s : Text) :
    a.text ++ s = a.indent ++ a.first :: (a.wasmName ++ (a.value ++ (a.lineEnd ++ s))) := by
  simp [Alias.text, Alias.jsName]

/-- In front of the name there is no word. -/
theorem before_indent (a : Alias) (hp : Breaks p (a.text ++ s)) :
    (before p a.indent).any isWord = false := by
  rw [text_append] at hp
  match hindent : a.indent with
  | [] =>
    rw [hindent] at hp
    exact hp.not_word a.first_isWord
  | c :: w =>
    have hblank : ∀ d ∈ c :: w, isWord d = false := hindent ▸ indent_not_word a
    exact before_not_word (p := some c) (hblank c List.mem_cons_self) fun d hd =>
      hblank d (List.mem_cons_of_mem c hd)

/-- An alias statement is cut out with its indentation, and with a line break behind it. -/
theorem aliasMatcher_self (a : Alias) (hp : Breaks p (a.text ++ s)) :
    aliasMatcher a.jsName p (a.text ++ s) =
      some ([], if a.newline then s else skipNewline s) := by
  have htext := text_append a s
  have hfirst : ¬ isBlank a.first = true := fun hblank => by
    have hword := isWord_eq_false_of_isJsSpace (isJsSpace_of_isBlank hblank)
    rw [a.first_isWord] at hword
    cases hword
  have htake : (a.text ++ s).takeWhile isBlank = a.indent := by
    rw [htext, List.takeWhile_append_of_pos a.isBlank, List.takeWhile_cons_of_neg hfirst,
      List.append_nil]
  have hdrop : (a.text ++ s).dropWhile isBlank = a.jsName ++ (a.value ++ (a.lineEnd ++ s)) := by
    rw [htext, List.dropWhile_append_of_pos a.isBlank, List.dropWhile_cons_of_neg hfirst]
    rfl
  have hline : skipNewline (a.lineEnd ++ s) = if a.newline then s else skipNewline s := by
    rw [Alias.lineEnd]
    split <;> rfl
  rw [aliasMatcher, htake, hdrop, aliasAt, before_indent a hp, if_neg Bool.false_ne_true,
    aliasStatement_self, Option.map_some, Option.map_some, hline]

theorem aliasMatcher_blank (h : isBlank c = true) (y : Text) (p : Option Char) (s : Text) :
    aliasMatcher y p (c :: s) = aliasMatcher y (some c) s := by
  rw [aliasMatcher, aliasMatcher, List.takeWhile_cons, List.dropWhile_cons, h]
  rfl

theorem aliasMatcher_not_blank (h : isBlank c = false) {y : Text}
    (hnone : aliasAt y p (c :: s) = none) : aliasMatcher y p (c :: s) = none := by
  rw [aliasMatcher, List.takeWhile_cons, List.dropWhile_cons, h]
  exact congrArg (Option.map _) hnone

/-- The blanks in front of an alias statement are its own. -/
theorem quiet_aliasMatcher (h : Quiet (aliasAt x.text) p t s)
    (hlast : ∀ c ∈ t.getLast?, isBlank c = true → aliasMatcher x.text (some c) s = none) :
    Quiet (aliasMatcher x.text) p t s := by
  induction t generalizing p with
  | nil => trivial
  | cons c t ih =>
    have hrest : Quiet (aliasMatcher x.text) (some c) t s := by
      refine ih h.2 fun d hd => hlast d ?_
      rw [List.getLast?_cons]
      simp_all
    refine ⟨?_, hrest⟩
    cases hc : isBlank c with
    | false => exact aliasMatcher_not_blank hc h.1
    | true =>
      rw [aliasMatcher_blank hc]
      match t, hrest with
      | [], _ => exact hlast c rfl hc
      | d :: t, hrest => exact hrest.1

/-! ## Where a declaration begins -/

variable {names : List Text}

/-- A declaration begins with `var`, and a name follows. -/
theorem varMatcher_some {m : Text × Text} (h : varMatcher names p s = some m) :
    ∃ c t, s = "var".toList ++ c :: t ∧ isJsSpace c = true ∧
      (skipSpace (c :: t)).head?.any isWord = true := by
  rw [varMatcher] at h
  split at h
  · cases h
  · obtain ⟨t, ht, h⟩ := Option.bind_eq_some_iff.1 h
    obtain ⟨u, hu, h⟩ := Option.bind_eq_some_iff.1 h
    obtain ⟨w, hw, -⟩ := Option.bind_eq_some_iff.1 h
    rw [someSpace] at hu
    split at hu
    · cases hu
    · rename_i hspace
      cases hu
      match t, ht, hspace, hw with
      | [], _, hspace, _ => exact absurd rfl hspace
      | c :: t, ht, hspace, hw =>
        have hc : isJsSpace c = true := by
          by_contra hc
          rw [List.takeWhile_cons, Bool.not_eq_true] at *
          rw [hc] at hspace
          exact hspace rfl
        refine ⟨c, t, strip_eq_some.1 ht, hc, ?_⟩
        rw [wordRun] at hw
        split at hw
        · cases hw
        · rename_i hrun
          rcases hskip : skipSpace (c :: t) with _ | ⟨d, r⟩
          · rw [hskip] at hrun
            exact absurd rfl hrun
          · rw [hskip, List.takeWhile_cons] at hrun
            by_contra hd
            rw [List.head?_cons, Option.any_some, Bool.not_eq_true] at hd
            rw [hd] at hrun
            exact hrun rfl

theorem varMatcher_of_not_word (h : isWord c = false) (p : Option Char) (s : Text) :
    varMatcher names p (c :: s) = none := by
  rw [Option.eq_none_iff_forall_ne_some]
  intro m hm
  obtain ⟨d, t, heq, -⟩ := varMatcher_some hm
  rw [(List.cons.inj heq).1] at h
  cases h

theorem quiet_varMatcher_of_not_word (h : ∀ c ∈ t, isWord c = false) :
    Quiet (varMatcher names) p t s := by
  refine Matching.quiet_of_forall fun p u c v heq => varMatcher_of_not_word (h c ?_) p _
  rw [heq]
  simp

/-- No declaration begins with a word that no other word follows. -/
theorem quiet_varMatcher_of_word (h : ∀ c ∈ t, isWord c = true) (hs : s.head?.any isWord = false)
    (hstop : (skipSpace s).head?.any isWord = false) : Quiet (varMatcher names) p t s := by
  refine Matching.quiet_of_forall fun p u c v heq => ?_
  rw [Option.eq_none_iff_forall_ne_some]
  intro m hm
  obtain ⟨d, r, hvar, hd, hword⟩ := varMatcher_some hm
  have hv : ∀ d ∈ c :: v, isWord d = true := fun d hd => h d (by rw [heq]; simp_all)
  obtain ⟨-, rfl⟩ := word_append_inj hv (forall_mem_of_all (by decide)) hs
    (show (d :: r).head?.any isWord = false from isWord_eq_false_of_isJsSpace hd) hvar
  rw [hstop] at hword
  cases hword

/-- An alias statement is passed over. -/
theorem quiet_varMatcher_text (a : Alias) (p : Option Char) (s : Text) :
    Quiet (varMatcher names) p a.text s := by
  have hvalue : ∀ p, Quiet (varMatcher names) p (a.value ++ a.lineEnd) s := fun p => by
    refine quiet_value (fun p t s => quiet_varMatcher_of_not_word)
      (fun p t c s ht hc hspace _ _ => ?_) a p s
    refine quiet_varMatcher_of_word ht hc ?_
    rw [skipSpace_cons hspace]
    exact hc
  have hstop : (skipSpace ((a.value ++ a.lineEnd) ++ s)).head?.any isWord = false := by
    rw [Alias.value, List.append_assoc, List.append_assoc, skipSpace_gap (a.gaps 0).isSpace]
    rfl
  rw [Alias.text, Matching.quiet_append, Matching.quiet_append]
  exact ⟨quiet_varMatcher_of_not_word (indent_not_word a),
    quiet_varMatcher_of_word (jsName_isWord a) (head_value a s) hstop, hvalue _⟩

/-! ## Declarations -/

theorem wordRun_append (w : Word) (hs : s.head?.any isWord = false) :
    wordRun (w.text ++ s) = some (w.text, s) := by
  have htake : (w.text ++ s).takeWhile isWord = w.text ∧ (w.text ++ s).dropWhile isWord = s := by
    rw [List.takeWhile_append_of_pos w.isWord, List.dropWhile_append_of_pos w.isWord]
    match s with
    | [] => simp
    | c :: s =>
      rw [List.takeWhile_cons, List.dropWhile_cons, show isWord c = false from hs]
      simp
  rw [wordRun, htake.1, htake.2, if_neg w.ne_nil]

theorem skipSpace_word (w : Word) (s : Text) : skipSpace (w.text ++ s) = w.text ++ s := by
  obtain ⟨c, v, hv⟩ := List.exists_cons_of_ne_nil w.ne_nil
  have hc : isJsSpace c = false := isJsSpace_of_isWord (w.isWord c (by rw [hv]; simp))
  rw [hv, List.cons_append, skipSpace_cons hc]

theorem tail_cons (e : (Gap × Gap) × Word) (more : List ((Gap × Gap) × Word)) (trail : Gap) :
    Decl.tail (e :: more) trail
      = e.1.1.text ++ (",".toList ++ (e.1.2.text ++ (e.2.text ++ Decl.tail more trail))) := by
  simp [Decl.tail]

/-- Behind a name there is a comma or the semicolon. -/
theorem head_tail (more : List ((Gap × Gap) × Word)) (trail : Gap) (s : Text) :
    (Decl.tail more trail ++ s).head?.any isWord = false ∧
      ((skipSpace (Decl.tail more trail ++ s)).head? = some ',' ∨
        (skipSpace (Decl.tail more trail ++ s)).head? = some ';') := by
  match more with
  | [] =>
    rw [Decl.tail, List.flatMap_nil, List.nil_append, List.append_assoc]
    exact ⟨head_gap trail.isSpace rfl, .inr (by rw [skipSpace_gap trail.isSpace]; rfl)⟩
  | e :: more =>
    rw [tail_cons, List.append_assoc]
    exact ⟨head_gap e.1.1.isSpace rfl, .inl (by rw [skipSpace_gap e.1.1.isSpace]; rfl)⟩

theorem skipSpace_tail_nil (trail : Gap) (s : Text) :
    skipSpace (Decl.tail [] trail ++ s) = ';' :: s := by
  rw [Decl.tail, List.flatMap_nil, List.nil_append, List.append_assoc, skipSpace_gap trail.isSpace]
  rfl

/-- The other names of a declaration are read. -/
theorem moreNames_tail (more : List ((Gap × Gap) × Word)) (trail : Gap) (s : Text) {n : Nat}
    (hn : more.length ≤ n) :
    moreNames n (Decl.tail more trail ++ s)
      = (more.map fun e => e.2.text, Decl.tail [] trail ++ s) := by
  induction more generalizing n with
  | nil =>
    match n with
    | 0 => rfl
    | n + 1 =>
      rw [moreNames, skipSpace_tail_nil]
      rfl
  | cons e more ih =>
    match n, hn with
    | n + 1, hn =>
      have hcomma : skipSpace (Decl.tail (e :: more) trail ++ s)
          = ',' :: (e.1.2.text ++ (e.2.text ++ (Decl.tail more trail ++ s))) := by
        rw [tail_cons]
        simp only [List.append_assoc]
        rw [skipSpace_gap e.1.1.isSpace]
        rfl
      have hrun : wordRun (skipSpace (e.1.2.text ++ (e.2.text ++ (Decl.tail more trail ++ s))))
          = some (e.2.text, Decl.tail more trail ++ s) := by
        rw [skipSpace_gap e.1.2.isSpace, skipSpace_word,
          wordRun_append _ (head_tail more trail s).1]
      rw [moreNames, hcomma]
      simp only [hrun, ih (Nat.le_of_succ_le_succ hn)]
      rfl

theorem length_le_tail (more : List ((Gap × Gap) × Word)) (trail : Gap) :
    more.length ≤ (Decl.tail more trail).length := by
  induction more with
  | nil => exact Nat.zero_le _
  | cons e more ih =>
    rw [tail_cons]
    simp only [List.length_append, List.length_cons]
    have hcomma : ",".toList.length = 1 := rfl
    omega

/-- Where no word ends, `\b` finds a boundary in front of a word. -/
theorem boundary_of_not_word (hp : p.any isWord = false) :
    (p.any fun c => c.isAlphanum || c == '_') = false := by
  rcases p with _ | c
  · rfl
  · rw [Option.any_some, isWord, Bool.or_eq_false_iff] at hp
    exact hp.1

/-- A declaration is recognised. -/
theorem varMatcher_decl (d : Decl) (hp : p.any isWord = false) :
    varMatcher names p (d.text ++ s)
      = some (declaration (d.names.filter (· ∉ names)), s) := by
  have hp' : ¬ (p.any fun c => c.isAlphanum || c == '_') = true := by
    rw [boundary_of_not_word hp]
    exact Bool.false_ne_true
  have hsome : someSpace (d.lead.text ++ (d.first.text ++ (Decl.tail d.more d.trail ++ s)))
      = some (d.first.text ++ (Decl.tail d.more d.trail ++ s)) := by
    obtain ⟨c, w, hw⟩ := List.exists_cons_of_ne_nil d.lead_ne
    have hspace : isJsSpace c = true := d.lead.isSpace c (by rw [hw]; simp)
    rw [someSpace, if_neg, skipSpace_gap d.lead.isSpace, skipSpace_word]
    rw [hw, List.cons_append, List.takeWhile_cons, hspace]
    simp
  have hmore := moreNames_tail d.more d.trail s
    (n := (Decl.tail d.more d.trail ++ s).length) (by
      rw [List.length_append]
      exact (length_le_tail _ _).trans (Nat.le_add_right _ _))
  have hend : strip ";".toList (skipSpace (Decl.tail [] d.trail ++ s)) = some s := by
    rw [skipSpace_tail_nil]
    rfl
  rw [varMatcher, if_neg hp', Decl.text]
  simp only [List.append_assoc, strip_append, Option.bind_eq_bind, Option.bind_some, hsome,
    wordRun_append _ (head_tail d.more d.trail s).1, hmore, hend]
  rfl

/-- No alias statement begins in a declaration. -/
theorem quiet_aliasAt_decl (d : Decl) (p : Option Char) (s : Text) :
    Quiet (aliasAt x.text) p d.text s := by
  have hstop : ∀ {t : Text}, (skipSpace t).head? = some ',' ∨ (skipSpace t).head? = some ';' →
      (skipSpace t).head? ≠ some '=' := by
    rintro t (h | h) <;> rw [h] <;> decide
  have hsemicolon : ∀ c ∈ ";".toList, isWord c = false := forall_mem_of_all (by decide)
  have hcomma : ∀ c ∈ ",".toList, isWord c = false := forall_mem_of_all (by decide)
  have hvarword : ∀ c ∈ "var".toList, isWord c = true := forall_mem_of_all (by decide)
  have htail : ∀ more p, Quiet (aliasAt x.text) p (Decl.tail more d.trail) s := by
    intro more
    induction more with
    | nil =>
      intro p
      refine quiet_aliasAt_of_not_word fun c hc => ?_
      rw [Decl.tail, List.flatMap_nil, List.nil_append] at hc
      rcases List.mem_append.1 hc with hc | hc
      · exact gap_not_word _ c hc
      · exact hsemicolon c hc
    | cons e more ih =>
      intro p
      rw [tail_cons]
      simp only [Matching.quiet_append]
      obtain ⟨hhead, hnext⟩ := head_tail more d.trail s
      exact ⟨quiet_aliasAt_of_not_word (gap_not_word _), quiet_aliasAt_of_not_word hcomma,
        quiet_aliasAt_of_not_word (gap_not_word _),
        quiet_aliasAt_of_word e.2.isWord hhead (hstop hnext), ih _⟩
  obtain ⟨hhead, hnext⟩ := head_tail d.more d.trail s
  have hfirst : (d.first.text ++ (Decl.tail d.more d.trail ++ s)).head? ≠ some '=' := by
    obtain ⟨c, w, hw⟩ := List.exists_cons_of_ne_nil d.first.ne_nil
    rw [hw, List.cons_append, List.head?_cons]
    rintro h
    have hword := d.first.isWord c (by rw [hw]; simp)
    rw [Option.some_inj.1 h] at hword
    cases hword
  have hvar : (d.lead.text ++ (d.first.text ++ (Decl.tail d.more d.trail ++ s))).head?.any isWord
      = false := by
    obtain ⟨c, w, hw⟩ := List.exists_cons_of_ne_nil d.lead_ne
    rw [hw]
    exact isWord_eq_false_of_isJsSpace (d.lead.isSpace c (by rw [hw]; simp))
  rw [Decl.text]
  simp only [Matching.quiet_append, List.append_assoc]
  refine ⟨quiet_aliasAt_of_word hvarword hvar ?_, quiet_aliasAt_of_not_word (gap_not_word _),
    quiet_aliasAt_of_word d.first.isWord hhead (hstop hnext), htail _ _⟩
  rwa [skipSpace_gap d.lead.isSpace, skipSpace_word]

/-! ## Where a name is called -/

/-- A call begins with the name, and `(` follows. -/
theorem calledMatcher_some {y : Text} {m : Text × Text} (h : calledMatcher y p s = some m) :
    ∃ t, s = y ++ '(' :: t := by
  rw [calledMatcher] at h
  split at h
  · cases h
  · obtain ⟨t, ht, -⟩ := Option.map_eq_some_iff.1 h
    exact ⟨t, by rw [strip_eq_some.1 ht, List.append_assoc]; rfl⟩

theorem quiet_calledMatcher_of_not_word (h : ∀ c ∈ t, isWord c = false) :
    Quiet (calledMatcher x.text) p t s := by
  refine Matching.quiet_of_forall fun p u c v heq => ?_
  rw [Option.eq_none_iff_forall_ne_some]
  intro m hm
  obtain ⟨r, hr⟩ := calledMatcher_some hm
  obtain ⟨d, y, hy⟩ := List.exists_cons_of_ne_nil x.ne_nil
  rw [hy, List.cons_append] at hr
  have hd := x.isWord d (by rw [hy]; exact List.mem_cons_self)
  rw [← (List.cons.inj hr).1, h c (by rw [heq]; simp)] at hd
  cases hd

theorem quiet_calledMatcher_of_word (h : ∀ c ∈ t, isWord c = true)
    (hs : s.head?.any isWord = false) (hstop : s.head? ≠ some '(') :
    Quiet (calledMatcher x.text) p t s := by
  refine Matching.quiet_of_forall fun p u c v heq => ?_
  rw [Option.eq_none_iff_forall_ne_some]
  intro m hm
  obtain ⟨r, hr⟩ := calledMatcher_some hm
  have hv : ∀ d ∈ c :: v, isWord d = true := fun d hd => h d (by rw [heq]; simp_all)
  obtain ⟨-, rfl⟩ := word_append_inj hv x.isWord hs
    (show ('(' :: r).head?.any isWord = false from rfl) hr
  exact hstop rfl

/-- No name is called in an alias statement. -/
theorem quiet_calledMatcher_text (a : Alias) (p : Option Char) (s : Text) :
    Quiet (calledMatcher x.text) p a.text s := by
  have hstop : (a.value ++ a.lineEnd ++ s).head? ≠ some '(' := by
    rw [Alias.value, List.append_assoc, List.append_assoc]
    match hgap : (a.gaps 0).text with
    | [] => simp
    | c :: w =>
      have hc := (a.gaps 0).isSpace c (by rw [hgap]; exact List.mem_cons_self)
      rintro heq
      rw [Option.some_inj.1 heq] at hc
      cases hc
  rw [Alias.text, Matching.quiet_append, Matching.quiet_append]
  refine ⟨quiet_calledMatcher_of_not_word (indent_not_word a),
    quiet_calledMatcher_of_word (jsName_isWord a) (head_value a s) hstop,
    quiet_value (fun p t s => quiet_calledMatcher_of_not_word)
      (fun p t c s ht hc _ _ hcall => quiet_calledMatcher_of_word ht hc ?_) a _ s⟩
  rw [List.head?_cons]
  exact fun heq => hcall (Option.some_inj.1 heq)

/-- A call that begins in a piece ends in it, if the last word of the piece does. -/
theorem closed_calledMatcher (hs : t.getLast?.any isWord = true → s.head?.all isJsSpace = true) :
    Closed (calledMatcher x.text) p t s := by
  have hstep : ∀ p v, v <:+ t → v ≠ [] →
      (calledMatcher x.text p (v ++ s)).isSome = (calledMatcher x.text p v).isSome := by
    intro p v hv hne
    rw [calledMatcher, calledMatcher]
    split
    · rfl
    · rw [Option.isSome_map, Option.isSome_map, Bool.eq_iff_iff, Option.isSome_iff_exists,
        Option.isSome_iff_exists]
      constructor
      · rintro ⟨r, hr⟩
        rcases List.append_eq_append_iff.1 (strip_eq_some.1 hr) with ⟨w, hname, hs'⟩ | ⟨w, hname, -⟩
        · match w, hname, hs' with
          | [], hname, _ => exact ⟨[], strip_eq_some.2 (by rw [hname]; simp)⟩
          | c :: w, hname, hs' =>
            -- otherwise the piece ends in the name
            have hlast : t.getLast? = v.getLast? := by
              obtain ⟨u, rfl⟩ := hv
              exact List.getLast?_append_of_ne_nil u hne
            have hstart : v <+: x.text := by
              refine List.prefix_of_prefix_length_le ⟨c :: w, hname.symm⟩
                (List.prefix_append _ _) ?_
              have := congrArg List.length hname
              simp only [List.length_append, List.length_cons, List.length_nil] at this
              omega
            obtain ⟨u, d, rfl⟩ := (List.eq_nil_or_concat' v).resolve_left hne
            have hword : isWord d = true := x.isWord d (hstart.subset (by simp))
            have hspace := hs (by rw [hlast, List.getLast?_concat]; exact hword)
            rw [hs', List.cons_append, List.head?_cons, Option.all_some] at hspace
            have hc : c ∈ x.text ++ ['('] := by rw [hname]; simp
            rw [List.mem_append, List.mem_singleton] at hc
            rcases hc with hc | rfl
            · have := isJsSpace_of_isWord (x.isWord c hc)
              rw [hspace] at this
              cases this
            · cases hspace
        · exact ⟨w, strip_eq_some.2 hname⟩
      · rintro ⟨r, hr⟩
        exact ⟨r ++ s, strip_eq_some.2 (by rw [strip_eq_some.1 hr, List.append_assoc])⟩
  have hclosed : ∀ v, v <:+ t → ∀ p, Closed (calledMatcher x.text) p v s := by
    intro v
    induction v with
    | nil => exact fun _ _ => trivial
    | cons c v ih =>
      exact fun hv p => ⟨hstep p (c :: v) hv (List.cons_ne_nil c v),
        ih ((List.suffix_cons c v).trans hv) _⟩
  exact hclosed t (List.suffix_refl t) p

/-- Where a word ends, what is in front does not matter. -/
theorem calledMatcher_none (hp : Breaks p s) :
    calledMatcher x.text p s = calledMatcher x.text none s := by
  rw [calledMatcher, calledMatcher]
  cases hword : p.any isWord with
  | false => rfl
  | true =>
    rw [if_pos rfl, Option.any_none, if_neg Bool.false_ne_true, eq_comm, Option.map_eq_none_iff,
      Option.eq_none_iff_forall_ne_some]
    intro r hr
    obtain ⟨d, y, hy⟩ := List.exists_cons_of_ne_nil x.ne_nil
    have hhead := hp hword
    rw [strip_eq_some.1 hr, hy, List.cons_append, List.cons_append, List.head?_cons,
      Option.any_some, x.isWord d (by rw [hy]; exact List.mem_cons_self)] at hhead
    cases hhead

/-! ## Any name -/

/-- `aliasStmt` for the name that comes next. -/
def anyAliasAt : Matcher Char := fun p s =>
  if s.takeWhile isWord = [] then none else aliasAt (s.takeWhile isWord) p s

theorem quiet_anyAliasAt (h : ∀ x : Word, Quiet (aliasAt x.text) p t s) :
    Quiet anyAliasAt p t s := by
  induction t generalizing p with
  | nil => trivial
  | cons c t ih =>
    refine ⟨?_, ih fun x => (h x).2⟩
    rw [anyAliasAt]
    split
    · rfl
    · rename_i hne
      exact (h ⟨_, hne, fun d hd => List.mem_takeWhile_imp hd⟩).1

/-- An alias statement is found without its indentation and its line break. -/
theorem split_anyAliasAt (a : Alias) (hp : Breaks p (a.text ++ s)) :
    Matching.split anyAliasAt 0 p (a.text ++ s) =
      a.indent.map .inr ++ (.inl (a.jsName ++ a.value) :: (a.lineEnd.map .inr ++
        Matching.split anyAliasAt 0 (before p a.text) s)) := by
  have hname : (a.jsName ++ (a.value ++ (a.lineEnd ++ s))).takeWhile isWord = a.jsName := by
    have hhead := head_value a s
    rw [List.append_assoc] at hhead
    exact takeWhile_jsName a hhead
  have hmatch : anyAliasAt (before p a.indent) ((a.jsName ++ a.value) ++ (a.lineEnd ++ s)) =
      some ([], a.lineEnd ++ s) := by
    rw [anyAliasAt, List.append_assoc, hname,
      if_neg (show a.jsName ≠ [] from List.cons_ne_nil _ _), aliasAt,
      before_indent a hp, if_neg Bool.false_ne_true, aliasStatement_self]
    rfl
  have hline : ∀ c ∈ a.lineEnd, isWord c = false := by
    rw [Alias.lineEnd]
    split <;> exact forall_mem_of_all (by decide)
  have htext : a.text ++ s = a.indent ++ ((a.jsName ++ a.value) ++ (a.lineEnd ++ s)) := by
    simp [Alias.text]
  have hbefore : before p a.text
      = before (before (before p a.indent) (a.jsName ++ a.value)) a.lineEnd := by
    simp [Alias.text]
  rw [htext, Matching.split_quiet (quiet_anyAliasAt fun x =>
      quiet_aliasAt_of_not_word (indent_not_word a)),
    Matching.split_match (by simp [Alias.jsName]) hmatch,
    Matching.split_quiet (quiet_anyAliasAt fun x => quiet_aliasAt_of_not_word hline), hbefore]

end PhpWasm.Build.StripAliases
