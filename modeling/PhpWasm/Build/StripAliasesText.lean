import PhpWasm.Build.StripAliasesPieces

/-!
# What the regular expressions find in a loader

* `replaceFirst_textOf`: `aliasStmt` finds the first alias statement for its name, and takes a line
  break behind it, too (`cutAlias`).
* `replaceAll_textOf`: the pattern for declarations finds all of them.
* `test_textOf`: whether a name is called does not depend on the alias statements.

What is left of a loader can be told from its text: how many alias statements there are for a name
(`count_textOf`), how the declarations look (`declTexts_textOf`), and what is between the alias
statements (`skeleton_textOf`).
-/

set_option autoImplicit false

namespace PhpWasm.Build.StripAliases

open Vendored (Text)
open Matching (Quiet before test replaceFirst replaceAll)
open Scan (strip)

variable {mayGo : Piece → Bool} {x : Word} {p : Option Char} {s t : Text} {names : List Text}
  {q : Piece} {pieces : List Piece}

/-! ## Loaders -/

theorem IsCode.mono {follows follows' : Text → Prop} (h : IsCode follows t)
    (hsub : ∀ s, follows' s → follows s) : IsCode follows' t where
  word_ends s hs := h.word_ends s (hsub s hs)
  alias_quiet x p s hp hs := h.alias_quiet x p s hp (hsub s hs)
  var_quiet names p s hp hs := h.var_quiet names p s hp (hsub s hs)

theorem isCode_nil (follows : Text → Prop) : IsCode follows [] :=
  ⟨fun _ _ h => absurd h Bool.false_ne_true, fun _ _ _ _ _ => trivial, fun _ _ _ _ _ => trivial⟩

theorem Sound.tail (h : Sound mayGo (q :: pieces)) : Sound mayGo pieces := by
  cases q with
  | aliasStmt reading a => exact h
  | decl place d => exact h
  | code tokens => exact h.2

theorem Separated.tail (h : Separated (q :: pieces)) : Separated pieces := by
  cases q with
  | aliasStmt reading a => exact h
  | decl place d => exact h
  | code tokens => exact h.2

theorem textOf_cons (q : Piece) (pieces : List Piece) :
    textOf (q :: pieces) = q.text ++ textOf pieces := rfl

/-- What does come next is among what may. -/
theorem follows_textOf (mayGo : Piece → Bool) (pieces : List Piece) :
    Follows mayGo pieces (textOf pieces) := by
  induction pieces with
  | nil => rfl
  | cons q pieces ih =>
    refine ⟨q.text, textOf pieces, ?_, ih, rfl⟩
    cases q with
    | aliasStmt reading a => exact .inl rfl
    | decl place d => exact .inl rfl
    | code tokens => exact ⟨[], by simp, rfl⟩

/-- An alias statement ends with no word and no blank. -/
theorem alias_ends (a : Alias) :
    ∃ u c, a.text = u ++ [c] ∧ isWord c = false ∧ isBlank c = false := by
  have hlast : a.text.getLast? = some (if a.newline then '\n' else ';') := by
    rw [Alias.text, Alias.lineEnd, Alias.value]
    simp only [List.getLast?_append]
    split <;> rfl
  obtain ⟨u, hu⟩ := List.getLast?_eq_some_iff.1 hlast
  refine ⟨u, _, hu, ?_⟩
  split <;> decide

theorem decl_ends (d : Decl) : ∃ u, d.text = u ++ [';'] := by
  have hlast : d.text.getLast? = some ';' := by
    rw [Decl.text, Decl.tail]
    simp only [List.getLast?_append]
    rfl
  exact List.getLast?_eq_some_iff.1 hlast

theorem decl_ne_nil (d : Decl) : d.text ≠ [] := by
  obtain ⟨u, hu⟩ := decl_ends d
  rw [hu]
  simp

/-- No word goes on from one piece into the next. -/
theorem Sound.breaks (h : Sound mayGo (q :: pieces)) (hp : Breaks p (textOf (q :: pieces))) :
    Breaks (before p q.text) (textOf pieces) := by
  cases q with
  | aliasStmt reading a =>
    obtain ⟨u, c, htext, hc, -⟩ := alias_ends a
    rw [Piece.text, htext, Matching.before_concat]
    exact breaks_of_not_word (p := some c) hc _
  | decl place d =>
    obtain ⟨u, htext⟩ := decl_ends d
    rw [Piece.text, htext, Matching.before_concat]
    exact breaks_of_not_word (p := some ';') rfl _
  | code tokens =>
    rw [textOf_cons] at hp
    rcases List.eq_nil_or_concat' (Piece.code tokens).text with htext | ⟨u, c, htext⟩
    · rwa [htext] at hp ⊢
    · rw [htext, Matching.before_concat]
      intro hc
      have hends := h.1.word_ends _ (follows_textOf mayGo pieces)
        (by rw [htext, List.getLast?_concat]; exact hc)
      match textOf pieces, hends with
      | [], _ => rfl
      | d :: s, hends => exact isWord_eq_false_of_isJsSpace hends

/-- No alias statement begins in other code. -/
theorem Sound.alias_quiet {tokens : List Token} (h : Sound mayGo (.code tokens :: pieces))
    (hp : Breaks p (textOf (.code tokens :: pieces))) :
    Quiet (aliasAt x.text) p (Piece.code tokens).text (textOf pieces) :=
  quiet_of_breaks (fun p _ s hc => aliasAt_of_not_word hc p s) hp fun p hp =>
    h.1.alias_quiet x p _ hp (follows_textOf mayGo pieces)

/-- No declaration begins in other code. -/
theorem Sound.var_quiet {tokens : List Token} (h : Sound mayGo (.code tokens :: pieces))
    (hp : Breaks p (textOf (.code tokens :: pieces))) :
    Quiet (varMatcher names) p (Piece.code tokens).text (textOf pieces) :=
  quiet_of_breaks (fun p _ s hc => varMatcher_of_not_word hc p s) hp fun p hp =>
    h.1.var_quiet names p _ hp (follows_textOf mayGo pieces)

/-- In front of a declaration there is no word. -/
theorem decl_not_word {place : Place} {d : Decl}
    (hp : Breaks p (textOf (.decl place d :: pieces))) : p.any isWord = false :=
  Breaks.not_word (c := 'v') hp (by decide)

/-! ## Alias statements -/

/-- The alias statement for `x` counts once. -/
theorem count_text (a : Alias) (hname : a.jsName = x.text) (hp : Breaks p (a.text ++ s)) :
    Matching.count (aliasAt x.text) p (a.text ++ s)
      = 1 + Matching.count (aliasAt x.text) (before p a.text) s := by
  have hinside : Quiet (aliasAt x.text) (some a.first) a.wasmName ((a.value ++ a.lineEnd) ++ s) :=
    quiet_aliasAt_inside a.first_isWord a.isWord
  have hfirst : aliasAt x.text (before p a.indent)
      (a.first :: (a.wasmName ++ ((a.value ++ a.lineEnd) ++ s))) = some ([], a.lineEnd ++ s) := by
    have hself := aliasStatement_self a (a.lineEnd ++ s)
    rw [hname] at hself
    rw [aliasAt, before_indent a hp, if_neg Bool.false_ne_true,
      show a.first :: (a.wasmName ++ ((a.value ++ a.lineEnd) ++ s))
        = x.text ++ (a.value ++ (a.lineEnd ++ s)) by rw [← hname, List.append_assoc]; rfl,
      hself]
    rfl
  have htext : a.text ++ s =
      a.indent ++ a.first :: (a.wasmName ++ ((a.value ++ a.lineEnd) ++ s)) := by
    rw [text_append, List.append_assoc]
  have hbefore : before p a.text
      = before (before (some a.first) a.wasmName) (a.value ++ a.lineEnd) := by
    rw [Alias.text, Matching.before_append, Matching.before_append, Alias.jsName]
    rfl
  rw [htext, Matching.count_quiet (quiet_aliasAt_of_not_word (indent_not_word a)), Matching.count,
    hfirst, Matching.count_quiet hinside, Matching.count_quiet (quiet_aliasAt_value a _ s), hbefore]
  rfl

/-- The alias statements for a name are counted. -/
theorem count_textOf (h : Sound mayGo pieces) (hp : Breaks p (textOf pieces)) :
    Matching.count (aliasAt x.text) p (textOf pieces) = pieces.countP (Piece.isAliasOf x.text) := by
  induction pieces generalizing p with
  | nil => rfl
  | cons q pieces ih =>
    have hrest := ih h.tail (h.breaks hp)
    have hquiet : Quiet (aliasAt x.text) p q.text (textOf pieces) → q.isAliasOf x.text = false →
        Matching.count (aliasAt x.text) p (textOf (q :: pieces))
          = (q :: pieces).countP (Piece.isAliasOf x.text) := by
      intro hq hname
      rw [textOf_cons, Matching.count_quiet hq, hrest, List.countP_cons_of_neg (by simp [hname])]
    cases q with
    | decl place d => exact hquiet (quiet_aliasAt_decl d p _) rfl
    | code tokens => exact hquiet (h.alias_quiet hp) rfl
    | aliasStmt reading a =>
      by_cases hname : a.jsName = x.text
      · have hpos : (Piece.aliasStmt reading a).isAliasOf x.text = true := beq_iff_eq.2 hname
        rw [List.countP_cons_of_pos hpos, ← hrest, Nat.add_comm]
        exact count_text a hname hp
      · exact hquiet (quiet_aliasAt_text hname p _) (beq_eq_false_iff_ne.2 hname)

/-- No alias statement begins with a blank in front of pieces that begin with none. -/
theorem aliasMatcher_blank_textOf (h : Sound mayGo pieces) (hsep : Separated pieces)
    (hnext : aliasNext pieces = false) {c : Char} (hc : isBlank c = true) :
    aliasMatcher x.text (some c) (textOf pieces) = none := by
  have hword : (some c).any isWord = false :=
    isWord_eq_false_of_isJsSpace (isJsSpace_of_isBlank hc)
  induction pieces generalizing c with
  | nil =>
    obtain ⟨d, y, hy⟩ := List.exists_cons_of_ne_nil x.ne_nil
    rw [aliasMatcher, hy]
    cases hc : isWord c <;> simp [aliasAt, before, hc, aliasStatement, strip, textOf]
  | cons q pieces ih =>
    cases q with
    | aliasStmt reading a => cases hnext
    | decl place d =>
      have hquiet := quiet_aliasAt_decl (x := x) d (some c) (textOf pieces)
      exact aliasMatcher_not_blank (by decide) hquiet.1
    | code tokens =>
      have hquiet := h.alias_quiet (x := x) (breaks_of_not_word hword _)
      have hstop : ∀ d ∈ (Piece.code tokens).text.getLast?, isBlank d = true →
          aliasMatcher x.text (some d) (textOf pieces) = none := by
        intro d hd hblank
        refine ih h.tail hsep.tail ?_ hblank
          (isWord_eq_false_of_isJsSpace (isJsSpace_of_isBlank hblank))
        by_contra halias
        have hlast := hsep.1 (by simpa using halias)
        rw [Option.mem_def.1 hd, Option.any_some, hblank] at hlast
        cases hlast
      rw [textOf_cons]
      rcases htext : (Piece.code tokens).text with _ | ⟨d, t⟩
      · refine ih h.tail hsep.tail ?_ hc hword
        rw [aliasNext, htext] at hnext
        exact hnext
      · rw [htext] at hquiet hstop
        exact (quiet_aliasMatcher hquiet hstop).1

/-- No alias statement begins in another piece, nor with the blanks at its end. -/
theorem quiet_aliasMatcher_piece (h : Sound mayGo (q :: pieces)) (hsep : Separated (q :: pieces))
    (hq : q.isAlias = false) (hp : Breaks p (textOf (q :: pieces))) :
    Quiet (aliasMatcher x.text) p q.text (textOf pieces) := by
  cases q with
  | aliasStmt reading a => cases hq
  | decl place d =>
    refine quiet_aliasMatcher (quiet_aliasAt_decl d p _) fun c hc hblank => ?_
    obtain ⟨u, htext⟩ := decl_ends d
    rw [Piece.text, htext, List.getLast?_concat, Option.mem_some_iff] at hc
    subst hc
    cases hblank
  | code tokens =>
    refine quiet_aliasMatcher (h.alias_quiet hp) fun c hc hblank =>
      aliasMatcher_blank_textOf h.tail hsep.tail ?_ hblank
    by_contra halias
    have hlast := hsep.1 (by simpa using halias)
    rw [Option.mem_def.1 hc, Option.any_some, hblank] at hlast
    cases hlast

/-- The pieces without a line break at their beginning. -/
def dropLine : List Piece → List Piece
  | .code tokens :: pieces =>
    match (Piece.code tokens).text with
    | [] => .code tokens :: dropLine pieces
    | c :: t => (if c = '\n' then .code [.other t] else .code tokens) :: pieces
  | pieces => pieces

/-- The pieces without what `aliasStmt` finds. -/
def cutAlias (x : Text) : List Piece → List Piece
  | [] => []
  | .aliasStmt reading a :: pieces =>
    if a.jsName = x then if a.newline then pieces else dropLine pieces
    else .aliasStmt reading a :: cutAlias x pieces
  | q :: pieces => q :: cutAlias x pieces

theorem cutAlias_alias {reading : Reading} {a : Alias} {y : Text} (h : a.jsName = y) :
    cutAlias y (.aliasStmt reading a :: pieces) =
      if a.newline then pieces else dropLine pieces := if_pos h

theorem cutAlias_of_not {y : Text} (h : q.isAliasOf y = false) :
    cutAlias y (q :: pieces) = q :: cutAlias y pieces := by
  cases q with
  | aliasStmt reading a => exact if_neg (beq_eq_false_iff_ne.1 h)
  | decl place d => rfl
  | code tokens => rfl

theorem text_other (t : Text) : (Piece.code [.other t]).text = t := by
  simp [Piece.text, Token.text]

theorem skipNewline_of_ne (h : s.head? ≠ some '\n') : skipNewline s = s := by
  match s, h with
  | [], _ => rfl
  | c :: s, h =>
    rw [skipNewline]
    rintro r hr
    exact h (by rw [(List.cons.inj hr).1]; rfl)

/-- An alias statement does not begin with a line break. -/
theorem head_alias (a : Alias) (s : Text) : (a.text ++ s).head? ≠ some '\n' := by
  rw [text_append]
  match hindent : a.indent with
  | [] =>
    intro heq
    have hfirst := a.first_isWord
    rw [Option.some_inj.1 heq] at hfirst
    cases hfirst
  | c :: w =>
    have hc := a.isBlank c (by rw [hindent]; simp)
    intro heq
    rw [Option.some_inj.1 heq] at hc
    cases hc

theorem dropLine_of_nil {tokens : List Token} (h : (Piece.code tokens).text = []) :
    dropLine (.code tokens :: pieces) = .code tokens :: dropLine pieces := by
  rw [dropLine, h]

theorem dropLine_of_cons {tokens : List Token} {c : Char} (h : (Piece.code tokens).text = c :: t) :
    dropLine (.code tokens :: pieces) =
      (if c = '\n' then .code [.other t] else .code tokens) :: pieces := by
  rw [dropLine, h]

/-- The same as a relation: either no line break comes first, or it is one of other code, perhaps
behind empty other code. -/
inductive LineDropped : List Piece → List Piece → Prop
  | none {pieces : List Piece} (hhead : (textOf pieces).head? ≠ some '\n') :
    LineDropped pieces pieces
  | skip {tokens : List Token} {pieces pieces' : List Piece}
    (htext : (Piece.code tokens).text = []) (h : LineDropped pieces pieces') :
    LineDropped (.code tokens :: pieces) (.code tokens :: pieces')
  | cut {tokens : List Token} {t : Text} {pieces : List Piece}
    (htext : (Piece.code tokens).text = '\n' :: t) :
    LineDropped (.code tokens :: pieces) (.code [.other t] :: pieces)

theorem lineDropped (pieces : List Piece) : LineDropped pieces (dropLine pieces) := by
  induction pieces with
  | nil => exact .none fun heq => by cases heq
  | cons q pieces ih =>
    cases q with
    | aliasStmt reading a => exact .none (head_alias a _)
    | decl place d => exact .none fun heq => by cases heq
    | code tokens =>
      rcases htext : (Piece.code tokens).text with _ | ⟨c, t⟩
      · rw [dropLine_of_nil htext]
        exact .skip htext ih
      · rw [dropLine_of_cons htext]
        by_cases hc : c = '\n'
        · rw [if_pos hc]
          exact .cut (hc ▸ htext)
        · rw [if_neg hc]
          refine .none ?_
          rw [textOf_cons, htext]
          exact fun heq => hc (Option.some_inj.1 heq)

theorem LineDropped.textOf_eq {pieces' : List Piece} (h : LineDropped pieces pieces') :
    textOf pieces' = skipNewline (textOf pieces) := by
  induction h with
  | none hhead => exact (skipNewline_of_ne hhead).symm
  | skip htext _ ih => rw [textOf_cons, textOf_cons, htext, ih, List.nil_append, List.nil_append]
  | cut htext =>
    rw [textOf_cons, textOf_cons, htext, text_other]
    rfl

/-- **`aliasStmt` finds the first alias statement for its name.** -/
theorem replaceFirst_textOf (h : Sound mayGo pieces) (hsep : Separated pieces)
    (hp : Breaks p (textOf pieces)) :
    replaceFirst (aliasMatcher x.text) p (textOf pieces) =
      if pieces.any (Piece.isAliasOf x.text) then some (textOf (cutAlias x.text pieces))
      else none := by
  induction pieces generalizing p with
  | nil => rfl
  | cons q pieces ih =>
    have hrest := ih h.tail hsep.tail (h.breaks hp)
    have hquiet : Quiet (aliasMatcher x.text) p q.text (textOf pieces) →
        q.isAliasOf x.text = false → replaceFirst (aliasMatcher x.text) p (textOf (q :: pieces)) =
          if (q :: pieces).any (Piece.isAliasOf x.text) then
            some (textOf (cutAlias x.text (q :: pieces)))
          else none := by
      intro hq hname
      rw [textOf_cons, Matching.replaceFirst_quiet hq, hrest, List.any_cons, hname, Bool.false_or,
        cutAlias_of_not hname]
      split <;> rfl
    cases q with
    | decl place d => exact hquiet (quiet_aliasMatcher_piece h hsep rfl hp) rfl
    | code tokens => exact hquiet (quiet_aliasMatcher_piece h hsep rfl hp) rfl
    | aliasStmt reading a =>
      obtain ⟨u, d, htext, -, hblank⟩ := alias_ends a
      by_cases hname : a.jsName = x.text
      · have hpos : (Piece.aliasStmt reading a).isAliasOf x.text = true := beq_iff_eq.2 hname
        have hself := aliasMatcher_self a hp
        have hcut : textOf (cutAlias x.text (.aliasStmt reading a :: pieces)) =
            if a.newline then textOf pieces else skipNewline (textOf pieces) := by
          rw [cutAlias_alias hname, ← (lineDropped pieces).textOf_eq]
          split <;> rfl
        rw [List.any_cons, hpos, Bool.true_or, if_pos rfl, hcut, textOf_cons, Piece.text]
        obtain ⟨c, t, ht⟩ := List.exists_cons_of_ne_nil
          (show a.text ≠ [] by rw [htext]; simp)
        rw [hname, ht] at hself
        rw [ht]
        exact Matching.replaceFirst_match hself
      · refine hquiet (quiet_aliasMatcher (quiet_aliasAt_text hname p _) fun c hc hlast => ?_)
          (beq_eq_false_iff_ne.2 hname)
        rw [Piece.text, htext, List.getLast?_concat, Option.mem_some_iff] at hc
        rw [hc, hlast] at hblank
        cases hblank

/-! ## Declarations -/

/-- What the script puts in the place of a piece. -/
def rewriteText (stripped : List Text) : Piece → Text
  | .decl _ d => declaration (d.names.filter (· ∉ stripped))
  | q => q.text

/-- **The pattern for declarations finds all of them**, and nothing else. -/
theorem replaceAll_textOf (h : Sound mayGo pieces) (hp : Breaks p (textOf pieces)) :
    replaceAll (varMatcher names) 0 p (textOf pieces) = pieces.flatMap (rewriteText names) := by
  induction pieces generalizing p with
  | nil => rfl
  | cons q pieces ih =>
    have hrest := ih h.tail (h.breaks hp)
    rw [textOf_cons, List.flatMap_cons, ← hrest]
    cases q with
    | aliasStmt reading a => exact Matching.replaceAll_quiet (quiet_varMatcher_text a p _)
    | code tokens => exact Matching.replaceAll_quiet (h.var_quiet hp)
    | decl place d =>
      exact Matching.replaceAll_match (decl_ne_nil d) (varMatcher_decl d (decl_not_word hp))

/-- The text of a declaration. -/
def declText : Piece → Option Text
  | .decl _ d => some d.text
  | _ => none

/-- The texts of the declarations among some pieces. -/
def declTexts (p : Option Char) (s : Text) : List Text :=
  (Matching.split (varMatcher []) 0 p s).filterMap Sum.getLeft?

theorem declTexts_quiet (h : Quiet (varMatcher []) p t s) :
    declTexts p (t ++ s) = declTexts (before p t) s := by
  have hnone : (t.map Sum.inr : List (Text ⊕ Char)).filterMap Sum.getLeft? = [] :=
    List.filterMap_eq_nil_iff.2 fun e he => by
      obtain ⟨c, -, rfl⟩ := List.mem_map.1 he
      rfl
  rw [declTexts, Matching.split_quiet h, List.filterMap_append, hnone]
  rfl

/-- The declarations can be told from the text. -/
theorem declTexts_textOf (h : Sound mayGo pieces) (hp : Breaks p (textOf pieces)) :
    declTexts p (textOf pieces) = pieces.filterMap declText := by
  induction pieces generalizing p with
  | nil => rfl
  | cons q pieces ih =>
    have hrest := ih h.tail (h.breaks hp)
    rw [textOf_cons]
    cases q with
    | aliasStmt reading a =>
      rw [List.filterMap_cons_none rfl, ← hrest]
      exact declTexts_quiet (quiet_varMatcher_text a p _)
    | code tokens =>
      rw [List.filterMap_cons_none rfl, ← hrest]
      exact declTexts_quiet (h.var_quiet hp)
    | decl place d =>
      rw [List.filterMap_cons_some (show declText (.decl place d) = some d.text from rfl), ← hrest,
        declTexts, Piece.text,
        Matching.split_match (decl_ne_nil d) (varMatcher_decl d (decl_not_word hp))]
      rfl

/-! ## The alias statements and what is between them -/

/-- The name of an alias statement, or a character that is not white space. -/
def mark : Text ⊕ Char → Option (Text ⊕ Char)
  | .inl t => some (.inl (t.takeWhile isWord))
  | .inr c => if isJsSpace c then none else some (.inr c)

/-- The names of what reads like alias statements, and all else that is not white space. -/
def skeleton (p : Option Char) (s : Text) : List (Text ⊕ Char) :=
  (Matching.split anyAliasAt 0 p s).filterMap mark

/-- The characters of a text that are not white space. -/
def solid (t : Text) : List (Text ⊕ Char) := (t.map .inr).filterMap mark

def Piece.skeleton : Piece → List (Text ⊕ Char)
  | aliasStmt _ a => [.inl a.jsName]
  | q => solid q.text

theorem solid_eq_nil (h : ∀ c ∈ t, isJsSpace c = true) : solid t = [] := by
  refine List.filterMap_eq_nil_iff.2 fun e he => ?_
  obtain ⟨c, hc, rfl⟩ := List.mem_map.1 he
  rw [mark, h c hc]
  rfl

theorem skeleton_quiet (h : ∀ x : Word, Quiet (aliasAt x.text) p t s) :
    skeleton p (t ++ s) = solid t ++ skeleton (before p t) s := by
  rw [skeleton, Matching.split_quiet (quiet_anyAliasAt h), List.filterMap_append]
  rfl

/-- What is between the alias statements can be told from the text. -/
theorem skeleton_textOf (h : Sound mayGo pieces) (hp : Breaks p (textOf pieces)) :
    skeleton p (textOf pieces) = pieces.flatMap Piece.skeleton := by
  induction pieces generalizing p with
  | nil => rfl
  | cons q pieces ih =>
    have hrest := ih h.tail (h.breaks hp)
    rw [textOf_cons, List.flatMap_cons, ← hrest]
    cases q with
    | decl place d => exact skeleton_quiet fun x => quiet_aliasAt_decl d p _
    | code tokens => exact skeleton_quiet fun x => h.alias_quiet hp
    | aliasStmt reading a =>
      have hname : (a.jsName ++ a.value).takeWhile isWord = a.jsName := by
        refine takeWhile_jsName a ?_
        rw [Alias.value]
        exact head_gap (a.gaps 0).isSpace rfl
      have hindent : solid a.indent = [] :=
        solid_eq_nil fun c hc => isJsSpace_of_isBlank (a.isBlank c hc)
      have hline : solid a.lineEnd = [] := by
        rw [Alias.lineEnd]
        split <;> rfl
      rw [skeleton, Piece.text, split_anyAliasAt (s := textOf pieces) a hp,
        List.filterMap_append,
        List.filterMap_cons_some (show mark (.inl (a.jsName ++ a.value)) =
          some (.inl a.jsName) by rw [mark, hname]), List.filterMap_append]
      show solid a.indent ++ (.inl a.jsName :: (solid a.lineEnd ++
        skeleton (before p a.text) (textOf pieces))) = _
      rw [hindent, hline]
      rfl

/-! ## Calls -/

/-- **Whether a name is called does not depend on the alias statements.** -/
theorem test_textOf (h : Sound mayGo pieces) (hp : Breaks p (textOf pieces)) :
    test (calledMatcher x.text) p (textOf pieces) =
      (pieces.filter fun q => !q.isAlias).any fun q => test (calledMatcher x.text) none q.text := by
  induction pieces generalizing p with
  | nil => rfl
  | cons q pieces ih =>
    have hrest := ih h.tail (h.breaks hp)
    have hother : q.isAlias = false →
        (q.text.getLast?.any isWord = true → (textOf pieces).head?.all isJsSpace = true) →
          test (calledMatcher x.text) p (textOf (q :: pieces)) =
            ((q :: pieces).filter fun q => !q.isAlias).any fun q =>
              test (calledMatcher x.text) none q.text := by
      intro hq hends
      have hfirst : test (calledMatcher x.text) p q.text
          = test (calledMatcher x.text) none q.text := by
        match htext : q.text with
        | [] => rfl
        | c :: t =>
          have hbreaks : Breaks p (c :: t) := by
            rw [textOf_cons, htext] at hp
            exact hp
          rw [test, test, calledMatcher_none hbreaks]
      rw [textOf_cons, Matching.test_append (closed_calledMatcher hends), hrest,
        List.filter_cons_of_pos (by simp [hq]), List.any_cons, hfirst]
    cases q with
    | decl place d =>
      refine hother rfl fun hlast => ?_
      obtain ⟨u, htext⟩ := decl_ends d
      rw [Piece.text, htext, List.getLast?_concat] at hlast
      cases hlast
    | code tokens => exact hother rfl (h.1.word_ends _ (follows_textOf mayGo pieces))
    | aliasStmt reading a =>
      rw [List.filter_cons_of_neg (by simp [Piece.isAlias]), ← hrest]
      exact Matching.test_quiet (quiet_calledMatcher_text a p _)

end PhpWasm.Build.StripAliases
