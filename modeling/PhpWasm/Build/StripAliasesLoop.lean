import PhpWasm.Build.StripAliasesText

/-!
# The loop over the strip list

The loop takes one alias statement from the pieces for each name on the list, unless the name is
called, and with it the line break behind it.  What it leaves is described twice: `cuts` are the
pieces it really leaves, and `leftOf` are those it leaves when no line break of other code is lost.

* `loop_right`: the loader after the loop, and the names that were stripped.
* `cuts_core`: both are the same but for line breaks at the beginning of other code, and
  `cuts_of_linesKept`, `spare_cuts_lt`: they are the same if and only if no line break is lost.
* `filter_leftOf`, `aliases_leftOf`: what is left of the pieces.
-/

set_option autoImplicit false

namespace PhpWasm.Build.StripAliases

open Vendored (Text)
open Matching (Quiet before test replaceFirst replaceAll)
open Scan (forall_mem_of_all)

variable {mayGo : Piece → Bool} {x y : Text} {q : Piece} {pieces pieces' : List Piece}
  {names : List Text} {called : Text → Bool}

/-! ## Taking one statement -/

section

variable {α : Type*} {r keep : α → Bool}

theorem filter_eraseP (h : ∀ a, r a = true → keep a = false) (l : List α) :
    (l.eraseP r).filter keep = l.filter keep := by
  induction l with
  | nil => rfl
  | cons a l ih =>
    cases ha : r a with
    | true =>
      rw [List.eraseP_cons_of_pos ha, List.filter_cons_of_neg]
      rw [h a ha]
      decide
    | false =>
      rw [List.eraseP_cons_of_neg (by simp [ha]), List.filter_cons, List.filter_cons, ih]

theorem filter_eraseP_self (l : List α) : (l.eraseP r).filter r = (l.filter r).tail := by
  induction l with
  | nil => rfl
  | cons a l ih =>
    cases ha : r a with
    | true =>
      rw [List.eraseP_cons_of_pos ha, List.filter_cons_of_pos ha]
      rfl
    | false =>
      rw [List.eraseP_cons_of_neg (by simp [ha]), List.filter_cons_of_neg (by simp [ha]),
        List.filter_cons_of_neg (by simp [ha]), ih]

end

theorem isAliasOf_inj (h : q.isAliasOf x = true) : q.isAliasOf y = (x == y) := by
  cases q with
  | aliasStmt reading a =>
    have ha : a.jsName = x := beq_iff_eq.1 h
    rw [← ha]
    rfl
  | decl place d => cases h
  | code tokens => cases h

theorem isAlias_of_isAliasOf (h : q.isAliasOf x = true) : q.isAlias = true := by
  cases q with
  | aliasStmt reading a => rfl
  | decl place d => cases h
  | code tokens => cases h

theorem exists_of_isAliasOf (h : q.isAliasOf x = true) :
    ∃ reading a, q = .aliasStmt reading a ∧ a.jsName = x := by
  cases q with
  | aliasStmt reading a => exact ⟨reading, a, rfl, beq_iff_eq.1 h⟩
  | decl place d => cases h
  | code tokens => cases h

theorem eraseP_alias {reading : Reading} {a : Alias} (ha : a.jsName = x) :
    (.aliasStmt reading a :: pieces).eraseP (Piece.isAliasOf x) = pieces :=
  List.eraseP_cons_of_pos (p := Piece.isAliasOf x) (beq_iff_eq.2 ha)

/-- The alias statements for a name when the first one for a name is gone. -/
theorem aliases_eraseP (x y : Text) (pieces : List Piece) :
    (pieces.eraseP (Piece.isAliasOf x)).filter (Piece.isAliasOf y) =
      (pieces.filter (Piece.isAliasOf y)).drop (if x = y then 1 else 0) := by
  split
  · rename_i hxy
    rw [← hxy, filter_eraseP_self, List.drop_one]
  · rename_i hxy
    rw [List.drop_zero]
    exact filter_eraseP (fun q hq => by rw [isAliasOf_inj hq]; simpa using hxy) pieces

/-! ## Pieces without the line breaks at their beginning -/

/-- A piece, if other code without the line breaks at its beginning. -/
def Piece.core : Piece → Piece
  | code tokens => code [.other ((code tokens).text.dropWhile (· == '\n'))]
  | q => q

theorem isAliasOf_core (x : Text) (q : Piece) : q.core.isAliasOf x = q.isAliasOf x := by
  cases q <;> rfl

theorem core_core (q : Piece) : q.core.core = q.core := by
  cases q with
  | aliasStmt reading a => rfl
  | decl place d => rfl
  | code tokens =>
    rw [Piece.core, Piece.core, text_other, List.dropWhile_idempotent]

theorem LineDropped.map_core (h : LineDropped pieces pieces') :
    pieces'.map Piece.core = pieces.map Piece.core := by
  induction h with
  | none => rfl
  | skip _ _ ih => rw [List.map_cons, List.map_cons, ih]
  | cut htext =>
    rw [List.map_cons, List.map_cons, Piece.core, Piece.core, text_other, htext,
      List.dropWhile_cons_of_pos (by decide)]

theorem map_core_eraseP (x : Text) (pieces : List Piece) :
    (pieces.eraseP (Piece.isAliasOf x)).map Piece.core
      = (pieces.map Piece.core).eraseP (Piece.isAliasOf x) := by
  rw [List.eraseP_map]
  exact congrArg (fun r => (pieces.eraseP r).map Piece.core)
    (funext fun q => (isAliasOf_core x q).symm)

/-- What `aliasStmt` takes, as a relation: the first alias statement for the name, and the line
break behind it. -/
inductive AliasCut (x : Text) : List Piece → List Piece → Prop
  | none : AliasCut x [] []
  | skip {q : Piece} {pieces pieces' : List Piece} (hq : q.isAliasOf x = false)
    (h : AliasCut x pieces pieces') : AliasCut x (q :: pieces) (q :: pieces')
  | whole {reading : Reading} {a : Alias} {pieces : List Piece} (ha : a.jsName = x)
    (hline : a.newline = true) : AliasCut x (.aliasStmt reading a :: pieces) pieces
  | line {reading : Reading} {a : Alias} {pieces pieces' : List Piece} (ha : a.jsName = x)
    (hline : a.newline = false) (h : LineDropped pieces pieces') :
    AliasCut x (.aliasStmt reading a :: pieces) pieces'

theorem aliasCut (x : Text) (pieces : List Piece) : AliasCut x pieces (cutAlias x pieces) := by
  induction pieces with
  | nil => exact .none
  | cons q pieces ih =>
    by_cases hq : q.isAliasOf x = true
    · obtain ⟨reading, a, rfl, ha⟩ := exists_of_isAliasOf hq
      rw [cutAlias_alias ha]
      split
      · rename_i hline
        exact .whole ha hline
      · rename_i hline
        exact .line ha (by simpa using hline) (lineDropped pieces)
    · rw [Bool.not_eq_true] at hq
      rw [cutAlias_of_not hq]
      exact .skip hq ih

theorem AliasCut.map_core (h : AliasCut x pieces pieces') :
    pieces'.map Piece.core = (pieces.eraseP (Piece.isAliasOf x)).map Piece.core := by
  induction h with
  | none => rfl
  | skip hq _ ih => rw [List.eraseP_cons_of_neg (by simp [hq]), List.map_cons, List.map_cons, ih]
  | whole ha _ => rw [eraseP_alias ha]
  | line ha _ hdrop => rw [eraseP_alias ha, hdrop.map_core]

/-! ## The pieces the loop leaves -/

/-- The pieces without the first alias statements for some names. -/
def leftOf (called : Text → Bool) : List Text → List Piece → List Piece
  | [], pieces => pieces
  | x :: names, pieces =>
    leftOf called names (if called x then pieces else pieces.eraseP (Piece.isAliasOf x))

/-- The pieces without what the script takes for them. -/
def cuts (called : Text → Bool) : List Text → List Piece → List Piece
  | [], pieces => pieces
  | x :: names, pieces => cuts called names (if called x then pieces else cutAlias x pieces)

theorem map_core_leftOf (called : Text → Bool) (names : List Text) (pieces : List Piece) :
    (leftOf called names pieces).map Piece.core = leftOf called names (pieces.map Piece.core) := by
  induction names generalizing pieces with
  | nil => rfl
  | cons x names ih =>
    rw [leftOf, leftOf, ih]
    split
    · rfl
    · rw [map_core_eraseP]

/-- **Only line breaks at the beginning of other code are different.** -/
theorem cuts_core (called : Text → Bool) (names : List Text) (pieces : List Piece) :
    (cuts called names pieces).map Piece.core = (leftOf called names pieces).map Piece.core := by
  rw [map_core_leftOf]
  induction names generalizing pieces with
  | nil => rfl
  | cons x names ih =>
    rw [cuts, leftOf, ih]
    split
    · rfl
    · rw [(aliasCut x pieces).map_core, map_core_eraseP]

/-- What does not see these line breaks is the same for both. -/
theorem map_cuts {β : Type*} {g : Piece → β} (hg : ∀ q : Piece, g q.core = g q)
    (called : Text → Bool) (names : List Text) (pieces : List Piece) :
    (cuts called names pieces).map g = (leftOf called names pieces).map g := by
  have hcore : ∀ l : List Piece, l.map g = (l.map Piece.core).map g := fun l => by
    rw [List.map_map]
    exact List.map_congr_left fun q _ => (hg q).symm
  rw [hcore, cuts_core, ← hcore]

theorem aliases_leftOf (called : Text → Bool) (names : List Text) (pieces : List Piece)
    (x : Text) : (leftOf called names pieces).filter (Piece.isAliasOf x) =
      (pieces.filter (Piece.isAliasOf x)).drop (if called x then 0 else names.count x) := by
  induction names generalizing pieces with
  | nil => simp [leftOf]
  | cons y names ih =>
    rw [leftOf, ih, List.count_cons]
    by_cases hxy : y = x
    · subst hxy
      cases hy : called y with
      | true => simp
      | false =>
        rw [if_neg Bool.false_ne_true, if_neg Bool.false_ne_true, if_neg Bool.false_ne_true,
          aliases_eraseP, if_pos rfl, List.drop_drop, if_pos (beq_self_eq_true y)]
        exact congrArg (List.drop · _) (Nat.add_comm _ _)
    · have hsame : (if called y then pieces else pieces.eraseP (Piece.isAliasOf y)).filter
          (Piece.isAliasOf x) = pieces.filter (Piece.isAliasOf x) := by
        split
        · rfl
        · rw [aliases_eraseP, if_neg hxy, List.drop_zero]
      rw [hsame, if_neg (show ¬ (y == x) = true by simpa using hxy), Nat.add_zero]

theorem leftOf_sublist (called : Text → Bool) (names : List Text) (pieces : List Piece) :
    (leftOf called names pieces).Sublist pieces := by
  induction names generalizing pieces with
  | nil => exact List.Sublist.refl pieces
  | cons x names ih =>
    rw [leftOf]
    split
    · exact ih pieces
    · exact (ih _).trans List.eraseP_sublist

/-- What the loop takes out, as far as the names are not called. -/
def Taken (called : Text → Bool) (names : List Text) (pieces : List Piece) (r : Piece → Prop) :
    Prop :=
  ∀ x, called x = false → ∀ q ∈ (pieces.filter (Piece.isAliasOf x)).take (names.count x), r q

section Taken

variable {r : Piece → Prop}

theorem Taken.skip (h : Taken called (x :: names) pieces r) (hx : called x = true) :
    Taken called names pieces r := by
  intro y hy q hq
  refine h y hy q ?_
  rwa [List.count_cons, if_neg, Nat.add_zero]
  rw [beq_iff_eq]
  rintro rfl
  rw [hx] at hy
  cases hy

theorem Taken.next (h : Taken called (x :: names) pieces r) {pieces' : List Piece}
    (haliases : ∀ y, pieces'.filter (Piece.isAliasOf y) =
      (pieces.filter (Piece.isAliasOf y)).drop (if x = y then 1 else 0)) :
    Taken called names pieces' r := by
  intro y hy q hq
  refine h y hy q ?_
  rw [haliases, List.take_drop] at hq
  rw [List.count_cons]
  by_cases hxy : x = y
  · rw [if_pos hxy] at hq
    rw [if_pos (by simpa using hxy)]
    rw [Nat.add_comm] at hq
    exact List.mem_of_mem_drop hq
  · rw [if_neg hxy, List.drop_zero] at hq
    rwa [if_neg (by simpa using hxy), Nat.add_zero, ← Nat.zero_add (names.count y)]

/-- The first alias statement is taken out. -/
theorem Taken.head (h : Taken called (x :: names) pieces r) (hx : called x = false) :
    ∀ q ∈ pieces.find? (Piece.isAliasOf x), r q := by
  intro q hq
  refine h x hx q ?_
  rw [← List.head?_filter] at hq
  obtain ⟨l, hl⟩ := List.head?_eq_some_iff.1 (Option.mem_def.1 hq)
  rw [hl, List.count_cons_self, List.take_succ_cons]
  exact List.mem_cons_self

end Taken

/-- What is not taken out stays. -/
theorem filter_leftOf {keep : Piece → Bool}
    (h : Taken called names pieces fun q => keep q = false) :
    (leftOf called names pieces).filter keep = pieces.filter keep := by
  induction names generalizing pieces with
  | nil => rfl
  | cons x names ih =>
    rw [leftOf]
    cases hx : called x with
    | true => exact ih (h.skip hx)
    | false =>
      rw [if_neg Bool.false_ne_true, ih (h.next fun y => aliases_eraseP x y pieces)]
      have hfirst := h.head hx
      clear ih h
      induction pieces with
      | nil => rfl
      | cons q pieces ih =>
        cases hq : q.isAliasOf x with
        | true =>
          rw [List.find?_cons_of_pos hq] at hfirst
          rw [List.eraseP_cons_of_pos hq, List.filter_cons_of_neg]
          simp [hfirst q rfl]
        | false =>
          rw [List.find?_cons_of_neg (by simp [hq])] at hfirst
          rw [List.eraseP_cons_of_neg (by simp [hq]), List.filter_cons, List.filter_cons,
            ih hfirst]

/-! ## Line breaks -/

/-- The line breaks at the beginning of other code. -/
def Piece.lineBreaks : Piece → Nat
  | code tokens => ((code tokens).text.takeWhile (· == '\n')).length
  | _ => 0

/-- The line breaks that an alias statement can take with it. -/
def spare : List Piece → Nat
  | [] => 0
  | q :: pieces => q.lineBreaks + spare pieces

theorem spare_cons (q : Piece) (pieces : List Piece) :
    spare (q :: pieces) = q.lineBreaks + spare pieces := rfl

theorem lineBreaks_of_isAliasOf (h : q.isAliasOf x = true) : q.lineBreaks = 0 := by
  obtain ⟨reading, a, rfl, -⟩ := exists_of_isAliasOf h
  rfl

theorem spare_eraseP (x : Text) (pieces : List Piece) :
    spare (pieces.eraseP (Piece.isAliasOf x)) = spare pieces := by
  induction pieces with
  | nil => rfl
  | cons q pieces ih =>
    cases hq : q.isAliasOf x with
    | true => rw [List.eraseP_cons_of_pos hq, spare_cons, lineBreaks_of_isAliasOf hq, Nat.zero_add]
    | false => rw [List.eraseP_cons_of_neg (by simp [hq]), spare_cons, spare_cons, ih]

theorem LineDropped.eq_self (h : LineDropped pieces pieces')
    (hhead : (textOf pieces).head? ≠ some '\n') : pieces' = pieces := by
  induction h with
  | none => rfl
  | skip htext _ ih =>
    rw [textOf_cons, htext] at hhead
    rw [ih hhead]
  | cut htext =>
    rw [textOf_cons, htext] at hhead
    exact absurd rfl hhead

theorem LineDropped.spare_eq (h : LineDropped pieces pieces')
    (hhead : (textOf pieces).head? = some '\n') : spare pieces' + 1 = spare pieces := by
  induction h with
  | none hne => exact absurd hhead hne
  | skip htext _ ih =>
    rw [textOf_cons, htext] at hhead
    rw [spare_cons, spare_cons, Nat.add_assoc, ih hhead]
  | cut htext =>
    rw [spare_cons, spare_cons, Piece.lineBreaks, Piece.lineBreaks, text_other, htext,
      List.takeWhile_cons_of_pos (by decide), List.length_cons]
    omega

theorem lineKept_alias {reading : Reading} {a : Alias} (h : a.jsName = x) :
    LineKept x (.aliasStmt reading a :: pieces) ↔
      (a.newline = false → (textOf pieces).head? ≠ some '\n') := by
  rw [LineKept, if_pos h]

theorem lineKept_of_not (h : q.isAliasOf x = false) :
    LineKept x (q :: pieces) ↔ LineKept x pieces := by
  cases q with
  | aliasStmt reading a => rw [LineKept, if_neg (beq_eq_false_iff_ne.1 h)]
  | decl place d => rfl
  | code tokens => rfl

/-- Nothing is lost where nothing is taken. -/
theorem linesKept_of_none
    (h : ∀ x ∈ names, called x = false → pieces.any (Piece.isAliasOf x) = false) :
    LinesKept called names pieces := by
  have hline : ∀ {x : Text} {l : List Piece}, l.any (Piece.isAliasOf x) = false → LineKept x l := by
    intro x l hl
    induction l with
    | nil => trivial
    | cons q l ih =>
      rw [List.any_cons, Bool.or_eq_false_iff] at hl
      exact (lineKept_of_not hl.1).2 (ih hl.2)
  induction names with
  | nil => trivial
  | cons x names ih =>
    have hrest := ih fun y hy => h y (List.mem_cons_of_mem x hy)
    rw [LinesKept]
    split
    · exact hrest
    · rename_i hx
      have hany := h x List.mem_cons_self (by simpa using hx)
      refine ⟨hline hany, ?_⟩
      rwa [List.eraseP_of_forall_not fun q hq hqx =>
        Bool.false_ne_true (hany.symm.trans (List.any_eq_true.2 ⟨q, hq, hqx⟩))]

/-- Where no line break is lost. -/
theorem AliasCut.eq_eraseP (h : AliasCut x pieces pieces') (hkept : LineKept x pieces) :
    pieces' = pieces.eraseP (Piece.isAliasOf x) := by
  induction h with
  | none => rfl
  | skip hq _ ih =>
    rw [List.eraseP_cons_of_neg (by simp [hq]), ih ((lineKept_of_not hq).1 hkept)]
  | whole ha _ => rw [eraseP_alias ha]
  | line ha hline hdrop =>
    rw [eraseP_alias ha,
      hdrop.eq_self ((lineKept_alias ha).1 hkept hline)]

/-- Where one is lost. -/
theorem AliasCut.spare_eq (h : AliasCut x pieces pieces') (hlost : ¬ LineKept x pieces) :
    spare pieces' + 1 = spare pieces := by
  induction h with
  | none => exact absurd trivial hlost
  | skip hq _ ih =>
    rw [lineKept_of_not hq] at hlost
    rw [spare_cons, spare_cons, Nat.add_assoc, ih hlost]
  | whole ha hline =>
    refine absurd ((lineKept_alias ha).2 fun h => ?_) hlost
    rw [hline] at h
    cases h
  | line ha _ hdrop =>
    rw [lineKept_alias ha, Classical.not_imp, not_not] at hlost
    rw [hdrop.spare_eq hlost.2, spare_cons]
    exact (Nat.zero_add _).symm

theorem spare_cuts_le (called : Text → Bool) (names : List Text) (pieces : List Piece) :
    spare (cuts called names pieces) ≤ spare pieces := by
  induction names generalizing pieces with
  | nil => exact Nat.le_refl _
  | cons x names ih =>
    rw [cuts]
    split
    · exact ih pieces
    · refine (ih _).trans ?_
      by_cases hx : LineKept x pieces
      · rw [(aliasCut x pieces).eq_eraseP hx, spare_eraseP]
      · exact (Nat.le_succ _).trans ((aliasCut x pieces).spare_eq hx).le

/-- **The loop keeps all line breaks.** -/
theorem cuts_of_linesKept (h : LinesKept called names pieces) :
    cuts called names pieces = leftOf called names pieces := by
  induction names generalizing pieces with
  | nil => rfl
  | cons x names ih =>
    rw [LinesKept] at h
    rw [cuts, leftOf]
    split
    · rename_i hx
      rw [if_pos hx] at h
      exact ih h
    · rename_i hx
      rw [if_neg hx] at h
      rw [(aliasCut x pieces).eq_eraseP h.1, ih h.2]

/-- **Or it does not.** -/
theorem spare_cuts_lt (h : ¬ LinesKept called names pieces) :
    spare (cuts called names pieces) < spare pieces := by
  induction names generalizing pieces with
  | nil => exact absurd trivial h
  | cons x names ih =>
    rw [LinesKept] at h
    rw [cuts]
    split
    · rename_i hx
      rw [if_pos hx] at h
      exact ih h
    · rename_i hx
      rw [if_neg hx] at h
      by_cases hline : LineKept x pieces
      · have hlater := ih fun hlines => h ⟨hline, hlines⟩
        rwa [spare_eraseP, ← (aliasCut x pieces).eq_eraseP hline] at hlater
      · have hlost := (aliasCut x pieces).spare_eq hline
        have hrest := spare_cuts_le called names (cutAlias x pieces)
        omega

/-! ## Loaders without some statements -/

theorem IsCode.tail {follows : Text → Prop} {t : Text} (h : IsCode follows ('\n' :: t)) :
    IsCode follows t where
  word_ends s hs hlast := by
    refine h.word_ends s hs ?_
    match t, hlast with
    | c :: t, hlast => rwa [List.getLast?_cons_cons]
  alias_quiet x p s hp hs := by
    refine (Matching.quiet_congr fun s => ?_).1 (h.alias_quiet x none s rfl hs).2
    rw [aliasAt, aliasAt, hp]
    rfl
  var_quiet names p s hp hs := by
    refine (Matching.quiet_congr fun s => ?_).1 (h.var_quiet names none s rfl hs).2
    rw [varMatcher, varMatcher, boundary_of_not_word hp, boundary_of_not_word (p := some '\n') rfl]

theorem LineDropped.sound (h : LineDropped pieces pieces') (hsound : Sound mayGo pieces) :
    Sound mayGo pieces' := by
  induction h with
  | none => exact hsound
  | skip htext _ ih => exact ⟨htext ▸ isCode_nil _, ih hsound.2⟩
  | cut htext =>
    have hcode := hsound.1
    rw [htext] at hcode
    refine ⟨?_, hsound.2⟩
    rw [text_other]
    exact hcode.tail

/-- Without its first line break, other code is among what may be left of it. -/
theorem LineDropped.follows (h : LineDropped pieces pieces') {s : Text}
    (hs : Follows mayGo pieces' s) : Follows mayGo pieces s := by
  induction h generalizing s with
  | none => exact hs
  | skip _ _ ih =>
    obtain ⟨t, u, ht, hu, heq⟩ := hs
    exact ⟨t, u, ht, ih hu, heq⟩
  | cut htext =>
    obtain ⟨t, u, ⟨v, hv, hw⟩, hu, heq⟩ := hs
    rw [text_other] at hw
    refine ⟨t, u, ⟨'\n' :: v, List.forall_mem_cons.2 ⟨rfl, hv⟩, ?_⟩, hu, heq⟩
    rw [htext, hw, List.cons_append]

theorem LineDropped.separated (h : LineDropped pieces pieces') (hsep : Separated pieces) :
    Separated pieces' := by
  induction h with
  | none => exact hsep
  | skip htext _ ih => exact ⟨fun _ => htext ▸ rfl, ih hsep.2⟩
  | cut htext =>
    refine ⟨fun hnext => ?_, hsep.2⟩
    have hlast := hsep.1 hnext
    rw [htext] at hlast
    rw [text_other]
    rename_i t _
    rcases t with _ | ⟨d, t⟩
    · rfl
    · rwa [List.getLast?_cons_cons] at hlast

theorem find?_cons_of_isAliasOf (hq : q.isAliasOf x = false)
    (hfirst : ∀ r ∈ (q :: pieces).find? (Piece.isAliasOf x), mayGo r = true) :
    ∀ r ∈ pieces.find? (Piece.isAliasOf x), mayGo r = true := by
  rwa [List.find?_cons_of_neg (by simp [hq])] at hfirst

theorem AliasCut.follows (h : AliasCut x pieces pieces')
    (hfirst : ∀ q ∈ pieces.find? (Piece.isAliasOf x), mayGo q = true) {s : Text}
    (hs : Follows mayGo pieces' s) : Follows mayGo pieces s := by
  induction h generalizing s with
  | none => exact hs
  | skip hq _ ih =>
    obtain ⟨t, u, ht, hu, heq⟩ := hs
    exact ⟨t, u, ht, ih (find?_cons_of_isAliasOf hq hfirst) hu, heq⟩
  | whole ha _ =>
    exact ⟨[], s, .inr ⟨hfirst _ (List.find?_cons_of_pos (beq_iff_eq.2 ha)), rfl⟩, hs, rfl⟩
  | line ha _ hdrop =>
    exact ⟨[], s, .inr ⟨hfirst _ (List.find?_cons_of_pos (beq_iff_eq.2 ha)), rfl⟩,
      hdrop.follows hs, rfl⟩

/-- Without a statement that may go, other code stays as it has to be. -/
theorem AliasCut.sound (h : AliasCut x pieces pieces') (hsound : Sound mayGo pieces)
    (hfirst : ∀ q ∈ pieces.find? (Piece.isAliasOf x), mayGo q = true) : Sound mayGo pieces' := by
  induction h with
  | none => exact hsound
  | @skip q _ _ hq hcut ih =>
    have hrest := find?_cons_of_isAliasOf hq hfirst
    have htail := ih hsound.tail hrest
    cases q with
    | aliasStmt reading a => exact htail
    | decl place d => exact htail
    | code tokens => exact ⟨hsound.1.mono fun s hs => hcut.follows hrest hs, htail⟩
  | whole => exact hsound
  | line _ _ hdrop => exact hdrop.sound hsound

theorem AliasCut.aliasNext_of (h : AliasCut x pieces pieces') (hnext : aliasNext pieces' = true) :
    aliasNext pieces = true := by
  induction h with
  | none => exact hnext
  | @skip q _ _ _ _ ih =>
    cases q with
    | aliasStmt reading a => rfl
    | decl place d => exact hnext
    | code tokens =>
      rw [aliasNext, Bool.and_eq_true] at hnext ⊢
      exact ⟨hnext.1, ih hnext.2⟩
  | whole => rfl
  | line => rfl

theorem AliasCut.separated (h : AliasCut x pieces pieces') (hsep : Separated pieces) :
    Separated pieces' := by
  induction h with
  | none => exact hsep
  | @skip q _ _ _ hcut ih =>
    have htail := ih hsep.tail
    cases q with
    | aliasStmt reading a => exact htail
    | decl place d => exact htail
    | code tokens => exact ⟨fun hnext => hsep.1 (hcut.aliasNext_of hnext), htail⟩
  | whole => exact hsep
  | line _ _ hdrop => exact hdrop.separated hsep

/-! ## The loop -/

theorem filter_map_core (x : Text) (pieces : List Piece) :
    (pieces.map Piece.core).filter (Piece.isAliasOf x) = pieces.filter (Piece.isAliasOf x) := by
  induction pieces with
  | nil => rfl
  | cons q pieces ih =>
    rw [List.map_cons, List.filter_cons, List.filter_cons, isAliasOf_core, ih]
    split
    · rename_i hq
      obtain ⟨reading, a, rfl, -⟩ := exists_of_isAliasOf hq
      rfl
    · rfl

theorem aliases_cutAlias (x y : Text) (pieces : List Piece) :
    (cutAlias x pieces).filter (Piece.isAliasOf y) =
      (pieces.filter (Piece.isAliasOf y)).drop (if x = y then 1 else 0) := by
  rw [← filter_map_core, (aliasCut x pieces).map_core, filter_map_core, aliases_eraseP]

theorem cutAlias_of_none (h : pieces.any (Piece.isAliasOf x) = false) :
    cutAlias x pieces = pieces := by
  induction pieces with
  | nil => rfl
  | cons q pieces ih =>
    rw [List.any_cons, Bool.or_eq_false_iff] at h
    rw [cutAlias_of_not h.1, ih h.2]

theorem any_isAliasOf_cutAlias (h : x ≠ y) (pieces : List Piece) :
    (cutAlias x pieces).any (Piece.isAliasOf y) = pieces.any (Piece.isAliasOf y) := by
  have hsame := aliases_cutAlias x y pieces
  rw [if_neg h, List.drop_zero] at hsame
  rw [Bool.eq_iff_iff, List.any_eq_true, List.any_eq_true]
  simp only [← List.mem_filter, hsame]

/-- The alias statements that are left for a name are its last ones. -/
theorem aliases_cuts (called : Text → Bool) (names : List Text) (pieces : List Piece) (x : Text) :
    (cuts called names pieces).filter (Piece.isAliasOf x) =
      (pieces.filter (Piece.isAliasOf x)).drop (if called x then 0 else names.count x) := by
  rw [← filter_map_core, cuts_core, filter_map_core, aliases_leftOf]

/-- A call does not begin with a line break. -/
theorem test_calledMatcher_core (x : Word) (q : Piece) :
    test (calledMatcher x.text) none q.core.text = test (calledMatcher x.text) none q.text := by
  cases q with
  | aliasStmt reading a => rfl
  | decl place d => rfl
  | code tokens =>
    rw [Piece.core, text_other]
    generalize (Piece.code tokens).text = t
    induction t with
    | nil => rfl
    | cons c t ih =>
      by_cases hc : c = '\n'
      · subst hc
        have hquiet : Quiet (calledMatcher x.text) none ['\n'] t :=
          quiet_calledMatcher_of_not_word (forall_mem_of_all (by decide))
        have hskip := Matching.test_quiet hquiet
        rw [List.dropWhile_cons_of_pos (by decide), ih]
        refine Eq.trans (Matching.test_congr (fun s => ?_) t) hskip.symm
        exact (calledMatcher_none (breaks_of_not_word (p := some '\n') rfl s)).symm
      · rw [List.dropWhile_cons_of_neg (by simpa using hc)]

/-- Whether a name is called does not depend on the alias statements. -/
theorem isCalled_cutAlias (h : Sound mayGo pieces)
    (hfirst : ∀ q ∈ pieces.find? (Piece.isAliasOf x), mayGo q = true) (y : Word) :
    isCalled (cutAlias x pieces) y.text = isCalled pieces y.text := by
  have hcore : ∀ l : List Piece,
      ((l.filter fun q => !q.isAlias).any fun q => test (calledMatcher y.text) none q.text) =
        ((l.map Piece.core).filter fun q => !q.isAlias).any fun q =>
          test (calledMatcher y.text) none q.text := by
    intro l
    induction l with
    | nil => rfl
    | cons q l ih =>
      have hq : q.core.isAlias = q.isAlias := by cases q <;> rfl
      rw [List.map_cons, List.filter_cons, List.filter_cons, hq]
      split
      · rw [List.any_cons, List.any_cons, ih, test_calledMatcher_core]
      · exact ih
  rw [isCalled, isCalled, test_textOf ((aliasCut x pieces).sound h hfirst) (breaks_none _),
    test_textOf h (breaks_none _), hcore (cutAlias x pieces), (aliasCut x pieces).map_core,
    ← hcore,
    filter_eraseP fun q hq => by simpa using isAlias_of_isAliasOf hq]

/-- What the loop has made of a loader when it is done with some names. -/
structure LoopRight (mayGo : Piece → Bool) (called : Text → Bool) (names : List Text)
    (pieces : List Piece) (st st' : State) : Prop where
  js : st'.js = textOf (cuts called names pieces)
  sound : Sound mayGo (cuts called names pieces)
  stripped : ∀ x, x ∈ st'.stripped ↔
    x ∈ st.stripped ∨ (x ∈ names ∧ pieces.any (Piece.isAliasOf x) = true ∧ called x = false)
  removed : (st.removedAliases = 0 ↔ st.stripped = []) →
    (st'.removedAliases = 0 ↔ st'.stripped = [])

section LoopRight

variable {st st' : State}

/-- A name that is called is passed over. -/
theorem LoopRight.skip (h : LoopRight mayGo called names pieces st st') (hx : called x = true) :
    LoopRight mayGo called (x :: names) pieces st st' := by
  have hcuts : cuts called (x :: names) pieces = cuts called names pieces := by
    rw [cuts, if_pos hx]
  refine ⟨hcuts ▸ h.js, hcuts ▸ h.sound, fun y => ?_, h.removed⟩
  rw [h.stripped, List.mem_cons]
  refine or_congr_right ⟨fun hy => ⟨.inr hy.1, hy.2⟩, fun hy => ⟨hy.1.resolve_left ?_, hy.2⟩⟩
  rintro rfl
  rw [hx] at hy
  cases hy.2.2

/-- A name without an alias statement is passed over, too. -/
theorem LoopRight.none (h : LoopRight mayGo called names pieces st st')
    (hany : pieces.any (Piece.isAliasOf x) = false) :
    LoopRight mayGo called (x :: names) pieces st st' := by
  have hcuts : cuts called (x :: names) pieces = cuts called names pieces := by
    rw [cuts, cutAlias_of_none hany, ite_self]
  refine ⟨hcuts ▸ h.js, hcuts ▸ h.sound, fun y => ?_, h.removed⟩
  rw [h.stripped, List.mem_cons]
  refine or_congr_right ⟨fun hy => ⟨.inr hy.1, hy.2⟩, fun hy => ⟨hy.1.resolve_left ?_, hy.2⟩⟩
  rintro rfl
  rw [hany] at hy
  cases hy.2.1

/-- The first alias statement for a name goes. -/
theorem LoopRight.take {js : Text} (h : LoopRight mayGo called names (cutAlias x pieces)
      ⟨js, x :: st.stripped, st.removedAliases + 1⟩ st')
    (hx : called x = false) (hany : pieces.any (Piece.isAliasOf x) = true) :
    LoopRight mayGo called (x :: names) pieces st st' := by
  have hcuts : cuts called (x :: names) pieces = cuts called names (cutAlias x pieces) := by
    rw [cuts, hx, if_neg Bool.false_ne_true]
  refine ⟨hcuts ▸ h.js, hcuts ▸ h.sound, fun y => ?_, fun _ => h.removed (by simp)⟩
  rw [h.stripped, List.mem_cons, List.mem_cons]
  by_cases hxy : y = x
  · subst hxy
    simp [hany, hx]
  · rw [any_isAliasOf_cutAlias (Ne.symm hxy)]
    simp [hxy]

end LoopRight

/-- **One name.** -/
theorem stripAlias_eq (h : Sound mayGo pieces) (hsep : Separated pieces) (x : Word) {st : State}
    (hjs : st.js = textOf pieces) :
    stripAlias st x.text =
      if isCalled pieces x.text then st
      else if pieces.any (Piece.isAliasOf x.text) then
        ⟨textOf (cutAlias x.text pieces), x.text :: st.stripped, st.removedAliases + 1⟩
      else st := by
  rw [stripAlias, hjs, replaceFirst_textOf h hsep (breaks_none _), isCalled]
  cases pieces.any (Piece.isAliasOf x.text) <;> rfl

/-- **All names.** -/
theorem loop_right (h : Sound mayGo pieces) (hsep : Separated pieces)
    (hcalled : ∀ y : Word, isCalled pieces y.text = called y.text)
    (hnames : ∀ x ∈ names, x ≠ [] ∧ ∀ c ∈ x, isWord c = true)
    (htaken : Taken called names pieces fun q => mayGo q = true) {st : State}
    (hjs : st.js = textOf pieces) :
    LoopRight mayGo called names pieces st (names.foldl stripAlias st) := by
  induction names generalizing pieces st with
  | nil => exact ⟨hjs, h, fun x => by simp, id⟩
  | cons x names ih =>
    obtain ⟨hne, hword⟩ := hnames x List.mem_cons_self
    have hrest : ∀ y ∈ names, y ≠ [] ∧ ∀ c ∈ y, isWord c = true := fun y hy =>
      hnames y (List.mem_cons_of_mem x hy)
    have hone := stripAlias_eq h hsep ⟨x, hne, hword⟩ hjs
    rw [hcalled] at hone
    dsimp only at hone
    rw [List.foldl_cons, hone]
    cases hx : called x with
    | true => exact (ih h hsep hcalled hrest (htaken.skip hx) hjs).skip hx
    | false =>
      have hfirst := htaken.head hx
      have hnext := htaken.next fun y => aliases_cutAlias x y pieces
      cases hany : pieces.any (Piece.isAliasOf x) with
      | true =>
        exact (ih ((aliasCut x pieces).sound h hfirst) ((aliasCut x pieces).separated hsep)
          (fun y => (isCalled_cutAlias h hfirst y).trans (hcalled y)) hrest hnext rfl).take hx hany
      | false =>
        rw [cutAlias_of_none hany] at hnext
        exact (ih h hsep hcalled hrest hnext hjs).none hany

end PhpWasm.Build.StripAliases
