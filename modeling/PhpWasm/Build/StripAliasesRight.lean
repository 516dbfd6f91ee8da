import PhpWasm.Build.StripAliasesFits

/-!
# Which loaders are stripped rightly

The text that the script leaves is compared with the text that has to be left: as many alias
statements are in both, the declarations are the same, and what is between the alias statements says
which of them are left.  So a loader that is stripped rightly fits (`Known.fits`), as far as its
pieces can be told from its text.
-/

set_option autoImplicit false

namespace PhpWasm.Build.StripAliases

open Vendored (Text)
open Matching (before)
open Scan (forall_mem_of_all)

variable {pieces : List Piece} {names : List Text} {x : Text} {removed : Text → Bool}

/-! ## What becomes of the pieces -/

/-- Two lists are equal only if they are so piece by piece, when one leaves out what the other
does. -/
theorem filterMap_eq_filterMap {α β : Type*} {f g : α → Option β} {l : List α}
    (hnone : ∀ a ∈ l, g a = none → f a = none) (h : l.filterMap f = l.filterMap g) :
    ∀ a ∈ l, f a = g a := by
  have hle : ∀ l : List α, (∀ a ∈ l, g a = none → f a = none) →
      (l.filterMap f).length ≤ (l.filterMap g).length := by
    intro l
    induction l with
    | nil => simp
    | cons a l ih =>
      intro hl
      have hrest := ih fun b hb => hl b (List.mem_cons_of_mem a hb)
      rw [List.filterMap_cons, List.filterMap_cons]
      match hg : g a with
      | none =>
        rw [hl a List.mem_cons_self hg]
        exact hrest
      | some c =>
        match f a with
        | none => exact hrest.trans (Nat.le_succ _)
        | some b => exact Nat.succ_le_succ hrest
  induction l with
  | nil => simp
  | cons a l ih =>
    have hrest : ∀ b ∈ l, g b = none → f b = none := fun b hb =>
      hnone b (List.mem_cons_of_mem a hb)
    rw [List.filterMap_cons, List.filterMap_cons] at h
    rw [List.forall_mem_cons]
    match hg : g a, hf : f a with
    | none, some b =>
      rw [hnone a List.mem_cons_self hg] at hf
      cases hf
    | none, none =>
      rw [hg, hf] at h
      exact ⟨rfl, ih hrest h⟩
    | some c, some b =>
      rw [hg, hf] at h
      exact ⟨congrArg some (List.cons.inj h).1, ih hrest (List.cons.inj h).2⟩
    | some c, none =>
      rw [hg, hf] at h
      have hlen : (l.filterMap f).length = (l.filterMap g).length + 1 := congrArg List.length h
      have hshort := hle l hrest
      omega

/-- The names of a declaration can be told from its text. -/
theorem mem_names_of_text_eq {d d' : Decl} (h : d.text = d'.text) :
    ∀ y ∈ d.names, y ∈ d'.names := by
  intro y hy
  have hd : varMatcher d'.names none (d.text ++ []) = _ := varMatcher_decl d rfl
  rw [h, varMatcher_decl d' rfl, Option.some_inj, Prod.mk.injEq] at hd
  have hnone : d'.names.filter (· ∉ d'.names) = [] := List.filter_eq_nil_iff.2 fun z hz => by
    simpa using hz
  rw [hnone] at hd
  have hempty := declaration_eq_nil hd.1.symm
  by_contra hmem
  exact absurd (List.mem_filter.2 ⟨hy, decide_eq_true hmem⟩) (by rw [hempty]; simp)

/-- What becomes of a piece is itself, or another declaration if it is one. -/
def Rewrites (f : Piece → Option Piece) : Prop :=
  ∀ q, (∀ tokens, q = .code tokens → f q = some q) ∧ ∀ r, f q = some r →
    r = q ∨ ∃ place d place' d', q = .decl place d ∧ r = .decl place' d'

section Rewrites

variable {f : Piece → Option Piece}

theorem Rewrites.leaves (hf : Rewrites f) {q r : Piece} (hr : f q = some r) {t : Text}
    (ht : r.Leaves (fun _ => true) t) : q.Leaves (fun _ => true) t := by
  rcases (hf q).2 r hr with rfl | ⟨place, d, place', d', rfl, rfl⟩
  · exact ht
  · rcases ht with rfl | ⟨-, rfl | ⟨d'', rfl⟩⟩
    · exact .inr ⟨rfl, .inr ⟨d', rfl⟩⟩
    · exact .inr ⟨rfl, .inl rfl⟩
    · exact .inr ⟨rfl, .inr ⟨d'', rfl⟩⟩

theorem Rewrites.leaves_nil (hf : Rewrites f) {q : Piece} (hq : f q = none) :
    q.Leaves (fun _ => true) [] := by
  cases q with
  | aliasStmt reading a => exact .inr ⟨rfl, rfl⟩
  | decl place d => exact .inr ⟨rfl, .inl rfl⟩
  | code tokens =>
    rw [(hf _).1 tokens rfl] at hq
    cases hq

/-- What is left of the pieces is among what may be left of them. -/
theorem Rewrites.follows (hf : Rewrites f) {s : Text}
    (h : Follows (fun _ => true) (pieces.filterMap f) s) :
    Follows (fun _ => true) pieces s := by
  induction pieces generalizing s with
  | nil => exact h
  | cons q pieces ih =>
    match hq : f q with
    | none =>
      rw [List.filterMap_cons_none hq] at h
      exact ⟨[], s, hf.leaves_nil hq, ih h, rfl⟩
    | some r =>
      rw [List.filterMap_cons_some hq] at h
      obtain ⟨t, u, ht, hu, hs⟩ := h
      exact ⟨t, u, hf.leaves hq ht, ih hu, hs⟩

/-- Other code stays as it has to be. -/
theorem Rewrites.sound (hf : Rewrites f) (h : Sound (fun _ => true) pieces) :
    Sound (fun _ => true) (pieces.filterMap f) := by
  induction pieces with
  | nil => trivial
  | cons q pieces ih =>
    have hrest := ih h.tail
    match hq : f q with
    | none => rwa [List.filterMap_cons_none hq]
    | some r =>
      rw [List.filterMap_cons_some hq]
      rcases (hf q).2 r hq with rfl | ⟨place, d, place', d', rfl, rfl⟩
      · cases r with
        | aliasStmt reading a => exact hrest
        | decl place d => exact hrest
        | code tokens => exact ⟨h.1.mono fun s hs => hf.follows hs, hrest⟩
      · exact hrest

end Rewrites

theorem rewrites_rewritePiece (removed : Text → Bool) : Rewrites (rewritePiece removed) := by
  refine fun q => ⟨fun tokens hq => hq ▸ rfl, fun r hr => ?_⟩
  cases q with
  | aliasStmt reading a => exact .inl (Option.some_inj.1 hr).symm
  | code tokens => exact .inl (Option.some_inj.1 hr).symm
  | decl place d =>
    obtain ⟨d', -, rfl⟩ := Option.map_eq_some_iff.1 hr
    exact .inr ⟨place, d, place, d'.tidy, rfl, rfl⟩

theorem rewrites_remove (removed : Text → Bool) : Rewrites (Piece.remove removed) := by
  refine fun q => ⟨fun tokens hq => hq ▸ rfl, fun r hr => ?_⟩
  cases q with
  | code tokens => exact .inl (Option.some_inj.1 hr).symm
  | aliasStmt reading a =>
    cases reading with
    | statement =>
      rw [Piece.remove] at hr
      split at hr
      · cases hr
      · exact .inl (Option.some_inj.1 hr).symm
    | part => exact .inl (Option.some_inj.1 hr).symm
    | quoted => exact .inl (Option.some_inj.1 hr).symm
  | decl place d =>
    cases place with
    | top =>
      obtain ⟨d', -, rfl⟩ := Option.map_eq_some_iff.1 hr
      exact .inr ⟨.top, d, .top, d', rfl, rfl⟩
    | inner => exact .inl (Option.some_inj.1 hr).symm
    | quoted => exact .inl (Option.some_inj.1 hr).symm

theorem countP_rewritePiece (removed : Text → Bool) (x : Text) (pieces : List Piece) :
    (pieces.filterMap (rewritePiece removed)).countP (Piece.isAliasOf x)
      = pieces.countP (Piece.isAliasOf x) := by
  rw [List.countP_filterMap]
  refine List.countP_congr fun q _ => ?_
  cases q with
  | aliasStmt reading a => rfl
  | code tokens => rfl
  | decl place d =>
    rw [rewritePiece]
    rcases d.cut removed with _ | d' <;> rfl

theorem countP_remove (removed : Text → Bool) (x : Text) (pieces : List Piece) :
    (pieces.filterMap (Piece.remove removed)).countP (Piece.isAliasOf x) +
        (if removed x then pieces.countP (Piece.isStatementOf x) else 0) =
      pieces.countP (Piece.isAliasOf x) := by
  have hpiece : ∀ q : Piece, ((q.remove removed).map (Piece.isAliasOf x)).getD false =
      (q.isAliasOf x && !(q.isStatement && removed x)) := by
    intro q
    cases q with
    | code tokens => rfl
    | aliasStmt reading a =>
      cases reading with
      | statement =>
        rw [Piece.remove]
        cases ha : removed a.jsName <;> by_cases hax : a.jsName = x <;>
          simp_all [Piece.isAliasOf, Piece.isStatement]
      | part => exact (Bool.and_true _).symm
      | quoted => exact (Bool.and_true _).symm
    | decl place d =>
      cases place with
      | top =>
        rw [Piece.remove]
        rcases d.cut removed with _ | d' <;> rfl
      | inner => rfl
      | quoted => rfl
  rw [List.countP_filterMap]
  simp only [hpiece]
  cases removed x with
  | false => simp
  | true =>
    rw [if_pos rfl, List.countP_eq_countP_filter_add pieces (Piece.isAliasOf x) Piece.isStatement,
      List.countP_filter, List.countP_filter, Nat.add_comm]
    simp only [Bool.and_true]
    rfl

/-- The loader that is left, where the script does what it is for. -/
structure Known (pieces : List Piece) (names : List Text) (removed : Text → Bool) : Prop where
  apart : Apart pieces
  sound : Sound (fun _ => true) (cuts (isCalled pieces) names pieces)
  right : Stripped pieces removed (textOf ((cuts (isCalled pieces) names pieces).filterMap
    (rewritePiece (isStripped pieces names))))

theorem Known.rewritten (h : Known pieces names removed) : Sound (fun _ => true)
    ((cuts (isCalled pieces) names pieces).filterMap (rewritePiece (isStripped pieces names))) :=
  (rewrites_rewritePiece _).sound h.sound

theorem Known.wanted (h : Known pieces names removed) :
    Sound (fun _ => true) (pieces.filterMap (Piece.remove removed)) :=
  (rewrites_remove _).sound h.apart.sound

/-! ### Counting alias statements -/

/-- As many alias statements are left as have to be. -/
theorem Known.countP_eq (h : Known pieces names removed) (a : Alias) :
    (pieces.countP (Piece.isAliasOf a.jsName) -
        if isCalled pieces a.jsName then 0 else names.count a.jsName) +
      (if removed a.jsName then pieces.countP (Piece.isStatementOf a.jsName) else 0) =
        pieces.countP (Piece.isAliasOf a.jsName) := by
  have hcount := congrArg (Matching.count (aliasAt a.jsName) none) h.right.text
  have hword : a.jsName = (⟨a.jsName, List.cons_ne_nil _ _, jsName_isWord a⟩ : Word).text := rfl
  rw [hword, count_textOf h.rewritten (breaks_none _), count_textOf h.wanted (breaks_none _),
    ← hword, countP_rewritePiece, List.countP_eq_length_filter, aliases_cuts, List.length_drop,
    ← List.countP_eq_length_filter] at hcount
  rw [hcount]
  exact countP_remove removed a.jsName pieces

/-- The names that are removed are the stripped ones. -/
theorem Known.removed_eq (h : Known pieces names removed) : removed = isStripped pieces names := by
  funext x
  rw [Bool.eq_iff_iff, isStripped_iff]
  constructor
  · intro hx
    have hstatements := List.countP_pos_iff.2 (List.any_eq_true.1 (h.right.aliased x hx))
    obtain ⟨q, hq, hstatement⟩ := List.any_eq_true.1 (h.right.aliased x hx)
    obtain ⟨a, rfl, rfl⟩ := isStatementOf_iff.1 hstatement
    have hany : pieces.any (Piece.isAliasOf a.jsName) = true :=
      List.any_eq_true.2 ⟨_, hq, beq_self_eq_true a.jsName⟩
    have hcount := h.countP_eq a
    rw [if_pos hx] at hcount
    cases hcalled : isCalled pieces a.jsName with
    | true =>
      rw [hcalled, if_pos rfl] at hcount
      omega
    | false =>
      rw [hcalled, if_neg Bool.false_ne_true] at hcount
      exact ⟨List.count_pos_iff.1 (by omega), hany, rfl⟩
  · rintro ⟨hmem, hany, hcalled⟩
    obtain ⟨reading, a, ha, rfl⟩ := exists_of_any hany
    have hpos := List.countP_pos_iff.2 (List.any_eq_true.1 hany)
    have hcount := h.countP_eq a
    rw [hcalled, if_neg Bool.false_ne_true] at hcount
    by_contra hkept
    rw [if_neg hkept] at hcount
    have honce := List.count_pos_iff.2 hmem
    omega

/-! ### Declarations -/

/-- Whatever does not see line breaks at the beginning of other code. -/
theorem filterMap_cuts {β : Type*} {f : Piece → Option β} (hf : ∀ q : Piece, f q.core = f q)
    (called : Text → Bool) (names : List Text) (pieces : List Piece) :
    (cuts called names pieces).filterMap f = (leftOf called names pieces).filterMap f := by
  have hmap : ∀ l : List Piece, l.filterMap f = (l.map f).filterMap id := fun l => by
    rw [List.filterMap_map]
    rfl
  rw [hmap, hmap, map_cuts hf]

/-- What is no alias statement stays. -/
theorem filter_leftOf_of_alias {keep : Piece → Bool}
    (hkeep : ∀ q, q.isAlias = true → keep q = false) (called : Text → Bool) (names : List Text)
    (pieces : List Piece) : (leftOf called names pieces).filter keep = pieces.filter keep := by
  refine filter_leftOf fun x _ q hq => hkeep q ?_
  exact isAlias_of_isAliasOf (List.mem_filter.1 (List.mem_of_mem_take hq)).2

/-- The text that the script leaves of a declaration. -/
def rewrittenDecl (removed : Text → Bool) (q : Piece) : Option Text :=
  (rewritePiece removed q).bind declText

/-- The declarations are left as they have to be. -/
theorem Known.decl_eq (h : Known pieces names (isStripped pieces names)) :
    ∀ q ∈ pieces, rewrittenDecl (isStripped pieces names) q
      = (q.remove (isStripped pieces names)).bind declText := by
  have htexts := congrArg (declTexts none) h.right.text
  rw [declTexts_textOf h.rewritten (breaks_none _), declTexts_textOf h.wanted (breaks_none _),
    List.filterMap_filterMap, List.filterMap_filterMap] at htexts
  have hcore : ∀ q : Piece, rewrittenDecl (isStripped pieces names) q.core
      = rewrittenDecl (isStripped pieces names) q := fun q => by cases q <;> rfl
  -- alias statements are no declarations
  have hother : ∀ l : List Piece, l.filterMap (rewrittenDecl (isStripped pieces names))
      = (l.filter fun q => !q.isAlias).filterMap (rewrittenDecl (isStripped pieces names)) := by
    intro l
    rw [List.filterMap_filter]
    refine List.filterMap_congr fun q _ => ?_
    cases q <;> rfl
  have hcuts : (cuts (isCalled pieces) names pieces).filterMap
      (rewrittenDecl (isStripped pieces names)) =
        pieces.filterMap (rewrittenDecl (isStripped pieces names)) := by
    rw [filterMap_cuts hcore, hother, filter_leftOf_of_alias (fun q hq => by simp [hq]), ← hother]
  refine filterMap_eq_filterMap (fun q _ hnone => ?_) (hcuts.symm.trans htexts)
  cases q with
  | aliasStmt reading a => rfl
  | code tokens => rfl
  | decl place d =>
    cases place with
    | inner => cases hnone
    | quoted => cases hnone
    | top =>
      rw [Piece.remove] at hnone
      rw [rewrittenDecl, rewritePiece]
      rcases hcut : d.cut (isStripped pieces names) with _ | d'
      · rfl
      · rw [hcut] at hnone
        cases hnone

/-! ### Which alias statements are left -/

/-- What stays of a piece, without white space. -/
def keptSkeleton (removed : Text → Bool) (q : Piece) : List (Text ⊕ Char) :=
  ((q.remove removed).map Piece.skeleton).getD []

/-- What the script leaves of it. -/
def rewrittenSkeleton (removed : Text → Bool) (q : Piece) : List (Text ⊕ Char) :=
  ((rewritePiece removed q).map Piece.skeleton).getD []

theorem flatMap_filterMap {α β γ : Type*} (f : α → Option β) (g : β → List γ) (l : List α) :
    (l.filterMap f).flatMap g = l.flatMap fun a => ((f a).map g).getD [] := by
  induction l with
  | nil => rfl
  | cons a l ih =>
    rw [List.filterMap_cons, List.flatMap_cons, ← ih]
    match f a with
    | none => rfl
    | some b => rfl

theorem solid_dropWhile (t : Text) : solid (t.dropWhile (· == '\n')) = solid t := by
  induction t with
  | nil => rfl
  | cons c t ih =>
    by_cases hc : c = '\n'
    · rw [List.dropWhile_cons_of_pos (by simpa using hc), ih, hc]
      rfl
    · rw [List.dropWhile_cons_of_neg (by simpa using hc)]

/-- The number of characters. -/
def weight (marks : List (Text ⊕ Char)) : Nat := marks.countP Sum.isRight

theorem weight_append (u v : List (Text ⊕ Char)) : weight (u ++ v) = weight u + weight v :=
  List.countP_append

/-- The weight of what stays is that of the pieces that are no alias statements. -/
theorem weight_flatMap {g : Piece → List (Text ⊕ Char)}
    (hg : ∀ q, q.isAlias = true → weight (g q) = 0) (l : List Piece) :
    weight (l.flatMap g) = weight ((l.filter fun q => !q.isAlias).flatMap g) := by
  induction l with
  | nil => rfl
  | cons q l ih =>
    rw [List.flatMap_cons, weight_append, ih, List.filter_cons]
    split
    · rw [List.flatMap_cons, weight_append]
    · rename_i hq
      rw [hg q (by simpa using hq), Nat.zero_add]

/-- A name in what stays comes from an alias statement. -/
theorem exists_alias {g : Piece → List (Text ⊕ Char)} {l : List Piece}
    (hg : ∀ q ∈ l, ∀ y, .inl y ∈ g q → q.isAliasOf y = true ∧ g q = [.inl y])
    {u v : List (Text ⊕ Char)} (h : l.flatMap g = u ++ .inl x :: v) :
    ∃ l₁ q l₂, l = l₁ ++ q :: l₂ ∧ q.isAliasOf x = true ∧ g q = [.inl x] ∧
      weight (l₁.flatMap g) = weight u := by
  induction l generalizing u with
  | nil => exact absurd h.symm (by simp)
  | cons q l ih =>
    have hrest : ∀ r ∈ l, ∀ y, .inl y ∈ g r → r.isAliasOf y = true ∧ g r = [.inl y] :=
      fun r hr => hg r (List.mem_cons_of_mem q hr)
    have hlater : ∀ {w}, l.flatMap g = w ++ .inl x :: v → weight u = weight (g q) + weight w →
        ∃ l₁ q' l₂, q :: l = l₁ ++ q' :: l₂ ∧ q'.isAliasOf x = true ∧ g q' = [.inl x] ∧
          weight (l₁.flatMap g) = weight u := by
      intro w hw hweight
      obtain ⟨l₁, q', l₂, rfl, hx, hq', heq⟩ := ih hrest hw
      refine ⟨q :: l₁, q', l₂, rfl, hx, hq', ?_⟩
      rw [List.flatMap_cons, weight_append, heq, hweight]
    rw [List.flatMap_cons] at h
    rcases List.append_eq_append_iff.1 h with ⟨w, rfl, hw⟩ | ⟨w, hq, hw⟩
    · exact hlater hw (weight_append _ _)
    · match w, hw with
      | [], hw =>
        refine hlater (w := []) hw.symm ?_
        rw [hq, List.append_nil]
        rfl
      | e :: w, hw =>
        obtain rfl : Sum.inl x = e := (List.cons.inj hw).1
        obtain ⟨hx, hone⟩ := hg q List.mem_cons_self x (by rw [hq]; simp)
        refine ⟨[], q, l, rfl, hx, hone, ?_⟩
        rw [hone] at hq
        match u, hq with
        | [], _ => rfl
        | e :: u, hq => exact absurd (List.cons.inj hq).2 (by simp)

theorem not_inl_mem_solid (t : Text) (y : Text) : .inl y ∉ solid t := by
  intro hmem
  obtain ⟨e, he, hmark⟩ := List.mem_filterMap.1 hmem
  obtain ⟨c, -, rfl⟩ := List.mem_map.1 he
  rw [mark] at hmark
  split at hmark <;> cases hmark

theorem keptSkeleton_alias {y : Text} {q : Piece} (h : .inl y ∈ keptSkeleton removed q) :
    q.isAliasOf y = true ∧ keptSkeleton removed q = [.inl y] := by
  cases q with
  | code tokens => exact absurd h (not_inl_mem_solid _ y)
  | aliasStmt reading a =>
    have hkept : keptSkeleton removed (.aliasStmt reading a) = [] ∨
        keptSkeleton removed (.aliasStmt reading a) = [.inl a.jsName] := by
      cases reading with
      | part => exact .inr rfl
      | quoted => exact .inr rfl
      | statement =>
        rw [keptSkeleton, Piece.remove]
        cases removed a.jsName
        · exact .inr rfl
        · exact .inl rfl
    rcases hkept with hkept | hkept
    · rw [hkept] at h
      cases h
    · rw [hkept, List.mem_singleton, Sum.inl.injEq] at h
      rw [hkept, h]
      exact ⟨beq_self_eq_true a.jsName, rfl⟩
  | decl place d =>
    have hnot : ∀ d' : Option Decl,
        .inl y ∉ ((d'.map (Piece.decl place)).map Piece.skeleton).getD [] := by
      rintro (_ | d')
      · exact List.not_mem_nil
      · exact not_inl_mem_solid _ y
    cases place with
    | top => exact absurd h (hnot _)
    | inner => exact absurd h (hnot (some d))
    | quoted => exact absurd h (hnot (some d))

theorem weight_keptSkeleton {q : Piece} (h : q.isAlias = true) :
    weight (keptSkeleton removed q) = 0 := by
  cases q with
  | code tokens => cases h
  | decl place d => cases h
  | aliasStmt reading a =>
    cases reading with
    | part => rfl
    | quoted => rfl
    | statement =>
      rw [keptSkeleton, Piece.remove]
      cases removed a.jsName <;> rfl

/-- Where the declarations are as they have to be, so is all that is no alias statement. -/
theorem skeleton_eq {q : Piece} (hq : q.isAlias = false)
    (hdecl : rewrittenDecl removed q = (q.remove removed).bind declText) :
    rewrittenSkeleton removed q = keptSkeleton removed q := by
  cases q with
  | aliasStmt reading a => cases hq
  | code tokens => rfl
  | decl place d =>
    have hsolid : ∀ d' : Option Decl, ((d'.map (Piece.decl place)).map Piece.skeleton).getD [] =
        (((d'.map (Piece.decl place)).bind declText).map solid).getD [] := by
      intro d'
      match d' with
      | none => rfl
      | some d' => rfl
    have hrewritten : rewrittenSkeleton removed (.decl place d) =
        ((rewrittenDecl removed (.decl place d)).map solid).getD [] := by
      rw [rewrittenSkeleton, rewrittenDecl, rewritePiece]
      match d.cut removed with
      | none => rfl
      | some d' => rfl
    rw [hrewritten, hdecl]
    cases place with
    | top => exact (hsolid _).symm
    | inner => exact (hsolid (some d)).symm
    | quoted => exact (hsolid (some d)).symm

/-- The pieces that are left are those that have to be, but for white space. -/
theorem Known.skeleton_eq (h : Known pieces names (isStripped pieces names)) :
    (leftOf (isCalled pieces) names pieces).flatMap (rewrittenSkeleton (isStripped pieces names)) =
      pieces.flatMap (keptSkeleton (isStripped pieces names)) := by
  have hskeleton := congrArg (skeleton none) h.right.text
  rw [skeleton_textOf h.rewritten (breaks_none _), skeleton_textOf h.wanted (breaks_none _),
    flatMap_filterMap, flatMap_filterMap] at hskeleton
  have hcore : ∀ q : Piece, rewrittenSkeleton (isStripped pieces names) q.core =
      rewrittenSkeleton (isStripped pieces names) q := by
    intro q
    cases q with
    | aliasStmt reading a => rfl
    | decl place d => rfl
    | code tokens =>
      show solid _ = solid _
      rw [Piece.core, text_other, solid_dropWhile]
  have hcuts := congrArg List.flatten (map_cuts hcore (isCalled pieces) names pieces)
  rw [← List.flatMap_def, ← List.flatMap_def] at hcuts
  exact hcuts.symm.trans hskeleton

/-- Where a piece that is left stands in the loader, in front of the same other pieces. -/
theorem exists_split {q : Piece} (hq : q.isAlias = true) {l : List Piece}
    (hsub : l.Sublist pieces)
    (hrest : l.filter (fun q => !q.isAlias) = pieces.filter fun q => !q.isAlias) (hmem : q ∈ l) :
    ∃ l₁ l₂ u v, l = l₁ ++ q :: l₂ ∧ pieces = u ++ q :: v ∧
      l₁.filter (fun q => !q.isAlias) = u.filter fun q => !q.isAlias := by
  obtain ⟨l₁, l₂, rfl⟩ := List.append_of_mem hmem
  obtain ⟨r₁, r₂, rfl, h₁, h₂⟩ := List.append_sublist_iff.1 hsub
  obtain ⟨r₃, r₄, rfl, h₃, h₄⟩ := List.cons_sublist_iff.1 h₂
  obtain ⟨s, t, rfl⟩ := List.append_of_mem h₃
  have hfront : l₁.Sublist (r₁ ++ s) := h₁.trans (List.sublist_append_left r₁ s)
  have hback : l₂.Sublist (t ++ r₄) := h₄.trans (List.sublist_append_right t r₄)
  refine ⟨l₁, l₂, r₁ ++ s, t ++ r₄, rfl, by simp, ?_⟩
  have hlen₁ := (hfront.filter fun q => !q.isAlias).length_le
  have hlen₂ := (hback.filter fun q => !q.isAlias).length_le
  have hlen := congrArg List.length hrest
  refine (hfront.filter fun q => !q.isAlias).eq_of_length ?_
  simp only [List.filter_append, List.filter_cons, hq, Bool.not_true, List.length_append,
    Bool.false_eq_true, if_false] at hlen hlen₁ hlen₂ ⊢
  omega

/-- Other code has some weight. -/
theorem weight_pos {v : List Piece} {tokens : List Token} (hmem : .code tokens ∈ v)
    (hsolid : ∃ c ∈ (Piece.code tokens).text, isJsSpace c = false) :
    0 < weight (v.flatMap (keptSkeleton removed)) := by
  obtain ⟨c, hc, hspace⟩ := hsolid
  rw [weight, List.countP_pos_iff]
  refine ⟨.inr c, List.mem_flatMap.2 ⟨_, hmem, ?_⟩, rfl⟩
  refine List.mem_filterMap.2 ⟨.inr c, List.mem_map_of_mem hc, ?_⟩
  rw [mark, hspace]
  rfl

/-- Two alias statements of a name are told apart by what is between them. -/
theorem Apart.weight_ne (h : Apart pieces) {u v u' v' : List Piece} {q r : Piece}
    (hq : pieces = u ++ q :: v) (hr : pieces = u' ++ r :: v') (hqx : q.isAliasOf x = true)
    (hrx : r.isAliasOf x = true) (hne : q.isStatement ≠ r.isStatement) :
    weight (u.flatMap (keptSkeleton removed)) ≠ weight (u'.flatMap (keptSkeleton removed)) := by
  have hlater : ∀ {u v u' v' : List Piece} {q r : Piece} {w : List Piece}, pieces = u ++ q :: v →
      u' = u ++ w → q :: v = w ++ r :: v' → q.isAliasOf x = true → r.isAliasOf x = true →
        q.isStatement ≠ r.isStatement → weight (u.flatMap (keptSkeleton removed)) ≠
          weight (u'.flatMap (keptSkeleton removed)) := by
    intro u v u' v' q r w hpieces hu hv hqx hrx hne
    match w, hv with
    | [], hv => exact absurd (congrArg Piece.isStatement (List.cons.inj hv).1) hne
    | e :: w, hv =>
      obtain ⟨rfl, rfl⟩ := List.cons.inj hv
      obtain ⟨tokens, hmem, hsolid⟩ := h.solid x u q w r v' hpieces hqx hrx hne
      have hpos : 0 < weight (w.flatMap (keptSkeleton removed)) := weight_pos hmem hsolid
      rw [hu, List.flatMap_append, weight_append, List.flatMap_cons, weight_append]
      omega
  rcases List.append_eq_append_iff.1 (hq.symm.trans hr) with ⟨w, hu, hv⟩ | ⟨w, hu, hv⟩
  · exact hlater hq hu hv hqx hrx hne
  · exact (hlater hr hu hv hrx hqx hne.symm).symm

/-- No alias statement for a stripped name is left. -/
theorem Known.no_statement (h : Known pieces names (isStripped pieces names))
    (hx : isStripped pieces names x = true) :
    ∀ q ∈ (leftOf (isCalled pieces) names pieces).filter (Piece.isAliasOf x),
      q.isStatement = false := by
  intro q hq
  obtain ⟨hmem, hqx⟩ := List.mem_filter.1 hq
  by_contra hstatement
  obtain ⟨l₁, l₂, u, v, hleft, hpieces, hfront⟩ := exists_split (isAlias_of_isAliasOf hqx)
    (leftOf_sublist _ _ _) (filter_leftOf_of_alias (fun q hq => by simp [hq]) _ _ _) hmem
  obtain ⟨reading, a, rfl, rfl⟩ := exists_of_isAliasOf hqx
  -- it stands in the text behind as many characters as one that stays
  have hskeleton := h.skeleton_eq
  rw [hleft, List.flatMap_append, List.flatMap_cons] at hskeleton
  obtain ⟨u', q', v', hpieces', hqx', hone, hweight⟩ :=
    exists_alias (fun q _ y => keptSkeleton_alias) hskeleton.symm
  have hsame : weight (l₁.flatMap (rewrittenSkeleton (isStripped pieces names))) =
      weight (u.flatMap (keptSkeleton (isStripped pieces names))) := by
    have hrewritten : ∀ q : Piece, q.isAlias = true →
        weight (rewrittenSkeleton (isStripped pieces names) q) = 0 := by
      intro q hq
      cases q with
      | aliasStmt reading a => rfl
      | code tokens => cases hq
      | decl place d => cases hq
    rw [weight_flatMap hrewritten, weight_flatMap fun q => weight_keptSkeleton, hfront]
    refine congrArg weight (List.flatMap_congr fun q hq => ?_)
    obtain ⟨hqu, hother⟩ := List.mem_filter.1 hq
    exact StripAliases.skeleton_eq (by simpa using hother)
      (h.decl_eq q (by rw [hpieces]; exact List.mem_append_left _ hqu))
  refine h.apart.weight_ne hpieces' hpieces hqx' hqx ?_ (hweight.trans hsame)
  -- which is no statement
  intro heq
  obtain ⟨a', rfl, hname⟩ := isStatementOf_iff.1 (show q'.isStatementOf a.jsName = true by
    rw [Piece.isStatementOf, hqx', heq]
    simpa using hstatement)
  rw [keptSkeleton, Piece.remove, hname, if_pos hx] at hone
  cases hone

/-- The first elements, if all of a kind are among them. -/
theorem take_eq_filter {α : Type*} {l : List α} {n : Nat} {r : α → Bool}
    (hdrop : ∀ a ∈ l.drop n, r a = false) (hcount : l.length ≤ (l.drop n).length + l.countP r) :
    l.take n = l.filter r := by
  have hnil : (l.drop n).filter r = [] := List.filter_eq_nil_iff.2 fun a ha => by simp [hdrop a ha]
  have hfilter : l.filter r = (l.take n).filter r := by
    conv_lhs => rw [← List.take_append_drop n l]
    rw [List.filter_append, hnil, List.append_nil]
  rw [hfilter, eq_comm, List.filter_eq_self, ← List.countP_eq_length]
  rw [List.countP_eq_length_filter, hfilter, ← List.countP_eq_length_filter] at hcount
  have hle := List.countP_le_length (p := r) (l := l.take n)
  rw [List.length_drop] at hcount
  rw [List.length_take] at hle ⊢
  omega

theorem Known.statements (h : Known pieces names (isStripped pieces names))
    (hx : isStripped pieces names x = true) :
    (pieces.filter (Piece.isAliasOf x)).take (names.count x) =
      pieces.filter (Piece.isStatementOf x) := by
  obtain ⟨-, hany, hcalled⟩ := isStripped_iff.1 hx
  have hno := h.no_statement hx
  rw [aliases_leftOf, hcalled, if_neg Bool.false_ne_true] at hno
  obtain ⟨reading, a, -, rfl⟩ := exists_of_any hany
  have hcount := h.countP_eq a
  rw [hcalled, if_neg Bool.false_ne_true, if_pos hx] at hcount
  rw [filter_isStatementOf]
  refine take_eq_filter hno ?_
  rw [List.length_drop, ← List.countP_eq_length_filter,
    List.countP_eq_length_filter (p := Piece.isStatement), ← filter_isStatementOf,
    ← List.countP_eq_length_filter]
  exact hcount.ge

/-! ### Which line breaks are left -/

/-- What the script leaves of a piece, without line breaks at the beginning. -/
def coreText (removed : Text → Bool) (q : Piece) : Text :=
  ((rewritePiece removed q.core).map Piece.text).getD []

theorem coreText_core (removed : Text → Bool) (q : Piece) :
    coreText removed q.core = coreText removed q := by
  rw [coreText, core_core, coreText]

theorem length_rewritten (removed : Text → Bool) (l : List Piece) :
    (textOf (l.filterMap (rewritePiece removed))).length =
      (l.flatMap (coreText removed)).length + spare l := by
  have hpiece : ∀ q : Piece, (((rewritePiece removed q).map Piece.text).getD []).length =
      (coreText removed q).length + q.lineBreaks := by
    intro q
    cases q with
    | aliasStmt reading a => rfl
    | decl place d => rfl
    | code tokens =>
      show (Piece.code tokens).text.length = (Piece.code [.other _]).text.length + _
      rw [text_other, Piece.lineBreaks, Nat.add_comm, ← List.length_append,
        List.takeWhile_append_dropWhile]
  rw [textOf_filterMap]
  induction l with
  | nil => rfl
  | cons q l ih =>
    rw [List.flatMap_cons, List.flatMap_cons, List.length_append, List.length_append, ih, hpiece,
      spare]
    omega

theorem spare_leftOf (called : Text → Bool) (names : List Text) (pieces : List Piece) :
    spare (leftOf called names pieces) = spare pieces := by
  induction names generalizing pieces with
  | nil => rfl
  | cons x names ih =>
    rw [leftOf, ih]
    split
    · rfl
    · exact spare_eraseP x pieces

/-- No line break is lost. -/
theorem Known.lines (h : Known pieces names (isStripped pieces names))
    (hfits : PiecesFit pieces names) (hx : isStripped pieces names x = true) :
    LinesKept (isCalled pieces) names pieces := by
  have hsame : (cuts (isCalled pieces) names pieces).flatMap (coreText (isStripped pieces names)) =
      (leftOf (isCalled pieces) names pieces).flatMap (coreText (isStripped pieces names)) := by
    rw [List.flatMap_def, map_cuts (coreText_core _), ← List.flatMap_def]
  have hlength := congrArg List.length (h.right.text.trans (hfits.text hx).symm)
  rw [length_rewritten, length_rewritten, hsame, spare_leftOf] at hlength
  by_contra hlost
  have hless := spare_cuts_lt hlost
  omega

/-- A name that is removed does not occur elsewhere. -/
theorem Stripped.not_elsewhere {js : Text} (h : Stripped pieces removed js)
    (hx : removed x = true) : ∀ q ∈ pieces, x ∉ q.elsewhere := by
  intro q hq hmem
  obtain ⟨a, ha, hax⟩ := List.any_eq_true.1 (h.aliased x hx)
  obtain ⟨r, -, hr⟩ := List.mem_filterMap.1 (h.alias_kept q hq x hmem a ha hax)
  obtain ⟨a, rfl, rfl⟩ := isStatementOf_iff.1 hax
  -- what stays of a piece is no alias statement for a removed name
  match r with
  | .code tokens => cases hr
  | .aliasStmt .part a' => cases hr
  | .aliasStmt .quoted a' => cases hr
  | .aliasStmt .statement a' =>
    rw [Piece.remove] at hr
    split at hr
    · cases hr
    · rename_i hkept
      obtain rfl : a' = a := by injection Option.some_inj.1 hr
      exact hkept hx
  | .decl .top d =>
    obtain ⟨d', -, heq⟩ := Option.map_eq_some_iff.1 hr
    cases heq
  | .decl .inner d => cases hr
  | .decl .quoted d => cases hr

/-- **A loader that is stripped rightly fits.** -/
theorem Known.fits (h : Known pieces names removed) (hx : isStripped pieces names x = true) :
    StripFits pieces names := by
  obtain rfl := h.removed_eq
  have hwhole : ∀ place d, place ≠ .top → .decl place d ∈ pieces →
      (∀ y ∈ d.names, isStripped pieces names y = false) ∧ LaidOut d := by
    intro place d hplace hd
    have hsame : ((d.cut (isStripped pieces names)).map fun d => d.tidy.text) = some d.text := by
      have hboth := h.decl_eq _ hd
      have hremove : (Piece.decl place d).remove (isStripped pieces names)
          = some (.decl place d) := by
        match place, hplace with
        | .inner, _ => rfl
        | .quoted, _ => rfl
      rw [rewrittenDecl, hremove, rewritePiece, Option.bind_map] at hboth
      rw [Option.map_eq_bind]
      exact hboth
    obtain ⟨d', hcut, htext⟩ := Option.map_eq_some_iff.1 hsame
    have hkept : ∀ y ∈ d.names, isStripped pieces names y = false := by
      intro y hy
      have hmem := mem_names_of_text_eq htext.symm y hy
      rw [names_tidy, names_of_cut hcut, List.mem_filter] at hmem
      simpa using hmem.2
    rw [cut_eq_self hkept, Option.some_inj] at hcut
    refine ⟨hkept, ?_⟩
    rw [LaidOut, ← htext, ← hcut, text_tidy]
  have hpieces : PiecesFit pieces names := by
    refine ⟨fun x hx q hq hmem => ?_, fun x hx d hd hmem => ?_, fun x hx => h.statements hx,
      fun x hx place d hd d' hd' => ?_⟩
    · exact h.right.not_elsewhere hx q hq hmem
    · rw [(hwhole .quoted d (by decide) hd).1 x hmem] at hx
      cases hx
    · split at hd'
      · rename_i hplace
        subst hplace
        have htop := h.decl_eq _ hd
        rw [rewrittenDecl, rewritePiece, Piece.remove, Option.mem_def.1 hd'] at htop
        have htext : d'.tidy.text = d'.text := Option.some_inj.1 htop
        rw [LaidOut, ← htext, text_tidy]
      · rename_i hplace
        obtain rfl := Option.some_inj.1 hd'
        exact (hwhole place d hplace hd).2
  exact ⟨hpieces, h.lines hpieces hx⟩

/-- A loader in which nothing is stripped fits. -/
theorem fits_of_none (hnone : ∀ x, isStripped pieces names x = false) : StripFits pieces names := by
  have hvacuous : ∀ {r : Prop} x, isStripped pieces names x = true → r := fun x hx => by
    rw [hnone x] at hx
    cases hx
  refine ⟨⟨fun x hx => hvacuous x hx, fun x hx => hvacuous x hx, fun x hx => hvacuous x hx,
    fun x hx => hvacuous x hx⟩, linesKept_of_none fun x hx hcalled => ?_⟩
  by_contra hany
  exact hvacuous x (isStripped_iff.2 ⟨hx, by simpa using hany, hcalled⟩)

/-- **The script strips a loader rightly if it fits, and if the pieces of the loader can be told
from its text, only then.**  On the list there are names of variables. -/
theorem stripRight_iff (loader : Loader) (file : Text)
    (hnames : ∀ x ∈ stripNames file, ∀ c ∈ x, isWord c = true) :
    (StripFits loader.pieces (stripNames file) → StripRight loader file) ∧
      (Apart loader.pieces →
        (StripRight loader file ↔ StripFits loader.pieces (stripNames file))) := by
  by_cases hsome : ∃ x, isStripped loader.pieces (stripNames file) x = true
  · obtain ⟨x, hx⟩ := hsome
    have hright : StripFits loader.pieces (stripNames file) → StripRight loader file := by
      intro hfits js hjs
      have htaken := taken_of_isStripped (r := fun q => q.isStatement = true) fun y hy q hq => by
        rw [hfits.statements y hy] at hq
        exact (Bool.and_eq_true_iff.1 (List.mem_filter.1 hq).2).2
      have hstrip := (strip_something loader.sound loader.separated hnames htaken hx).2
      rw [cuts_of_linesKept hfits.lines] at hstrip
      rw [hstrip, Except.ok.injEq] at hjs
      exact ⟨_, hjs ▸ hfits.stripped hx⟩
    refine ⟨hright, fun hapart => ⟨fun hstripped => ?_, hright⟩⟩
    obtain ⟨hsound, hstrip⟩ := strip_something hapart.sound loader.separated hnames
      (fun _ _ _ _ => rfl) hx
    obtain ⟨removed, hremoved⟩ := hstripped _ hstrip
    exact Known.fits ⟨hapart, hsound, hremoved⟩ hx
  · have hnone : ∀ x, isStripped loader.pieces (stripNames file) x = false := fun x => by
      by_contra hx
      exact hsome ⟨x, by simpa using hx⟩
    have hright : StripRight loader file := by
      intro js hjs
      rw [strip_nothing loader.sound loader.separated hnames hnone hjs]
      exact ⟨fun _ => false, stripped_nothing loader.pieces⟩
    exact ⟨fun _ => hright, fun _ => ⟨fun _ => fits_of_none hnone, fun _ => hright⟩⟩

/-! ## Examples -/

section

variable {t t' : Text}

theorem IsCode.append (h : IsCode (fun _ => True) t) (h' : IsCode (fun _ => True) t') :
    IsCode (fun _ => True) (t ++ t') := by
  have hends : t.getLast?.any isWord = false := by
    by_contra hword
    cases h.word_ends ['x'] trivial (by simpa using hword)
  have hbefore : ∀ p : Option Char, p.any isWord = false → (before p t).any isWord = false := by
    intro p hp
    rcases List.eq_nil_or_concat' t with rfl | ⟨u, c, rfl⟩
    · exact hp
    · rw [Matching.before_concat, ← List.getLast?_concat (l := u)]
      exact hends
  refine ⟨fun s _ hlast => ?_, fun x p s hp _ => ?_, fun names p s hp _ => ?_⟩
  · rw [List.getLast?_append] at hlast
    match hlast' : t'.getLast? with
    | none =>
      rw [hlast', Option.none_or, hends] at hlast
      cases hlast
    | some c =>
      rw [hlast', Option.some_or] at hlast
      exact h'.word_ends s trivial (hlast' ▸ hlast)
  · exact Matching.quiet_append.2 ⟨h.alias_quiet x p _ hp trivial,
      h'.alias_quiet x _ s (hbefore p hp) trivial⟩
  · exact Matching.quiet_append.2 ⟨h.var_quiet names p _ hp trivial,
      h'.var_quiet names _ s (hbefore p hp) trivial⟩

/-- What has no words in it is other code. -/
theorem isCode_of_not_word (h : ∀ c ∈ t, isWord c = false) : IsCode (fun _ => True) t := by
  refine ⟨fun s _ hlast => ?_, fun _ _ _ _ _ => quiet_aliasAt_of_not_word h,
    fun _ _ _ _ _ => quiet_varMatcher_of_not_word h⟩
  match hlast' : t.getLast? with
  | none =>
    rw [hlast'] at hlast
    cases hlast
  | some c =>
    rw [hlast', Option.any_some, h c (List.mem_of_getLast? hlast')] at hlast
    cases hlast

/-- So is a word in front of something that is neither white space nor `=`. -/
theorem isCode_word (w : Word) {c : Char} (hc : isWord c = false) (hspace : isJsSpace c = false)
    (hstop : c ≠ '=') : IsCode (fun _ => True) (w.text ++ [c]) := by
  have hlast : ∀ d ∈ [c], isWord d = false := fun d hd => List.mem_singleton.1 hd ▸ hc
  refine ⟨fun s _ hword => ?_, fun x p s _ _ => ?_, fun names p s _ _ => ?_⟩
  · rw [List.getLast?_concat, Option.any_some, hc] at hword
    cases hword
  · refine Matching.quiet_append.2 ⟨quiet_aliasAt_of_word w.isWord hc ?_,
      quiet_aliasAt_of_not_word hlast⟩
    rw [List.singleton_append, skipSpace_cons hspace]
    exact fun heq => hstop (Option.some_inj.1 heq)
  · refine Matching.quiet_append.2 ⟨quiet_varMatcher_of_word w.isWord hc ?_,
      quiet_varMatcher_of_not_word hlast⟩
    rw [List.singleton_append, skipSpace_cons hspace]
    exact hc

/-- A piece on a line of its own, or other code that is so whatever follows. -/
def Piece.Plain : Piece → Prop
  | aliasStmt _ a => a.newline = true
  | decl _ _ => True
  | code tokens =>
    IsCode (fun _ => True) (code tokens).text ∧ (code tokens).text.getLast?.any isBlank = false

theorem sound_of_plain {mayGo : Piece → Bool} (h : ∀ q ∈ pieces, q.Plain) : Sound mayGo pieces := by
  induction pieces with
  | nil => trivial
  | cons q pieces ih =>
    obtain ⟨hq, hrest⟩ := List.forall_mem_cons.1 h
    cases q with
    | aliasStmt reading a => exact ih hrest
    | decl place d => exact ih hrest
    | code tokens => exact ⟨hq.1.mono fun _ _ => trivial, ih hrest⟩

theorem separated_of_plain (h : ∀ q ∈ pieces, q.Plain) : Separated pieces := by
  induction pieces with
  | nil => trivial
  | cons q pieces ih =>
    obtain ⟨hq, hrest⟩ := List.forall_mem_cons.1 h
    cases q with
    | aliasStmt reading a => exact ih hrest
    | decl place d => exact ih hrest
    | code tokens => exact ⟨fun _ => hq.2, ih hrest⟩

def Loader.ofPlain (pieces : List Piece) (h : ∀ q ∈ pieces, q.Plain) : Loader where
  pieces := pieces
  sound := sound_of_plain h
  separated := separated_of_plain h
  broken u reading a v hpieces hline := by
    have ha : a.newline = true := h (.aliasStmt reading a) (by rw [hpieces]; simp)
    rw [ha] at hline
    cases hline

end

/-- `_x = Module['_x'] = wasmExports['x'];` -/
def exampleAlias : Alias where
  indent := []
  isBlank := by simp
  first := '_'
  first_isWord := rfl
  wasmName := ['x']
  isWord := forall_mem_of_all (by decide)
  gaps := fun i => if i.val = 4 then Gap.empty else Gap.blank
  quotes := fun _ => ⟨'\'', by decide⟩
  newline := true

def wasmMemory : Word := ⟨"wasmMemory".toList, by decide, forall_mem_of_all (by decide)⟩

/-- `var _x, wasmMemory;` -/
def exampleDecl : Decl where
  lead := Gap.blank
  lead_ne := Gap.blank_ne_nil
  first := ⟨exampleAlias.jsName, List.cons_ne_nil _ _, jsName_isWord _⟩
  more := [((Gap.empty, Gap.blank), wasmMemory)]
  trail := Gap.empty

/-- `_x` -/
def exampleName : Word := ⟨"_x".toList, by decide, forall_mem_of_all (by decide)⟩

/-- `f(arg);` -/
def exampleCall (arg : Word) : Piece :=
  .code [.ident ['f'], .other ['('], .ident arg.text, .other [')', ';', '\n']]

theorem plain_exampleCall (arg : Word) : (exampleCall arg).Plain := by
  have htext : (exampleCall arg).text
      = (['f'] ++ ['(']) ++ ((arg.text ++ [')']) ++ ([';'] ++ ['\n'])) := by
    simp [exampleCall, Piece.text, Token.text]
  rw [exampleCall, Piece.Plain, ← exampleCall, htext]
  refine ⟨?_, by simp only [List.getLast?_append]; rfl⟩
  exact (isCode_word ⟨['f'], by decide, forall_mem_of_all (by decide)⟩ (by decide) (by decide)
    (by decide)).append ((isCode_word arg (by decide) (by decide) (by decide)).append
      (isCode_of_not_word (forall_mem_of_all (by decide))))

theorem plain_other {t : Text} (h : ∀ c ∈ t, isWord c = false)
    (hlast : t.getLast?.any isBlank = false) : (Piece.code [.other t]).Plain := by
  rw [Piece.Plain, text_other]
  exact ⟨isCode_of_not_word h, hlast⟩

/-- A loader that declares and assigns `_x`, and passes some variable to a function. -/
def examplePieces (arg : Word) : List Piece :=
  [.decl .top exampleDecl, .code [.other ['\n']], .aliasStmt .statement exampleAlias,
    exampleCall arg]

theorem plain_examplePieces (arg : Word) : ∀ q ∈ examplePieces arg, q.Plain := by
  simp only [examplePieces, List.forall_mem_cons]
  exact ⟨trivial, plain_other (forall_mem_of_all (by decide)) rfl, rfl, plain_exampleCall arg,
    List.forall_mem_nil _⟩

def exampleLoader (arg : Word) : Loader := .ofPlain (examplePieces arg) (plain_examplePieces arg)

/-- A loader in which a comment reads like the assignment of `_x`. -/
def commentPieces : List Piece :=
  [.decl .top exampleDecl, .code [.other "\n//".toList], .aliasStmt .quoted exampleAlias,
    exampleCall wasmMemory, .aliasStmt .statement exampleAlias]

theorem plain_commentPieces : ∀ q ∈ commentPieces, q.Plain := by
  simp only [commentPieces, List.forall_mem_cons]
  exact ⟨trivial, plain_other (forall_mem_of_all (by decide)) (by decide), rfl,
    plain_exampleCall wasmMemory, rfl, List.forall_mem_nil _⟩

def commentLoader : Loader := .ofPlain commentPieces plain_commentPieces

theorem exampleNames : stripNames "_x".toList = ["_x".toList] := by
  decide

theorem exampleNames_isWord : ∀ x ∈ stripNames "_x".toList, ∀ c ∈ x, isWord c = true := by
  rw [exampleNames]
  exact fun x hx => List.mem_singleton.1 hx ▸ exampleName.isWord

theorem name_of_isStripped (h : isStripped pieces (stripNames "_x".toList) x = true) :
    x = "_x".toList := by
  have hmem := (isStripped_iff.1 h).1
  rw [exampleNames] at hmem
  exact List.mem_singleton.1 hmem

/-- `_x` is assigned and declared, and not used. -/
theorem fits_exampleLoader :
    StripFits (exampleLoader wasmMemory).pieces (stripNames "_x".toList) := by
  refine ⟨⟨fun x hx => ?_, fun x hx d hd => ?_, fun x hx => ?_, fun x _ place d hd => ?_⟩, ?_⟩
  · rw [name_of_isStripped hx]
    decide
  · have hnot : Piece.decl .quoted d ∉ examplePieces wasmMemory := by
      simp [examplePieces, exampleCall]
    exact absurd hd hnot
  · rw [name_of_isStripped hx]
    rfl
  · have hdecl : place = .top ∧ d = exampleDecl := by
      simpa [exampleLoader, Loader.ofPlain, examplePieces, exampleCall] using hd
    obtain ⟨rfl, rfl⟩ := hdecl
    rw [if_pos rfl]
    intro d' hd'
    have hlaid : (exampleDecl.cut (isStripped (exampleLoader wasmMemory).pieces
        (stripNames "_x".toList))).all (fun d => decide (LaidOut d)) = true := by
      decide
    rw [Option.mem_def.1 hd'] at hlaid
    exact of_decide_eq_true hlaid
  · rw [exampleNames, LinesKept, if_neg (by decide)]
    have hline : exampleAlias.newline = true := rfl
    refine ⟨(lineKept_of_not rfl).2 ((lineKept_of_not rfl).2 ((lineKept_alias rfl).2 ?_)), trivial⟩
    rw [hline]
    exact fun h => absurd h.symm Bool.false_ne_true

/-- Pieces with one alias statement. -/
theorem not_two_aliases (hone : pieces.countP Piece.isAlias ≤ 1) {u v w : List Piece} {q r : Piece}
    (hq : q.isAliasOf x = true) (hr : r.isAliasOf x = true) :
    pieces ≠ u ++ q :: (v ++ r :: w) := by
  intro h
  rw [h, List.countP_append, List.countP_cons_of_pos (isAlias_of_isAliasOf hq), List.countP_append,
    List.countP_cons_of_pos (isAlias_of_isAliasOf hr)] at hone
  omega

/-- The call stands between what reads like the assignment and the assignment itself. -/
theorem apart_commentPieces : Apart commentPieces where
  sound := sound_of_plain plain_commentPieces
  solid x u q v r w h hq hr _ := by
    have hcall : exampleCall wasmMemory ∈ v := by
      match u, v, h with
      | [], _, h =>
        rw [← (List.cons.inj h).1] at hq
        cases hq
      | [_], _, h =>
        rw [← (List.cons.inj (List.cons.inj h).2).1] at hq
        cases hq
      | [_, _], [], h =>
        rw [← (List.cons.inj (List.cons.inj (List.cons.inj (List.cons.inj h).2).2).2).1] at hr
        cases hr
      | [_, _], _ :: v, h =>
        rw [← (List.cons.inj (List.cons.inj (List.cons.inj (List.cons.inj h).2).2).2).1]
        exact List.mem_cons_self
      | _ :: _ :: _ :: u, v, h =>
        exact absurd (List.cons.inj (List.cons.inj (List.cons.inj h).2).2).2
          (not_two_aliases (by decide) hq hr)
    exact ⟨_, hcall, 'f', by decide, by decide⟩

/-- A name that is not used is stripped rightly, unless a comment reads like its assignment. -/
theorem stripRight_iff_example :
    StripRight (exampleLoader wasmMemory) "_x".toList ∧ ¬ StripRight commentLoader "_x".toList := by
  refine ⟨(stripRight_iff _ _ exampleNames_isWord).1 fits_exampleLoader, fun hright => ?_⟩
  have hfits :=
    ((stripRight_iff commentLoader _ exampleNames_isWord).2 apart_commentPieces).1 hright
  have hx : isStripped commentPieces (stripNames "_x".toList) "_x".toList = true := by decide
  have hfirst : [Piece.aliasStmt .quoted exampleAlias] = [.aliasStmt .statement exampleAlias] :=
    hfits.statements _ hx
  cases hfirst

/-- There is nothing to tell apart. -/
theorem apart_examplePieces (arg : Word) : Apart (examplePieces arg) where
  sound := sound_of_plain (plain_examplePieces arg)
  solid x u q v r w h hq hr _ := by
    have hone : (examplePieces arg).countP Piece.isAlias ≤ 1 := Nat.le_refl 1
    exact absurd h (not_two_aliases hone hq hr)

/-- `_x` is stripped although it is passed to a function. -/
theorem argument_stripped :
    ¬ StripRight (exampleLoader exampleName) "_x".toList := by
  intro hright
  have hx : isStripped (examplePieces exampleName) (stripNames "_x".toList) "_x".toList = true := by
    decide
  have hapart := apart_examplePieces exampleName
  obtain ⟨hsound, hstrip⟩ := strip_something hapart.sound (exampleLoader exampleName).separated
    exampleNames_isWord (fun _ _ _ _ => rfl) hx
  obtain ⟨removed, hremoved⟩ := hright _ hstrip
  have hfits := Known.fits ⟨hapart, hsound, hremoved⟩ hx
  exact hfits.unused _ hx (exampleCall exampleName) (by simp [examplePieces]) (by decide)

example : (stripUnusedAliases
    (textOf (exampleLoader exampleName).pieces) "_x".toList).toOption
      = some "var wasmMemory;\nf(_x);\n".toList := by
  decide +kernel

end PhpWasm.Build.StripAliases
