import PhpWasm.Build.StripAliasesLoop

/-!
# Loaders that fit are stripped rightly

What the loop leaves of a loader is again a loader, and the script rewrites its declarations
(`strip_something`).  Where the loader fits, these are the pieces that have to be left, and they
look as they did (`PiecesFit.stripped`).
-/

set_option autoImplicit false

namespace PhpWasm.Build.StripAliases

open Vendored (Text)
open Matching (before test replaceFirst replaceAll)
open Scan (forall_mem_of_all)

variable {mayGo : Piece → Bool} {pieces : List Piece} {names : List Text} {x : Text}
  {removed : Text → Bool}

/-! ## Declarations without some names -/

theorem names_cut (removed : Text → Bool) (d : Decl) :
    (d.cut removed).elim [] Decl.names = d.names.filter fun x => !removed x := by
  have hmore : (d.more.map fun e => e.2.text).filter (fun x => !removed x)
      = (d.more.filter fun e => !removed e.2.text).map fun e => e.2.text := List.filter_map
  rw [Decl.names, List.filter_cons, hmore, Decl.cut]
  generalize d.more.filter (fun e => !removed e.2.text) = more
  cases hfirst : removed d.first.text with
  | true =>
    match more with
    | [] => rfl
    | e :: more => rfl
  | false => rfl

def Gap.empty : Gap := ⟨[], by simp⟩

def Gap.blank : Gap := ⟨[' '], forall_mem_of_all (by decide)⟩

theorem Gap.blank_ne_nil : Gap.blank.text ≠ [] := List.cons_ne_nil _ _

/-- A declaration, laid out as the script does it. -/
def Decl.tidy (d : Decl) : Decl where
  lead := Gap.blank
  lead_ne := Gap.blank_ne_nil
  first := d.first
  more := d.more.map fun e => ((Gap.empty, Gap.blank), e.2)
  trail := Gap.empty

theorem names_tidy (d : Decl) : d.tidy.names = d.names := by
  rw [Decl.names, Decl.names, Decl.tidy, List.map_map]
  rfl

theorem text_tidy (d : Decl) : d.tidy.text = declaration d.names := by
  have htail : ∀ (y : Text) (more : List ((Gap × Gap) × Word)),
      y ++ Decl.tail (more.map fun e => ((Gap.empty, Gap.blank), e.2)) Gap.empty =
        List.intercalate ", ".toList (y :: more.map fun e => e.2.text) ++ ";".toList := by
    intro y more
    induction more generalizing y with
    | nil =>
      rw [List.map_nil, List.map_nil, List.intercalate_singleton]
      rfl
    | cons e more ih =>
      rw [List.map_cons, List.map_cons, tail_cons, List.intercalate_cons_cons, List.append_assoc,
        List.append_assoc, ← ih]
      rfl
  rw [declaration, if_neg (show d.names ≠ [] from List.cons_ne_nil _ _), Decl.names,
    List.append_assoc, ← htail]
  rfl

/-- What the script makes of a piece. -/
def rewritePiece (removed : Text → Bool) : Piece → Option Piece
  | .decl place d => (d.cut removed).map fun d => .decl place d.tidy
  | q => some q

theorem declaration_eq_nil {names : List Text} (h : declaration names = []) : names = [] := by
  rw [declaration] at h
  split at h
  · assumption
  · cases h

/-- The text of what is left of a declaration. -/
theorem text_cut_tidy (removed : Text → Bool) (d : Decl) :
    ((d.cut removed).map fun d => d.tidy.text).getD []
      = declaration (d.names.filter fun x => !removed x) := by
  rw [← names_cut]
  match d.cut removed with
  | none => rfl
  | some d' => exact text_tidy d'

/-- **What is left of a loader is a loader again.** -/
theorem flatMap_rewriteText {stripped : List Text} {removed : Text → Bool}
    (h : ∀ x, x ∈ stripped ↔ removed x) (pieces : List Piece) :
    pieces.flatMap (rewriteText stripped) = textOf (pieces.filterMap (rewritePiece removed)) := by
  have hfilter : ∀ d : Decl, d.names.filter (· ∉ stripped) = d.names.filter fun x => !removed x :=
    fun d => List.filter_congr fun x _ => by simp [h]
  induction pieces with
  | nil => rfl
  | cons q pieces ih =>
    rw [List.flatMap_cons, ih, List.filterMap_cons]
    cases q with
    | aliasStmt reading a => rfl
    | code tokens => rfl
    | decl place d =>
      rw [rewriteText, hfilter, ← text_cut_tidy, rewritePiece]
      rcases d.cut removed with _ | d' <;> rfl

theorem textOf_filterMap (f : Piece → Option Piece) (pieces : List Piece) :
    textOf (pieces.filterMap f) = pieces.flatMap fun q => ((f q).map Piece.text).getD [] := by
  induction pieces with
  | nil => rfl
  | cons q pieces ih =>
    rw [List.filterMap_cons, List.flatMap_cons, ← ih]
    match f q with
    | none => rfl
    | some r => rfl

theorem isStripped_iff :
    isStripped pieces names x = true ↔
      x ∈ names ∧ pieces.any (Piece.isAliasOf x) = true ∧ isCalled pieces x = false := by
  rw [isStripped, Bool.and_eq_true, Bool.and_eq_true, decide_eq_true_iff, and_assoc,
    Bool.not_eq_true']

/-! ## What the script leaves -/

/-- Only alias statements for stripped names are taken out. -/
theorem taken_of_isStripped {r : Piece → Prop}
    (h : ∀ x, isStripped pieces names x → ∀ q ∈ (pieces.filter (Piece.isAliasOf x)).take
      (names.count x), r q) :
    Taken (isCalled pieces) names pieces r := by
  intro x hx q hq
  refine h x (isStripped_iff.2 ⟨?_, ?_, hx⟩) q hq
  · rw [← List.count_pos_iff]
    by_contra hzero
    rw [Nat.eq_zero_of_not_pos hzero, List.take_zero] at hq
    cases hq
  · obtain ⟨hmem, hname⟩ := List.mem_filter.1 (List.mem_of_mem_take hq)
    exact List.any_eq_true.2 ⟨q, hmem, hname⟩

section

variable {file : Text}

/-- The loop, from the start to the end. -/
theorem loop_pieces (h : Sound mayGo pieces) (hsep : Separated pieces)
    (hnames : ∀ x ∈ stripNames file, ∀ c ∈ x, isWord c = true)
    (htaken : Taken (isCalled pieces) (stripNames file) pieces fun q => mayGo q = true) :
    LoopRight mayGo (isCalled pieces) (stripNames file) pieces ⟨textOf pieces, [], 0⟩
      ((stripNames file).foldl stripAlias ⟨textOf pieces, [], 0⟩) := by
  refine loop_right h hsep (fun y => rfl) (fun x hx => ⟨?_, hnames x hx⟩) htaken rfl
  rintro rfl
  have hempty := (List.mem_filter.1 hx).2
  cases hempty

theorem LoopRight.mem_stripped {st' : State}
    (h : LoopRight mayGo (isCalled pieces) names pieces ⟨textOf pieces, [], 0⟩ st') (x : Text) :
    x ∈ st'.stripped ↔ isStripped pieces names x = true := by
  rw [h.stripped, isStripped_iff]
  exact or_iff_right List.not_mem_nil

/-- Where nothing is stripped, the script leaves the loader as it is, or throws. -/
theorem strip_nothing {js : Text} (h : Sound mayGo pieces) (hsep : Separated pieces)
    (hnames : ∀ x ∈ stripNames file, ∀ c ∈ x, isWord c = true)
    (hnone : ∀ x, isStripped pieces (stripNames file) x = false)
    (hjs : stripUnusedAliases (textOf pieces) file = .ok js) : js = textOf pieces := by
  have hloop := loop_pieces h hsep hnames (taken_of_isStripped fun x hx => by
    rw [hnone x] at hx
    cases hx)
  have hstripped := List.eq_nil_iff_forall_not_mem.2 fun x hx => by
    have hx := (hloop.mem_stripped x).1 hx
    rw [hnone x] at hx
    cases hx
  rw [stripUnusedAliases] at hjs
  dsimp only at hjs
  split at hjs
  · exact (Except.ok.inj hjs).symm
  · rw [if_pos ((hloop.removed (by simp)).2 hstripped)] at hjs
    cases hjs

/-- **What is left of a loader**, where something is stripped. -/
theorem strip_something (h : Sound mayGo pieces) (hsep : Separated pieces)
    (hnames : ∀ x ∈ stripNames file, ∀ c ∈ x, isWord c = true)
    (htaken : Taken (isCalled pieces) (stripNames file) pieces fun q => mayGo q = true)
    (hx : isStripped pieces (stripNames file) x = true) :
    Sound mayGo (cuts (isCalled pieces) (stripNames file) pieces) ∧
      stripUnusedAliases (textOf pieces) file =
        .ok (textOf ((cuts (isCalled pieces) (stripNames file) pieces).filterMap
          (rewritePiece (isStripped pieces (stripNames file))))) := by
  have hloop := loop_pieces h hsep hnames htaken
  have hne := List.ne_nil_of_mem ((hloop.mem_stripped x).2 hx)
  have hlist : stripNames file ≠ [] := by
    intro hnil
    rw [isStripped_iff, hnil] at hx
    cases hx.1
  refine ⟨hloop.sound, ?_⟩
  rw [stripUnusedAliases]
  dsimp only
  rw [if_neg hlist, if_neg fun h => hne ((hloop.removed (by simp)).1 h), if_neg hne, hloop.js,
    replaceAll_textOf hloop.sound (breaks_none _), flatMap_rewriteText hloop.mem_stripped]

end

/-! ## Loaders that fit -/

theorem exists_of_any (h : pieces.any (Piece.isAliasOf x) = true) :
    ∃ reading a, .aliasStmt reading a ∈ pieces ∧ a.jsName = x := by
  obtain ⟨q, hq, hx⟩ := List.any_eq_true.1 h
  obtain ⟨reading, a, rfl, ha⟩ := exists_of_isAliasOf hx
  exact ⟨reading, a, hq, ha⟩

theorem isStatementOf_iff {q : Piece} :
    q.isStatementOf x = true ↔ ∃ a, q = .aliasStmt .statement a ∧ a.jsName = x := by
  rw [Piece.isStatementOf, Bool.and_eq_true]
  constructor
  · rintro ⟨hx, hq⟩
    obtain ⟨reading, a, rfl, ha⟩ := exists_of_isAliasOf hx
    cases reading with
    | statement => exact ⟨a, rfl, ha⟩
    | part => cases hq
    | quoted => cases hq
  · rintro ⟨a, rfl, ha⟩
    exact ⟨beq_iff_eq.2 ha, rfl⟩

theorem cut_eq_self {removed : Text → Bool} {d : Decl} (h : ∀ x ∈ d.names, removed x = false) :
    d.cut removed = some d := by
  have hmore : d.more.filter (fun e => !removed e.2.text) = d.more :=
    List.filter_eq_self.2 fun e he => by
      rw [h e.2.text (List.mem_cons_of_mem _ (List.mem_map_of_mem he))]
      rfl
  rw [Decl.cut, h d.first.text List.mem_cons_self, hmore]
  rfl

theorem names_of_cut {removed : Text → Bool} {d d' : Decl} (h : d.cut removed = some d') :
    d'.names = d.names.filter fun x => !removed x := by
  rw [← names_cut, h]
  rfl

/-- A removed name stays only where it is used. -/
theorem elsewhere_of_remove {q q' : Piece} (h : q.remove removed = some q')
    (hx : removed x = true) (hmem : x ∈ q'.identifiers) : x ∈ q.elsewhere := by
  cases q with
  | code tokens =>
    rw [← Option.some_inj.1 h] at hmem
    exact hmem
  | aliasStmt reading a =>
    cases reading with
    | statement =>
      rw [Piece.remove] at h
      split at h
      · cases h
      · rename_i hkept
        rw [← Option.some_inj.1 h] at hmem
        refine (List.mem_cons.1 hmem).resolve_left ?_
        rintro rfl
        exact hkept hx
    | part =>
      rw [← Option.some_inj.1 h] at hmem
      exact hmem
    | quoted =>
      rw [← Option.some_inj.1 h] at hmem
      cases hmem
  | decl place d =>
    cases place with
    | top =>
      obtain ⟨d', hcut, rfl⟩ := Option.map_eq_some_iff.1 h
      rw [Piece.identifiers, names_of_cut hcut, List.mem_filter, hx] at hmem
      · cases hmem.2
      · exact fun heq => by cases heq
    | inner =>
      rw [← Option.some_inj.1 h] at hmem
      exact hmem
    | quoted =>
      rw [← Option.some_inj.1 h] at hmem
      cases hmem

/-- The pieces but for the alias statements for some names. -/
def Piece.isKept (removed : Text → Bool) : Piece → Bool
  | aliasStmt .statement a => !removed a.jsName
  | _ => true

theorem isKept_of_isStatementOf {q : Piece} (h : q.isStatementOf x = true) :
    q.isKept removed = !removed x := by
  obtain ⟨a, rfl, rfl⟩ := isStatementOf_iff.1 h
  rfl

/-- What comes behind the first elements, if these are all of a kind. -/
theorem drop_of_take_eq_filter {α : Type*} {l : List α} {n : Nat} {r : α → Bool}
    (h : l.take n = l.filter r) : ∀ a ∈ l.drop n, r a = false := by
  have htake : (l.take n).filter r = l.take n := List.filter_eq_self.2 fun a ha => by
    rw [h] at ha
    exact (List.mem_filter.1 ha).2
  have hfilter : l.filter r = l.take n ++ (l.drop n).filter r := by
    conv_lhs => rw [← List.take_append_drop n l]
    rw [List.filter_append, htake]
  rw [← h] at hfilter
  have hnil : (l.drop n).filter r = [] := by simpa using hfilter
  exact fun a ha => by simpa using List.filter_eq_nil_iff.1 hnil a ha

theorem filter_isStatementOf (x : Text) (pieces : List Piece) :
    pieces.filter (Piece.isStatementOf x) =
      (pieces.filter (Piece.isAliasOf x)).filter Piece.isStatement := by
  rw [List.filter_filter]
  exact List.filter_congr fun q _ => Bool.and_comm _ _

/-- The alias statements for the stripped names are gone. -/
theorem PiecesFit.leftOf_eq (hfits : PiecesFit pieces names) :
    leftOf (isCalled pieces) names pieces =
      pieces.filter (Piece.isKept (isStripped pieces names)) := by
  have htaken : Taken (isCalled pieces) names pieces fun q =>
      q.isKept (isStripped pieces names) = false := by
    refine taken_of_isStripped fun x hx q hq => ?_
    rw [hfits.statements x hx] at hq
    rw [isKept_of_isStatementOf (List.mem_filter.1 hq).2, hx]
    rfl
  rw [← filter_leftOf htaken]
  refine (List.filter_eq_self.2 fun q hq => ?_).symm
  by_contra hgone
  cases q with
  | code tokens => exact hgone rfl
  | decl place d => exact hgone rfl
  | aliasStmt reading a =>
    cases reading with
    | part => exact hgone rfl
    | quoted => exact hgone rfl
    | statement =>
      have hstripped : isStripped pieces names a.jsName = true := by
        simpa [Piece.isKept] using hgone
      have htake := hfits.statements a.jsName hstripped
      rw [filter_isStatementOf] at htake
      have hleft := List.mem_filter.2
        ⟨hq, show (Piece.aliasStmt .statement a).isAliasOf a.jsName = true from beq_self_eq_true _⟩
      rw [aliases_leftOf, (isStripped_iff.1 hstripped).2.2, if_neg Bool.false_ne_true] at hleft
      have hno := drop_of_take_eq_filter htake _ hleft
      cases hno

/-- What stays of each piece looks as it did. -/
theorem PiecesFit.text_eq (hfits : PiecesFit pieces names) (hx : isStripped pieces names x = true)
    {q : Piece} (hq : q ∈ pieces) :
    ((if q.isKept (isStripped pieces names) then rewritePiece (isStripped pieces names) q
        else none).map Piece.text).getD []
      = ((q.remove (isStripped pieces names)).map Piece.text).getD [] := by
  have hlaid : ∀ {d : Decl}, LaidOut d → d.tidy.text = d.text := fun h => by
    rw [text_tidy, ← h]
  have hwhole : ∀ place d, place ≠ .top → .decl place d ∈ pieces →
      (∀ y ∈ d.names, isStripped pieces names y = false) →
        (((d.cut (isStripped pieces names)).map fun d => Piece.decl place d.tidy).map
          Piece.text).getD [] = d.text := by
    intro place d hplace hd hnot
    have hlayout := hfits.laidOut x hx place d hd d (by rw [if_neg hplace]; rfl)
    rw [cut_eq_self hnot]
    exact hlaid hlayout
  cases q with
  | code tokens => rfl
  | aliasStmt reading a =>
    cases reading with
    | part => rfl
    | quoted => rfl
    | statement =>
      rw [Piece.isKept, Piece.remove]
      cases isStripped pieces names a.jsName <;> rfl
  | decl place d =>
    rw [if_pos (show (Piece.decl place d).isKept _ = true from rfl), rewritePiece]
    cases place with
    | top =>
      rw [Piece.remove]
      match hcut : d.cut (isStripped pieces names) with
      | none => rfl
      | some d' => exact hlaid (hfits.laidOut x hx .top d hq d' hcut)
    | inner =>
      refine hwhole .inner d (by decide) hq fun y hy => ?_
      by_contra hstripped
      exact hfits.unused y (by simpa using hstripped) _ hq hy
    | quoted =>
      refine hwhole .quoted d (by decide) hq fun y hy => ?_
      by_contra hstripped
      exact hfits.unquoted y (by simpa using hstripped) d hq hy

/-- **What is left of pieces that fit is what has to be left.** -/
theorem PiecesFit.text (hfits : PiecesFit pieces names) (hx : isStripped pieces names x = true) :
    textOf ((leftOf (isCalled pieces) names pieces).filterMap
        (rewritePiece (isStripped pieces names))) =
      textOf (pieces.filterMap (Piece.remove (isStripped pieces names))) := by
  rw [hfits.leftOf_eq, List.filterMap_filter, textOf_filterMap, textOf_filterMap]
  exact List.flatMap_congr fun q hq => hfits.text_eq hx hq

/-- **Pieces that fit are stripped rightly.** -/
theorem PiecesFit.stripped (hfits : PiecesFit pieces names)
    (hx : isStripped pieces names x = true) :
    Stripped pieces (isStripped pieces names)
      (textOf ((leftOf (isCalled pieces) names pieces).filterMap
        (rewritePiece (isStripped pieces names)))) where
  text := hfits.text hx
  aliased y hy := by
    obtain ⟨hmem, hany, -⟩ := isStripped_iff.1 hy
    obtain ⟨q, hq, hqy⟩ := List.any_eq_true.1 hany
    have hpos := List.count_pos_iff.2 hmem
    obtain ⟨r, l, hl⟩ := List.exists_cons_of_ne_nil
      (List.ne_nil_of_mem (List.mem_filter.2 ⟨hq, hqy⟩))
    have hfirst : r ∈ pieces.filter (Piece.isStatementOf y) := by
      rw [← hfits.statements y hy, hl, ← Nat.sub_add_cancel hpos]
      exact List.mem_cons_self
    exact List.any_eq_true.2 ⟨r, (List.mem_filter.1 hfirst).1, (List.mem_filter.1 hfirst).2⟩
  gone y hy q' hq' hmem := by
    obtain ⟨q, hq, hremove⟩ := List.mem_filterMap.1 hq'
    exact hfits.unused y hy q hq (elsewhere_of_remove hremove hy hmem)
  alias_kept q hq y hy a ha hay := by
    obtain ⟨a, rfl, rfl⟩ := isStatementOf_iff.1 hay
    refine List.mem_filterMap.2 ⟨_, ha, ?_⟩
    rw [Piece.remove, if_neg fun hstripped => hfits.unused _ hstripped q hq hy]
  decl_kept q hq y hy d hd hyd := by
    have hkept : isStripped pieces names y = false := by
      by_contra hstripped
      exact hfits.unused y (by simpa using hstripped) q hq hy
    match d, hyd with
    | .decl .top d, hyd =>
      have hnames : y ∈ d.names.filter fun x => !isStripped pieces names x :=
        List.mem_filter.2 ⟨hyd, by rw [hkept]; rfl⟩
      match hcut : d.cut (isStripped pieces names) with
      | none =>
        rw [← names_cut, hcut] at hnames
        cases hnames
      | some d' =>
        refine ⟨.decl .top d', List.mem_filterMap.2 ⟨_, hd, by rw [Piece.remove, hcut]; rfl⟩, ?_⟩
        rw [← names_of_cut hcut] at hnames
        exact hnames

/-- A loader that is left as it is. -/
theorem stripped_nothing (pieces : List Piece) :
    Stripped pieces (fun _ => false) (textOf pieces) := by
  have hremove : ∀ q : Piece, q.remove (fun _ => false) = some q := by
    intro q
    cases q with
    | aliasStmt reading a => cases reading <;> rfl
    | code tokens => rfl
    | decl place d =>
      cases place with
      | top => rw [Piece.remove, cut_eq_self fun _ _ => rfl, Option.map_some]
      | inner => rfl
      | quoted => rfl
  have hsame : pieces.filterMap (Piece.remove fun _ => false) = pieces := by
    rw [show Piece.remove (fun _ => false) = some from funext hremove]
    exact List.filterMap_some
  have hnone : ∀ {r : Prop}, false = true → r := fun h => absurd h Bool.false_ne_true
  refine ⟨by rw [hsame], fun x hx => hnone hx, fun x hx => hnone hx, ?_, ?_⟩
  · intro q _ x _ a ha _
    rwa [hsame]
  · intro q _ x _ d hd hx
    rw [hsame]
    exact ⟨d, hd, hx⟩

end PhpWasm.Build.StripAliases
