import PhpWasm.Base.Capture
import PhpWasm.Base.Segments
import PhpWasm.Build.LatestVersion

/-!
# Source templates

`matrix.json` knows the address of an archive as a template, in which `{version}` or
`{versionCompact}` stands for the version.  `renderTemplate` makes an address of it;
`templateToRegExp` makes a regular expression of its last component, by which `resolveTarball` and
`resolveSourceforge` find the versions that a page lists.

* `templateToRegExp_of_names`: with one placeholder, the expression is that placeholder between two
  words.
* `captured_complete`: a file that is listed behind a character that no file name has is found,
  whether there is a year in front of it or not.
* `templateRight`: so nothing that is listed is higher than the answer, and the name of the file at
  the rendered address is on the page.
* `compactRight`: the same for SQLite's one-number versions.

JavaScript compares doubles, so the numbers that are captured have to be safe integers.
-/

set_option autoImplicit false

namespace PhpWasm.Build

open Capture (Part Fits matchRow oneGroup)
open LazySearch (Takes matchAll)
open Scan (strip)
open Vendored (Text)

/-! ## Rendering -/

/-- What stands for a version. -/
inductive Placeholder
  | version
  | compact
  deriving DecidableEq

/-- The placeholder behind its brace. -/
def Placeholder.word : Placeholder → Text
  | version => "version\x7d".toList
  | compact => "versionCompact\x7d".toList

/-- `[\d.]` and `\d` -/
def Placeholder.has : Placeholder → Char → Bool
  | version, c => c.isDigit || c = '.'
  | compact, c => c.isDigit

/-- `sourceTemplate.replaceAll(placeholder, text)` -/
def Placeholder.put (k : Placeholder) (text sourceTemplate : Text) : Text :=
  Scan.replace (.lit '{' k.word) text sourceTemplate

/-- `renderTemplate` -/
def renderTemplate (sourceTemplate version : Text) : Text :=
  Placeholder.compact.put (Nat.toDigits 10 (versionCompact version))
    (Placeholder.version.put version sourceTemplate)

/-- `sourceTemplate.split('/').pop()` -/
def basename (sourceTemplate : Text) : Text := ((sourceTemplate.splitOn '/').getLast?).getD []

/-- `entry.sourceTemplate.includes('{versionCompact}')` -/
def usesCompact (sourceTemplate : Text) : Bool :=
  '{' :: Placeholder.compact.word <:+: sourceTemplate

/-! ## Finding the versions -/

/-- A regular expression. -/
abbrev NamePattern := List (Part Char Placeholder)

/-- `escaped.replace(placeholder, group)`, of the first placeholder. -/
def Placeholder.group (k : Placeholder) : NamePattern → NamePattern
  | [] => []
  | part :: row =>
    match strip (('{' :: k.word).map .lit) (part :: row) with
    | some rest => .group k :: rest
    | none => part :: k.group row

/-- `templateToRegExp` -/
def templateToRegExp (filenamePart : Text) : NamePattern :=
  Placeholder.compact.group (Placeholder.version.group (filenamePart.map .lit))

/-- `\d{4}/`, with what is behind it. -/
def skipYear (s : Text) : Option Text :=
  if (s.take 4).length = 4 ∧ (s.take 4).all Char.isDigit then strip ['/'] (s.drop 4) else none

/-- A match of the pattern; `year` is whether it has `(?:\d{4}/)?` in front. -/
def nameMatch (year : Bool) (row : NamePattern) (s : Text) : Option (List Text × Text) :=
  if year then ((skipYear s).bind (matchRow Placeholder.has row)).or (matchRow Placeholder.has row s)
  else matchRow Placeholder.has row s

/-- `[...html.matchAll(pattern)].map((m) => m[1])` -/
def captured (year : Bool) (sourceTemplate html : Text) : List Text :=
  (matchAll (nameMatch year (templateToRegExp (basename sourceTemplate))) html).filterMap
    List.head?

/-- `resolveSourceforge`, with the feed of the project. -/
def resolveSourceforge (sourceTemplate xml : Text) : Option Text :=
  highestVersion (captured false sourceTemplate xml)

/-- What `resolveTarball` reads of an entry. -/
structure TarballEntry where
  checkUrl : Option Text
  /-- What `checkPattern` captures on a page. -/
  checkPattern : Option (Text → List Text)
  sourceTemplate : Text

/-- `resolveTarball`, where the page is fetched. -/
def resolveTarball (fetchText : Text → Text) (entry : TarballEntry) : Option Text :=
  (entry.checkUrl.filter fun checkUrl => checkUrl ≠ []).bind fun checkUrl =>
    let html := fetchText checkUrl
    match entry.checkPattern with
    | some checkPattern => highestVersion (checkPattern html)
    | none =>
      let versions := captured true entry.sourceTemplate html
      if usesCompact entry.sourceTemplate then resolveCompact versions
      else highestVersion versions

/-! ## What is right -/

/-- **The files of a template**: the placeholder is between two words, which say where it ends. -/
structure NamesFiles (sourceTemplate P : Text) (k : Placeholder) (L : Text) : Prop where
  basename : basename sourceTemplate = P ++ ('{' :: k.word ++ L)
  left : '{' ∉ P
  right : '{' ∉ L
  pinned : ∃ c ∈ L, k.has c = false

/-- A file is listed on a page with a version, behind a character that no file name has. -/
structure OnPage (k : Placeholder) (P L html v : Text) : Prop where
  nonempty : v ≠ []
  chars : ∀ c ∈ v, k.has c = true
  apart : ∃ before after, html = before ++ (P ++ v ++ L ++ after) ∧
    ∀ c ∈ before.getLast?, c ∉ P ++ L ∧ c.isDigit = false ∧ c ≠ '.'

/-- **The answer is right**: the file at the rendered address is on the page, and none that is
listed there is higher. -/
structure AnswerRight (sourceTemplate P L html : Text) (answer : Option Text) : Prop where
  named : ∀ latest ∈ answer, basename (renderTemplate sourceTemplate latest) <:+: html
  highest : ∀ v, OnPage .version P L html v →
    ∃ latest ∈ answer, NotLower v latest

/-! ## The last component -/

section Basename

variable {s t P L v : Text} {k : Placeholder}

theorem basename_append (s t : Text) : basename (s ++ '/' :: t) = basename t := by
  rw [basename, List.splitOn_append_cons_self,
    List.getLast?_append_of_ne_nil _ (List.splitOn_ne_nil _ _)]
  rfl

theorem basename_of_not_mem (h : '/' ∉ t) : basename t = t := by
  rw [basename, List.splitOn_eq_singleton h]
  rfl

/-- What is in front of the last component ends with a slash. -/
theorem basename_cases (t : Text) :
    '/' ∉ basename t ∧ (t = basename t ∨ ∃ s, t = s ++ '/' :: basename t) := by
  induction t using Segments.segment_induction '/' with
  | last t h =>
    rw [basename_of_not_mem h]
    exact ⟨h, .inl rfl⟩
  | more s t _ ih =>
    obtain ⟨hslash, hcases⟩ := ih
    rw [basename_append]
    refine ⟨hslash, .inr ?_⟩
    rcases hcases with heq | ⟨s', heq⟩
    · exact ⟨s, by rw [← heq]⟩
    · refine ⟨s ++ '/' :: s', ?_⟩
      rw [List.append_assoc, List.cons_append, ← heq]

theorem basename_subtext (t : Text) : basename t <:+: t := by
  rcases (basename_cases t).2 with h | ⟨s, h⟩
  · exact ⟨[], [], by rw [List.append_nil, List.nil_append, ← h]⟩
  · exact ⟨s ++ ['/'], [], by rw [List.append_nil, List.append_assoc]; exact h.symm⟩

/-! ## Rendering, component by component -/

theorem slash_not_mem_word (k : Placeholder) : '/' ∉ '{' :: k.word := by
  cases k <;> decide

theorem brace_not_mem_word (k : Placeholder) : '{' ∉ k.word := by
  cases k <;> decide

/-- The last component is rendered by itself. -/
theorem basename_render (t version : Text) (h : '/' ∉ renderTemplate (basename t) version) :
    basename (renderTemplate t version) = renderTemplate (basename t) version := by
  rcases (basename_cases t).2 with heq | ⟨s, heq⟩
  · rw [← heq] at h ⊢
    exact basename_of_not_mem h
  · have hrender : renderTemplate t version =
        renderTemplate s version ++ '/' :: renderTemplate (basename t) version := by
      conv_lhs => rw [heq]
      simp only [renderTemplate, Placeholder.put,
        Scan.replace_append_cons (slash_not_mem_word _)]
    rw [hrender, basename_append, basename_of_not_mem h]

/-- The one placeholder is replaced. -/
theorem put_append (hP : '{' ∉ P) (hL : '{' ∉ L) (k : Placeholder) (text : Text) :
    k.put text (P ++ ('{' :: k.word ++ L)) = P ++ text ++ L := by
  rw [Placeholder.put, Scan.replace_append_of_not_mem hP, Scan.replace_lit_append,
    Scan.replace_of_not_mem hL, List.append_assoc]

/-- `{version}` is not `{versionCompact}`. -/
theorem put_version_compact (hP : '{' ∉ P) (hL : '{' ∉ L) (text : Text) :
    Placeholder.version.put text (P ++ ('{' :: Placeholder.compact.word ++ L)) =
      P ++ ('{' :: Placeholder.compact.word ++ L) := by
  have hother : ¬ '{' :: Placeholder.version.word <+: '{' :: (Placeholder.compact.word ++ L) := by
    intro h
    have hwords := List.prefix_of_prefix_length_le (List.cons_prefix_cons.1 h).2
      (List.prefix_append _ L) (by decide)
    exact absurd hwords (by decide)
  rw [Placeholder.put, Scan.replace_append_of_not_mem hP, List.cons_append,
    Scan.replace_of_run_none (Scan.lit_run_eq_none.2 hother),
    Scan.replace_append_of_not_mem (brace_not_mem_word _), Scan.replace_of_not_mem hL]

end Basename

/-! ## The expression of a template -/

section Expression

variable {t P L : Text} {k : Placeholder} {row : NamePattern}

/-- Without a brace there is no placeholder. -/
theorem group_append (h : Part.lit '{' ∉ row) (rest : NamePattern) :
    k.group (row ++ rest) = row ++ k.group rest := by
  induction row with
  | nil => rfl
  | cons part row ih =>
    obtain ⟨hpart, hrow⟩ := not_or.1 (mt List.mem_cons.2 h)
    have hnone : strip (('{' :: k.word).map .lit) (part :: (row ++ rest)) = none := by
      rw [List.map_cons, strip, if_neg hpart]
    rw [List.cons_append, Placeholder.group, hnone, ih hrow, List.cons_append]

theorem group_of_not_mem (h : Part.lit '{' ∉ row) : k.group row = row := by
  have happend := group_append (k := k) h []
  rwa [Placeholder.group, List.append_nil] at happend

theorem lit_brace_not_mem (h : '{' ∉ P) : (Part.lit '{' : Part Char Placeholder) ∉ P.map .lit := by
  intro hmem
  obtain ⟨c, hc, heq⟩ := List.mem_map.1 hmem
  exact h (Part.lit.inj heq ▸ hc)

theorem lit_brace_not_mem_oneGroup (hP : '{' ∉ P) (hL : '{' ∉ L) :
    (Part.lit '{' : Part Char Placeholder) ∉ oneGroup P k L := by
  rw [oneGroup, List.mem_append, List.mem_cons]
  rintro (h | h | h)
  · exact lit_brace_not_mem hP h
  · cases h
  · exact lit_brace_not_mem hL h

/-- The one placeholder becomes a group. -/
theorem group_hole (hP : '{' ∉ P) (k : Placeholder) :
    k.group ((P ++ ('{' :: k.word ++ L)).map .lit) = oneGroup P k L := by
  have hstrip : strip (('{' :: k.word).map Part.lit)
      (Part.lit '{' :: (k.word ++ L).map .lit : NamePattern) = some (L.map .lit) := by
    rw [Scan.strip_eq_some, ← List.map_append, List.cons_append, List.map_cons]
  rw [List.map_append, group_append (lit_brace_not_mem hP), List.cons_append, List.map_cons,
    Placeholder.group, hstrip]
  rfl

/-- `{versionCompact}` is not taken for `{version}`. -/
theorem group_version_compact (hP : '{' ∉ P) (hL : '{' ∉ L) :
    Placeholder.version.group ((P ++ ('{' :: Placeholder.compact.word ++ L)).map .lit) =
      (P ++ ('{' :: Placeholder.compact.word ++ L)).map .lit := by
  have hnone : strip (('{' :: Placeholder.version.word).map Part.lit)
      (Part.lit '{' :: (Placeholder.compact.word ++ L).map .lit : NamePattern) = none := rfl
  have hrest : '{' ∉ Placeholder.compact.word ++ L := by
    rw [List.mem_append, not_or]
    exact ⟨brace_not_mem_word _, hL⟩
  rw [List.map_append, group_append (lit_brace_not_mem hP), List.cons_append, List.map_cons,
    Placeholder.group, hnone]
  dsimp only
  rw [group_of_not_mem (lit_brace_not_mem hrest)]

/-- **The expression of a template** with one placeholder. -/
theorem templateToRegExp_of_names (h : NamesFiles t P k L) :
    templateToRegExp (basename t) = oneGroup P k L := by
  rw [templateToRegExp, h.basename]
  cases k with
  | version =>
    rw [group_hole h.left]
    exact group_of_not_mem (lit_brace_not_mem_oneGroup h.left h.right)
  | compact => rw [group_version_compact h.left h.right, group_hole h.left]

end Expression

/-! ## What is captured -/

section Captured

variable {t P L html v s rest : Text} {k : Placeholder} {year : Bool} {xs : List Text}

/-- A year and a slash, or nothing. -/
def IsYear (year : Bool) (y : Text) : Prop :=
  y = [] ∨ year = true ∧ ∃ d, d.length = 4 ∧ (∀ c ∈ d, c.isDigit = true) ∧ y = d ++ ['/']

theorem skipYear_eq_some {s' : Text} (h : skipYear s = some s') :
    ∃ d, d.length = 4 ∧ (∀ c ∈ d, c.isDigit = true) ∧ s = d ++ ['/'] ++ s' := by
  rw [skipYear] at h
  split at h
  · rename_i hyear
    refine ⟨s.take 4, hyear.1, List.all_eq_true.1 hyear.2, ?_⟩
    rw [List.append_assoc, ← Scan.strip_eq_some.1 h, List.take_append_drop]
  · cases h

/-- **What a match is**: the name of a file, and perhaps a year in front of it. -/
theorem nameMatch_sound (h : nameMatch year (oneGroup P k L) s = some (xs, rest)) :
    ∃ y x, IsYear year y ∧ x ≠ [] ∧ (∀ c ∈ x, k.has c = true) ∧ xs = [x] ∧
      s = y ++ (P ++ x ++ L) ++ rest := by
  have hplain : ∀ {s'}, matchRow Placeholder.has (oneGroup P k L) s' = some (xs, rest) →
      ∃ x, x ≠ [] ∧ (∀ c ∈ x, k.has c = true) ∧ xs = [x] ∧ s' = P ++ x ++ L ++ rest := by
    intro s' hmatch
    obtain ⟨name, hfits, rfl⟩ := Capture.matchRow_sound hmatch
    obtain ⟨x, hx, hchars, hxs, rfl⟩ := Capture.fits_oneGroup.1 hfits
    exact ⟨x, hx, hchars, hxs, rfl⟩
  rw [nameMatch] at h
  split at h
  · rename_i hyear
    rcases Option.or_eq_some_iff.1 h with hskip | ⟨-, hmatch⟩
    · obtain ⟨s', hs', hmatch⟩ := Option.bind_eq_some_iff.1 hskip
      obtain ⟨d, hlen, hdigits, rfl⟩ := skipYear_eq_some hs'
      obtain ⟨x, hx, hchars, hxs, rfl⟩ := hplain hmatch
      refine ⟨d ++ ['/'], x, .inr ⟨hyear, d, hlen, hdigits, rfl⟩, hx, hchars, hxs, ?_⟩
      simp only [List.append_assoc]
    · obtain ⟨x, hx, hchars, hxs, rfl⟩ := hplain hmatch
      exact ⟨[], x, .inl rfl, hx, hchars, hxs, rfl⟩
  · obtain ⟨x, hx, hchars, hxs, rfl⟩ := hplain h
    exact ⟨[], x, .inl rfl, hx, hchars, hxs, rfl⟩

theorem takes_nameMatch (year : Bool) (P : Text) (k : Placeholder) (L : Text) :
    Takes (nameMatch year (oneGroup P k L)) := by
  intro s xs rest h
  obtain ⟨y, x, -, hx, -, -, rfl⟩ := nameMatch_sound h
  exact ⟨y ++ (P ++ x ++ L), by simp [hx], rfl⟩

/-- Where the name of a file is, there is a match. -/
theorem nameMatch_ne_none (hv : v ≠ []) (hchars : ∀ c ∈ v, k.has c = true) (year : Bool)
    (after : Text) : nameMatch year (oneGroup P k L) (P ++ v ++ L ++ after) ≠ none := by
  have hsome := Capture.exists_matchRow
    (Capture.fits_oneGroup.2 ⟨v, hv, hchars, rfl, rfl⟩ : Fits _ (oneGroup P k L) [v] _) after
  rw [Option.isSome_iff_ne_none] at hsome
  rw [nameMatch]
  split
  · intro hnone
    exact hsome (Option.or_eq_none_iff.1 hnone).2
  · exact hsome

/-- **What is captured is on the page.** -/
theorem captured_sound (h : NamesFiles t P k L) (hv : v ∈ captured year t html) :
    v ≠ [] ∧ (∀ c ∈ v, k.has c = true) ∧ P ++ v ++ L <:+: html := by
  rw [captured, templateToRegExp_of_names h] at hv
  obtain ⟨xs, hxs, hhead⟩ := List.mem_filterMap.1 hv
  have htakes := takes_nameMatch year P k L
  obtain ⟨before, s, rest, rfl, hmatch⟩ := (LazySearch.cut_matchAll htakes html).mem htakes hxs
  obtain ⟨y, x, -, hx, hchars, rfl, rfl⟩ := nameMatch_sound hmatch
  obtain rfl := Option.some.inj hhead
  exact ⟨hx, hchars, before ++ y, rest, by simp only [List.append_assoc]⟩

/-- A name is not taken for a year. -/
theorem isYear_of_name (h : NamesFiles t P k L) (hchars : ∀ c ∈ v, k.has c = true)
    {y after r : Text} (hy : IsYear year y) (heq : P ++ v ++ L ++ after = y ++ r) : y = [] := by
  rcases hy with hy | ⟨-, d, hlen, hdigits, rfl⟩
  · exact hy
  obtain ⟨c, hc, hnot⟩ := h.pinned
  have hslash : '/' ∉ P ++ v ++ L := by
    have hbase := (basename_cases t).1
    rw [h.basename, List.mem_append, List.mem_append, not_or, not_or] at hbase
    rw [List.mem_append, List.mem_append, not_or, not_or]
    refine ⟨⟨hbase.1, fun hmem => ?_⟩, hbase.2.2⟩
    have := hchars '/' hmem
    cases k <;> exact absurd this (by decide)
  have hcDigit : c.isDigit = false := by
    cases k with
    | version => exact (Bool.or_eq_false_iff.1 hnot).1
    | compact => exact hnot
  -- the slash of the year would be in the name, or all of the name in the four digits
  rw [List.append_assoc d] at heq
  rcases List.append_eq_append_iff.1 heq with ⟨w, hw, -⟩ | ⟨w, hw, hrest⟩
  · have hdigit := hdigits c (hw ▸ List.mem_append_left _ (List.mem_append_right _ hc))
    rw [hcDigit] at hdigit
    cases hdigit
  · cases w with
    | nil =>
      rw [List.append_nil] at hw
      have hdigit := hdigits c (hw ▸ List.mem_append_right _ hc)
      rw [hcDigit] at hdigit
      cases hdigit
    | cons e w =>
      have he : '/' = e := (List.cons.inj hrest).1
      exact absurd (hw ▸ List.mem_append_right _ (he ▸ List.mem_cons_self)) hslash

/-- A match that begins in front of a character that is neither a digit nor in a name, and goes on
behind it, has its name behind it. -/
theorem name_behind {y u name e} (hy : IsYear year y) (hdigit : Char.isDigit e = false)
    (hname : e ∉ name) (heq : u ++ [e] ++ s = y ++ name ++ rest) (hlt : rest.length < s.length) :
    s = name ++ rest := by
  rw [List.append_assoc y] at heq
  rcases List.append_eq_append_iff.1 heq with ⟨w, hyw, hs⟩ | ⟨w, huw, hs⟩
  · -- it is in the year, and so its slash
    rcases hy with rfl | ⟨-, d, -, hdigits, rfl⟩
    · simp at hyw
    rcases List.eq_nil_or_concat' w with rfl | ⟨w, z, rfl⟩
    · rw [hs, List.nil_append]
    · rw [← List.append_assoc] at hyw
      have hd := (List.append_inj' hyw rfl).1
      have hmem : e ∈ d := by
        rw [hd]
        simp
      rw [hdigits e hmem] at hdigit
      cases hdigit
  · rcases List.append_eq_append_iff.1 hs.symm with ⟨z, hz, -⟩ | ⟨z, -, hrest⟩
    · rcases List.eq_nil_or_concat' w with rfl | ⟨w, c, rfl⟩
      · rw [hs, List.nil_append]
      · -- it would be in the name
        rw [← List.append_assoc] at huw
        obtain rfl : e = c := (List.cons.inj (List.append_inj' huw rfl).2).1
        refine absurd ?_ hname
        rw [hz]
        simp
    · rw [hrest, List.length_append] at hlt
      omega

/-- **A file that is listed is found.** -/
theorem captured_complete (h : NamesFiles t P k L) (hlisted : OnPage k P L html v) (year : Bool) :
    v ∈ captured year t html := by
  obtain ⟨hv, hchars, before, after, rfl, hapart⟩ := hlisted
  have htakes := takes_nameMatch year P k L
  rw [captured, templateToRegExp_of_names h]
  obtain ⟨a, u, xs, rest, hbefore, hmatch, hlt, hmem⟩ :=
    (LazySearch.cut_matchAll htakes _).meets htakes (nameMatch_ne_none hv hchars year after)
  obtain ⟨y, x, hy, hx, hxchars, rfl, heq⟩ := nameMatch_sound hmatch
  refine List.mem_filterMap.2 ⟨[x], hmem, ?_⟩
  suffices hsuff : P ++ v ++ L ++ after = P ++ x ++ L ++ rest by
    rw [Capture.fits_pinned h.pinned hchars hxchars hsuff]
    rfl
  rcases List.eq_nil_or_concat' u with rfl | ⟨u, e, rfl⟩
  · rw [List.nil_append] at heq
    rw [isYear_of_name h hchars hy (heq.trans (List.append_assoc y _ _)), List.nil_append] at heq
    exact heq
  · -- the character in front of the name is no part of a name: it is the slash behind the year
    obtain ⟨heapart, heDigit, heDot⟩ := hapart e (by
      rw [hbefore, ← List.append_assoc, List.getLast?_concat]
      rfl)
    have hename : e ∉ P ++ x ++ L := by
      rw [List.mem_append, List.mem_append, not_or, not_or]
      rw [List.mem_append, not_or] at heapart
      refine ⟨⟨heapart.1, fun hmem => ?_⟩, heapart.2⟩
      have hhas := hxchars e hmem
      cases k <;> simp [Placeholder.has, heDigit, heDot] at hhas
    exact name_behind hy heDigit hename heq hlt

end Captured

/-! ## The answers -/

section Answers

variable {t P L html : Text} {k : Placeholder}

/-- A version has neither a slash nor a brace. -/
theorem has_only {v : Text} (hchars : ∀ c ∈ v, k.has c = true) : '/' ∉ v ∧ '{' ∉ v := by
  constructor <;> intro hmem <;> have hhas := hchars _ hmem <;>
    cases k <;> exact absurd hhas (by decide)

/-- The words of a name have no slash. -/
theorem NamesFiles.slash (h : NamesFiles t P k L) : '/' ∉ P ∧ '/' ∉ L := by
  have hbase := (basename_cases t).1
  rw [h.basename, List.mem_append, List.mem_append, not_or, not_or] at hbase
  exact ⟨hbase.1, hbase.2.2⟩

/-- **The name that is rendered.** -/
theorem basename_renderTemplate (h : NamesFiles t P .version L) {version : Text}
    (hchars : ∀ c ∈ version, Placeholder.version.has c = true) :
    basename (renderTemplate t version) = P ++ version ++ L := by
  obtain ⟨hslash, hbrace⟩ := has_only hchars
  have hrender : renderTemplate (basename t) version = P ++ version ++ L := by
    rw [renderTemplate, h.basename, put_append h.left h.right, Placeholder.put,
      Scan.replace_of_not_mem]
    rw [List.mem_append, List.mem_append, not_or, not_or]
    exact ⟨⟨h.left, hbrace⟩, h.right⟩
  rw [basename_render, hrender]
  rw [hrender, List.mem_append, List.mem_append, not_or, not_or]
  exact ⟨⟨h.slash.1, hslash⟩, h.slash.2⟩

/-- The numbers of what is captured are those of the version. -/
theorem toParts_of_chars {v : Text} (hchars : ∀ c ∈ v, Placeholder.version.has c = true)
    (hsafe : Safe v) : toParts v = versionNumbers v := by
  have hdigit : ∀ c ∈ v, c.isDigit = true ∨ c = '.' := by
    intro c hc
    have hhas := hchars c hc
    rwa [Placeholder.has, Bool.or_eq_true, decide_eq_true_iff] at hhas
  have hdash : '-' ∉ v := fun hmem => absurd (hdigit '-' hmem) (by decide)
  have hstrip : stripV v = v := by
    refine stripV_of_not_startsWithV fun hv => ?_
    rcases v with _ | ⟨c, v⟩
    · exact absurd hv (by decide)
    · rw [startsWithV, Bool.or_eq_true, decide_eq_true_iff, decide_eq_true_iff] at hv
      rcases hv with rfl | rfl
      · exact absurd (hdigit 'v' List.mem_cons_self) (by decide)
      · exact absurd (hdigit 'V' List.mem_cons_self) (by decide)
  have hnumbers : versionNumbers v = (v.splitOnP isSeparator).map componentNumber := by
    have heq := versionNumbers_of_chars (v := v) (by
      rw [hstrip]
      exact fun c hc => (hdigit c hc).imp_right .inl)
    rwa [hstrip] at heq
  have hreplace := replaceDash_append hdash []
  rw [List.append_nil] at hreplace
  rw [Safe, hnumbers, List.forall_mem_map] at hsafe
  rw [toParts, hreplace, replaceDash, List.append_nil, splitOn_dot hdash, hnumbers]
  exact List.map_congr_left fun piece hpiece => numberOf_of_lt (hsafe piece hpiece)

/-- The highest of what is captured. -/
theorem answerRight_captured (h : NamesFiles t P .version L) (year : Bool) (html : Text)
    (hsafe : ∀ v ∈ captured year t html, Safe v) :
    AnswerRight t P L html (highestVersion (captured year t html)) := by
  refine ⟨fun latest hlatest => ?_, fun v hlisted => ?_⟩
  · obtain ⟨-, hchars, hpage⟩ := captured_sound h (highestVersion_highest hlatest).1
    rwa [basename_renderTemplate h hchars]
  · have hmem := captured_complete h hlisted year
    cases hhighest : highestVersion (captured year t html) with
    | none =>
      rw [highestVersion_eq_none.1 hhighest] at hmem
      cases hmem
    | some latest =>
      obtain ⟨hlatest, hhigh⟩ := highestVersion_highest hhighest
      have hle := hhigh v hmem
      rw [toParts_of_chars (captured_sound h hmem).2.1 (hsafe v hmem),
        toParts_of_chars (captured_sound h hlatest).2.1 (hsafe latest hlatest)] at hle
      exact ⟨latest, rfl, hle⟩

/-- **The answers for a template with `{version}` are right**, for any page and any feed. -/
theorem templateRight (h : NamesFiles t P .version L) (hcompact : usesCompact t = false)
    (fetchText : Text → Text) (checkUrl html : Text) (hurl : checkUrl ≠ [])
    (hpage : ∀ v ∈ captured true t (fetchText checkUrl), Safe v)
    (hfeed : ∀ v ∈ captured false t html, Safe v) :
    AnswerRight t P L (fetchText checkUrl) (resolveTarball fetchText ⟨some checkUrl, none, t⟩) ∧
      AnswerRight t P L html (resolveSourceforge t html) := by
  refine ⟨?_, answerRight_captured h false html hfeed⟩
  have htarball : resolveTarball fetchText ⟨some checkUrl, none, t⟩ =
      highestVersion (captured true t (fetchText checkUrl)) := by
    rw [resolveTarball, Option.filter_some, if_pos (by simpa using hurl), Option.bind_some]
    simp only [hcompact, Bool.false_eq_true, if_false]
  rw [htarball]
  exact answerRight_captured h true _ hpage

/-- A page that lists two archives, and an older one in front of them. -/
theorem templateRight_zlib :
    let t := "https://zlib.net/fossils/zlib-{version}.tar.gz".toList
    let html := "href=\"zlib-1.3.1.tar.gz\" href=\"zlib-1.3.2.tar.gz\"".toList
    AnswerRight t "zlib-".toList ".tar.gz".toList html
        (resolveTarball (fun _ => html) ⟨some "https://zlib.net/".toList, none, t⟩) ∧
      AnswerRight t "zlib-".toList ".tar.gz".toList html (resolveSourceforge t html) :=
  templateRight ⟨by decide, by decide, by decide, 't', by decide, by decide⟩ (by decide) _ _ _
    (by decide) (by decide +kernel) (by decide +kernel)

/-! ## One-number versions -/

/-- A number as SQLite writes it, with nothing behind the patch. -/
def IsCompact (digits : Text) : Prop :=
  digits = Nat.toDigits 10 (componentNumber digits) ∧ 100 ∣ componentNumber digits

/-- **The answer is right** for a template with `{versionCompact}`. -/
structure CompactRight (sourceTemplate P L html : Text) (answer : Option Text) : Prop where
  named : ∀ latest ∈ answer, ∃ digits, P ++ digits ++ L <:+: html ∧
    latest = compactToDotted (componentNumber digits) ∧
      (IsCompact digits → basename (renderTemplate sourceTemplate latest) = P ++ digits ++ L)
  highest : ∀ digits, OnPage .compact P L html digits →
    ∃ latest ∈ answer, componentNumber digits / 100 ≤ versionCompact latest / 100

theorem usesCompact_of_names (h : NamesFiles t P .compact L) : usesCompact t = true := by
  refine decide_eq_true (List.IsInfix.trans ?_ (basename_subtext t))
  exact ⟨P, L, by rw [h.basename, List.append_assoc]⟩

theorem basename_renderCompact (h : NamesFiles t P .compact L) (version : Text) :
    basename (renderTemplate t version) =
      P ++ Nat.toDigits 10 (versionCompact version) ++ L := by
  have hdigits : ∀ c ∈ Nat.toDigits 10 (versionCompact version), Placeholder.compact.has c = true :=
    fun c hc => Nat.isDigit_of_mem_toDigits (by decide) (by decide) hc
  have hrender : renderTemplate (basename t) version =
      P ++ Nat.toDigits 10 (versionCompact version) ++ L := by
    rw [renderTemplate, h.basename, put_version_compact h.left h.right,
      put_append h.left h.right]
  rw [basename_render, hrender]
  rw [hrender, List.mem_append, List.mem_append, not_or, not_or]
  exact ⟨⟨h.slash.1, (has_only hdigits).1⟩, h.slash.2⟩

/-- **The answers for a template with `{versionCompact}` are right**, for any page. -/
theorem compactRight (h : NamesFiles t P .compact L) (fetchText : Text → Text) (checkUrl : Text)
    (hurl : checkUrl ≠ [])
    (hsafe : ∀ digits ∈ captured true t (fetchText checkUrl), componentNumber digits < 2 ^ 53) :
    CompactRight t P L (fetchText checkUrl) (resolveTarball fetchText ⟨some checkUrl, none, t⟩) := by
  set html := fetchText checkUrl with hhtml
  have htarball : resolveTarball fetchText ⟨some checkUrl, none, t⟩ =
      resolveCompact (captured true t html) := by
    rw [resolveTarball, Option.filter_some, if_pos (by simpa using hurl), Option.bind_some]
    simp only [usesCompact_of_names h, if_true, hhtml]
  rw [htarball]
  obtain ⟨hnone, hsome⟩ := resolveCompact_highest (captured true t html) hsafe
  refine ⟨fun latest hlatest => ?_, fun digits hlisted => ?_⟩
  · obtain ⟨digits, hdigits, hdotted, hcompact, -⟩ := hsome latest hlatest
    obtain ⟨-, -, hpage⟩ := captured_sound h hdigits
    refine ⟨digits, hpage, hdotted, fun hform => ?_⟩
    rw [basename_renderCompact h, hcompact, Nat.mod_eq_zero_of_dvd hform.2, Nat.sub_zero,
      ← hform.1]
  · have hmem := captured_complete h hlisted true
    cases hanswer : resolveCompact (captured true t html) with
    | none =>
      rw [hnone.1 hanswer] at hmem
      cases hmem
    | some latest =>
      obtain ⟨found, -, -, hcompact, hhighest⟩ := hsome latest hanswer
      refine ⟨latest, rfl, ?_⟩
      have hle := hhighest _ hmem
      rw [hcompact]
      omega

/-- The download page of SQLite, with a year in front of the name. -/
theorem compactRight_sqlite :
    let t := "https://sqlite.org/2026/sqlite-autoconf-{versionCompact}.tar.gz".toList
    let html := "2026/sqlite-autoconf-3510200.tar.gz".toList
    CompactRight t "sqlite-autoconf-".toList ".tar.gz".toList html
      (resolveTarball (fun _ => html) ⟨some "https://sqlite.org/".toList, none, t⟩) :=
  compactRight ⟨by decide, by decide, by decide, '.', by decide, by decide⟩ _ _ (by decide)
    (by decide +kernel)

end Answers

end PhpWasm.Build
