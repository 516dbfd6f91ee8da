import PhpWasm.Base.VersionOrder
import PhpWasm.Build.PhpVersions
import Mathlib.Algebra.GroupWithZero.Nat

/-!
# Updating the releases of PHP

`updatePHPVersions` gets the tags of `php-src` in eight pages, takes the highest release of each
branch from the pages that arrive, and writes it into `supported-php-versions.mjs` as the last
release of the branch.

* `highest_latestVersions`: what is taken for a branch is the highest release that arrived.
* `updateRight_iff`: when no branch goes back to an older release.

Numbers are compared as JavaScript compares them; that `Number` maps texts to numbers of some linear
order is all that is used of it.
-/

set_option autoImplicit false

namespace PhpWasm.Build

open Scan (strip)
open Vendored (Text)
open VersionOrder (height)

/-! ## Tags -/

/-- `(\d+)` -/
def digitRun (s : Text) : Option (Text × Text) :=
  if s.takeWhile Char.isDigit = [] then none
  else some (s.takeWhile Char.isDigit, s.dropWhile Char.isDigit)

/-- `/^php-(\d+)\.(\d+)\.(\d+)$/`: the branch of a tag, and its release. -/
def releaseOf (tagName : Text) : Option (Text × Text) := do
  let s ← strip "php-".toList tagName
  let (major, s) ← digitRun s
  let s ← strip ['.'] s
  let (minor, s) ← digitRun s
  let s ← strip ['.'] s
  let (patch, s) ← digitRun s
  if s = [] then some (major ++ '.' :: minor, major ++ '.' :: minor ++ '.' :: patch) else none

/-- What comes of the request for a page of tags. -/
inductive TagPage
  /-- It fails. -/
  | fails
  /-- It gets something that is no array. -/
  | notArray
  /-- It gets an array, with the names of its elements as far as these have one. -/
  | tags (names : List (Option Text))

/-- The elements of a page. -/
def TagPage.data : TagPage → List (Option Text)
  | tags names => names
  | fails | notArray => []

/-! ## The update -/

section Update

variable {β : Type*} [LinearOrder β] [Zero β]
-- `Number(part) || 0`
variable (number : Text → β)

/-- `a.split('.').map(Number)` -/
def versionParts (a : Text) : List β := (a.splitOn '.').map number

/-- `compareVersions` -/
def compareVersions (a b : Text) : Int :=
  match VersionOrder.compare (versionParts number a) (versionParts number b) with
  | .gt => 1
  | .lt => -1
  | .eq => 0

/-- The second version is not lower. -/
def NotOlder (a b : Text) : Prop := height (versionParts number a) ≤ height (versionParts number b)

/-- One turn of the loop over the tags.  A newer release hides the older one of its branch. -/
def keepLatest (versions : List (Text × Text)) (tagName : Text) : List (Text × Text) :=
  match releaseOf tagName with
  | some (version, fullVersion) =>
    match versions.lookup version with
    | some old =>
      if 0 < compareVersions number fullVersion old then (version, fullVersion) :: versions
      else versions
    | none => (version, fullVersion) :: versions
  | none => versions

/-- The loop over the tags. -/
def latestVersions (tagNames : List Text) : List (Text × Text) :=
  tagNames.foldl (keepLatest number) []

/-- `fetchFromGitHub`.  There is no result where it gives `null`, which `updatePHPVersions` throws
at, and where it throws itself at an element without a name. -/
def fetchFromGitHub (pages : List TagPage) : Option (List (Text × Text)) :=
  let data := pages.flatMap TagPage.data
  if data = [] then none
  else if none ∈ data then none
  else some (latestVersions number (data.filterMap id))

/-- `latestVersions[version]`, with what the object inherits. -/
def releaseFor (latest : List (Text × Text)) (version : Text) : Option Text :=
  (latest.lookup version).or
    ((objectPrototype.lookup (String.ofList version)).map String.toList)

/-- The version objects that `updatePHPVersions` writes, unless it fails before. -/
def updatedVersions (pages : List TagPage) (currentVersions : List PhpVersion) :
    Option (List PhpVersion) :=
  match fetchFromGitHub number pages with
  | none => none
  | some latest =>
    if latest = [] ∨ currentVersions = [] then none
    else some (currentVersions.map fun v => withRelease v (releaseFor latest v.version))

/-- `updatePHPVersions`: what it writes into the file, which may not be there before. -/
def updatePHPVersions (date : IsoDate) (pages : List TagPage) (file : Option Text) : Option Text :=
  (updatedVersions number pages (readCurrentVersions file)).map (generateFileContent date)

/-! ## What is right -/

/-- What may become of a version object. -/
structure ReleaseKept (v v' : PhpVersion) : Prop where
  same : v' = { v with lastRelease := v'.lastRelease }
  notOlder : NotOlder number v.lastRelease v'.lastRelease

/-- The update fails, or writes the same versions with no release lower than before. -/
def UpdateRight (pages : List TagPage) (currentVersions : List PhpVersion) : Prop :=
  ∀ vs ∈ updatedVersions number pages currentVersions,
    List.Forall₂ (ReleaseKept number) currentVersions vs

/-- Tags arrive, each with a name, and releases among them. -/
def TagsArrive (pages : List TagPage) : Prop :=
  none ∉ pages.flatMap TagPage.data ∧ ∃ tagName, some tagName ∈ pages.flatMap TagPage.data ∧
    (releaseOf tagName).isSome

/-- A release of a branch arrives. -/
def Arrives (pages : List TagPage) (version fullVersion : Text) : Prop :=
  ∃ tagName, some tagName ∈ pages.flatMap TagPage.data ∧
    releaseOf tagName = some (version, fullVersion)

/-- **The versions that come out right.**  If any release of the branch arrives, one arrives that is
not lower than the recorded one; and what an object inherits under the name of the version, if
anything, is not lower either. -/
structure ReleaseFits (pages : List TagPage) (v : PhpVersion) : Prop where
  arrives : (∃ fullVersion, Arrives pages v.version fullVersion) →
    ∃ fullVersion, Arrives pages v.version fullVersion ∧
      NotOlder number v.lastRelease fullVersion
  inherits : (∀ fullVersion, ¬ Arrives pages v.version fullVersion) →
    ∀ text, objectPrototype.lookup (String.ofList v.version) = some text →
      NotOlder number v.lastRelease text.toList

end Update

/-! ## The highest release -/

section Highest

variable {β : Type*} [LinearOrder β] [Zero β] {number : Text → β}

theorem notOlder_refl (a : Text) : NotOlder number a a := le_refl _

theorem NotOlder.trans {a b c : Text} (h : NotOlder number a b) (h' : NotOlder number b c) :
    NotOlder number a c := le_trans h h'

theorem compareVersions_pos {a b : Text} :
    0 < compareVersions number a b ↔ ¬ NotOlder number a b := by
  rw [NotOlder, ← VersionOrder.compare_ne_gt, not_not, compareVersions]
  cases VersionOrder.compare (versionParts number a) (versionParts number b) <;> decide

theorem notOlder_total (a b : Text) : NotOlder number a b ∨ NotOlder number b a := le_total _ _

/-- What is kept for a branch, for the tags so far. -/
structure Highest (number : Text → β) (tagNames : List Text) (versions : List (Text × Text)) :
    Prop where
  arrived : ∀ version fullVersion, versions.lookup version = some fullVersion →
    ∃ tagName ∈ tagNames, releaseOf tagName = some (version, fullVersion)
  highest : ∀ tagName ∈ tagNames, ∀ version fullVersion,
    releaseOf tagName = some (version, fullVersion) →
      ∃ kept, versions.lookup version = some kept ∧ NotOlder number fullVersion kept

theorem Highest.nil : Highest number [] [] :=
  ⟨fun _ _ h => (nomatch h), fun _ h => absurd h List.not_mem_nil⟩

variable {tagNames : List Text} {versions : List (Text × Text)} {tagName : Text}

/-- One more tag that is not kept, since it is no release or there is one that is not older. -/
theorem Highest.skip (h : Highest number tagNames versions)
    (hkept : ∀ version fullVersion, releaseOf tagName = some (version, fullVersion) →
      ∃ kept, versions.lookup version = some kept ∧ NotOlder number fullVersion kept) :
    Highest number (tagNames ++ [tagName]) versions := by
  constructor
  · intro version fullVersion hlookup
    obtain ⟨t, ht, hrelease⟩ := h.arrived version fullVersion hlookup
    exact ⟨t, List.mem_append_left _ ht, hrelease⟩
  · intro t ht version fullVersion hrelease
    rcases List.mem_append.1 ht with ht | ht
    · exact h.highest t ht version fullVersion hrelease
    · rw [List.mem_singleton] at ht
      exact hkept version fullVersion (ht ▸ hrelease)

/-- One more tag that is kept, since there is no release of its branch or an older one. -/
theorem Highest.add (h : Highest number tagNames versions) {version fullVersion : Text}
    (hrelease : releaseOf tagName = some (version, fullVersion))
    (holder : ∀ old, versions.lookup version = some old → NotOlder number old fullVersion) :
    Highest number (tagNames ++ [tagName]) ((version, fullVersion) :: versions) := by
  constructor
  · intro version' fullVersion' hlookup
    by_cases hversion : version' = version
    · rw [hversion, List.lookup_cons_self] at hlookup
      obtain rfl := Option.some.inj hlookup
      exact ⟨tagName, by simp, hversion ▸ hrelease⟩
    · rw [List.lookup_cons, beq_eq_false_iff_ne.2 hversion] at hlookup
      obtain ⟨t, ht, hrelease'⟩ := h.arrived version' fullVersion' hlookup
      exact ⟨t, List.mem_append_left _ ht, hrelease'⟩
  · intro t ht version' fullVersion' hrelease'
    by_cases hversion : version' = version
    · rw [hversion] at hrelease' ⊢
      refine ⟨fullVersion, List.lookup_cons_self, ?_⟩
      rcases List.mem_append.1 ht with ht | ht
      · obtain ⟨kept, hkept, hle⟩ := h.highest t ht version fullVersion' hrelease'
        exact hle.trans (holder kept hkept)
      · rw [List.mem_singleton] at ht
        rw [ht, hrelease] at hrelease'
        cases hrelease'
        exact notOlder_refl _
    · have ht' : t ∈ tagNames := by
        refine (List.mem_append.1 ht).resolve_right fun hlast => hversion ?_
        rw [List.mem_singleton] at hlast
        rw [hlast, hrelease] at hrelease'
        cases hrelease'
        rfl
      rw [List.lookup_cons, beq_eq_false_iff_ne.2 hversion]
      exact h.highest t ht' version' fullVersion' hrelease'

/-- One more tag. -/
theorem Highest.keepLatest (h : Highest number tagNames versions) (tagName : Text) :
    Highest number (tagNames ++ [tagName]) (keepLatest number versions tagName) := by
  rw [Build.keepLatest]
  cases hrelease : releaseOf tagName with
  | none => exact h.skip fun _ _ h' => by rw [hrelease] at h'; cases h'
  | some release =>
    obtain ⟨version, fullVersion⟩ := release
    dsimp only
    cases hlookup : versions.lookup version with
    | none => exact h.add hrelease fun old hold => by rw [hlookup] at hold; cases hold
    | some old =>
      dsimp only
      split
      · rename_i hpos
        refine h.add hrelease fun old' hold => ?_
        obtain rfl := Option.some.inj (hlookup.symm.trans hold)
        exact (notOlder_total _ _).resolve_left (compareVersions_pos.1 hpos)
      · rename_i hnot
        refine h.skip fun version' fullVersion' hrelease' => ?_
        rw [hrelease] at hrelease'
        cases hrelease'
        exact ⟨old, hlookup, not_not.1 fun h' => hnot (compareVersions_pos.2 h')⟩

/-- **The highest release of each branch is kept.** -/
theorem highest_latestVersions (tagNames : List Text) :
    Highest number tagNames (latestVersions number tagNames) := by
  induction tagNames using List.reverseRecOn with
  | nil => exact Highest.nil
  | append_singleton tagNames tagName ih =>
    rw [latestVersions, List.foldl_append]
    exact ih.keepLatest tagName

end Highest

/-! ## The result -/

section Result

variable {β : Type*} [LinearOrder β] [Zero β] {number : Text → β}
variable {pages : List TagPage} {currentVersions : List PhpVersion}

/-- What is fetched, for the pages that arrive. -/
theorem fetchFromGitHub_eq_some {latest : List (Text × Text)}
    (h : fetchFromGitHub number pages = some latest) :
    none ∉ pages.flatMap TagPage.data ∧
      Highest number ((pages.flatMap TagPage.data).filterMap id) latest := by
  rw [fetchFromGitHub] at h
  split at h
  · cases h
  · split at h
    · cases h
    · rename_i hnone
      cases h
      exact ⟨hnone, highest_latestVersions _⟩

theorem mem_tagNames {tagName : Text} :
    tagName ∈ (pages.flatMap TagPage.data).filterMap id ↔
      some tagName ∈ pages.flatMap TagPage.data := by
  simp [List.mem_filterMap]

theorem releaseOf_ne_nil {tagName version fullVersion : Text}
    (h : releaseOf tagName = some (version, fullVersion)) : fullVersion ≠ [] := by
  simp only [releaseOf, Option.bind_eq_bind, Option.bind_eq_some_iff] at h
  obtain ⟨_, _, ⟨major, _⟩, _, _, _, ⟨minor, _⟩, _, _, _, ⟨patch, _⟩, _, h⟩ := h
  split at h
  · cases h
    simp
  · cases h

/-- What is inherited has a text. -/
theorem inherited_ne_nil {name text : String} (h : objectPrototype.lookup name = some text) :
    text.toList ≠ [] := by
  have hall : ∀ e ∈ objectPrototype, e.2.toList ≠ [] := by decide
  obtain ⟨before, after, hmem, -⟩ := List.lookup_eq_some_iff.1 h
  exact hall (name, text) (hmem ▸ List.mem_append_right _ List.mem_cons_self)

/-- What is written for a version, for the release that is known. -/
theorem releaseKept_withRelease {v : PhpVersion} {newVersion : Option Text}
    (hne : ∀ r ∈ newVersion, r ≠ []) :
    ReleaseKept number v (withRelease v newVersion) ↔
      ∀ r ∈ newVersion, NotOlder number v.lastRelease r := by
  cases newVersion with
  | none => exact iff_of_true ⟨rfl, notOlder_refl _⟩ fun r hr => by cases hr
  | some r =>
    simp only [Option.mem_some_iff, forall_eq'] at hne ⊢
    by_cases hsame : r = v.lastRelease
    · rw [withRelease, if_neg fun h => h.2 hsame]
      exact iff_of_true ⟨rfl, notOlder_refl _⟩ (hsame ▸ notOlder_refl _)
    · rw [withRelease, if_pos ⟨hne, hsame⟩]
      exact ⟨ReleaseKept.notOlder, fun h => ⟨rfl, h⟩⟩

/-- **What is written for a version is not lower just when the version fits.** -/
theorem releaseKept_iff {latest : List (Text × Text)}
    (h : fetchFromGitHub number pages = some latest) (v : PhpVersion) :
    ReleaseKept number v (withRelease v (releaseFor latest v.version)) ↔
      ReleaseFits number pages v := by
  obtain ⟨-, hhigh⟩ := fetchFromGitHub_eq_some h
  cases hlookup : latest.lookup v.version with
  | some kept =>
    obtain ⟨tagName, htag, hrelease⟩ := hhigh.arrived _ _ hlookup
    have harrives : Arrives pages v.version kept := ⟨tagName, mem_tagNames.1 htag, hrelease⟩
    have hfor : releaseFor latest v.version = some kept := by
      rw [releaseFor, hlookup, Option.some_or]
    rw [hfor, releaseKept_withRelease (by simpa using releaseOf_ne_nil hrelease)]
    simp only [Option.mem_some_iff, forall_eq']
    constructor
    · intro hle
      exact ⟨fun _ => ⟨kept, harrives, hle⟩, fun hnone => absurd harrives (hnone kept)⟩
    · intro hfits
      obtain ⟨fullVersion, ⟨t, ht, ht'⟩, hle⟩ := hfits.arrives ⟨kept, harrives⟩
      obtain ⟨kept', hkept', hle'⟩ := hhigh.highest t (mem_tagNames.2 ht) _ _ ht'
      obtain rfl := Option.some.inj (hlookup.symm.trans hkept')
      exact hle.trans hle'
  | none =>
    have hnone : ∀ fullVersion, ¬ Arrives pages v.version fullVersion := by
      rintro fullVersion ⟨t, ht, ht'⟩
      obtain ⟨kept, hkept, -⟩ := hhigh.highest t (mem_tagNames.2 ht) _ _ ht'
      rw [hlookup] at hkept
      cases hkept
    have hfor : releaseFor latest v.version =
        (objectPrototype.lookup (String.ofList v.version)).map String.toList := by
      rw [releaseFor, hlookup, Option.none_or]
    rw [hfor, releaseKept_withRelease]
    · constructor
      · intro hle
        exact ⟨fun ⟨r, hr⟩ => absurd hr (hnone r), fun _ text htext =>
          hle _ (by rw [htext]; rfl)⟩
      · intro hfits r hr
        obtain ⟨text, htext, rfl⟩ := Option.map_eq_some_iff.1 hr
        exact hfits.inherits hnone text htext
    · intro r hr
      obtain ⟨text, htext, rfl⟩ := Option.map_eq_some_iff.1 hr
      exact inherited_ne_nil htext

/-- What is fetched when tags arrive. -/
theorem tagsArrive_iff :
    TagsArrive pages ↔ ∃ latest, fetchFromGitHub number pages = some latest ∧ latest ≠ [] := by
  constructor
  · rintro ⟨hnames, tagName, htag, hrelease⟩
    obtain ⟨⟨version, fullVersion⟩, hrelease⟩ := Option.isSome_iff_exists.1 hrelease
    have hfetch : fetchFromGitHub number pages =
        some (latestVersions number ((pages.flatMap TagPage.data).filterMap id)) := by
      rw [fetchFromGitHub, if_neg (List.ne_nil_of_mem htag), if_neg hnames]
    refine ⟨_, hfetch, ?_⟩
    obtain ⟨kept, hkept, -⟩ := (@highest_latestVersions β _ _ number
      ((pages.flatMap TagPage.data).filterMap id)).highest tagName (mem_tagNames.2 htag) _ _
        hrelease
    intro hnil
    rw [hnil] at hkept
    cases hkept
  · rintro ⟨latest, hfetch, hne⟩
    obtain ⟨hnames, hhigh⟩ := fetchFromGitHub_eq_some hfetch
    obtain ⟨⟨version, fullVersion⟩, rest, rfl⟩ := List.exists_cons_of_ne_nil hne
    obtain ⟨tagName, htag, hrelease⟩ := hhigh.arrived version fullVersion List.lookup_cons_self
    exact ⟨hnames, tagName, mem_tagNames.1 htag, by rw [hrelease]; rfl⟩

/-- **When an update comes out right.** -/
theorem updateRight_iff (number : Text → β) (pages : List TagPage)
    (currentVersions : List PhpVersion) :
    UpdateRight number pages currentVersions ↔
      (TagsArrive pages → ∀ v ∈ currentVersions, ReleaseFits number pages v) := by
  have hwritten : ∀ latest, fetchFromGitHub number pages = some latest → latest ≠ [] →
      (UpdateRight number pages currentVersions ↔
        ∀ v ∈ currentVersions, ReleaseFits number pages v) := by
    intro latest hfetch hne
    by_cases hnil : currentVersions = []
    · subst hnil
      refine iff_of_true (fun vs hvs => ?_) fun v hv => absurd hv List.not_mem_nil
      simp [updatedVersions, hfetch] at hvs
    · have hupdated : updatedVersions number pages currentVersions =
          some (currentVersions.map fun v => withRelease v (releaseFor latest v.version)) := by
        rw [updatedVersions, hfetch]
        exact if_neg (by simp [hne, hnil])
      rw [UpdateRight, hupdated]
      simp only [Option.mem_some_iff, forall_eq']
      rw [List.forall₂_map_right_iff, List.forall₂_same]
      exact forall₂_congr fun v _ => releaseKept_iff hfetch v
  by_cases harrive : TagsArrive pages
  · obtain ⟨latest, hfetch, hne⟩ := (@tagsArrive_iff β _ _ number pages).1 harrive
    rw [hwritten latest hfetch hne]
    exact ⟨fun h _ => h, fun h => h harrive⟩
  · refine iff_of_true (fun vs hvs => ?_) fun h => absurd h harrive
    refine absurd ((@tagsArrive_iff β _ _ number pages).2 ?_) harrive
    cases hfetch : fetchFromGitHub number pages with
    | none => simp [updatedVersions, hfetch] at hvs
    | some latest =>
      refine ⟨latest, rfl, ?_⟩
      rintro rfl
      simp [updatedVersions, hfetch] at hvs

/-- What is written is read back, if its fields are as they should be. -/
theorem read_updatePHPVersions {date : IsoDate} {file : Option Text} {vs : List PhpVersion}
    (h : updatedVersions number pages (readCurrentVersions file) = some vs)
    (hvs : ∀ v ∈ vs, v.Legal ∧ v.Clean) :
    readCurrentVersions (updatePHPVersions number date pages file) = vs := by
  rw [updatePHPVersions, h, Option.map_some, read_generate date fun v hv => (hvs v hv).1]
  conv_rhs => rw [← List.map_id vs]
  exact List.map_congr_left fun v hv => (readBack_eq_iff (hvs v hv).1).2 (hvs v hv).2

/-- The number of a part that has digits only. -/
def partNumber (part : Text) : Nat :=
  if part.all Char.isDigit then Nat.ofDigitChars 10 part 0 else 0

/-- The page with the newest tag fails, and an older release is recorded. -/
theorem failed_page_not_right :
    ¬ UpdateRight partNumber
      [.fails, .tags [some "php-8.5.10".toList], .notArray, .notArray, .notArray, .notArray,
        .notArray, .notArray]
      [⟨"8.5".toList, "php_8_5.js".toList, "php_8_5.wasm".toList, "8.5.11".toList⟩] := by
  intro h
  have hwritten : updatedVersions partNumber
      [.fails, .tags [some "php-8.5.10".toList], .notArray, .notArray, .notArray, .notArray,
        .notArray, .notArray]
      [⟨"8.5".toList, "php_8_5.js".toList, "php_8_5.wasm".toList, "8.5.11".toList⟩] =
        some [⟨"8.5".toList, "php_8_5.js".toList, "php_8_5.wasm".toList, "8.5.10".toList⟩] := by
    decide
  have hkept := (List.forall₂_cons.1 (h _ hwritten)).1.notOlder
  exact absurd hkept (VersionOrder.compare_ne_gt.not.1 (by decide))

end Result

end PhpWasm.Build
