import PhpWasm.Base.VersionOrder
import PhpWasm.Build.Vendored
import Mathlib.Algebra.GroupWithZero.Nat

/-!
# Keeping `matrix.json` up to date

`matrix.json` records the versions of every library and extension, and the last one is what gets
built.  `updateCollection` asks upstream for the latest version of each entry and appends it, unless
it is recorded already or its download does not work.

* `resolvedVersion` is the version that is compared and recorded: a resolver drops the `v` of a tag,
  and an entry that has it gets it back.
* `collectionRight_iff`: when the last versions do not go down, nothing is recorded twice, and a
  second update changes nothing.
* `getMatrixVersion_of_right`: what is built then is not lower than before.
-/

set_option autoImplicit false

namespace PhpWasm.Build

open Vendored (Text)
open VersionOrder (height)

/-! ## The collections -/

/-- The two collections of `matrix.json`. -/
inductive MatrixSection
  | libraries
  | extensions
  deriving DecidableEq

/-- The name of a collection. -/
def MatrixSection.key : MatrixSection → Text
  | libraries => "libraries".toList
  | extensions => "extensions".toList

/-- What the update reads of an entry. -/
structure MatrixEntry where
  /-- `autoUpdate === false` -/
  noAutoUpdate : Bool
  sourceType : Option Text
  repo : Option Text
  sourceTemplate : Option Text
  /-- `versions`, if it is an array. -/
  versions : Option (List Text)

/-- The entries, by name. -/
abbrev Collection := List (Text × MatrixEntry)

/-- `entry.versions ?? []` -/
def MatrixEntry.recorded (entry : MatrixEntry) : List Text := entry.versions.getD []

/-- `entry.versions[entry.versions.length - 1]` -/
def MatrixEntry.current (entry : MatrixEntry) : Option Text := entry.recorded.getLast?

/-- `getMatrixVersion` and `getMatrixExtensionVersion`. -/
def getMatrixVersion (sec : MatrixSection) (collection : Collection) (key : Text) :
    Except Text Text :=
  match collection.lookup key with
  | none => .error ("matrix.json: no \"".toList ++ sec.key ++ ['.'] ++ key ++ "\" entry.".toList)
  | some entry =>
    match entry.current with
    | none =>
      .error ("matrix.json: \"".toList ++ sec.key ++ ['.'] ++ key ++ ".versions\" is empty.".toList)
    | some version => .ok version

/-! ## The update -/

/-- What a resolver does. -/
inductive Resolved
  | throws
  | answers (latest : Option Text)

/-- The keys of `RESOLVERS`. -/
def resolvers : List Text :=
  ["github-release".toList, "github-tag".toList, "git-tag".toList, "googlesource-archive".toList,
    "googlesource-archive-commit".toList, "tarball".toList, "sourceforge".toList]

/-- `resolveSourceType` -/
def resolveSourceType (entry : MatrixEntry) : MatrixSection → Option Text
  | .libraries => entry.sourceType
  | .extensions => if entry.repo.getD [] ≠ [] then some "github-release".toList else none

/-- `/^v/i` -/
def startsWithV : Text → Bool
  | c :: _ => c = 'v' || c = 'V'
  | [] => false

/-- `/^v\d/i` -/
def keepsVPrefix : Text → Bool
  | c :: d :: _ => (c = 'v' || c = 'V') && d.isDigit
  | _ => false

/-- `resolved`, for the version `current` that is recorded last. -/
def resolvedVersion (current : Option Text) (latest : Text) : Text :=
  if keepsVPrefix (current.getD []) && !startsWithV latest then 'v' :: latest else latest

section Update

variable (sec : MatrixSection) (answers : Text → Resolved)

/-- `latest`, for an entry that is looked at and whose resolver has an answer. -/
def latestOf (name : Text) (entry : MatrixEntry) : Option Text :=
  if entry.noAutoUpdate then none
  else if ((resolveSourceType entry sec).filter fun t => t ∈ resolvers) = none then none
  else if entry.versions = none then none
  else
    match answers name with
    | .throws => none
    | .answers latest => latest.filter fun t => t ≠ []

-- Whether the download of a version works, for the template of its address.
variable (urlResolves : Text → Text → Bool)

/-- The address of the download is looked at, and it does not work. -/
def refused (entry : MatrixEntry) (resolved : Text) : Bool :=
  match entry.sourceTemplate with
  | some sourceTemplate => sourceTemplate ≠ [] && !urlResolves sourceTemplate resolved
  | none => false

/-- The version that one turn of `updateCollection` appends. -/
def appended (name : Text) (entry : MatrixEntry) : Option Text :=
  (latestOf sec answers name entry).bind fun latest =>
    let resolved := resolvedVersion entry.current latest
    if some resolved = entry.current ∨ resolved ∈ entry.recorded then none
    else if refused urlResolves entry resolved then none
    else some resolved

/-- `entry.versions.push(resolved)` -/
def MatrixEntry.push (entry : MatrixEntry) (resolved : Option Text) : MatrixEntry :=
  { entry with versions := entry.versions.map fun versions => versions ++ resolved.toList }

/-- `updateCollection`: the number of changes, and the collection then. -/
def updateCollection (collection : Collection) : Nat × Collection where
  fst := collection.countP fun e => (appended sec answers urlResolves e.1 e.2).isSome
  snd := collection.map fun e => (e.1, e.2.push (appended sec answers urlResolves e.1 e.2))

end Update

/-! ## What is right -/

/-- A version without its `v`. -/
def stripV : Text → Text
  | c :: t => if c = 'v' ∨ c = 'V' then t else c :: t
  | [] => []

/-- The number of a component. -/
def componentNumber (w : Text) : Nat :=
  if w.all Char.isDigit then Nat.ofDigitChars 10 w 0 else 0

/-- The components of a version, its counters among them: `v7.1.2-31` has 7, 1, 2 and 31, and
`0.29.0.gfm.13` has 0, 29, 0 and 13. -/
def versionNumbers (v : Text) : List Nat :=
  (((stripV v).splitOnP fun c => c = '.' || c = '-').filter fun w => w ≠ "gfm".toList).map
    componentNumber

/-- The second version is not lower. -/
def NotLower (v w : Text) : Prop := height (versionNumbers v) ≤ height (versionNumbers w)

theorem notLower_iff {v w : Text} :
    NotLower v w ↔ VersionOrder.compare (versionNumbers v) (versionNumbers w) ≠ .gt :=
  VersionOrder.compare_ne_gt.symm

instance (v w : Text) : Decidable (NotLower v w) := decidable_of_iff _ notLower_iff.symm

/-- A version string, as far as it is read here: a number comes first, or a `v` and a number. -/
def NumberFirst (v : Text) : Prop := ∃ c ∈ (stripV v).head?, c.isDigit

/-- An entry and what became of it. -/
structure EntryKept (before after : MatrixEntry) : Prop where
  /-- Nothing but the versions changes, and they are only added to. -/
  grown : ∃ added, after = { before with versions := before.versions.map fun vs => vs ++ added }
  notLower : ∀ v ∈ before.current, ∃ v' ∈ after.current, NotLower v v'
  once : (after.recorded.map stripV).Nodup

/-- An update of a collection, and the next one with the same answers. -/
structure CollectionRight (sec : MatrixSection) (answers : Text → Resolved)
    (urlResolves : Text → Text → Bool) (before : Collection) : Prop where
  kept : List.Forall₂ (fun e e' => e.1 = e'.1 ∧ EntryKept e.2 e'.2) before
    (updateCollection sec answers urlResolves before).2
  again : updateCollection sec answers urlResolves
      (updateCollection sec answers urlResolves before).2 =
    (0, (updateCollection sec answers urlResolves before).2)

/-- **The answers that come out right.**  The entry records nothing twice; and what is answered for
it is recorded as it is, or cannot be downloaded, or is not lower than the last version and not
recorded in another spelling either. -/
structure EntryFits (sec : MatrixSection) (answers : Text → Resolved)
    (urlResolves : Text → Text → Bool) (name : Text) (entry : MatrixEntry) : Prop where
  once : (entry.recorded.map stripV).Nodup
  latest : ∀ latest ∈ latestOf sec answers name entry,
    resolvedVersion entry.current latest ∈ entry.recorded ∨
      refused urlResolves entry (resolvedVersion entry.current latest) ∨
      (∀ v ∈ entry.current, NotLower v latest) ∧ stripV latest ∉ entry.recorded.map stripV

/-! ## One entry -/

section Entry

variable {sec : MatrixSection} {answers : Text → Resolved} {urlResolves : Text → Text → Bool}
variable {name : Text} {entry : MatrixEntry}

theorem stripV_of_not_startsWithV {v : Text} (h : ¬ startsWithV v) : stripV v = v := by
  cases v with
  | nil => rfl
  | cons c t =>
    rw [startsWithV, Bool.or_eq_true, decide_eq_true_iff, decide_eq_true_iff] at h
    rw [stripV, if_neg h]

@[simp] theorem stripV_resolvedVersion (current : Option Text) (latest : Text) :
    stripV (resolvedVersion current latest) = stripV latest := by
  rw [resolvedVersion]
  split
  · rename_i h
    rw [Bool.and_eq_true, Bool.not_eq_true'] at h
    rw [stripV_of_not_startsWithV (v := latest) (by simp [h.2])]
    rfl
  · rfl

theorem notLower_resolvedVersion {v latest : Text} {current : Option Text} :
    NotLower v (resolvedVersion current latest) ↔ NotLower v latest := by
  rw [NotLower, NotLower, versionNumbers.eq_def (resolvedVersion _ _), stripV_resolvedVersion,
    ← versionNumbers]

/-- The `v` is added once. -/
theorem resolvedVersion_resolvedVersion {latest : Text} (h : NumberFirst latest)
    (current : Option Text) :
    resolvedVersion (some (resolvedVersion current latest)) latest =
      resolvedVersion current latest := by
  obtain ⟨d, hd, hdigit⟩ := h
  by_cases hv : startsWithV latest
  · simp [resolvedVersion, hv]
  · rw [stripV_of_not_startsWithV hv] at hd
    obtain ⟨t, rfl⟩ : ∃ t, latest = d :: t := by
      cases latest with
      | nil => cases hd
      | cons c t =>
        obtain rfl := Option.some.inj hd
        exact ⟨t, rfl⟩
    by_cases hcurrent : keepsVPrefix (current.getD [])
    · have hadded : keepsVPrefix ('v' :: d :: t) := by simp [keepsVPrefix, hdigit]
      simp [resolvedVersion, hcurrent, hv, hadded]
    · have hplain : keepsVPrefix (d :: t) = false := by
        rw [startsWithV] at hv
        cases t <;> simp_all [keepsVPrefix]
      simp [resolvedVersion, hcurrent, hplain]

/-- What is appended is not recorded yet. -/
theorem appended_eq_some {resolved : Text} :
    appended sec answers urlResolves name entry = some resolved ↔
      ∃ latest ∈ latestOf sec answers name entry,
        resolved = resolvedVersion entry.current latest ∧ resolved ∉ entry.recorded ∧
          ¬ refused urlResolves entry resolved := by
  have hlast : ∀ v, some v = entry.current → v ∈ entry.recorded := fun v h =>
    List.mem_of_getLast? h.symm
  rw [appended, Option.bind_eq_some_iff]
  refine exists_congr fun latest => and_congr Iff.rfl ?_
  dsimp only
  by_cases hmem : resolvedVersion entry.current latest ∈ entry.recorded
  · rw [if_pos (.inr hmem)]
    simp only [reduceCtorEq, false_iff]
    rintro ⟨rfl, hnot, -⟩
    exact hnot hmem
  · rw [if_neg (by rintro (h | h); exacts [hmem (hlast _ h), hmem h])]
    by_cases hrefused : refused urlResolves entry (resolvedVersion entry.current latest)
    · rw [if_pos hrefused]
      simp only [reduceCtorEq, false_iff]
      rintro ⟨rfl, -, hnot⟩
      exact hnot hrefused
    · rw [if_neg hrefused, Option.some_inj]
      constructor
      · rintro rfl
        exact ⟨rfl, hmem, hrefused⟩
      · rintro ⟨rfl, -, -⟩
        rfl

theorem versions_ne_none {latest : Text} (h : latest ∈ latestOf sec answers name entry) :
    entry.versions ≠ none := by
  intro hnone
  rw [latestOf] at h
  simp [hnone] at h

@[simp] theorem recorded_push (entry : MatrixEntry) (h : entry.versions ≠ none)
    (resolved : Option Text) :
    (entry.push resolved).recorded = entry.recorded ++ resolved.toList := by
  obtain ⟨versions, hversions⟩ := Option.ne_none_iff_exists'.1 h
  simp [MatrixEntry.push, MatrixEntry.recorded, hversions]

theorem push_none (entry : MatrixEntry) : entry.push none = entry := by
  cases entry
  simp [MatrixEntry.push]

theorem current_push_some (h : entry.versions ≠ none) (resolved : Text) :
    (entry.push (some resolved)).current = some resolved := by
  rw [MatrixEntry.current, recorded_push entry h, Option.toList, List.getLast?_concat]

/-- What is answered for an entry does not depend on the versions. -/
theorem latestOf_push (resolved : Option Text) :
    latestOf sec answers name (entry.push resolved) = latestOf sec answers name entry := by
  have hnone : (entry.push resolved).versions = none ↔ entry.versions = none :=
    Option.map_eq_none_iff
  simp only [latestOf, hnone]
  rfl

/-- **A second update changes nothing.** -/
theorem appended_push
    (hanswer : ∀ latest ∈ latestOf sec answers name entry, NumberFirst latest) :
    appended sec answers urlResolves name
      (entry.push (appended sec answers urlResolves name entry)) = none := by
  cases happ : appended sec answers urlResolves name entry with
  | none => rw [push_none, happ]
  | some resolved =>
    obtain ⟨latest, hlatest, rfl, -, -⟩ := appended_eq_some.1 happ
    have hversions := versions_ne_none hlatest
    by_contra hnot
    obtain ⟨again, hagain⟩ := Option.ne_none_iff_exists'.1 hnot
    obtain ⟨latest', hlatest', rfl, hmem, -⟩ := appended_eq_some.1 hagain
    rw [latestOf_push] at hlatest'
    obtain rfl : latest = latest' := Option.some.inj (hlatest.symm.trans hlatest')
    rw [current_push_some hversions, resolvedVersion_resolvedVersion (hanswer latest hlatest),
      recorded_push entry hversions] at hmem
    simp at hmem

theorem notLower_refl (v : Text) : NotLower v v := le_refl _

/-- An entry that nothing is appended to is kept if it records nothing twice. -/
theorem entryKept_self : EntryKept entry entry ↔ (entry.recorded.map stripV).Nodup := by
  refine ⟨EntryKept.once, fun h => ⟨⟨[], ?_⟩, fun v hv => ⟨v, hv, notLower_refl v⟩, h⟩⟩
  cases entry
  simp

theorem entryKept_push_some (h : entry.versions ≠ none) (resolved : Text) :
    EntryKept entry (entry.push (some resolved)) ↔
      ((entry.recorded.map stripV).Nodup ∧ stripV resolved ∉ entry.recorded.map stripV) ∧
        ∀ v ∈ entry.current, NotLower v resolved := by
  have hcurrent := current_push_some h resolved
  have honce : (((entry.push (some resolved)).recorded).map stripV).Nodup ↔
      (entry.recorded.map stripV).Nodup ∧ stripV resolved ∉ entry.recorded.map stripV := by
    rw [recorded_push entry h, List.map_append, List.nodup_append_comm]
    simp [and_comm]
  constructor
  · intro hkept
    refine ⟨honce.1 hkept.once, fun v hv => ?_⟩
    obtain ⟨v', hv', hle⟩ := hkept.notLower v hv
    rw [hcurrent] at hv'
    obtain rfl := Option.some.inj hv'
    exact hle
  · rintro ⟨hnodup, hle⟩
    exact ⟨⟨[resolved], rfl⟩, fun v hv => ⟨resolved, hcurrent, hle v hv⟩, honce.2 hnodup⟩

/-- **When one entry is kept.** -/
theorem entryKept_iff :
    EntryKept entry (entry.push (appended sec answers urlResolves name entry)) ↔
      EntryFits sec answers urlResolves name entry := by
  cases happ : appended sec answers urlResolves name entry with
  | none =>
    rw [push_none, entryKept_self]
    refine ⟨fun honce => ⟨honce, fun latest hlatest => ?_⟩, EntryFits.once⟩
    by_contra hnot
    rw [not_or, not_or] at hnot
    have hsome := appended_eq_some.2 ⟨latest, hlatest, rfl, hnot.1, hnot.2.1⟩
    rw [happ] at hsome
    cases hsome
  | some resolved =>
    obtain ⟨latest, hlatest, rfl, hmem, hnotRefused⟩ := appended_eq_some.1 happ
    rw [entryKept_push_some (versions_ne_none hlatest), stripV_resolvedVersion]
    simp only [notLower_resolvedVersion]
    constructor
    · rintro ⟨⟨honce, hspelling⟩, hle⟩
      refine ⟨honce, fun latest' hlatest' => ?_⟩
      obtain rfl : latest = latest' := Option.some.inj (hlatest.symm.trans hlatest')
      exact .inr (.inr ⟨hle, hspelling⟩)
    · intro hfits
      rcases hfits.latest latest hlatest with h | h | ⟨hle, hspelling⟩
      · exact absurd h hmem
      · exact absurd h hnotRefused
      · exact ⟨⟨hfits.once, hspelling⟩, hle⟩

end Entry

/-! ## The result -/

section Result

variable {sec : MatrixSection} {answers : Text → Resolved} {urlResolves : Text → Text → Bool}

theorem latestOf_answered {name latest : Text} {entry : MatrixEntry}
    (h : latest ∈ latestOf sec answers name entry) :
    answers name = .answers (some latest) ∧ latest ≠ [] := by
  rw [latestOf] at h
  split at h
  · cases h
  · split at h
    · cases h
    · split at h
      · cases h
      · cases hanswer : answers name with
        | throws => rw [hanswer] at h; cases h
        | answers found =>
          rw [hanswer] at h
          obtain ⟨rfl, hne⟩ := Option.filter_eq_some_iff.1 h
          exact ⟨rfl, by simpa using hne⟩

/-- The next update of a collection changes nothing. -/
theorem updateCollection_again
    (hanswers : ∀ name latest, answers name = .answers (some latest) → latest ≠ [] →
      NumberFirst latest) (before : Collection) :
    updateCollection sec answers urlResolves
        (updateCollection sec answers urlResolves before).2 =
      (0, (updateCollection sec answers urlResolves before).2) := by
  have hnone : ∀ e ∈ before, appended sec answers urlResolves e.1
      (e.2.push (appended sec answers urlResolves e.1 e.2)) = none := by
    intro e _
    refine appended_push fun latest hlatest => ?_
    obtain ⟨hanswer, hne⟩ := latestOf_answered hlatest
    exact hanswers e.1 latest hanswer hne
  refine Prod.ext ?_ ?_
  · rw [updateCollection, updateCollection, List.countP_map, List.countP_eq_zero]
    intro e he
    simp [hnone e he]
  · rw [updateCollection, updateCollection, List.map_map]
    refine List.map_congr_left fun e he => ?_
    simp [hnone e he, push_none]

/-- **When an update comes out right.** -/
theorem collectionRight_iff (sec : MatrixSection) (answers : Text → Resolved)
    (urlResolves : Text → Text → Bool) (before : Collection)
    (hanswers : ∀ name latest, answers name = .answers (some latest) → latest ≠ [] →
      NumberFirst latest) :
    CollectionRight sec answers urlResolves before ↔
      ∀ e ∈ before, EntryFits sec answers urlResolves e.1 e.2 := by
  have hkept : List.Forall₂ (fun e e' => e.1 = e'.1 ∧ EntryKept e.2 e'.2) before
        (updateCollection sec answers urlResolves before).2 ↔
      ∀ e ∈ before, EntryFits sec answers urlResolves e.1 e.2 := by
    rw [updateCollection, List.forall₂_map_right_iff, List.forall₂_same]
    exact forall₂_congr fun e _ => by rw [← entryKept_iff, eq_self_iff_true, true_and]
  exact ⟨fun h => hkept.1 h.kept, fun h => ⟨hkept.2 h, updateCollection_again hanswers before⟩⟩

/-- An update of `libcurl` upwards. -/
theorem collectionRight_iff_example :
    CollectionRight .libraries (fun _ => .answers (some "8.22.1".toList)) (fun _ _ => true)
        [("libcurl".toList, ⟨false, some "github-release".toList, none, none,
          some ["8.22.0".toList]⟩)] ↔
      ∀ e ∈ [("libcurl".toList, (⟨false, some "github-release".toList, none, none,
          some ["8.22.0".toList]⟩ : MatrixEntry))],
        EntryFits .libraries (fun _ => .answers (some "8.22.1".toList)) (fun _ _ => true)
          e.1 e.2 := by
  refine collectionRight_iff .libraries _ _ _ fun name latest h _ => ?_
  cases h
  exact ⟨'8', rfl, rfl⟩

/-- A release of an older branch becomes the last version. -/
theorem older_release_not_right :
    ¬ CollectionRight .libraries (fun _ => .answers (some "8.21.1".toList)) (fun _ _ => true)
      [("libcurl".toList, ⟨false, some "github-release".toList, none, none,
        some ["8.22.0".toList]⟩)] := by
  intro h
  obtain ⟨-, hkept⟩ := (List.forall₂_cons.1 h.kept).1
  rcases (entryKept_iff.1 hkept).latest "8.21.1".toList (by decide) with h | h | ⟨hle, -⟩
  · exact absurd h (by decide)
  · exact absurd h (by decide)
  · exact absurd (hle "8.22.0".toList (by decide)) (by decide)

/-- **What is built is not lower than before.** -/
theorem getMatrixVersion_of_right {before : Collection}
    (h : CollectionRight sec answers urlResolves before) {key v : Text}
    (hbefore : getMatrixVersion sec before key = .ok v) :
    ∃ v', getMatrixVersion sec (updateCollection sec answers urlResolves before).2 key = .ok v' ∧
      NotLower v v' := by
  have hkept := h.kept
  clear h
  generalize (updateCollection sec answers urlResolves before).2 = after at hkept ⊢
  induction hkept with
  | nil => cases hbefore
  | @cons e e' before after he _ ih =>
    obtain ⟨name, entry⟩ := e
    obtain ⟨name', entry'⟩ := e'
    obtain ⟨rfl, hentry⟩ : name = name' ∧ EntryKept entry entry' := he
    by_cases hkey : key = name
    · subst hkey
      rw [getMatrixVersion, List.lookup_cons_self] at hbefore
      rw [getMatrixVersion, List.lookup_cons_self]
      dsimp only at hbefore ⊢
      cases hcurrent : entry.current with
      | none => rw [hcurrent] at hbefore; cases hbefore
      | some current =>
        rw [hcurrent] at hbefore
        cases hbefore
        obtain ⟨v', hv', hle⟩ := hentry.notLower v hcurrent
        rw [hv']
        exact ⟨v', rfl, hle⟩
    · have hlookup : ∀ (e : MatrixEntry) (es : Collection),
          getMatrixVersion sec ((name, e) :: es) key = getMatrixVersion sec es key := by
        intro e es
        rw [getMatrixVersion, List.lookup_cons, beq_eq_false_iff_ne.2 hkey, ← getMatrixVersion]
      rw [hlookup] at hbefore ⊢
      exact ih hbefore

end Result

end PhpWasm.Build
