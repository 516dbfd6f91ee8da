import PhpWasm.Base.JsNumber
import PhpWasm.Base.LazySearch
import PhpWasm.Base.Run
import PhpWasm.Build.LibVersions
import PhpWasm.Build.PhpReleases

/-!
# Finding the latest version

The resolvers of `update-lib-versions.mjs` take the tags of a repository, keep those that look like
a version, and answer with the highest.

* `highestVersion_highest`: what the sort puts last is not lower than anything in the list.
* `normalizeVersion_plain`: of a tag that looks like a version, `normalizeVersion` only drops the
  `v`, although it searches for a version anywhere in a tag.
* `latestGithubTag_notLower` and `resolveGitTag_notLower`: so no tag that looks like a version is
  higher than what is answered, in the order that `updateCollection` has to keep.  JavaScript
  compares doubles, so the numbers of the tags have to be safe integers (`Safe`).
* `resolveCompact_highest`: SQLite's one-number versions, there and back.
-/

set_option autoImplicit false

namespace PhpWasm.Build

open JsNumber (floorDiv floorDiv_of_lt roundNat roundNat_of_lt)
open LazySearch (lazily)
open Machine
open Scan (strip)
open Vendored (Text)
open VersionOrder (height)

/-! ## The highest version -/

/-- `v.replace('-', '.')`, which replaces the first one. -/
def replaceDash : Text → Text
  | [] => []
  | c :: v => if c = '-' then '.' :: v else c :: replaceDash v

/-- `Number(w) || 0`: digits become the nearest double, and what is no number becomes 0. -/
def numberOf (w : Text) : Nat :=
  if w.all Char.isDigit then roundNat (Nat.ofDigitChars 10 w 0) else 0

/-- `toParts`, with `|| 0`. -/
def toParts (v : Text) : List Nat := ((replaceDash v).splitOn '.').map numberOf

/-- The comparison function, as far as the sort puts one in front of the other. -/
def notHigher (a b : Text) : Bool := VersionOrder.compare (toParts a) (toParts b) != .gt

/-- `highestVersion` -/
def highestVersion (versions : List Text) : Option Text := (versions.mergeSort notHigher).getLast?

/-! ## The patterns -/

/-- `(?:\.\d+){0,n}` -/
def dottedRuns : Nat → Text → Text × Text
  | 0, s => ([], s)
  | n + 1, s =>
    match (strip ['.'] s).bind digitRun with
    | some (run, s) => ('.' :: (run ++ (dottedRuns n s).1), (dottedRuns n s).2)
    | none => ([], s)

/-- `\d+(?:\.\d+){1,3}` -/
def dotted (s : Text) : Option (Text × Text) :=
  (digitRun s).bind fun (run, s) =>
    if (dottedRuns 3 s).1 = [] then none
    else some (run ++ (dottedRuns 3 s).1, (dottedRuns 3 s).2)

/-- `(?:w\d+)?` -/
def counter (w s : Text) : Text × Text :=
  match (strip w s).bind digitRun with
  | some (run, s) => (w ++ run, s)
  | none => ([], s)

/-- `\d+(?:\.\d+){1,3}(?:-\d+)?(?:\.gfm\.\d+)?` -/
def versionMatch (s : Text) : Option Text :=
  (dotted s).map fun (version, s) =>
    let (dashed, s) := counter ['-'] s
    version ++ dashed ++ (counter ".gfm.".toList s).1

/-- `normalizeVersion` -/
def normalizeVersion (tag : Text) : Text :=
  (lazily versionMatch (tag.map fun c => if c = '_' then '.' else c)).getD tag

/-- `name.replace(/^v/, '')` -/
def dropV (name : Text) : Text := (strip ['v'] name).getD name

/-- `/^v?\d+(\.\d+){1,3}$/`, and with `dashed` `/^v?\d+(\.\d+){1,3}(-\d+)?$/`. -/
def isPlain (dashed : Bool) (name : Text) : Bool :=
  (dotted (dropV name)).any fun (_, s) => (if dashed then (counter ['-'] s).2 else s) = []

/-- `/^VER-(\d+(?:-\d+)+)$/i` with dots for the dashes, where it matches. -/
def undashed (name : Text) : Text :=
  let version := name.drop 4
  let numbers := version.splitOn '-'
  if (name.take 4).map Char.toUpper = "VER-".toList ∧ 2 ≤ numbers.length ∧
      numbers.all (fun n => n ≠ [] && n.all Char.isDigit) then
    version.map fun c => if c = '-' then '.' else c
  else name

/-! ## The resolvers -/

/-- `latestGithubTag`: there are no tags where they cannot be fetched. -/
def latestGithubTag (tags : Option (List Text)) : Option Text :=
  tags.bind fun tags =>
    highestVersion (((tags.map undashed).filter (isPlain true)).map normalizeVersion)

/-- `resolveGitTag`, for the tags of a GitLab project. -/
def resolveGitTag (tags : List Text) : Option Text :=
  let versions := tags.filter (isPlain false)
  (highestVersion (versions.map normalizeVersion)).map fun best =>
    (versions.find? fun v => normalizeVersion v = best).getD best

/-- `/^\d+(\.\d+){1,3}$/` -/
def isDotted (name : Text) : Bool := (dotted name).any fun (_, s) => s = []

/-- `resolveGooglesource` -/
def resolveGooglesource (tags : List Text) : Option Text :=
  highestVersion ((tags.map dropV).filter isDotted)

/-- The numbers of a version are safe integers. -/
def Safe (v : Text) : Prop := ∀ n ∈ versionNumbers v, n < 2 ^ 53

instance (v : Text) : Decidable (Safe v) := inferInstanceAs (Decidable (∀ _ ∈ _, _))

/-! ## The highest version -/

theorem numberOf_of_lt {w : Text} (h : componentNumber w < 2 ^ 53) :
    numberOf w = componentNumber w := by
  rw [componentNumber] at h ⊢
  rw [numberOf]
  split_ifs at h ⊢
  · exact roundNat_of_lt h
  · rfl

theorem highestVersion_eq_none {versions : List Text} :
    highestVersion versions = none ↔ versions = [] := by
  rw [highestVersion, List.getLast?_eq_none_iff]
  refine ⟨fun h => ?_, fun h => by rw [h, List.mergeSort_nil]⟩
  exact List.length_eq_zero_iff.1 ((List.length_mergeSort versions).symm.trans (by rw [h]; rfl))

theorem notHigher_iff {a b : Text} :
    notHigher a b = true ↔ height (toParts a) ≤ height (toParts b) := by
  rw [notHigher, bne_iff_ne, VersionOrder.compare_ne_gt]

/-- The sort puts the versions in order. -/
theorem pairwise_mergeSort_notHigher (versions : List Text) :
    (versions.mergeSort notHigher).Pairwise fun a b => notHigher a b = true := by
  refine List.pairwise_mergeSort (fun a b c hab hbc => ?_) (fun a b => ?_) versions
  · rw [notHigher_iff] at hab hbc ⊢
    exact hab.trans hbc
  · rw [Bool.or_eq_true, notHigher_iff, notHigher_iff]
    exact le_total _ _

/-- **What is answered is the highest.** -/
theorem highestVersion_highest {versions : List Text} {best : Text}
    (h : highestVersion versions = some best) :
    best ∈ versions ∧ ∀ v ∈ versions, height (toParts v) ≤ height (toParts best) := by
  rw [highestVersion] at h
  have hsorted := pairwise_mergeSort_notHigher versions
  obtain ⟨before, hbefore⟩ := List.getLast?_eq_some_iff.1 h
  rw [hbefore, List.pairwise_append] at hsorted
  refine ⟨List.mem_mergeSort.1 (List.mem_of_getLast? h), fun v hv => ?_⟩
  rw [← (List.mergeSort_perm versions notHigher).mem_iff, hbefore, List.mem_append] at hv
  rcases hv with hin | hlast
  · exact notHigher_iff.1 (hsorted.2.2 v hin best (List.mem_singleton_self best))
  · rw [List.mem_singleton.1 hlast]

/-! ## What the patterns find -/

/-- The characters of a version. -/
def IsVersionChar (c : Char) : Prop := c.isDigit ∨ c = '.' ∨ c = '-'

section Patterns

variable {s t rest run : Text}

theorem digitRun_spec (h : digitRun s = some (run, rest)) :
    run ≠ [] ∧ (∀ c ∈ run, c.isDigit) ∧ run ++ rest = s := by
  rw [digitRun] at h
  split at h
  · cases h
  · rename_i hne
    cases h
    exact ⟨hne, fun c hc => List.all_eq_true.1 List.all_takeWhile c hc,
      List.takeWhile_append_dropWhile⟩

theorem dottedRuns_spec (n : Nat) (s : Text) :
    (dottedRuns n s).1 ++ (dottedRuns n s).2 = s ∧
      ∀ c ∈ (dottedRuns n s).1, c.isDigit ∨ c = '.' := by
  induction n generalizing s with
  | zero => exact ⟨rfl, fun c hc => absurd hc List.not_mem_nil⟩
  | succ n ih =>
    rw [dottedRuns]
    split
    · rename_i run rest hrun
      obtain ⟨s', hstrip, hdigits⟩ := Option.bind_eq_some_iff.1 hrun
      obtain ⟨-, hrunDigits, happend⟩ := digitRun_spec hdigits
      obtain ⟨hih, hchars⟩ := ih rest
      refine ⟨?_, fun c hc => ?_⟩
      · rw [Scan.strip_eq_some.1 hstrip, ← happend, List.cons_append, List.append_assoc, hih]
        rfl
      · rcases List.mem_cons.1 hc with rfl | hc
        · exact .inr rfl
        · rcases List.mem_append.1 hc with hc | hc
          · exact .inl (hrunDigits c hc)
          · exact hchars c hc
    · exact ⟨rfl, fun c hc => absurd hc List.not_mem_nil⟩

/-- A dotted version begins with a digit. -/
theorem dotted_spec (h : dotted s = some (t, rest)) :
    t ++ rest = s ∧ (∃ c ∈ s.head?, c.isDigit) ∧ ∀ c ∈ t, c.isDigit ∨ c = '.' := by
  obtain ⟨⟨run, s'⟩, hrun, h⟩ := Option.bind_eq_some_iff.1 h
  dsimp only at h
  split at h
  · cases h
  · cases h
    obtain ⟨hne, hdigits, happend⟩ := digitRun_spec hrun
    obtain ⟨hruns, hchars⟩ := dottedRuns_spec 3 s'
    refine ⟨by rw [List.append_assoc, hruns, happend], ?_, fun c hc => ?_⟩
    · obtain ⟨c, run', rfl⟩ := List.exists_cons_of_ne_nil hne
      rw [← happend]
      exact ⟨c, rfl, hdigits c List.mem_cons_self⟩
    · rcases List.mem_append.1 hc with hc | hc
      · exact .inl (hdigits c hc)
      · exact hchars c hc

theorem counter_spec (w s : Text) : (counter w s).1 ++ (counter w s).2 = s ∧
    ((counter w s).1 = [] ∨ ∃ run, (counter w s).1 = w ++ run ∧ ∀ c ∈ run, c.isDigit) := by
  rw [counter]
  split
  · rename_i run rest hrun
    obtain ⟨s', hstrip, hdigits⟩ := Option.bind_eq_some_iff.1 hrun
    obtain ⟨-, hrunDigits, happend⟩ := digitRun_spec hdigits
    refine ⟨?_, .inr ⟨run, rfl, hrunDigits⟩⟩
    rw [Scan.strip_eq_some.1 hstrip, ← happend, List.append_assoc]
  · exact ⟨rfl, .inl rfl⟩

end Patterns

/-- There is no `v` in front of a digit. -/
theorem dropV_of_dotted {s t rest : Text} (h : dotted s = some (t, rest)) : dropV s = s := by
  obtain ⟨c, hc, hdigit⟩ := (dotted_spec h).2.1
  rw [dropV]
  cases hstrip : strip ['v'] s with
  | none => rfl
  | some s' =>
    rw [Scan.strip_eq_some.1 hstrip] at hc
    obtain rfl := Option.some.inj hc
    exact absurd hdigit (by decide)

/-- **A tag that looks like a version**: a dotted version and no more than one counter, with nothing
else but the `v`. -/
structure Plain (name version dashed : Text) : Prop where
  drop : dropV name = version ++ dashed
  found : dotted (dropV name) = some (version, dashed)
  dashes : counter ['-'] dashed = (dashed, [])

theorem plain_of_isPlain {name : Text} {allowed : Bool} (h : isPlain allowed name) :
    ∃ version dashed, Plain name version dashed := by
  rw [isPlain, Option.any_eq_true] at h
  obtain ⟨⟨version, dashed⟩, hdotted, hrest⟩ := h
  refine ⟨version, dashed, (dotted_spec hdotted).1.symm, hdotted, ?_⟩
  have hempty : (counter ['-'] dashed).2 = [] := by
    cases allowed with
    | true => simpa using hrest
    | false =>
      have hnil : dashed = [] := by simpa using hrest
      rw [hnil]
      rfl
  have happend := (counter_spec ['-'] dashed).1
  rw [hempty, List.append_nil] at happend
  exact Prod.ext happend hempty

namespace Plain

variable {name version dashed : Text}

/-- The counter is not there, or it is a dash and digits. -/
theorem dashed_eq (h : Plain name version dashed) :
    dashed = [] ∨ ∃ run, dashed = '-' :: run ∧ ∀ c ∈ run, c.isDigit := by
  have hspec := (counter_spec ['-'] dashed).2
  rw [h.dashes] at hspec
  exact hspec

theorem chars (h : Plain name version dashed) : ∀ c ∈ dropV name, IsVersionChar c := by
  rw [h.drop]
  intro c hc
  rcases List.mem_append.1 hc with hc | hc
  · exact ((dotted_spec h.found).2.2 c hc).imp_right .inl
  · rcases h.dashed_eq with rfl | ⟨run, rfl, hrun⟩
    · exact absurd hc List.not_mem_nil
    · rcases List.mem_cons.1 hc with rfl | hc
      · exact .inr (.inr rfl)
      · exact .inl (hrun c hc)

/-- There may be a `v` in front of the version. -/
theorem name_eq (h : Plain name version dashed) :
    (∃ c ∈ name.head?, c.isDigit) ∧ dropV name = name ∨ name = 'v' :: dropV name := by
  rw [dropV]
  cases hstrip : strip ['v'] name with
  | some rest => exact .inr (Scan.strip_eq_some.1 hstrip)
  | none =>
    refine .inl ⟨?_, rfl⟩
    have hdigit := (dotted_spec h.found).2.1
    rwa [dropV, hstrip] at hdigit

theorem stripV_eq (h : Plain name version dashed) : stripV name = dropV name := by
  rcases h.name_eq with ⟨⟨c, hc, hdigit⟩, heq⟩ | heq
  · rw [heq]
    refine stripV_of_not_startsWithV ?_
    obtain ⟨t, rfl⟩ : ∃ t, name = c :: t := by
      cases name with
      | nil => cases hc
      | cons d t => exact ⟨t, by rw [Option.some.inj hc]⟩
    rw [startsWithV, Bool.or_eq_true, decide_eq_true_iff, decide_eq_true_iff]
    rintro (rfl | rfl) <;> exact absurd hdigit (by decide)
  · rw [heq]
    rfl

/-- The pattern finds all of the version. -/
theorem versionMatch_drop (h : Plain name version dashed) :
    versionMatch (dropV name) = some (dropV name) := by
  have hgfm : counter ".gfm.".toList [] = ([], []) := rfl
  rw [versionMatch, h.found, Option.map_some]
  dsimp only
  rw [h.dashes]
  dsimp only
  rw [hgfm, h.drop, List.append_nil]

/-- **`normalizeVersion` drops the `v`**, and nothing else. -/
theorem normalize (h : Plain name version dashed) : normalizeVersion name = dropV name := by
  have hunderscore : ∀ c ∈ name, (if c = '_' then '.' else c) = c := by
    intro c hc
    refine if_neg ?_
    rintro rfl
    have hmem : '_' ∈ dropV name := by
      rcases h.name_eq with ⟨-, heq⟩ | heq
      · rwa [heq]
      · rw [heq] at hc
        exact (List.mem_cons.1 hc).resolve_left (by decide)
    rcases h.chars '_' hmem with hdigit | hdot | hdash
    · exact absurd hdigit (by decide)
    · exact absurd hdot (by decide)
    · exact absurd hdash (by decide)
  rw [normalizeVersion, List.map_congr_left hunderscore, List.map_id']
  rcases h.name_eq with ⟨-, heq⟩ | heq
  · have hfind := LazySearch.lazily_of_some h.versionMatch_drop
    rw [heq] at hfind ⊢
    rw [hfind, Option.getD_some]
  · have hskip : LazySearch.Skips versionMatch ['v'] (dropV name) := ⟨rfl, trivial⟩
    have hfind := LazySearch.lazily_append hskip
    rw [LazySearch.lazily_of_some h.versionMatch_drop] at hfind
    rw [heq, ← List.singleton_append, hfind]
    rfl

end Plain

/-! ## The numbers of a version -/

/-- Only what the predicate says of the characters of a text matters for where it is split. -/
theorem splitOnP_congr {p q : Char → Bool} {w : Text} (h : ∀ c ∈ w, p c = q c) :
    w.splitOnP p = w.splitOnP q := by
  induction w with
  | nil => rfl
  | cons c w ih =>
    rw [List.forall_mem_cons] at h
    rw [List.splitOnP_cons_eq_if_modifyHead, List.splitOnP_cons_eq_if_modifyHead, h.1, ih h.2]

/-- The pieces of a text have its characters. -/
theorem forall_mem_splitOnP {p : Char → Bool} {P : Char → Prop} {w : Text} (h : ∀ c ∈ w, P c) :
    ∀ piece ∈ w.splitOnP p, ∀ c ∈ piece, P c := by
  induction w with
  | nil => simp [List.splitOnP_nil]
  | cons c w ih =>
    rw [List.forall_mem_cons] at h
    rw [List.splitOnP_cons_eq_if_modifyHead]
    split
    · rw [List.forall_mem_cons]
      exact ⟨fun d hd => absurd hd List.not_mem_nil, ih h.2⟩
    · obtain ⟨first, pieces, heq⟩ := List.exists_cons_of_ne_nil (List.splitOnP_ne_nil p w)
      have hpieces := ih h.2
      rw [heq, List.forall_mem_cons] at hpieces
      rw [heq, List.modifyHead_cons, List.forall_mem_cons, List.forall_mem_cons]
      exact ⟨⟨h.1, hpieces.1⟩, hpieces.2⟩

theorem replaceDash_append {t : Text} (h : '-' ∉ t) (s : Text) :
    replaceDash (t ++ s) = t ++ replaceDash s := by
  induction t with
  | nil => rfl
  | cons c t ih =>
    rw [List.mem_cons, not_or] at h
    rw [List.cons_append, replaceDash, if_neg (Ne.symm h.1), ih h.2, List.cons_append]

/-- The separators of `versionNumbers`. -/
def isSeparator (c : Char) : Bool := c = '.' || c = '-'

/-- The separators of a version leave nothing that is no number. -/
theorem versionNumbers_of_chars {v : Text} (h : ∀ c ∈ stripV v, IsVersionChar c) :
    versionNumbers v = ((stripV v).splitOnP isSeparator).map componentNumber := by
  refine congrArg (List.map componentNumber) (List.filter_eq_self.2 fun piece hpiece => ?_)
  rw [decide_eq_true_iff]
  rintro rfl
  rcases forall_mem_splitOnP h _ hpiece 'g' (by decide) with hdigit | hdot | hdash
  · exact absurd hdigit (by decide)
  · exact absurd hdot (by decide)
  · exact absurd hdash (by decide)

/-- A text without a dash has its separators at the dots. -/
theorem splitOn_dot {w : Text} (h : '-' ∉ w) : w.splitOn '.' = w.splitOnP isSeparator := by
  rw [List.splitOn_eq_splitOnP]
  refine splitOnP_congr fun c hc => ?_
  have hne : c ≠ '-' := by
    rintro rfl
    exact h hc
  simp [isSeparator, hne, BEq.beq]

namespace Plain

variable {name version dashed : Text}

/-- One dash is replaced, and there is no other. -/
theorem splitOn_replaceDash (h : Plain name version dashed) :
    (replaceDash (dropV name)).splitOn '.' = (dropV name).splitOnP isSeparator := by
  have hversion : '-' ∉ version := fun hmem => by
    rcases (dotted_spec h.found).2.2 '-' hmem with hdigit | hdot
    · exact absurd hdigit (by decide)
    · exact absurd hdot (by decide)
  rw [h.drop, replaceDash_append hversion]
  rcases h.dashed_eq with rfl | ⟨run, rfl, hrun⟩
  · rw [replaceDash, List.append_nil, splitOn_dot hversion]
  · have hdash : '-' ∉ run := fun hmem => absurd (hrun '-' hmem) (by decide)
    have hreplace : replaceDash ('-' :: run) = '.' :: run := if_pos rfl
    rw [hreplace, List.splitOn_eq_splitOnP, List.splitOnP_append_cons _ _ (by rfl),
      ← List.splitOn_eq_splitOnP, ← List.splitOn_eq_splitOnP, splitOn_dot hversion,
      splitOn_dot hdash, List.splitOnP_append_cons _ _ (by rfl)]

theorem versionNumbers_eq (h : Plain name version dashed) :
    versionNumbers name = ((dropV name).splitOnP isSeparator).map componentNumber := by
  have hchars := h.chars
  rw [← h.stripV_eq] at hchars ⊢
  exact versionNumbers_of_chars hchars

/-- **The numbers** that are compared are those of the version. -/
theorem toParts_drop (h : Plain name version dashed) (hsafe : Safe name) :
    toParts (dropV name) = versionNumbers name := by
  rw [Safe, h.versionNumbers_eq, List.forall_mem_map] at hsafe
  rw [toParts, h.splitOn_replaceDash, h.versionNumbers_eq]
  exact List.map_congr_left fun piece hpiece => numberOf_of_lt (hsafe piece hpiece)

/-- Without the `v` it is the same version. -/
theorem drop_plain (h : Plain name version dashed) : Plain (dropV name) version dashed := by
  have hdrop := dropV_of_dotted h.found
  exact ⟨hdrop.trans h.drop, hdrop.symm ▸ h.found, h.dashes⟩

theorem versionNumbers_drop (h : Plain name version dashed) :
    versionNumbers (dropV name) = versionNumbers name := by
  rw [versionNumbers, versionNumbers, h.stripV_eq, h.drop_plain.stripV_eq,
    dropV_of_dotted h.found]

end Plain

/-- The versions of two tags are compared as they are sorted. -/
theorem notLower_of_plain {name best version dashed version' dashed' : Text}
    (h : Plain name version dashed) (h' : Plain best version' dashed') (hsafe : Safe name)
    (hsafe' : Safe best)
    (hle : height (toParts (normalizeVersion name)) ≤ height (toParts (normalizeVersion best))) :
    NotLower name (normalizeVersion best) := by
  rw [h.normalize, h'.normalize, h.toParts_drop hsafe, h'.toParts_drop hsafe'] at hle
  rwa [NotLower, h'.normalize, h'.versionNumbers_drop]

/-! ## What the resolvers answer -/

/-- What the highest of the normalized tags comes from. -/
theorem highest_of_plain {names : List Text} {allowed : Bool} {latest : Text}
    (h : highestVersion ((names.filter (isPlain allowed)).map normalizeVersion) = some latest) :
    (∃ best ∈ names, isPlain allowed best = true ∧ latest = normalizeVersion best) ∧
      ((∀ name ∈ names, isPlain allowed name = true → Safe name) →
        ∀ name ∈ names, isPlain allowed name = true → NotLower name latest) := by
  obtain ⟨hmem, hhighest⟩ := highestVersion_highest h
  obtain ⟨best, hbest, rfl⟩ := List.mem_map.1 hmem
  obtain ⟨hbestMem, hbestPlain⟩ := List.mem_filter.1 hbest
  refine ⟨⟨best, hbestMem, hbestPlain, rfl⟩, fun hsafe name hname hplain => ?_⟩
  obtain ⟨_, _, h₁⟩ := plain_of_isPlain hplain
  obtain ⟨_, _, h₂⟩ := plain_of_isPlain hbestPlain
  refine notLower_of_plain h₁ h₂ (hsafe name hname hplain) (hsafe best hbestMem hbestPlain)
    (hhighest _ ?_)
  exact List.mem_map_of_mem (List.mem_filter.2 ⟨hname, hplain⟩)

/-- **The latest GitHub tag**: none only if no tag looks like a version; and of those that do, no
one is higher, as long as their numbers are safe. -/
theorem latestGithubTag_notLower (tags : List Text) :
    (latestGithubTag (some tags) = none ↔ ∀ tag ∈ tags, isPlain true (undashed tag) = false) ∧
      ∀ latest ∈ latestGithubTag (some tags),
        (∃ tag ∈ tags, isPlain true (undashed tag) = true ∧ latest = stripV (undashed tag)) ∧
          ((∀ tag ∈ tags, isPlain true (undashed tag) = true → Safe (undashed tag)) →
            ∀ tag ∈ tags, isPlain true (undashed tag) = true →
              NotLower (undashed tag) latest) := by
  rw [latestGithubTag, Option.bind_some]
  refine ⟨?_, fun latest hlatest => ?_⟩
  · rw [highestVersion_eq_none, List.map_eq_nil_iff, List.filter_eq_nil_iff, List.forall_mem_map]
    exact forall₂_congr fun tag _ => by rw [Bool.not_eq_true]
  · obtain ⟨⟨best, hmem, hplain, heq⟩, hhighest⟩ := highest_of_plain hlatest
    obtain ⟨tag, htag, rfl⟩ := List.mem_map.1 hmem
    obtain ⟨_, _, h⟩ := plain_of_isPlain hplain
    refine ⟨⟨tag, htag, hplain, ?_⟩, fun hsafe name hname => ?_⟩
    · rw [heq, h.normalize, h.stripV_eq]
    · exact hhighest (List.forall_mem_map.2 hsafe) _ (List.mem_map_of_mem hname)

/-- **The answer for a GitLab project** is one of its tags, in the spelling of the tag; and none
that looks like a version is higher, as long as their numbers are safe. -/
theorem resolveGitTag_notLower (tags : List Text) :
    (resolveGitTag tags = none ↔ ∀ tag ∈ tags, isPlain false tag = false) ∧
      ∀ latest ∈ resolveGitTag tags, latest ∈ tags ∧ isPlain false latest = true ∧
        ((∀ tag ∈ tags, isPlain false tag = true → Safe tag) →
          ∀ tag ∈ tags, isPlain false tag = true → NotLower tag latest) := by
  refine ⟨?_, fun latest hlatest => ?_⟩
  · rw [resolveGitTag, Option.map_eq_none_iff, highestVersion_eq_none, List.map_eq_nil_iff,
      List.filter_eq_nil_iff]
    exact forall₂_congr fun tag _ => by rw [Bool.not_eq_true]
  · obtain ⟨best, hbest, hlatest⟩ := Option.map_eq_some_iff.1 hlatest
    obtain ⟨⟨name, hname, hplain, heq⟩, hhighest⟩ := highest_of_plain hbest
    cases hfind : (tags.filter (isPlain false)).find? fun v => normalizeVersion v = best with
    | none =>
      -- the tag that the best version comes from is found
      have hnone := List.find?_eq_none.1 hfind name (List.mem_filter.2 ⟨hname, hplain⟩)
      exact absurd (decide_eq_true heq.symm) hnone
    | some found =>
      rw [hfind, Option.getD_some] at hlatest
      subst hlatest
      have hsame : normalizeVersion found = best := by
        simpa using List.find?_some hfind
      obtain ⟨hmem, hfound⟩ := List.mem_filter.1 (List.mem_of_find?_eq_some hfind)
      obtain ⟨_, _, h⟩ := plain_of_isPlain hfound
      refine ⟨hmem, hfound, fun hsafe tag htag htagPlain => ?_⟩
      have hle := hhighest hsafe tag htag htagPlain
      rwa [NotLower, ← hsame, h.normalize, h.versionNumbers_drop] at hle

/-- **The answer for a repository of googlesource** is one of its tags without the `v`; and none
that looks like a version is higher, as long as their numbers are safe. -/
theorem resolveGooglesource_notLower (tags : List Text) :
    (resolveGooglesource tags = none ↔ ∀ tag ∈ tags, isDotted (dropV tag) = false) ∧
      ∀ latest ∈ resolveGooglesource tags,
        (∃ tag ∈ tags, isDotted (dropV tag) = true ∧ latest = dropV tag) ∧
          ((∀ tag ∈ tags, isDotted (dropV tag) = true → Safe (dropV tag)) →
            ∀ tag ∈ tags, isDotted (dropV tag) = true → NotLower (dropV tag) latest) := by
  have hplain : ∀ {name}, isDotted name = true →
      ∃ version dashed, Plain name version dashed ∧ dropV name = name := fun {name} hname => by
    have hany := hname
    rw [isDotted, Option.any_eq_true] at hany
    obtain ⟨⟨t, rest⟩, hdotted, -⟩ := hany
    have hdrop := dropV_of_dotted hdotted
    have hallowed : isPlain false name = true := by
      rw [isPlain, hdrop]
      exact hname
    obtain ⟨version, dashed, h⟩ := plain_of_isPlain hallowed
    exact ⟨version, dashed, h, hdrop⟩
  refine ⟨?_, fun latest hlatest => ?_⟩
  · rw [resolveGooglesource, highestVersion_eq_none, List.filter_eq_nil_iff, List.forall_mem_map]
    exact forall₂_congr fun tag _ => by rw [Bool.not_eq_true]
  · obtain ⟨hmem, hhighest⟩ := highestVersion_highest hlatest
    obtain ⟨hmap, hdotted⟩ := List.mem_filter.1 hmem
    obtain ⟨best, hbest, rfl⟩ := List.mem_map.1 hmap
    obtain ⟨_, _, hbestPlain, hbestDrop⟩ := hplain hdotted
    refine ⟨⟨best, hbest, hdotted, rfl⟩, fun hsafe tag htag htagDotted => ?_⟩
    obtain ⟨_, _, htagPlain, htagDrop⟩ := hplain htagDotted
    have hle := hhighest _ (List.mem_filter.2 ⟨List.mem_map_of_mem htag, htagDotted⟩)
    have hnotLower := notLower_of_plain htagPlain hbestPlain (hsafe tag htag htagDotted)
      (hsafe best hbest hdotted) (by
      rwa [htagPlain.normalize, hbestPlain.normalize, htagDrop, hbestDrop])
    rwa [hbestPlain.normalize, hbestDrop] at hnotLower

/-! ## Updates from tags -/

/-- An update of a collection: the tags of each repository, as far as they are fetched, and which
downloads work. -/
structure TagUpdate where
  tags : Text → Option (List Text)
  urlResolves : Text → Text → Bool

/-- The collection after an update. -/
def updateFromTags (sec : MatrixSection) (collection : Collection) (u : TagUpdate) : Collection :=
  (updateCollection sec (fun name => .answers (latestGithubTag (u.tags name))) u.urlResolves
    collection).2

/-- What is recorded last for an entry is among the tags that are fetched for it, and the numbers of
the tags are safe. -/
structure StillListed (collection : Collection) (u : TagUpdate) : Prop where
  listed : ∀ e ∈ collection, ∀ v ∈ e.2.current, ∀ tags ∈ u.tags e.1,
    ∃ tag ∈ tags, isPlain true (undashed tag) = true ∧ stripV (undashed tag) = stripV v
  safe : ∀ e ∈ collection, ∀ tags ∈ u.tags e.1, ∀ tag ∈ tags,
    isPlain true (undashed tag) = true → Safe (undashed tag)

/-- The last version of an entry does not go down. -/
def GoesUp (e e' : Text × MatrixEntry) : Prop :=
  e.1 = e'.1 ∧ ∀ v ∈ e.2.current, ∃ v' ∈ e'.2.current, NotLower v v'

theorem notLower_congr {v v' w : Text} (h : stripV v' = stripV v) :
    NotLower v w ↔ NotLower v' w := by
  rw [NotLower, NotLower, versionNumbers.eq_def v, versionNumbers.eq_def v', h]

/-- One entry, in one update. -/
theorem goesUp_push {sec : MatrixSection} {u : TagUpdate} {e : Text × MatrixEntry}
    (h : ∀ v ∈ e.2.current, ∀ tags ∈ u.tags e.1,
      ∃ tag ∈ tags, isPlain true (undashed tag) = true ∧ stripV (undashed tag) = stripV v)
    (hsafe : ∀ tags ∈ u.tags e.1, ∀ tag ∈ tags,
      isPlain true (undashed tag) = true → Safe (undashed tag)) :
    GoesUp e (e.1, e.2.push (appended sec (fun name => .answers (latestGithubTag (u.tags name)))
      u.urlResolves e.1 e.2)) := by
  refine ⟨rfl, fun v hv => ?_⟩
  cases happended : appended sec (fun name => .answers (latestGithubTag (u.tags name)))
      u.urlResolves e.1 e.2 with
  | none => exact ⟨v, by rwa [push_none], notLower_refl v⟩
  | some resolved =>
    obtain ⟨latest, hlatest, rfl, -⟩ := appended_eq_some.1 happended
    refine ⟨_, current_push_some (versions_ne_none hlatest) _, ?_⟩
    rw [notLower_resolvedVersion]
    have hanswer := Resolved.answers.inj (latestOf_answered hlatest).1
    cases htags : u.tags e.1 with
    | none =>
      rw [htags] at hanswer
      cases hanswer
    | some tags =>
      rw [htags] at hanswer
      obtain ⟨tag, htag, hplain, hstrip⟩ := h v hv tags htags
      rw [notLower_congr hstrip]
      exact ((latestGithubTag_notLower tags).2 latest hanswer).2 (hsafe tags htags) tag htag hplain

theorem GoesUp.trans {e e' e'' : Text × MatrixEntry} (h : GoesUp e e') (h' : GoesUp e' e'') :
    GoesUp e e'' := by
  refine ⟨h.1.trans h'.1, fun v hv => ?_⟩
  obtain ⟨v', hv', hle⟩ := h.2 v hv
  obtain ⟨v'', hv'', hle'⟩ := h'.2 v' hv'
  exact ⟨v'', hv'', le_trans hle hle'⟩

/-- What goes up twice goes up. -/
theorem forall₂_goesUp_trans {l l' l'' : Collection} (h : List.Forall₂ GoesUp l l')
    (h' : List.Forall₂ GoesUp l' l'') : List.Forall₂ GoesUp l l'' := by
  induction h generalizing l'' with
  | nil => exact h'
  | cons he _ ih =>
    obtain ⟨e'', rest, he', hrest, rfl⟩ := List.forall₂_cons_left_iff.1 h'
    exact .cons (he.trans he') (ih hrest)

/-- **Updates from tags do not go down**: over any number of them, as long as upstream still lists
what was recorded last, the last version of every entry is never lower than before. -/
theorem updateFromTags_goesUp (sec : MatrixSection) (before : Collection) (us : List TagUpdate)
    (h : Along (updateFromTags sec) StillListed before us) :
    List.Forall₂ GoesUp before (run (updateFromTags sec) before us) := by
  refine run_inv (fun collection u hup hlisted => ?_)
    (List.forall₂_same.2 fun e _ => ⟨rfl, fun v hv => ⟨v, hv, notLower_refl v⟩⟩) h
  have hstep : List.Forall₂ GoesUp collection (updateFromTags sec collection u) := by
    rw [updateFromTags, updateCollection, List.forall₂_map_right_iff, List.forall₂_same]
    exact fun e he => goesUp_push (hlisted.listed e he) (hlisted.safe e he)
  exact forall₂_goesUp_trans hup hstep

/-- An update of an extension whose repository has a new tag. -/
theorem updateFromTags_goesUp_apcu :
    let entry : MatrixEntry :=
      ⟨false, none, some "krakjoe/apcu".toList, none, some ["v5.1.9".toList]⟩
    let tags := ["5.1.11RC1".toList, "v5.1.10".toList, "v5.1.9".toList]
    List.Forall₂ GoesUp [("apcu".toList, entry)]
      (run (updateFromTags .extensions) [("apcu".toList, entry)]
        [⟨fun _ => some tags, fun _ _ => true⟩]) := by
  refine updateFromTags_goesUp _ _ _ ⟨⟨fun e he v hv tags htags => ?_, fun e he tags htags => ?_⟩,
    trivial⟩
  · obtain rfl := List.mem_singleton.1 he
    obtain rfl := Option.some.inj hv
    obtain rfl := Option.some.inj htags
    exact ⟨"v5.1.9".toList, by decide, by decide, by decide⟩
  · obtain rfl := Option.some.inj htags
    decide

/-! ## Compact versions -/

/-- `compactToDotted` -/
def compactToDotted (n : Nat) : Text :=
  ['.'].intercalate
    [Nat.toDigits 10 (floorDiv n 1000000), Nat.toDigits 10 (floorDiv n 10000 % 100),
      Nat.toDigits 10 (floorDiv n 100 % 100)]

/-- `versionCompact`, of a version that is made of numbers, where it is written without an
exponent. -/
def versionCompact (version : Text) : Nat :=
  let parts := (version.splitOn '.').map numberOf
  roundNat (roundNat (roundNat (parts.getD 0 0 * 1000000) + roundNat (parts.getD 1 0 * 10000)) +
    roundNat (parts.getD 2 0 * 100))

/-- The answer of `resolveTarball` for a template with `{versionCompact}`, where these are the
matches. -/
def resolveCompact (ms : List Text) : Option Text :=
  if ms = [] then none else highestVersion (ms.map fun n => compactToDotted (numberOf n))

theorem componentNumber_toDigits (n : Nat) : componentNumber (Nat.toDigits 10 n) = n := by
  have hdigits : (Nat.toDigits 10 n).all Char.isDigit = true :=
    List.all_eq_true.2 fun c hc => Nat.isDigit_of_mem_toDigits (by decide) (by decide) hc
  rw [componentNumber, if_pos hdigits, Nat.ofDigitChars_ten_toDigits]

theorem numberOf_toDigits {n : Nat} (h : n < 2 ^ 53) : numberOf (Nat.toDigits 10 n) = n := by
  rw [numberOf_of_lt (by rwa [componentNumber_toDigits]), componentNumber_toDigits]

section Compact

variable {n m : Nat}

/-- A safe integer is taken apart as a natural number is. -/
theorem compactToDotted_of_lt (h : n < 2 ^ 53) :
    compactToDotted n = ['.'].intercalate [Nat.toDigits 10 (n / 1000000),
      Nat.toDigits 10 (n / 10000 % 100), Nat.toDigits 10 (n / 100 % 100)] := by
  rw [compactToDotted, floorDiv_of_lt h (by decide) (by decide),
    floorDiv_of_lt h (by decide) (by decide), floorDiv_of_lt h (by decide) (by decide)]

/-- The numbers between the dots. -/
theorem splitOn_compactToDotted (h : n < 2 ^ 53) :
    ((compactToDotted n).splitOn '.').map numberOf =
      [n / 1000000, n / 10000 % 100, n / 100 % 100] := by
  have hdot : ∀ k, '.' ∉ Nat.toDigits 10 k := fun k hmem =>
    absurd (Nat.isDigit_of_mem_toDigits (by decide) (by decide) hmem) (by decide)
  rw [compactToDotted_of_lt h,
    List.splitOn_intercalate _ (by simp [hdot]) (List.cons_ne_nil _ _)]
  simp only [List.map_cons, List.map_nil]
  rw [numberOf_toDigits (by omega), numberOf_toDigits (by omega), numberOf_toDigits (by omega)]

theorem toParts_compactToDotted (h : n < 2 ^ 53) :
    toParts (compactToDotted n) = [n / 1000000, n / 10000 % 100, n / 100 % 100] := by
  have hdash : '-' ∉ compactToDotted n := by
    have hdigits : ∀ k, '-' ∉ Nat.toDigits 10 k := fun k hmem =>
      absurd (Nat.isDigit_of_mem_toDigits (by decide) (by decide) hmem) (by decide)
    simp [compactToDotted, List.intercalate, hdigits]
  have hreplace := replaceDash_append hdash []
  rw [List.append_nil] at hreplace
  rw [toParts, hreplace, replaceDash, List.append_nil, splitOn_compactToDotted h]

/-- The order of the compact versions, but for what is behind the last two digits. -/
theorem height_compactToDotted (hn : n < 2 ^ 53) (hm : m < 2 ^ 53) :
    height (toParts (compactToDotted n)) ≤ height (toParts (compactToDotted m)) ↔
      n / 100 ≤ m / 100 := by
  rw [toParts_compactToDotted hn, toParts_compactToDotted hm]
  have hlt : ∀ {a b : Nat}, a / 100 < b / 100 →
      height [a / 1000000, a / 10000 % 100, a / 100 % 100] <
        height [b / 1000000, b / 10000 % 100, b / 100 % 100] := by
    intro a b hab
    -- the first number that differs
    rcases lt_or_eq_of_le (show a / 1000000 ≤ b / 1000000 by omega) with hmajor | hmajor
    · exact ⟨0, nofun, hmajor⟩
    rcases lt_or_eq_of_le (show a / 10000 % 100 ≤ b / 10000 % 100 by omega) with hminor | hminor
    · refine ⟨1, ?_, hminor⟩
      rintro (_ | j) hj
      · exact hmajor
      · exact absurd hj (by simp)
    · refine ⟨2, ?_, show a / 100 % 100 < b / 100 % 100 by omega⟩
      rintro (_ | _ | j) hj
      · exact hmajor
      · exact hminor
      · exact absurd hj (by simp)
  refine ⟨fun hle => ?_, fun hle => ?_⟩
  · by_contra hgt
    exact absurd hle (not_le.2 (hlt (not_le.1 hgt)))
  · rcases hle.lt_or_eq with hless | heq
    · exact (hlt hless).le
    · rw [show n / 1000000 = m / 1000000 by omega, show n / 10000 % 100 = m / 10000 % 100 by omega,
        heq]

/-- The number of a compact version, but for the last two digits. -/
theorem versionCompact_compactToDotted (h : n < 2 ^ 53) :
    versionCompact (compactToDotted n) = n - n % 100 := by
  rw [versionCompact, splitOn_compactToDotted h]
  simp only [List.getD_cons_zero, List.getD_cons_succ]
  rw [roundNat_of_lt (n := n / 1000000 * 1000000) (by omega),
    roundNat_of_lt (n := n / 10000 % 100 * 10000) (by omega),
    roundNat_of_lt (n := n / 100 % 100 * 100) (by omega),
    roundNat_of_lt (n := n / 1000000 * 1000000 + n / 10000 % 100 * 10000) (by omega),
    roundNat_of_lt (by omega)]
  omega

end Compact

/-- **A compact version, there and back**, for safe integers: the answer is made from the highest of
the matches, and the file that is looked for then is the one that was found, unless its last two
digits are not zero. -/
theorem resolveCompact_highest (ms : List Text) (hsafe : ∀ m ∈ ms, componentNumber m < 2 ^ 53) :
    (resolveCompact ms = none ↔ ms = []) ∧
      ∀ latest ∈ resolveCompact ms, ∃ m ∈ ms, latest = compactToDotted (componentNumber m) ∧
        versionCompact latest = componentNumber m - componentNumber m % 100 ∧
          ∀ m' ∈ ms, componentNumber m' / 100 ≤ componentNumber m / 100 := by
  rw [resolveCompact]
  split
  · rename_i hnil
    exact ⟨iff_of_true rfl hnil, nofun⟩
  · rw [List.map_congr_left fun m hm => congrArg compactToDotted (numberOf_of_lt (hsafe m hm))]
    refine ⟨?_, fun latest hlatest => ?_⟩
    · rw [highestVersion_eq_none, List.map_eq_nil_iff]
    · obtain ⟨hmem, hhighest⟩ := highestVersion_highest hlatest
      obtain ⟨m, hm, rfl⟩ := List.mem_map.1 hmem
      refine ⟨m, hm, rfl, versionCompact_compactToDotted (hsafe m hm), fun m' hm' => ?_⟩
      exact (height_compactToDotted (hsafe m' hm') (hsafe m hm)).1
        (hhighest _ (List.mem_map_of_mem hm'))

/-- Two versions of SQLite. -/
theorem resolveCompact_highest_sqlite :
    let ms := ["3470200".toList, "3510200".toList]
    (resolveCompact ms = none ↔ ms = []) ∧
      ∀ latest ∈ resolveCompact ms, ∃ m ∈ ms, latest = compactToDotted (componentNumber m) ∧
        versionCompact latest = componentNumber m - componentNumber m % 100 ∧
          ∀ m' ∈ ms, componentNumber m' / 100 ≤ componentNumber m / 100 :=
  resolveCompact_highest _ (by decide)

end PhpWasm.Build
