import PhpWasm.Base.Run
import PhpWasm.Base.Scan
import PhpWasm.Base.Segments
import PhpWasm.Build.PhpVersions

/-!
# The patched command of the extension compiler

`patch-compile-extension-tags.mjs` changes the text of an installed package before every build: the
name of its Docker images, and the releases in its table of PHP versions, which are to be those of
`supported-php-versions.mjs`.

* `setRelease` is one replacement of the table.  Between quotes, an entry is a row of eight
  segments, of which the last is the release.
* `EntryAt.apart`: as long as the releases are numbers with dots, no entry begins inside of another
  one, so a replacement leaves the entries where they are.
* `patchesRight`: after any installations and patches, a patch leaves every version of the table
  with its release and the others as they were, and to patch once more changes nothing.
-/

set_option autoImplicit false

namespace PhpWasm.Build.ExtensionTags

open Machine
open Segments (Entry FirstEntry RowAt putFirst)
open Vendored (Text)

/-! ## The table -/

/-- Digits and dots. -/
def OnlyNumbers (t : Text) : Prop := ∀ c ∈ t, c.isDigit = true ∨ c = '.'

/-- `8.5` -/
def IsMinor (version : Text) : Prop :=
  ∃ major minor : Text, version = major ++ '.' :: minor ∧ ∀ c ∈ major ++ minor, c.isDigit = true

/-- The versions have one dot, and their releases are numbers. -/
structure Supported (phpVersions : List PhpVersion) : Prop where
  minor : ∀ v ∈ phpVersions, IsMinor v.version
  release : ∀ v ∈ phpVersions, v.lastRelease ≠ [] ∧ OnlyNumbers v.lastRelease
  distinct : (phpVersions.map PhpVersion.version).Nodup

/-- `SUPPORTED_PHP_VERSIONS` -/
structure SupportedVersions where
  phpVersions : List PhpVersion
  supported : Supported phpVersions

/-- A word of the expression, up to a quote. -/
def word (w : Text) (t : Text) : Bool := t = w

/-- `[^"]+` -/
def filled (t : Text) : Bool := t ≠ []

/-- The word with which an entry begins. -/
def entryWord : Text := "\x7bversion:".toList

/-- What follows it, up to a quote each. -/
def entryTail (version : Text) : List (Text → Bool) :=
  [word version, word ",loaderFilename:".toList, filled, word ",wasmFilename:".toList, filled,
    word ",lastRelease:".toList, filled]

/-- `result.replace(entry, ...)`, if there is an entry.  There are two groups, so `$1` is the first
one also where the release goes on with a digit. -/
def setRelease (version lastRelease result : Text) : Option Text :=
  putFirst '"' (word entryWord :: entryTail version) 7 lastRelease result

/-- What is thrown when there is no entry. -/
def noEntry (version : Text) : Text :=
  "@php-wasm/compile-extension's cli.js has no PHP ".toList ++ version ++
    (" entry in its version table -- the installed package was likely upgraded; " ++
      "re-verify this patch against its new source.").toList

/-- `syncLastReleases`, for the versions that are left. -/
def syncLastReleases : List PhpVersion → Text → Except Text Text
  | [], result => .ok result
  | v :: versions, result =>
    match setRelease v.version v.lastRelease result with
    | some result => syncLastReleases versions result
    | none => .error (noEntry v.version)

/-! ## The patch -/

/-- `OLD_NAME` -/
def oldName : Text := "playground-php-wasm".toList

/-- `NEW_NAME` -/
def newName : Text := "kirigami-compile-extension".toList

/-- What is thrown when neither name is there. -/
def noName (cliPath : Text) : Text :=
  "@php-wasm/compile-extension's cli.js (".toList ++ cliPath ++
    (") no longer contains \"playground-php-wasm\" — the installed package was likely upgraded " ++
      "and this patch (CLAUDE.md decision 45) needs to be re-verified against its new source " ++
      "before relying on it again.").toList

/-- The text with the new name, if it has a name. -/
def rename (contents : Text) : Option Text :=
  if newName <:+: contents then some contents
  else if oldName <:+: contents then
    some (Scan.replace (.lit 'p' "layground-php-wasm".toList) newName contents)
  else none

/-- `patchCompileExtensionTags`: what is written, if anything is. -/
def patchCompileExtensionTags (cliPath : Text) (supported : SupportedVersions) (contents : Text) :
    Except Text (Option Text) :=
  match rename contents with
  | none => .error (noName cliPath)
  | some renamed =>
    (syncLastReleases supported.phpVersions renamed).map fun patched =>
      if patched = contents then none else some patched

/-- What the file is then. -/
def patchedFile (cliPath : Text) (supported : SupportedVersions) (contents : Text) : Text :=
  match patchCompileExtensionTags cliPath supported contents with
  | .ok (some patched) => patched
  | _ => contents

/-- What happens to the file. -/
inductive CliEvent
  | installed (contents : Text)
  | patched (supported : SupportedVersions)

/-- One event. -/
def cliStep (cliPath : Text) (contents : Text) : CliEvent → Text
  | .installed contents => contents
  | .patched supported => patchedFile cliPath supported contents

/-! ## What is right -/

/-- A text between its quotes. -/
def segments (contents : Text) : List Text := contents.splitOn '"'

/-- There is an entry of a version. -/
def EntryAt (version : Text) (L : List Text) (i : ℕ) : Prop :=
  Entry entryWord (entryTail version) L i

/-- The first one. -/
abbrev FirstAt (version : Text) (L : List Text) (i : ℕ) : Prop :=
  FirstEntry entryWord (entryTail version) L i

/-- The release of the first entry of a version. -/
def Release (version contents r : Text) : Prop :=
  ∃ i, FirstAt version (segments contents) i ∧ (segments contents)[i + 7]? = some r

/-- The releases of the table are numbers with dots. -/
def PlainTable (contents : Text) : Prop :=
  ∀ version i r, IsMinor version → EntryAt version (segments contents) i →
    (segments contents)[i + 7]? = some r → OnlyNumbers r

/-- Whatever has its name has such a table. -/
def Tabled (contents : Text) : Prop := ∀ renamed ∈ rename contents, PlainTable renamed

/-- **A patch is right.** -/
structure PatchRight (cliPath : Text) (supported : SupportedVersions) (contents : Text) : Prop where
  /-- It is refused only where the package is not the one that is known. -/
  refused : ∀ m, patchCompileExtensionTags cliPath supported contents = .error m →
    rename contents = none ∧ m = noName cliPath ∨
      ∃ renamed ∈ rename contents, ∃ v ∈ supported.phpVersions, m = noEntry v.version ∧
        ∀ r, ¬ Release v.version renamed r
  /-- Otherwise there was an entry for each version, and now it has the release. -/
  released : ∀ p, patchCompileExtensionTags cliPath supported contents = .ok p →
    ∃ renamed ∈ rename contents, ∀ v ∈ supported.phpVersions,
      (∃ r, Release v.version renamed r) ∧
        Release v.version (patchedFile cliPath supported contents) v.lastRelease
  /-- The other versions keep theirs. -/
  others : ∀ p, patchCompileExtensionTags cliPath supported contents = .ok p →
    ∃ renamed ∈ rename contents, ∀ version, IsMinor version →
      version ∉ supported.phpVersions.map PhpVersion.version →
        ∀ r, Release version (patchedFile cliPath supported contents) r ↔ Release version renamed r
  /-- Everything but the releases is the renamed text. -/
  rest : ∀ p, patchCompileExtensionTags cliPath supported contents = .ok p →
    ∃ renamed ∈ rename contents, ∀ n,
      (∀ v ∈ supported.phpVersions, ∀ i, FirstAt v.version (segments renamed) i → n ≠ i + 7) →
        (segments (patchedFile cliPath supported contents))[n]? = (segments renamed)[n]?
  /-- The images have the new name. -/
  named : ∀ p, patchCompileExtensionTags cliPath supported contents = .ok p →
    newName <:+: patchedFile cliPath supported contents
  /-- To patch once more changes nothing. -/
  again : ∀ p, patchCompileExtensionTags cliPath supported contents = .ok p →
    patchCompileExtensionTags cliPath supported (patchedFile cliPath supported contents) = .ok none

/-- What is installed has a table of releases. -/
def CliEvent.Known : CliEvent → Prop
  | .installed contents => Tabled contents
  | .patched _ => True

/-! ## Entries -/

section Entries

variable {v v' w r new : Text} {L : List Text} {i j k : ℕ}

theorem IsMinor.onlyNumbers (h : IsMinor v) : OnlyNumbers v := by
  obtain ⟨major, minor, rfl, hdigits⟩ := h
  intro c hc
  rcases List.mem_append.1 hc with hc | hc
  · exact .inl (hdigits c (List.mem_append_left _ hc))
  · rcases List.mem_cons.1 hc with rfl | hc
    · exact .inr rfl
    · exact .inl (hdigits c (List.mem_append_right _ hc))

/-- Numbers do not hold a word with another character. -/
theorem OnlyNumbers.not_infix (h : OnlyNumbers r) {c : Char} (hc : c ∈ w)
    (hother : ¬ (c.isDigit = true ∨ c = '.')) : ¬ w <:+: r :=
  fun hw => hother (h c (hw.subset hc))

theorem OnlyNumbers.ne (h : OnlyNumbers r) {c : Char} (hc : c ∈ w)
    (hother : ¬ (c.isDigit = true ∨ c = '.')) : r ≠ w := by
  rintro rfl
  exact h.not_infix hc hother (List.infix_refl r)

theorem OnlyNumbers.quote (h : OnlyNumbers r) : '"' ∉ r :=
  fun hmem => absurd (h _ hmem) (by decide)

/-- A segment that has to be a word. -/
theorem EntryAt.word (h : EntryAt v L i) (k : ℕ)
    (hk : (entryTail v)[k]? = some (ExtensionTags.word w)) : L[i + (k + 1)]? = some w := by
  obtain ⟨t, ht, htest⟩ := h.fits (k + 1) _ hk
  rw [ht, of_decide_eq_true htest]

theorem EntryAt.begins (h : EntryAt v L i) : ∃ t, L[i]? = some t ∧ entryWord <:+ t := by
  obtain ⟨t, ht, htest⟩ := h.fits 0 _ rfl
  exact ⟨t, ht, of_decide_eq_true htest⟩

/-- The release of an entry. -/
theorem EntryAt.release (h : EntryAt v L i) : ∃ r, L[i + 7]? = some r ∧ r ≠ [] := by
  obtain ⟨r, hr, htest⟩ := h.fits 7 filled rfl
  exact ⟨r, hr, of_decide_eq_true htest⟩

/-- An entry begins only with its word. -/
theorem EntryAt.not_begins (h : EntryAt v L i) {t : Text} (ht : L[i]? = some t)
    (hword : ¬ entryWord <:+ t) : False := by
  obtain ⟨t', ht', hsuffix⟩ := h.begins
  obtain rfl := Option.some.inj (ht.symm.trans ht')
  exact hword hsuffix

/-- **No entry begins inside of another one.** -/
theorem EntryAt.apart (hj : EntryAt v L j) (hi : EntryAt v' L i) (hv : OnlyNumbers v)
    (hv' : OnlyNumbers v') (hr : L[j + 7]? = some r) (hnumbers : OnlyNumbers r) :
    i ≤ j ∨ j + 7 < i := by
  have hbrace : ∀ {t : Text}, OnlyNumbers t → ¬ entryWord <:+ t := fun ht hsuffix =>
    ht.not_infix (c := '\x7b') (by decide) (by decide) hsuffix.isInfix
  have hcomma : ∀ {t : Text}, ',' ∈ t → v' ≠ t := fun hmem => hv'.ne hmem (by decide)
  have hversion : L[j + 1]? = some v := hj.word 0 rfl
  have hloader : L[j + 2]? = some ",loaderFilename:".toList := hj.word 1 rfl
  have hwasm : L[j + 4]? = some ",wasmFilename:".toList := hj.word 3 rfl
  have hlast : L[j + 6]? = some ",lastRelease:".toList := hj.word 5 rfl
  have hversion' : L[i + 1]? = some v' := hi.word 0 rfl
  have hloader' : L[i + 2]? = some ",loaderFilename:".toList := hi.word 1 rfl
  by_contra hinside
  -- one segment after the other
  have hcases : i = j + 1 ∨ i = j + 2 ∨ i = j + 3 ∨ i = j + 4 ∨ i = j + 5 ∨ i = j + 6 ∨
      i = j + 7 := by omega
  rcases hcases with rfl | rfl | rfl | rfl | rfl | rfl | rfl
  · exact hi.not_begins hversion (hbrace hv)
  · exact hi.not_begins hloader (by decide)
  · exact hcomma (by decide) (Option.some.inj (hversion'.symm.trans hwasm))
  · exact absurd (Option.some.inj (hloader'.symm.trans hlast)) (by decide)
  · exact hcomma (by decide) (Option.some.inj (hversion'.symm.trans hlast))
  · exact hi.not_begins hlast (by decide)
  · exact hi.not_begins hr (hbrace hnumbers)

/-- The entries are still there. -/
theorem EntryAt.set (hj : EntryAt v L j) (hi : EntryAt v' L i) (hv : OnlyNumbers v)
    (hv' : OnlyNumbers v') (hr : L[j + 7]? = some r) (hnumbers : OnlyNumbers r) (hnew : new ≠ []) :
    EntryAt v' (L.set (j + 7) new) i := by
  refine RowAt.set hi (j + 7) new fun k test hk hjk => ?_
  have hlt : k < 8 := (List.getElem?_eq_some_iff.1 hk).1
  have hapart := hj.apart hi hv hv' hr hnumbers
  obtain rfl : k = 7 := by omega
  obtain rfl := Option.some.inj hk
  exact decide_eq_true hnew

/-- **A new release leaves the entries where they are.** -/
theorem entryAt_set (hj : EntryAt v L j) (hv : OnlyNumbers v) (hv' : OnlyNumbers v')
    (hr : L[j + 7]? = some r) (hnumbers : OnlyNumbers r) (hnew : new ≠ [])
    (hnewNumbers : OnlyNumbers new) : EntryAt v' (L.set (j + 7) new) i ↔ EntryAt v' L i := by
  refine ⟨fun h => ?_, fun h => hj.set h hv hv' hr hnumbers hnew⟩
  obtain ⟨hlt, hget⟩ := List.getElem?_eq_some_iff.1 hr
  have hne : r ≠ [] := by
    obtain ⟨r', hr', hne⟩ := hj.release
    exact Option.some.inj (hr.symm.trans hr') ▸ hne
  have hback := (hj.set hj hv hv hr hnumbers hnew).set h hv hv'
    (List.getElem?_set_self hlt) hnewNumbers hne
  rwa [List.set_set, ← hget, List.set_getElem_self] at hback

end Entries

/-! ## One release -/

section OneRelease

variable {v new r s s' : Text}

/-- What a replacement does. -/
structure SetRight (v new s s' : Text) : Prop where
  numbers : PlainTable s'
  entry : ∃ r, Release v s r
  release : Release v s' new
  others : ∀ v', IsMinor v' → v' ≠ v → ∀ r, Release v' s' r ↔ Release v' s r
  entries : ∀ v', IsMinor v' → ∀ j, FirstAt v' (segments s') j ↔ FirstAt v' (segments s) j
  rest : ∀ n, (∀ i, FirstAt v (segments s) i → n ≠ i + 7) → (segments s')[n]? = (segments s)[n]?
  name : newName <:+: s → newName <:+: s'

/-- What a replacement does to the segments. -/
theorem segments_setRelease (hnumbers : OnlyNumbers new) (h : setRelease v new s = some s') :
    ∃ i, FirstAt v (segments s) i ∧ segments s' = (segments s).set (i + 7) new :=
  Segments.putFirst_segments (by decide) hnumbers.quote (Nat.lt_succ_self 6) h

/-- Without an entry, nothing is replaced. -/
theorem not_release_of_none (h : setRelease v new s = none) (r : Text) : ¬ Release v s r := by
  rintro ⟨i, hfirst, -⟩
  exact Segments.putFirst_none (by decide) h i hfirst.entry

/-- The name is not in a release. -/
theorem name_set {L : List Text} {n : ℕ} (hr : L[n]? = some r) (hnumbers : OnlyNumbers r)
    (h : ∃ t ∈ L, newName <:+: t) : ∃ t ∈ L.set n new, newName <:+: t := by
  obtain ⟨t, ht, hname⟩ := h
  obtain ⟨m, hm⟩ := List.getElem?_of_mem ht
  have hne : n ≠ m := by
    rintro rfl
    obtain rfl := Option.some.inj (hr.symm.trans hm)
    exact hnumbers.not_infix (c := 'k') (by decide) (by decide) hname
  exact ⟨t, List.mem_of_getElem? ((List.getElem?_set_ne hne).trans hm), hname⟩

/-- **One release is set.** -/
theorem setRelease_right (hs : PlainTable s) (hv : IsMinor v) (hne : new ≠ [])
    (hnumbers : OnlyNumbers new) (h : setRelease v new s = some s') : SetRight v new s s' := by
  obtain ⟨i, hfirst, hset⟩ := segments_setRelease hnumbers h
  have hentry : EntryAt v (segments s) i := hfirst.entry
  obtain ⟨r, hr, -⟩ := hentry.release
  have hold : OnlyNumbers r := hs v i r hv hentry hr
  have hentries : ∀ v', IsMinor v' → ∀ j,
      EntryAt v' (segments s') j ↔ EntryAt v' (segments s) j := fun v' hv' j => by
    rw [hset]
    exact entryAt_set hentry hv.onlyNumbers hv'.onlyNumbers hr hold hne hnumbers
  have hfirsts : ∀ v', IsMinor v' → ∀ j,
      FirstAt v' (segments s') j ↔ FirstAt v' (segments s) j := fun v' hv' _ =>
    Segments.firstEntry_congr (hentries v' hv')
  have hself : (segments s')[i + 7]? = some new := by
    rw [hset, List.getElem?_set_self (List.getElem?_eq_some_iff.1 hr).1]
  have hother : ∀ n, n ≠ i + 7 → (segments s')[n]? = (segments s)[n]? := fun n hn => by
    rw [hset, List.getElem?_set_ne hn.symm]
  refine ⟨fun v' j r' hv' hj hr' => ?_, ⟨r, i, hfirst, hr⟩,
    ⟨i, (hfirsts v hv i).2 hfirst, hself⟩, fun v' hv' hvv' r' => ?_, hfirsts,
    fun n hn => hother n (hn i hfirst), fun hname => ?_⟩
  · by_cases hji : j = i
    · obtain rfl := Option.some.inj ((hji ▸ hself).symm.trans hr')
      exact hnumbers
    · rw [hother (j + 7) (by omega)] at hr'
      exact hs v' j r' hv' ((hentries v' hv' j).1 hj) hr'
  · refine exists_congr fun j => ?_
    rw [hfirsts v' hv' j]
    refine and_congr_right fun hj => ?_
    have hji : j ≠ i := by
      rintro rfl
      have hword : (segments s)[j + 1]? = some v' := EntryAt.word hj.entry 0 rfl
      exact hvv' (Option.some.inj (hword.symm.trans (hentry.word 0 rfl)))
    rw [hother (j + 7) (by omega)]
  · rw [Segments.infix_iff_mem_splitOn (q := '"') (by decide)] at hname ⊢
    exact (congrArg (∃ t ∈ ·, newName <:+: t) hset).mpr (name_set hr hold hname)

/-- A release that is there already. -/
theorem setRelease_self (h : Release v s new) (hnumbers : OnlyNumbers new) :
    setRelease v new s = some s := by
  obtain ⟨i, hfirst, hnew⟩ := h
  cases hset : setRelease v new s with
  | none => exact absurd ⟨i, hfirst, hnew⟩ (not_release_of_none hset new)
  | some s' =>
    obtain ⟨j, hfirst', hsegments⟩ := segments_setRelease hnumbers hset
    obtain rfl := hfirst.unique hfirst'
    obtain ⟨hlt, hget⟩ := List.getElem?_eq_some_iff.1 hnew
    rw [← hget, List.set_getElem_self] at hsegments
    rw [Segments.splitOn_injective hsegments]

end OneRelease

/-! ## All of them -/

section AllReleases

variable {s s' : Text} {vs : List PhpVersion}

/-- What the loop does. -/
structure SyncRight (vs : List PhpVersion) (s s' : Text) : Prop where
  numbers : PlainTable s'
  entries : ∀ v ∈ vs, ∃ r, Release v.version s r
  releases : ∀ v ∈ vs, Release v.version s' v.lastRelease
  others : ∀ version, IsMinor version → version ∉ vs.map PhpVersion.version →
    ∀ r, Release version s' r ↔ Release version s r
  rest : ∀ n, (∀ v ∈ vs, ∀ i, FirstAt v.version (segments s) i → n ≠ i + 7) →
    (segments s')[n]? = (segments s)[n]?
  name : newName <:+: s → newName <:+: s'

/-- **The loop over the versions.** -/
theorem syncLastReleases_right (hs : PlainTable s) (hvs : Supported vs) :
    (∀ s', syncLastReleases vs s = .ok s' → SyncRight vs s s') ∧
      ∀ m, syncLastReleases vs s = .error m →
        ∃ v ∈ vs, m = noEntry v.version ∧ ∀ r, ¬ Release v.version s r := by
  induction vs generalizing s with
  | nil =>
    refine ⟨fun s' h => ?_, nofun⟩
    obtain rfl := Except.ok.inj h
    exact ⟨hs, nofun, nofun, fun _ _ _ _ => Iff.rfl, fun _ _ => rfl, id⟩
  | cons v vs ih =>
    obtain ⟨hv, hminor⟩ := List.forall_mem_cons.1 hvs.minor
    obtain ⟨⟨hne, hnumbers⟩, hrelease⟩ := List.forall_mem_cons.1 hvs.release
    obtain ⟨hnot, hdistinct⟩ := List.nodup_cons.1 hvs.distinct
    rw [syncLastReleases]
    split
    · rename_i s₁ hset
      have hone := setRelease_right hs hv hne hnumbers hset
      obtain ⟨hok, herror⟩ := ih hone.numbers ⟨hminor, hrelease, hdistinct⟩
      -- the others have the releases that they had
      have hback : ∀ v' ∈ vs, ∀ r, Release v'.version s₁ r ↔ Release v'.version s r :=
        fun v' hv' => hone.others _ (hminor v' hv') fun heq =>
          hnot (heq ▸ List.mem_map_of_mem hv')
      refine ⟨fun s' h => ?_, fun m h => ?_⟩
      · have hall := hok s' h
        refine ⟨hall.numbers, ?_, ?_, fun version hversion hmem r => ?_, fun n hn => ?_,
          fun hname => hall.name (hone.name hname)⟩
        · refine List.forall_mem_cons.2 ⟨hone.entry, fun v' hv' => ?_⟩
          obtain ⟨r, hr⟩ := hall.entries v' hv'
          exact ⟨r, (hback v' hv' r).1 hr⟩
        · exact List.forall_mem_cons.2 ⟨(hall.others _ hv hnot _).2 hone.release, hall.releases⟩
        · rw [List.map_cons, List.mem_cons, not_or] at hmem
          rw [hall.others version hversion hmem.2 r, hone.others version hversion hmem.1 r]
        · obtain ⟨hfirst, hrest⟩ := List.forall_mem_cons.1 hn
          rw [hall.rest n fun v' hv' i hi => ?_, hone.rest n hfirst]
          exact hrest v' hv' i ((hone.entries _ (hminor v' hv') i).1 hi)
      · obtain ⟨v', hv', hm, hnone⟩ := herror m h
        exact ⟨v', List.mem_cons_of_mem _ hv', hm, fun r => mt (hback v' hv' r).2 (hnone r)⟩
    · rename_i hnone
      refine ⟨nofun, fun m h => ⟨v, List.mem_cons_self, ?_, not_release_of_none hnone⟩⟩
      exact (Except.error.inj h).symm

/-- Where all releases are there already, the loop changes nothing. -/
theorem syncLastReleases_self (h : ∀ v ∈ vs, Release v.version s v.lastRelease)
    (hvs : Supported vs) : syncLastReleases vs s = .ok s := by
  induction vs with
  | nil => rfl
  | cons v vs ih =>
    obtain ⟨hv, hrest⟩ := List.forall_mem_cons.1 h
    obtain ⟨⟨-, hnumbers⟩, hrelease⟩ := List.forall_mem_cons.1 hvs.release
    rw [syncLastReleases, setRelease_self hv hnumbers]
    exact ih hrest ⟨(List.forall_mem_cons.1 hvs.minor).2, hrelease,
      (List.nodup_cons.1 hvs.distinct).2⟩

end AllReleases

/-! ## The patch of the file -/

section Patch

variable {cliPath contents renamed : Text} {supported : SupportedVersions} {p : Option Text}

theorem rename_of_name (h : newName <:+: contents) : rename contents = some contents := by
  rw [rename, if_pos h]

/-- The text that is renamed has the new name. -/
theorem name_rename (h : rename contents = some renamed) : newName <:+: renamed := by
  rw [rename] at h
  split at h
  · rename_i hname
    exact Option.some.inj h ▸ hname
  split at h
  · rename_i hname
    exact Option.some.inj h ▸ Scan.infix_replace hname
  · cases h

/-- **What is written** is what the loop makes of the renamed text. -/
theorem patch_ok (hs : Tabled contents)
    (h : patchCompileExtensionTags cliPath supported contents = .ok p) :
    ∃ renamed, rename contents = some renamed ∧ newName <:+: renamed ∧
      SyncRight supported.phpVersions renamed (patchedFile cliPath supported contents) := by
  cases hname : rename contents with
  | none =>
    rw [patchCompileExtensionTags, hname] at h
    cases h
  | some renamed =>
    cases hsync : syncLastReleases supported.phpVersions renamed with
    | error m =>
      rw [patchCompileExtensionTags, hname] at h
      dsimp only at h
      rw [hsync] at h
      cases h
    | ok patched =>
      have hfile : patchedFile cliPath supported contents = patched := by
        rw [patchedFile, patchCompileExtensionTags, hname]
        dsimp only
        rw [hsync, Except.map]
        by_cases hsame : patched = contents
        · rw [if_pos hsame, hsame]
        · rw [if_neg hsame]
      refine ⟨renamed, rfl, name_rename hname, ?_⟩
      rw [hfile]
      exact (syncLastReleases_right (hs renamed hname) supported.supported).1 patched hsync

/-- What was patched has its name, and its table. -/
theorem patch_again (hs : Tabled contents)
    (h : patchCompileExtensionTags cliPath supported contents = .ok p) :
    Tabled (patchedFile cliPath supported contents) ∧
      patchCompileExtensionTags cliPath supported (patchedFile cliPath supported contents) =
        .ok none := by
  obtain ⟨renamed, -, hname, hsync⟩ := patch_ok hs h
  have hrename := rename_of_name (hsync.name hname)
  refine ⟨fun renamed' hrenamed' => ?_, ?_⟩
  · obtain rfl := Option.some.inj (hrename.symm.trans hrenamed')
    exact hsync.numbers
  · rw [patchCompileExtensionTags, hrename]
    dsimp only
    rw [syncLastReleases_self hsync.releases supported.supported, Except.map, if_pos rfl]

/-- **One patch.** -/
theorem patchRight (hs : Tabled contents) (cliPath : Text) (supported : SupportedVersions) :
    PatchRight cliPath supported contents where
  refused m h := by
    rw [patchCompileExtensionTags] at h
    split at h
    · rename_i hname
      exact .inl ⟨hname, (Except.error.inj h).symm⟩
    · rename_i renamed hname
      refine .inr ⟨renamed, hname, ?_⟩
      cases hsync : syncLastReleases supported.phpVersions renamed with
      | ok patched =>
        rw [hsync] at h
        cases h
      | error m' =>
        rw [hsync] at h
        obtain rfl := Except.error.inj h
        exact (syncLastReleases_right (hs renamed hname) supported.supported).2 m' hsync
  released p h := by
    obtain ⟨renamed, hname, -, hsync⟩ := patch_ok hs h
    exact ⟨renamed, hname, fun v hv => ⟨hsync.entries v hv, hsync.releases v hv⟩⟩
  others p h := by
    obtain ⟨renamed, hname, -, hsync⟩ := patch_ok hs h
    exact ⟨renamed, hname, hsync.others⟩
  rest p h := by
    obtain ⟨renamed, hname, -, hsync⟩ := patch_ok hs h
    exact ⟨renamed, hname, hsync.rest⟩
  named p h := by
    obtain ⟨renamed, -, hname, hsync⟩ := patch_ok hs h
    exact hsync.name hname
  again p h := (patch_again hs h).2

/-- The table stays one of releases. -/
theorem tabled_step (hs : Tabled contents) (e : CliEvent) (he : e.Known) :
    Tabled (cliStep cliPath contents e) := by
  cases e with
  | installed contents => exact he
  | patched supported =>
    rw [cliStep]
    cases h : patchCompileExtensionTags cliPath supported contents with
    | error m =>
      rw [patchedFile, h]
      exact hs
    | ok p => exact (patch_again hs h).1

/-- **Patches are right**, after any installations and patches with any supported versions. -/
theorem patchesRight (cliPath : Text) {contents : Text} (hs : CliEvent.Known (.installed contents))
    {es : List CliEvent} (hes : Along (cliStep cliPath) (fun _ e => e.Known) contents es)
    (supported : SupportedVersions) :
    PatchRight cliPath supported (run (cliStep cliPath) contents es) :=
  patchRight (run_inv (I := Tabled) (fun _ e h he => tabled_step h e he) hs hes) cliPath supported

/-- A package with one version is patched, and installed again. -/
theorem patchesRight_one :
    let contents := ("playground-php-wasm:\x7bversion:\"8.5\",loaderFilename:\"a\"," ++
      "wasmFilename:\"b\",lastRelease:\"8.5.10\"").toList
    let supported : SupportedVersions :=
      ⟨[⟨"8.5".toList, [], [], "8.5.11".toList⟩],
        List.forall_mem_singleton.2 ⟨['8'], ['5'], rfl, Scan.forall_mem_of_all (by decide)⟩,
        List.forall_mem_singleton.2 ⟨by decide, Scan.forall_mem_of_all (by decide)⟩, by decide⟩
    PatchRight "cli.js".toList supported
      (run (cliStep "cli.js".toList) contents [.patched supported, .installed contents]) := by
  intro contents supported
  have hknown : CliEvent.Known (.installed contents) := by
    intro renamed hrenamed version i r _ hentry hr
    have hsegments : (rename contents).map segments = some
        ["kirigami-compile-extension:\x7bversion:".toList, "8.5".toList,
          ",loaderFilename:".toList, "a".toList, ",wasmFilename:".toList, "b".toList,
          ",lastRelease:".toList, "8.5.10".toList, []] := by decide +kernel
    rw [hrenamed, Option.map_some] at hsegments
    rw [Option.some.inj hsegments] at hentry hr
    have hbehind : i + 8 < 9 := hentry.behind
    obtain rfl : i = 0 := by omega
    obtain rfl := Option.some.inj hr
    exact Scan.forall_mem_of_all (by decide)
  refine patchesRight "cli.js".toList hknown ?_ supported
  exact ⟨trivial, hknown, trivial⟩

end Patch

end PhpWasm.Build.ExtensionTags
