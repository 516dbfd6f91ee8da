import Mathlib.Data.List.Lex
import Mathlib.Data.List.Sort
import PhpWasm.Base.Scan
import PhpWasm.Base.Utf16
import PhpWasm.Build.Config

/-!
# Vendored extensions and their PHP tag

The extensions that are part of php-src are vendored from a tag of it, which their `PROVENANCE.md`
names.  `checkVendoredExtensions` compares their files in that tag with the files in the tag the
core is built from, and `bumpVendoredPhpTags` rewrites the tag where that is said to be safe.

* `parseVendoredTag` and `parseVendoredFiles` read the tag and the files out of the prose.
* `checkExtension` is the comparison, against any outcome of the fetches.
* `bumpFile` replaces every tag in a file.
* `bumpsRight`: a file is only rewritten when its extension is at the target tag already or all its
  files are the same there, and then each of its tags is replaced and nothing else.
-/

set_option autoImplicit false

namespace PhpWasm.Vendored

open PhpWasm.Build (isJsSpace)

/-- A text, or a name. -/
abbrev Text := List Char

instance decidableMemText (x : Text) (l : List Text) : Decidable (x ∈ l) :=
  List.instDecidableMemOfLawfulBEq x l

/-! ## What is found in the prose -/

section Patterns

open Scan Pattern

/-- `\d` -/
def isDigit (c : Char) : Bool := '0' ≤ c && c ≤ '9'

/-- A word as a pattern. -/
def word (c : Char) (w : String) : Pattern Char := lit c w.toList

/-- `PHP-\d+\.\d+\.\d+` -/
def tagPattern : Pattern Char :=
  word 'P' "HP-" |>.seq (plus isDigit) |>.seq (word '.' "") |>.seq (plus isDigit)
    |>.seq (word '.' "") |>.seq (plus isDigit)

/-- A backquote. -/
def backquote : Char := Char.ofNat 96

/-- The tag in backquotes, before the word "tag". -/
def vendoredPattern : Pattern Char :=
  lit backquote [] |>.seq tagPattern |>.seq (lit backquote []) |>.seq (plus isJsSpace)
    |>.seq (word 't' "ag")

/-- A name in backquotes. -/
def quotedPattern : Pattern Char :=
  lit backquote [] |>.seq (plus (· ≠ backquote)) |>.seq (lit backquote [])

/-- What comes after the list of files. -/
def endPattern : Pattern Char := plus isJsSpace |>.seq (word 'f' "rom the matching PHP tag")

end Patterns

/-- `PHP-X.Y.Z` -/
def IsTag (t : Text) : Prop := tagPattern.run t = some (t, [])

instance (t : Text) : Decidable (IsTag t) := inferInstanceAs (Decidable (_ = _))

/-- A tag. -/
abbrev Tag := {t : Text // IsTag t}

/-- `parseVendoredTag` -/
def parseVendoredTag (provenanceText : Text) : Option Text :=
  (Scan.found vendoredPattern provenanceText).head?.bind fun t =>
    (tagPattern.run (t.drop 1)).map Prod.fst

/-- `([\s\S]+?)`, up to where the list of files ends. -/
def lazyUntil (e : Text → Bool) : Text → Option Text
  | [] => none
  | c :: s => if e s then some [c] else (lazyUntil e s).map (c :: ·)

/-- The list of files, where the text begins with it.  The blanks before it are taken whole: with
fewer of them there is only a list without names to be found. -/
def regenerating (s : Text) : Option Text :=
  (Scan.strip "Regenerating:".toList s).bind fun s =>
    (Scan.strip "re-download".toList (s.dropWhile isJsSpace)).bind fun s =>
      if s.takeWhile isJsSpace = [] then none
      else lazyUntil (fun s => (endPattern.run s).isSome) (s.dropWhile isJsSpace)

/-- `parseVendoredFiles` -/
def parseVendoredFiles (provenanceText : Text) : Option (List Text) :=
  (provenanceText.tails.findSome? regenerating).bind fun group =>
    let filenames := (Scan.found quotedPattern group).map fun t => (t.drop 1).dropLast
    if filenames = [] then none else some filenames

/-! ## The extensions -/

/-- An entry of a directory. -/
inductive DirEntry
  | file (name : Text)
  | dir (name : Text) (entries : List DirEntry)

/-- `LOCAL_ONLY_FILES` -/
def localOnlyFiles : List Text := ["PROVENANCE.md".toList, "smoke-test.php".toList]

/-- `relPrefix ? relPrefix/name : name` -/
def joinPath (relPath name : Text) : Text :=
  if relPath = [] then name else relPath ++ '/' :: name

mutual

/-- One turn of the loop in `walk`. -/
def walkEntry (relPath : Text) : DirEntry → List Text
  | .file name => if name ∈ localOnlyFiles then [] else [joinPath relPath name]
  | .dir name entries =>
    if name ∈ localOnlyFiles ∨ name = "vendor".toList ∨ name = "tests".toList then []
    else walk (joinPath relPath name) entries

/-- `walk` of `listLocalFiles` -/
def walk (relPath : Text) : List DirEntry → List Text
  | [] => []
  | e :: es => walkEntry relPath e ++ walk relPath es

end

/-- A vendored extension: its directory, its `PROVENANCE.md` and the README of its package, where
they can be read. -/
structure Extension where
  name : Text
  entries : List DirEntry
  provenance : Option Text
  readme : Option Text

namespace Extension

variable (extn : Extension)

/-- The tag it is vendored from. -/
def vendoredTag : Option Text := extn.provenance.bind parseVendoredTag

/-- `parseVendoredFiles(provenanceText) ?? listLocalFiles(extDir)` -/
def files : List Text := (extn.provenance.bind parseVendoredFiles).getD (walk [] extn.entries)

end Extension

/-! ## The check -/

/-- What `fetchPhpSrcFile` answers. -/
inductive Fetched
  | content (text : Text)
  /-- 404 -/
  | notFound
  /-- It throws. -/
  | failed (error : Text)
  deriving DecidableEq

/-- The answers for all tags, extensions and files. -/
abbrev Upstream := Text → Text → Text → Fetched

/-- What `checkExtension` finds. -/
inductive Status
  | noProvenance
  | unparseableProvenance
  | upToDate (vendoredTag : Text)
  | drift (vendoredTag : Text) (changedFiles notFoundFiles : List Text)
  | tagBumpOnly (vendoredTag : Text) (notFoundFiles : List Text)
  | error (error : Text)
  deriving DecidableEq

/-- The loop over the files: those that have changed and those that are in neither tag, and the
files that were fetched, each with its tag. -/
def checkFiles (fetch : Text → Text → Fetched) (vendoredTag targetTag : Text) :
    List Text → Except Text (List Text × List Text) × List (Text × Text)
  | [] => (.ok ([], []), [])
  | filename :: files =>
    let log := [(vendoredTag, filename), (targetTag, filename)]
    match fetch vendoredTag filename, fetch targetTag filename with
    | .failed e, _ => (.error e, log)
    | _, .failed e => (.error e, log)
    | old, new =>
      let rest := checkFiles fetch vendoredTag targetTag files
      let found := rest.1.map fun x =>
        if old = .notFound ∧ new = .notFound then (x.1, filename :: x.2)
        else if old ≠ new then (filename :: x.1, x.2)
        else x
      (found, log ++ rest.2)

/-- `checkExtension`, with what it fetches.  What it throws is a status too. -/
def checkExtension (upstream : Upstream) (targetTag : Text) (extn : Extension) :
    Status × List (Text × Text) :=
  match extn.provenance with
  | none => (.noProvenance, [])
  | some _ =>
    match extn.vendoredTag with
    | none => (.unparseableProvenance, [])
    | some vendoredTag =>
      if vendoredTag = targetTag then (.upToDate vendoredTag, [])
      else
        match checkFiles (upstream · extn.name ·) vendoredTag targetTag extn.files with
        | (.error e, log) => (.error e, log)
        | (.ok (changedFiles, notFoundFiles), log) =>
          if changedFiles ≠ [] then (.drift vendoredTag changedFiles notFoundFiles, log)
          else (.tagBumpOnly vendoredTag notFoundFiles, log)

/-- The order of names, by their code units. -/
def Extension.Before (extn extn' : Extension) : Prop :=
  Utf16.encode extn.name ≤ Utf16.encode extn'.name

instance : DecidableRel Extension.Before := fun extn extn' =>
  inferInstanceAs (Decidable (Utf16.encode extn.name ≤ Utf16.encode extn'.name))

/-- An extension that was checked: what was found, and what was fetched. -/
structure Result where
  extn : Extension
  status : Status
  fetched : List (Text × Text)

/-- `status === 'drift'` -/
def Status.isDrift : Status → Bool
  | drift _ _ _ => true
  | _ => false

/-- `results` of `checkVendoredExtensions` -/
def checkResults (upstream : Upstream) (targetTag : Text) (only : Option (List Text))
    (exts : List Extension) : List Result :=
  let toCheck := exts.filter fun extn => only.elim true (extn.name ∈ ·)
  (toCheck.insertionSort Extension.Before).map fun extn =>
    let x := checkExtension upstream targetTag extn
    ⟨extn, x.1, x.2⟩

/-- `checkVendoredExtensions` -/
def checkVendoredExtensions (upstream : Upstream) (targetTag : Text) (only : Option (List Text))
    (exts : List Extension) : Bool × List Result :=
  let results := checkResults upstream targetTag only exts
  (results.any fun r => r.status.isDrift, results)

/-! ## The rewriting -/

/-- `bumpFile` -/
def bumpFile (text : Option Text) (targetTag : Text) : Option (Text × List Text) :=
  text.bind fun text =>
    let foundTags := (Scan.found tagPattern text).eraseDups
    if foundTags = [] then none
    else if foundTags = [targetTag] then none
    else some (Scan.replace tagPattern targetTag text, foundTags)

/-- The files that are rewritten. -/
inductive FileName
  | provenance
  | readme
  deriving DecidableEq

/-- `status === 'tag-bump-only' || status === 'up-to-date'` -/
def Status.isSafe : Status → Bool
  | tagBumpOnly _ _ => true
  | upToDate _ => true
  | _ => false

/-- What is in a file after the bump. -/
def written (write : Bool) (text : Option Text) (bump : Option (Text × List Text)) :
    Option Text :=
  if write then (bump.map Prod.fst).or text else text

/-- The loop over the files of an extension: what they are afterwards, and which are bumped. -/
def bumpExtension (targetTag : Text) (write : Bool) (extn : Extension) :
    Extension × List FileName :=
  let provenance := bumpFile extn.provenance targetTag
  let readme := bumpFile extn.readme targetTag
  ({ extn with
      provenance := written write extn.provenance provenance
      readme := written write extn.readme readme },
    (if provenance.isSome then [.provenance] else []) ++ if readme.isSome then [.readme] else [])

/-- What `bumpVendoredPhpTags` does and returns. -/
structure Bumped where
  /-- The extensions before and after. -/
  files : List (Extension × Extension)
  bumped : List (Text × List FileName)
  skippedDrift : List Text
  hasDrift : Bool

/-- `bumpVendoredPhpTags` -/
def bumpVendoredPhpTags (upstream : Upstream) (targetTag : Tag) (write : Bool)
    (exts : List Extension) : Bumped :=
  let (hasDrift, results) := checkVendoredExtensions upstream targetTag none exts
  let bump := fun r : Result =>
    if r.status.isSafe then bumpExtension targetTag write r.extn else (r.extn, [])
  { files := results.map fun r => (r.extn, (bump r).1)
    bumped := results.filterMap fun r =>
      if (bump r).2 ≠ [] then some (r.extn.name, (bump r).2) else none
    skippedDrift := (results.filter fun r => r.status.isDrift).map fun r => r.extn.name
    hasDrift := hasDrift }

/-! ## What the check finds -/

/-- A fetch that throws. -/
def Fetched.Fails : Fetched → Prop
  | failed _ => True
  | _ => False

section Files

variable {fetch : Text → Text → Fetched} {vendoredTag targetTag filename : Text}
  {files : List Text}

/-- **A turn of the loop** in which nothing is thrown. -/
theorem checkFiles_cons (hold : ¬ (fetch vendoredTag filename).Fails)
    (hnew : ¬ (fetch targetTag filename).Fails) :
    checkFiles fetch vendoredTag targetTag (filename :: files) =
      ((checkFiles fetch vendoredTag targetTag files).1.map fun x =>
          if fetch vendoredTag filename = .notFound ∧ fetch targetTag filename = .notFound then
            (x.1, filename :: x.2)
          else if fetch vendoredTag filename ≠ fetch targetTag filename then (filename :: x.1, x.2)
          else x,
        [(vendoredTag, filename), (targetTag, filename)] ++
          (checkFiles fetch vendoredTag targetTag files).2) := by
  rw [checkFiles]
  dsimp only
  split
  · rename_i e h
    exact absurd (by rw [h]; trivial) hold
  · rename_i e h _
    exact absurd (by rw [h]; trivial) hnew
  · rfl

/-- A turn in which something is thrown. -/
theorem checkFiles_cons_error
    (h : (fetch vendoredTag filename).Fails ∨ (fetch targetTag filename).Fails) :
    ∃ e, (checkFiles fetch vendoredTag targetTag (filename :: files)).1 = .error e := by
  rw [checkFiles]
  dsimp only
  split
  · exact ⟨_, rfl⟩
  · exact ⟨_, rfl⟩
  · rename_i hold hnew
    rcases h with h | h
    · cases hf : fetch vendoredTag filename with
      | failed e => exact absurd hf (hold e)
      | content text => rw [hf] at h; exact h.elim
      | notFound => rw [hf] at h; exact h.elim
    · cases hf : fetch targetTag filename with
      | failed e => exact absurd hf (hnew e)
      | content text => rw [hf] at h; exact h.elim
      | notFound => rw [hf] at h; exact h.elim

/-- **The loop comes to its end** when no fetch throws, and says whether a file has changed. -/
theorem checkFiles_ok
    (h : ∀ file ∈ files, ¬ (fetch vendoredTag file).Fails ∧ ¬ (fetch targetTag file).Fails) :
    ∃ changed notFound,
      (checkFiles fetch vendoredTag targetTag files).1 = .ok (changed, notFound) ∧
      (changed = [] ↔ ∀ file ∈ files, fetch vendoredTag file = fetch targetTag file) ∧
      ∀ file ∈ files, (vendoredTag, file) ∈ (checkFiles fetch vendoredTag targetTag files).2 ∧
        (targetTag, file) ∈ (checkFiles fetch vendoredTag targetTag files).2 := by
  induction files with
  | nil => exact ⟨[], [], rfl, by simp, nofun⟩
  | cons filename files ih =>
    obtain ⟨changed, notFound, hok, hiff, hlog⟩ :=
      ih fun file hfile => h file (List.mem_cons_of_mem _ hfile)
    obtain ⟨hold, hnew⟩ := h filename List.mem_cons_self
    rw [checkFiles_cons hold hnew, hok]
    dsimp only [Except.map]
    have hmem : ∀ file ∈ filename :: files,
        (vendoredTag, file) ∈ [(vendoredTag, filename), (targetTag, filename)] ++
            (checkFiles fetch vendoredTag targetTag files).2 ∧
          (targetTag, file) ∈ [(vendoredTag, filename), (targetTag, filename)] ++
            (checkFiles fetch vendoredTag targetTag files).2 := by
      intro file hfile
      rcases List.mem_cons.1 hfile with rfl | hfile
      · simp
      · exact ⟨List.mem_append_right _ (hlog file hfile).1,
          List.mem_append_right _ (hlog file hfile).2⟩
    by_cases hnone : fetch vendoredTag filename = .notFound ∧ fetch targetTag filename = .notFound
    · rw [if_pos hnone]
      exact ⟨_, _, rfl, by simp [hiff, hnone.1, hnone.2], hmem⟩
    · rw [if_neg hnone]
      by_cases hsame : fetch vendoredTag filename = fetch targetTag filename
      · rw [if_neg (not_not.2 hsame)]
        exact ⟨_, _, rfl, by simp [hiff, hsame], hmem⟩
      · rw [if_pos hsame]
        exact ⟨_, _, rfl, by simp [hsame], hmem⟩

theorem checkFiles_error
    (h : ∃ file ∈ files, (fetch vendoredTag file).Fails ∨ (fetch targetTag file).Fails) :
    ∃ e, (checkFiles fetch vendoredTag targetTag files).1 = .error e := by
  induction files with
  | nil => simp at h
  | cons filename files ih =>
    by_cases hfirst : (fetch vendoredTag filename).Fails ∨ (fetch targetTag filename).Fails
    · exact checkFiles_cons_error hfirst
    · obtain ⟨file, hfile, hfails⟩ := h
      rcases List.mem_cons.1 hfile with rfl | hfile
      · exact absurd hfails hfirst
      · obtain ⟨e, he⟩ := ih ⟨file, hfile, hfails⟩
        rw [not_or] at hfirst
        rw [checkFiles_cons hfirst.1 hfirst.2, he]
        exact ⟨e, rfl⟩

end Files

/-- No fetch of a listed file throws, at the vendored tag or at the target. -/
def Extension.Fetchable (extn : Extension) (upstream : Upstream) (vendoredTag targetTag : Text) :
    Prop :=
  ∀ file ∈ extn.files, ¬ (upstream vendoredTag extn.name file).Fails ∧
    ¬ (upstream targetTag extn.name file).Fails

/-- Every listed file is fetched in both tags, and the answers are the same. -/
def Extension.Same (extn : Extension) (upstream : Upstream) (vendoredTag targetTag : Text) : Prop :=
  ∀ file ∈ extn.files, (vendoredTag, file) ∈ (checkExtension upstream targetTag extn).2 ∧
    (targetTag, file) ∈ (checkExtension upstream targetTag extn).2 ∧
    upstream vendoredTag extn.name file = upstream targetTag extn.name file

section

variable {upstream : Upstream} {targetTag vendoredTag : Text} {extn : Extension}

/-- An extension behind the target tag. -/
theorem checkExtension_of_ne (upstream : Upstream) (hv : extn.vendoredTag = some vendoredTag)
    (hne : vendoredTag ≠ targetTag) :
    checkExtension upstream targetTag extn =
      match checkFiles (upstream · extn.name ·) vendoredTag targetTag extn.files with
      | (.error e, log) => (.error e, log)
      | (.ok (changedFiles, notFoundFiles), log) =>
        if changedFiles ≠ [] then (.drift vendoredTag changedFiles notFoundFiles, log)
        else (.tagBumpOnly vendoredTag notFoundFiles, log) := by
  obtain ⟨text, htext, -⟩ := Option.bind_eq_some_iff.1 hv
  rw [checkExtension, htext]
  dsimp only
  rw [hv]
  exact if_neg hne

/-- **The check of an extension behind the target tag** whose files can all be fetched: its files
have changed or they are the same. -/
theorem checkExtension_fetchable (hv : extn.vendoredTag = some vendoredTag)
    (hne : vendoredTag ≠ targetTag) (hfetch : extn.Fetchable upstream vendoredTag targetTag) :
    ((checkExtension upstream targetTag extn).1.isDrift = false ↔
      extn.Same upstream vendoredTag targetTag) ∧
    ((checkExtension upstream targetTag extn).1.isSafe = true ↔
      extn.Same upstream vendoredTag targetTag) := by
  obtain ⟨changed, notFound, hok, hiff, hlog⟩ :=
    @checkFiles_ok (upstream · extn.name ·) vendoredTag targetTag extn.files hfetch
  have hcheck := checkExtension_of_ne upstream hv hne
  have hpair : checkFiles (upstream · extn.name ·) vendoredTag targetTag extn.files =
      (.ok (changed, notFound),
        (checkFiles (upstream · extn.name ·) vendoredTag targetTag extn.files).2) :=
    Prod.ext hok rfl
  rw [hpair] at hcheck
  dsimp only at hcheck
  have hlog' : (checkExtension upstream targetTag extn).2 =
      (checkFiles (upstream · extn.name ·) vendoredTag targetTag extn.files).2 := by
    rw [hcheck]
    split <;> rfl
  have hsame : extn.Same upstream vendoredTag targetTag ↔ changed = [] := by
    rw [hiff]
    refine forall_congr' fun file => forall_congr' fun hfile => ?_
    rw [hlog']
    exact ⟨fun h => h.2.2, fun h => ⟨(hlog file hfile).1, (hlog file hfile).2, h⟩⟩
  rw [hsame, hcheck]
  by_cases hnil : changed = []
  · simp [hnil, Status.isDrift, Status.isSafe]
  · simp [hnil, Status.isDrift, Status.isSafe]

/-- A fetch that throws makes the status an error. -/
theorem checkExtension_not_fetchable (hv : extn.vendoredTag = some vendoredTag)
    (hne : vendoredTag ≠ targetTag) (hfetch : ¬ extn.Fetchable upstream vendoredTag targetTag) :
    ∃ e, (checkExtension upstream targetTag extn).1 = .error e := by
  have hfails : ∃ file ∈ extn.files, (upstream vendoredTag extn.name file).Fails ∨
      (upstream targetTag extn.name file).Fails := by
    by_contra hnone
    refine hfetch fun file hfile => not_or.1 fun h => hnone ⟨file, hfile, h⟩
  obtain ⟨e, he⟩ :=
    @checkFiles_error (upstream · extn.name ·) vendoredTag targetTag extn.files hfails
  have hpair : checkFiles (upstream · extn.name ·) vendoredTag targetTag extn.files =
      (.error e, (checkFiles (upstream · extn.name ·) vendoredTag targetTag extn.files).2) :=
    Prod.ext he rfl
  rw [checkExtension_of_ne upstream hv hne, hpair]
  exact ⟨e, rfl⟩

/-- **What lets an extension be bumped.** -/
theorem checkExtension_isSafe (h : (checkExtension upstream targetTag extn).1.isSafe = true) :
    ∃ v, extn.vendoredTag = some v ∧ (v = targetTag ∨
      extn.Fetchable upstream v targetTag ∧ extn.Same upstream v targetTag) := by
  cases hv : extn.vendoredTag with
  | none =>
    rw [checkExtension, hv] at h
    split at h <;> cases h
  | some v =>
    refine ⟨v, rfl, ?_⟩
    by_cases hne : v = targetTag
    · exact Or.inl hne
    · by_cases hfetch : extn.Fetchable upstream v targetTag
      · exact Or.inr ⟨hfetch, (checkExtension_fetchable hv hne hfetch).2.1 h⟩
      · obtain ⟨e, he⟩ := checkExtension_not_fetchable hv hne hfetch
        rw [he] at h
        cases h

end

/-! ## What the bump does -/

/-- The extension with every tag in its two files replaced. -/
def Extension.retag (extn : Extension) (targetTag : Text) : Extension where
  name := extn.name
  entries := extn.entries
  provenance := extn.provenance.map (Scan.replace tagPattern targetTag)
  readme := extn.readme.map (Scan.replace tagPattern targetTag)

/-- A file that is left alone has no other tag. -/
theorem written_bumpFile (text : Option Text) (targetTag : Text) :
    written true text (bumpFile text targetTag) =
      text.map (Scan.replace tagPattern targetTag) := by
  cases text with
  | none => rfl
  | some text =>
    rw [bumpFile, Option.bind_some]
    dsimp only
    have hself : (∀ t ∈ Scan.found tagPattern text, t = targetTag) →
        some text = (some text).map (Scan.replace tagPattern targetTag) := by
      intro h
      rw [Option.map_some, Scan.replace_eq_self h]
    split
    · rename_i hnil
      refine hself fun t ht => ?_
      rw [← List.mem_eraseDups, hnil] at ht
      cases ht
    · split
      · rename_i hone
        refine hself fun t ht => ?_
        rw [← List.mem_eraseDups, hone] at ht
        exact List.mem_singleton.1 ht
      · rfl

theorem bumpExtension_fst (targetTag : Text) (write : Bool) (extn : Extension) :
    (bumpExtension targetTag write extn).1 = if write then extn.retag targetTag else extn := by
  cases write with
  | false => rfl
  | true =>
    rw [bumpExtension]
    dsimp only
    rw [written_bumpFile, written_bumpFile]
    rfl

/-- **What is asked of the check and the bump.** -/
structure BumpsRight (upstream : Upstream) (targetTag : Tag) (write : Bool)
    (exts : List Extension) : Prop where
  /-- Every extension is looked at. -/
  all : ∀ extn, extn ∈ exts ↔
    ∃ after, (extn, after) ∈ (bumpVendoredPhpTags upstream targetTag write exts).files
  /-- A rewritten extension is vendored from the target tag already, or from a tag in which all its
  files could be fetched and are as in the target tag. -/
  same : ∀ p ∈ (bumpVendoredPhpTags upstream targetTag write exts).files, p.2 ≠ p.1 →
    ∃ v, p.1.vendoredTag = some v ∧ (v = targetTag ∨
      p.1.Fetchable upstream v targetTag ∧ p.1.Same upstream v targetTag)
  /-- Its tags are replaced, and nothing else. -/
  text : ∀ p ∈ (bumpVendoredPhpTags upstream targetTag write exts).files, p.2 ≠ p.1 →
    write = true ∧ p.2 = p.1.retag targetTag
  /-- No drift is reported only when no extension whose files could be fetched has drifted. -/
  drift : (checkVendoredExtensions upstream targetTag none exts).1 = false →
    ∀ extn ∈ exts, ∀ v, extn.vendoredTag = some v → extn.Fetchable upstream v targetTag →
      ∀ file ∈ extn.files, upstream v extn.name file = upstream targetTag extn.name file

theorem mem_checkResults {upstream : Upstream} {targetTag : Text} {exts : List Extension}
    {r : Result} : r ∈ checkResults upstream targetTag none exts ↔ ∃ extn ∈ exts,
      r = ⟨extn, (checkExtension upstream targetTag extn).1,
        (checkExtension upstream targetTag extn).2⟩ := by
  simp [checkResults, List.mem_insertionSort, eq_comm]

theorem mem_files {upstream : Upstream} {targetTag : Tag} {write : Bool} {exts : List Extension}
    {p : Extension × Extension} :
    p ∈ (bumpVendoredPhpTags upstream targetTag write exts).files ↔ p.1 ∈ exts ∧
      p.2 = if (checkExtension upstream targetTag p.1).1.isSafe ∧ write then
        p.1.retag targetTag else p.1 := by
  have hbump : ∀ extn : Extension, (if (checkExtension upstream targetTag extn).1.isSafe then
      bumpExtension targetTag write extn else (extn, [])).1 =
      if (checkExtension upstream targetTag extn).1.isSafe ∧ write then extn.retag targetTag
      else extn := by
    intro extn
    rw [apply_ite Prod.fst, bumpExtension_fst, ite_and]
  rw [bumpVendoredPhpTags, checkVendoredExtensions]
  dsimp only
  rw [List.mem_map]
  constructor
  · rintro ⟨r, hr, rfl⟩
    obtain ⟨extn, hext, rfl⟩ := mem_checkResults.1 hr
    exact ⟨hext, hbump extn⟩
  · rintro ⟨hext, hp⟩
    exact ⟨_, mem_checkResults.2 ⟨p.1, hext, rfl⟩, Prod.ext rfl ((hbump p.1).trans hp.symm)⟩

/-- **The bump is right**, whatever the texts say and the fetches answer. -/
theorem bumpsRight (upstream : Upstream) (targetTag : Tag) (write : Bool)
    (exts : List Extension) : BumpsRight upstream targetTag write exts where
  all extn := by
    simp only [mem_files]
    exact ⟨fun h => ⟨_, h, rfl⟩, fun ⟨_, h, _⟩ => h⟩
  same p hp hne := by
    obtain ⟨-, hp⟩ := mem_files.1 hp
    split at hp
    · rename_i hsafe
      exact checkExtension_isSafe hsafe.1
    · exact absurd hp hne
  text p hp hne := by
    obtain ⟨-, hp⟩ := mem_files.1 hp
    split at hp
    · rename_i hsafe
      exact ⟨hsafe.2, hp⟩
    · exact absurd hp hne
  drift hdrift extn hext v hv hfetch := by
    have hnone : (checkExtension upstream targetTag extn).1.isDrift = false := by
      rw [checkVendoredExtensions] at hdrift
      dsimp only at hdrift
      rw [List.any_eq_false] at hdrift
      simpa using hdrift _ (mem_checkResults.2 ⟨extn, hext, rfl⟩)
    by_cases hne : v = targetTag
    · rw [hne]
      exact fun _ _ => rfl
    · exact fun file hfile =>
        ((checkExtension_fetchable hv hne hfetch).1.1 hnone file hfile).2.2

/-! ## More than it does -/

/-- The tags that are named in a file before and are not what it names there afterwards. -/
def rewritten (before after : Option Text) (targetTag : Text) : List Text :=
  if before = after then []
  else (Scan.found tagPattern (before.getD [])).filter (· ≠ targetTag)

/-- The same of both files of an extension. -/
def rewrittenTags (p : Extension × Extension) (targetTag : Text) : List Text :=
  rewritten p.1.provenance p.2.provenance targetTag ++ rewritten p.1.readme p.2.readme targetTag

/-- A file was fetched in both tags, and its content is the same. -/
def Identical (upstream : Upstream) (extn : Extension) (tag targetTag file : Text) : Prop :=
  (tag, file) ∈ (checkExtension upstream targetTag extn).2 ∧
    (targetTag, file) ∈ (checkExtension upstream targetTag extn).2 ∧
    ∃ text, upstream tag extn.name file = .content text ∧
      upstream targetTag extn.name file = .content text

/-- A file was fetched in two tags, and is in one of them. -/
def Compared (upstream : Upstream) (extn : Extension) (tag targetTag file : Text) : Prop :=
  (tag, file) ∈ (checkExtension upstream targetTag extn).2 ∧
    (targetTag, file) ∈ (checkExtension upstream targetTag extn).2 ∧
    ((∃ text, upstream tag extn.name file = .content text) ∨
      ∃ text, upstream targetTag extn.name file = .content text)

/-- An extension that could not be checked. -/
def Status.Failed : Status → Prop
  | error _ => True
  | noProvenance => True
  | unparseableProvenance => True
  | _ => False

/-- **The strictest reading of the report**: each tag that is rewritten stood for files that were
compared with the target tag themselves, and nothing is left unchecked without being told. -/
structure EachTagCompared (upstream : Upstream) (targetTag : Tag) (write : Bool)
    (exts : List Extension) : Prop where
  identical : ∀ p ∈ (bumpVendoredPhpTags upstream targetTag write exts).files,
    ∀ tag ∈ rewrittenTags p targetTag, ∀ file ∈ p.1.files,
      Identical upstream p.1 tag targetTag file
  compared : ∀ p ∈ (bumpVendoredPhpTags upstream targetTag write exts).files,
    rewrittenTags p targetTag ≠ [] → ∃ tag, ∃ file ∈ p.1.files,
      Compared upstream p.1 tag targetTag file
  drift : (checkVendoredExtensions upstream targetTag none exts).1 = false → ∀ extn ∈ exts,
    ¬ (checkExtension upstream targetTag extn).1.Failed ∧ ∀ v, extn.vendoredTag = some v →
      ∀ file ∈ extn.files, upstream v extn.name file = upstream targetTag extn.name file

/-- The tag of the core. -/
def coreTag : Tag := ⟨"PHP-8.5.11".toList, by decide⟩

/-- An extension that was vendored again by hand, from the tag of the core.  The README of its
package is still about the last tag. -/
def revendored : Extension where
  name := "x".toList
  entries := [.file "x.c".toList]
  provenance := some (backquote :: "PHP-8.5.11".toList ++ backquote :: " tag".toList)
  readme := some "PHP-8.5.10".toList

/-- Its file is another one in each tag. -/
def changing : Upstream := fun tag _ _ => .content tag

/-- **By design the README of an extension that is up to date follows**, with nothing fetched. -/
theorem revendored_not_compared : ¬ EachTagCompared changing coreTag true [revendored] := by
  intro h
  have hp : (revendored, revendored.retag coreTag) ∈
      (bumpVendoredPhpTags changing coreTag true [revendored]).files :=
    mem_files.2 ⟨List.mem_singleton_self _, (if_pos ⟨by decide, rfl⟩).symm⟩
  have htag : "PHP-8.5.10".toList ∈
      rewrittenTags (revendored, revendored.retag coreTag) coreTag := by decide
  obtain ⟨hlog, -⟩ := h.identical _ hp _ htag "x.c".toList (by decide)
  exact absurd hlog (by decide)

end PhpWasm.Vendored
