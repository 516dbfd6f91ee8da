import PhpWasm.Base.LazySearch
import PhpWasm.Build.Config
import PhpWasm.Build.Vendored
import Mathlib.Data.List.TakeWhile

/-!
# The file of the supported PHP versions

`supported-php-versions.mjs` holds the array `phpVersions`.  `generateFileContent` writes the file,
and `readCurrentVersions` reads the array back with regular expressions: one for the array, one for
an object with its version and its last release, and two for the other fields of an object.

* `found` is what the search for a field comes upon: the field, or the text between two fields,
  behind a value that ends like the name of the field.
* `read_generate`: the versions are read back as `readBack` says.
* `readRight_iff`: when that is what was written, and the array is written again as it was.
-/

set_option autoImplicit false

namespace PhpWasm.Build

open LazySearch
open Scan (strip)
open Vendored (Text)

/-- An element of `phpVersions`. -/
structure PhpVersion where
  version : Text
  loaderFilename : Text
  wasmFilename : Text
  lastRelease : Text
  deriving DecidableEq

/-! ## Writing -/

/-- `new Date().toISOString()` -/
structure IsoDate where
  text : Text
  chars : ∀ c ∈ text, c ∈ "0123456789-+:.TZ".toList

/-- A line of an object. -/
def fieldLine (field : Text × Text) : Text :=
  "\t\t".toList ++ field.1 ++ ": '".toList ++ field.2 ++ "',\n".toList

/-- The fields of an object, in their order. -/
def PhpVersion.fields (v : PhpVersion) : List (Text × Text) :=
  [("version".toList, v.version), ("loaderFilename".toList, v.loaderFilename),
    ("wasmFilename".toList, v.wasmFilename), ("lastRelease".toList, v.lastRelease)]

/-- An object. -/
def versionEntry (v : PhpVersion) : Text :=
  "\t\x7b\n".toList ++ v.fields.flatMap fieldLine ++ "\t\x7d".toList

/-- The array, between its brackets. -/
def versionEntries (versions : List PhpVersion) : Text :=
  "\n".toList ++ ",\n".toList.intercalate (versions.map versionEntry) ++ "\n".toList

/-- The header up to the date. -/
def headerTop : Text :=
  ("/**\n * @typedef \x7bObject\x7d PhpVersion\n" ++
    " * @property \x7bstring\x7d version\n" ++
    " * @property \x7bstring\x7d loaderFilename\n" ++
    " * @property \x7bstring\x7d wasmFilename\n" ++
    " * @property \x7bstring\x7d lastRelease\n" ++
    " */\n\nexport const lastRefreshed = \"").toList

/-- The header behind the date, up to the array. -/
def headerBottom : Text :=
  ("\";\n\n/**\n * @type \x7bPhpVersion[]\x7d\n" ++
    " * @see https://www.php.net/releases/index.php\n */\n").toList

/-- `generateFileContent` -/
def generateFileContent (date : IsoDate) (versions : List PhpVersion) : Text :=
  headerTop ++ date.text ++ headerBottom ++ "export const phpVersions = ".toList ++
    '[' :: (versionEntries versions ++ "];".toList ++ "\n".toList)

/-- One element of `updatedVersions`, for the release that is known for its version. -/
def withRelease (v : PhpVersion) (newVersion : Option Text) : PhpVersion :=
  match newVersion with
  | some newVersion =>
    if newVersion ≠ [] ∧ newVersion ≠ v.lastRelease then { v with lastRelease := newVersion } else v
  | none => v

/-- The text that `updateVersionsFile` writes, for the known releases. -/
def updateVersionsFile (date : IsoDate) (currentVersions : List PhpVersion)
    (latestVersions : Text → Option Text) : Text :=
  generateFileContent date (currentVersions.map fun v => withRelease v (latestVersions v.version))

/-! ## Reading -/

/-- A quotation mark or a backtick. -/
def isQuote (c : Char) : Bool := c = '\'' || c = '"' || c = '\x60'

/-- A text between two quotes, and what is behind it. -/
def valueAt : Text → Option (Text × Text)
  | q :: s =>
    match s.dropWhile fun c => !isQuote c with
    | _ :: rest =>
      if isQuote q && s.takeWhile (fun c => !isQuote c) ≠ [] then
        some (s.takeWhile fun c => !isQuote c, rest)
      else none
    | [] => none
  | [] => none

/-- The name of a field, white space and the value. -/
def fieldAt (name s : Text) : Option (Text × Text) :=
  (strip (name ++ [':']) s).bind fun s => valueAt (s.dropWhile isJsSpace)

/-- The brace that closes an object. -/
def closeAt : Text → Option Text
  | '\x7d' :: rest => some rest
  | _ => none

/-- The last release, and what is behind the object. -/
def releaseAt (s : Text) : Option (Text × Text) :=
  (fieldAt "lastRelease".toList s).bind fun x => (lazily closeAt x.2).map fun rest => (x.1, rest)

/-- The version and the last release, and what is behind the object. -/
def versionAt (s : Text) : Option (Text × Text × Text) :=
  (fieldAt "version".toList s).bind fun x => (lazily releaseAt x.2).map fun y => (x.1, y)

/-- An object: its text, its version and its last release. -/
def objectAt : Text → Option ((Text × Text × Text) × Text)
  | '\x7b' :: s =>
    (lazily versionAt s).map fun x => ((consumed ('\x7b' :: s) x.2.2, x.1, x.2.1), x.2.2)
  | _ => none

/-- The array with its brackets. -/
def arrayAt (s : Text) : Option Text :=
  (strip "export const phpVersions = ".toList s).bind fun s =>
    match s with
    | '[' :: t => (lazily (strip "];".toList) t).map fun rest => consumed s (';' :: rest)
    | _ => none

/-- `version.replace('.', '_')` -/
def underscored (version : Text) : Text :=
  version.takeWhile (fun c => c ≠ '.') ++
    match version.dropWhile fun c => c ≠ '.' with
    | _ :: rest => '_' :: rest
    | [] => []

/-- What is made of an object. -/
def versionOf (found : Text × Text × Text) : PhpVersion where
  version := found.2.1
  loaderFilename :=
    match lazily (fieldAt "loaderFilename".toList) found.1 with
    | some x => x.1
    | none => "php_".toList ++ underscored found.2.1 ++ ".js".toList
  wasmFilename :=
    match lazily (fieldAt "wasmFilename".toList) found.1 with
    | some x => x.1
    | none => "php_".toList ++ underscored found.2.1 ++ ".wasm".toList
  lastRelease := found.2.2

/-- `readCurrentVersions`, of a file that may not be there. -/
def readCurrentVersions (content : Option Text) : List PhpVersion :=
  match content.bind (lazily arrayAt) with
  | some arrayString => (matchAll objectAt arrayString).map versionOf
  | none => []

/-! ## Values -/

/-- There is no quote in a text. -/
def NoQuotes (s : Text) : Prop := ∀ c ∈ s, isQuote c = false

instance (s : Text) : Decidable (NoQuotes s) := List.decidableBAll _ s

/-- A text is the name of a field and white space. -/
def isKey (name s : Text) : Bool :=
  match strip (name ++ [':']) s with
  | some rest => rest.all isJsSpace
  | none => false

/-- A text ends with the name of a field and white space. -/
def endsWithKey (name s : Text) : Bool := s.tails.any (isKey name)

section Values

variable {name value rest : Text}

theorem valueAt_quoted (hne : value ≠ []) (hvalue : NoQuotes value) :
    valueAt ('\'' :: (value ++ '\'' :: rest)) = some (value, rest) := by
  have hall : ∀ c ∈ value, (!isQuote c) = true := fun c hc => by rw [hvalue c hc]; rfl
  have htake : (value ++ '\'' :: rest).takeWhile (fun c => !isQuote c) = value := by
    rw [List.takeWhile_append_of_pos hall]
    simp [isQuote]
  have hdrop : (value ++ '\'' :: rest).dropWhile (fun c => !isQuote c) = '\'' :: rest := by
    rw [List.dropWhile_append_of_pos hall]
    simp [isQuote]
  rw [valueAt, hdrop, htake]
  simp [isQuote, hne]

theorem valueAt_of_not_isQuote {c : Char} (h : isQuote c = false) (s : Text) :
    valueAt (c :: s) = none := by
  rw [valueAt]
  split
  · rw [h]
    rfl
  · rfl

/-- The field itself. -/
theorem fieldAt_self (hne : value ≠ []) (hvalue : NoQuotes value) :
    fieldAt name (name ++ ": '".toList ++ value ++ '\'' :: rest) = some (value, rest) := by
  have hstrip : name ++ ": '".toList ++ value ++ '\'' :: rest =
      (name ++ [':']) ++ (' ' :: '\'' :: (value ++ '\'' :: rest)) := by
    simp
  have hspace : (' ' :: '\'' :: (value ++ '\'' :: rest)).dropWhile isJsSpace =
      '\'' :: (value ++ '\'' :: rest) := rfl
  rw [fieldAt, hstrip, Scan.strip_append, Option.bind_some, hspace, valueAt_quoted hne hvalue]

/-- A field begins inside a text without quotes, and the value is behind it. -/
theorem fieldAt_append (hname : NoQuotes name) {u : Text} (hu : NoQuotes u) :
    fieldAt name (u ++ '\'' :: rest) =
      if isKey name u then valueAt ('\'' :: rest) else none := by
  have hkey : '\'' ∉ name ++ [':'] := by
    rw [List.mem_append, List.mem_singleton]
    rintro (h | h)
    · exact absurd (hname _ h) (by decide)
    · exact absurd h (by decide)
  rw [fieldAt, isKey]
  cases hstrip : strip (name ++ [':']) u with
  | some w =>
    obtain rfl := Scan.strip_eq_some.1 hstrip
    rw [List.append_assoc, Scan.strip_append, Option.bind_some]
    by_cases hw : w.all isJsSpace
    · have hdrop : (w ++ '\'' :: rest).dropWhile isJsSpace = '\'' :: rest := by
        rw [List.dropWhile_append_of_pos (List.all_eq_true.1 hw)]
        rfl
      rw [hdrop, if_pos hw]
    · rw [if_neg hw, List.dropWhile_append]
      cases hdrop : w.dropWhile isJsSpace with
      | nil => exact absurd (List.all_eq_true.2 (List.dropWhile_eq_nil_iff.1 hdrop)) hw
      | cons c w' =>
        have hc : c ∈ w := (List.dropWhile_sublist _).subset (hdrop ▸ List.mem_cons_self)
        exact valueAt_of_not_isQuote (hu c (List.mem_append_right _ hc)) _
  | none =>
    rw [if_neg (by decide)]
    cases hstrip' : strip (name ++ [':']) (u ++ '\'' :: rest) with
    | none => rfl
    | some r =>
      have heq := Scan.strip_eq_some.1 hstrip'
      rcases List.append_eq_append_iff.1 heq with ⟨k, hk, hr⟩ | ⟨k, hk, hr⟩
      · cases k with
        | nil =>
          rw [List.append_nil] at hk
          rw [← hk, Scan.strip_eq_some.2 (List.append_nil _).symm] at hstrip
          cases hstrip
        | cons c k =>
          obtain ⟨rfl, -⟩ := List.cons.inj hr
          exact absurd (hk ▸ List.mem_append_right _ List.mem_cons_self) hkey
      · rw [hk, Scan.strip_append] at hstrip
        cases hstrip

/-- **What a search comes upon in a text without quotes**, where something goes on with what is
found. -/
theorem lazily_value {β : Type*} {f : Text × Text → Option β} (hname : NoQuotes name)
    (hvalue : NoQuotes value) :
    (endsWithKey name value = true → ∀ y, (valueAt ('\'' :: rest)).bind f = some y →
      lazily (fun s => (fieldAt name s).bind f) (value ++ '\'' :: rest) = some y) ∧
    (endsWithKey name value = false →
      Skips (fun s => (fieldAt name s).bind f) value ('\'' :: rest)) := by
  induction value with
  | nil =>
    refine ⟨fun h => ?_, fun _ => trivial⟩
    have hnil : isKey name [] = false := by
      cases name <;> rfl
    simp [endsWithKey, hnil] at h
  | cons c value ih =>
    obtain ⟨hends, hnot⟩ := ih fun d hd => hvalue d (List.mem_cons_of_mem c hd)
    have hhere := @fieldAt_append name rest hname (c :: value) hvalue
    have htails : endsWithKey name (c :: value) =
        (isKey name (c :: value) || endsWithKey name value) := rfl
    rw [List.cons_append] at hhere
    rw [htails, List.cons_append, lazily, Skips, hhere]
    by_cases hkey : isKey name (c :: value)
    · rw [if_pos hkey, hkey, Bool.true_or]
      exact ⟨fun _ y hy => by rw [hy, Option.some_or], fun h => absurd h (by decide)⟩
    · have hfalse : isKey name (c :: value) = false := by simpa using hkey
      rw [if_neg hkey, hfalse, Bool.false_or, Option.bind_none, Option.none_or]
      exact ⟨hends, fun h => ⟨rfl, hnot h⟩⟩

end Values

/-! ## Lines -/

/-- What stands between the quote at the end of one value and the one before the next. -/
def between (fields : List (Text × Text)) : Text :=
  ",\n\t\t".toList ++ (fields.head?.map Prod.fst).getD [] ++ ": ".toList

/-- What the search for a field comes upon in the lines of an object: its value, or what is behind a
value that ends with the name of the field. -/
def found (name : Text) : List (Text × Text) → Text
  | [] => []
  | field :: fields =>
    if field.1 = name then field.2
    else if endsWithKey name field.2 then between fields
    else found name fields

/-- A name that is not found in what stands between the values. -/
structure Searchable (name : Text) (fields : List (Text × Text)) : Prop where
  noQuotes : NoQuotes name
  names : ∀ f ∈ fields, NoQuotes f.1
  indent : clashes (name ++ [':']) "\t\t".toList
  others : ∀ f ∈ fields, f.1 ≠ name →
    clashes (name ++ [':']) ("\t\t".toList ++ f.1 ++ ": '".toList)
  ending : clashes (name ++ [':']) "',\n".toList

theorem found_cons_self (name value : Text) (fields : List (Text × Text)) :
    found name ((name, value) :: fields) = value := if_pos rfl

theorem found_cons_of_ne {name n value w : Text} {fields : List (Text × Text)} (hn : n ≠ name)
    (hw : between fields ≠ w) :
    found name ((n, value) :: fields) = w ↔
      ¬ endsWithKey name value ∧ found name fields = w := by
  rw [found, if_neg hn]
  by_cases hends : endsWithKey name value
  · rw [if_pos hends]
    exact iff_of_false hw fun h => h.1 hends
  · rw [if_neg hends]
    exact (and_iff_right hends).symm

section Lines

variable {name tail : Text} {fields : List (Text × Text)}

theorem prefix_of_fieldAt {β : Type*} {f : Text × Text → Option β} (s : Text) (y : β)
    (h : (fieldAt name s).bind f = some y) : name ++ [':'] <+: s := by
  obtain ⟨x, hx, -⟩ := Option.bind_eq_some_iff.1 h
  obtain ⟨r, hr, -⟩ := Option.bind_eq_some_iff.1 hx
  exact ⟨r, Scan.append_of_strip hr⟩

theorem noQuotes_append {s t : Text} : NoQuotes (s ++ t) ↔ NoQuotes s ∧ NoQuotes t := by
  simp only [NoQuotes, List.mem_append, or_imp, forall_and]

theorem noQuotes_between (h : ∀ f ∈ fields, NoQuotes f.1) : NoQuotes (between fields) := by
  have hhead : NoQuotes ((fields.head?.map Prod.fst).getD []) := by
    cases fields with
    | nil => exact fun c hc => absurd hc List.not_mem_nil
    | cons field fields => exact h field List.mem_cons_self
  rw [between, noQuotes_append, noQuotes_append]
  exact ⟨⟨by decide, hhead⟩, by decide⟩

/-- **What a search comes upon in the lines of an object.** -/
theorem lazily_lines (hmem : name ∈ fields.map Prod.fst) (hsearch : Searchable name fields)
    (hvalues : ∀ f ∈ fields, f.2 ≠ [] ∧ NoQuotes f.2) :
    ∃ u, (∀ c ∈ u, c ∈ fields.flatMap fieldLine) ∧
      ∀ {β : Type} (f : Text × Text → Option β) (y : β), f (found name fields, u ++ tail) = some y →
        lazily (fun s => (fieldAt name s).bind f) (fields.flatMap fieldLine ++ tail) = some y := by
  induction fields with
  | nil => cases hmem
  | cons field fields ih =>
    obtain ⟨n, value⟩ := field
    obtain ⟨hne, hvalue⟩ := hvalues (n, value) List.mem_cons_self
    have hsub : ∀ c ∈ fields.flatMap fieldLine,
        c ∈ ((n, value) :: fields).flatMap fieldLine := fun c hc =>
      List.mem_append_right _ hc
    rw [found]
    by_cases hn : n = name
    · subst hn
      have htext : ((n, value) :: fields).flatMap fieldLine ++ tail =
          "\t\t".toList ++ (n ++ ": '".toList ++ value ++
            '\'' :: (",\n".toList ++ fields.flatMap fieldLine ++ tail)) := by
        simp [fieldLine]
      refine ⟨",\n".toList ++ fields.flatMap fieldLine, fun c hc => ?_, fun f y hy => ?_⟩
      · rcases List.mem_append.1 hc with hc | hc
        · have hclose : c ∈ "',\n".toList := List.mem_cons_of_mem _ hc
          rw [List.flatMap_cons, fieldLine]
          exact List.mem_append_left _ (List.mem_append_right _ hclose)
        · exact hsub c hc
      · rw [if_pos rfl] at hy
        rw [htext, lazily_append (skips_of_clashes prefix_of_fieldAt hsearch.indent)]
        refine lazily_of_some ?_
        rw [fieldAt_self hne hvalue, Option.bind_some, ← hy]
    · have htext : ((n, value) :: fields).flatMap fieldLine ++ tail =
          ("\t\t".toList ++ n ++ ": '".toList) ++ (value ++
            '\'' :: (",\n".toList ++ fields.flatMap fieldLine ++ tail)) := by
        simp [fieldLine]
      have hstart := hsearch.others (n, value) List.mem_cons_self hn
      have hmem' : name ∈ fields.map Prod.fst := by
        rw [List.map_cons, List.mem_cons] at hmem
        exact hmem.resolve_left fun h => hn h.symm
      rw [if_neg hn, htext]
      by_cases hends : endsWithKey name value
      · cases fields with
        | nil => cases hmem'
        | cons next fields =>
          obtain ⟨hne', hvalue'⟩ := hvalues next (by simp)
          have hbetween : NoQuotes (between (next :: fields)) :=
            noQuotes_between fun f hf => hsearch.names f (List.mem_cons_of_mem _ hf)
          refine ⟨next.2 ++ "',\n".toList ++ fields.flatMap fieldLine, fun c hc => ?_,
            fun f y hy => ?_⟩
          · refine hsub c ?_
            rw [List.flatMap_cons, fieldLine]
            simp only [List.mem_append] at hc ⊢
            rcases hc with (hc | hc) | hc
            · exact .inl (.inl (.inr hc))
            · exact .inl (.inr hc)
            · exact .inr hc
          · rw [if_pos hends] at hy
            rw [lazily_append (skips_of_clashes prefix_of_fieldAt hstart)]
            have hquoted : '\'' :: (",\n".toList ++ (next :: fields).flatMap fieldLine ++ tail) =
                '\'' :: (between (next :: fields) ++
                  '\'' :: (next.2 ++ "',\n".toList ++ fields.flatMap fieldLine ++ tail)) := by
              simp [between, fieldLine]
            rw [hquoted]
            refine (lazily_value hsearch.noQuotes hvalue).1 hends y ?_
            rw [valueAt_quoted (by simp [between]) hbetween, Option.bind_some, ← hy]
      · obtain ⟨u, hu, hfind⟩ := ih hmem' ⟨hsearch.noQuotes,
          fun f hf => hsearch.names f (List.mem_cons_of_mem _ hf), hsearch.indent,
          fun f hf => hsearch.others f (List.mem_cons_of_mem _ hf), hsearch.ending⟩
          fun f hf => hvalues f (List.mem_cons_of_mem _ hf)
        refine ⟨u, fun c hc => hsub c (hu c hc), fun f y hy => ?_⟩
        rw [if_neg hends] at hy
        have hvalueSkips : Skips (fun s => (fieldAt name s).bind f) value
            ('\'' :: (",\n".toList ++ fields.flatMap fieldLine ++ tail)) :=
          (lazily_value hsearch.noQuotes hvalue).2 (by simpa using hends)
        have hending : '\'' :: (",\n".toList ++ fields.flatMap fieldLine ++ tail) =
            "',\n".toList ++ (fields.flatMap fieldLine ++ tail) := by
          simp
        rw [lazily_append (skips_of_clashes prefix_of_fieldAt hstart), lazily_append hvalueSkips,
          hending, lazily_append (skips_of_clashes prefix_of_fieldAt hsearch.ending)]
        exact hfind f y hy

end Lines

/-! ## Objects -/

/-- A character that the fields may have: no quote, backtick, brace, bracket, semicolon or end of
line. -/
def legalChar (c : Char) : Bool :=
  !isQuote c && c ∉ ['\x7b', '\x7d', '[', ']', ';', '\n']

/-- The fields are not empty and have only such characters. -/
def PhpVersion.Legal (v : PhpVersion) : Prop :=
  ∀ f ∈ v.fields, f.2 ≠ [] ∧ ∀ c ∈ f.2, legalChar c

instance (v : PhpVersion) : Decidable v.Legal :=
  have (f : Text × Text) : Decidable (∀ c ∈ f.2, legalChar c) := List.decidableBAll _ f.2
  List.decidableBAll _ v.fields

/-- What is read back of an object. -/
def readBack (v : PhpVersion) : PhpVersion where
  version := v.version
  loaderFilename := found "loaderFilename".toList v.fields
  wasmFilename := found "wasmFilename".toList v.fields
  lastRelease := found "lastRelease".toList v.fields.tail

/-- The lines of an object and the brace behind them. -/
def objectBody (v : PhpVersion) : Text := v.fields.flatMap fieldLine ++ "\t\x7d".toList

section Objects

variable {v : PhpVersion} {tail : Text}

theorem PhpVersion.Legal.value (hv : v.Legal) {f : Text × Text} (hf : f ∈ v.fields) :
    f.2 ≠ [] ∧ NoQuotes f.2 := by
  refine ⟨(hv f hf).1, fun c hc => ?_⟩
  have := (hv f hf).2 c hc
  rw [legalChar, Bool.and_eq_true, Bool.not_eq_true'] at this
  exact this.1

theorem fst_mem_fields {f : Text × Text} (hf : f ∈ v.fields) :
    f.1 ∈ ["version".toList, "loaderFilename".toList, "wasmFilename".toList,
      "lastRelease".toList] := by
  have hmem := List.mem_map_of_mem (f := Prod.fst) hf
  simpa [PhpVersion.fields] using hmem

theorem searchable_fields {name : Text} {fields : List (Text × Text)} (hsub : fields ⊆ v.fields)
    (hname : name ∈ ["version".toList, "loaderFilename".toList, "wasmFilename".toList,
      "lastRelease".toList]) : Searchable name fields := by
  have hothers : ∀ name ∈ ["version".toList, "loaderFilename".toList, "wasmFilename".toList,
      "lastRelease".toList], ∀ n ∈ ["version".toList, "loaderFilename".toList,
      "wasmFilename".toList, "lastRelease".toList], n ≠ name →
      clashes (name ++ [':']) ("\t\t".toList ++ n ++ ": '".toList) := by
    decide
  have hplain : ∀ name ∈ ["version".toList, "loaderFilename".toList, "wasmFilename".toList,
      "lastRelease".toList], NoQuotes name ∧ clashes (name ++ [':']) "\t\t".toList ∧
      clashes (name ++ [':']) "',\n".toList := by
    decide
  exact ⟨(hplain name hname).1, fun f hf => (hplain f.1 (fst_mem_fields (hsub hf))).1,
    (hplain name hname).2.1, fun f hf => hothers name hname f.1 (fst_mem_fields (hsub hf)),
    (hplain name hname).2.2⟩

/-- No character of the lines closes anything. -/
theorem PhpVersion.Legal.not_mem_lines (hv : v.Legal) {c : Char} (hc : c ∈ ['\x7d', ']']) :
    c ∉ v.fields.flatMap fieldLine := by
  intro hmem
  obtain ⟨f, hf, hline⟩ := List.mem_flatMap.1 hmem
  have hvalue : c ∉ f.2 := fun hvalue => by
    have := (hv f hf).2 c hvalue
    rw [legalChar, Bool.and_eq_true, decide_eq_true_iff] at this
    simp at hc
    rcases hc with rfl | rfl <;> simp at this
  have hname : ∀ n ∈ ["version".toList, "loaderFilename".toList, "wasmFilename".toList,
      "lastRelease".toList], c ∉ n := by
    rw [List.mem_cons, List.mem_singleton] at hc
    rcases hc with rfl | rfl <;> decide
  have hplain : c ∉ "\t\t".toList ∧ c ∉ ": '".toList ∧ c ∉ "',\n".toList := by
    rw [List.mem_cons, List.mem_singleton] at hc
    rcases hc with rfl | rfl <;> decide
  simp only [fieldLine, List.mem_append] at hline
  rcases hline with (((hc | hc) | hc) | hc) | hc
  · exact hplain.1 hc
  · exact hname f.1 (fst_mem_fields hf) hc
  · exact hplain.2.1 hc
  · exact hvalue hc
  · exact hplain.2.2 hc

/-- The brace is found behind a text without one. -/
theorem lazily_closeAt {u : Text} (hu : '\x7d' ∉ u) : lazily closeAt (u ++ '\x7d' :: tail) =
    some tail := by
  have hskip : Skips closeAt u ('\x7d' :: tail) := by
    refine skips_of_forall fun c hc t => ?_
    have hne : c ≠ '\x7d' := fun h => hu (h ▸ hc)
    rw [closeAt.eq_def]
    split
    · rename_i heq
      exact absurd (List.cons.inj heq).1 hne
    · rfl
  rw [lazily_append hskip]
  exact lazily_of_some rfl

/-- **What is recognised of an object.** -/
theorem objectAt_entry (hv : v.Legal) :
    objectAt ("\x7b\n".toList ++ objectBody v ++ tail) =
      some (("\x7b\n".toList ++ objectBody v, v.version, (readBack v).lastRelease), tail) := by
  have hbrace := hv.not_mem_lines (c := '\x7d') (by decide)
  obtain ⟨hne, hvalue⟩ :=
    hv.value (f := ("version".toList, v.version)) (by simp [PhpVersion.fields])
  have hrelease : lazily releaseAt (",\n".toList ++
      (v.fields.tail.flatMap fieldLine ++ ("\t\x7d".toList ++ tail))) =
        some ((readBack v).lastRelease, tail) := by
    have hsub : v.fields.tail ⊆ v.fields := List.tail_subset _
    obtain ⟨u, hu, hfind⟩ := @lazily_lines "lastRelease".toList ("\t\x7d".toList ++ tail)
      v.fields.tail (by simp [PhpVersion.fields]) (searchable_fields hsub (by decide))
      fun f hf => hv.value (hsub hf)
    have hskip : clashes ("lastRelease".toList ++ [':']) ",\n".toList := by decide
    have hskips : ∀ s, Skips releaseAt ",\n".toList s := fun s =>
      skips_of_clashes (fun t y h => prefix_of_fieldAt t y h) hskip
    rw [lazily_append (hskips _)]
    refine hfind (fun x => (lazily closeAt x.2).map fun rest => (x.1, rest)) _ ?_
    have hclose : u ++ ("\t\x7d".toList ++ tail) = (u ++ ['\t']) ++ '\x7d' :: tail := by simp
    have hnot : '\x7d' ∉ u ++ ['\t'] := by
      rw [List.mem_append, List.mem_singleton]
      rintro (h | h)
      · refine hbrace ?_
        obtain ⟨f, hf, hc⟩ := List.mem_flatMap.1 (hu _ h)
        exact List.mem_flatMap.2 ⟨f, hsub hf, hc⟩
      · exact absurd h (by decide)
    rw [hclose, lazily_closeAt hnot]
    rfl
  have hversion : lazily versionAt ("\n\t\t".toList ++ ("version".toList ++ ": '".toList ++
      v.version ++ '\'' :: (",\n".toList ++
        (v.fields.tail.flatMap fieldLine ++ ("\t\x7d".toList ++ tail))))) =
      some (v.version, (readBack v).lastRelease, tail) := by
    have hskip : clashes ("version".toList ++ [':']) "\n\t\t".toList := by decide
    have hskips : ∀ s, Skips versionAt "\n\t\t".toList s := fun s =>
      skips_of_clashes (fun t y h => prefix_of_fieldAt t y h) hskip
    rw [lazily_append (hskips _)]
    refine lazily_of_some ?_
    rw [versionAt, fieldAt_self hne hvalue, Option.bind_some, hrelease]
    rfl
  have htext : "\x7b\n".toList ++ objectBody v ++ tail = '\x7b' :: ("\n\t\t".toList ++
      ("version".toList ++ ": '".toList ++ v.version ++ '\'' :: (",\n".toList ++
        (v.fields.tail.flatMap fieldLine ++ ("\t\x7d".toList ++ tail))))) := by
    simp [objectBody, PhpVersion.fields, fieldLine]
  rw [htext, objectAt, hversion, Option.map_some, ← htext, consumed_append]

/-- **What an object is read as.** -/
theorem versionOf_entry (hv : v.Legal) :
    versionOf ("\x7b\n".toList ++ objectBody v, v.version, (readBack v).lastRelease) =
      readBack v := by
  have hfind : ∀ name ∈ ["loaderFilename".toList, "wasmFilename".toList], ∃ rest,
      lazily (fieldAt name) ("\x7b\n".toList ++ objectBody v) =
        some (found name v.fields, rest) := by
    intro name hname
    have hname' : name ∈ ["version".toList, "loaderFilename".toList, "wasmFilename".toList,
        "lastRelease".toList] := by
      simp only [List.mem_cons, List.not_mem_nil, or_false] at hname ⊢
      rcases hname with rfl | rfl
      · exact .inr (.inl rfl)
      · exact .inr (.inr (.inl rfl))
    have hmem : name ∈ v.fields.map Prod.fst := by simpa [PhpVersion.fields] using hname'
    obtain ⟨u, -, hfind⟩ := @lazily_lines name "\t\x7d".toList v.fields hmem
      (searchable_fields (List.Subset.refl _) hname') fun f hf => hv.value hf
    have hskip : ∀ name ∈ ["loaderFilename".toList, "wasmFilename".toList],
        clashes (name ++ [':']) "\x7b\n".toList := by
      decide
    have hbind : (fun s => (fieldAt name s).bind some) = fieldAt name :=
      funext fun s => Option.bind_fun_some _
    have hfound := hfind some _ rfl
    rw [hbind] at hfound
    have hskips : ∀ s, Skips (fieldAt name) "\x7b\n".toList s := fun s =>
      hbind ▸ skips_of_clashes prefix_of_fieldAt (hskip name hname)
    exact ⟨_, by rw [lazily_append (hskips _), objectBody, hfound]⟩
  obtain ⟨rest, hloader⟩ := hfind "loaderFilename".toList (by simp)
  obtain ⟨rest', hwasm⟩ := hfind "wasmFilename".toList (by simp)
  rw [versionOf, hloader, hwasm]
  rfl

end Objects

/-! ## The file -/

section File

variable {versions : List PhpVersion}

theorem versionEntry_eq (v : PhpVersion) :
    versionEntry v = "\t".toList ++ ("\x7b\n".toList ++ objectBody v) := by
  simp [versionEntry, objectBody]

theorem mem_intercalate {c : Char} {sep : Text} {texts : List Text}
    (h : c ∈ sep.intercalate texts) : c ∈ sep ∨ ∃ t ∈ texts, c ∈ t := by
  induction texts with
  | nil => cases h
  | cons t texts ih =>
    cases texts with
    | nil =>
      rw [List.intercalate_singleton] at h
      exact .inr ⟨t, List.mem_cons_self, h⟩
    | cons t' texts =>
      rw [List.intercalate_cons_cons, List.mem_append, List.mem_append] at h
      rcases h with (h | h) | h
      · exact .inr ⟨t, List.mem_cons_self, h⟩
      · exact .inl h
      · refine (ih h).imp_right ?_
        rintro ⟨u, hu, hc⟩
        exact ⟨u, List.mem_cons_of_mem _ hu, hc⟩

/-- No object closes the array. -/
theorem not_mem_versionEntries (h : ∀ v ∈ versions, v.Legal) : ']' ∉ versionEntries versions := by
  have hentry : ∀ v ∈ versions, ']' ∉ versionEntry v := by
    intro v hv hmem
    have hlines := (h v hv).not_mem_lines (c := ']') (by decide)
    simp only [versionEntry, List.mem_append] at hmem
    rcases hmem with (hmem | hmem) | hmem
    · exact absurd hmem (by decide)
    · exact hlines hmem
    · exact absurd hmem (by decide)
  have hjoin : ']' ∉ ",\n".toList.intercalate (versions.map versionEntry) := by
    intro hmem
    rcases mem_intercalate hmem with hmem | ⟨t, ht, hmem⟩
    · exact absurd hmem (by decide)
    · obtain ⟨v, hv, rfl⟩ := List.mem_map.1 ht
      exact hentry v hv hmem
  rw [versionEntries, List.mem_append, List.mem_append]
  rintro ((hmem | hmem) | hmem)
  · exact absurd hmem (by decide)
  · exact hjoin hmem
  · exact absurd hmem (by decide)

theorem clashes_toList_append {w : Text} {a b : String} (ha : clashes w a.toList)
    (hb : clashes w b.toList) : clashes w (a ++ b).toList := by
  rw [String.toList_append]
  exact clashes_append ha hb

/-- **The array is found.** -/
theorem lazily_arrayAt (date : IsoDate) (h : ∀ v ∈ versions, v.Legal) :
    lazily arrayAt (generateFileContent date versions) =
      some ("[".toList ++ versionEntries versions ++ "]".toList) := by
  have hword : ∀ s y, arrayAt s = some y → "export const phpVersions = ".toList <+: s := by
    intro s y hy
    obtain ⟨r, hr, -⟩ := Option.bind_eq_some_iff.1 hy
    exact ⟨r, Scan.append_of_strip hr⟩
  have hdate : ∀ s, Skips arrayAt date.text s := by
    refine fun s => skips_of_forall fun c hc t => ?_
    have hne : ∀ c ∈ "0123456789-+:.TZ".toList, 'e' ≠ c := Scan.forall_mem_of_all (by decide)
    rw [arrayAt]
    have hstrip : strip "export const phpVersions = ".toList (c :: t) = none :=
      if_neg (hne c (date.chars c hc))
    rw [hstrip, Option.bind_none]
  have hclose : lazily (strip "];".toList) (versionEntries versions ++
      ("];".toList ++ "\n".toList)) = some "\n".toList := by
    have hskips : Skips (strip "];".toList) (versionEntries versions)
        ("];".toList ++ "\n".toList) := by
      refine skips_of_forall fun c hc t => if_neg ?_
      rintro rfl
      exact not_mem_versionEntries h hc
    rw [lazily_append hskips]
    exact lazily_of_some (Scan.strip_append _ _)
  have hfound : arrayAt ("export const phpVersions = ".toList ++ '[' :: (versionEntries versions ++
      ("];".toList ++ "\n".toList))) =
        some ("[".toList ++ versionEntries versions ++ "]".toList) := by
    have htext : '[' :: (versionEntries versions ++ ("];".toList ++ "\n".toList)) =
        ("[".toList ++ versionEntries versions ++ "]".toList) ++ (';' :: "\n".toList) := by
      simp
    rw [arrayAt, Scan.strip_append, Option.bind_some]
    refine (congrArg (Option.map fun rest => consumed ('[' :: _) (';' :: rest)) hclose).trans ?_
    rw [Option.map_some, htext, consumed_append]
  have hheader : ∀ a : Text, clashes "export const phpVersions = ".toList a → ∀ s,
      lazily arrayAt (a ++ s) = lazily arrayAt s := fun a ha s =>
    lazily_append (skips_of_clashes hword ha)
  -- the header is looked at line by line
  have htop : clashes "export const phpVersions = ".toList headerTop := by
    iterate 5 refine clashes_toList_append ?_ (by decide +kernel)
    decide +kernel
  have hbottom : clashes "export const phpVersions = ".toList headerBottom :=
    clashes_toList_append (by decide +kernel) (by decide +kernel)
  have htext : generateFileContent date versions = headerTop ++ (date.text ++ (headerBottom ++
      ("export const phpVersions = ".toList ++ '[' :: (versionEntries versions ++
        ("];".toList ++ "\n".toList))))) := by
    simp only [generateFileContent, List.append_assoc]
  rw [htext, hheader _ htop, lazily_append (hdate _), hheader _ hbottom]
  exact lazily_of_some hfound

/-- **The objects are found one after the other.** -/
theorem matchAll_objectAt (h : ∀ v ∈ versions, v.Legal) :
    (matchAll objectAt ("[".toList ++ versionEntries versions ++ "]".toList)).map versionOf =
      versions.map readBack := by
  have hbracket : ∀ c, c ≠ '\x7b' → ∀ t, objectAt (c :: t) = none := by
    intro c hc t
    rw [objectAt.eq_def]
    split
    · rename_i heq
      exact absurd (List.cons.inj heq).1 hc
    · rfl
  have hskips : ∀ a : Text, '\x7b' ∉ a → ∀ s, Skips objectAt a s := fun a ha s =>
    skips_of_forall fun c hc t => hbracket c (fun heq => ha (heq ▸ hc)) t
  have hentries : ∀ versions : List PhpVersion, (∀ v ∈ versions, v.Legal) →
      (matchAll objectAt (",\n".toList.intercalate (versions.map versionEntry) ++
        "\n]".toList)).map versionOf = versions.map readBack := by
    intro versions h
    induction versions with
    | nil =>
      have hend := matchAll_append (hskips "\n]".toList (by decide) [])
      rw [List.append_nil] at hend
      rw [List.map_nil, List.intercalate_nil, List.nil_append, hend, matchAll.eq_def]
      rfl
    | cons v versions ih =>
      obtain ⟨sep, hsep, htext⟩ : ∃ sep : Text, '\x7b' ∉ sep ∧
          ",\n".toList.intercalate ((v :: versions).map versionEntry) ++ "\n]".toList =
            "\t".toList ++ ("\x7b\n".toList ++ objectBody v ++ (sep ++
              (",\n".toList.intercalate (versions.map versionEntry) ++ "\n]".toList))) := by
        cases versions with
        | nil => exact ⟨[], by decide, by simp [versionEntry_eq]⟩
        | cons w versions =>
          refine ⟨",\n".toList, by decide, ?_⟩
          rw [List.map_cons, List.map_cons, List.intercalate_cons_cons, versionEntry_eq v]
          simp
      have hobject := @objectAt_entry v (sep ++ (",\n".toList.intercalate
        (versions.map versionEntry) ++ "\n]".toList)) (h v List.mem_cons_self)
      rw [htext, matchAll_append (hskips _ (by decide) _),
        matchAll_of_some hobject (by simp; omega), List.map_cons,
        versionOf_entry (h v List.mem_cons_self), matchAll_append (hskips sep hsep _),
        ih fun w hw => h w (List.mem_cons_of_mem _ hw), List.map_cons]
  have hstart : Skips objectAt "[\n".toList
      (",\n".toList.intercalate (versions.map versionEntry) ++ "\n]".toList) :=
    hskips _ (by decide) _
  have htext : "[".toList ++ versionEntries versions ++ "]".toList = "[\n".toList ++
      (",\n".toList.intercalate (versions.map versionEntry) ++ "\n]".toList) := by
    simp [versionEntries]
  rw [htext, matchAll_append hstart, hentries versions h]

/-- **What is read of a file that was written.** -/
theorem read_generate (date : IsoDate) (h : ∀ v ∈ versions, v.Legal) :
    readCurrentVersions (some (generateFileContent date versions)) = versions.map readBack := by
  rw [readCurrentVersions, Option.bind_some, lazily_arrayAt date h]
  exact matchAll_objectAt h

end File

/-! ## The result -/

/-- **The objects that are read back.**  No value ends with the name of a field that is looked for
in it, a colon and white space. -/
structure PhpVersion.Clean (v : PhpVersion) : Prop where
  loader : ¬ endsWithKey "loaderFilename".toList v.version
  wasm : ¬ endsWithKey "wasmFilename".toList v.version ∧
    ¬ endsWithKey "wasmFilename".toList v.loaderFilename
  release : ¬ endsWithKey "lastRelease".toList v.loaderFilename ∧
    ¬ endsWithKey "lastRelease".toList v.wasmFilename

/-- What is known is not a new release of any of the versions. -/
def NoNewRelease (latestVersions : Text → Option Text) (versions : List PhpVersion) : Prop :=
  ∀ v ∈ versions, ∀ newVersion ∈ latestVersions v.version,
    newVersion = [] ∨ newVersion = v.lastRelease

/-- A file is read as it was written, and the array stays as it is when there is no new release. -/
structure ReadRight (date : IsoDate) (versions : List PhpVersion) : Prop where
  read : readCurrentVersions (some (generateFileContent date versions)) = versions
  rewrite : ∀ date' latestVersions, NoNewRelease latestVersions versions →
    lazily arrayAt (updateVersionsFile date'
        (readCurrentVersions (some (generateFileContent date versions))) latestVersions) =
      lazily arrayAt (generateFileContent date versions)

section Result

variable {v : PhpVersion} {versions : List PhpVersion}

theorem between_ne {fields : List (Text × Text)} {f : Text × Text} (hv : v.Legal)
    (hf : f ∈ v.fields) : between fields ≠ f.2 := by
  intro heq
  have hnewline : '\n' ∈ f.2 := heq ▸ by simp [between]
  have := (hv f hf).2 _ hnewline
  exact absurd this (by decide)

/-- **When an object is read back.** -/
theorem readBack_eq_iff (hv : v.Legal) : readBack v = v ↔ v.Clean := by
  have hne : ∀ fields, ∀ f ∈ v.fields, between fields ≠ f.2 := fun fields f hf =>
    between_ne hv hf
  simp only [PhpVersion.fields, List.mem_cons, List.not_mem_nil, or_false, forall_eq_or_imp,
    forall_eq] at hne
  have hloader : (readBack v).loaderFilename = v.loaderFilename ↔
      ¬ endsWithKey "loaderFilename".toList v.version := by
    rw [readBack, PhpVersion.fields, found_cons_of_ne (by decide) (hne _).2.1, found_cons_self,
      and_iff_left rfl]
  have hwasm : (readBack v).wasmFilename = v.wasmFilename ↔
      ¬ endsWithKey "wasmFilename".toList v.version ∧
        ¬ endsWithKey "wasmFilename".toList v.loaderFilename := by
    rw [readBack, PhpVersion.fields, found_cons_of_ne (by decide) (hne _).2.2.1,
      found_cons_of_ne (by decide) (hne _).2.2.1, found_cons_self, and_iff_left rfl]
  have hrelease : (readBack v).lastRelease = v.lastRelease ↔
      ¬ endsWithKey "lastRelease".toList v.loaderFilename ∧
        ¬ endsWithKey "lastRelease".toList v.wasmFilename := by
    rw [readBack, PhpVersion.fields, List.tail_cons, found_cons_of_ne (by decide) (hne _).2.2.2,
      found_cons_of_ne (by decide) (hne _).2.2.2, found_cons_self, and_iff_left rfl]
  constructor
  · intro heq
    exact ⟨hloader.1 (by rw [heq]), hwasm.1 (by rw [heq]), hrelease.1 (by rw [heq])⟩
  · intro hclean
    have hload := hloader.2 hclean.loader
    have hwas := hwasm.2 hclean.wasm
    have hrel := hrelease.2 hclean.release
    obtain ⟨version, loaderFilename, wasmFilename, lastRelease⟩ := v
    rw [PhpVersion.mk.injEq]
    exact ⟨rfl, hload, hwas, hrel⟩

theorem withRelease_of_noNewRelease {latestVersions : Text → Option Text}
    (h : NoNewRelease latestVersions versions) :
    versions.map (fun v => withRelease v (latestVersions v.version)) = versions := by
  conv_rhs => rw [← List.map_id versions]
  refine List.map_congr_left fun v hv => ?_
  cases hlatest : latestVersions v.version with
  | none => rfl
  | some newVersion =>
    have hold := h v hv newVersion hlatest
    rw [withRelease, if_neg (by tauto)]
    rfl

/-- **When the array is read as it was written.** -/
theorem readRight_iff (date : IsoDate) (versions : List PhpVersion)
    (h : ∀ v ∈ versions, v.Legal) : ReadRight date versions ↔ ∀ v ∈ versions, v.Clean := by
  have hread := read_generate date h
  have hclean : versions.map readBack = versions ↔ ∀ v ∈ versions, v.Clean := by
    conv_lhs => rhs; rw [← List.map_id versions]
    rw [List.map_inj_left]
    exact forall₂_congr fun v hv => readBack_eq_iff (h v hv)
  constructor
  · intro hright
    exact hclean.1 (hread.symm.trans hright.read)
  · intro hall
    have hsame := hread.trans (hclean.2 hall)
    refine ⟨hsame, fun date' latestVersions hnew => ?_⟩
    rw [hsame, updateVersionsFile, withRelease_of_noNewRelease hnew, lazily_arrayAt date' h,
      lazily_arrayAt date h]

def exampleDate : IsoDate :=
  ⟨"2026-10-02T12:26:10.773Z".toList, Scan.forall_mem_of_all (by decide)⟩

/-- Elements of the array in the repository. -/
def exampleVersions : List PhpVersion :=
  [⟨"8.5".toList, "php_8_5.js".toList, "php_8_5.wasm".toList, "8.5.11".toList⟩,
    ⟨"8.4".toList, "php_8_4.js".toList, "php_8_4.wasm".toList, "8.4.26".toList⟩,
    ⟨"5.2".toList, "php_5_2.js".toList, "php_5_2.wasm".toList, "5.2.17".toList⟩]

/-- They are read back. -/
theorem readRight_iff_example :
    (∀ v ∈ exampleVersions, v.Legal) ∧ ReadRight exampleDate exampleVersions := by
  have hlegal : ∀ v ∈ exampleVersions, v.Legal := by decide
  have hclean : ∀ v ∈ exampleVersions, v.Clean := by
    intro v hv
    rcases List.mem_cons.1 hv with rfl | hv
    · exact ⟨by decide, by decide, by decide⟩
    rcases List.mem_cons.1 hv with rfl | hv
    · exact ⟨by decide, by decide, by decide⟩
    · obtain rfl := List.mem_singleton.1 hv
      exact ⟨by decide, by decide, by decide⟩
  exact ⟨hlegal, (readRight_iff _ _ hlegal).2 hclean⟩

/-- A loader whose name ends like the name of a field is taken for the field. -/
theorem loader_named_lastRelease :
    PhpVersion.Legal ⟨"8.5".toList, "lastRelease:".toList, "php_8_5.wasm".toList,
        "8.5.11".toList⟩ ∧
      readCurrentVersions (some (generateFileContent exampleDate
          [⟨"8.5".toList, "lastRelease:".toList, "php_8_5.wasm".toList, "8.5.11".toList⟩])) ≠
        [⟨"8.5".toList, "lastRelease:".toList, "php_8_5.wasm".toList, "8.5.11".toList⟩] := by
  have hlegal : PhpVersion.Legal ⟨"8.5".toList, "lastRelease:".toList, "php_8_5.wasm".toList,
      "8.5.11".toList⟩ := by
    decide
  refine ⟨hlegal, ?_⟩
  rw [read_generate _ (by simpa using hlegal)]
  decide

end Result

end PhpWasm.Build
