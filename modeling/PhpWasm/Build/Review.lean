import PhpWasm.Build.Config
import Mathlib.Data.List.DropRight

/-!
# The interactive review

Without `--quiet` a build starts with a review: the user edits the list of PHP versions, selects
the extensions to compile statically, and may save the result.  This file models
`interactiveReview` and the part of `runBuildCommand` around it, which saves the reviewed
configuration before `validateExtensions` has seen it.

The review offers the extensions with a flag of their own, and gives each of them a new entry that
holds a mode and nothing else.  So it moves a host away from what is bundled with it, and an entry
whose mode stays as it was loses its other fields.  `reviewRight_iff` is about every selection and
says when neither happens.
-/

set_option autoImplicit false

namespace PhpWasm.Build

/-! ## The questions -/

/-- What the user answers.  A cancelled question has no answer. -/
structure Answers where
  versions : Option String
  enabled : Option (List String)
  save : Option Bool

/-- `v.trim()` -/
def jsTrim (v : List Char) : List Char := (v.dropWhile isJsSpace).rdropWhile isJsSpace

/-- `.split(',').map((v) => v.trim()).filter(Boolean)` -/
def reviewedVersions (answer : String) : List String :=
  (((answer.toList.splitOn ',').map jsTrim).filter fun v => !v.isEmpty).map String.ofList

/-- `{ mode }` -/
def modeEntry (mode : String) : JsValue := .object [("mode", .string mode)]

/-- What an extension of the list of choices is set to.  A shared one that is not selected is left
alone. -/
def reviewedEntry (enabled : List String) (name : String) (entry : JsValue) : Option JsValue :=
  if name ∈ enabled then some (modeEntry "static")
  else if !(modeOf entry).isString "shared" then some (modeEntry "off")
  else none

/-- One turn of the loop of `interactiveReview`. -/
def reviewExtension (enabled : List String) (extensions : JsObject) (name : String) : JsObject :=
  match reviewedEntry enabled name (extensions.get name) with
  | some entry => extensions.set name entry
  | none => extensions

/-- `interactiveReview`: the configuration it leaves, and whether to save it.  Without an answer to
one of the first two questions the process ends. -/
def interactiveReview (config : Config) (answers : Answers) : Option (Config × Bool) := do
  let versions ← answers.versions
  let enabled ← answers.enabled
  let extensions :=
    (implementedExtensions.map Prod.fst).foldl (reviewExtension enabled) config.entries
  some (⟨some extensions, reviewedVersions versions⟩, answers.save.getD false)

/-! ## The command -/

/-- What a build throws about `config.yaml`. -/
inductive BuildError
  | extension (err : ConfigError)
  | noVersions

/-- The message of an error. -/
def BuildError.message : BuildError → String
  | extension err => err.message
  | noVersions => "config.yaml: php.versions is empty."

/-- What `runBuildCommand` checks of a configuration before it builds PHP. -/
def checkConfig (config : Config) : Except BuildError Unit := do
  (validateExtensions config).mapError .extension
  if config.versions.isEmpty then .error .noVersions else .ok ()

/-- What `runBuildCommand` writes to `config.yaml` after the review, with `--save` as it was
given. -/
def savedConfig (stringifyYaml : Config → String) (reviewed : Config) (shouldSave save : Bool) :
    Option String :=
  if shouldSave && save then some (stringifyYaml reviewed) else none

/-! ## What the review should do -/

/-- **The review is right**: what it leaves and what it writes is accepted, and an entry whose mode
is the old one has its old fields. -/
structure ReviewRight (parseYaml : String → Config) (config reviewed : Config)
    (written : Option String) : Prop where
  accepted : validateExtensions reviewed = .ok ()
  kept : ∀ e ∈ config.entries.entries, modeIn reviewed.entries e.1 = modeOf e.2 →
    ∀ field ∈ e.2.fields, field.1 ≠ "mode" → field ∈ (reviewed.entries.get e.1).fields
  /-- A later run that does not ask does not reject the file. -/
  later : ∀ text, written = some text → checkConfig (parseYaml text) = .ok ()

/-- What the user must not do. -/
structure ReviewHarmless (config : Config) (answers : Answers) (saved : Bool) : Prop where
  /-- A host that has bundled extensions listed beside it stays static, or stays not static. -/
  hosts : ∀ e ∈ config.entries.entries, ∀ host, bundledExtensions.lookup e.1 = some host →
    (host ∈ answers.enabled.getD [] ↔ modeIn config.entries host = .string "static")
  /-- An entry that is static or off, and stays so, holds nothing but its mode. -/
  plain : ∀ e ∈ config.entries.entries, e.1 ∈ implementedExtensions.map Prod.fst →
    modeOf e.2 ≠ .string "shared" →
    (e.1 ∈ answers.enabled.getD [] ↔ modeOf e.2 = .string "static") →
      ∀ field ∈ e.2.fields, field.1 = "mode"
  /-- The list of versions that is saved is not just commas and white space. -/
  versions : saved = true → ∃ answer, answers.versions = some answer ∧
    ∃ c ∈ answer.toList, c ≠ ',' ∧ isJsSpace c = false

/-! ## The list of versions -/

theorem jsTrim_eq_nil {v : List Char} : jsTrim v = [] ↔ ∀ c ∈ v, isJsSpace c = true := by
  rw [jsTrim, List.rdropWhile_eq_nil_iff]
  constructor
  · intro h c hc
    rw [← List.takeWhile_append_dropWhile (p := isJsSpace) (l := v), List.mem_append] at hc
    exact hc.elim List.mem_takeWhile_imp (h c)
  · exact fun h c hc => h c ((List.dropWhile_suffix isJsSpace).subset hc)

/-- What stands between the commas is what is not a comma. -/
theorem exists_mem_splitOn {p : Char → Prop} {l : List Char} :
    (∃ v ∈ l.splitOn ',', ∃ c ∈ v, p c) ↔ ∃ c ∈ l, c ≠ ',' ∧ p c := by
  induction l with
  | nil => simp
  | cons a l ih =>
    rw [List.splitOn_cons_eq_if_modifyHead, List.exists_mem_cons_iff, ← ih]
    by_cases ha : a = ','
    · simp [ha]
    · obtain ⟨v, vs, hvs⟩ := List.exists_cons_of_ne_nil (List.splitOn_ne_nil ',' l)
      simp [ha, hvs, or_assoc]

theorem reviewedVersions_ne_nil {answer : String} :
    reviewedVersions answer ≠ [] ↔ ∃ c ∈ answer.toList, c ≠ ',' ∧ isJsSpace c = false := by
  rw [← exists_mem_splitOn, reviewedVersions, Ne, List.map_eq_nil_iff, List.filter_eq_nil_iff]
  simp [jsTrim_eq_nil]

/-! ## What the loop leaves -/

theorem get_reviewExtension (enabled : List String) (extensions : JsObject) (name : String) :
    (reviewExtension enabled extensions name).get name =
      (reviewedEntry enabled name (extensions.get name)).getD (extensions.get name) := by
  rw [reviewExtension]
  cases reviewedEntry enabled name (extensions.get name) with
  | none => rfl
  | some entry => exact JsObject.get_set_self extensions name entry

/-- A turn of the loop is about one name. -/
theorem mem_reviewExtension_of_ne {enabled : List String} {extensions : JsObject} {name : String}
    {e : String × JsValue} (hne : e.1 ≠ name) :
    e ∈ (reviewExtension enabled extensions name).entries ↔ e ∈ extensions.entries := by
  rw [reviewExtension]
  cases reviewedEntry enabled name (extensions.get name) with
  | none => rfl
  | some entry =>
    rw [JsObject.mem_set, or_iff_left fun h => hne (congrArg Prod.fst h)]
    exact and_iff_right hne

/-- What is not offered is left alone. -/
theorem mem_reviewed_of_notMem {enabled names : List String} {e : String × JsValue}
    (he : e.1 ∉ names) (extensions : JsObject) :
    e ∈ (names.foldl (reviewExtension enabled) extensions).entries ↔ e ∈ extensions.entries := by
  induction names generalizing extensions with
  | nil => rfl
  | cons name names ih =>
    rw [List.mem_cons, not_or] at he
    obtain ⟨hne, he⟩ := he
    rw [List.foldl_cons, ih he, mem_reviewExtension_of_ne hne]

theorem get_reviewed_of_notMem {enabled names : List String} {name : String}
    (hname : name ∉ names) (extensions : JsObject) :
    (names.foldl (reviewExtension enabled) extensions).get name = extensions.get name :=
  JsObject.get_congr fun v => mem_reviewed_of_notMem (e := (name, v)) hname extensions

/-- What is offered is set once, from what it was. -/
theorem get_reviewed_of_mem {enabled names : List String} {name : String} (hnodup : names.Nodup)
    (hname : name ∈ names) (extensions : JsObject) :
    (names.foldl (reviewExtension enabled) extensions).get name =
      (reviewedEntry enabled name (extensions.get name)).getD (extensions.get name) := by
  induction names generalizing extensions with
  | nil => exact absurd hname List.not_mem_nil
  | cons first names ih =>
    obtain ⟨hfirst, hnodup⟩ := List.nodup_cons.1 hnodup
    rw [List.foldl_cons]
    rcases List.mem_cons.1 hname with rfl | hname
    · rw [get_reviewed_of_notMem hfirst, get_reviewExtension]
    · have hne : name ≠ first := fun h => hfirst (h ▸ hname)
      have hold : (reviewExtension enabled extensions first).get name = extensions.get name :=
        JsObject.get_congr fun v => mem_reviewExtension_of_ne (e := (name, v)) hne
      rw [ih hnodup hname, hold]

theorem implementedExtensions_nodup : (implementedExtensions.map Prod.fst).Nodup := by decide

/-- An extension with a flag is not judged by a host. -/
theorem tableKey_implemented {name : String} (h : name ∈ implementedExtensions.map Prod.fst) :
    tableKey bundledExtensions name = none := by
  have hall : ∀ name ∈ implementedExtensions.map Prod.fst,
      tableKey bundledExtensions name = none := by decide
  exact hall name h

theorem bundled_host_implemented {name host : String}
    (h : bundledExtensions.lookup name = some host) :
    host ∈ implementedExtensions.map Prod.fst := by
  have hall : ∀ e ∈ bundledExtensions, e.2 ∈ implementedExtensions.map Prod.fst := by decide
  obtain ⟨l, l', hl, -⟩ := List.lookup_eq_some_iff.1 h
  exact hall (name, host) (by rw [hl]; exact List.mem_append_right _ List.mem_cons_self)

theorem lookup_implemented {name : String} :
    (implementedExtensions.lookup name).isSome ↔ name ∈ implementedExtensions.map Prod.fst := by
  simp only [List.lookup_isSome_iff, List.mem_map, beq_iff_eq, eq_comm (a := name)]

/-! ## The modes after the review -/

theorem interactiveReview_eq_some {config reviewed : Config} {answers : Answers}
    {shouldSave : Bool} (h : interactiveReview config answers = some (reviewed, shouldSave)) :
    reviewed.entries = (implementedExtensions.map Prod.fst).foldl
        (reviewExtension (answers.enabled.getD [])) config.entries ∧
      ∃ answer, answers.versions = some answer ∧ reviewed.versions = reviewedVersions answer := by
  obtain ⟨versions, enabled, save⟩ := answers
  rw [interactiveReview, Option.bind_eq_bind, Option.bind_eq_some_iff] at h
  obtain ⟨versions, rfl, h⟩ := h
  rw [Option.bind_eq_bind, Option.bind_eq_some_iff] at h
  obtain ⟨enabled, rfl, h⟩ := h
  obtain ⟨rfl, -⟩ := Prod.mk.inj (Option.some.inj h)
  exact ⟨rfl, versions, rfl, rfl⟩

section Reviewed

variable {config reviewed : Config} {answers : Answers} {shouldSave : Bool}

theorem get_entries_of_mem (h : interactiveReview config answers = some (reviewed, shouldSave))
    {name : String} (hname : name ∈ implementedExtensions.map Prod.fst) :
    reviewed.entries.get name =
      (reviewedEntry (answers.enabled.getD []) name (config.entries.get name)).getD
        (config.entries.get name) := by
  rw [(interactiveReview_eq_some h).1, get_reviewed_of_mem implementedExtensions_nodup hname]

theorem mem_entries_of_notMem (h : interactiveReview config answers = some (reviewed, shouldSave))
    {e : String × JsValue} (he : e.1 ∉ implementedExtensions.map Prod.fst) :
    e ∈ reviewed.entries.entries ↔ e ∈ config.entries.entries := by
  rw [(interactiveReview_eq_some h).1, mem_reviewed_of_notMem he]

/-- The mode of an extension that is offered. -/
theorem modeIn_reviewed (h : interactiveReview config answers = some (reviewed, shouldSave))
    {name : String} (hname : name ∈ implementedExtensions.map Prod.fst) :
    modeIn reviewed.entries name =
      if name ∈ answers.enabled.getD [] then .string "static"
      else if (modeIn config.entries name).isString "shared" then .string "shared"
      else .string "off" := by
  rw [modeIn, modeIn, get_entries_of_mem h hname, reviewedEntry]
  split
  · rfl
  · cases hshared : (modeOf (config.entries.get name)).isString "shared" with
    | true => exact JsValue.isString_eq_true.1 hshared
    | false => rfl

/-- The mode of an extension that is not judged by a host, if the configuration is accepted. -/
theorem modeIn_cases (hok : validateExtensions config = .ok ()) {name : String}
    (hhost : tableKey bundledExtensions name = none) :
    modeIn config.entries name = .string "off" ∨ modeIn config.entries name = .string "shared" ∨
      modeIn config.entries name = .string "static" := by
  by_cases hu : config.entries.get name = .undefined
  · left
    rw [modeIn, hu]
    rfl
  · have hchecked := validateExtensions_ok_iff.1 hok _ (JsObject.mem_of_get hu)
    rcases (validateExtension_free hhost).1 hchecked with hoff | ⟨hshared, -⟩ | ⟨hstatic, -⟩
    · exact .inl hoff
    · exact .inr (.inl hshared)
    · exact .inr (.inr hstatic)

/-- The review leaves the mode of a host as it was when it stays static or stays not static. -/
theorem modeIn_reviewed_eq_iff (hok : validateExtensions config = .ok ())
    (h : interactiveReview config answers = some (reviewed, shouldSave))
    {host : String} (hhost : host ∈ implementedExtensions.map Prod.fst) :
    modeIn reviewed.entries host = modeIn config.entries host ↔
      (host ∈ answers.enabled.getD [] ↔ modeIn config.entries host = .string "static") := by
  rw [modeIn_reviewed h hhost]
  by_cases henabled : host ∈ answers.enabled.getD [] <;>
    rcases modeIn_cases hok (tableKey_implemented hhost) with hmode | hmode | hmode <;>
      simp [henabled, hmode]

/-- An extension that is offered is accepted after the review. -/
theorem validateExtension_implemented (hok : validateExtensions config = .ok ())
    (h : interactiveReview config answers = some (reviewed, shouldSave))
    {e : String × JsValue} (he : e ∈ reviewed.entries.entries)
    (hname : e.1 ∈ implementedExtensions.map Prod.fst) :
    validateExtension reviewed.entries e.1 e.2 = .ok () := by
  rw [validateExtension_free (tableKey_implemented hname), lookup_implemented,
    ← JsObject.get_of_mem he, get_entries_of_mem h hname, reviewedEntry]
  split
  · exact .inr (.inr ⟨rfl, hname⟩)
  · split
    · exact .inl rfl
    · -- a shared extension that is not selected keeps the source it was accepted with
      rename_i hshared
      rw [Bool.not_eq_true', Bool.not_eq_false, JsValue.isString_eq_true] at hshared
      have hmem := mem_of_modeIn hshared (by decide)
      have hchecked := validateExtensions_ok_iff.1 hok _ hmem
      rw [validateExtension_free (tableKey_implemented hname), lookup_implemented] at hchecked
      exact hchecked

/-- An extension that is not offered is accepted after the review if its host has the mode it
had. -/
theorem validateExtension_other (hok : validateExtensions config = .ok ())
    (h : interactiveReview config answers = some (reviewed, shouldSave))
    {e : String × JsValue} (he : e ∈ config.entries.entries)
    (hhost : ∀ host, bundledExtensions.lookup e.1 = some host →
      modeIn reviewed.entries host = modeIn config.entries host) :
    validateExtension reviewed.entries e.1 e.2 = .ok () := by
  have hchecked := validateExtensions_ok_iff.1 hok e he
  cases hkey : tableKey bundledExtensions e.1 with
  | none => rwa [validateExtension_free hkey] at hchecked ⊢
  | some host =>
    have hmode : modeIn reviewed.entries host = modeIn config.entries host := by
      rcases Option.or_eq_some_iff.1 hkey with hbundled | ⟨-, hproto⟩
      · exact hhost host hbundled
      · have hnot : host ∉ implementedExtensions.map Prod.fst := by
          rw [← lookup_implemented, implemented_of_objectPrototype hproto]
          exact Bool.false_ne_true
        rw [modeIn, modeIn, (interactiveReview_eq_some h).1, get_reviewed_of_notMem hnot]
    rw [validateExtension_hosted hkey] at hchecked ⊢
    rwa [hmode]

theorem validateExtensions_reviewed_iff (hok : validateExtensions config = .ok ())
    (h : interactiveReview config answers = some (reviewed, shouldSave)) :
    validateExtensions reviewed = .ok () ↔
      ∀ e ∈ config.entries.entries, ∀ host, bundledExtensions.lookup e.1 = some host →
        (host ∈ answers.enabled.getD [] ↔ modeIn config.entries host = .string "static") := by
  constructor
  · intro hreviewed e he host hbundled
    have hhost := bundled_host_implemented hbundled
    have hkey : tableKey bundledExtensions e.1 = some host := by
      rw [tableKey, hbundled, Option.some_or]
    have hname : e.1 ∉ implementedExtensions.map Prod.fst := fun hname => by
      rw [tableKey_implemented hname] at hkey
      exact Option.some_ne_none _ hkey.symm
    -- the bundled extension has the mode of its host before and after
    have hold := validateExtensions_ok_iff.1 hok e he
    have hnew := validateExtensions_ok_iff.1 hreviewed e ((mem_entries_of_notMem h hname).2 he)
    rw [validateExtension_hosted hkey] at hold hnew
    rw [← modeIn_reviewed_eq_iff hok h hhost]
    rcases modeIn_cases hok (tableKey_implemented hhost) with hmode | hmode | hmode <;>
    · rw [hmode] at hold ⊢
      rw [JsValue.strictEq_string_right] at hold
      rwa [hold, JsValue.strictEq_string] at hnew
  · intro hhosts
    refine validateExtensions_ok_iff.2 fun e he => ?_
    by_cases hname : e.1 ∈ implementedExtensions.map Prod.fst
    · exact validateExtension_implemented hok h he hname
    · refine validateExtension_other hok h ((mem_entries_of_notMem h hname).1 he)
        fun host hbundled => ?_
      exact (modeIn_reviewed_eq_iff hok h (bundled_host_implemented hbundled)).2
        (hhosts e ((mem_entries_of_notMem h hname).1 he) host hbundled)

/-- An entry that is not shared loses all its fields but the mode. -/
theorem mem_fields_reviewed (h : interactiveReview config answers = some (reviewed, shouldSave))
    {name : String} (hname : name ∈ implementedExtensions.map Prod.fst)
    (hmode : modeIn config.entries name ≠ .string "shared") {field : String × JsValue}
    (hfield : field ∈ (reviewed.entries.get name).fields) : field.1 = "mode" := by
  rw [get_entries_of_mem h hname, reviewedEntry] at hfield
  split at hfield
  · exact congrArg Prod.fst (List.mem_singleton.1 hfield)
  · rw [modeIn, Ne, ← JsValue.isString_eq_true] at hmode
    rw [if_pos (by simpa only [Bool.not_eq_true', Bool.not_eq_true] using hmode)] at hfield
    exact congrArg Prod.fst (List.mem_singleton.1 hfield)

/-- An entry keeps its fields when it is not offered, when it is shared, or when there is nothing
to lose. -/
theorem kept_iff (hok : validateExtensions config = .ok ())
    (h : interactiveReview config answers = some (reviewed, shouldSave))
    {e : String × JsValue} (he : e ∈ config.entries.entries) :
    (modeIn reviewed.entries e.1 = modeOf e.2 →
        ∀ field ∈ e.2.fields, field.1 ≠ "mode" → field ∈ (reviewed.entries.get e.1).fields) ↔
      (e.1 ∈ implementedExtensions.map Prod.fst → modeOf e.2 ≠ .string "shared" →
        (e.1 ∈ answers.enabled.getD [] ↔ modeOf e.2 = .string "static") →
          ∀ field ∈ e.2.fields, field.1 = "mode") := by
  have hget : config.entries.get e.1 = e.2 := JsObject.get_of_mem he
  have hmode : modeIn config.entries e.1 = modeOf e.2 := by rw [modeIn, hget]
  by_cases hname : e.1 ∈ implementedExtensions.map Prod.fst
  · rw [← hmode, modeIn_reviewed_eq_iff hok h hname]
    constructor
    · intro hkept _ hshared hsame field hfield
      by_contra hne
      exact hne (mem_fields_reviewed h hname hshared (hkept hsame field hfield hne))
    · intro hplain hsame field hfield hne
      by_cases hshared : modeIn config.entries e.1 = .string "shared"
      · have hnot : e.1 ∉ answers.enabled.getD [] := by simp [hsame, hshared]
        rw [modeIn, ← JsValue.isString_eq_true] at hshared
        rwa [get_entries_of_mem h hname, reviewedEntry, if_neg hnot, hshared, hget]
      · exact absurd (hplain hname hshared hsame field hfield) hne
  · have hkept : reviewed.entries.get e.1 = e.2 :=
      JsObject.get_of_mem ((mem_entries_of_notMem h hname).2 he)
    rw [hkept]
    exact ⟨fun _ hname' => absurd hname' hname, fun _ _ _ hfield _ => hfield⟩

end Reviewed

/-! ## When the review is right -/

theorem checkConfig_ok_iff {config : Config} :
    checkConfig config = .ok () ↔ validateExtensions config = .ok () ∧ config.versions ≠ [] := by
  rw [checkConfig]
  cases validateExtensions config with
  | ok u =>
    show (if config.versions.isEmpty then _ else _) = _ ↔ _
    cases config.versions <;> simp
  | error err => exact ⟨fun h => (by cases h), fun h => (by cases h.1)⟩

/-- **When the review of an accepted configuration is right**, for every selection and every list
of versions. -/
theorem reviewRight_iff {config reviewed : Config} {answers : Answers} {shouldSave : Bool}
    (save : Bool) {stringifyYaml : Config → String} {parseYaml : String → Config}
    (hyaml : parseYaml (stringifyYaml reviewed) = reviewed)
    (hok : validateExtensions config = .ok ())
    (h : interactiveReview config answers = some (reviewed, shouldSave)) :
    ReviewRight parseYaml config reviewed (savedConfig stringifyYaml reviewed shouldSave save) ↔
      ReviewHarmless config answers (shouldSave && save) := by
  obtain ⟨-, answer, hanswer, hversions⟩ := interactiveReview_eq_some h
  have haccepted := validateExtensions_reviewed_iff hok h
  constructor
  · intro hright
    refine ⟨haccepted.1 hright.accepted, fun e he => (kept_iff hok h he).1 (hright.kept e he),
      fun hsaved => ⟨answer, hanswer, ?_⟩⟩
    have hlater := hright.later (stringifyYaml reviewed) (by rw [savedConfig, if_pos hsaved])
    rw [hyaml, checkConfig_ok_iff, hversions] at hlater
    exact reviewedVersions_ne_nil.1 hlater.2
  · intro hharmless
    refine ⟨haccepted.2 hharmless.hosts, fun e he => (kept_iff hok h he).2 (hharmless.plain e he),
      fun text htext => ?_⟩
    rw [savedConfig, Option.ite_none_right_eq_some] at htext
    obtain ⟨hsaved, htext⟩ := htext
    obtain rfl := Option.some.inj htext
    obtain ⟨answer', hanswer', hne⟩ := hharmless.versions hsaved
    rw [Option.some.inj (hanswer.symm.trans hanswer')] at hversions
    rw [hyaml, checkConfig_ok_iff, hversions]
    exact ⟨haccepted.2 hharmless.hosts, reviewedVersions_ne_nil.2 hne⟩

/-- A configuration with `libxml`, static, and the `dom` that comes with it. -/
def libxmlConfig : Config :=
  ⟨some ⟨[("libxml", entryOf "static" none), ("dom", entryOf "static" none)], by decide⟩, ["8.5"]⟩

theorem mem_libxmlConfig {e : String × JsValue} :
    e ∈ libxmlConfig.entries.entries ↔
      e = ("libxml", entryOf "static" none) ∨ e = ("dom", entryOf "static" none) := by
  simp [libxmlConfig, Config.entries]

/-- Turning `libxml` off leaves its `dom` behind, and the file that is written is rejected. -/
theorem deselected_host_not_right :
    ∃ reviewed, interactiveReview libxmlConfig ⟨some "8.5", some [], some true⟩ =
        some (reviewed, true) ∧ (validateExtensions libxmlConfig).isOk = true ∧
      validateExtensions reviewed ≠ .ok () ∧
        ∀ stringifyYaml parseYaml, ¬ ReviewRight parseYaml libxmlConfig reviewed
          (savedConfig stringifyYaml reviewed true true) := by
  have hreview : interactiveReview libxmlConfig ⟨some "8.5", some [], some true⟩ =
    some (_, true) := rfl
  have hrejected := mt (validateExtensions_reviewed_iff rfl hreview).1 fun h => by
    have hdom := h ("dom", entryOf "static" none) (mem_libxmlConfig.2 (.inr rfl)) "libxml" rfl
    exact absurd (hdom.2 rfl) List.not_mem_nil
  exact ⟨_, hreview, by decide, hrejected, fun _ _ h => hrejected h.accepted⟩

/-- The YAML of a configuration whose entries have a mode and nothing else. -/
def yamlText (config : Config) : String :=
  "php:\n  versions:\n" ++
    String.join (config.versions.map fun v => "    - \"" ++ v ++ "\"\n") ++ "extensions:\n" ++
      String.join (config.entries.entries.map fun e =>
        "  " ++ e.1 ++ ":\n    mode: " ++ (modeOf e.2).toText ++ "\n")

/-- Nothing goes wrong while `libxml` stays selected. -/
theorem selected_host_right :
    ∃ reviewed, interactiveReview libxmlConfig ⟨some "8.5", some ["libxml"], some true⟩ =
        some (reviewed, true) ∧
      ReviewRight (fun text => if text = yamlText reviewed then reviewed else ⟨none, []⟩)
        libxmlConfig reviewed (savedConfig yamlText reviewed true true) := by
  have hreview : interactiveReview libxmlConfig ⟨some "8.5", some ["libxml"], some true⟩ =
    some (_, true) := rfl
  refine ⟨_, hreview, (reviewRight_iff true (if_pos rfl) rfl hreview).2 ⟨?_, ?_, ?_⟩⟩
  · intro e he host hhost
    rcases mem_libxmlConfig.1 he with rfl | rfl
    · cases hhost
    · obtain rfl : "libxml" = host := Option.some.inj hhost
      exact iff_of_true List.mem_cons_self rfl
  · intro e he _ _ _ field hfield
    rcases mem_libxmlConfig.1 he with rfl | rfl <;>
      exact congrArg Prod.fst (List.mem_singleton.1 hfield)
  · exact fun _ => ⟨"8.5", rfl, '8', by decide, by decide, by decide⟩

end PhpWasm.Build
