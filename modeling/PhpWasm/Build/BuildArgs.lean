import PhpWasm.Base.NumberText
import PhpWasm.Build.Config
import PhpWasm.Build.LibVersions

/-!
# The versions a build is told

`buildArgsForVersion` passes what `matrix.json` records to `build.js` as `--NAME=version`, and
`build.js` hands it on to Docker as `NAME=version`.  In between is yargs: an option that `build.js`
does not declare becomes a number when it looks like one, and none of these options is declared.

* `versionPassed_iff`: a version arrives as it is recorded just when it is no number literal, or is
  written the way JavaScript writes the number.
* `three_components_passed`: a version with two points always arrives.
-/

set_option autoImplicit false

namespace PhpWasm.Build

open Vendored (Text)
open JsNumber (Number Short Faithful layout toNumber decimalLiteral)

/-! ## `buildArgsForVersion` -/

/-- An option whose value is a recorded version. -/
structure VersionOption where
  name : Text
  sec : MatrixSection
  key : Text
  deriving DecidableEq

/-- `--NAME=${getMatrixVersion(key)}` -/
def libraryOption (name key : String) : VersionOption := ⟨name.toList, .libraries, key.toList⟩

/-- `--NAME=${getMatrixExtensionVersion(key)}` -/
def extensionOption (name key : String) : VersionOption := ⟨name.toList, .extensions, key.toList⟩

/-- The options of `buildArgsForVersion` whose value is a recorded version. -/
def versionOptions : List VersionOption :=
  [extensionOption "YAML_EXT_VERSION" "yaml", extensionOption "MDHTML_EXT_VERSION" "mdhtml",
    extensionOption "JSONK_EXT_VERSION" "jsonk", libraryOption "SIMDJSON_VERSION" "simdjson",
    libraryOption "YYJSON_VERSION" "yyjson", extensionOption "APCU_EXT_VERSION" "apcu",
    extensionOption "NAVICAT_EXT_VERSION" "navicat",
    extensionOption "IGBINARY_EXT_VERSION" "igbinary", extensionOption "NORM_EXT_VERSION" "norm",
    libraryOption "UTF8PROC_VERSION" "utf8proc", extensionOption "AURA_EXT_VERSION" "aura",
    extensionOption "TRANSLIT_EXT_VERSION" "translit",
    extensionOption "JSONPATH_EXT_VERSION" "jsonpath",
    extensionOption "FASTCSV_EXT_VERSION" "fastcsv", extensionOption "ASPECT_EXT_VERSION" "aspect",
    extensionOption "IMAGICK_EXT_VERSION" "imagick"]

/-- What `buildArgsForVersion` is called with and reads. -/
structure BuildRequest where
  phpVersion : Text
  config : Config
  /-- `config.build.openssl_version` -/
  opensslVersion : Option Text
  /-- `config.build.stack_size` -/
  stackSize : Option Text
  /-- `config.build.debug` -/
  debug : Bool
  /-- `config.build.sourcemaps` -/
  sourcemaps : Bool
  outputDir : Text
  /-- The collections of `matrix.json`. -/
  matrix : MatrixSection → Collection

/-- The version of an option in `matrix.json`. -/
def BuildRequest.recorded (req : BuildRequest) (o : VersionOption) : Except Text Text :=
  getMatrixVersion o.sec (req.matrix o.sec) o.key

/-- The values of the version options. -/
def BuildRequest.versions (req : BuildRequest) :
    List VersionOption → Except Text (List (Text × Text))
  | [] => .ok []
  | o :: os => do
    let version ← req.recorded o
    let rest ← req.versions os
    .ok ((o.name, version) :: rest)

/-- `yes` or `no` -/
def yesNo (b : Bool) : Text := if b then "yes".toList else "no".toList

/-- `build.openssl_version ?? getMatrixVersion('libopenssl')` -/
def BuildRequest.openssl (req : BuildRequest) : Except Text Text :=
  match req.opensslVersion with
  | some version => .ok version
  | none => getMatrixVersion .libraries (req.matrix .libraries) "libopenssl".toList

/-- The arguments of `buildArgsForVersion` as names and values. -/
def BuildRequest.options (req : BuildRequest) : Except Text (List (Text × Text)) := do
  let openssl ← req.openssl
  let versions ← req.versions versionOptions
  .ok (("PHP_VERSION".toList, req.phpVersion) ::
    (extensionFlags req.config).map (fun f => (f.1.toList, f.2.toList)) ++
    [("WITH_OPENSSL_VERSION".toList, openssl),
      ("STACK_SIZE".toList, req.stackSize.getD "1MB".toList),
      ("WITH_DEBUG".toList, yesNo req.debug), ("WITH_SOURCEMAPS".toList, yesNo req.sourcemaps)] ++
    versions ++ [("output-dir".toList, req.outputDir)])

/-- `--name=value` -/
def optionText (o : Text × Text) : Text := '-' :: '-' :: (o.1 ++ '=' :: o.2)

/-- `buildArgsForVersion` -/
def buildArgsForVersion (req : BuildRequest) : Except Text (List Text) :=
  req.options.map fun options => options.map optionText

/-! ## yargs -/

/-- The options `build.js` declares as strings. -/
def stringOptions : List Text :=
  ["WITH_FILEINFO", "WITH_LIBXML", "WITH_SOAP", "WITH_LIBZIP", "WITH_EXIF", "WITH_GD", "WITH_ICONV",
    "WITH_MBSTRING", "WITH_MBREGEX", "WITH_CLI_SAPI", "WITH_OPENSSL", "WITH_NODEFS", "WITH_CURL",
    "WITH_SQLITE", "WITH_SOURCEMAPS", "WITH_DEBUG", "WITH_MYSQL", "WITH_WS_NETWORKING_PROXY",
    "WITH_IMAGICK", "PHP_VERSION", "PHP_REF", "output-dir", "WITH_OPENSSL_VERSION", "WITH_OPCACHE",
    "STACK_SIZE"].map String.toList

/-- The value of an option. -/
inductive ArgValue
  | text (t : Text)
  | number (n : Number)
  deriving DecidableEq

/-- Empty texts and zero are falsy. -/
def ArgValue.truthy : ArgValue → Bool
  | text t => t ≠ []
  | number n => n ≠ .zero

/-- An argument in a template. -/
def ArgValue.toText : ArgValue → Text
  | text t => t
  | number n => n.toText

/-- What yargs makes of a value: a number, when it is a decimal number literal and the option is not
declared as a string. -/
def parseValue (name value : Text) : ArgValue :=
  if name ∈ stringOptions then .text value
  else
    match decimalLiteral value with
    | some q => .number (toNumber q)
    | none => .text value

/-- What yargs makes of an argument `--name=value`. -/
def parseOption (arg : Text) : Text × ArgValue :=
  let option := arg.drop 2
  let name := option.takeWhile (· ≠ '=')
  (name, parseValue name ((option.dropWhile (· ≠ '=')).drop 1))

/-! ## The arguments for Docker -/

/-- `${args.NAME || fallback}`: yargs collects the values of an option that is given repeatedly. -/
def argOr (args : List (Text × ArgValue)) (name fallback : Text) : Text :=
  match (args.filter fun a => a.1 = name).map Prod.snd with
  | [] => fallback
  | [value] => if value.truthy then value.toText else fallback
  | values => List.intercalate [','] (values.map ArgValue.toText)

/-- The versions among the build arguments of `build.js`, with the fallback of each. -/
def dockerVersions : List (Text × Text) :=
  [("YAML_EXT_VERSION", "2.3.0"), ("MDHTML_EXT_VERSION", "v0.1.0"), ("JSONK_EXT_VERSION", "v0.1.0"),
    ("SIMDJSON_VERSION", "4.6.11"), ("YYJSON_VERSION", "0.13.0"), ("APCU_EXT_VERSION", "v5.1.28"),
    ("NAVICAT_EXT_VERSION", "v0.1.0"), ("IGBINARY_EXT_VERSION", "3.2.15"),
    ("NORM_EXT_VERSION", "v0.1.0"), ("AURA_EXT_VERSION", "v1.0.5"),
    ("TRANSLIT_EXT_VERSION", "0.7.3"), ("JSONPATH_EXT_VERSION", "v3.1.0"),
    ("FASTCSV_EXT_VERSION", "v0.0.2"), ("ASPECT_EXT_VERSION", "0.1.1"),
    ("UTF8PROC_VERSION", "2.11.3"), ("IMAGICK_EXT_VERSION", "3.8.1")].map fun o =>
      (o.1.toList, o.2.toList)

/-- The build arguments with the versions. -/
def dockerBuildArgs (args : List (Text × ArgValue)) : List Text :=
  dockerVersions.map fun o => o.1 ++ '=' :: argOr args o.1 o.2

/-- The build argument with this name is `name=version`, and there is no other one. -/
def VersionPassed (argv : List Text) (name version : Text) : Prop :=
  (dockerBuildArgs (argv.map parseOption)).filter (fun arg => (name ++ ['=']).isPrefixOf arg)
    = [name ++ '=' :: version]

/-- **A version that yargs leaves as it is**: it is not empty, and if it is a number literal, then
it is laid out as JavaScript does it, with the digits that the nearest double is written with.  Up
to fifteen digits always are. -/
def KeptAsWritten (version : Text) : Prop :=
  version ≠ [] ∧ ((decimalLiteral version).isSome →
    ∃ s e, version = layout s e ∧ (Short s e ∨ Faithful s e))

/-! ## Names and values -/

section names

variable {name value : Text}

theorem takeWhile_name (h : '=' ∉ name) :
    (name ++ '=' :: value).takeWhile (· ≠ '=') = name ∧
      (name ++ '=' :: value).dropWhile (· ≠ '=') = '=' :: value := by
  have hall : ∀ c ∈ name, decide (c ≠ '=') = true := fun c hc =>
    decide_eq_true fun heq => h (heq ▸ hc)
  rw [List.takeWhile_append_of_pos hall, List.dropWhile_append_of_pos hall]
  simp

/-- yargs gets the name and the value back. -/
theorem parseOption_optionText (h : '=' ∉ name) :
    parseOption (optionText (name, value)) = (name, parseValue name value) := by
  have hoption : (optionText (name, value)).drop 2 = name ++ '=' :: value := rfl
  rw [parseOption, hoption, (takeWhile_name h).1, (takeWhile_name h).2]
  rfl

theorem isPrefixOf_name {other : Text} (h : '=' ∉ name) (hother : '=' ∉ other) :
    (name ++ ['=']).isPrefixOf (other ++ '=' :: value) = decide (other = name) := by
  rw [Bool.eq_iff_iff, List.isPrefixOf_iff_prefix, decide_eq_true_iff]
  constructor
  · rintro ⟨rest, hrest⟩
    rw [List.append_assoc, List.singleton_append] at hrest
    rw [← (takeWhile_name h).1, ← (takeWhile_name hother).1, hrest]
  · rintro rfl
    exact ⟨value, by simp⟩

/-- A name that occurs once. -/
theorem filter_name {β : Type*} {l : List (Text × β)} (hnodup : (l.map Prod.fst).Nodup) {v : β}
    (hmem : (name, v) ∈ l) : l.filter (fun o => decide (o.1 = name)) = [(name, v)] := by
  induction l with
  | nil => cases hmem
  | cons o l ih =>
    rw [List.map_cons, List.nodup_cons] at hnodup
    rcases List.mem_cons.1 hmem with rfl | hmem
    · rw [List.filter_cons_of_pos (by simp), List.cons.injEq, List.filter_eq_nil_iff]
      refine ⟨rfl, fun a ha heq => hnodup.1 ?_⟩
      exact List.mem_map.2 ⟨a, ha, of_decide_eq_true heq⟩
    · have hne : o.1 ≠ name := fun heq => hnodup.1 (List.mem_map.2 ⟨_, hmem, heq.symm⟩)
      rw [List.filter_cons_of_neg (by simpa using hne), ih hnodup.2 hmem]

end names

/-! ## The options of a build -/

section options

variable {req : BuildRequest}

theorem versions_ok {os : List VersionOption} {versions : List (Text × Text)}
    (h : req.versions os = .ok versions) :
    versions.map Prod.fst = os.map VersionOption.name ∧
      ∀ o ∈ os, ∀ v, req.recorded o = .ok v → (o.name, v) ∈ versions := by
  induction os generalizing versions with
  | nil =>
    cases h
    exact ⟨rfl, fun _ ho => absurd ho List.not_mem_nil⟩
  | cons o os ih =>
    rw [BuildRequest.versions] at h
    match hversion : req.recorded o, hrest : req.versions os with
    | .error _, _ =>
      rw [hversion] at h
      cases h
    | .ok version, .error _ =>
      rw [hversion, hrest] at h
      cases h
    | .ok version, .ok rest =>
      rw [hversion, hrest] at h
      cases h
      obtain ⟨hnames, hmem⟩ := ih hrest
      refine ⟨by rw [List.map_cons, hnames, List.map_cons], fun o' ho' v hv => ?_⟩
      rcases List.mem_cons.1 ho' with rfl | ho'
      · rw [hversion] at hv
        cases hv
        exact List.mem_cons_self
      · exact List.mem_cons_of_mem _ (hmem o' ho' v hv)

/-- The names of the options. -/
def optionNames : List Text :=
  "PHP_VERSION".toList :: implementedExtensions.map (fun e => e.2.toList) ++
    ["WITH_OPENSSL_VERSION".toList, "STACK_SIZE".toList, "WITH_DEBUG".toList,
      "WITH_SOURCEMAPS".toList] ++ versionOptions.map VersionOption.name ++ ["output-dir".toList]

theorem optionNames_nodup : optionNames.Nodup := by decide +kernel

theorem eq_notMem_optionNames : ∀ name ∈ optionNames, '=' ∉ name := by decide +kernel

theorem options_ok {options : List (Text × Text)} (h : req.options = .ok options) :
    options.map Prod.fst = optionNames ∧
      ∀ o ∈ versionOptions, ∀ v, req.recorded o = .ok v → (o.name, v) ∈ options := by
  rw [BuildRequest.options] at h
  match hopenssl : req.openssl, hversions : req.versions versionOptions with
  | .error _, _ =>
    rw [hopenssl] at h
    cases h
  | .ok _, .error _ =>
    rw [hopenssl, hversions] at h
    cases h
  | .ok _, .ok versions =>
    rw [hopenssl, hversions] at h
    cases h
    obtain ⟨hnames, hmem⟩ := versions_ok hversions
    refine ⟨?_, fun o ho v hv => ?_⟩
    · simp only [List.map_cons, List.map_append, List.map_map, hnames, extensionFlags, optionNames]
      rfl
    · exact List.mem_append_left _ (List.mem_append_right _ (hmem o ho v hv))

/-- yargs gets every option, with its value. -/
theorem parseOption_args {options : List (Text × Text)} (h : req.options = .ok options) :
    (options.map optionText).map parseOption = options.map fun o => (o.1, parseValue o.1 o.2) := by
  rw [List.map_map]
  refine List.map_congr_left fun o ho => parseOption_optionText (eq_notMem_optionNames o.1 ?_)
  rw [← (options_ok h).1]
  exact List.mem_map_of_mem ho

end options

/-! ## What arrives -/

section result

variable {req : BuildRequest} {o : VersionOption} {v : Text}

theorem name_notMem_stringOptions : ∀ o ∈ versionOptions, o.name ∉ stringOptions := by
  decide +kernel

theorem dockerVersions_nodup : (dockerVersions.map Prod.fst).Nodup := by decide +kernel

theorem eq_notMem_dockerVersions : ∀ o ∈ dockerVersions, '=' ∉ o.1 := by decide

/-- Every option has a fallback. -/
theorem exists_fallback : ∀ o ∈ versionOptions, o.name ∈ dockerVersions.map Prod.fst := by
  decide +kernel

theorem dockerVersions_points : ∀ d ∈ dockerVersions, 2 ≤ d.2.count '.' := by decide

/-- A fallback has two points, and so is no literal. -/
theorem fallback_no_literal {d : Text × Text} (hd : d ∈ dockerVersions) :
    decimalLiteral d.2 = none :=
  JsNumber.decimalLiteral_two_points (dockerVersions_points d hd)

/-- What `build.js` passes for an option that yargs has one value of. -/
def passedValue (value : ArgValue) (fallback : Text) : Text :=
  if value.truthy then value.toText else fallback

theorem argOr_eq {argv : List Text} (hargv : buildArgsForVersion req = .ok argv)
    (ho : o ∈ versionOptions) (hv : req.recorded o = .ok v) (fallback : Text) :
    argOr (argv.map parseOption) o.name fallback = passedValue (parseValue o.name v) fallback := by
  match hoptions : req.options with
  | .error _ =>
    rw [buildArgsForVersion, hoptions] at hargv
    cases hargv
  | .ok options =>
    rw [buildArgsForVersion, hoptions] at hargv
    cases hargv
    obtain ⟨hnames, hmem⟩ := options_ok hoptions
    have hvalues : ((options.map fun o => (o.1, parseValue o.1 o.2)).map Prod.fst).Nodup := by
      rw [List.map_map]
      exact hnames ▸ optionNames_nodup
    have hfilter := filter_name hvalues (List.mem_map_of_mem (hmem o ho v hv))
    rw [parseOption_args hoptions, argOr, hfilter]
    rfl

theorem versionPassed_iff_value {argv : List Text} {fallback : Text}
    (hfallback : (o.name, fallback) ∈ dockerVersions) :
    VersionPassed argv o.name v ↔ argOr (argv.map parseOption) o.name fallback = v := by
  have hname := eq_notMem_dockerVersions _ hfallback
  have hfilter : (dockerBuildArgs (argv.map parseOption)).filter
      (fun arg => (o.name ++ ['=']).isPrefixOf arg)
        = [o.name ++ '=' :: argOr (argv.map parseOption) o.name fallback] := by
    rw [dockerBuildArgs, List.filter_map, List.filter_congr (q := fun d => decide (d.1 = o.name)),
      filter_name dockerVersions_nodup hfallback]
    · rfl
    · intro d hd
      exact isPrefixOf_name hname (eq_notMem_dockerVersions d hd)
  rw [VersionPassed, hfilter, List.cons.injEq, List.append_right_inj, List.cons.injEq]
  exact ⟨fun h => h.1.2, fun h => ⟨⟨rfl, h⟩, rfl⟩⟩

theorem keptAsWritten_none (h : decimalLiteral v = none) : KeptAsWritten v ↔ v ≠ [] :=
  ⟨fun hkept => hkept.1, fun hv => ⟨hv, fun hsome => by simp [h] at hsome⟩⟩

theorem keptAsWritten_some {q : ℚ} (h : decimalLiteral v = some q) :
    KeptAsWritten v ↔ ∃ s e, v = layout s e ∧ Faithful s e := by
  have hv : v ≠ [] := by
    rintro rfl
    cases h
  rw [KeptAsWritten, h, and_iff_right hv]
  refine ⟨fun hkept => ?_, fun ⟨s, e, heq, hf⟩ _ => ⟨s, e, heq, .inr hf⟩⟩
  obtain ⟨s, e, heq, hshort | hfaithful⟩ := hkept rfl
  · exact ⟨s, e, heq, hshort.faithful⟩
  · exact ⟨s, e, heq, hfaithful⟩

/-- A text is passed as it is, unless it is empty. -/
theorem passedValue_text {fallback : Text} (hfallback : fallback ≠ []) :
    passedValue (.text v) fallback = v ↔ v ≠ [] := by
  by_cases hv : v = []
  · simp [passedValue, ArgValue.truthy, hv, hfallback]
  · simp [passedValue, ArgValue.truthy, ArgValue.toText, hv]

/-- A number is passed as it is written, unless it is zero. -/
theorem passedValue_number {fallback : Text} (hfallback : decimalLiteral fallback = none) {q : ℚ}
    (h : decimalLiteral v = some q) :
    passedValue (.number (toNumber q)) fallback = v ↔ ∃ s e, v = layout s e ∧ Faithful s e := by
  by_cases hzero : JsNumber.round q = 0
  · have hnumber : toNumber q = .zero := if_pos hzero
    rw [hnumber]
    refine iff_of_false (fun heq => ?_) fun ⟨s, e, heq, hf⟩ => ?_
    · rw [← heq] at h
      cases hfallback.symm.trans h
    · rw [heq, JsNumber.decimalLiteral_layout hf.pos, Option.some_inj] at h
      exact hf.ne_zero (h ▸ hzero)
  · have htruthy : (ArgValue.number (toNumber q)).truthy = true := by
      rw [ArgValue.truthy, toNumber, if_neg hzero]
      split_ifs <;> rfl
    rw [← JsNumber.toText_eq_iff h hzero, passedValue, if_pos htruthy, ArgValue.toText]

/-- Whether a version arrives depends on what yargs makes of it. -/
theorem versionPassed_iff_passedValue {argv : List Text}
    (hargv : buildArgsForVersion req = .ok argv) (ho : o ∈ versionOptions)
    (hv : req.recorded o = .ok v) : ∃ fallback, (o.name, fallback) ∈ dockerVersions ∧
      (VersionPassed argv o.name v ↔ passedValue (match decimalLiteral v with
        | some q => .number (toNumber q)
        | none => .text v) fallback = v) := by
  obtain ⟨⟨_, fallback⟩, hfallback, rfl⟩ := List.mem_map.1 (exists_fallback o ho)
  refine ⟨fallback, hfallback, ?_⟩
  rw [versionPassed_iff_value hfallback, argOr_eq hargv ho hv, parseValue,
    if_neg (name_notMem_stringOptions o ho)]

theorem fallback_ne_nil {fallback : Text} (h : (o.name, fallback) ∈ dockerVersions) :
    fallback ≠ [] := by
  rintro rfl
  exact absurd (dockerVersions_points _ h) (by simp)

/-- **What arrives of a recorded version.** -/
theorem versionPassed_iff {argv : List Text} (hargv : buildArgsForVersion req = .ok argv)
    (ho : o ∈ versionOptions) (hv : req.recorded o = .ok v) :
    VersionPassed argv o.name v ↔ KeptAsWritten v := by
  obtain ⟨fallback, hfallback, hpassed⟩ := versionPassed_iff_passedValue hargv ho hv
  rw [hpassed]
  match hvalue : decimalLiteral v with
  | none =>
    rw [keptAsWritten_none hvalue]
    exact passedValue_text (fallback_ne_nil hfallback)
  | some q =>
    rw [keptAsWritten_some hvalue]
    exact passedValue_number (fallback_no_literal hfallback) hvalue

/-- **A version with two points, and one that begins with a letter, arrive as they are.** -/
theorem three_components_passed {argv : List Text} (hargv : buildArgsForVersion req = .ok argv)
    (ho : o ∈ versionOptions) (hv : req.recorded o = .ok v)
    (h : 2 ≤ v.count '.' ∨ ∃ c t, v = c :: t ∧ c.isDigit = false ∧ c ≠ '.') :
    VersionPassed argv o.name v := by
  obtain ⟨fallback, hfallback, hpassed⟩ := versionPassed_iff_passedValue hargv ho hv
  have hvalue : decimalLiteral v = none := by
    rcases h with h | ⟨c, t, rfl, hdigit, hpoint⟩
    · exact JsNumber.decimalLiteral_two_points h
    · exact JsNumber.decimalLiteral_cons hdigit hpoint t
  rw [hpassed, hvalue]
  refine (passedValue_text (fallback_ne_nil hfallback)).2 ?_
  rintro rfl
  rcases h with h | ⟨c, t, hnil, -⟩
  · exact absurd h (by simp)
  · cases hnil

/-! ## A build with a given version -/

/-- A build for which this version is recorded everywhere. -/
def requestWith (version : Text) : BuildRequest where
  phpVersion := "8.4.0".toList
  config := ⟨none, []⟩
  opensslVersion := none
  stackSize := none
  debug := false
  sourcemaps := false
  outputDir := "node-builds/8-4-0".toList
  matrix _ := ("libopenssl".toList :: versionOptions.map VersionOption.key).map fun key =>
    (key, ⟨false, none, none, none, some [version]⟩)

/-- The result at version `1.1`. -/
theorem versionPassed_iff_example : ∃ argv,
    buildArgsForVersion (requestWith "1.1".toList) = .ok argv ∧
      VersionPassed argv "YAML_EXT_VERSION".toList "1.1".toList := by
  have hargv : ∃ argv, buildArgsForVersion (requestWith "1.1".toList) = .ok argv := ⟨_, rfl⟩
  obtain ⟨argv, hargv⟩ := hargv
  have hshort : Short 11 (-1) := ⟨by decide, by decide, by decide, by decide⟩
  exact ⟨argv, hargv, (versionPassed_iff (o := extensionOption "YAML_EXT_VERSION" "yaml") hargv
    (by decide) rfl).2 ⟨by decide, fun _ => ⟨11, -1, by decide, .inl hshort⟩⟩⟩

/-- Version `1.10` is passed as `1.1`. -/
theorem trailing_zero_lost : ∃ argv,
    buildArgsForVersion (requestWith "1.10".toList) = .ok argv ∧
      (requestWith "1.10".toList).recorded (extensionOption "YAML_EXT_VERSION" "yaml")
        = .ok "1.10".toList ∧
      "YAML_EXT_VERSION=1.1".toList ∈ dockerBuildArgs (argv.map parseOption) ∧
      ¬ VersionPassed argv "YAML_EXT_VERSION".toList "1.10".toList := by
  have hargv : ∃ argv, buildArgsForVersion (requestWith "1.10".toList) = .ok argv := ⟨_, rfl⟩
  obtain ⟨argv, hargv⟩ := hargv
  have ho : extensionOption "YAML_EXT_VERSION" "yaml" ∈ versionOptions := by decide
  have hfallback : ("YAML_EXT_VERSION".toList, "2.3.0".toList) ∈ dockerVersions := by decide
  have hshort : Short 11 (-1) := ⟨by decide, by decide, by decide, by decide⟩
  have hrecorded : (requestWith "1.10".toList).recorded (extensionOption "YAML_EXT_VERSION" "yaml")
      = .ok "1.10".toList := rfl
  have hread : decimalLiteral "1.10".toList = some (JsNumber.decimal 110 (-2)) := rfl
  have hvalue : decimalLiteral "1.10".toList = some (JsNumber.decimal 11 (-1)) :=
    hread.trans (congrArg some (JsNumber.decimal_shift 11 1 (-2)))
  have hnumber : (toNumber (JsNumber.decimal 11 (-1))).toText = "1.1".toList := by
    rw [hshort.faithful.toNumber_eq, Number.toText_finite, JsNumber.shortest_round hshort]
    decide
  have htruthy : (ArgValue.number (toNumber (JsNumber.decimal 11 (-1)))).truthy = true := by
    rw [hshort.faithful.toNumber_eq]
    rfl
  have htext : argOr (argv.map parseOption) "YAML_EXT_VERSION".toList "2.3.0".toList
      = "1.1".toList := by
    refine (argOr_eq hargv ho hrecorded _).trans ?_
    rw [parseValue, if_neg (name_notMem_stringOptions _ ho), hvalue, passedValue, if_pos htruthy,
      ArgValue.toText, hnumber]
  refine ⟨argv, hargv, hrecorded, List.mem_map.2 ⟨_, hfallback, by rw [htext]; rfl⟩, fun h => ?_⟩
  exact absurd (htext.symm.trans ((versionPassed_iff_value
    (o := extensionOption "YAML_EXT_VERSION" "yaml") hfallback).1 h)) (by decide)

end result

end PhpWasm.Build
