import PhpWasm.Base.JsValue
import Mathlib.Data.List.Nodup

/-!
# The extensions of a configuration

`config.yaml` gives every extension a mode: compiled into the main module (`static`), a module of
its own (`shared`), or left out (`off`).  `validateExtensions` is the check that a configuration
promises no more than the build can do; this file models it together with the two readers of the
checked configuration, `getSharedExtensions` and the loop of `buildArgsForVersion` that turns the
modes into build flags.

An extension that is *bundled* has no flag of its own and is judged by the mode of its host alone.
`extensionsSound_iff` says what that leaves unchecked.
-/

set_option autoImplicit false

namespace PhpWasm.Build

/-- `IMPLEMENTED_EXTENSIONS`: the extensions with a flag of their own. -/
def implementedExtensions : List (String × String) :=
  [("cli_sapi", "WITH_CLI_SAPI"), ("libzip", "WITH_LIBZIP"), ("sqlite", "WITH_SQLITE"),
    ("curl", "WITH_CURL"), ("fileinfo", "WITH_FILEINFO"), ("iconv", "WITH_ICONV"),
    ("libxml", "WITH_LIBXML"), ("soap", "WITH_SOAP"), ("exif", "WITH_EXIF"), ("gd", "WITH_GD"),
    ("mbstring", "WITH_MBSTRING"), ("mbregex", "WITH_MBREGEX"), ("sockets", "WITH_SOCKETS"),
    ("openssl", "WITH_OPENSSL"), ("ws_networking_proxy", "WITH_WS_NETWORKING_PROXY"),
    ("opcache", "WITH_OPCACHE"), ("imagick", "WITH_IMAGICK"), ("mysql", "WITH_MYSQL"),
    ("nodefs", "WITH_NODEFS"), ("yaml", "WITH_YAML"), ("mdhtml", "WITH_MDHTML"),
    ("jsonk", "WITH_JSONK"), ("apcu", "WITH_APCU"), ("navicat", "WITH_NAVICAT"),
    ("igbinary", "WITH_IGBINARY"), ("norm", "WITH_NORM"), ("aura", "WITH_AURA"),
    ("translit", "WITH_TRANSLIT"), ("jsonpath", "WITH_JSONPATH"), ("fastcsv", "WITH_FASTCSV"),
    ("aspect", "WITH_ASPECT"), ("bz2", "WITH_BZ2")]

/-- `BUNDLED_EXTENSIONS`: the extensions that are turned on together with a host. -/
def bundledExtensions : List (String × String) :=
  [("dom", "libxml"), ("simplexml", "libxml"), ("xmlreader", "libxml"), ("xmlwriter", "libxml"),
    ("pdo", "sqlite"), ("pdo_sqlite", "sqlite")]

/-- The parts of `config.yaml` the modelled functions read. -/
structure Config where
  /-- `extensions`, if it is there. -/
  extensions : Option JsObject
  /-- `php.versions` -/
  versions : List String

/-- `config.extensions ?? {}` -/
def Config.entries (config : Config) : JsObject := config.extensions.getD JsObject.empty

/-- `entry?.mode ?? 'off'` -/
def modeOf (entry : JsValue) : JsValue := (entry.field "mode").orElse (.string "off")

/-! ## Sources -/

/-- The characters `trim` takes away. -/
def isJsSpace (c : Char) : Bool :=
  let n := c.toNat
  (0x09 ≤ n && n ≤ 0x0D) || n == 0x20 || n == 0xA0 || n == 0x1680 || (0x2000 ≤ n && n ≤ 0x200A) ||
    n == 0x2028 || n == 0x2029 || n == 0x202F || n == 0x205F || n == 0x3000 || n == 0xFEFF

/-- `typeof source === 'string' && source.trim() !== ''` -/
def hasSource (entry : JsValue) : Bool :=
  match entry.field "source" with
  | .string s => s.toList.any fun c => !isJsSpace c
  | _ => false

/-! ## The check -/

/-- What `validateExtensions` throws. -/
inductive ConfigError
  | bundledMode (name : String) (mode : JsValue) (host : String) (hostMode : JsValue)
  | noSource (name : String)
  | unknownMode (name : String) (mode : JsValue)
  | notWired (name : String) (mode : JsValue)

/-- The extension an error is about. -/
def ConfigError.extension : ConfigError → String
  | bundledMode name _ _ _ => name
  | noSource name => name
  | unknownMode name _ => name
  | notWired name _ => name

/-- The message of an error. -/
def ConfigError.message : ConfigError → String
  | bundledMode name mode host hostMode =>
    "config.yaml: extension \"" ++ name ++ "\" has mode \"" ++ mode.toText ++
      "\", but it has no Dockerfile flag of its own — compile/php/Dockerfile always turns " ++
      "it on together with \"" ++ host ++ "\" (currently mode \"" ++ hostMode.toText ++
      "\"). Set \"" ++ name ++ "\" to the same mode as \"" ++ host ++ "\"."
  | noSource name =>
    "config.yaml: extension \"" ++ name ++ "\" has mode \"shared\" but no \"source\" path " ++
      "(relative to the repo root, pointing at its own config.m4). See CLAUDE.md decision " ++
      "30/31, and build it with \"node compile/cli.mjs compile-extension " ++ name ++ "\"."
  | unknownMode name mode =>
    "config.yaml: extension \"" ++ name ++ "\" has an unknown mode \"" ++ mode.toText ++
      "\" (expected static | shared | off)."
  | notWired name mode =>
    "config.yaml: extension \"" ++ name ++ "\" has mode \"" ++ mode.toText ++
      "\" but is not wired into compile/php/Dockerfile yet (see CLAUDE.md, decision 9). " ++
      "Set it to mode: off."

/-- The mode of another extension: `extensions[host]?.mode ?? 'off'`. -/
def modeIn (extensions : JsObject) (host : String) : JsValue := modeOf (extensions.get host)

/-- One turn of the loop of `validateExtensions`. -/
def validateExtension (extensions : JsObject) (name : String) (entry : JsValue) :
    Except ConfigError Unit :=
  let mode := modeOf entry
  match tableKey bundledExtensions name with
  | some host =>
    let hostMode := modeIn extensions host
    if mode.strictEq hostMode then .ok () else .error (.bundledMode name mode host hostMode)
  | none =>
    if mode.isString "off" then .ok ()
    else if mode.isString "shared" then
      if hasSource entry then .ok () else .error (.noSource name)
    else if !mode.isString "static" then .error (.unknownMode name mode)
    else if !inTable implementedExtensions name then .error (.notWired name mode)
    else .ok ()

/-- `validateExtensions`: the first extension that is rejected ends the check. -/
def validateExtensions (config : Config) : Except ConfigError Unit :=
  config.entries.entries.forM fun e => validateExtension config.entries e.1 e.2

/-! ## The readers -/

/-- `getSharedExtensions`: what an entry spreads goes over the name. -/
def getSharedExtensions (config : Config) : List JsValue :=
  (config.entries.entries.filter fun e => (modeOf e.2).isString "shared").map fun e =>
    .object (e.2.fields ++ [("name", .string e.1)])

/-- The loop of `buildArgsForVersion` over `IMPLEMENTED_EXTENSIONS`: each flag and what it is set
to. -/
def extensionFlags (config : Config) : List (String × String) :=
  implementedExtensions.map fun e =>
    (e.2, if (modeIn config.entries e.1).isString "static" then "yes" else "no")

/-! ## What the check is for -/

/-- **The extensions are sound**: each shared one can be built, each static one is turned on by the
flags, and the flags say so. -/
structure ExtensionsSound (config : Config) : Prop where
  /-- A shared extension comes with a source. -/
  shared : ∀ ext ∈ getSharedExtensions config, hasSource ext = true
  /-- A static extension has a flag of its own or a static host that has one. -/
  static : ∀ e ∈ config.entries.entries, modeOf e.2 = .string "static" →
    (implementedExtensions.lookup e.1).isSome ∨
      ∃ host, bundledExtensions.lookup e.1 = some host ∧
        (implementedExtensions.lookup host).isSome ∧
          modeIn config.entries host = .string "static"
  /-- A flag is set exactly when its extension is static. -/
  flags : ∀ e ∈ implementedExtensions,
    (e.2, "yes") ∈ extensionFlags config ↔ modeIn config.entries e.1 = .string "static"

/-- The extensions the check judges by their host, those that are bundled and those that merely
have the name of something every object inherits, come with a source if they are shared. -/
def HostedHaveSource (config : Config) : Prop :=
  ∀ e ∈ config.entries.entries, inTable bundledExtensions e.1 = true →
    modeOf e.2 = .string "shared" → hasSource e.2 = true

/-! ## What an accepted configuration has been checked for -/

theorem validateExtensions_ok_iff {config : Config} :
    validateExtensions config = .ok () ↔
      ∀ e ∈ config.entries.entries, validateExtension config.entries e.1 e.2 = .ok () := by
  rw [validateExtensions]
  generalize config.entries = extensions
  generalize extensions.entries = l
  induction l with
  | nil => exact ⟨fun _ e he => absurd he List.not_mem_nil, fun _ => rfl⟩
  | cons e l ih =>
    show (validateExtension extensions e.1 e.2 >>= fun _ =>
      l.forM fun e => validateExtension extensions e.1 e.2) = .ok () ↔ _
    rw [List.forall_mem_cons, ← ih]
    cases validateExtension extensions e.1 e.2 with
    | ok u => exact ⟨fun h => ⟨rfl, h⟩, fun h => h.2⟩
    | error err => exact ⟨fun h => (by cases h), fun h => (by cases h.1)⟩

/-- An error is about the extension that is looked at. -/
theorem extension_of_error {extensions : JsObject} {name : String} {entry : JsValue}
    {err : ConfigError} (h : validateExtension extensions name entry = .error err) :
    err.extension = name := by
  simp only [validateExtension] at h
  repeat' split at h
  all_goals first | (obtain rfl := Except.error.inj h; rfl) | cases h

/-- What is thrown names an entry of the configuration. -/
theorem mem_of_error {config : Config} {err : ConfigError}
    (h : validateExtensions config = .error err) :
    ∃ e ∈ config.entries.entries, e.1 = err.extension := by
  rw [validateExtensions] at h
  generalize config.entries = extensions at h ⊢
  generalize extensions.entries = l at h ⊢
  induction l with
  | nil => cases h
  | cons e l ih =>
    change (validateExtension extensions e.1 e.2 >>= fun _ =>
      l.forM fun e => validateExtension extensions e.1 e.2) = .error err at h
    cases hturn : validateExtension extensions e.1 e.2 with
    | ok u =>
      rw [hturn] at h
      obtain ⟨e', he', hname⟩ := ih h
      exact ⟨e', List.mem_cons_of_mem _ he', hname⟩
    | error err' =>
      rw [hturn] at h
      obtain rfl := Except.error.inj h
      exact ⟨e, List.mem_cons_self, (extension_of_error hturn).symm⟩

/-- An extension that is judged by a host has the mode of that host. -/
theorem validateExtension_hosted {extensions : JsObject} {name host : String} {entry : JsValue}
    (hhost : tableKey bundledExtensions name = some host) :
    validateExtension extensions name entry = .ok () ↔
      (modeOf entry).strictEq (modeIn extensions host) = true := by
  simp only [validateExtension, hhost]
  split
  · rename_i h
    exact ⟨fun _ => h, fun _ => rfl⟩
  · rename_i h
    exact ⟨fun hc => (by cases hc), fun hc => absurd hc h⟩

/-- Any other extension is off, shared with a source, or static with a flag. -/
theorem validateExtension_free {extensions : JsObject} {name : String} {entry : JsValue}
    (hhost : tableKey bundledExtensions name = none) :
    validateExtension extensions name entry = .ok () ↔
      modeOf entry = .string "off" ∨
        (modeOf entry = .string "shared" ∧ hasSource entry = true) ∨
          (modeOf entry = .string "static" ∧ (implementedExtensions.lookup name).isSome) := by
  have hproto : objectPrototype.lookup name = none := (Option.or_eq_none_iff.1 hhost).2
  have htable : inTable implementedExtensions name =
      (implementedExtensions.lookup name).isSome := by
    rw [inTable, hproto, Option.isSome_none, Bool.or_false]
  simp only [validateExtension, hhost, htable]
  by_cases hoff : modeOf entry = .string "off"
  · simp [hoff]
  · by_cases hshared : modeOf entry = .string "shared"
    · cases hasSource entry <;> simp [hshared]
    · by_cases hstatic : modeOf entry = .string "static"
      · cases (implementedExtensions.lookup name).isSome <;> simp [hstatic]
      · simp only [JsValue.isString_eq_true, hoff, hshared, hstatic, if_false, false_and, or_self,
          Bool.not_eq_true', iff_false]
        split <;> simp_all

/-- No host is hosted itself. -/
theorem tableKey_host {name host : String} (h : tableKey bundledExtensions name = some host) :
    tableKey bundledExtensions host = none := by
  have hall : ∀ e ∈ bundledExtensions ++ objectPrototype,
      tableKey bundledExtensions e.2 = none := by decide
  rw [tableKey, ← List.lookup_append] at h
  obtain ⟨l, l', hl, -⟩ := List.lookup_eq_some_iff.1 h
  exact hall (name, host) (by rw [hl]; exact List.mem_append_right _ List.mem_cons_self)

/-- No inherited value is converted to the name of an extension with a flag. -/
theorem implemented_of_objectPrototype {name host : String}
    (h : objectPrototype.lookup name = some host) : implementedExtensions.lookup host = none := by
  have hall : ∀ e ∈ objectPrototype, implementedExtensions.lookup e.2 = none := by decide
  obtain ⟨l, l', hl, -⟩ := List.lookup_eq_some_iff.1 h
  exact hall (name, host) (by rw [hl]; exact List.mem_append_right _ List.mem_cons_self)

theorem inTable_iff {table : List (String × String)} {name : String} :
    inTable table name = true ↔ tableKey table name ≠ none := by
  rw [inTable, tableKey, Bool.or_eq_true, Ne, Option.or_eq_none_iff, not_and_or]
  simp [Option.isSome_iff_ne_none]

/-- An extension in a mode of its own is one of the entries. -/
theorem mem_of_modeIn {extensions : JsObject} {name mode : String}
    (h : modeIn extensions name = .string mode) (hmode : mode ≠ "off") :
    (name, extensions.get name) ∈ extensions.entries := by
  refine JsObject.mem_of_get fun hu => hmode ?_
  rw [modeIn, hu] at h
  exact (JsValue.string.inj h).symm

/-- A static host has a flag. -/
theorem implemented_of_static_host {config : Config} (hok : validateExtensions config = .ok ())
    {name host : String} (hhost : tableKey bundledExtensions name = some host)
    (hmode : modeIn config.entries host = .string "static") :
    (implementedExtensions.lookup host).isSome := by
  have hmem := mem_of_modeIn hmode (by decide)
  have hchecked := validateExtensions_ok_iff.1 hok _ hmem
  rcases (validateExtension_free (tableKey_host hhost)).1 hchecked with hoff | ⟨hshared, -⟩ | ⟨-, h⟩
  · exact absurd (hmode.symm.trans hoff) (by simp)
  · exact absurd (hmode.symm.trans hshared) (by simp)
  · exact h

theorem static_of_ok {config : Config} (hok : validateExtensions config = .ok ())
    {e : String × JsValue} (he : e ∈ config.entries.entries)
    (hmode : modeOf e.2 = .string "static") :
    (implementedExtensions.lookup e.1).isSome ∨
      ∃ host, bundledExtensions.lookup e.1 = some host ∧
        (implementedExtensions.lookup host).isSome ∧
          modeIn config.entries host = .string "static" := by
  have hchecked := validateExtensions_ok_iff.1 hok e he
  cases hkey : tableKey bundledExtensions e.1 with
  | none =>
    rcases (validateExtension_free hkey).1 hchecked with hoff | ⟨hshared, -⟩ | ⟨-, h⟩
    · exact absurd (hmode.symm.trans hoff) (by simp)
    · exact absurd (hmode.symm.trans hshared) (by simp)
    · exact .inl h
  | some host =>
    have hhost := (validateExtension_hosted hkey).1 hchecked
    rw [hmode, JsValue.strictEq_string] at hhost
    have himplemented := implemented_of_static_host hok hkey hhost
    rcases Option.or_eq_some_iff.1 hkey with hbundled | ⟨-, hproto⟩
    · exact .inr ⟨host, hbundled, himplemented, hhost⟩
    · rw [implemented_of_objectPrototype hproto] at himplemented
      cases himplemented

theorem extensionFlags_iff (config : Config) {e : String × String}
    (he : e ∈ implementedExtensions) :
    (e.2, "yes") ∈ extensionFlags config ↔ modeIn config.entries e.1 = .string "static" := by
  have hnodup : (implementedExtensions.map Prod.snd).Nodup := by decide
  rw [extensionFlags, List.mem_map]
  constructor
  · rintro ⟨e', he', heq⟩
    obtain ⟨hflag, hyes⟩ := Prod.mk.inj heq
    obtain rfl := List.inj_on_of_nodup_map hnodup he' he hflag
    by_contra hmode
    rw [if_neg (by rwa [JsValue.isString_eq_true])] at hyes
    exact absurd hyes (by decide)
  · intro hmode
    exact ⟨e, he, by rw [if_pos (JsValue.isString_eq_true.2 hmode)]⟩

/-- Spreading an entry keeps its source. -/
theorem hasSource_spread {entry : JsValue} (name : String) :
    hasSource (.object (entry.fields ++ [("name", .string name)])) = hasSource entry := by
  have hfield : (JsValue.object (entry.fields ++ [("name", .string name)])).field "source" =
      entry.field "source" := by
    have hname : List.lookup "source" [("name", JsValue.string name)] = none := rfl
    rw [JsValue.field, List.lookup_append, hname, Option.or_none]
    cases entry <;> rfl
  rw [hasSource, hfield, hasSource]

theorem shared_iff {config : Config} :
    (∀ ext ∈ getSharedExtensions config, hasSource ext = true) ↔
      ∀ e ∈ config.entries.entries, modeOf e.2 = .string "shared" → hasSource e.2 = true := by
  simp only [getSharedExtensions, List.forall_mem_map, List.mem_filter, JsValue.isString_eq_true,
    and_imp, hasSource_spread]

/-- **When an accepted configuration is sound.** -/
theorem extensionsSound_iff {config : Config} (hok : validateExtensions config = .ok ()) :
    ExtensionsSound config ↔ HostedHaveSource config := by
  constructor
  · exact fun h e he _ hmode => shared_iff.1 h.shared e he hmode
  · intro h
    refine ⟨shared_iff.2 fun e he hmode => ?_, fun e he => static_of_ok hok he,
      fun e => extensionFlags_iff config⟩
    cases hkey : tableKey bundledExtensions e.1 with
    | none =>
      rcases (validateExtension_free hkey).1 (validateExtensions_ok_iff.1 hok e he) with
        hoff | ⟨-, hsource⟩ | ⟨hstatic, -⟩
      · exact absurd (hmode.symm.trans hoff) (by simp)
      · exact hsource
      · exact absurd (hmode.symm.trans hstatic) (by simp)
    | some host => exact h e he (inTable_iff.2 (by rw [hkey]; exact Option.some_ne_none host)) hmode

/-- An entry with a mode, and a source if there is one. -/
def entryOf (mode : String) (source : Option String) : JsValue :=
  .object (("mode", .string mode) :: (source.toList.map fun s => ("source", .string s)))

/-- A shared `dom` without a source, beside a shared `libxml` with one, is accepted. -/
theorem shared_bundled_not_sound :
    let config : Config := ⟨some ⟨[("libxml", entryOf "shared" (some "ext/libxml")),
      ("dom", entryOf "shared" none)], by decide⟩, []⟩
    (validateExtensions config).isOk = true ∧ ¬ ExtensionsSound config := by
  refine ⟨by decide, fun h => ?_⟩
  have hdom := shared_iff.1 h.shared ("dom", entryOf "shared" none) (by simp [Config.entries]) rfl
  exact absurd hdom (by decide)

/-- A static host with what it bundles is sound. -/
theorem static_bundled_sound :
    ExtensionsSound ⟨some ⟨[("libxml", entryOf "static" none), ("dom", entryOf "static" none)],
      by decide⟩, []⟩ := by
  have hstatic : JsValue.string "static" ≠ .string "shared" := by simp
  refine (extensionsSound_iff rfl).2 fun e he _ hmode => ?_
  rcases List.mem_cons.1 he with rfl | he
  · exact absurd hmode hstatic
  · rw [List.mem_singleton.1 he] at hmode
    exact absurd hmode hstatic

end PhpWasm.Build
