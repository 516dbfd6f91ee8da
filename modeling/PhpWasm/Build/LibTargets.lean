import PhpWasm.Base.Making
import PhpWasm.Build.Review

/-!
# The libraries of PHP

A static extension may need a library, and libraries need each other.  `libs` and `build` have
`make` build those that are needed, by the rules of the Makefile; `php` builds none, and only looks
whether anything is where the libraries go.

* `libsRight`: what `make` does about the libraries of a configuration, for any tree and any end of
  every recipe.
* `commandRight`: what the commands do after any history of the tree.  A recipe makes its directory
  before it builds anything, so that to `php` a library that could not be built is there.
-/

set_option autoImplicit false

namespace PhpWasm.Build

open Making

/-! ## The rules -/

/-- The targets of `compile/Makefile`, each with the file it stands for. -/
inductive LibTarget
  | baseImage | libz | libzip120 | libzip192 | libpng16 | libjpeg | libwebp | libaom | libavif
  | libfreetype | libgd | libxml2 | libopenssl | libsqlite3 | libiconv | oniguruma | libssh2
  | nghttp2 | libyaml | libsodium | libbz2 | libgmp | libtidy | libpq | libopenldap | unixodbc
  | freetds | firebird | libxslt | netsnmp | icu | libcxx | anydoc | libffi | libglib
  | libenchant2 | libcmarkGfm | libdlib | libaura | libcurl | libImageMagick
  deriving DecidableEq

/-- The name of a target, and the directory of `compile` whose `jspi/dist` its recipe fills. -/
def LibTarget.rule : LibTarget → String × Option String
  | .baseImage => ("base-image", none)
  | .libz => ("libz_jspi", some "libz")
  | .libzip120 => ("libzip-1.2.0_jspi", some "libzip")
  | .libzip192 => ("libzip-1.9.2_jspi", some "libzip")
  | .libpng16 => ("libpng16_jspi", some "libpng16")
  | .libjpeg => ("libjpeg_jspi", some "libjpeg")
  | .libwebp => ("libwebp_jspi", some "libwebp")
  | .libaom => ("libaom_jspi", some "libaom")
  | .libavif => ("libavif_jspi", some "libavif")
  | .libfreetype => ("libfreetype_jspi", some "libfreetype")
  | .libgd => ("libgd_jspi", some "libgd")
  | .libxml2 => ("libxml2_jspi", some "libxml2")
  | .libopenssl => ("libopenssl_jspi", some "libopenssl")
  | .libsqlite3 => ("libsqlite3_jspi", some "libsqlite3")
  | .libiconv => ("libiconv_jspi", some "libiconv")
  | .oniguruma => ("oniguruma_jspi", some "oniguruma")
  | .libssh2 => ("libssh2_jspi", some "libssh2")
  | .nghttp2 => ("nghttp2_jspi", some "nghttp2")
  | .libyaml => ("libyaml_jspi", some "libyaml")
  | .libsodium => ("libsodium_jspi", some "libsodium")
  | .libbz2 => ("libbz2_jspi", some "libbz2")
  | .libgmp => ("libgmp_jspi", some "libgmp")
  | .libtidy => ("libtidy_jspi", some "libtidy")
  | .libpq => ("libpq_jspi", some "libpq")
  | .libopenldap => ("libopenldap_jspi", some "openldap")
  | .unixodbc => ("unixodbc_jspi", some "unixodbc")
  | .freetds => ("freetds_jspi", some "freetds")
  | .firebird => ("firebird_jspi", some "firebird")
  | .libxslt => ("libxslt_jspi", some "libxslt")
  | .netsnmp => ("netsnmp_jspi", some "netsnmp")
  | .icu => ("icu_jspi", some "icu")
  | .libcxx => ("libcxx_jspi", some "libcxx")
  | .anydoc => ("anydoc_jspi", some "anydoc")
  | .libffi => ("libffi_jspi", some "libffi")
  | .libglib => ("libglib_jspi", some "libglib")
  | .libenchant2 => ("libenchant2_jspi", some "libenchant2")
  | .libcmarkGfm => ("libcmark-gfm_jspi", some "libcmark-gfm")
  | .libdlib => ("libdlib_jspi", some "libdlib")
  | .libaura => ("libaura_jspi", some "libaura")
  | .libcurl => ("libcurl_jspi", some "libcurl")
  | .libImageMagick => ("libImageMagick_jspi", some "libImageMagick")

def LibTarget.name (t : LibTarget) : String := t.rule.1

def LibTarget.dir (t : LibTarget) : Option String := t.rule.2

/-- The prerequisites. -/
def LibTarget.needs : LibTarget → List LibTarget
  | .libz | .libaom | .libavif | .oniguruma | .nghttp2 | .libyaml | .libsodium | .libbz2 | .libgmp
  | .libtidy | .libpq | .libopenldap | .unixodbc | .freetds | .firebird | .icu | .libcxx | .libffi
  | .libcmarkGfm | .libdlib | .libaura =>
    [.baseImage]
  | .libzip120 | .libzip192 | .libpng16 | .libjpeg | .libwebp | .libxml2 | .libopenssl
  | .libsqlite3 | .libiconv =>
    [.baseImage, .libz]
  | .libfreetype => [.baseImage, .libz, .libpng16]
  | .libgd =>
    [.baseImage, .libz, .libpng16, .libjpeg, .libwebp, .libavif, .libfreetype, .libiconv]
  | .libssh2 => [.baseImage, .libz, .libopenssl]
  | .libxslt => [.baseImage, .libxml2]
  | .netsnmp => [.baseImage, .libopenssl]
  | .baseImage | .anydoc => []
  | .libglib => [.baseImage, .libz, .libffi]
  | .libenchant2 => [.baseImage, .libglib, .libffi, .libz]
  | .libcurl => [.baseImage, .libz, .libopenssl, .libssh2, .nghttp2]
  | .libImageMagick => [.baseImage, .libz, .libjpeg, .libpng16, .libwebp]

/-- How far a target is from one that needs nothing. -/
def LibTarget.height (t : LibTarget) : ℕ := go 5 t
where
  go : ℕ → LibTarget → ℕ
  | 0, _ => 0
  | fuel + 1, t => (t.needs.map fun n => go fuel n + 1).foldr max 0

/-! ## The tree -/

/-- How a recipe ends. -/
inductive Ended
  | works
  /-- A command fails: before the directory is there or after that, and with the library file in
  place or not. -/
  | fails (started left : Bool)
  deriving DecidableEq

/-- What is done to the tree. -/
inductive TreeStep
  | recipe (t : LibTarget) (ended : Ended)
  /-- `rm -rf ./dir/jspi/dist` -/
  | clean (dir : String)

/-- What is under `compile`. -/
structure LibTree where
  /-- The file of a target is there. -/
  built : LibTarget → Bool
  /-- There is something in `jspi/dist`. -/
  filled : String → Bool

/-- Nothing is built yet. -/
def LibTree.empty : LibTree := ⟨fun _ => false, fun _ => false⟩

/-- The recipe leaves something in its directory. -/
def Ended.starts : Ended → Bool
  | works => true
  | fails started _ => started

/-- The recipe leaves the file of its target. -/
def Ended.leaves : Ended → Bool
  | works => true
  | fails _ left => left

/-- The tree after a step.  A recipe that fails takes nothing away. -/
def LibTree.after (tree : LibTree) : TreeStep → LibTree
  | .recipe t ended =>
    ⟨fun t' => tree.built t' || t' == t && ended.leaves,
      fun dir => tree.filled dir || t.dir == some dir && ended.starts⟩
  | .clean dir =>
    ⟨fun t => tree.built t && t.dir != some dir, fun dir' => tree.filled dir' && dir' != dir⟩

/-- What a run of `make` meets. -/
structure Surroundings where
  /-- Nothing a target needs is newer than its file. -/
  newest : LibTarget → Bool
  ended : LibTarget → Ended

/-- `make`: a target is remade unless its file is there, and the newest. -/
def runMake (w : Surroundings) (tree : LibTree) (targets : List LibTarget) : Progress LibTarget :=
  make LibTarget.needs (fun t => tree.built t && w.newest t) (fun t => w.ended t == .works) 5
    targets

/-- What a run of `make` does to the tree. -/
def makeSteps (w : Surroundings) (m : Progress LibTarget) : List TreeStep :=
  m.runs.map fun t => .recipe t (w.ended t)

/-! ## The commands -/

/-- `LIB_TARGETS_BY_EXTENSION` -/
def libTargetsByExtension : List (String × List LibTarget) :=
  [("libzip", [.libzip192]), ("sqlite", [.libsqlite3]), ("curl", [.libcurl]),
    ("iconv", [.libiconv]), ("libxml", [.libxml2]), ("gd", [.libgd]), ("mbregex", [.oniguruma]),
    ("openssl", [.libopenssl]), ("imagick", [.libImageMagick]), ("yaml", [.libyaml]),
    ("mdhtml", [.libcmarkGfm]), ("aura", [.libaura]), ("bz2", [.libbz2])]

/-- `LIB_TARGETS_BY_EXTENSION[name] ?? []`, with nothing for what every object inherits, which
cannot be iterated over. -/
def libTargets (name : String) : Option (List LibTarget) :=
  match libTargetsByExtension.lookup name with
  | some targets => some targets
  | none => if (objectPrototype.lookup name).isSome then none else some []

/-- `targets.add` -/
def addTargets (targets added : List LibTarget) : List LibTarget :=
  added.foldl (fun targets t => if t ∈ targets then targets else targets ++ [t]) targets

/-- `computeRequiredLibTargets`, with nothing where it throws. -/
def computeRequiredLibTargets (config : Config) : Option (List LibTarget) :=
  config.entries.entries.foldlM
    (fun targets e =>
      if (modeOf e.2).isString "static" then (libTargets e.1).map (addTargets targets)
      else some targets) []

/-- `/(-[\d.]+)?_jspi$/` matches all of it. -/
def isLibSuffix (s : List Char) : Bool :=
  s == "_jspi".toList ||
    match s with
    | '-' :: rest =>
      let version := rest.dropLast.dropLast.dropLast.dropLast.dropLast
      rest == version ++ "_jspi".toList && version != [] &&
        version.all fun c => c.isDigit || c == '.'
    | _ => false

/-- `target.replace(/(-[\d.]+)?_jspi$/, '')` -/
def libDir : List Char → List Char
  | [] => []
  | c :: s => if isLibSuffix (c :: s) then [] else c :: libDir s

/-- `findMissingLibTargets` -/
def findMissingLibTargets (tree : LibTree) (targets : List LibTarget) : List LibTarget :=
  targets.filter fun t => !tree.filled (String.ofList (libDir t.name.toList))

/-- What `runBuildCommand` throws after the review. -/
inductive CommandError
  | config (err : ConfigError)
  /-- The entry of an extension in the table cannot be iterated over. -/
  | notIterable
  | make (code : ℕ) (targets : List LibTarget)
  | missing (targets : List LibTarget)
  | noVersions
  /-- `buildArgsForVersion` throws. -/
  | args (text : String)
  | buildJs (code : Option ℕ) (version : String)

/-- `targets.join(', ')` -/
def joinTargets (targets : List LibTarget) : String := ", ".intercalate (targets.map LibTarget.name)

/-- The message of an error; where something cannot be iterated over, what every engine says. -/
def CommandError.message : CommandError → String
  | config err => err.message
  | notIterable => "is not iterable"
  | make code targets => "make failed (code " ++ code.repr ++ ") building: " ++ joinTargets targets
  | missing targets =>
    "Required libraries not built yet: " ++ joinTargets targets ++ ". " ++
      "Run \"node compile/cli.mjs libs\" first (or build without --skip-libs)."
  | noVersions => BuildError.noVersions.message
  | args text => text
  | buildJs code version =>
    "build.js failed (code " ++ (code.elim "null" Nat.repr) ++ ") for PHP " ++ version

/-- A process that is started. -/
inductive Spawn
  | make (targets : List LibTarget)
  | buildJs (version : String)
  deriving DecidableEq

/-- What a command does. -/
structure Outcome where
  steps : List TreeStep
  spawned : List Spawn
  error : Option CommandError

/-- It does nothing. -/
def Outcome.nothing : Outcome := ⟨[], [], none⟩

/-- It throws. -/
def Outcome.throw (err : CommandError) : Outcome := ⟨[], [], some err⟩

/-- What comes next, unless something was thrown. -/
def Outcome.andThen (o next : Outcome) : Outcome :=
  match o.error with
  | none => ⟨o.steps ++ next.steps, o.spawned ++ next.spawned, next.error⟩
  | some _ => o

/-- `runLibBuild` -/
def runLibBuild (w : Surroundings) (tree : LibTree) (targets : List LibTarget) : Outcome :=
  if targets = [] then .nothing
  else
    let m := runMake w tree targets
    ⟨makeSteps w m, [.make targets], if m.ok then none else some (.make 2 targets)⟩

/-- What comes of building one version after another, by its place in the list: the error of
`buildArgsForVersion`, or the code `build.js` ends with. -/
abbrev Builds : Type := ℕ → Except String (Option ℕ)

/-- The loop of `runBuildCommand` over the versions. -/
def buildVersions (dryRun : Bool) (builds : Builds) : List String → Outcome
  | [] => .nothing
  | version :: versions =>
    let later := buildVersions dryRun (fun i => builds (i + 1)) versions
    match builds 0 with
    | .error text => .throw (.args text)
    | .ok code =>
      if dryRun then later
      else
        Outcome.andThen
          ⟨[], [.buildJs version], if code = some 0 then none else some (.buildJs code version)⟩
          later

/-- The parts of a build that are asked for. -/
structure Parts where
  libs : Bool
  php : Bool
  dryRun : Bool

/-- What `runBuildCommand` does about the libraries. -/
def libsPart (parts : Parts) (w : Surroundings) (tree : LibTree) (required : List LibTarget) :
    Outcome :=
  if parts.libs then if parts.dryRun then .nothing else runLibBuild w tree required
  else if parts.dryRun then .nothing
  else
    match findMissingLibTargets tree required with
    | [] => .nothing
    | missing => .throw (.missing missing)

/-- What `runBuildCommand` does about PHP. -/
def phpPart (parts : Parts) (builds : Builds) (config : Config) : Outcome :=
  if parts.php then
    if config.versions.isEmpty then .throw .noVersions
    else buildVersions parts.dryRun builds config.versions
  else .nothing

/-- `runBuildCommand`, from the reviewed configuration on. -/
def runBuildCommand (parts : Parts) (w : Surroundings) (builds : Builds) (tree : LibTree)
    (config : Config) : Outcome :=
  match validateExtensions config with
  | .error err => .throw (.config err)
  | .ok () =>
    match computeRequiredLibTargets config with
    | none => .throw .notIterable
    | some required => (libsPart parts w tree required).andThen (phpPart parts builds config)

/-- What happens to the tree. -/
inductive TreeEvent
  | command (parts : Parts) (w : Surroundings) (builds : Builds) (config : Config)
  /-- `make` by hand. -/
  | make (w : Surroundings) (targets : List LibTarget)
  /-- One of the targets that clean up. -/
  | clean (dirs : List String)

/-- What an event does to the tree. -/
def TreeEvent.steps (tree : LibTree) : TreeEvent → List TreeStep
  | command parts w builds config => (runBuildCommand parts w builds tree config).steps
  | make w targets => makeSteps w (runMake w tree targets)
  | clean dirs => dirs.map .clean

/-- A run from the empty tree: the tree, and all that was done to it. -/
def treeRun : List TreeEvent → LibTree × List TreeStep :=
  List.foldl (fun s e => ((e.steps s.1).foldl LibTree.after s.1, s.2 ++ e.steps s.1)) (.empty, [])

/-! ## What the commands should do -/

/-- A library that a static extension needs, directly or not. -/
def NeededLib (config : Config) (t : LibTarget) : Prop :=
  ∃ e ∈ config.entries.entries, modeOf e.2 = .string "static" ∧
    ∃ targets, libTargetsByExtension.lookup e.1 = some targets ∧ Needed LibTarget.needs targets t

/-- **`make` is right** about the libraries of a configuration. -/
structure LibsRight (config : Config) (w : Surroundings) (tree : LibTree)
    (m : Progress LibTarget) : Prop where
  once : m.runs.Nodup
  /-- What a recipe needs is there and the newest, or was made before. -/
  ordered : ∀ before t after, m.runs = before ++ t :: after →
    ∀ n ∈ t.needs, n ∈ before ∨ tree.built n = true ∧ w.newest n = true
  /-- Nothing is built that no static extension needs. -/
  needed : ∀ t ∈ m.runs, NeededLib config t
  /-- The first recipe that fails ends the run. -/
  stops : ∀ t ∈ m.runs.dropLast, w.ended t = .works
  done : m.ok = true ↔ ∀ t ∈ m.runs, w.ended t = .works
  /-- All that a static extension needs is there. -/
  built : m.ok = true → ∀ t, NeededLib config t →
    ((makeSteps w m).foldl LibTree.after tree).built t = true

/-- Since its directory was last cleaned up, a step of the kind `p` was done there. -/
def SinceCleaned (log : List TreeStep) (dir : String) (p : LibTarget → Ended → Prop) : Prop :=
  ∃ before t ended after, log = before ++ .recipe t ended :: after ∧ t.dir = some dir ∧ p t ended ∧
    .clean dir ∉ after

/-- The recipe of the target's directory was started since that was last cleaned up. -/
def Started (log : List TreeStep) (t : LibTarget) : Prop :=
  ∃ dir, t.dir = some dir ∧ SinceCleaned log dir fun _ ended => ended.starts = true

/-- Something else than building the target was done in its directory since that was last cleaned
up. -/
def Spoilt (log : List TreeStep) (t : LibTarget) : Prop :=
  ∃ dir, t.dir = some dir ∧ SinceCleaned log dir fun t' ended => t' ≠ t ∨ ended ≠ .works

/-- After the processes of the libraries, `build.js` is started for one version after another, up to
the first one it fails for; without an error, for all of them. -/
def BuiltInOrder (parts : Parts) (builds : Builds) (versions : List String) (libs : List Spawn)
    (o : Outcome) : Prop :=
  ∃ n ≤ versions.length, o.spawned = libs ++ (versions.take n).map .buildJs ∧
    (∀ i, i + 1 < n → builds i = .ok (some 0)) ∧
    (o.error = none → parts.php = true → parts.dryRun = false →
      n = versions.length ∧ ∀ i < n, builds i = .ok (some 0))

/-- **The commands are right** after all that was done to the tree. -/
structure CommandRight (log : List TreeStep) (tree : LibTree) (config : Config)
    (required : List LibTarget) (parts : Parts) (builds : Builds) (o : Outcome) : Prop where
  /-- A dry run starts nothing. -/
  dry : parts.dryRun = true → o.steps = [] ∧ o.spawned = []
  /-- Without the libraries, the command goes on if all their recipes were started, and otherwise
  names those that were not. -/
  refused : parts.libs = false → parts.dryRun = false →
    ((∀ t ∈ required, Started log t) ∧ ∀ targets, o.error ≠ some (.missing targets)) ∨
      ∃ targets, o = .throw (.missing targets) ∧ targets ≠ [] ∧
        ∀ t, t ∈ targets ↔ t ∈ required ∧ ¬ Started log t
  /-- With the libraries, PHP is built when all that is needed is there. -/
  built : parts.libs = true → ∀ version, .buildJs version ∈ o.spawned →
    ∀ t, NeededLib config t → (o.steps.foldl LibTree.after tree).built t = true
  /-- Without them, what is not there was tried, or something else is in its place. -/
  spoilt : parts.libs = false → ∀ version, .buildJs version ∈ o.spawned →
    ∀ t ∈ required, tree.built t = true ∨ Spoilt log t
  /-- The versions are built one after another, up to the first that fails. -/
  versions : ∃ libs, (libs = [] ∨ libs = [.make required]) ∧
    BuiltInOrder parts builds config.versions libs o

/-! ## The libraries of a configuration -/

theorem mem_addTargets {targets added : List LibTarget} {t : LibTarget} :
    t ∈ addTargets targets added ↔ t ∈ targets ∨ t ∈ added := by
  rw [addTargets]
  induction added generalizing targets with
  | nil => simp
  | cons a added ih =>
    rw [List.foldl_cons, ih, List.mem_cons]
    by_cases ha : a ∈ targets
    · rw [if_pos ha]
      refine ⟨fun h => h.imp_right .inr, fun h => ?_⟩
      rcases h with h | rfl | h
      · exact .inl h
      · exact .inl ha
      · exact .inr h
    · rw [if_neg ha, List.mem_append, List.mem_singleton, or_assoc]

/-- The library is listed for a static extension of the entries. -/
def ListedLib (entries : List (String × JsValue)) (t : LibTarget) : Prop :=
  ∃ e ∈ entries, modeOf e.2 = .string "static" ∧
    ∃ targets, libTargetsByExtension.lookup e.1 = some targets ∧ t ∈ targets

theorem mem_libTargets {name : String} {targets : List LibTarget}
    (h : libTargets name = some targets) (t : LibTarget) :
    t ∈ targets ↔ ∃ listed, libTargetsByExtension.lookup name = some listed ∧ t ∈ listed := by
  rw [libTargets] at h
  cases hlookup : libTargetsByExtension.lookup name with
  | some listed =>
    rw [hlookup] at h
    obtain rfl := Option.some.inj h
    simp
  | none =>
    rw [hlookup] at h
    dsimp only at h
    split at h
    · cases h
    · obtain rfl := Option.some.inj h
      simp

theorem mem_foldlM_targets {entries : List (String × JsValue)} {targets required : List LibTarget}
    (h : entries.foldlM (fun targets e =>
      if (modeOf e.2).isString "static" then (libTargets e.1).map (addTargets targets)
      else some targets) targets = some required) (t : LibTarget) :
    t ∈ required ↔ t ∈ targets ∨ ListedLib entries t := by
  induction entries generalizing targets with
  | nil =>
    obtain rfl := Option.some.inj h
    simp [ListedLib]
  | cons e entries ih =>
    rw [List.foldlM_cons] at h
    by_cases hstatic : modeOf e.2 = .string "static"
    · rw [if_pos (JsValue.isString_eq_true.2 hstatic)] at h
      cases hlib : libTargets e.1 with
      | none =>
        rw [hlib] at h
        cases h
      | some added =>
        rw [hlib] at h
        rw [ih h, mem_addTargets, mem_libTargets hlib, or_assoc]
        simp only [ListedLib, List.exists_mem_cons_iff, hstatic, true_and]
    · rw [if_neg fun h => hstatic (JsValue.isString_eq_true.1 h)] at h
      rw [ih h]
      simp only [ListedLib, List.exists_mem_cons_iff, hstatic, false_and, false_or]

theorem mem_required {config : Config} {required : List LibTarget}
    (h : computeRequiredLibTargets config = some required) (t : LibTarget) :
    t ∈ required ↔ ListedLib config.entries.entries t := by
  rw [mem_foldlM_targets h]
  simp

theorem neededLib_iff {config : Config} {required : List LibTarget}
    (h : computeRequiredLibTargets config = some required) (t : LibTarget) :
    NeededLib config t ↔ Needed LibTarget.needs required t := by
  constructor
  · rintro ⟨e, he, hstatic, targets, hlookup, g, hg, hreaches⟩
    exact ⟨g, (mem_required h g).2 ⟨e, he, hstatic, targets, hlookup, hg⟩, hreaches⟩
  · rintro ⟨g, hg, hreaches⟩
    obtain ⟨e, he, hstatic, targets, hlookup, hmem⟩ := (mem_required h g).1 hg
    exact ⟨e, he, hstatic, targets, hlookup, g, hmem, hreaches⟩

/-- A library is looked for where its recipe puts it. -/
theorem dir_of_required {config : Config} {required : List LibTarget}
    (h : computeRequiredLibTargets config = some required) {t : LibTarget} (ht : t ∈ required) :
    t.dir = some (String.ofList (libDir t.name.toList)) := by
  obtain ⟨e, -, -, targets, hlookup, hmem⟩ := (mem_required h t).1 ht
  have htable : ∀ e ∈ libTargetsByExtension, ∀ t ∈ e.2,
      t.dir = some (String.ofList (libDir t.name.toList)) := by decide
  obtain ⟨l, l', htargets, -⟩ := List.lookup_eq_some_iff.1 hlookup
  exact htable (e.1, targets) (htargets ▸ List.mem_append_right l List.mem_cons_self) t hmem

/-! ## A run of `make` -/

theorem height_lt : ∀ t : LibTarget, ∀ n ∈ t.needs, n.height < t.height := by
  intro t
  cases t <;> decide

theorem height_lt_five (t : LibTarget) : t.height < 5 := by
  cases t <;> decide

/-- Recipes take nothing away. -/
theorem built_foldl {runs : List LibTarget} {ended : LibTarget → Ended} {tree : LibTree}
    {t : LibTarget} :
    ((runs.map fun t => TreeStep.recipe t (ended t)).foldl LibTree.after tree).built t = true ↔
      tree.built t = true ∨ t ∈ runs ∧ (ended t).leaves = true := by
  induction runs generalizing tree with
  | nil => simp
  | cons r runs ih =>
    rw [List.map_cons, List.foldl_cons, ih]
    simp only [LibTree.after, Bool.or_eq_true, Bool.and_eq_true, beq_iff_eq, List.mem_cons]
    grind

theorem libsRight {config : Config} {required : List LibTarget}
    (h : computeRequiredLibTargets config = some required) (w : Surroundings) (tree : LibTree) :
    LibsRight config w tree (runMake w tree required) := by
  have hgoes : Goes LibTarget.needs (fun t => tree.built t && w.newest t)
      (fun t => w.ended t == .works) required .start (runMake w tree required) :=
    make_spec height_lt fun t _ => height_lt_five t
  generalize runMake w tree required = m at hgoes
  obtain ⟨l, hordered, honce, hruns⟩ := hgoes.sound.exists_runs
  have hwork := hgoes.sound.all_work
  simp only [beq_iff_eq] at hwork
  refine ⟨hruns ▸ honce.filter _, fun before t after heq n hn => ?_, fun t ht => ?_, hwork.1,
    hwork.2, fun hok t ht => ?_⟩
  · by_cases hup : (tree.built n && w.newest n) = true
    · exact .inr (Bool.and_eq_true_iff.1 hup)
    · exact .inl (hordered.filter (hruns.symm.trans heq) n hn
        (by simpa only [Bool.not_eq_true', Bool.not_eq_true] using hup))
  · rw [neededLib_iff h]
    exact (hgoes.needed t (List.mem_append_right _ ht)).resolve_left (by simp [Progress.start])
  · have hmade : t ∈ m.made :=
      hgoes.sound.ordered.of_needed (hgoes.reached hok) ((neededLib_iff h t).1 ht)
    refine built_foldl.2 ?_
    by_cases hup : (tree.built t && w.newest t) = true
    · exact .inl (Bool.and_eq_true_iff.1 hup).1
    · have hrun : t ∈ m.runs := by
        rw [hgoes.sound.runs_of_ok hok]
        exact List.mem_filter.2
          ⟨hmade, by simpa only [Bool.not_eq_true', Bool.not_eq_true] using hup⟩
      refine .inr ⟨hrun, ?_⟩
      rw [hwork.2.1 hok t hrun]
      rfl

/-- A configuration with one library. -/
def sqliteConfig : Config :=
  ⟨some ⟨[("sqlite", .object [("mode", .string "static")])], by decide⟩, ["8.5"]⟩

theorem libsRight_sqlite :
    LibsRight sqliteConfig ⟨fun _ => true, fun _ => .works⟩ .empty
      (runMake ⟨fun _ => true, fun _ => .works⟩ .empty [.libsqlite3]) :=
  libsRight (by decide) _ _

/-! ## What is done to the tree -/

/-- A step is done after the others. -/
theorem sinceCleaned_concat {log : List TreeStep} {step : TreeStep} {dir : String}
    {p : LibTarget → Ended → Prop} :
    SinceCleaned (log ++ [step]) dir p ↔
      (SinceCleaned log dir p ∧ step ≠ .clean dir) ∨
        ∃ t ended, step = .recipe t ended ∧ t.dir = some dir ∧ p t ended := by
  constructor
  · rintro ⟨before, t, ended, after, heq, hdir, hp, hclean⟩
    rcases List.eq_nil_or_concat after with rfl | ⟨after', last, rfl⟩
    · obtain ⟨-, hstep⟩ := List.append_inj' heq rfl
      exact .inr ⟨t, ended, List.singleton_inj.1 hstep, hdir, hp⟩
    · rw [List.concat_eq_append, ← List.cons_append, ← List.append_assoc] at heq
      obtain ⟨rfl, hstep⟩ := List.append_inj' heq rfl
      rw [List.concat_eq_append, List.mem_append, not_or, List.mem_singleton,
        ← List.singleton_inj.1 hstep] at hclean
      exact .inl ⟨⟨before, t, ended, after', rfl, hdir, hp, hclean.1⟩, Ne.symm hclean.2⟩
  · rintro (⟨⟨before, t, ended, after, rfl, hdir, hp, hclean⟩, hstep⟩ | ⟨t, ended, rfl, hdir, hp⟩)
    · refine ⟨before, t, ended, after ++ [step], by simp, hdir, hp, fun h => ?_⟩
      rcases List.mem_append.1 h with h | h
      · exact hclean h
      · exact hstep (List.mem_singleton.1 h).symm
    · exact ⟨log, t, ended, [], rfl, hdir, hp, List.not_mem_nil⟩

theorem not_sinceCleaned_nil {dir : String} {p : LibTarget → Ended → Prop} :
    ¬ SinceCleaned [] dir p := by
  rintro ⟨before, t, ended, after, heq, -⟩
  simp at heq

/-- **Something is in a directory** exactly where a recipe was started since it was cleaned up. -/
theorem filled_iff (log : List TreeStep) (dir : String) :
    (log.foldl LibTree.after .empty).filled dir = true ↔
      SinceCleaned log dir fun _ ended => ended.starts = true := by
  induction log using List.reverseRecOn with
  | nil => exact ⟨nofun, fun h => absurd h not_sinceCleaned_nil⟩
  | append_singleton log step ih =>
    rw [List.foldl_append, List.foldl_cons, List.foldl_nil, sinceCleaned_concat, ← ih]
    cases step with
    | recipe t ended => simp [LibTree.after]
    | clean dir' => simp [LibTree.after, @eq_comm _ dir]

/-- What was built since its directory was cleaned up is there. -/
theorem built_of_sinceCleaned (log : List TreeStep) {t : LibTarget} {dir : String}
    (hdir : t.dir = some dir)
    (h : SinceCleaned log dir fun t' ended => t' = t ∧ ended = .works) :
    (log.foldl LibTree.after .empty).built t = true := by
  induction log using List.reverseRecOn with
  | nil => exact absurd h not_sinceCleaned_nil
  | append_singleton log step ih =>
    rw [List.foldl_append, List.foldl_cons, List.foldl_nil]
    rcases sinceCleaned_concat.1 h with ⟨hbefore, hstep⟩ | ⟨t', ended, rfl, -, rfl, rfl⟩
    · cases step with
      | recipe t' ended => simp [LibTree.after, ih hbefore]
      | clean dir' =>
        have hne : dir' ≠ dir := fun h => hstep (h ▸ rfl)
        simp [LibTree.after, ih hbefore, hdir, hne.symm]
    · simp [LibTree.after, Ended.leaves]

/-- Where something is in the directory of a library that is not there, something went wrong. -/
theorem spoilt_of_started {log : List TreeStep} {t : LibTarget} (h : Started log t)
    (hbuilt : (log.foldl LibTree.after .empty).built t ≠ true) : Spoilt log t := by
  obtain ⟨dir, hdir, before, t', ended, after, hlog, hdir', -, hclean⟩ := h
  refine ⟨dir, hdir, before, t', ended, after, hlog, hdir', ?_, hclean⟩
  by_contra hsame
  rw [not_or, not_ne_iff, not_ne_iff] at hsame
  exact hbuilt (built_of_sinceCleaned log hdir
    ⟨before, t', ended, after, hlog, hdir', hsame, hclean⟩)

/-- **A run**: the tree is what was done to it. -/
theorem treeRun_tree (events : List TreeEvent) :
    (treeRun events).1 = (treeRun events).2.foldl LibTree.after .empty := by
  induction events using List.reverseRecOn with
  | nil => rfl
  | append_singleton events e ih =>
    have hstep : treeRun (events ++ [e]) =
        ((e.steps (treeRun events).1).foldl LibTree.after (treeRun events).1,
          (treeRun events).2 ++ e.steps (treeRun events).1) := by
      rw [treeRun, List.foldl_append]
      rfl
    rw [hstep, List.foldl_append, ← ih]

/-! ## The commands -/

theorem mem_findMissingLibTargets {log : List TreeStep} {config : Config}
    {required : List LibTarget} (h : computeRequiredLibTargets config = some required)
    {t : LibTarget} (ht : t ∈ required) :
    t ∈ findMissingLibTargets (log.foldl LibTree.after .empty) required ↔ ¬ Started log t := by
  have hdir := dir_of_required h ht
  rw [findMissingLibTargets, List.mem_filter, Bool.not_eq_true', ← Bool.not_eq_true, filled_iff]
  refine ⟨fun hmissing hstarted => ?_, fun hstarted => ⟨ht, fun hfilled => ?_⟩⟩
  · obtain ⟨dir, hdir', hsince⟩ := hstarted
    obtain rfl := Option.some.inj (hdir.symm.trans hdir')
    exact hmissing.2 hsince
  · exact hstarted ⟨_, hdir, hfilled⟩

/-- What is done about PHP, where the libraries are in order. -/
structure PhpDone (parts : Parts) (builds : Builds) (versions : List String) (o : Outcome) :
    Prop where
  steps : o.steps = []
  present : ∀ targets, o.error ≠ some (.missing targets)
  dry : parts.dryRun = true → o.spawned = []
  inOrder : BuiltInOrder parts builds versions [] o

theorem phpDone_throw {parts : Parts} {builds : Builds} {versions : List String}
    {err : CommandError} (h : ∀ targets, err ≠ .missing targets) :
    PhpDone parts builds versions (.throw err) :=
  ⟨rfl, fun targets heq => h targets (Option.some.inj heq), fun _ => rfl, 0, Nat.zero_le _, rfl,
    nofun, nofun⟩

theorem buildVersions_done {parts : Parts} {builds : Builds} {versions : List String} :
    PhpDone parts builds versions (buildVersions parts.dryRun builds versions) := by
  induction versions generalizing builds with
  | nil =>
    exact ⟨rfl, nofun, fun _ => rfl, 0, Nat.zero_le _, rfl, nofun, fun _ _ _ => ⟨rfl, nofun⟩⟩
  | cons version versions ih =>
    have hlater : PhpDone parts (fun i => builds (i + 1)) versions
        (buildVersions parts.dryRun (fun i => builds (i + 1)) versions) := ih
    obtain ⟨n, hn, hspawned, hworked, hdone⟩ := hlater.inOrder
    rw [buildVersions]
    cases hbuild : builds 0 with
    | error text => exact phpDone_throw nofun
    | ok code =>
      dsimp only
      by_cases hdry : parts.dryRun = true
      · rw [if_pos hdry]
        refine ⟨hlater.steps, hlater.present, hlater.dry, 0, Nat.zero_le _, hlater.dry hdry, nofun,
          fun _ _ hwet => ?_⟩
        rw [hdry] at hwet
        cases hwet
      rw [if_neg hdry]
      by_cases hcode : code = some 0
      · rw [if_pos hcode]
        refine ⟨hlater.steps, hlater.present, fun h => absurd h hdry, n + 1, Nat.succ_le_succ hn,
          ?_, fun i hi => ?_, fun herror hphp hwet => ?_⟩
        · simp [Outcome.andThen, hspawned]
        · cases i with
          | zero => rw [hbuild, hcode]
          | succ i => exact hworked i (Nat.lt_of_succ_lt_succ hi)
        · obtain ⟨rfl, hall⟩ := hdone herror hphp hwet
          refine ⟨rfl, fun i hi => ?_⟩
          cases i with
          | zero => rw [hbuild, hcode]
          | succ i => exact hall i (Nat.lt_of_succ_lt_succ hi)
      · rw [if_neg hcode]
        refine ⟨rfl, nofun, fun h => absurd h hdry, 1, Nat.succ_le_succ (Nat.zero_le _),
          by simp [Outcome.andThen], fun i hi => ?_, nofun⟩
        omega

theorem phpPart_done (parts : Parts) (builds : Builds) (config : Config) :
    PhpDone parts builds config.versions (phpPart parts builds config) := by
  rw [phpPart]
  by_cases hphp : parts.php = true
  · rw [if_pos hphp]
    by_cases hempty : config.versions.isEmpty = true
    · rw [if_pos hempty]
      exact phpDone_throw nofun
    · rw [if_neg hempty]
      exact buildVersions_done
  · rw [if_neg hphp]
    exact ⟨rfl, nofun, fun _ => rfl, 0, Nat.zero_le _, rfl, nofun, fun _ h => absurd h hphp⟩

/-- The command does nothing about the libraries. -/
theorem commandRight_php {log : List TreeStep} {config : Config} {required : List LibTarget}
    (h : computeRequiredLibTargets config = some required) {parts : Parts} {builds : Builds}
    {o : Outcome} (ho : PhpDone parts builds config.versions o)
    (hlibs : parts.libs = true → parts.dryRun = true ∨ required = [])
    (hstarted : parts.libs = false → parts.dryRun = false → ∀ t ∈ required, Started log t) :
    CommandRight log (log.foldl LibTree.after .empty) config required parts builds o where
  dry hdry := ⟨ho.steps, ho.dry hdry⟩
  refused hlibs hdry := .inl ⟨hstarted hlibs hdry, ho.present⟩
  built hwith version hversion t ht := by
    rcases hlibs hwith with hdry | rfl
    · rw [ho.dry hdry] at hversion
      cases hversion
    · obtain ⟨g, hg, -⟩ := (neededLib_iff h t).1 ht
      cases hg
  spoilt hwithout version hversion t ht := by
    by_cases hdry : parts.dryRun = true
    · rw [ho.dry hdry] at hversion
      cases hversion
    · by_cases hbuilt : (log.foldl LibTree.after .empty).built t = true
      · exact .inl hbuilt
      · exact .inr (spoilt_of_started (hstarted hwithout (Bool.not_eq_true _ ▸ hdry) t ht) hbuilt)
  versions := ⟨[], .inl rfl, ho.inOrder⟩

/-- The command builds the libraries first. -/
theorem commandRight_make {log : List TreeStep} {config : Config} {required : List LibTarget}
    (h : computeRequiredLibTargets config = some required) {parts : Parts} {builds : Builds}
    {o : Outcome} (ho : PhpDone parts builds config.versions o) (w : Surroundings)
    (hlibs : parts.libs = true) (hdry : parts.dryRun = false) (hsome : required ≠ []) :
    CommandRight log (log.foldl LibTree.after .empty) config required parts builds
      ((runLibBuild w (log.foldl LibTree.after .empty) required).andThen o) := by
  have hright := libsRight h w (log.foldl LibTree.after .empty)
  have hwet : ¬ parts.dryRun = true := by simp [hdry]
  have hwith : ¬ parts.libs = false := by simp [hlibs]
  rw [runLibBuild, if_neg hsome]
  generalize runMake w (log.foldl LibTree.after .empty) required = m at hright
  by_cases hok : m.ok = true
  · simp only [hok, if_true, Outcome.andThen, ho.steps, List.append_nil]
    obtain ⟨n, hn, hspawned, hworked, hdone⟩ := ho.inOrder
    exact ⟨fun h => absurd h hwet, fun h => absurd h hwith,
      fun _ _ _ t ht => hright.built hok t ht, fun h => absurd h hwith,
      [.make required], .inr rfl, n, hn, by rw [hspawned]; rfl, hworked, hdone⟩
  · simp only [hok, Outcome.andThen]
    exact ⟨fun h => absurd h hwet, fun h => absurd h hwith,
      fun _ _ hversion => by simp at hversion, fun h => absurd h hwith,
      [.make required], .inr rfl, 0, Nat.zero_le _, by simp, nofun, nofun⟩

/-- What a command does about the libraries: nothing, build them, or refuse. -/
theorem libsPart_cases (parts : Parts) (w : Surroundings) (tree : LibTree)
    (required : List LibTarget) :
    (libsPart parts w tree required = .nothing ∧
        (parts.libs = true → parts.dryRun = true ∨ required = []) ∧
        (parts.libs = false → parts.dryRun = false → findMissingLibTargets tree required = [])) ∨
      (parts.libs = true ∧ parts.dryRun = false ∧ required ≠ [] ∧
        libsPart parts w tree required = runLibBuild w tree required) ∨
      parts.libs = false ∧ parts.dryRun = false ∧ findMissingLibTargets tree required ≠ [] ∧
        libsPart parts w tree required =
          .throw (.missing (findMissingLibTargets tree required)) := by
  rw [libsPart]
  rcases Bool.eq_false_or_eq_true parts.dryRun with hdry | hdry
  · simp [hdry]
  rcases Bool.eq_false_or_eq_true parts.libs with hlibs | hlibs
  · by_cases hnone : required = []
    · simp [hlibs, hdry, hnone, runLibBuild]
    · simp [hlibs, hdry, hnone]
  · cases hmissing : findMissingLibTargets tree required with
    | nil => simp [hlibs, hdry]
    | cons t missing => simp [hlibs, hdry]

/-- **The commands**, after any run. -/
theorem commandRight (events : List TreeEvent) (parts : Parts) (w : Surroundings) (builds : Builds)
    {config : Config} {required : List LibTarget} (hvalid : validateExtensions config = .ok ())
    (h : computeRequiredLibTargets config = some required) :
    CommandRight (treeRun events).2 (treeRun events).1 config required parts builds
      (runBuildCommand parts w builds (treeRun events).1 config) := by
  have hphp := phpPart_done parts builds config
  rw [treeRun_tree events, runBuildCommand, hvalid]
  generalize (treeRun events).2 = log
  have hmissing : ∀ t ∈ required,
      t ∈ findMissingLibTargets (log.foldl LibTree.after .empty) required ↔ ¬ Started log t :=
    fun t ht => mem_findMissingLibTargets h ht
  simp only [h]
  rcases libsPart_cases parts w (log.foldl LibTree.after .empty) required with
    ⟨heq, hlibs, hnone⟩ | ⟨hlibs, hdry, hsome, heq⟩ | ⟨hlibs, hdry, hsome, heq⟩
  · rw [heq]
    refine commandRight_php h hphp hlibs fun hwithout hdry t ht => ?_
    by_contra hstarted
    have hmem := (hmissing t ht).2 hstarted
    rw [hnone hwithout hdry] at hmem
    cases hmem
  · rw [heq]
    exact commandRight_make h hphp w hlibs hdry hsome
  · have hwet : ¬ parts.dryRun = true := by simp [hdry]
    have hwithout : ¬ parts.libs = true := by simp [hlibs]
    rw [heq]
    refine ⟨fun h => absurd h hwet, fun _ _ => .inr ⟨_, rfl, hsome, fun t => ?_⟩,
      fun h => absurd h hwithout, fun _ _ hversion => (by cases hversion),
      [], .inl rfl, 0, Nat.zero_le _, rfl, nofun, nofun⟩
    refine ⟨fun ht => ?_, fun ht => (hmissing t ht.1).2 ht.2⟩
    have hrequired := (List.mem_filter.1 ht).1
    exact ⟨hrequired, (hmissing t hrequired).1 ht⟩

/-- Here a library could not be built, and PHP is built without it. -/
theorem commandRight_failed_sqlite :
    ∃ events parts w builds,
      (∃ version, .buildJs version ∈
        (runBuildCommand parts w builds (treeRun events).1 sqliteConfig).spawned) ∧
      (treeRun events).1.built .libsqlite3 = false ∧
      CommandRight (treeRun events).2 (treeRun events).1 sqliteConfig [.libsqlite3] parts builds
        (runBuildCommand parts w builds (treeRun events).1 sqliteConfig) := by
  refine ⟨[.command ⟨true, false, false⟩
      ⟨fun _ => true, fun t => if t = .libsqlite3 then .fails true false else .works⟩
      (fun _ => .ok (some 0)) sqliteConfig], ⟨false, true, false⟩,
    ⟨fun _ => true, fun _ => .works⟩, fun _ => .ok (some 0), ⟨"8.5", by decide⟩, by decide,
    commandRight _ _ _ _ rfl (by decide)⟩

end PhpWasm.Build
