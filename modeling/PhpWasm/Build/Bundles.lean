import Mathlib.Data.List.Basic
import Mathlib.Logic.Relation
import PhpWasm.Base.Assignments
import PhpWasm.Build.Config

/-!
# Bundled extensions

A shared extension may need another one loaded before it, and `bundleExtensions` then names it: the
package of the first ships the second as well, and the package's `index.js` lists both, in the order
in which they are loaded.  This file models a full run of `compile-extension`.

An extension that is named in any list is compiled for the packages that name it, and a package
names what stands in its own extension's list and nothing else.  `compileRight_iff` says which
lists this is right for, by the shape they have: those that are written out in full, by the
extensions that nobody bundles.
-/

set_option autoImplicit false

/-! ## Load orders -/

namespace LoadOrder

open Relation

variable {α : Type*} [DecidableEq α] {Needs : α → α → Prop} {l : List α}

/-- Everything in the list comes after what it needs. -/
def Ordered (Needs : α → α → Prop) (l : List α) : Prop :=
  ∀ x ∈ l, ∀ y, Needs x y → y ∈ l ∧ l.idxOf y < l.idxOf x

/-- **In a load order everything comes after what it needs indirectly.** -/
theorem Ordered.transGen (h : Ordered Needs l) {x y : α} (hx : x ∈ l) (hxy : TransGen Needs x y) :
    y ∈ l ∧ l.idxOf y < l.idxOf x := by
  induction hxy with
  | single hxy => exact h x hx _ hxy
  | tail _ hyz ih =>
    obtain ⟨hz, hlt⟩ := h _ ih.1 _ hyz
    exact ⟨hz, Nat.lt_trans hlt ih.2⟩

/-- What comes before a cut. -/
theorem idxOf_lt_iff_mem {pre : List α} (post : List α) {x y : α} (hx : x ∉ pre) :
    (y ∈ pre ++ x :: post ∧ (pre ++ x :: post).idxOf y < (pre ++ x :: post).idxOf x) ↔
      y ∈ pre := by
  rw [List.idxOf_append_of_notMem hx, List.idxOf_cons_self, Nat.add_zero]
  constructor
  · rintro ⟨-, hlt⟩
    by_contra hy
    rw [List.idxOf_append_of_notMem hy] at hlt
    exact absurd hlt (Nat.not_lt.2 (Nat.le_add_right _ _))
  · intro hy
    rw [List.idxOf_append_of_mem hy]
    exact ⟨List.mem_append_left _ hy, List.idxOf_lt_length_of_mem hy⟩

end LoadOrder

namespace PhpWasm.Build

open Assignments LoadOrder Relation

/-! ## The run -/

/-- `ext.name`: a string, or something else by its text. -/
inductive ExtensionName
  | string (name : String)
  | other (text : String)
  deriving DecidableEq

/-- The name in a path. -/
def ExtensionName.text : ExtensionName → String
  | string name => name
  | other text => text

/-- A shared extension, as the command reads it. -/
structure SharedExtension where
  /-- The key of its entry. -/
  key : String
  name : ExtensionName
  /-- `ext.bundleExtensions ?? []` -/
  bundleExtensions : List String
  /-- `Boolean(ext.internal)` -/
  internal : Bool
  deriving DecidableEq

/-- A member of `getSharedExtensions`. -/
def sharedExtension (key : String) (ext : JsValue) : SharedExtension where
  key := key
  name := match ext.field "name" with
    | .string name => .string name
    | name => .other name.toText
  bundleExtensions := match ext.field "bundleExtensions" with
    | .strings names => names
    | _ => []
  internal := (ext.field "internal").truthy

/-- The shared extensions of a configuration. -/
def sharedExtensions (config : Config) : List SharedExtension :=
  List.zipWith sharedExtension
    ((config.entries.entries.filter fun e => (modeOf e.2).isString "shared").map Prod.fst)
    (getSharedExtensions config)

/-- `shared.find((e) => e.name === name)` -/
def findShared (shared : List SharedExtension) (name : String) : Option SharedExtension :=
  shared.find? fun e => e.name = .string name

/-- `bundledNames.has(ext.name)` -/
def isBundled (shared : List SharedExtension) (ext : SharedExtension) : Bool :=
  (shared.flatMap SharedExtension.bundleExtensions).any fun name => ext.name = .string name

/-- `selected`, without a name on the command line. -/
def selectedExtensions (shared : List SharedExtension) : List SharedExtension :=
  shared.filter fun ext => !isBundled shared ext

/-- What a full run throws. -/
inductive CompileError
  | config (err : ConfigError)
  | noVersions
  /-- `path.join` is given a name that is not a string. -/
  | notPath (name : String)
  | noBundle (ext : String) (name : String)

/-- The message of an error; for a path, as far as it does not depend on the name. -/
def CompileError.message : CompileError → String
  | config err => err.message
  | noVersions => "config.yaml: php.versions is empty."
  | notPath _ => "The \"path\" argument must be of type string."
  | noBundle ext name =>
    "config.yaml: \"" ++ ext ++ "\" bundles \"" ++ name ++ "\", but there's no " ++
      "mode:shared extension named \"" ++ name ++ "\"."

/-- The manifest of a bundled extension. -/
def manifestName (name : String) : String := "manifest-" ++ name ++ ".json"

/-- `manifestNames` in the `index.js` of a package. -/
def extensionIndexJs (ext : SharedExtension) : List String :=
  ext.bundleExtensions.map manifestName ++ ["manifest.json"]

/-- `outDir`, from the build directory or from the root of the repository. -/
def outDir (ext : SharedExtension) : Except CompileError String :=
  match ext.internal, ext.name with
  | true, .string name => .ok ("extensions/" ++ name)
  | true, .other text => .error (.notPath text)
  | false, name => .ok ("packages/phpext-" ++ name.text)

/-- What a turn of the loop writes to an output directory. -/
structure Package where
  outDir : String
  /-- The manifests that are written, and the extension that each is of. -/
  manifests : List (String × SharedExtension)
  /-- The manifests its `index.js` resolves, if it has one. -/
  index : Option (List String)

/-- One turn of the loop of `runCompileExtensionCommand`. -/
def compilePackage (shared : List SharedExtension) (ext : SharedExtension) :
    Except CompileError Package := do
  let dir ← outDir ext
  let bundled ← ext.bundleExtensions.mapM fun name =>
    match findShared shared name with
    | some bundledExt => .ok bundledExt
    | none => .error (.noBundle ext.name.text name)
  .ok
    { outDir := dir
      manifests := bundled.map (fun e => (manifestName e.name.text, e)) ++ [("manifest.json", ext)]
      index := if ext.internal then none else some (extensionIndexJs ext) }

/-- `runCompileExtensionCommand` without a name, where every compilation succeeds. -/
def compileExtensions (config : Config) : Except CompileError (List Package) := do
  (validateExtensions config).mapError .config
  let shared := sharedExtensions config
  let selected := selectedExtensions shared
  if selected.isEmpty then .ok []
  else if ",".intercalate config.versions = "" then .error .noVersions
  else selected.mapM (compilePackage shared)

/-! ## What is asked of the packages -/

/-- One extension bundles another. -/
def Bundles (shared : List SharedExtension) (ext bundled : SharedExtension) : Prop :=
  ∃ name ∈ ext.bundleExtensions, findShared shared name = some bundled

/-- The extensions that the `index.js` of a package resolves, in order. -/
def Package.resolved (p : Package) : List SharedExtension :=
  (p.index.getD []).filterMap fun manifest => last manifest p.manifests

/-- **The packages are right**. -/
structure PackagesRight (shared : List SharedExtension) (packages : List Package) : Prop where
  /-- Every extension is compiled. -/
  compiled : ∀ ext ∈ shared, ∃ p ∈ packages, ∃ manifest, (manifest, ext) ∈ p.manifests
  /-- What an extension bundles, by itself or through others, is resolved once and before it. -/
  resolved : ∀ p ∈ packages, p.index ≠ none → ∀ x ∈ p.resolved, ∀ y,
    TransGen (Bundles shared) x y →
      p.resolved.count y = 1 ∧ p.resolved.idxOf y < p.resolved.idxOf x
  /-- No extension on a cycle went unnoticed. -/
  acyclic : ∀ ext ∈ shared, ¬ TransGen (Bundles shared) ext ext

/-- **The run is right**: it reports an error, or its packages are right. -/
def CompileRight (config : Config) : Prop :=
  match compileExtensions config with
  | .ok packages => PackagesRight (sharedExtensions config) packages
  | .error _ => True

/-- **The lists name shared extensions**. -/
structure NamesShared (config : Config) : Prop where
  /-- `bundleExtensions` is a list, if it is there. -/
  lists : ∀ ext ∈ getSharedExtensions config,
    (ext.field "bundleExtensions").isMissing ∨ (ext.field "bundleExtensions").isList
  /-- Every name in it is that of a shared extension. -/
  names : ∀ ext ∈ sharedExtensions config, ∀ name ∈ ext.bundleExtensions,
    findShared (sharedExtensions config) name ≠ none

/-- The list of an extension is written out in full: it names nothing twice, and before a name it
names all that is in the list of the one with that name. -/
def BundlesFull (shared : List SharedExtension) (p : SharedExtension) : Prop :=
  p.bundleExtensions.Nodup ∧ ∀ pre name post, p.bundleExtensions = pre ++ name :: post →
    ∀ x, findShared shared name = some x → ∀ m ∈ x.bundleExtensions, m ∈ pre

/-- **The lists are written out in full**, where a package is made of them. -/
structure BundlesFlat (shared : List SharedExtension) : Prop where
  /-- What is bundled is named by an extension that is not. -/
  named : ∀ ext ∈ shared, isBundled shared ext = true →
    ∃ p ∈ selectedExtensions shared, Bundles shared p ext
  /-- The list of an extension that is not bundled, nor internal, is written out in full. -/
  full : ∀ p ∈ selectedExtensions shared, p.internal = false → BundlesFull shared p
  /-- No extension bundles itself, also not through others. -/
  acyclic : ∀ ext ∈ shared, ¬ TransGen (Bundles shared) ext ext

/-- The run is stopped: there is something to compile, and no PHP version to compile it for or an
internal extension whose name cannot stand in a path. -/
def Stopped (config : Config) : Prop :=
  let selected := selectedExtensions (sharedExtensions config)
  selected ≠ [] ∧ (",".intercalate config.versions = "" ∨
    ∃ ext ∈ selected, ext.internal = true ∧ ∀ name, ext.name ≠ .string name)

/-! ## What is found -/

section
variable {shared : List SharedExtension} {name : String} {x y p : SharedExtension}

theorem name_of_findShared (h : findShared shared name = some x) : x.name = .string name := by
  have hfound := List.find?_some h
  simpa using hfound

theorem mem_of_findShared (h : findShared shared name = some x) : x ∈ shared :=
  List.mem_of_find?_eq_some h

/-- Two names do not find one extension. -/
theorem findShared_inj {name' : String} (h : findShared shared name = some x)
    (h' : findShared shared name' = some x) : name = name' :=
  ExtensionName.string.inj ((name_of_findShared h).symm.trans (name_of_findShared h'))

/-- In a configuration with distinct names a name finds the extension that has it. -/
theorem findShared_of_mem (hdistinct : (shared.map SharedExtension.name).Nodup) (hx : x ∈ shared)
    (hname : x.name = .string name) : findShared shared name = some x := by
  cases hy : findShared shared name with
  | none => exact absurd (List.find?_eq_none.1 hy x hx) (by simp [hname])
  | some y =>
    have heq := (name_of_findShared hy).trans hname.symm
    rw [List.inj_on_of_nodup_map hdistinct (mem_of_findShared hy) hx heq]

theorem isBundled_iff :
    isBundled shared x = true ↔
      ∃ p ∈ shared, ∃ name ∈ p.bundleExtensions, x.name = .string name := by
  simp only [isBundled, List.any_eq_true, List.mem_flatMap, decide_eq_true_eq]
  constructor
  · rintro ⟨name, ⟨p, hp, hname⟩, hx⟩
    exact ⟨p, hp, name, hname, hx⟩
  · rintro ⟨p, hp, name, hname, hx⟩
    exact ⟨name, ⟨p, hp, hname⟩, hx⟩

theorem mem_selected :
    x ∈ selectedExtensions shared ↔ x ∈ shared ∧ isBundled shared x = false := by
  rw [selectedExtensions, List.mem_filter, Bool.not_eq_true']

/-- The extensions that are named in a list. -/
def findAll (shared : List SharedExtension) (names : List String) : List SharedExtension :=
  names.filterMap (findShared shared)

theorem mem_findAll {names : List String} :
    x ∈ findAll shared names ↔ ∃ name ∈ names, findShared shared name = some x :=
  List.mem_filterMap

theorem mem_findAll_iff_bundles : x ∈ findAll shared p.bundleExtensions ↔ Bundles shared p x :=
  mem_findAll

/-- Where a name is, the extension is that it finds. -/
theorem findAll_split (pre : List String) (post : List String)
    (h : findShared shared name = some x) :
    findAll shared (pre ++ name :: post) = findAll shared pre ++ x :: findAll shared post := by
  rw [findAll, List.filterMap_append, List.filterMap_cons_some h, findAll, findAll]

/-- A list that finds something for each of its names names nothing twice exactly if it finds
nothing twice. -/
theorem findAll_nodup_iff {names : List String}
    (hfound : ∀ name ∈ names, findShared shared name ≠ none) :
    (findAll shared names).Nodup ↔ names.Nodup := by
  constructor
  · intro h
    induction names with
    | nil => exact List.nodup_nil
    | cons name names ih =>
      obtain ⟨hname, hnames⟩ := List.forall_mem_cons.1 hfound
      obtain ⟨x, hx⟩ := Option.ne_none_iff_exists'.1 hname
      rw [findAll, List.filterMap_cons_some hx] at h
      obtain ⟨hx', h⟩ := List.nodup_cons.1 h
      exact List.nodup_cons.2 ⟨fun hmem => hx' (mem_findAll.2 ⟨name, hmem, hx⟩), ih hnames h⟩
  · exact fun h => h.filterMap fun a a' b hb hb' => findShared_inj hb hb'

/-! ## The run -/

/-- The package of an extension. -/
def packageOf (shared : List SharedExtension) (p : SharedExtension) : Package where
  outDir := (if p.internal then "extensions/" else "packages/phpext-") ++ p.name.text
  manifests := (findAll shared p.bundleExtensions).map (fun e => (manifestName e.name.text, e)) ++
    [("manifest.json", p)]
  index := if p.internal then none else some (extensionIndexJs p)

/-- An internal extension has a name that is a string. -/
def NamesPath (p : SharedExtension) : Prop := p.internal = true → ∃ name, p.name = .string name

/-- The part of a turn that looks the names up. -/
theorem mapM_findShared {text : String} {names : List String}
    (hfound : ∀ name ∈ names, findShared shared name ≠ none) :
    (names.mapM fun name => match findShared shared name with
      | some bundledExt => Except.ok bundledExt
      | none => Except.error (CompileError.noBundle text name)) = .ok (findAll shared names) := by
  induction names with
  | nil => rfl
  | cons name names ih =>
    obtain ⟨hname, hnames⟩ := List.forall_mem_cons.1 hfound
    obtain ⟨x, hx⟩ := Option.ne_none_iff_exists'.1 hname
    rw [List.mapM_cons, ih hnames, hx, findAll, findAll, List.filterMap_cons_some hx]
    rfl

theorem outDir_ok (hpath : NamesPath p) :
    outDir p = .ok ((if p.internal then "extensions/" else "packages/phpext-") ++ p.name.text) := by
  unfold outDir
  cases hinternal : p.internal with
  | false => rfl
  | true =>
    obtain ⟨name, hname⟩ := hpath hinternal
    rw [hname]
    rfl

/-- A turn writes the package. -/
theorem compilePackage_ok (hfound : ∀ name ∈ p.bundleExtensions, findShared shared name ≠ none)
    (hpath : NamesPath p) : compilePackage shared p = .ok (packageOf shared p) := by
  unfold compilePackage
  rw [outDir_ok hpath, mapM_findShared hfound]
  rfl

/-- A turn fails on a name that is not a string. -/
theorem compilePackage_error (hpath : ¬ NamesPath p) :
    ∃ err, compilePackage shared p = .error err := by
  simp only [NamesPath, Classical.not_imp, not_exists] at hpath
  unfold compilePackage outDir
  cases hname : p.name with
  | string name => exact absurd hname (hpath.2 name)
  | other text => exact ⟨.notPath text, by rw [hpath.1]; rfl⟩

theorem mapM_ok {α β ε : Type} {f : α → Except ε β} {g : α → β} {l : List α}
    (h : ∀ a ∈ l, f a = .ok (g a)) : l.mapM f = .ok (l.map g) := by
  induction l with
  | nil => rfl
  | cons a l ih =>
    obtain ⟨ha, hl⟩ := List.forall_mem_cons.1 h
    rw [List.mapM_cons, ha, ih hl]
    rfl

theorem mapM_error {α β ε : Type} {f : α → Except ε β} {l : List α}
    (h : ∃ a ∈ l, ∃ err, f a = .error err) : ∃ err, l.mapM f = .error err := by
  induction l with
  | nil => exact absurd h (by simp)
  | cons a l ih =>
    rw [List.mapM_cons]
    cases ha : f a with
    | error err => exact ⟨err, rfl⟩
    | ok b =>
      obtain ⟨a', ha', err, herr⟩ := h
      rcases List.mem_cons.1 ha' with rfl | ha'
      · rw [ha] at herr
        cases herr
      · obtain ⟨err, hl⟩ := ih ⟨a', ha', err, herr⟩
        exact ⟨err, by rw [hl]; rfl⟩

variable {config : Config}

/-- The run, once the configuration is accepted. -/
theorem compileExtensions_accepted (hok : validateExtensions config = .ok ()) :
    compileExtensions config =
      if (selectedExtensions (sharedExtensions config)).isEmpty then .ok []
      else if ",".intercalate config.versions = "" then .error .noVersions
      else (selectedExtensions (sharedExtensions config)).mapM
        (compilePackage (sharedExtensions config)) := by
  unfold compileExtensions
  rw [hok]
  rfl

/-- A run of an accepted configuration that is not stopped writes a package for each of the
extensions that nobody bundles. -/
theorem compileExtensions_ok (hok : validateExtensions config = .ok ())
    (hnames : NamesShared config) (hrun : ¬ Stopped config) :
    compileExtensions config = .ok ((selectedExtensions (sharedExtensions config)).map
      (packageOf (sharedExtensions config))) := by
  simp only [Stopped, not_and_or, not_not, not_or, not_exists] at hrun
  rw [compileExtensions_accepted hok]
  rcases hrun with hnil | ⟨hversions, hpath⟩
  · rw [hnil]
    rfl
  · rw [if_neg hversions]
    split
    · rename_i hnil
      rw [List.isEmpty_iff.1 hnil]
      rfl
    · refine mapM_ok fun p hp => compilePackage_ok (hnames.names p (mem_selected.1 hp).1) ?_
      intro hinternal
      rcases hpath p with hsel | hext | hname
      · exact absurd hp hsel
      · exact absurd hinternal hext
      · simpa using hname

/-- A run that is stopped reports an error. -/
theorem compileExtensions_error (hok : validateExtensions config = .ok ())
    (hstopped : Stopped config) : ∃ err, compileExtensions config = .error err := by
  obtain ⟨hsel, hstopped⟩ := hstopped
  rw [compileExtensions_accepted hok, if_neg (by rwa [List.isEmpty_iff])]
  split
  · exact ⟨.noVersions, rfl⟩
  · rename_i hversions
    obtain ⟨p, hp, hinternal, hname⟩ := hstopped.resolve_left hversions
    refine mapM_error ⟨p, hp, compilePackage_error fun hpath => ?_⟩
    obtain ⟨name, heq⟩ := hpath hinternal
    exact hname name heq

/-! ## What a package resolves -/

theorem manifestName_inj {name' : String} (h : manifestName name = manifestName name') :
    name = name' := by
  simp only [manifestName, String.ext_iff, String.toList_append, List.append_cancel_right_eq,
    List.append_cancel_left_eq] at h
  exact String.ext_iff.2 h

theorem manifestName_ne (name : String) : manifestName name ≠ "manifest.json" := by
  intro h
  simp only [manifestName, String.ext_iff, String.toList_append] at h
  have h8 := congrArg (fun l : List Char => l[8]?) h
  simp at h8

/-- What a package has for the name of a bundled extension. -/
theorem last_manifestName (hname : name ∈ p.bundleExtensions)
    (hx : findShared shared name = some x) :
    last (manifestName name) (packageOf shared p).manifests = some x := by
  have hmem : (manifestName name, x) ∈ (packageOf shared p).manifests := by
    refine List.mem_append_left _ (List.mem_map.2 ⟨x, mem_findAll.2 ⟨name, hname, hx⟩, ?_⟩)
    rw [name_of_findShared hx, ExtensionName.text]
  refine last_eq_some hmem fun w hw => ?_
  rcases List.mem_append.1 hw with hw | hw
  · obtain ⟨e, he, heq⟩ := List.mem_map.1 hw
    obtain ⟨hmanifest, rfl⟩ := Prod.mk.inj heq
    obtain ⟨name', -, hx'⟩ := mem_findAll.1 he
    rw [name_of_findShared hx', ExtensionName.text] at hmanifest
    obtain rfl := manifestName_inj hmanifest
    exact Option.some.inj (hx'.symm.trans hx)
  · exact absurd (Prod.mk.inj (List.mem_singleton.1 hw)).1 (manifestName_ne name)

/-- A package resolves what its extension bundles, in the order of the list, and then its
extension. -/
theorem resolved_packageOf (hfound : ∀ name ∈ p.bundleExtensions, findShared shared name ≠ none)
    (hinternal : p.internal = false) :
    (packageOf shared p).resolved = findAll shared p.bundleExtensions ++ [p] := by
  have hindex : (packageOf shared p).index = some (extensionIndexJs p) := by
    simp [packageOf, hinternal]
  have hlast : last "manifest.json" (packageOf shared p).manifests = some p := by
    rw [packageOf, last_append]
    rfl
  rw [Package.resolved, hindex, Option.getD_some, extensionIndexJs, List.filterMap_append,
    List.filterMap_map, List.filterMap_cons, hlast]
  refine congrArg (· ++ [p]) (List.filterMap_congr fun name hname => ?_)
  obtain ⟨x, hx⟩ := Option.ne_none_iff_exists'.1 (hfound name hname)
  rw [Function.comp_apply, last_manifestName hname hx, hx]

/-- What is in a package. -/
theorem mem_manifests :
    (∃ manifest, (manifest, x) ∈ (packageOf shared p).manifests) ↔ Bundles shared p x ∨ x = p := by
  rw [← mem_findAll_iff_bundles]
  constructor
  · rintro ⟨manifest, hmem⟩
    rcases List.mem_append.1 hmem with hmem | hmem
    · obtain ⟨e, he, heq⟩ := List.mem_map.1 hmem
      obtain ⟨-, rfl⟩ := Prod.mk.inj heq
      exact .inl he
    · exact .inr (Prod.mk.inj (List.mem_singleton.1 hmem)).2
  · rintro (hx | rfl)
    · exact ⟨_, List.mem_append_left _ (List.mem_map_of_mem hx)⟩
    · exact ⟨_, List.mem_append_right _ (List.mem_singleton.2 rfl)⟩

/-! ## What the lists have to be -/

/-- An extension that nobody bundles does not bundle itself. -/
theorem notMem_findAll (hp : p ∈ selectedExtensions shared) :
    p ∉ findAll shared p.bundleExtensions := by
  obtain ⟨hp, hbundled⟩ := mem_selected.1 hp
  intro hmem
  obtain ⟨name, hname, hx⟩ := mem_findAll.1 hmem
  have htrue := isBundled_iff.2 ⟨p, hp, name, hname, name_of_findShared hx⟩
  rw [hbundled] at htrue
  cases htrue

/-- The load order of a package, cut at an extension that is bundled. -/
theorem findAll_cut {names pre post : List String} (hnodup : (findAll shared names).Nodup)
    (hnames : names = pre ++ name :: post) (hx : findShared shared name = some x) :
    findAll shared names ++ [p] = findAll shared pre ++ x :: (findAll shared post ++ [p]) ∧
      x ∉ findAll shared pre := by
  rw [hnames, findAll_split pre post hx] at hnodup ⊢
  refine ⟨by rw [List.append_assoc, List.cons_append], fun hmem => ?_⟩
  exact (List.nodup_append.1 hnodup).2.2 x hmem x List.mem_cons_self rfl

/-- A package that resolves everything once and in order is made of a list that is written out in
full. -/
theorem bundlesFull_of_resolved
    (hfound : ∀ ext ∈ shared, ∀ name ∈ ext.bundleExtensions, findShared shared name ≠ none)
    (hp : p ∈ selectedExtensions shared) {l : List SharedExtension}
    (hl : l = findAll shared p.bundleExtensions ++ [p])
    (h : ∀ x ∈ l, ∀ y, TransGen (Bundles shared) x y → l.count y = 1 ∧ l.idxOf y < l.idxOf x) :
    BundlesFull shared p := by
  have hnodup : (findAll shared p.bundleExtensions).Nodup := by
    refine List.nodup_iff_count_le_one.2 fun y => ?_
    by_cases hy : y ∈ findAll shared p.bundleExtensions
    · have hmem : p ∈ l := by rw [hl]; exact List.mem_append_right _ (List.mem_singleton.2 rfl)
      have hcount := (h p hmem y (.single (mem_findAll_iff_bundles.1 hy))).1
      rw [hl, List.count_append] at hcount
      exact hcount ▸ Nat.le_add_right _ _
    · rw [List.count_eq_zero_of_not_mem hy]
      exact Nat.zero_le 1
  refine ⟨(findAll_nodup_iff (hfound p (mem_selected.1 hp).1)).1 hnodup, ?_⟩
  intro pre name post hnames x hx m hm
  obtain ⟨y, hy⟩ := Option.ne_none_iff_exists'.1 (hfound x (mem_of_findShared hx) m hm)
  obtain ⟨hcut, hxpre⟩ := findAll_cut (p := p) hnodup hnames hx
  have hxl : x ∈ l := by rw [hl, hcut]; exact List.mem_append_right _ List.mem_cons_self
  obtain ⟨hcount, hlt⟩ := h x hxl y (.single ⟨m, hm, hy⟩)
  have hyl : y ∈ l := List.count_pos_iff.1 (by rw [hcount]; exact Nat.one_pos)
  rw [hl, hcut] at hyl hlt
  obtain ⟨m', hm', hy'⟩ := mem_findAll.1 ((idxOf_lt_iff_mem _ hxpre).1 ⟨hyl, hlt⟩)
  rwa [findShared_inj hy hy']

/-- A list that is written out in full gives a package that resolves everything once and in
order. -/
theorem resolved_of_bundlesFull
    (hfound : ∀ name ∈ p.bundleExtensions, findShared shared name ≠ none)
    (hp : p ∈ selectedExtensions shared) {l : List SharedExtension}
    (hl : l = findAll shared p.bundleExtensions ++ [p]) (h : BundlesFull shared p) :
    ∀ x ∈ l, ∀ y, TransGen (Bundles shared) x y → l.count y = 1 ∧ l.idxOf y < l.idxOf x := by
  have hnodup := (findAll_nodup_iff hfound).2 h.1
  have hnotMem := notMem_findAll hp
  have hlnodup : l.Nodup := by
    rw [hl]
    refine List.nodup_append.2 ⟨hnodup, List.nodup_singleton _, fun a ha b hb hab => ?_⟩
    rw [hab, List.mem_singleton.1 hb] at ha
    exact hnotMem ha
  have hordered : Ordered (Bundles shared) l := by
    intro x hx y hxy
    rw [hl] at hx ⊢
    rcases List.mem_append.1 hx with hx | hx
    · obtain ⟨name, hname, hx⟩ := mem_findAll.1 hx
      obtain ⟨pre, post, hnames⟩ := List.append_of_mem hname
      obtain ⟨hcut, hxpre⟩ := findAll_cut (p := p) hnodup hnames hx
      obtain ⟨m, hm, hy⟩ := hxy
      rw [hcut]
      exact (idxOf_lt_iff_mem _ hxpre).2
        (mem_findAll.2 ⟨m, h.2 pre name post hnames x hx m hm, hy⟩)
    · rw [List.mem_singleton.1 hx] at hxy ⊢
      exact (idxOf_lt_iff_mem [] hnotMem).2 (mem_findAll_iff_bundles.2 hxy)
  intro x hx y hxy
  obtain ⟨hy, hlt⟩ := hordered.transGen hx hxy
  exact ⟨List.count_eq_one_of_mem hlnodup hy, hlt⟩

/-- The packages of the extensions that nobody bundles are right exactly if the lists are written
out in full. -/
theorem packagesRight_iff
    (hfound : ∀ ext ∈ shared, ∀ name ∈ ext.bundleExtensions, findShared shared name ≠ none) :
    PackagesRight shared ((selectedExtensions shared).map (packageOf shared)) ↔
      BundlesFlat shared := by
  have hresolved : ∀ p ∈ selectedExtensions shared, p.internal = false →
      (packageOf shared p).resolved = findAll shared p.bundleExtensions ++ [p] :=
    fun p hp => resolved_packageOf (hfound p (mem_selected.1 hp).1)
  constructor
  · intro h
    refine ⟨fun ext hext hbundled => ?_, fun p hp hinternal => ?_, h.acyclic⟩
    · obtain ⟨package, hpackage, hmem⟩ := h.compiled ext hext
      obtain ⟨p, hp, rfl⟩ := List.mem_map.1 hpackage
      rcases mem_manifests.1 hmem with hbundles | rfl
      · exact ⟨p, hp, hbundles⟩
      · exact absurd hbundled (by simp [(mem_selected.1 hp).2])
    · refine bundlesFull_of_resolved hfound hp (hresolved p hp hinternal)
        (h.resolved _ (List.mem_map_of_mem hp) ?_)
      simp [packageOf, hinternal]
  · intro h
    refine ⟨fun ext hext => ?_, fun package hpackage hindex => ?_, h.acyclic⟩
    · cases hbundled : isBundled shared ext with
      | false =>
        have hsel := mem_selected.2 ⟨hext, hbundled⟩
        exact ⟨_, List.mem_map_of_mem hsel, mem_manifests.2 (.inr rfl)⟩
      | true =>
        obtain ⟨p, hp, hbundles⟩ := h.named ext hext hbundled
        exact ⟨_, List.mem_map_of_mem hp, mem_manifests.2 (.inl hbundles)⟩
    · obtain ⟨p, hp, rfl⟩ := List.mem_map.1 hpackage
      have hinternal : p.internal = false := by simpa [packageOf] using hindex
      exact resolved_of_bundlesFull (hfound p (mem_selected.1 hp).1) hp (hresolved p hp hinternal)
        (h.full p hp hinternal)

/-- Distinct extensions whose lists repeat nothing, and name only extensions that bundle nothing
themselves, are written out in full. -/
theorem bundlesFlat_of_leaves (hdistinct : (shared.map SharedExtension.name).Nodup)
    (hnodup : ∀ p ∈ shared, p.bundleExtensions.Nodup)
    (hleaves : ∀ p ∈ shared, ∀ name ∈ p.bundleExtensions, ∀ x ∈ findShared shared name,
      x.bundleExtensions = []) : BundlesFlat shared := by
  have hleaf : ∀ p ∈ shared, ∀ x, Bundles shared p x → x.bundleExtensions = [] :=
    fun p hp x ⟨name, hname, hx⟩ => hleaves p hp name hname x hx
  refine ⟨fun ext hext hbundled => ?_, fun p hp _ => ?_, fun ext hext hcycle => ?_⟩
  · obtain ⟨p, hp, name, hname, hx⟩ := isBundled_iff.1 hbundled
    refine ⟨p, mem_selected.2 ⟨hp, ?_⟩, name, hname, findShared_of_mem hdistinct hext hx⟩
    by_contra hne
    obtain ⟨q, hq, name', hname', hp'⟩ := isBundled_iff.1 (Bool.not_eq_false _ ▸ hne)
    rw [hleaf q hq p ⟨name', hname', findShared_of_mem hdistinct hp hp'⟩] at hname
    cases hname
  · have hp := (mem_selected.1 hp).1
    refine ⟨hnodup p hp, fun pre name post hnames x hx m hm => ?_⟩
    have hname : name ∈ p.bundleExtensions := by
      rw [hnames]
      exact List.mem_append_right _ List.mem_cons_self
    rw [hleaves p hp name hname x hx] at hm
    cases hm
  · -- an extension on a cycle bundles something, and is bundled by one of the others
    obtain ⟨_, ⟨name, hname, -⟩, -⟩ := TransGen.head'_iff.1 hcycle
    obtain ⟨b, hb, hlast⟩ := TransGen.tail'_iff.1 hcycle
    have hbmem : b ∈ shared := by
      rcases hb.cases_tail with rfl | ⟨c, -, _, -, hbc⟩
      · exact hext
      · exact mem_of_findShared hbc
    rw [hleaf b hbmem ext hlast] at hname
    cases hname

/-- **When a full run is right.** -/
theorem compileRight_iff (hok : validateExtensions config = .ok ()) (hnames : NamesShared config) :
    CompileRight config ↔ Stopped config ∨ BundlesFlat (sharedExtensions config) := by
  rw [CompileRight]
  by_cases hstopped : Stopped config
  · obtain ⟨err, herr⟩ := compileExtensions_error hok hstopped
    rw [herr]
    exact ⟨fun _ => .inl hstopped, fun _ => trivial⟩
  · rw [compileExtensions_ok hok hnames hstopped, or_iff_right hstopped]
    exact packagesRight_iff hnames.names

end

/-! ## Two configurations -/

/-- A shared extension with a list. -/
def sharedOf (name : String) (names : List String) : String × JsValue :=
  (name, .object [("mode", .string "shared"), ("source", .string ("extensions/" ++ name)),
    ("bundleExtensions", .strings names)])

/-- A chain: the middle extension is named by the first, the last by the middle one only. -/
def chain : Config :=
  ⟨some ⟨[sharedOf "mysqli" ["mysqlnd"], sharedOf "mysqlnd" ["sockets"], sharedOf "sockets" []],
    by decide⟩, ["8.5"]⟩

/-- What the chain is compiled to. -/
theorem compileExtensions_chain :
    compileExtensions chain = .ok [⟨"packages/phpext-mysqli",
      [("manifest-mysqlnd.json", ⟨"mysqlnd", .string "mysqlnd", ["sockets"], false⟩),
        ("manifest.json", ⟨"mysqli", .string "mysqli", ["mysqlnd"], false⟩)],
      some ["manifest-mysqlnd.json", "manifest.json"]⟩] := rfl

/-- In the chain, the last extension is compiled nowhere. -/
theorem chain_not_right :
    validateExtensions chain = .ok () ∧ NamesShared chain ∧ ¬ CompileRight chain := by
  refine ⟨rfl, ⟨by decide, by decide⟩, fun h => ?_⟩
  rw [CompileRight, compileExtensions_chain] at h
  obtain ⟨package, hpackage, manifest, hmem⟩ :=
    h.compiled ⟨"sockets", .string "sockets", [], false⟩ (by decide)
  rw [List.mem_singleton.1 hpackage] at hmem
  simp at hmem

/-- An extension and the one it bundles. -/
def pair : Config :=
  ⟨some ⟨[sharedOf "mysqli" ["mysqlnd"], sharedOf "mysqlnd" []], by decide⟩, ["8.5"]⟩

/-- The pair is right. -/
theorem pair_right : CompileRight pair :=
  (compileRight_iff rfl ⟨by decide, by decide⟩).2
    (.inr (bundlesFlat_of_leaves (by decide) (by decide) (by decide)))

end PhpWasm.Build
