import PhpWasm.Build.PackageVersion
import Mathlib.Logic.Function.Basic

/-!
# Releases

`publish.js` rebuilds the extension packages, and publishes those whose version is not on the
registry yet.  A release may end early: where a build fails, where the user does not proceed, or
where `npm publish` does not get through; then what was published before stays, and the next
release goes on with the rest.

`releasesRight` is about any order of builds and releases.  What is on the registry is what its
`package.json` says, under versions that go up; and after a release that has ended, every package
is on the registry as it is in its directory.
-/

set_option autoImplicit false

namespace PhpWasm.Build

open Machine

variable {H : Type*}

/-! ## The state -/

/-- The name of a package. -/
abbrev PackageName := List Char

/-- A directory of `packages`. -/
structure PackageState (H : Type*) where
  dir : PackageDir H
  /-- The files that were compiled into it. -/
  outputs : List File
  /-- `private` of its `package.json`. -/
  isPrivate : Bool

/-- What `npm pack` packs. -/
structure Packed (H : Type*) where
  packageJson : PackageJson H
  outputs : List File

/-- The packages and the registry. -/
structure Workspace (H : Type*) where
  packages : PackageName → PackageState H
  /-- What was published, newest first. -/
  registry : List (PackageName × Packed H)

/-- Nothing is built and nothing published. -/
def Workspace.start : Workspace H := ⟨fun _ => ⟨PackageDir.empty, [], false⟩, []⟩

/-- The version of a package is on the registry. -/
def Workspace.OnRegistry (w : Workspace H) (name : PackageName) (version : Version) : Prop :=
  ∃ e ∈ w.registry, e.1 = name ∧ e.2.packageJson.version = version

instance (w : Workspace H) (name : PackageName) (version : Version) :
    Decidable (w.OnRegistry name version) :=
  inferInstanceAs (Decidable (∃ e ∈ w.registry, e.1 = name ∧ e.2.packageJson.version = version))

/-! ## A release -/

/-- A run of `publish.js`: what it is called with, and what it meets. -/
structure Release where
  /-- The builds of `compile-extension`; `none` with `--skip-build`. -/
  builds : Option (List (PackageName × BuildRun))
  only : Option PackageName
  dryRun : Bool
  /-- `npm view` gets an answer about the package. -/
  answered : PackageName → Bool
  /-- What `confirm` answers. -/
  proceeds : Bool
  /-- `npm publish` gets through for the package. -/
  accepted : PackageName → Bool

/-- How a release ends: at its end, or before. -/
inductive ReleaseEnd
  | done
  | failed
  deriving DecidableEq

section Release

variable [DecidableEq H] (sha256 : List UInt8 → H)

/-- A build in the directory of a package. -/
def Workspace.build (w : Workspace H) (name : PackageName) (b : BuildRun) : Workspace H where
  packages := Function.update w.packages name
    { dir := (w.packages name).dir.build sha256 b
      outputs := b.outputs
      isPrivate := (w.packages name).isPrivate && b.writes = 0 }
  registry := w.registry

/-- `inherit('node compile/cli.mjs compile-extension')`, which throws when a build does not get to
its end. -/
def Workspace.rebuild (w : Workspace H) : List (PackageName × BuildRun) → Workspace H × ReleaseEnd
  | [] => (w, .done)
  | (name, b) :: builds =>
    if 4 ≤ b.writes then (w.build sha256 name b).rebuild builds
    else (w.build sha256 name b, .failed)

/-- `readPackages`, for the directories that `readdirSync` lists. -/
def Workspace.readPackages (w : Workspace H) (names : List PackageName) :
    List (PackageName × PackageJson H) :=
  names.filterMap fun name =>
    if (w.packages name).isPrivate then none
    else (w.packages name).dir.packageJson.map fun json => (name, json)

/-- `alreadyPublished` -/
def Workspace.alreadyPublished (w : Workspace H) (r : Release)
    (pkg : PackageName × PackageJson H) : Bool :=
  r.answered pkg.1 && w.OnRegistry pkg.1 pkg.2.version

/-- `packAndPublish`.  `npm publish` takes no version twice. -/
def Workspace.packAndPublish (w : Workspace H) (r : Release) (pkg : PackageName × PackageJson H) :
    Option (Workspace H) :=
  if r.accepted pkg.1 = false then none
  else if r.dryRun then some w
  else if w.OnRegistry pkg.1 pkg.2.version then none
  else some { w with registry := (pkg.1, ⟨pkg.2, (w.packages pkg.1).outputs⟩) :: w.registry }

/-- The loop over the packages. -/
def Workspace.publishAll (w : Workspace H) (r : Release) :
    List (PackageName × PackageJson H) → Workspace H × ReleaseEnd
  | [] => (w, .done)
  | pkg :: pkgs =>
    match w.packAndPublish r pkg with
    | some w => w.publishAll r pkgs
    | none => (w, .failed)

/-- `pkgs`, for the packages that were read; there are none where the process exits. -/
def Release.ordered (r : Release) (allPkgs : List (PackageName × PackageJson H)) :
    Option (List (PackageName × PackageJson H)) :=
  match r.only.filter fun only => only ≠ [] with
  | none => some allPkgs
  | some only =>
    let want := if only.head? = some '@' then only else "@kirigami/phpext-".toList ++ only
    match allPkgs.filter fun pkg => pkg.1 = want with
    | [] => none
    | pkgs => some pkgs

/-- `main` behind the builds. -/
def Workspace.publish (w : Workspace H) (names : List PackageName) (r : Release) :
    Workspace H × ReleaseEnd :=
  match r.ordered (w.readPackages names) with
  | none => (w, .failed)
  | some ordered =>
    let toPublish := ordered.filter fun pkg => !w.alreadyPublished r pkg
    if toPublish = [] then (w, .done)
    else if !r.dryRun && !r.proceeds then (w, .failed)
    else w.publishAll r toPublish

/-- `main` of `publish.js`, where the directories have these names. -/
def Workspace.release (w : Workspace H) (names : List PackageName) (r : Release) :
    Workspace H × ReleaseEnd :=
  match w.rebuild sha256 (r.builds.getD []) with
  | (w, .failed) => (w, .failed)
  | (w, .done) => w.publish names r

/-- What happens to the packages. -/
inductive WorkspaceEvent
  | built (name : PackageName) (b : BuildRun)
  | released (r : Release)

/-- One event. -/
def Workspace.step (names : List PackageName) (w : Workspace H) : WorkspaceEvent → Workspace H
  | .built name b => w.build sha256 name b
  | .released r => (w.release sha256 names r).1

/-! ## What is right -/

/-- The files in a directory are those its `package.json` is about. -/
def PackageState.Consistent (pkg : PackageState H) : Prop :=
  ∀ p ∈ pkg.dir.packageJson, computeBuildHash sha256 pkg.outputs = p.buildHash

/-- **The registry is right.** -/
structure RegistryRight (w : Workspace H) : Prop where
  /-- What was published is what its `package.json` is about. -/
  contents : ∀ e ∈ w.registry, computeBuildHash sha256 e.2.outputs = e.2.packageJson.buildHash
  /-- The versions of a package go up. -/
  later : w.registry.Pairwise fun newer older => newer.1 = older.1 →
    0 < compareSemver newer.2.packageJson.version older.2.packageJson.version
  /-- No published version is later than the one in the directory, and where it is the same, it is
  the same build. -/
  current : ∀ e ∈ w.registry, ∃ p ∈ (w.packages e.1).dir.packageJson,
    0 ≤ compareSemver p.version e.2.packageJson.version ∧
      (p.version = e.2.packageJson.version → p = e.2.packageJson)

/-- **A release is right.** -/
structure ReleaseRight (names : List PackageName) (w : Workspace H) (r : Release) : Prop where
  /-- Nothing is taken back, and a dry run publishes nothing. -/
  kept : w.registry <:+ (w.release sha256 names r).1.registry
  dry : r.dryRun = true → (w.release sha256 names r).1.registry = w.registry
  /-- When it has got to its end, every package is on the registry as it is in its directory. -/
  complete : (w.release sha256 names r).2 = .done → r.dryRun = false → r.only = none →
    ∀ pkg ∈ (w.release sha256 names r).1.readPackages names,
      ∃ e ∈ (w.release sha256 names r).1.registry, e.1 = pkg.1 ∧ e.2.packageJson = pkg.2

/-- Each of these builds recovers from an earlier one that was killed. -/
def RebuildCareful (w : Workspace H) : List (PackageName × BuildRun) → Prop
  | [] => True
  | (name, b) :: builds =>
    Recovers sha256 (w.packages name).dir b ∧
      (4 ≤ b.writes → RebuildCareful (w.build sha256 name b) builds)

/-- **What is asked of the events.**  Builds recover from those that were killed; and nothing is
released from a directory whose files are not those of its `package.json`, unless it is built again
first. -/
def EventCareful (names : List PackageName) (w : Workspace H) : WorkspaceEvent → Prop
  | .built name b => Recovers sha256 (w.packages name).dir b
  | .released r => RebuildCareful sha256 w (r.builds.getD []) ∧
    ∀ name ∈ names, name ∉ (r.builds.getD []).map Prod.fst →
      (w.packages name).Consistent sha256

/-! ## The invariant -/

/-- What holds after any events. -/
structure WorkspaceInv (w : Workspace H) : Prop where
  sound : ∀ name, Sound (w.packages name).dir
  published : ∀ e ∈ w.registry, e.2.packageJson ∈ (w.packages e.1).dir.present
  contents : ∀ e ∈ w.registry, computeBuildHash sha256 e.2.outputs = e.2.packageJson.buildHash
  later : w.registry.Pairwise fun newer older => newer.1 = older.1 →
    0 < compareSemver newer.2.packageJson.version older.2.packageJson.version

variable {sha256} {names : List PackageName} {w : Workspace H} {name : PackageName} {r : Release}
variable {p : PackageJson H} {pkgs : List (PackageName × PackageJson H)}

theorem eq_of_compareSemver {v v' : Version} (h : compareSemver v v' = 0) : v = v' := by
  cases v
  cases v'
  unfold compareSemver at h
  dsimp only at h
  rw [Version.mk.injEq]
  split_ifs at h <;> omega

omit [DecidableEq H] in
theorem workspaceInv_start : WorkspaceInv sha256 (Workspace.start : Workspace H) :=
  ⟨fun _ => sound_empty, nofun, nofun, .nil⟩

omit [DecidableEq H] in
/-- What was published of a package, beside what is in its directory. -/
theorem WorkspaceInv.current_of_mem (h : WorkspaceInv sha256 w) {e : PackageName × Packed H}
    (he : e ∈ w.registry) : ∃ p ∈ (w.packages e.1).dir.packageJson,
      0 ≤ compareSemver p.version e.2.packageJson.version ∧
        (p.version = e.2.packageJson.version → p = e.2.packageJson) := by
  have hpresent := h.published e he
  have hsound := h.sound e.1
  obtain ⟨p, hp⟩ : ∃ p, (w.packages e.1).dir.present.head? = some p := by
    cases hlist : (w.packages e.1).dir.present with
    | nil => exact absurd hpresent (by rw [hlist]; exact List.not_mem_nil)
    | cons p ps => exact ⟨p, rfl⟩
  have hjson := hsound.newest.trans hp
  refine ⟨p, hjson, hsound.latest p hjson _ hpresent, fun hversion => ?_⟩
  have hhash := hsound.unique p (List.mem_of_mem_head? hp) _ hpresent hversion
  exact congrArg₂ PackageJson.mk hversion hhash

omit [DecidableEq H] in
theorem WorkspaceInv.right (h : WorkspaceInv sha256 w) : RegistryRight sha256 w :=
  ⟨h.contents, h.later, fun _ he => h.current_of_mem he⟩

/-! ## Builds -/

section Builds

variable {b : BuildRun} {builds : List (PackageName × BuildRun)}

variable (sha256) in
theorem build_self (w : Workspace H) (name : PackageName) (b : BuildRun) :
    (w.build sha256 name b).packages name =
      ⟨(w.packages name).dir.build sha256 b, b.outputs,
        (w.packages name).isPrivate && b.writes = 0⟩ := by
  rw [Workspace.build]
  exact Function.update_self ..

theorem build_of_ne {other : PackageName} (h : other ≠ name) :
    (w.build sha256 name b).packages other = w.packages other := by
  rw [Workspace.build]
  exact Function.update_of_ne h ..

theorem WorkspaceInv.build (h : WorkspaceInv sha256 w)
    (hb : Recovers sha256 (w.packages name).dir b) : WorkspaceInv sha256 (w.build sha256 name b) := by
  refine ⟨fun other => ?_, fun e he => ?_, h.contents, h.later⟩
  · by_cases hother : other = name
    · subst hother
      rw [build_self]
      exact (h.sound other).build hb
    · rw [build_of_ne hother]
      exact h.sound other
  · have hpresent := h.published e he
    by_cases hother : e.1 = name
    · rw [hother] at hpresent ⊢
      rw [build_self]
      exact present_subset sha256 _ [b] hpresent
    · rwa [build_of_ne hother]

/-- A build that gets to its end leaves a directory with the files of its `package.json`. -/
theorem consistent_build (hb : 4 ≤ b.writes) (w : Workspace H) (name : PackageName) :
    ((w.build sha256 name b).packages name).Consistent sha256 := by
  intro p hp
  rw [build_self] at hp ⊢
  have hjson := (build_of_one_le sha256 (d := (w.packages name).dir) (b := b) (by omega)).1
  rw [hjson] at hp
  obtain rfl := Option.some.inj hp
  rfl

/-- **The builds of a release.** -/
theorem WorkspaceInv.rebuild (h : WorkspaceInv sha256 w)
    (hbuilds : RebuildCareful sha256 w builds) :
    WorkspaceInv sha256 (w.rebuild sha256 builds).1 ∧
      (w.rebuild sha256 builds).1.registry = w.registry := by
  induction builds generalizing w with
  | nil => exact ⟨h, rfl⟩
  | cons build builds ih =>
    obtain ⟨name, b⟩ := build
    obtain ⟨hrecovers, hrest⟩ := hbuilds
    rw [Workspace.rebuild]
    split
    · rename_i hdone
      exact ih (h.build hrecovers) (hrest hdone)
    · exact ⟨h.build hrecovers, rfl⟩

/-- Where all of them get to their end, the packages are consistent that were, and those that were
built. -/
theorem consistent_rebuild (hdone : (w.rebuild sha256 builds).2 = .done)
    (hold : name ∉ builds.map Prod.fst → (w.packages name).Consistent sha256) :
    ((w.rebuild sha256 builds).1.packages name).Consistent sha256 := by
  induction builds generalizing w with
  | nil => exact hold List.not_mem_nil
  | cons build builds ih =>
    obtain ⟨other, b⟩ := build
    rw [Workspace.rebuild] at hdone ⊢
    split at hdone
    · rename_i hwrites
      rw [if_pos hwrites]
      refine ih hdone fun hrest => ?_
      by_cases hother : name = other
      · subst hother
        exact consistent_build hwrites w name
      · rw [build_of_ne hother]
        exact hold (by simp [hother, hrest])
    · cases hdone

end Builds

/-! ## What is published -/

omit [DecidableEq H] in
theorem mem_readPackages {pkg : PackageName × PackageJson H}
    (h : pkg ∈ w.readPackages names) :
    pkg.1 ∈ names ∧ (w.packages pkg.1).dir.packageJson = some pkg.2 := by
  obtain ⟨name, hname, hpkg⟩ := List.mem_filterMap.1 h
  split at hpkg
  · cases hpkg
  · obtain ⟨json, hjson, rfl⟩ := Option.map_eq_some_iff.1 hpkg
    exact ⟨hname, hjson⟩

omit [DecidableEq H] in
/-- What is selected of the packages. -/
theorem mem_ordered {ordered : List (PackageName × PackageJson H)}
    (h : r.ordered pkgs = some ordered) : ordered ⊆ pkgs ∧ (r.only = none → ordered = pkgs) := by
  rw [Release.ordered] at h
  split at h
  · obtain rfl := Option.some.inj h
    exact ⟨List.Subset.refl _, fun _ => rfl⟩
  · rename_i hnone
    dsimp only at h
    split at h
    · cases h
    · obtain rfl := Option.some.inj h
      refine ⟨List.filter_subset_self _, fun honly => ?_⟩
      rw [honly] at hnone
      cases hnone

omit [DecidableEq H] in
/-- **One package is published.** -/
theorem WorkspaceInv.packAndPublish (h : WorkspaceInv sha256 w)
    {pkg : PackageName × PackageJson H}
    (hjson : (w.packages pkg.1).dir.packageJson = some pkg.2)
    (hconsistent : (w.packages pkg.1).Consistent sha256) {w' : Workspace H}
    (hw : w.packAndPublish r pkg = some w') :
    WorkspaceInv sha256 w' ∧ w'.packages = w.packages ∧
      (r.dryRun = true → w'.registry = w.registry) ∧
        (r.dryRun = false → ∃ outputs, w'.registry = (pkg.1, ⟨pkg.2, outputs⟩) :: w.registry) := by
  rw [Workspace.packAndPublish] at hw
  split at hw
  · cases hw
  split at hw
  · rename_i hdry
    obtain rfl := Option.some.inj hw
    exact ⟨h, rfl, fun _ => rfl, fun hnot => absurd hdry (by rw [hnot]; exact Bool.false_ne_true)⟩
  rename_i hdry
  split at hw
  · cases hw
  rename_i hnew
  obtain rfl := Option.some.inj hw
  have hsound := h.sound pkg.1
  refine ⟨⟨h.sound, ?_, ?_, ?_⟩, rfl, fun hdry' => absurd hdry' hdry, fun _ => ⟨_, rfl⟩⟩
  · refine List.forall_mem_cons.2 ⟨?_, h.published⟩
    exact List.mem_of_mem_head? (hsound.newest.symm.trans hjson)
  · exact List.forall_mem_cons.2 ⟨hconsistent pkg.2 hjson, h.contents⟩
  · refine List.pairwise_cons.2 ⟨fun e he hname => ?_, h.later⟩
    -- it is not earlier than what was published of the package, and not the same
    have hpresent := h.published e he
    dsimp only at hname
    rw [← hname] at hpresent
    have hle := hsound.latest pkg.2 hjson _ hpresent
    refine lt_of_le_of_ne hle fun hzero => hnew ⟨e, he, hname.symm, ?_⟩
    exact (eq_of_compareSemver hzero.symm).symm

/-- What publishing does to the packages and the registry. -/
structure Publishes (sha256 : List UInt8 → H) (r : Release)
    (pkgs : List (PackageName × PackageJson H)) (w : Workspace H)
    (result : Workspace H × ReleaseEnd) : Prop where
  inv : WorkspaceInv sha256 result.1
  packages : result.1.packages = w.packages
  kept : w.registry <:+ result.1.registry
  dry : r.dryRun = true → result.1.registry = w.registry
  complete : result.2 = .done → r.dryRun = false →
    ∀ pkg ∈ pkgs, ∃ e ∈ result.1.registry, e.1 = pkg.1 ∧ e.2.packageJson = pkg.2

omit [DecidableEq H] in
/-- **One package after the other is published.** -/
theorem WorkspaceInv.publishAll (h : WorkspaceInv sha256 w)
    (hpkgs : ∀ pkg ∈ pkgs, (w.packages pkg.1).dir.packageJson = some pkg.2 ∧
      (w.packages pkg.1).Consistent sha256) :
    Publishes sha256 r pkgs w (w.publishAll r pkgs) := by
  induction pkgs generalizing w with
  | nil => exact ⟨h, rfl, List.suffix_refl _, fun _ => rfl, fun _ _ => nofun⟩
  | cons pkg pkgs ih =>
    rw [Workspace.publishAll]
    split
    · rename_i w' hw'
      obtain ⟨hjson, hconsistent⟩ := hpkgs pkg List.mem_cons_self
      obtain ⟨hinv, hpackages, hdry, hnew⟩ := h.packAndPublish hjson hconsistent hw'
      have hrest := ih hinv fun pkg' hpkg' => by
        rw [hpackages]
        exact hpkgs pkg' (List.mem_cons_of_mem _ hpkg')
      have hsuffix : w.registry <:+ w'.registry := by
        cases hmode : r.dryRun with
        | true => rw [hdry hmode]
        | false =>
          obtain ⟨outputs, hregistry⟩ := hnew hmode
          rw [hregistry]
          exact List.suffix_cons _ _
      refine ⟨hrest.inv, hrest.packages.trans hpackages, hsuffix.trans hrest.kept,
        fun hmode => (hrest.dry hmode).trans (hdry hmode), fun hend hmode => ?_⟩
      refine List.forall_mem_cons.2 ⟨?_, hrest.complete hend hmode⟩
      obtain ⟨outputs, hregistry⟩ := hnew hmode
      refine ⟨_, hrest.kept.subset (hregistry ▸ List.mem_cons_self), rfl, rfl⟩
    · exact ⟨h, rfl, List.suffix_refl _, fun _ => rfl, nofun⟩

omit [DecidableEq H] in
/-- **What a release publishes** when the builds have got to their end. -/
theorem WorkspaceInv.publish (h : WorkspaceInv sha256 w)
    (pkgs : List (PackageName × PackageJson H))
    (hconsistent : ∀ name ∈ names, (w.packages name).Consistent sha256)
    (hpkgs : ∀ pkg ∈ pkgs, r.only = none ∧ pkg ∈ w.readPackages names) :
    Publishes sha256 r pkgs w (w.publish names r) := by
  have hnothing : ∀ {pkgs}, Publishes sha256 r pkgs w (w, .failed) := fun {_} =>
    ⟨h, rfl, List.suffix_refl _, fun _ => rfl, nofun⟩
  rw [Workspace.publish]
  split
  · exact hnothing
  rename_i ordered hordered
  obtain ⟨hsubset, hall⟩ := mem_ordered hordered
  -- the others are on the registry, and as they are in their directories
  have hold : ∀ pkg ∈ ordered, w.alreadyPublished r pkg = true →
      ∃ e ∈ w.registry, e.1 = pkg.1 ∧ e.2.packageJson = pkg.2 := by
    intro pkg hpkg hpublished
    obtain ⟨e, he, hname, hversion⟩ := of_decide_eq_true (Bool.and_eq_true_iff.1 hpublished).2
    obtain ⟨p, hp, -, hsame⟩ := h.current_of_mem he
    rw [hname, (mem_readPackages (hsubset hpkg)).2] at hp
    obtain rfl := Option.some.inj hp
    exact ⟨e, he, hname, (hsame hversion.symm).symm⟩
  dsimp only
  split
  · rename_i hnil
    refine ⟨h, rfl, List.suffix_refl _, fun _ => rfl, fun _ _ pkg hpkg => ?_⟩
    obtain ⟨honly, hread⟩ := hpkgs pkg hpkg
    rw [← hall honly] at hread
    refine hold pkg hread ?_
    simpa using List.filter_eq_nil_iff.1 hnil pkg hread
  split
  · exact hnothing
  have hpublishes : Publishes sha256 r _ w
      (w.publishAll r (ordered.filter fun pkg => !w.alreadyPublished r pkg)) :=
    h.publishAll fun pkg hpkg => by
      have hread := mem_readPackages (hsubset (List.mem_of_mem_filter hpkg))
      exact ⟨hread.2, hconsistent pkg.1 hread.1⟩
  refine ⟨hpublishes.inv, hpublishes.packages, hpublishes.kept, hpublishes.dry,
    fun hend hmode pkg hpkg => ?_⟩
  obtain ⟨honly, hread⟩ := hpkgs pkg hpkg
  rw [← hall honly] at hread
  by_cases hpublished : w.alreadyPublished r pkg = true
  · obtain ⟨e, he, hpackage⟩ := hold pkg hread hpublished
    exact ⟨e, hpublishes.kept.subset he, hpackage⟩
  · exact hpublishes.complete hend hmode pkg (List.mem_filter.2 ⟨hread, by simpa using hpublished⟩)

/-! ## The result -/

/-- **One release.** -/
theorem WorkspaceInv.release (h : WorkspaceInv sha256 w)
    (hcareful : EventCareful sha256 names w (.released r)) :
    WorkspaceInv sha256 (w.release sha256 names r).1 ∧ ReleaseRight sha256 names w r := by
  obtain ⟨hbuilds, hothers⟩ := hcareful
  obtain ⟨hinv, hregistry⟩ := h.rebuild hbuilds
  cases hend : (w.rebuild sha256 (r.builds.getD [])).2 with
  | failed =>
    have hrelease : w.release sha256 names r =
        ((w.rebuild sha256 (r.builds.getD [])).1, .failed) := by
      rw [Workspace.release, ← Prod.mk.eta (p := w.rebuild sha256 _), hend]
    refine ⟨by rwa [hrelease], ?_, fun _ => ?_, fun hdone => ?_⟩
    · rw [hrelease, hregistry]
    · rw [hrelease, hregistry]
    · rw [hrelease] at hdone
      cases hdone
  | done =>
    have hrelease : w.release sha256 names r =
        (w.rebuild sha256 (r.builds.getD [])).1.publish names r := by
      rw [Workspace.release, ← Prod.mk.eta (p := w.rebuild sha256 _), hend]
    have hpublishes := fun pkgs => hinv.publish (r := r) pkgs fun name hname =>
      consistent_rebuild hend (hothers name hname)
    rw [← hrelease] at hpublishes
    have hall := hpublishes [] nofun
    refine ⟨hall.inv, hregistry ▸ hall.kept, fun hmode => ?_, fun hdone hmode honly pkg hpkg => ?_⟩
    · rw [hall.dry hmode, hregistry]
    · rw [Workspace.readPackages, hall.packages, ← Workspace.readPackages] at hpkg
      exact (hpublishes _ fun pkg hpkg => ⟨honly, hpkg⟩).complete hdone hmode pkg hpkg

/-- **Releases are right**, in any order of builds and releases. -/
theorem releasesRight (sha256 : List UInt8 → H) (names : List PackageName)
    (es : List WorkspaceEvent)
    (h : Along (Workspace.step sha256 names) (EventCareful sha256 names) Workspace.start es) :
    RegistryRight sha256 (run (Workspace.step sha256 names) Workspace.start es) ∧
      ∀ r, EventCareful sha256 names (run (Workspace.step sha256 names) Workspace.start es)
          (.released r) →
        ReleaseRight sha256 names (run (Workspace.step sha256 names) Workspace.start es) r := by
  have hinv : WorkspaceInv sha256 (run (Workspace.step sha256 names) Workspace.start es) := by
    refine run_inv (fun w e hw hcareful => ?_) workspaceInv_start h
    cases e with
    | built name b => exact hw.build hcareful
    | released r => exact (hw.release hcareful).1
  exact ⟨hinv.right, fun r hcareful => (hinv.release hcareful).2⟩

/-- A package is built, released, and built and released again. -/
theorem releasesRight_twice :
    let name := "@kirigami/phpext-a".toList
    let r : Release := ⟨some [(name, oneFile 2 4)], none, false, fun _ => true, true, fun _ => true⟩
    let es := [.built name (oneFile 1 4), .released { r with builds := none }, .released r]
    RegistryRight id (run (Workspace.step id [name]) Workspace.start es) ∧
      ∀ r, EventCareful id [name] (run (Workspace.step id [name]) Workspace.start es)
          (.released r) →
        ReleaseRight id [name] (run (Workspace.step id [name]) Workspace.start es) r := by
  refine releasesRight id _ _ ⟨fun p hp => ?_, ⟨trivial, fun name hname _ => ?_⟩,
    ⟨⟨fun p hp hne => ?_, fun _ => trivial⟩, fun name hname hnot => ?_⟩, trivial⟩
  · cases hp
  · obtain rfl := List.mem_singleton.1 hname
    exact consistent_build (by decide) _ _
  · obtain rfl := Option.some.inj hp
    exact absurd rfl hne
  · exact absurd hname hnot

end Release

end PhpWasm.Build
