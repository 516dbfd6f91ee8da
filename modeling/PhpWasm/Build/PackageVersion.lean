import PhpWasm.Base.Run
import PhpWasm.Base.Utf16
import Mathlib.Data.Char
import Mathlib.Data.List.Lex
import Mathlib.Data.List.Sort

/-!
# The version of an extension package

Every build of a shared extension ends in `syncExtensionPackage`, which writes four files into the
package directory: `package.json` with the version and the hash of what was compiled, the two index
files, and last `.buildhash`, with the hash alone.  The next build takes the version from the
first of these files and decides from the last whether the version has to go up.

A build may be killed between two of its writes, and then the two files disagree.
`historyRight_iff` says what may be built in such a directory without a version ever standing for
two different builds, and without a version going up for nothing.
-/

set_option autoImplicit false

namespace PhpWasm.Build

/-! ## Versions -/

/-- A version of the form `x.y.z`. -/
structure Version where
  major : Nat
  minor : Nat
  patch : Nat
  deriving DecidableEq, Repr

/-- `bumpPatchVersion` -/
def bumpPatchVersion (v : Version) : Version := { v with patch := v.patch + 1 }

/-- `compareSemver` -/
def compareSemver (a b : Version) : Int :=
  if a.major ≠ b.major then a.major - b.major
  else if a.minor ≠ b.minor then a.minor - b.minor
  else if a.patch ≠ b.patch then a.patch - b.patch
  else 0

theorem compareSemver_self (v : Version) : compareSemver v v = 0 := by
  simp [compareSemver]

/-- A bumped version is later than every version up to the one that was bumped. -/
theorem compareSemver_bumpPatchVersion {v w : Version} (h : 0 ≤ compareSemver v w) :
    0 < compareSemver (bumpPatchVersion v) w := by
  unfold compareSemver at *
  unfold bumpPatchVersion
  dsimp only
  split_ifs at * <;> omega

/-! ## The hash of a build -/

/-- A file of the package directory: its name and its contents. -/
abbrev File := List Char × List UInt8

/-- The files `computeBuildHash` looks at: `manifest*.json` and `*.so`. -/
def isBuildOutput (f : List Char) : Bool :=
  ("manifest".toList.isPrefixOf f && ".json".toList.isSuffixOf f) || ".so".toList.isSuffixOf f

/-- `computeBuildHash`, with `sha256` as the hash of a sequence of bytes.  `sort` compares the code
units of the names. -/
def computeBuildHash {H : Type*} (sha256 : List UInt8 → H) (outDir : List File) : H :=
  let files := (outDir.filter fun f => isBuildOutput f.1).insertionSort fun f g =>
    Utf16.encode f.1 ≤ Utf16.encode g.1
  sha256 (files.flatMap fun f => f.1.flatMap String.utf8EncodeChar ++ f.2)

/-! ## The package directory -/

/-- `package.json`, as far as publishing goes by it. -/
structure PackageJson (H : Type*) where
  /-- `version` -/
  version : Version
  /-- `kirigami.buildHash` -/
  buildHash : H
  deriving DecidableEq

/-- A package directory. -/
structure PackageDir (H : Type*) where
  /-- `package.json`, if it is there. -/
  packageJson : Option (PackageJson H)
  /-- `.buildhash`, if it is there. -/
  buildHash : Option H
  /-- Every `package.json` there has been, newest first.  Any of them may have been published. -/
  present : List (PackageJson H)

/-- A directory nothing has been built in. -/
def PackageDir.empty {H : Type*} : PackageDir H := ⟨none, none, []⟩

/-- A call of `writeFileSync`. -/
inductive Write (H : Type*)
  | packageJson (p : PackageJson H)
  | indexJs
  | indexDts
  | buildHash (h : H)

/-- The directory after a call of `writeFileSync`. -/
def PackageDir.write {H : Type*} (d : PackageDir H) : Write H → PackageDir H
  | .packageJson p => { d with packageJson := some p, present := p :: d.present }
  | .indexJs => d
  | .indexDts => d
  | .buildHash h => { d with buildHash := some h }

section sync

variable {H : Type*} [DecidableEq H]

/-- The version `syncExtensionPackage` decides on. -/
def nextVersion (newHash : H) (d : PackageDir H) : Version :=
  let previousVersion := (d.packageJson.map PackageJson.version).getD ⟨0, 1, 0⟩
  let changed := some newHash ≠ d.buildHash
  if changed ∧ d.buildHash ≠ none then bumpPatchVersion previousVersion else previousVersion

/-- The writes of `syncExtensionPackage`, in order. -/
def syncExtensionPackage (newHash : H) (d : PackageDir H) : List (Write H) :=
  [.packageJson ⟨nextVersion newHash d, newHash⟩, .indexJs, .indexDts, .buildHash newHash]

/-- A build: the compiled files it leaves in the directory, and how many of its writes it gets to.
From four on it completes. -/
structure BuildRun where
  outputs : List File
  writes : Nat

variable (sha256 : List UInt8 → H)

/-- The hash of what a build has compiled. -/
def BuildRun.newHash (b : BuildRun) : H := computeBuildHash sha256 b.outputs

/-- The directory after a build. -/
def PackageDir.build (d : PackageDir H) (b : BuildRun) : PackageDir H :=
  ((syncExtensionPackage (b.newHash sha256) d).take b.writes).foldl PackageDir.write d

/-- A completed build of what `package.json` already records leaves the version alone. -/
def KeepsVersion (d : PackageDir H) (b : BuildRun) : Prop :=
  4 ≤ b.writes → ∀ p, d.packageJson = some p → b.newHash sha256 = p.buildHash →
    (d.build sha256 b).packageJson.map PackageJson.version = some p.version

/-- The directory after a history of builds, from an empty one. -/
def afterBuilds (bs : List BuildRun) : PackageDir H :=
  Machine.run (PackageDir.build sha256) PackageDir.empty bs

/-- **The versions are right** over a history of builds. -/
structure HistoryRight (bs : List BuildRun) : Prop where
  /-- A version stands for one build. -/
  unique : ∀ p ∈ (afterBuilds sha256 bs).present, ∀ q ∈ (afterBuilds sha256 bs).present,
    p.version = q.version → p.buildHash = q.buildHash
  /-- The version never goes down. -/
  monotone : (afterBuilds sha256 bs).present.Pairwise fun newer older =>
    0 ≤ compareSemver newer.version older.version
  /-- The version does not go up for nothing. -/
  stable : Machine.Along (PackageDir.build sha256) (KeepsVersion sha256) PackageDir.empty bs

/-- What may be built when an earlier build was killed between its first write and its last, so
that `.buildhash` is not the hash in `package.json`.  If there is no `.buildhash` yet, only what
`package.json` records; otherwise neither what `.buildhash` records nor, if the build completes,
what `package.json` records. -/
def Recovers (d : PackageDir H) (b : BuildRun) : Prop :=
  ∀ p, d.packageJson = some p → d.buildHash ≠ some p.buildHash →
    match d.buildHash with
    | none => 1 ≤ b.writes → b.newHash sha256 = p.buildHash
    | some old =>
      (1 ≤ b.writes → b.newHash sha256 ≠ old) ∧ (4 ≤ b.writes → b.newHash sha256 ≠ p.buildHash)

/-! ## What a build leaves -/

variable {sha256}

/-- A build killed before its first write changes nothing. -/
theorem build_of_writes_eq_zero {d : PackageDir H} {b : BuildRun} (h : b.writes = 0) :
    d.build sha256 b = d := by
  rw [PackageDir.build, h]
  rfl

variable (sha256) in
/-- The first write is `package.json`. -/
theorem build_of_one_le {d : PackageDir H} {b : BuildRun} (h : 1 ≤ b.writes) :
    (d.build sha256 b).packageJson =
        some ⟨nextVersion (b.newHash sha256) d, b.newHash sha256⟩ ∧
      (d.build sha256 b).present =
        ⟨nextVersion (b.newHash sha256) d, b.newHash sha256⟩ :: d.present := by
  rw [PackageDir.build]
  match hw : b.writes with
  | 0 => omega
  | 1 | 2 | 3 => exact ⟨rfl, rfl⟩
  | n + 4 =>
    rw [syncExtensionPackage, List.take_of_length_le (Nat.le_add_left 4 n)]
    exact ⟨rfl, rfl⟩

/-- The version goes up: there is a `.buildhash`, and it is not the hash of the build. -/
def Bumps (newHash : H) (d : PackageDir H) : Prop := d.buildHash ≠ none ∧ d.buildHash ≠ some newHash

/-- The version after a first `package.json`. -/
theorem nextVersion_cases {d : PackageDir H} {p : PackageJson H} (hp : d.packageJson = some p)
    (newHash : H) :
    Bumps newHash d ∧ nextVersion newHash d = bumpPatchVersion p.version ∨
      ¬ Bumps newHash d ∧ nextVersion newHash d = p.version := by
  rw [nextVersion, hp]
  by_cases hb : Bumps newHash d
  · exact .inl ⟨hb, if_pos ⟨hb.2.symm, hb.1⟩⟩
  · exact .inr ⟨hb, if_neg fun h => hb ⟨h.2, h.1.symm⟩⟩

/-- The condition, by what becomes of the version: where it stays, the build has to be the one
`package.json` records, and where it goes up it must not be. -/
theorem recovers_iff {d : PackageDir H} {b : BuildRun} :
    Recovers sha256 d b ↔ ∀ p, d.packageJson = some p →
      (1 ≤ b.writes → ¬ Bumps (b.newHash sha256) d → b.newHash sha256 = p.buildHash) ∧
        (4 ≤ b.writes → Bumps (b.newHash sha256) d → b.newHash sha256 ≠ p.buildHash) := by
  refine forall₂_congr fun p _ => ?_
  cases hd : d.buildHash with
  | none => simp [Bumps, hd]
  | some old =>
    by_cases hold : old = p.buildHash
    · subst hold
      simp [Bumps, hd, eq_comm]
    · by_cases hnew : b.newHash sha256 = old
      · simp [Bumps, hd, hold, hnew]
      · simp [Bumps, hd, hold, hnew, Ne.symm hnew]

/-- The state of a directory whose history is right so far: its `package.json` is the newest there
has been, of the latest version, and no other build has had that version. -/
structure Sound (d : PackageDir H) : Prop where
  /-- The newest `package.json` is the one in the directory. -/
  newest : d.packageJson = d.present.head?
  /-- A directory without a `package.json` has no `.buildhash` either. -/
  fresh : d.packageJson = none → d.buildHash = none
  /-- No version is later. -/
  latest : ∀ p, d.packageJson = some p → ∀ q ∈ d.present, 0 ≤ compareSemver p.version q.version
  /-- A version stands for one build. -/
  unique : ∀ p ∈ d.present, ∀ q ∈ d.present, p.version = q.version → p.buildHash = q.buildHash
  /-- The version never went down. -/
  monotone : d.present.Pairwise fun newer older => 0 ≤ compareSemver newer.version older.version

omit [DecidableEq H] in
theorem sound_empty : Sound (PackageDir.empty : PackageDir H) where
  newest := rfl
  fresh _ := rfl
  latest _ h := by cases h
  unique _ h := by cases h
  monotone := .nil

/-- A `package.json` that is written over a sound one keeps the directory sound if its version is
later, or the same for the same build. -/
theorem Sound.cons {d d' : PackageDir H} (h : Sound d) {p : PackageJson H}
    (hp : d'.packageJson = some p) (hpresent : d'.present = p :: d.present)
    (hnext : ∀ q, d.packageJson = some q →
      (∀ r ∈ d.present, 0 < compareSemver p.version r.version) ∨ p = q) : Sound d' := by
  have hcases : (∀ r ∈ d.present, 0 < compareSemver p.version r.version) ∨
      d.packageJson = some p := by
    cases hq : d.packageJson with
    | none =>
      have hnil : d.present = [] := List.head?_eq_none_iff.1 (h.newest.symm.trans hq)
      exact .inl fun r hr => absurd hr (by rw [hnil]; exact List.not_mem_nil)
    | some q => exact (hnext q hq).imp id fun he => by rw [he]
  have hge : ∀ r ∈ d.present, 0 ≤ compareSemver p.version r.version := fun r hr =>
    hcases.elim (fun hlt => (hlt r hr).le) fun hq => h.latest p hq r hr
  have hne : ∀ r ∈ d.present, p.version = r.version → p.buildHash = r.buildHash := by
    intro r hr hv
    rcases hcases with hlt | hq
    · have := hlt r hr
      rw [hv, compareSemver_self] at this
      omega
    · have hmem : p ∈ d.present := List.mem_of_mem_head? (by rw [← h.newest, hq]; rfl)
      exact h.unique p hmem r hr hv
  refine ⟨by rw [hp, hpresent]; rfl, fun hc => ?_, ?_, ?_, ?_⟩
  · rw [hp] at hc
    cases hc
  · rintro q hq r hr
    rw [hp, Option.some_inj] at hq
    subst hq
    rw [hpresent] at hr
    rcases List.mem_cons.1 hr with rfl | hr
    · rw [compareSemver_self]
    · exact hge r hr
  · intro q hq r hr hv
    rw [hpresent] at hq hr
    rcases List.mem_cons.1 hq with rfl | hq'
    · rcases List.mem_cons.1 hr with rfl | hr'
      · rfl
      · exact hne r hr' hv
    · rcases List.mem_cons.1 hr with rfl | hr'
      · exact (hne q hq' hv.symm).symm
      · exact h.unique q hq' r hr' hv
  · rw [hpresent]
    exact List.pairwise_cons.2 ⟨hge, h.monotone⟩

/-- **One build.** -/
theorem Sound.build {d : PackageDir H} (h : Sound d) {b : BuildRun} (hb : Recovers sha256 d b) :
    Sound (d.build sha256 b) := by
  rcases Nat.eq_zero_or_pos b.writes with hw | hw
  · rwa [build_of_writes_eq_zero hw]
  · obtain ⟨hp, hpresent⟩ := build_of_one_le sha256 (d := d) hw
    refine h.cons hp hpresent fun q hq => ?_
    rcases nextVersion_cases hq (b.newHash sha256) with ⟨-, hv⟩ | ⟨hbump, hv⟩
    · exact .inl fun r hr => by
        rw [hv]
        exact compareSemver_bumpPatchVersion (h.latest q hq r hr)
    · refine .inr ?_
      rw [hv, (recovers_iff.1 hb q hq).1 hw hbump]

/-- The version is kept exactly when it does not go up for a build that `package.json` records. -/
theorem keepsVersion_iff {d : PackageDir H} {b : BuildRun} :
    KeepsVersion sha256 d b ↔ ∀ p, d.packageJson = some p → 4 ≤ b.writes →
      Bumps (b.newHash sha256) d → b.newHash sha256 ≠ p.buildHash := by
  constructor
  · intro h p hp hw hbump hhash
    have hkept := h hw p hp hhash
    rcases nextVersion_cases hp (b.newHash sha256) with ⟨-, hv⟩ | ⟨hnot, -⟩
    · rw [(build_of_one_le sha256 (by omega)).1, Option.map_some, hv, Option.some_inj] at hkept
      have := congrArg Version.patch hkept
      simp [bumpPatchVersion] at this
    · exact hnot hbump
  · intro h hw p hp hhash
    rcases nextVersion_cases hp (b.newHash sha256) with ⟨hbump, -⟩ | ⟨-, hv⟩
    · exact absurd hhash (h p hp hw hbump)
    · rw [(build_of_one_le sha256 (by omega)).1, Option.map_some, hv]

variable (sha256) in
/-- What has been in `package.json` stays part of the history. -/
theorem present_subset (d : PackageDir H) (bs : List BuildRun) :
    d.present ⊆ (Machine.run (PackageDir.build sha256) d bs).present := by
  induction bs generalizing d with
  | nil => exact List.Subset.refl _
  | cons b bs ih =>
    refine List.Subset.trans ?_ (ih (d.build sha256 b))
    rcases Nat.eq_zero_or_pos b.writes with hw | hw
    · rw [build_of_writes_eq_zero hw]
      exact List.Subset.refl _
    · rw [(build_of_one_le sha256 hw).2]
      exact List.subset_cons_self _ _

/-- In every directory a history leads to, `package.json` is part of that history. -/
theorem mem_present_of_packageJson {bs : List BuildRun} {p : PackageJson H}
    (hp : (afterBuilds sha256 bs).packageJson = some p) : p ∈ (afterBuilds sha256 bs).present := by
  have hall : Machine.Along (PackageDir.build sha256) (fun _ _ => True) PackageDir.empty bs :=
    Machine.along_iff_split.2 fun _ _ _ _ => trivial
  have hnewest : (afterBuilds sha256 bs).packageJson = (afterBuilds sha256 bs).present.head? := by
    refine Machine.run_inv (I := fun d : PackageDir H => d.packageJson = d.present.head?)
      (fun d b h _ => ?_) rfl hall
    rcases Nat.eq_zero_or_pos b.writes with hw | hw
    · rwa [build_of_writes_eq_zero hw]
    · rw [(build_of_one_le sha256 hw).1, (build_of_one_le sha256 hw).2]
      rfl
  exact List.mem_of_mem_head? (by rw [← hnewest, hp]; rfl)

/-- **When the versions are right** over a history: exactly when every build that meets a
`package.json` without its `.buildhash` is one that recovers from it. -/
theorem historyRight_iff (bs : List BuildRun) :
    HistoryRight sha256 bs ↔
      Machine.Along (PackageDir.build sha256) (Recovers sha256) PackageDir.empty bs := by
  constructor
  · intro h
    refine Machine.along_iff_split.2 fun pre b post hbs => recovers_iff.2 fun p hp => ⟨?_, ?_⟩
    · intro hw hbump
      have hmem := mem_present_of_packageJson hp
      have hstep := build_of_one_le sha256 (d := afterBuilds sha256 pre) hw
      have hsub := present_subset sha256 ((afterBuilds sha256 pre).build sha256 b) post
      have hrun : Machine.run (PackageDir.build sha256) ((afterBuilds sha256 pre).build sha256 b)
          post = afterBuilds sha256 bs := by
        rw [hbs, afterBuilds, afterBuilds, Machine.run_append, Machine.run_cons]
      rw [hrun, hstep.2] at hsub
      rcases nextVersion_cases hp (b.newHash sha256) with ⟨hb, -⟩ | ⟨-, hv⟩
      · exact absurd hb hbump
      · exact h.unique _ (hsub List.mem_cons_self) p (hsub (List.mem_cons_of_mem _ hmem)) hv
    · exact keepsVersion_iff.1 (Machine.along_iff_split.1 h.stable pre b post hbs) p hp
  · intro h
    have hsound : Sound (afterBuilds sha256 bs) :=
      Machine.run_inv (I := Sound) (fun _ _ hd hb => Sound.build hd hb) sound_empty h
    refine ⟨hsound.unique, hsound.monotone, ?_⟩
    refine Machine.Along.of_inv (I := Sound) (fun _ _ hd hb => Sound.build hd hb)
      (fun _ _ _ hb => keepsVersion_iff.2 fun p hp => ?_) sound_empty h
    exact (recovers_iff.1 hb p hp).2

end sync

/-- A build that compiles one file and gets to `writes` of its writes. -/
def oneFile (content : UInt8) (writes : Nat) : BuildRun := ⟨[("a.so".toList, [content])], writes⟩

/-- Three histories with a build killed after `package.json`: another build then completes under
the same version, before there is a `.buildhash` and, going back to an old build, after; or the
same build completes under a new one. -/
theorem killed_build_not_right :
    let present := fun bs => (afterBuilds id bs).present.map fun p => (p.version.patch, p.buildHash)
    present [oneFile 1 1, oneFile 2 4] = [(0, [97, 46, 115, 111, 2]), (0, [97, 46, 115, 111, 1])] ∧
      ¬ HistoryRight id [oneFile 1 1, oneFile 2 4] ∧
      ¬ HistoryRight id [oneFile 1 4, oneFile 2 1, oneFile 1 4] ∧
      present [oneFile 1 4, oneFile 2 1, oneFile 2 4] =
        [(2, [97, 46, 115, 111, 2]), (1, [97, 46, 115, 111, 2]), (0, [97, 46, 115, 111, 1])] ∧
      ¬ HistoryRight id [oneFile 1 4, oneFile 2 1, oneFile 2 4] := by
  refine ⟨by decide, fun h => ?_, fun h => ?_, by decide, fun h => ?_⟩
  · exact absurd (h.unique ⟨⟨0, 1, 0⟩, [97, 46, 115, 111, 2]⟩ (by decide)
      ⟨⟨0, 1, 0⟩, [97, 46, 115, 111, 1]⟩ (by decide) rfl) (by decide)
  · exact absurd (h.unique ⟨⟨0, 1, 1⟩, [97, 46, 115, 111, 2]⟩ (by decide)
      ⟨⟨0, 1, 1⟩, [97, 46, 115, 111, 1]⟩ (by decide) rfl) (by decide)
  · exact absurd (h.stable.2.2.1 (by decide) ⟨⟨0, 1, 1⟩, [97, 46, 115, 111, 2]⟩ (by decide)
      rfl) (by decide)

end PhpWasm.Build
