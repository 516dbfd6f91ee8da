import PhpWasm.Base.Json
import PhpWasm.Build.PackageVersion

/-!
# What the hash of a build tells

`computeBuildHash` hashes the names and the contents of the build outputs one after the other, with
nothing between them.  The order of the directory does not matter, since the names are sorted.  But
where a name ends is lost: a second output is as well the end of the first one's contents.

* `output_hash_perm`: the order of the listing is irrelevant.
* `buildHashRight_iff`: no other outputs have the hash just when there is at most one output, and
  neither its name nor its contents can be cut in another way.
-/

set_option autoImplicit false

namespace PhpWasm.Build

open Json (utf8)

/-- What a directory lists: files with legal names, no two of them the same. -/
structure OutDir (legal : List Char → Prop) where
  files : List File
  names_nodup : (files.map Prod.fst).Nodup
  names_legal : ∀ f ∈ files, legal f.1

/-- The files that are published. -/
def outputs (files : List File) : List File := files.filter fun f => isBuildOutput f.1

/-- `sort` puts the first name in front. -/
def NameLe (f g : File) : Prop := Utf16.encode f.1 ≤ Utf16.encode g.1

instance : DecidableRel NameLe := fun f g =>
  inferInstanceAs (Decidable (Utf16.encode f.1 ≤ Utf16.encode g.1))

/-- What is hashed of a file. -/
def fileBytes (f : File) : List UInt8 := utf8 f.1 ++ f.2

/-- The outputs in the order they are hashed in. -/
def sortedOutputs (files : List File) : List File := (outputs files).insertionSort NameLe

/-- What is hashed. -/
def hashedBytes (files : List File) : List UInt8 := (sortedOutputs files).flatMap fileBytes

theorem computeBuildHash_eq {H : Type*} (sha256 : List UInt8 → H) (files : List File) :
    computeBuildHash sha256 files = sha256 (hashedBytes files) := rfl

/-- The hash tells the bytes of any two directories apart. -/
def CollisionFree {H : Type*} (sha256 : List UInt8 → H) (legal : List Char → Prop) : Prop :=
  Set.InjOn sha256 (Set.range fun d : OutDir legal => hashedBytes d.files)

/-- The hash of a directory: the listing may come in any order, and no other outputs have it. -/
structure BuildHashRight {H : Type*} (sha256 : List UInt8 → H) (legal : List Char → Prop)
    (d : OutDir legal) : Prop where
  order : ∀ files, files.Perm d.files →
    computeBuildHash sha256 files = computeBuildHash sha256 d.files
  unique : ∀ d' : OutDir legal,
    computeBuildHash sha256 d'.files = computeBuildHash sha256 d.files →
      ∀ f, f ∈ outputs d'.files ↔ f ∈ outputs d.files

/-- **The directories that no other one is taken for.**  There is no output, or one; and in this
case nothing but its name could be a name where it begins, and no name that is sorted behind it is
in its contents. -/
def HashFits (legal : List Char → Prop) (files : List File) : Prop :=
  outputs files = [] ∨ ∃ f, outputs files = [f] ∧
    (∀ name, legal name → isBuildOutput name → name ≠ f.1 → ¬ utf8 name <+: fileBytes f) ∧
    ∀ name, legal name → isBuildOutput name → Utf16.encode f.1 < Utf16.encode name →
      ¬ utf8 name <:+: f.2

section BuildHash

variable {legal : List Char → Prop} {d : OutDir legal} {f g : File}

theorem nameLe_total (f g : File) : NameLe f g ∨ NameLe g f := le_total _ _

instance : Std.Total NameLe := ⟨nameLe_total⟩

instance : IsTrans File NameLe := ⟨fun _ _ _ h h' => le_trans h h'⟩

theorem name_eq_of_nameLe (h : NameLe f g) (h' : NameLe g f) : f.1 = g.1 :=
  Utf16.encode_injective (le_antisymm h h')

/-- Two files of a directory with one name are one file. -/
theorem OutDir.eq_of_name_eq (d : OutDir legal) (hf : f ∈ d.files) (hg : g ∈ d.files)
    (h : f.1 = g.1) : f = g :=
  List.inj_on_of_nodup_map d.names_nodup hf hg h

theorem output_ne_nil {name : List Char} (h : isBuildOutput name) : utf8 name ≠ [] := by
  cases name with
  | nil => exact absurd h (by decide)
  | cons c name =>
    rw [Json.utf8_cons]
    refine List.append_ne_nil_of_left_ne_nil (fun hnil => ?_) _
    have hlength := congrArg List.length hnil
    rw [String.length_utf8EncodeChar, List.length_nil] at hlength
    exact absurd hlength (Char.utf8Size_pos c).ne'

theorem mem_sortedOutputs {files : List File} :
    f ∈ sortedOutputs files ↔ f ∈ files ∧ isBuildOutput f.1 := by
  rw [sortedOutputs, List.mem_insertionSort, outputs, List.mem_filter]

/-- The order of the listing is irrelevant. -/
theorem output_hash_perm {H : Type*} (sha256 : List UInt8 → H) {files : List File}
    (h : files.Perm d.files) : computeBuildHash sha256 files = computeBuildHash sha256 d.files := by
  have hperm : (sortedOutputs files).Perm (sortedOutputs d.files) :=
    ((List.perm_insertionSort _ _).trans (h.filter _)).trans (List.perm_insertionSort _ _).symm
  have heq : sortedOutputs files = sortedOutputs d.files := by
    refine hperm.eq_of_pairwise ?_ (List.pairwise_insertionSort _ _)
      (List.pairwise_insertionSort _ _)
    intro f g hf hg hle hle'
    have hf' := (mem_sortedOutputs.1 hf).1
    exact d.eq_of_name_eq (h.subset hf') (mem_sortedOutputs.1 hg).1 (name_eq_of_nameLe hle hle')
  rw [computeBuildHash_eq, computeBuildHash_eq, hashedBytes, hashedBytes, heq]

/-! ## Other directories with the hash -/

/-- Files that are outputs with legal names, each sorted behind the ones before it. -/
structure Listed (legal : List Char → Prop) (files : List File) : Prop where
  sorted : files.Pairwise fun f g => Utf16.encode f.1 < Utf16.encode g.1
  legal : ∀ f ∈ files, legal f.1
  output : ∀ f ∈ files, isBuildOutput f.1

theorem listed_sortedOutputs (d : OutDir legal) : Listed legal (sortedOutputs d.files) := by
  refine ⟨?_, fun f hf => d.names_legal f (mem_sortedOutputs.1 hf).1,
    fun f hf => (mem_sortedOutputs.1 hf).2⟩
  have hnodup : (sortedOutputs d.files).Pairwise fun f g => f.1 ≠ g.1 := by
    have hperm := List.perm_insertionSort NameLe (outputs d.files)
    have hsub : ((outputs d.files).map Prod.fst).Nodup :=
      d.names_nodup.sublist (List.filter_sublist.map _)
    exact List.pairwise_map.1 ((hperm.map Prod.fst).nodup_iff.2 hsub)
  refine ((List.pairwise_insertionSort NameLe (outputs d.files)).and hnodup).imp ?_
  rintro f g ⟨hle, hne⟩
  exact lt_of_le_of_ne hle fun heq => hne (Utf16.encode_injective heq)

/-- Such files make a directory, and are hashed as they are. -/
theorem Listed.dir {files : List File} (h : Listed legal files) :
    ∃ d : OutDir legal, outputs d.files = files ∧ sortedOutputs d.files = files := by
  have hnodup : (files.map Prod.fst).Nodup := by
    refine List.pairwise_map.2 (h.sorted.imp fun hlt heq => ?_)
    rw [heq] at hlt
    exact lt_irrefl _ hlt
  have houtputs : outputs files = files := List.filter_eq_self.2 h.output
  refine ⟨⟨files, hnodup, h.legal⟩, houtputs, ?_⟩
  rw [sortedOutputs, houtputs]
  exact List.Pairwise.insertionSort_eq (h.sorted.imp fun hlt => hlt.le)

end BuildHash

section Result

variable {H : Type*} {sha256 : List UInt8 → H} {legal : List Char → Prop} {d : OutDir legal}

/-- A listing with the same bytes has the same files. -/
theorem BuildHashRight.eq (h : BuildHashRight sha256 legal d) {files : List File}
    (hlisted : Listed legal files)
    (hbytes : files.flatMap fileBytes = (sortedOutputs d.files).flatMap fileBytes) (f : File) :
    f ∈ files ↔ f ∈ sortedOutputs d.files := by
  obtain ⟨d', houtputs, hsorted⟩ := hlisted.dir
  have hsame := h.unique d' (by
    rw [computeBuildHash_eq, computeBuildHash_eq, hashedBytes, hashedBytes, hsorted, hbytes]) f
  rw [houtputs] at hsame
  rw [hsame, sortedOutputs, List.mem_insertionSort]

/-- Two outputs are as well one: the second one's name and contents at the end of the first one's
contents. -/
theorem Listed.merge {f g : File} {files : List File} (h : Listed legal (f :: g :: files)) :
    Listed legal ((f.1, f.2 ++ fileBytes g) :: files) := by
  obtain ⟨hf, hrest⟩ := List.pairwise_cons.1 h.sorted
  refine ⟨List.pairwise_cons.2 ⟨fun k hk => hf k (List.mem_cons_of_mem _ hk),
    (List.pairwise_cons.1 hrest).2⟩, ?_, ?_⟩
  · intro k hk
    rcases List.mem_cons.1 hk with rfl | hk
    · exact h.legal f (by simp)
    · exact h.legal k (by simp [hk])
  · intro k hk
    rcases List.mem_cons.1 hk with rfl | hk
    · exact h.output f (by simp)
    · exact h.output k (by simp [hk])

theorem Listed.single {f : File} (hlegal : legal f.1) (houtput : isBuildOutput f.1) :
    Listed legal [f] :=
  ⟨List.pairwise_singleton _ _, by simpa using hlegal, by simpa using houtput⟩

theorem BuildHashRight.at_most_one (h : BuildHashRight sha256 legal d) {f g : File}
    {files : List File} : sortedOutputs d.files ≠ f :: g :: files := by
  intro hlist
  have hlisted := hlist ▸ listed_sortedOutputs d
  have hbytes : ((f.1, f.2 ++ fileBytes g) :: files).flatMap fileBytes
      = (sortedOutputs d.files).flatMap fileBytes := by
    simp [hlist, fileBytes]
  have hmem : g ∈ (f.1, f.2 ++ fileBytes g) :: files :=
    (h.eq hlisted.merge hbytes g).2 (by simp [hlist])
  obtain ⟨hf, hrest⟩ := List.pairwise_cons.1 hlisted.sorted
  rcases List.mem_cons.1 hmem with hg | hg
  · have hlt := hf g (by simp)
    rw [hg] at hlt
    exact lt_irrefl _ hlt
  · exact lt_irrefl _ ((List.pairwise_cons.1 hrest).1 g hg)

theorem BuildHashRight.fits (h : BuildHashRight sha256 legal d) : HashFits legal d.files := by
  have hperm : (sortedOutputs d.files).Perm (outputs d.files) := List.perm_insertionSort _ _
  match hlist : sortedOutputs d.files with
  | [] => exact .inl (List.nil_perm.1 (hlist ▸ hperm))
  | _ :: _ :: _ => exact absurd hlist h.at_most_one
  | [f] =>
    refine .inr ⟨f, List.perm_singleton.1 (hlist ▸ hperm).symm, ?_, ?_⟩
    · rintro name hlegal houtput hne ⟨rest, hrest⟩
      -- the bytes cut behind the other name
      have hmem : f ∈ [(name, rest)] :=
        (h.eq (.single hlegal houtput) (by simpa [hlist, fileBytes] using hrest) f).2
          (by simp [hlist])
      exact hne (by rw [List.mem_singleton.1 hmem])
    · rintro name hlegal houtput hlt ⟨before, after, hcontents⟩
      -- the contents cut before the other name
      have hlisted := hlist ▸ listed_sortedOutputs d
      have htwo : Listed legal [(f.1, before), (name, after)] :=
        ⟨by simpa using hlt, by simpa using ⟨hlisted.legal f (by simp), hlegal⟩,
          by simpa using ⟨hlisted.output f (by simp), houtput⟩⟩
      have hmem : (name, after) ∈ [f] := hlist ▸
        (h.eq htwo (by simp [hlist, fileBytes, ← hcontents]) (name, after)).1 (by simp)
      rw [← List.mem_singleton.1 hmem] at hlt
      exact lt_irrefl _ hlt

theorem fileBytes_ne_nil {f : File} (h : isBuildOutput f.1) : fileBytes f ≠ [] :=
  List.append_ne_nil_of_left_ne_nil (output_ne_nil h) _

/-- A listing with the bytes of outputs that fit is the outputs. -/
theorem HashFits.eq (h : HashFits legal d.files) {files : List File} (hlisted : Listed legal files)
    (hbytes : files.flatMap fileBytes = (sortedOutputs d.files).flatMap fileBytes) :
    files = sortedOutputs d.files := by
  have hperm : (sortedOutputs d.files).Perm (outputs d.files) := List.perm_insertionSort _ _
  rcases h with hnone | ⟨f, hone, hname, hcontents⟩
  · rw [hnone] at hperm
    rw [hperm.eq_nil] at hbytes ⊢
    refine List.eq_nil_iff_forall_not_mem.2 fun g hg => ?_
    exact fileBytes_ne_nil (hlisted.output g hg) (List.flatMap_eq_nil_iff.1 hbytes g hg)
  · rw [hone] at hperm
    rw [List.perm_singleton.1 hperm, List.flatMap_singleton] at hbytes
    rw [List.perm_singleton.1 hperm]
    match files with
    | [] =>
      have hf : f ∈ sortedOutputs d.files := hperm.mem_iff.2 (by simp)
      exact absurd hbytes.symm (fileBytes_ne_nil (mem_sortedOutputs.1 hf).2)
    | g :: rest =>
      rw [List.flatMap_cons] at hbytes
      have hprefix : utf8 g.1 <+: fileBytes f :=
        ⟨g.2 ++ rest.flatMap fileBytes, by rw [← hbytes, fileBytes, List.append_assoc]⟩
      have hg : g.1 = f.1 := by
        by_contra hne
        exact hname g.1 (hlisted.legal g (by simp)) (hlisted.output g (by simp)) hne hprefix
      have hrest : g.2 ++ rest.flatMap fileBytes = f.2 := by
        rw [fileBytes, fileBytes, hg, List.append_assoc] at hbytes
        exact List.append_cancel_left hbytes
      match rest with
      | [] => rw [Prod.ext hg (by simpa using hrest)]
      | k :: rest =>
        have hlt := (List.pairwise_cons.1 hlisted.sorted).1 k (by simp)
        refine absurd ?_ (hcontents k.1 (hlisted.legal k (by simp)) (hlisted.output k (by simp))
          (hg ▸ hlt))
        exact ⟨g.2, k.2 ++ rest.flatMap fileBytes, by simp [← hrest, fileBytes]⟩

theorem HashFits.right (hinj : CollisionFree sha256 legal) (h : HashFits legal d.files) :
    BuildHashRight sha256 legal d := by
  refine ⟨fun files => output_hash_perm sha256, fun d' hhash f => ?_⟩
  have hsame := h.eq (listed_sortedOutputs d') (hinj ⟨d', rfl⟩ ⟨d, rfl⟩ hhash)
  have hmem : ∀ files, f ∈ outputs files ↔ f ∈ sortedOutputs files := fun files => by
    rw [sortedOutputs, List.mem_insertionSort]
  rw [hmem, hmem, hsame]

/-- **When a hash stands for one build.** -/
theorem buildHashRight_iff (hinj : CollisionFree sha256 legal) (d : OutDir legal) :
    BuildHashRight sha256 legal d ↔ HashFits legal d.files :=
  ⟨BuildHashRight.fits, HashFits.right hinj⟩

/-- The names a file can have in a directory. -/
def isFileName (name : List Char) : Prop := name ≠ [] ∧ '/' ∉ name ∧ '\x00' ∉ name

instance : DecidablePred isFileName := fun name =>
  inferInstanceAs (Decidable (name ≠ [] ∧ '/' ∉ name ∧ '\x00' ∉ name))

/-- A directory with one library, which is empty. -/
def oneLibrary : OutDir isFileName :=
  ⟨[("yaml.so".toList, [])], by decide, by decide⟩

/-- The only output that the name of this library begins with is the library. -/
theorem oneLibrary_fits : HashFits isFileName oneLibrary.files := by
  refine .inr ⟨("yaml.so".toList, []), by decide, ?_, ?_⟩
  · intro name _ houtput hne hprefix
    have hends : utf8 ".so".toList <:+ utf8 name ∨ utf8 ".json".toList <:+ utf8 name := by
      rcases Bool.or_eq_true_iff.1 houtput with h | h
      · obtain ⟨rest, rfl⟩ := List.isSuffixOf_iff_suffix.1 (Bool.and_eq_true_iff.1 h).2
        exact .inr ⟨utf8 rest, (Json.utf8_append _ _).symm⟩
      · obtain ⟨rest, rfl⟩ := List.isSuffixOf_iff_suffix.1 h
        exact .inl ⟨utf8 rest, (Json.utf8_append _ _).symm⟩
    have hinits : ∀ bytes ∈ (fileBytes ("yaml.so".toList, [])).inits,
        (utf8 ".so".toList <:+ bytes ∨ utf8 ".json".toList <:+ bytes) →
          bytes = utf8 "yaml.so".toList := by decide
    exact hne (Json.utf8_injective (hinits _ ((List.mem_inits _ _).2 hprefix) hends))
  · intro name _ houtput _ hinfix
    exact output_ne_nil houtput (List.infix_nil.1 hinfix)

/-- The result at the directory with one library, with the bytes as their own hash. -/
theorem buildHashRight_iff_example : BuildHashRight id isFileName oneLibrary :=
  (buildHashRight_iff Function.injective_id.injOn oneLibrary).2 oneLibrary_fits

/-- Two empty libraries have the hash of one library that contains the name of the other, whatever
the hash is. -/
theorem second_library_lost : ∃ d d' : OutDir isFileName,
    (("b.so".toList, []) ∈ outputs d.files ∧ ("b.so".toList, []) ∉ outputs d'.files) ∧
      ∀ (H : Type) (sha256 : List UInt8 → H),
        computeBuildHash sha256 d.files = computeBuildHash sha256 d'.files := by
  refine ⟨⟨[("a.so".toList, []), ("b.so".toList, [])], by decide, by decide⟩,
    ⟨[("a.so".toList, utf8 "b.so".toList)], by decide, by decide⟩, by decide, ?_⟩
  intro H sha256
  exact congrArg sha256 (by decide)

end Result

end PhpWasm.Build
