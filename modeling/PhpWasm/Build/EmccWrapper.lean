import PhpWasm.Base.KeepLast
import PhpWasm.Build.Vendored

/-!
# The `emcc` wrapper

`emcc-for-php-wasm.sh` stands in for `emcc` and `em++` in the base image.  It takes the words of
`EMCC_SKIP` out of its arguments, then all but the last of equal library references, and calls the
real compiler with the rest.

* Both loops go through an array from which they remove elements, and are bounded by the number of
  elements that are left: `skipFrom` stops early, and `dedupFrom` starts early.
* `filterArgs_eq`: the last arguments, as many as were skipped, are never looked at.
* `wrapperRight_iff`: when the compiler gets the arguments it should get.
-/

set_option autoImplicit false

namespace PhpWasm.Build

open KeepLast
open Vendored (Text)

/-! ## The script -/

/-- A Bash array, some of whose elements may be unset. -/
abbrev SparseArray := List (Option Text)

/-- `${#args[@]}` -/
def arrayCount (args : SparseArray) : Nat := args.countP Option.isSome

theorem arrayCount_le (args : SparseArray) : arrayCount args ≤ args.length := List.countP_le_length

/-- `"${args[@]}"` -/
def arrayValues (args : SparseArray) : List Text := args.filterMap id

/-- `[[ " ${EMCC_SKIP[*]} " =~ " ${args[$i]} " ]]` -/
def isSkipped (emccSkip arg : Text) : Bool :=
  ' ' :: (arg ++ [' ']) <:+: ' ' :: (emccSkip ++ [' '])

/-- The first loop, from the index `i` on.  There is no result where an element that is not set is
used, at which the script stops. -/
def skipFrom (emccSkip : Text) (i : Nat) (args : SparseArray) : Option SparseArray :=
  if _h : i < arrayCount args then
    match args[i]? with
    | some (some arg) =>
      if isSkipped emccSkip arg then skipFrom emccSkip (i + 1) (args.set i none)
      else skipFrom emccSkip (i + 1) args
    | _ => none
  else some args
termination_by args.length - i
decreasing_by
  · have := arrayCount_le args
    rw [List.length_set]
    omega
  · have := arrayCount_le args
    omega

/-- A character of the name of a library. -/
def isNameChar (c : Char) : Bool :=
  ('a' ≤ c && c ≤ 'z') || ('A' ≤ c && c ≤ 'Z') || ('0' ≤ c && c ≤ '9') || c = '-' || c = '_'

/-- `^-l([a-z]|[A-Z]|[0-9]|[\-_])+$` -/
def isLibFlag : Text → Bool
  | '-' :: 'l' :: name => name ≠ [] && name.all isNameChar
  | _ => false

/-- `^lib([a-z]|[A-Z]|[0-9]|[\-_])+\.a$` -/
def isArchiveName : Text → Bool
  | 'l' :: 'i' :: 'b' :: s => s.takeWhile isNameChar ≠ [] && s.dropWhile isNameChar = ['.', 'a']
  | _ => false

/-- `(^|/)lib([a-z]|[A-Z]|[0-9]|[\-_])+\.a$` -/
def isArchivePath (arg : Text) : Bool :=
  isArchiveName arg ||
    arg.tails.any fun
      | '/' :: s => isArchiveName s
      | _ => false

/-- A library reference. -/
def isLibrary (arg : Text) : Bool := isLibFlag arg || isArchivePath arg

/-- The second loop, for the indices below `i`, from the last one down. -/
def dedupFrom (seenLibs : List Text) : Nat → SparseArray → SparseArray
  | 0, args => args
  | i + 1, args =>
    match args[i]? with
    | some (some arg) =>
      if arg ≠ [] && isLibrary arg then
        if arg ∈ seenLibs then dedupFrom seenLibs i (args.set i none)
        else dedupFrom (arg :: seenLibs) i args
      else dedupFrom seenLibs i args
    | _ => dedupFrom seenLibs i args

/-- Both loops, on the arguments `"${@}"`. -/
def filterArgs (emccSkip : Text) (args : List Text) : Option (List Text) :=
  let skipped :=
    if emccSkip ≠ [] then skipFrom emccSkip 0 (args.map some) else some (args.map some)
  skipped.map fun array => arrayValues (dedupFrom [] (arrayCount array) array)

/-- The words of `EMCC_FLAGS`, which a call with `-v` alone does without. -/
def passedFlags (emccFlags args : List Text) : List Text :=
  if [' '].intercalate args = ['-', 'v'] then [] else emccFlags

/-- The arguments of the real compiler. -/
def wrapper (emccSkip : Text) (emccFlags args : List Text) : Option (List Text) :=
  (filterArgs emccSkip args).map fun kept => kept ++ passedFlags emccFlags args

/-! ## What is right -/

/-- A word of `EMCC_SKIP`. -/
def IsWord (emccSkip arg : Text) : Prop := arg ≠ [] ∧ arg ∈ emccSkip.splitOn ' '

instance (emccSkip arg : Text) : Decidable (IsWord emccSkip arg) :=
  inferInstanceAs (Decidable (_ ∧ _))

/-- The arguments the compiler should get. -/
def wantedArgs (emccSkip : Text) (args : List Text) : List Text :=
  keepLast isLibrary (args.filter fun arg => ¬ IsWord emccSkip arg)

/-- The number of arguments that are words of `EMCC_SKIP`. -/
def skipCount (emccSkip : Text) (args : List Text) : Nat :=
  args.countP fun arg => IsWord emccSkip arg

/-- **The arguments that come out right.**  Where `n` of them are words to skip, the last `n - 1`
are not; the last `n` are copies of no library reference, as far as they stay; and no empty argument
comes before these if `EMCC_SKIP` has blanks before or after its words, or more than one between
them. -/
structure ArgsFit (emccSkip : Text) (args : List Text) : Prop where
  noWord : ∀ arg ∈ args.drop (args.length - (skipCount emccSkip args - 1)), ¬ IsWord emccSkip arg
  noCopy : ∀ arg ∈ args.drop (args.length - skipCount emccSkip args),
    ¬ IsWord emccSkip arg → isLibrary arg → args.count arg = 1
  noEmpty : emccSkip ≠ [] → [] ∈ emccSkip.splitOn ' ' →
    [] ∉ args.take (args.length - skipCount emccSkip args)

/-! ## Words -/

/-- What the test looks for, at the beginning of a text and after it. -/
theorem infix_splitOn {arg : Text} (harg : ' ' ∉ arg) (s : Text) :
    (arg ++ [' '] <+: s ++ [' '] ↔ arg ∈ (s.splitOn ' ').head?) ∧
      (' ' :: (arg ++ [' ']) <:+: s ++ [' '] ↔ arg ∈ (s.splitOn ' ').tail) := by
  induction s generalizing arg with
  | nil =>
    constructor
    · cases arg with
      | nil => simp
      | cons d t => simp
    · simp [List.infix_cons_iff]
  | cons c s ih =>
    obtain ⟨w, ws, hws⟩ := List.exists_cons_of_ne_nil (List.splitOn_ne_nil ' ' s)
    rw [List.splitOn_cons_eq_if_modifyHead, List.cons_append, List.infix_cons_iff]
    by_cases hc : c = ' '
    · subst hc
      constructor
      · cases arg with
        | nil => simp
        | cons d t =>
          rw [List.mem_cons, not_or] at harg
          simp [List.cons_prefix_cons, Ne.symm harg.1]
      · rw [List.cons_prefix_cons, (ih harg).1, (ih harg).2]
        simp [hws, eq_comm]
    · rw [if_neg (by simpa using hc), hws]
      constructor
      · cases arg with
        | nil => simp [List.cons_prefix_cons, Ne.symm hc]
        | cons d t =>
          rw [List.mem_cons, not_or] at harg
          rw [List.cons_append, List.cons_prefix_cons, (ih harg.2).1, hws]
          simp [eq_comm]
      · rw [List.cons_prefix_cons, (ih harg).2, hws]
        simp [Ne.symm hc]

/-- **The test finds the words**, and the empty text between two blanks. -/
theorem isSkipped_iff {arg : Text} (harg : ' ' ∉ arg) (emccSkip : Text) :
    isSkipped emccSkip arg ↔ arg ∈ emccSkip.splitOn ' ' := by
  obtain ⟨hpre, hinf⟩ := infix_splitOn harg emccSkip
  rw [isSkipped, decide_eq_true_iff, List.infix_cons_iff, List.cons_prefix_cons, hpre, hinf]
  obtain ⟨w, ws, hws⟩ := List.exists_cons_of_ne_nil (List.splitOn_ne_nil ' ' emccSkip)
  simp [hws, eq_comm]

/-! ## The loops -/

section Loops

variable (emccSkip : Text) (args : List Text)

/-- What the first loop removes. -/
def skips (arg : Text) : Bool := emccSkip ≠ [] && isSkipped emccSkip arg

/-- The array after the turns for the first `m` elements. -/
def afterSkip (m : Nat) : SparseArray :=
  (args.take m).map (fun arg => if skips emccSkip arg then none else some arg) ++
    (args.drop m).map some

/-- The index, and the number of elements that were removed before it. -/
def reach (m : Nat) : Nat := m + (args.take m).countP (skips emccSkip)

variable {emccSkip args} {m : Nat}

theorem length_afterSkip : (afterSkip emccSkip args m).length = args.length := by
  rw [afterSkip, List.length_append, List.length_map, List.length_map, ← List.length_append,
    List.take_append_drop]

theorem arrayCount_afterSkip (hm : m ≤ args.length) :
    arrayCount (afterSkip emccSkip args m) + reach emccSkip args m = args.length + m := by
  have hmasked : ∀ l : List Text,
      arrayCount (l.map fun arg => if skips emccSkip arg then none else some arg) +
        l.countP (skips emccSkip) = l.length := by
    intro l
    induction l with
    | nil => rfl
    | cons a l ih =>
      rw [List.map_cons, arrayCount, List.countP_cons, List.countP_cons, List.length_cons, ← ih,
        arrayCount]
      by_cases ha : skips emccSkip a
      · simp [ha, Nat.add_assoc]
      · simp [ha, Nat.add_right_comm]
  have hrest : arrayCount ((args.drop m).map some) = args.length - m := by
    have hall : ∀ a ∈ (args.drop m).map some, a.isSome := by
      intro a ha
      obtain ⟨b, -, rfl⟩ := List.mem_map.1 ha
      rfl
    rw [arrayCount, List.countP_eq_length.2 hall, List.length_map, List.length_drop]
  have := hmasked (args.take m)
  rw [List.length_take, Nat.min_eq_left hm] at this
  rw [arrayCount, afterSkip, List.countP_append, ← arrayCount, ← arrayCount, hrest, reach]
  omega

theorem getElem?_afterSkip (hm : m < args.length) :
    (afterSkip emccSkip args m)[m]? = some (some args[m]) := by
  rw [afterSkip, List.getElem?_append_right (by simp)]
  simp [Nat.min_eq_left hm.le]

/-- The next turn. -/
theorem afterSkip_succ (hm : m < args.length) :
    afterSkip emccSkip args (m + 1) =
      if skips emccSkip args[m] then (afterSkip emccSkip args m).set m none
      else afterSkip emccSkip args m := by
  have htake : args.take (m + 1) = args.take m ++ [args[m]] := by
    rw [List.take_add_one, List.getElem?_eq_getElem hm, Option.toList]
  have hdrop : args.drop m = args[m] :: args.drop (m + 1) := List.drop_eq_getElem_cons hm
  rw [afterSkip, afterSkip, htake, hdrop, List.map_append, List.append_assoc]
  split
  · rename_i h
    rw [List.set_append_right _ _ (by simp), List.length_map, List.length_take,
      Nat.min_eq_left hm.le, Nat.sub_self, List.map_cons, List.map_cons, List.set_cons_zero,
      if_pos h]
    rfl
  · rename_i h
    rw [List.map_cons, List.map_cons, if_neg h]
    rfl

theorem reach_succ (hm : m < args.length) :
    reach emccSkip args (m + 1) =
      reach emccSkip args m + 1 + if skips emccSkip args[m] then 1 else 0 := by
  have htake : args.take (m + 1) = args.take m ++ [args[m]] := by
    rw [List.take_add_one, List.getElem?_eq_getElem hm, Option.toList]
  rw [reach, reach, htake, List.countP_append, List.countP_singleton]
  omega

/-- **The first loop** stops where the index has reached the number of elements that are left. -/
theorem skipFrom_afterSkip (hskip : emccSkip ≠ []) {i : Nat} (hi : i ≤ args.length)
    (hbefore : i = 0 ∨ reach emccSkip args (i - 1) < args.length) :
    ∃ m ≤ args.length, args.length ≤ reach emccSkip args m ∧
      (m = 0 ∨ reach emccSkip args (m - 1) < args.length) ∧
      skipFrom emccSkip i (afterSkip emccSkip args i) = some (afterSkip emccSkip args m) := by
  induction hn : args.length - i generalizing i with
  | zero =>
    have hend : ¬ i < arrayCount (afterSkip emccSkip args i) := by
      have := arrayCount_le (afterSkip emccSkip args i)
      rw [length_afterSkip] at this
      omega
    have hreach : args.length ≤ reach emccSkip args i := by
      rw [reach]
      omega
    refine ⟨i, hi, hreach, hbefore, ?_⟩
    rw [skipFrom, dif_neg hend]
  | succ n ih =>
    have hlt : i < args.length := by omega
    have hcount := @arrayCount_afterSkip emccSkip args i hi
    rw [skipFrom]
    by_cases hgo : i < arrayCount (afterSkip emccSkip args i)
    · obtain ⟨m, hm, hreach, hbefore', heq⟩ := ih hlt (.inr (by simpa using by omega)) (by omega)
      refine ⟨m, hm, hreach, hbefore', ?_⟩
      rw [dif_pos hgo, getElem?_afterSkip hlt]
      rw [afterSkip_succ hlt, skips] at heq
      simpa [hskip, apply_ite] using heq
    · refine ⟨i, hi, by omega, hbefore, ?_⟩
      rw [dif_neg hgo]

theorem isLibrary_nil : isLibrary [] = false := by decide

theorem arrayValues_append (l t : SparseArray) :
    arrayValues (l ++ t) = arrayValues l ++ arrayValues t := List.filterMap_append

/-- **The second loop** looks at the elements below its index only. -/
theorem arrayValues_dedupFrom (seenLibs : List Text) {i : Nat} {array : SparseArray}
    (hi : i ≤ array.length) :
    arrayValues (dedupFrom seenLibs i array) =
      keepLastBefore isLibrary seenLibs (arrayValues (array.take i)) ++
        arrayValues (array.drop i) := by
  induction i generalizing seenLibs array with
  | zero => rfl
  | succ i ih =>
    have htake : array.take (i + 1) = array.take i ++ [array[i]] := by
      rw [List.take_add_one, List.getElem?_eq_getElem hi, Option.toList]
    have hdrop : array.drop i = array[i] :: array.drop (i + 1) := List.drop_eq_getElem_cons hi
    have hrest := fun seen => @ih seen array (Nat.le_of_succ_le hi)
    rw [dedupFrom, List.getElem?_eq_getElem hi, htake, arrayValues_append]
    cases harg : array[i] with
    | none =>
      rw [harg] at hdrop
      dsimp only
      rw [hrest, hdrop]
      simp [arrayValues]
    | some arg =>
      rw [harg] at hdrop
      have hvalues : arrayValues [some arg] = [arg] := rfl
      dsimp only
      rw [hvalues, keepLastBefore_concat]
      by_cases hlib : isLibrary arg
      · have hne : arg ≠ [] := by
          rintro rfl
          exact absurd hlib (by decide)
        rw [if_pos (by simp [hne, hlib]), if_pos hlib]
        split
        · rw [@ih seenLibs (array.set i none) (by rw [List.length_set]; omega),
            List.take_set_of_le le_rfl, List.drop_set, if_neg (lt_irrefl i), Nat.sub_self, hdrop]
          rfl
        · rw [hrest, hdrop, List.append_assoc]
          rfl
      · rw [if_neg (by simp [hlib]), if_neg hlib, hrest, hdrop, List.append_assoc]
        rfl

theorem arrayValues_masked (l : List Text) :
    arrayValues (l.map fun arg => if skips emccSkip arg then none else some arg) =
      l.filter fun arg => !skips emccSkip arg := by
  induction l with
  | nil => rfl
  | cons a l ih =>
    by_cases ha : skips emccSkip a
    · simpa [arrayValues, ha] using ih
    · simpa [arrayValues, ha] using ih

theorem arrayValues_some (l : List Text) : arrayValues (l.map some) = l := by
  simp [arrayValues]

/-- The array after the first loop, cut where the second one starts: at `m`, or before the element
that was removed last. -/
theorem afterSkip_cut (hm : m ≤ args.length) (hreach : args.length ≤ reach emccSkip args m)
    (hbefore : m = 0 ∨ reach emccSkip args (m - 1) < args.length) :
    arrayValues ((afterSkip emccSkip args m).take (arrayCount (afterSkip emccSkip args m))) =
        (args.take m).filter (fun arg => !skips emccSkip arg) ∧
      arrayValues ((afterSkip emccSkip args m).drop (arrayCount (afterSkip emccSkip args m))) =
        args.drop m := by
  have hcount := @arrayCount_afterSkip emccSkip args m hm
  have hlength : ((args.take m).map fun arg =>
      if skips emccSkip arg then none else some arg).length = m := by
    rw [List.length_map, List.length_take, Nat.min_eq_left hm]
  by_cases hexact : reach emccSkip args m = args.length
  · have hc : arrayCount (afterSkip emccSkip args m) = m := by omega
    rw [hc, afterSkip, List.take_left' hlength, List.drop_left' hlength, arrayValues_masked,
      arrayValues_some]
    exact ⟨rfl, rfl⟩
  · obtain ⟨k, rfl⟩ : ∃ k, m = k + 1 := by
      refine Nat.exists_eq_succ_of_ne_zero ?_
      rintro rfl
      have hzero : reach emccSkip args 0 = 0 := rfl
      omega
    have hk : k < args.length := hm
    have hsucc := @reach_succ emccSkip args k hk
    rw [Nat.add_sub_cancel] at hbefore
    have hskip : skips emccSkip args[k] := by
      by_contra hnot
      rw [if_neg hnot] at hsucc
      omega
    rw [if_pos hskip] at hsucc
    have hc : arrayCount (afterSkip emccSkip args (k + 1)) = k := by omega
    have htake : args.take (k + 1) = args.take k ++ [args[k]] := by
      rw [List.take_add_one, List.getElem?_eq_getElem hk, Option.toList]
    have hlength' : ((args.take k).map fun arg =>
        if skips emccSkip arg then none else some arg).length = k := by
      rw [List.length_map, List.length_take, Nat.min_eq_left hk.le]
    rw [hc, afterSkip, htake, List.map_append, List.append_assoc, List.take_left' hlength',
      List.drop_left' hlength', arrayValues_masked, arrayValues_append, arrayValues_some,
      List.filter_append]
    simp [hskip, arrayValues]

/-- **What the loops do.**  The arguments from some `m` on are passed on as they are. -/
theorem filterArgs_eq (emccSkip : Text) (args : List Text) :
    ∃ m ≤ args.length, args.length ≤ reach emccSkip args m ∧
      (m = 0 ∨ reach emccSkip args (m - 1) < args.length) ∧
      filterArgs emccSkip args =
        some (keepLast isLibrary ((args.take m).filter fun arg => !skips emccSkip arg) ++
          args.drop m) := by
  have hloop : ∃ m ≤ args.length, args.length ≤ reach emccSkip args m ∧
      (m = 0 ∨ reach emccSkip args (m - 1) < args.length) ∧
      (if emccSkip ≠ [] then skipFrom emccSkip 0 (args.map some) else some (args.map some)) =
        some (afterSkip emccSkip args m) := by
    by_cases hskip : emccSkip = []
    · have hnone : ∀ k, reach emccSkip args k = k := by
        intro k
        rw [reach, List.countP_eq_zero.2 fun a _ => by simp [skips, hskip], Nat.add_zero]
      refine ⟨args.length, le_rfl, (hnone _).ge, ?_, ?_⟩
      · rw [hnone]
        omega
      · rw [if_neg (by simpa using hskip), afterSkip, List.take_length, List.drop_length]
        simp [skips, hskip]
    · obtain ⟨m, hm, hreach, hbefore, heq⟩ :=
        skipFrom_afterSkip hskip (Nat.zero_le args.length) (.inl rfl)
      refine ⟨m, hm, hreach, hbefore, ?_⟩
      rw [if_pos hskip, ← heq]
      rfl
  obtain ⟨m, hm, hreach, hbefore, heq⟩ := hloop
  obtain ⟨htake, hdrop⟩ := afterSkip_cut hm hreach hbefore
  refine ⟨m, hm, hreach, hbefore, ?_⟩
  rw [filterArgs, heq, Option.map_some, arrayValues_dedupFrom [] (arrayCount_le _), htake, hdrop]
  rfl

end Loops

/-! ## The result -/

section Result

variable {emccSkip : Text} {args : List Text} {m : Nat}

/-- What the loops have not looked at came out right, and what they have looked at too. -/
structure Fit (emccSkip : Text) (args : List Text) (m : Nat) : Prop where
  noWord : ∀ arg ∈ args.drop m, ¬ IsWord emccSkip arg
  noCopy : ∀ arg ∈ args.drop m, isLibrary arg → args.count arg = 1
  onlyWords : ∀ arg ∈ args.take m, skips emccSkip arg ↔ IsWord emccSkip arg

theorem skips_iff {arg : Text} (harg : ' ' ∉ arg) :
    skips emccSkip arg ↔
      IsWord emccSkip arg ∨ arg = [] ∧ emccSkip ≠ [] ∧ [] ∈ emccSkip.splitOn ' ' := by
  rw [skips, Bool.and_eq_true, decide_eq_true_iff, isSkipped_iff harg, IsWord]
  by_cases hnil : arg = []
  · subst hnil
    simp
  · have hskip : arg ∈ emccSkip.splitOn ' ' → emccSkip ≠ [] := by
      rintro hmem rfl
      simp [hnil] at hmem
    simp only [hnil, ne_eq, not_false_eq_true, true_and, false_and, or_false]
    exact ⟨And.right, fun h => ⟨hskip h, h⟩⟩

theorem count_take_add_count_drop (args : List Text) (m : Nat) (a : Text) :
    (args.take m).count a + (args.drop m).count a = args.count a := by
  rw [← List.count_append, List.take_append_drop]

theorem not_isWord_nil : ¬ IsWord emccSkip [] := fun h => h.1 rfl

/-- The loops are right if and only if their last turn fits. -/
theorem keepLast_eq_wanted_iff (hargs : ∀ arg ∈ args, ' ' ∉ arg) :
    keepLast isLibrary ((args.take m).filter fun arg => !skips emccSkip arg) ++ args.drop m =
      wantedArgs emccSkip args ↔ Fit emccSkip args m := by
  have htake : ∀ arg ∈ args.take m, ' ' ∉ arg := fun a ha => hargs a (List.mem_of_mem_take ha)
  constructor
  · intro heq
    have hword : ∀ arg ∈ args.drop m, ¬ IsWord emccSkip arg := by
      intro arg harg
      have hmem : arg ∈ wantedArgs emccSkip args := heq ▸ List.mem_append_right _ harg
      simpa using (List.mem_filter.1 (mem_keepLast.1 hmem)).2
    have hnil : skips emccSkip [] → [] ∉ args.take m := by
      intro hskip
      have hwanted : (args.filter fun arg => ¬ IsWord emccSkip arg).count [] = args.count [] :=
        List.count_filter (by simp [not_isWord_nil])
      have hkept : ((args.take m).filter fun arg => !skips emccSkip arg).count [] = 0 :=
        List.count_eq_zero.2 (by simp [hskip])
      have hnotLib : ¬ isLibrary [] := by simp [isLibrary_nil]
      have hcount := congrArg (List.count []) heq
      rw [List.count_append, wantedArgs, count_keepLast_of_not hnotLib,
        count_keepLast_of_not hnotLib, hwanted, hkept] at hcount
      have := count_take_add_count_drop args m []
      rw [← List.count_eq_zero]
      omega
    have honly : ∀ arg ∈ args.take m, skips emccSkip arg ↔ IsWord emccSkip arg := by
      intro arg harg
      rw [skips_iff (htake arg harg), or_iff_left]
      rintro ⟨rfl, hblank⟩
      exact hnil ((skips_iff (by simp)).2 (.inr ⟨rfl, hblank⟩)) harg
    refine ⟨hword, fun arg harg hlib => ?_, honly⟩
    have hle : (wantedArgs emccSkip args).count arg ≤ 1 := count_keepLast_le hlib
    rw [← heq, List.count_append] at hle
    have hpos := List.count_pos_iff.2 harg
    have hnot : arg ∉ args.take m := by
      intro hmem
      have hkept : arg ∈ (args.take m).filter fun a => !skips emccSkip a := by
        rw [List.mem_filter]
        refine ⟨hmem, ?_⟩
        rw [Bool.not_eq_true', Bool.eq_false_iff, Ne, honly arg hmem]
        exact hword arg harg
      have hcount : 0 < (keepLast isLibrary
          ((args.take m).filter fun a => !skips emccSkip a)).count arg :=
        List.count_pos_iff.2 (mem_keepLast.2 hkept)
      omega
    have := count_take_add_count_drop args m arg
    rw [List.count_eq_zero.2 hnot] at this
    omega
  · intro h
    have hfilter : (args.take m).filter (fun arg => !skips emccSkip arg) =
        (args.take m).filter fun arg => ¬ IsWord emccSkip arg := by
      refine List.filter_congr fun arg harg => ?_
      simp [← h.onlyWords arg harg]
    have hrest : (args.drop m).filter (fun arg => ¬ IsWord emccSkip arg) = args.drop m :=
      List.filter_eq_self.2 fun arg harg => by simpa using h.noWord arg harg
    have hone : ∀ arg ∈ args.drop m, isLibrary arg →
        arg ∉ args.take m ∧ (args.drop m).count arg = 1 := by
      intro arg harg hlib
      have hcount := h.noCopy arg harg hlib
      have hpos := List.count_pos_iff.2 harg
      have := count_take_add_count_drop args m arg
      exact ⟨List.count_eq_zero.1 (by omega), by omega⟩
    rw [wantedArgs, ← List.take_append_drop m args, List.filter_append, List.take_append_drop,
      hrest, keepLast_append, hfilter]
    rw [keepLastBefore_of_disjoint fun arg harg hlib hmem =>
        (hone arg hmem hlib).1 (List.mem_of_mem_filter harg),
      keepLast_eq_self fun arg harg hlib => (hone arg harg hlib).2]

theorem reach_lt {i j : Nat} (hij : i < j) : reach emccSkip args i < reach emccSkip args j := by
  have hle : (args.take i).countP (skips emccSkip) ≤ (args.take j).countP (skips emccSkip) :=
    List.Sublist.countP_le (List.take_sublist_take_left hij.le)
  rw [reach, reach]
  omega

/-- The first loop stops at one index only. -/
theorem turn_unique {k : Nat} (hm : args.length ≤ reach emccSkip args m)
    (hbefore : m = 0 ∨ reach emccSkip args (m - 1) < args.length)
    (hk : args.length ≤ reach emccSkip args k)
    (hbefore' : k = 0 ∨ reach emccSkip args (k - 1) < args.length) : m = k := by
  have hlt : ∀ {i j : Nat}, args.length ≤ reach emccSkip args i →
      (j = 0 ∨ reach emccSkip args (j - 1) < args.length) → ¬ i < j := by
    intro i j hi hj hij
    rcases hj with rfl | hj
    · omega
    · rcases Nat.lt_or_eq_of_le (Nat.le_sub_one_of_lt hij) with h | rfl
      · have := @reach_lt emccSkip args _ _ h
        omega
      · omega
  have := hlt hm hbefore'
  have := hlt hk hbefore
  omega

theorem skipCount_take_add (args : List Text) (m : Nat) :
    skipCount emccSkip (args.take m) + skipCount emccSkip (args.drop m) =
      skipCount emccSkip args := by
  rw [skipCount, skipCount, ← List.countP_append, List.take_append_drop, skipCount]

theorem skipCount_eq_zero {l : List Text} :
    skipCount emccSkip l = 0 ↔ ∀ arg ∈ l, ¬ IsWord emccSkip arg := by
  simp [skipCount, List.countP_eq_zero]

theorem skipCount_le (args : List Text) : skipCount emccSkip args ≤ args.length :=
  List.countP_le_length

theorem skipCount_take_succ (hm : m < args.length) :
    skipCount emccSkip (args.take (m + 1)) =
      skipCount emccSkip (args.take m) + if IsWord emccSkip args[m] then 1 else 0 := by
  rw [List.take_add_one, List.getElem?_eq_getElem hm, Option.toList, skipCount,
    List.countP_append, List.countP_singleton, skipCount]
  simp

/-- Where the test finds words only, the index tells how many there were. -/
theorem reach_eq (honly : ∀ arg ∈ args.take m, skips emccSkip arg ↔ IsWord emccSkip arg) :
    reach emccSkip args m = m + skipCount emccSkip (args.take m) := by
  have hcount : (args.take m).countP (skips emccSkip) = skipCount emccSkip (args.take m) :=
    List.countP_congr fun arg harg => by simpa using honly arg harg
  rw [reach, hcount]

/-- The first loop stops before the last arguments, as many as are words, or one turn later where
that is over a word. -/
theorem turn_eq (hm : m ≤ args.length) (hreach : args.length ≤ reach emccSkip args m)
    (hbefore : m = 0 ∨ reach emccSkip args (m - 1) < args.length)
    (hnoWord : ∀ arg ∈ args.drop m, ¬ IsWord emccSkip arg)
    (honly : ∀ arg ∈ args.take m, skips emccSkip arg ↔ IsWord emccSkip arg) :
    m = args.length - skipCount emccSkip args ∨
      m = args.length - skipCount emccSkip args + 1 ∧
        ∃ word, IsWord emccSkip word ∧
          args.drop (args.length - skipCount emccSkip args) = word :: args.drop m := by
  have hsum := @skipCount_take_add emccSkip args m
  rw [skipCount_eq_zero.2 hnoWord] at hsum
  rw [reach_eq honly] at hreach
  by_cases hzero : m = 0
  · omega
  obtain ⟨k, rfl⟩ : ∃ k, m = k + 1 := Nat.exists_eq_succ_of_ne_zero hzero
  have hk : k < args.length := hm
  have honly' : ∀ arg ∈ args.take k, skips emccSkip arg ↔ IsWord emccSkip arg :=
    fun arg harg => honly arg (List.take_subset_take_left args (Nat.le_succ k) harg)
  rw [or_iff_right hzero, Nat.add_sub_cancel, reach_eq honly'] at hbefore
  have hsucc := @skipCount_take_succ emccSkip args k hk
  by_cases hword : IsWord emccSkip args[k]
  · rw [if_pos hword] at hsucc
    by_cases heq : k + 1 = args.length - skipCount emccSkip args
    · exact .inl heq
    · have hk' : args.length - skipCount emccSkip args = k := by omega
      refine .inr ⟨by rw [hk'], args[k], hword, ?_⟩
      rw [hk', List.drop_eq_getElem_cons hk]
  · rw [if_neg hword] at hsucc
    omega

/-- The last turn fits if and only if the arguments do. -/
theorem fit_iff (hargs : ∀ arg ∈ args, ' ' ∉ arg) (hm : m ≤ args.length)
    (hreach : args.length ≤ reach emccSkip args m)
    (hbefore : m = 0 ∨ reach emccSkip args (m - 1) < args.length) :
    Fit emccSkip args m ↔ ArgsFit emccSkip args := by
  have hcount := @skipCount_le emccSkip args
  constructor
  · intro h
    have hturn := turn_eq hm hreach hbefore h.noWord h.onlyWords
    refine ⟨?_, ?_, ?_⟩
    · intro arg harg
      refine h.noWord arg (List.drop_subset_drop_left args ?_ harg)
      omega
    · intro arg harg hnot hlib
      rcases hturn with rfl | ⟨-, word, hword, hdrop⟩
      · exact h.noCopy arg harg hlib
      · rw [hdrop, List.mem_cons] at harg
        rcases harg with rfl | harg
        · exact absurd hword hnot
        · exact h.noCopy arg harg hlib
    · intro hskip hblank hmem
      have hmem' : [] ∈ args.take m :=
        List.take_subset_take_left args (by omega) hmem
      have hskips : skips emccSkip [] := (skips_iff (by simp)).2 (.inr ⟨rfl, hskip, hblank⟩)
      exact not_isWord_nil ((h.onlyWords [] hmem').1 hskips)
  · intro h
    set t := args.length - skipCount emccSkip args with ht
    have honly : ∀ arg ∈ args.take t, skips emccSkip arg ↔ IsWord emccSkip arg := by
      intro arg harg
      rw [skips_iff (hargs arg (List.mem_of_mem_take harg)), or_iff_left]
      rintro ⟨rfl, hskip, hblank⟩
      exact h.noEmpty hskip hblank harg
    have hsum := @skipCount_take_add emccSkip args
    by_cases hnoWord : ∀ arg ∈ args.drop t, ¬ IsWord emccSkip arg
    · have hzero := hsum t
      rw [skipCount_eq_zero.2 hnoWord] at hzero
      obtain rfl : m = t := by
        refine turn_unique hreach hbefore ?_ ?_
        · rw [reach_eq honly]
          omega
        · by_cases ht0 : t = 0
          · exact .inl ht0
          · have := @reach_lt emccSkip args (t - 1) t (by omega)
            rw [reach_eq honly] at this
            exact .inr (by omega)
      exact ⟨hnoWord, fun arg harg => h.noCopy arg harg (hnoWord arg harg), honly⟩
    · have hpos : skipCount emccSkip (args.drop t) ≠ 0 := fun h0 =>
        hnoWord (skipCount_eq_zero.1 h0)
      have hone := hsum t
      have hlt : t < args.length := by omega
      have hafter : ∀ arg ∈ args.drop (t + 1), ¬ IsWord emccSkip arg := by
        intro arg harg
        refine h.noWord arg ?_
        rwa [show args.length - (skipCount emccSkip args - 1) = t + 1 by omega]
      have hword : IsWord emccSkip args[t] := by
        by_contra hnot
        refine hnoWord fun arg harg => ?_
        rw [List.drop_eq_getElem_cons hlt, List.mem_cons] at harg
        rcases harg with rfl | harg
        · exact hnot
        · exact hafter arg harg
      have hskips : skips emccSkip args[t] :=
        (skips_iff (hargs _ (List.getElem_mem hlt))).2 (.inl hword)
      have hnext := @skipCount_take_succ emccSkip args t hlt
      have hlast := hsum (t + 1)
      rw [if_pos hword] at hnext
      rw [skipCount_eq_zero.2 hafter] at hlast
      have hsucc := @reach_succ emccSkip args t hlt
      rw [if_pos hskips, reach_eq honly] at hsucc
      obtain rfl : m = t + 1 := by
        refine turn_unique hreach hbefore (by omega) (.inr ?_)
        rw [Nat.add_sub_cancel, reach_eq honly]
        omega
      refine ⟨hafter, fun arg harg => ?_, fun arg harg => ?_⟩
      · refine h.noCopy arg ?_ (hafter arg harg)
        rw [List.drop_eq_getElem_cons hlt]
        exact List.mem_cons_of_mem _ harg
      · rw [List.take_add_one, List.getElem?_eq_getElem hlt, List.mem_append] at harg
        rcases harg with harg | harg
        · exact honly arg harg
        · rw [Option.toList, List.mem_singleton] at harg
          rw [harg]
          exact iff_of_true hskips hword

theorem filterArgs_eq_wanted_iff (hargs : ∀ arg ∈ args, ' ' ∉ arg) :
    filterArgs emccSkip args = some (wantedArgs emccSkip args) ↔ ArgsFit emccSkip args := by
  obtain ⟨m, hm, hreach, hbefore, heq⟩ := filterArgs_eq emccSkip args
  rw [heq, Option.some_inj, keepLast_eq_wanted_iff hargs, fit_iff hargs hm hreach hbefore]

/-- **When the compiler gets the right arguments.** -/
theorem wrapperRight_iff (emccSkip : Text) (emccFlags args : List Text)
    (hargs : ∀ arg ∈ args, ' ' ∉ arg) :
    wrapper emccSkip emccFlags args =
        some (wantedArgs emccSkip args ++ passedFlags emccFlags args) ↔
      ArgsFit emccSkip args := by
  rw [← filterArgs_eq_wanted_iff hargs, wrapper]
  cases filterArgs emccSkip args with
  | none => simp
  | some kept => rw [Option.map_some, Option.some_inj, Option.some_inj, List.append_left_inj]

/-- A call that links: of the words to skip one is there, and a library is named twice. -/
def linkArgs : List Text :=
  ["-O3".toList, "-lz".toList, "libphp.a".toList, "-lxml2".toList, "main.o".toList,
    "-lxml2".toList, "-o".toList, "php.js".toList]

/-- With two words in `EMCC_SKIP`, and with a flag that is added. -/
theorem wrapperRight_iff_example :
    (∀ arg ∈ linkArgs, ' ' ∉ arg) ∧ ArgsFit "-lz -lm".toList linkArgs ∧
      wrapper "-lz -lm".toList ["-fPIC".toList] linkArgs =
        some ["-O3".toList, "libphp.a".toList, "main.o".toList, "-lxml2".toList, "-o".toList,
          "php.js".toList, "-fPIC".toList] := by
  have hfit : ArgsFit "-lz -lm".toList linkArgs := ⟨by decide, by decide, by decide⟩
  refine ⟨by decide, hfit, ?_⟩
  rw [(wrapperRight_iff _ _ linkArgs (by decide)).2 hfit]
  decide

/-- `-lm` is passed on twice, since the last argument is not looked at after `-lz` was skipped. -/
theorem last_arg_not_looked_at :
    wrapper "-lz".toList [] ["-lz".toList, "-lm".toList, "-lm".toList] ≠
      some (wantedArgs "-lz".toList ["-lz".toList, "-lm".toList, "-lm".toList] ++
        passedFlags [] ["-lz".toList, "-lm".toList, "-lm".toList]) := by
  have hflags : passedFlags [] ["-lz".toList, "-lm".toList, "-lm".toList] = [] := by decide
  have hnot : ¬ ArgsFit "-lz".toList ["-lz".toList, "-lm".toList, "-lm".toList] := fun h =>
    absurd (h.noCopy "-lm".toList (by decide) (by decide) (by decide)) (by decide)
  rw [hflags, List.append_nil, wrapper]
  intro heq
  refine hnot ((filterArgs_eq_wanted_iff (by decide)).1 ?_)
  rw [← heq, hflags]
  simp

end Result

end PhpWasm.Build
