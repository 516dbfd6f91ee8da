import PhpWasm.Base.Assignments
import PhpWasm.Base.Json
import PhpWasm.Base.Slots
import PhpWasm.Sapi.Context

/-!
# The environment of `proc_open`

`_php_array_to_envp` packs the environment array into a block of strings `KEY=value` and an array of
pointers to them, and leaves out the elements whose value is empty.  `js_open_process` unpacks the
pointers again, as many as the array had elements, into the object that is `options.env`.

* `phpArrayToEnvp` builds the two blocks of memory, and `jsEnvObject` reads them.
* `phpArrayToEnvp_eq` says what they hold.
* `environmentRight_iff`: the object is the environment, unless the array is empty, where there is
  no object and the child inherits everything, or has the key `__proto__`, which is no property.
-/

set_option autoImplicit false

namespace PhpWasm.Process

open Memory Machine

/-- The characters of a JavaScript string. -/
abbrev Text := List Char

/-! ## The C side -/

/-- An element of the environment array, with its value as a string.  An element without a string
for a key has an index. -/
structure EnvElement where
  key : Option CString
  str : CString

/-- The variables of the first loop of `_php_array_to_envp`. -/
structure EnvSizes where
  sizeenv : Nat
  /-- `env_hash` -/
  envHash : List EnvElement

/-- The first loop, for one element. -/
def EnvSizes.measure (s : EnvSizes) (element : EnvElement) : EnvSizes :=
  if element.str.length = 0 then s
  else
    let s := { s with sizeenv := s.sizeenv + (element.str.length + 1) }
    match element.key with
    | none => { s with envHash := s.envHash ++ [⟨none, element.str⟩] }
    | some key =>
      if key.length ≠ 0 then
        ⟨s.sizeenv + (key.length + 1), s.envHash ++ [⟨some key, element.str⟩]⟩
      else { s with envHash := s.envHash ++ [⟨none, element.str⟩] }

/-- `php_process_env_t`, and the cursors of the second loop. -/
@[ext] structure ProcessEnv where
  /-- The slots of `env.envarray`: offsets into `env.envp`, and null pointers. -/
  envarray : List (Option Nat)
  /-- `ep - env.envarray` -/
  ep : Nat
  /-- The bytes of `env.envp`. -/
  envp : CString
  /-- `p - env.envp` -/
  p : Nat

/-- `memcpy(p, str, n)` -/
def memcpy (block : CString) (p : Nat) (str : CString) : CString :=
  block.take p ++ str ++ block.drop (p + str.length)

/-- What the second loop copies for one element. -/
def EnvElement.entry (element : EnvElement) : CString :=
  match element.key with
  | some key => key ++ bytes "=" ++ element.str
  | none => element.str

/-- The second loop, for one element. -/
def ProcessEnv.pack (env : ProcessEnv) (element : EnvElement) : ProcessEnv where
  envarray := env.envarray.set env.ep (some env.p)
  ep := env.ep + 1
  envp := memcpy env.envp env.p (element.entry ++ [0])
  p := env.p + (element.entry ++ [0]).length

/-- `_php_array_to_envp`, for an environment that was passed.  `pecalloc` fills what it allocates
with zeros. -/
def phpArrayToEnvp (environment : List EnvElement) : ProcessEnv :=
  let cnt := environment.length
  if cnt < 1 then ⟨[none], 0, List.replicate 4 0, 0⟩
  else
    let sizes := environment.foldl EnvSizes.measure ⟨0, []⟩
    sizes.envHash.foldl ProcessEnv.pack
      ⟨List.replicate (cnt + 1) none, 0, List.replicate (sizes.sizeenv + 4) 0, 0⟩

/-! ## The JavaScript side -/

/-- `UTF8ToString`, for a pointer into `env.envp`, in terms of what it makes of a string without
its zero byte.  The null pointer gives the empty string. -/
def stringAt (utf8ToString : CString → Text) (env : ProcessEnv) : Option Nat → Text
  | none => []
  | some p => utf8ToString ((env.envp.drop p).takeWhile (· ≠ 0))

/-- The name of the property that is no property of its own. -/
def proto : Text := "__proto__".toList

/-- `object[key] = value` with a string.  The property `__proto__` takes objects only. -/
def setProperty (object : List (Text × Text)) (key value : Text) : List (Text × Text) :=
  if key = proto then object else Assignments.assign key value object

/-- One turn of the loop over the pointers in `js_open_process`. -/
def setEntry (object : List (Text × Text)) (envEntry : Text) : List (Text × Text) :=
  match envEntry.idxOf? '=' with
  | none => object
  | some splitAt => setProperty object (envEntry.take splitAt) (envEntry.drop (splitAt + 1))

/-- `envObject` of `js_open_process`; `null` becomes `none`. -/
def jsEnvObject (utf8ToString : CString → Text) (env : ProcessEnv) (envLength : Nat) :
    Option (List (Text × Text)) :=
  if envLength = 0 then none
  else
    some ((List.range envLength).foldl
      (fun object i => setEntry object (stringAt utf8ToString env (env.envarray[i]?).join)) [])

/-! ## An environment -/

/-- An array of strings with strings for keys. -/
structure EnvironmentArray where
  entries : List (Text × Text)
  nodup : (entries.map Prod.fst).Nodup
  key_ne : ∀ e ∈ entries, e.1 ≠ []
  /-- No key has a `=`, and nothing has a zero byte. -/
  plain : ∀ e ∈ entries, '=' ∉ e.1 ∧ '\x00' ∉ e.1 ∧ '\x00' ∉ e.2

/-- An element of it, as bytes. -/
def envElement (e : Text × Text) : EnvElement := ⟨some (Json.utf8 e.1), Json.utf8 e.2⟩

namespace EnvironmentArray

/-- What `proc_open` does with it. -/
def processEnv (environment : EnvironmentArray) : ProcessEnv :=
  phpArrayToEnvp (environment.entries.map envElement)

/-- `options.env`: absent, or an object. -/
def optionsEnv (utf8ToString : CString → Text) (environment : EnvironmentArray) :
    Option (List (Text × Text)) :=
  jsEnvObject utf8ToString environment.processEnv environment.entries.length

/-- The accesses to `env.envarray`: it is allocated and filled with zeros, the second loop writes
its slots one after the other, and `js_open_process` reads them. -/
def accesses (environment : EnvironmentArray) : List Access :=
  .alloc environment.processEnv.envarray.length :: .fill ::
    Slots.writes 0 environment.processEnv.ep ++ Slots.reads environment.entries.length

end EnvironmentArray

/-- **The environment reaches the child.** -/
structure EnvironmentRight (utf8ToString : CString → Text) (environment : EnvironmentArray) :
    Prop where
  /-- It is not left out. -/
  passed : environment.optionsEnv utf8ToString ≠ none
  /-- It has the keys with a value, with that value, and no other. -/
  exact : ∀ object, environment.optionsEnv utf8ToString = some object →
    (object.map Prod.fst).Nodup ∧
      ∀ key value, (key, value) ∈ object ↔ (key, value) ∈ environment.entries ∧ value ≠ []
  /-- The array of pointers is read where it was initialised. -/
  inside : Slots.Safe environment.accesses

/-- What `UTF8ToString` does with the UTF-8 at a pointer other than 0.  A byte order mark in front
counts as a part of the text, which it does not for a `TextDecoder`, which `UTF8ToString` asks for
texts of more than 16 bytes. -/
def ReadsUtf8 (utf8ToString : CString → Text) : Prop :=
  ∀ text, '\x00' ∉ text → utf8ToString (Json.utf8 text) = text

/-! ## What is packed -/

/-- The strings of some elements, each with its zero byte. -/
def packed (elements : List EnvElement) : CString := elements.flatMap fun e => e.entry ++ [0]

/-- Where these strings begin. -/
def offsets (elements : List EnvElement) : List (Option Nat) :=
  (List.range elements.length).map fun i => some (packed (elements.take i)).length

/-- The memory after the second loop has packed `elements`. -/
def packedEnv (cnt size : Nat) (elements : List EnvElement) : ProcessEnv where
  envarray := offsets elements ++ List.replicate (cnt + 1 - elements.length) none
  ep := elements.length
  envp := packed elements ++ List.replicate (size - (packed elements).length) 0
  p := (packed elements).length

section

variable {elements : List EnvElement} {element : EnvElement} {cnt size : Nat}

theorem packed_concat (elements : List EnvElement) (element : EnvElement) :
    packed (elements ++ [element]) = packed elements ++ (element.entry ++ [0]) := by
  rw [packed, List.flatMap_append, List.flatMap_singleton, packed]

theorem length_packed_concat (elements : List EnvElement) (element : EnvElement) :
    (packed (elements ++ [element])).length =
      (packed elements).length + (element.entry ++ [0]).length := by
  rw [packed_concat]
  exact List.length_append

theorem length_offsets (elements : List EnvElement) :
    (offsets elements).length = elements.length := by
  rw [offsets, List.length_map, List.length_range]

theorem offsets_concat (elements : List EnvElement) (element : EnvElement) :
    offsets (elements ++ [element]) = offsets elements ++ [some (packed elements).length] := by
  have hbefore : ∀ i ∈ List.range elements.length,
      some (packed ((elements ++ [element]).take i)).length =
        some (packed (elements.take i)).length := by
    intro i hi
    rw [List.take_append_of_le_length (List.mem_range.1 hi).le]
  rw [offsets, List.length_append, List.length_singleton, List.range_succ, List.map_append,
    List.map_congr_left hbefore, List.map_singleton, List.take_left, offsets]

/-- Copying behind what was copied before. -/
theorem memcpy_append (xs ys zs : CString) :
    memcpy (xs ++ zs) xs.length ys = xs ++ ys ++ zs.drop ys.length := by
  rw [memcpy, List.take_left, List.drop_append, List.drop_of_length_le (Nat.le_add_right _ _),
    Nat.add_sub_cancel_left, List.nil_append]

/-- **One turn of the second loop.** -/
theorem pack_packedEnv (hcnt : elements.length < cnt + 1) :
    (packedEnv cnt size elements).pack element = packedEnv cnt size (elements ++ [element]) := by
  have hslots : List.replicate (cnt + 1 - elements.length) (none : Option Nat) =
      none :: List.replicate (cnt + 1 - (elements ++ [element]).length) none := by
    rw [List.length_append, List.length_singleton, ← List.replicate_succ]
    congr 1
    omega
  ext1
  · show List.set _ elements.length _ = _
    rw [packedEnv, hslots, List.set_append_right _ _ (length_offsets _).le, length_offsets,
      Nat.sub_self, List.set_cons_zero, packedEnv, offsets_concat, List.append_assoc]
    rfl
  · show elements.length + 1 = (elements ++ [element]).length
    rw [List.length_append, List.length_singleton]
  · show memcpy (packed elements ++ _) (packed elements).length _ =
      packed (elements ++ [element]) ++
        List.replicate (size - (packed (elements ++ [element])).length) 0
    rw [memcpy_append, List.drop_replicate, length_packed_concat, packed_concat, Nat.sub_sub]
  · show (packed elements).length + _ = (packed (elements ++ [element])).length
    rw [length_packed_concat]

theorem foldl_pack (hcnt : elements.length ≤ cnt) :
    elements.foldl ProcessEnv.pack (packedEnv cnt size []) = packedEnv cnt size elements := by
  induction elements using List.reverseRecOn with
  | nil => rfl
  | append_singleton elements element ih =>
    rw [List.length_append, List.length_singleton] at hcnt
    have hlt : elements.length < cnt + 1 := by omega
    have hle : elements.length ≤ cnt := by omega
    rw [List.foldl_append, ih hle, List.foldl_cons, List.foldl_nil, pack_packedEnv hlt]

/-- The elements the first loop keeps. -/
def kept (elements : List EnvElement) : List EnvElement := elements.filter (·.str.length ≠ 0)

theorem kept_concat (elements : List EnvElement) (element : EnvElement) :
    kept (elements ++ [element]) =
      if element.str.length = 0 then kept elements else kept elements ++ [element] := by
  rw [kept, List.filter_append, kept]
  split
  · rename_i hempty
    rw [List.filter_cons_of_neg (by simpa using hempty), List.filter_nil, List.append_nil]
  · rename_i hsome
    rw [List.filter_cons_of_pos (by simpa using hsome), List.filter_nil]

/-- One turn of the first loop. -/
theorem measure_eq (s : EnvSizes) {key : CString} (str : CString) (hkey : key ≠ []) :
    s.measure ⟨some key, str⟩ =
      if str.length = 0 then s
      else ⟨s.sizeenv + (EnvElement.entry ⟨some key, str⟩ ++ [0]).length,
        s.envHash ++ [⟨some key, str⟩]⟩ := by
  have hlength : key.length ≠ 0 := fun hzero => hkey (List.length_eq_zero_iff.1 hzero)
  have hentry : (EnvElement.entry ⟨some key, str⟩ ++ [0]).length =
      str.length + 1 + (key.length + 1) := by
    have hsep : (bytes "=").length = 1 := rfl
    simp only [EnvElement.entry, List.length_append, List.length_singleton, hsep]
    omega
  rw [EnvSizes.measure, hentry]
  refine if_congr Iff.rfl rfl ?_
  dsimp only
  rw [if_pos hlength, Nat.add_assoc]

/-- The first loop measures what the second one packs. -/
theorem foldl_measure (hkeys : ∀ e ∈ elements, ∃ key, e.key = some key ∧ key ≠ []) :
    elements.foldl EnvSizes.measure ⟨0, []⟩ =
      ⟨(packed (kept elements)).length, kept elements⟩ := by
  induction elements using List.reverseRecOn with
  | nil => rfl
  | append_singleton elements element ih =>
    obtain ⟨key, hkey, hne⟩ := hkeys element (List.mem_append_right _ (List.mem_singleton_self _))
    obtain ⟨_, str⟩ := element
    obtain rfl : _ = some key := hkey
    rw [List.foldl_append, ih fun e he => hkeys e (List.mem_append_left _ he), List.foldl_cons,
      List.foldl_nil, measure_eq _ _ hne, kept_concat]
    split
    · rfl
    · rw [length_packed_concat]

/-- **The memory that `_php_array_to_envp` returns.** -/
theorem phpArrayToEnvp_eq (hne : elements ≠ [])
    (hkeys : ∀ e ∈ elements, ∃ key, e.key = some key ∧ key ≠ []) :
    phpArrayToEnvp elements =
      packedEnv elements.length ((packed (kept elements)).length + 4) (kept elements) := by
  have hlength : ¬elements.length < 1 := by
    have := List.length_pos_of_ne_nil hne
    omega
  have hkept : (kept elements).length ≤ elements.length := List.length_filter_le _ _
  rw [phpArrayToEnvp, if_neg hlength, foldl_measure hkeys, ← foldl_pack hkept]
  rfl

/-! ## What is unpacked -/

/-- The string that begins where the strings before it end. -/
theorem takeWhile_drop_packed (before after : List EnvElement) (zeros : CString)
    (h : 0 ∉ element.entry) :
    ((packed (before ++ element :: after) ++ zeros).drop (packed before).length).takeWhile (· ≠ 0) =
      element.entry := by
  have hsplit : packed (before ++ element :: after) ++ zeros =
      packed before ++ (element.entry ++ 0 :: (packed after ++ zeros)) := by
    simp [packed]
  have hentry : ∀ b ∈ element.entry, (decide (b ≠ 0)) = true := fun b hb =>
    decide_eq_true fun hzero => h (hzero ▸ hb)
  rw [hsplit, List.drop_left, List.takeWhile_append_of_pos hentry, List.takeWhile_cons]
  simp

/-- **What the pointers stand for**: the strings, and then nothing. -/
theorem stringAt_packedEnv (utf8ToString : CString → Text)
    (hzero : ∀ e ∈ elements, 0 ∉ e.entry) (hcnt : elements.length ≤ cnt) :
    (List.range cnt).map (fun i => stringAt utf8ToString (packedEnv cnt size elements)
      ((packedEnv cnt size elements).envarray[i]?).join) =
    elements.map (fun e => utf8ToString e.entry) ++
      List.replicate (cnt - elements.length) [] := by
  apply List.ext_getElem
  · simp
    omega
  · intro i hi hi'
    rw [List.length_map, List.length_range] at hi
    rw [List.getElem_map, List.getElem_range]
    by_cases hlt : i < elements.length
    · have hslot : (packedEnv cnt size elements).envarray[i]? =
          some (some (packed (elements.take i)).length) := by
        rw [packedEnv, List.getElem?_append_left (by rwa [length_offsets]), offsets,
          List.getElem?_map, List.getElem?_range hlt, Option.map_some]
      have hsplit : elements = elements.take i ++ elements[i] :: elements.drop (i + 1) := by
        rw [← List.drop_eq_getElem_cons hlt, List.take_append_drop]
      have hread := takeWhile_drop_packed (elements.take i) (elements.drop (i + 1))
        (List.replicate (size - (packed elements).length) 0) (hzero _ (List.getElem_mem hlt))
      rw [← hsplit] at hread
      rw [hslot, List.getElem_append_left (by rwa [List.length_map]), List.getElem_map]
      exact congrArg utf8ToString hread
    · have hslot : (packedEnv cnt size elements).envarray[i]? = some none := by
        have hle : (offsets elements).length ≤ i := by
          rw [length_offsets]
          omega
        have hin : i - (offsets elements).length < cnt + 1 - elements.length := by
          rw [length_offsets]
          omega
        rw [packedEnv, List.getElem?_append_right hle, List.getElem?_replicate, if_pos hin]
      rw [hslot, List.getElem_append_right (by rw [List.length_map]; omega),
        List.getElem_replicate]
      rfl

end

theorem idxOf?_key {key : Text} (value : Text) (h : '=' ∉ key) :
    (key ++ '=' :: value).idxOf? '=' = some key.length := by
  induction key with
  | nil => rfl
  | cons c key ih =>
    rw [List.mem_cons, not_or] at h
    rw [List.cons_append, List.idxOf?_cons, ih h.2, beq_eq_false_iff_ne.2 (Ne.symm h.1)]
    rfl

/-- An entry that has a key is assigned. -/
theorem setEntry_entry (object : List (Text × Text)) {key : Text} (value : Text) (h : '=' ∉ key) :
    setEntry object (key ++ '=' :: value) = setProperty object key value := by
  have hvalue : (key ++ '=' :: value).drop (key.length + 1) = value := by
    rw [← List.drop_drop, List.drop_left]
    rfl
  rw [setEntry, idxOf?_key value h]
  dsimp only
  rw [List.take_left, hvalue]

/-- Entries that are empty are skipped. -/
theorem foldl_setEntry_replicate (object : List (Text × Text)) (n : Nat) :
    (List.replicate n []).foldl setEntry object = object := by
  induction n with
  | zero => rfl
  | succ n ih =>
    rw [List.replicate_succ, List.foldl_cons]
    exact ih

/-- Assigning keys that are all different. -/
theorem foldl_setProperty {entries : List (Text × Text)} (h : (entries.map Prod.fst).Nodup) :
    entries.foldl (fun object e => setProperty object e.1 e.2) [] =
      entries.filter (·.1 ≠ proto) := by
  induction entries using List.reverseRecOn with
  | nil => rfl
  | append_singleton entries e ih =>
    rw [List.map_append, List.nodup_append] at h
    obtain ⟨hnodup, -, hnew⟩ := h
    have hfresh : e.1 ∉ (entries.filter (·.1 ≠ proto)).map Prod.fst := by
      intro hmem
      have hmem' : e.1 ∈ entries.map Prod.fst := (List.filter_sublist.map _).subset hmem
      exact hnew _ hmem' _ (List.mem_singleton_self _) rfl
    rw [List.foldl_append, ih hnodup, List.filter_append, List.foldl_cons, List.foldl_nil,
      setProperty]
    split
    · rename_i hproto
      rw [List.filter_cons_of_neg (by simp [hproto]), List.filter_nil, List.append_nil]
    · rename_i hproto
      rw [List.filter_cons_of_pos (by simp [hproto]), List.filter_nil, Assignments.assign,
        if_neg hfresh]

/-! ## The whole environment -/

theorem utf8_eq_nil_iff {text : Text} : Json.utf8 text = [] ↔ text = [] := by
  constructor
  · intro h
    exact Json.utf8_injective h
  · rintro rfl
    rfl

/-- UTF-8 has a zero byte only for the character zero. -/
theorem zero_notMem_utf8 {text : Text} (h : '\x00' ∉ text) : 0 ∉ Json.utf8 text := by
  intro hzero
  obtain ⟨c, hc, hbyte⟩ := List.mem_flatMap.1 hzero
  by_cases hascii : c.toNat < 0x80
  · rw [Json.utf8EncodeChar_ascii hascii, List.mem_singleton] at hbyte
    have hnat : c.toNat = 0 := by
      have h := congrArg UInt8.toNat hbyte
      rw [Nat.toUInt8_eq, UInt8.toNat_ofNat', Nat.mod_eq_of_lt (by omega)] at h
      exact h.symm
    have hchar : c = '\x00' := Char.toNat_inj.1 hnat
    exact h (hchar ▸ hc)
  · exact absurd (Json.le_of_mem_utf8EncodeChar (Nat.le_of_not_lt hascii) hbyte) (by decide)

/-- What is copied for an element, as a text. -/
theorem entry_envElement (e : Text × Text) :
    (envElement e).entry = Json.utf8 (e.1 ++ '=' :: e.2) := by
  rw [Json.utf8_append, Json.utf8_cons, Json.utf8EncodeChar_ascii (c := '=') (by decide),
    ← List.append_assoc]
  rfl

/-- The first loop keeps the elements that have a value. -/
theorem kept_map_envElement (entries : List (Text × Text)) :
    kept (entries.map envElement) = (entries.filter (·.2 ≠ [])).map envElement := by
  rw [kept, List.filter_map]
  congr 1
  refine List.filter_congr fun e _ => ?_
  simp only [Function.comp_apply, envElement, ne_eq, List.length_eq_zero_iff, utf8_eq_nil_iff]

namespace EnvironmentArray

variable {utf8ToString : CString → Text} {environment : EnvironmentArray}

theorem processEnv_eq (hne : environment.entries ≠ []) :
    ∃ size, environment.processEnv = packedEnv environment.entries.length size
      ((environment.entries.filter (·.2 ≠ [])).map envElement) := by
  have hkeys : ∀ e ∈ environment.entries.map envElement, ∃ key, e.key = some key ∧ key ≠ [] := by
    intro e he
    obtain ⟨entry, hentry, rfl⟩ := List.mem_map.1 he
    exact ⟨_, rfl, fun hnil => environment.key_ne entry hentry (utf8_eq_nil_iff.1 hnil)⟩
  refine ⟨(packed (kept (environment.entries.map envElement))).length + 4, ?_⟩
  rw [processEnv, phpArrayToEnvp_eq (fun hnil => hne (List.map_eq_nil_iff.1 hnil)) hkeys,
    kept_map_envElement, List.length_map]

/-- **What `options.env` is.** -/
theorem optionsEnv_eq (hread : ReadsUtf8 utf8ToString) (hne : environment.entries ≠ []) :
    environment.optionsEnv utf8ToString =
      some ((environment.entries.filter (·.2 ≠ [])).filter (·.1 ≠ proto)) := by
  obtain ⟨size, henv⟩ := processEnv_eq hne
  have hplain : ∀ e ∈ environment.entries.filter (·.2 ≠ []),
      '=' ∉ e.1 ∧ '\x00' ∉ e.1 ++ '=' :: e.2 := by
    intro e he
    obtain ⟨hsep, hkey, hvalue⟩ := environment.plain e (List.mem_of_mem_filter he)
    refine ⟨hsep, fun hmem => ?_⟩
    rcases List.mem_append.1 hmem with hmem | hmem
    · exact hkey hmem
    · exact hvalue ((List.mem_cons.1 hmem).resolve_left (by decide))
  have hzero : ∀ e ∈ (environment.entries.filter (·.2 ≠ [])).map envElement, 0 ∉ e.entry := by
    intro e he
    obtain ⟨entry, hentry, rfl⟩ := List.mem_map.1 he
    rw [entry_envElement]
    exact zero_notMem_utf8 (hplain entry hentry).2
  have hlength : ¬environment.entries.length = 0 := fun h => hne (List.length_eq_zero_iff.1 h)
  have hcnt : ((environment.entries.filter (·.2 ≠ [])).map envElement).length ≤
      environment.entries.length := by
    rw [List.length_map]
    exact List.length_filter_le _ _
  have hnodup : ((environment.entries.filter (·.2 ≠ [])).map Prod.fst).Nodup :=
    environment.nodup.sublist (List.filter_sublist.map _)
  have hloop : ∀ env, (List.range environment.entries.length).foldl
        (fun object i => setEntry object (stringAt utf8ToString env (env.envarray[i]?).join)) [] =
      ((List.range environment.entries.length).map fun i =>
        stringAt utf8ToString env (env.envarray[i]?).join).foldl setEntry [] :=
    fun env => List.foldl_map.symm
  rw [optionsEnv, jsEnvObject, if_neg hlength, ← foldl_setProperty hnodup, hloop, henv,
    stringAt_packedEnv utf8ToString hzero hcnt, List.foldl_append, foldl_setEntry_replicate,
    List.map_map, List.foldl_map]
  refine congrArg some (List.foldl_ext _ _ _ fun object e he => ?_)
  obtain ⟨hsep, htext⟩ := hplain e he
  rw [Function.comp_apply, entry_envElement, hread _ htext, setEntry_entry _ _ hsep]

/-- How many slots the array of pointers has, and how many of them are written. -/
theorem slots_processEnv (environment : EnvironmentArray) :
    environment.processEnv.envarray.length = environment.entries.length + 1 ∧
      environment.processEnv.ep ≤ environment.entries.length := by
  by_cases hne : environment.entries = []
  · rw [processEnv, hne]
    exact ⟨rfl, Nat.le_refl 0⟩
  · obtain ⟨size, henv⟩ := processEnv_eq hne
    have hle : (environment.entries.filter (·.2 ≠ [])).length ≤ environment.entries.length :=
      List.length_filter_le _ _
    rw [henv, packedEnv]
    dsimp only
    rw [List.length_append, length_offsets, List.length_replicate, List.length_map]
    omega

/-- **The array of pointers is read where it was initialised.** -/
theorem safe_accesses (environment : EnvironmentArray) : Slots.Safe environment.accesses := by
  obtain ⟨hlength, hep⟩ := environment.slots_processEnv
  let filled := run Slots.step .absent [.alloc environment.processEnv.envarray.length, .fill]
  have hsize : filled.size = environment.entries.length + 1 := hlength
  have hinit : ∀ i, i < environment.entries.length → filled.init i = true := fun i hi =>
    decide_eq_true (show i < environment.processEnv.envarray.length by omega)
  have hwrites : environment.processEnv.ep = 0 ∨ 0 + environment.processEnv.ep ≤ filled.size :=
    .inr (by omega)
  refine ⟨trivial, trivial, along_append.2 ⟨(Slots.along_writes filled _ _).2 hwrites, ?_⟩⟩
  rw [Slots.along_reads]
  exact fun i hi => (Slots.init_run_writes filled hwrites i).2 (.inl (hinit i hi))

end EnvironmentArray

/-- The text that some UTF-8 stands for. -/
def decodeUtf8 (str : CString) : Text := (str.toByteArray.utf8Decode?.map Array.toList).getD []

theorem readsUtf8_decodeUtf8 : ReadsUtf8 decodeUtf8 := by
  intro text _
  have hbytes : (Json.utf8 text).toByteArray = text.utf8Encode := rfl
  rw [decodeUtf8, hbytes, List.utf8Decode?_utf8Encode]
  rfl

/-- **When the environment reaches the child.** -/
theorem environmentRight_iff (utf8ToString : CString → Text) (hread : ReadsUtf8 utf8ToString)
    (environment : EnvironmentArray) :
    EnvironmentRight utf8ToString environment ↔
      environment.entries ≠ [] ∧ ∀ value, (proto, value) ∈ environment.entries → value = [] := by
  constructor
  · intro h
    have hne : environment.entries ≠ [] := fun hnil => h.passed (by
      rw [EnvironmentArray.optionsEnv, hnil]
      rfl)
    refine ⟨hne, fun value hmem => by_contra fun hvalue => ?_⟩
    obtain ⟨-, hexact⟩ := h.exact _ (environment.optionsEnv_eq hread hne)
    have hfiltered := List.of_mem_filter ((hexact proto value).2 ⟨hmem, hvalue⟩)
    exact of_decide_eq_true hfiltered rfl
  · rintro ⟨hne, hproto⟩
    have henv := environment.optionsEnv_eq hread hne
    refine ⟨by rw [henv]; exact nofun, fun object hobject => ?_, environment.safe_accesses⟩
    obtain rfl := Option.some.inj (henv.symm.trans hobject)
    refine ⟨environment.nodup.sublist
      ((List.filter_sublist.trans List.filter_sublist).map _), fun key value => ?_⟩
    rw [List.mem_filter, List.mem_filter, decide_eq_true_iff, decide_eq_true_iff]
    refine ⟨fun h => h.1, fun h => ⟨h, fun hkey => ?_⟩⟩
    obtain rfl : key = proto := hkey
    exact h.2 (hproto value h.1)

theorem twoKeys_right : ∃ environment : EnvironmentArray,
    environment.entries = [(['A'], ['1']), (['B'], [])] ∧
      EnvironmentRight decodeUtf8 environment := by
  let environment : EnvironmentArray := ⟨[(['A'], ['1']), (['B'], [])], by decide, by decide,
    by decide⟩
  refine ⟨environment, rfl, (environmentRight_iff decodeUtf8 readsUtf8_decodeUtf8 environment).2
    ⟨by decide, fun value hmem => ?_⟩⟩
  have hkeys : proto ∉ environment.entries.map Prod.fst := by decide
  exact absurd (List.mem_map_of_mem hmem) hkeys

/-- Without a single element there is no environment, and the child inherits that of its parent;
`__proto__=1` is an entry, but not a property. -/
theorem empty_environment_not_right :
    (∃ environment : EnvironmentArray, environment.entries = [] ∧
      environment.optionsEnv decodeUtf8 = none ∧ ¬ EnvironmentRight decodeUtf8 environment) ∧
    ∃ environment : EnvironmentArray, environment.entries = [(proto, ['1'])] ∧
      environment.optionsEnv decodeUtf8 = some [] ∧
      ¬ EnvironmentRight decodeUtf8 environment := by
  constructor
  · let environment : EnvironmentArray := ⟨[], by decide, by decide, by decide⟩
    have hnone : environment.optionsEnv decodeUtf8 = none := rfl
    exact ⟨environment, rfl, hnone, fun h => h.passed hnone⟩
  · let environment : EnvironmentArray := ⟨[(proto, ['1'])], by decide, by decide, by decide⟩
    have hobject : environment.optionsEnv decodeUtf8 = some [] :=
      environment.optionsEnv_eq readsUtf8_decodeUtf8 (by decide)
    refine ⟨environment, rfl, hobject, fun h => ?_⟩
    obtain ⟨-, hexact⟩ := h.exact [] hobject
    exact absurd ((hexact proto ['1']).2 ⟨List.mem_singleton_self _, by decide⟩) List.not_mem_nil

end PhpWasm.Process
