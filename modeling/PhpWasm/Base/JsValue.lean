import Mathlib.Data.List.Nodup

/-!
# JavaScript values

The values a JavaScript program gets out of a configuration file, as far as it looks into them:
strings, arrays of them, plain objects, the two values that stand for a missing one, and everything
else.

A plain object inherits from `Object.prototype`, and `in` and indexing see what it inherits.  So an
object that is used as a table has an answer for names such as `toString` or `__proto__` that were
never put in it; `objectPrototype` lists them.
-/

set_option autoImplicit false

/-- A JavaScript value. -/
inductive JsValue
  | undefined
  | null
  | string (s : String)
  /-- A plain object, with its own properties. -/
  | object (fields : List (String × JsValue))
  /-- An array of strings. -/
  | strings (items : List String)
  /-- Any other value, by the string it is converted to. -/
  | other (text : String)

namespace JsValue

/-- `v?.key`, for a key that nothing is inherited under. -/
def field (v : JsValue) (key : String) : JsValue :=
  match v with
  | .object fields => (fields.lookup key).getD .undefined
  | _ => .undefined

/-- `v ?? d` -/
def orElse (v d : JsValue) : JsValue :=
  match v with
  | .undefined => d
  | .null => d
  | v => v

/-- `v === s`, for a string `s`. -/
def isString (v : JsValue) (s : String) : Bool :=
  match v with
  | .string t => t == s
  | _ => false

/-- `v === w`.  No two objects are the same one. -/
def strictEq (v w : JsValue) : Bool :=
  match v, w with
  | .undefined, .undefined => true
  | .null, .null => true
  | .string s, w => w.isString s
  | .other s, .other t => s == t
  | _, _ => false

/-- The value in a template string. -/
def toText : JsValue → String
  | .undefined => "undefined"
  | .null => "null"
  | .string s => s
  | .object _ => "[object Object]"
  | .strings items => ",".intercalate items
  | .other text => text

/-- `Boolean(v)` -/
def truthy : JsValue → Bool
  | .undefined => false
  | .null => false
  | .string s => s != ""
  | .object _ => true
  | .strings _ => true
  | .other text => text ∉ ["false", "0", "NaN"]

/-- `v === undefined || v === null` -/
def isMissing : JsValue → Bool
  | .undefined => true
  | .null => true
  | _ => false

/-- An array of strings. -/
def isList : JsValue → Bool
  | .strings _ => true
  | _ => false

/-- The own properties that `...v` spreads, for a plain object. -/
def fields : JsValue → List (String × JsValue)
  | .object fields => fields
  | _ => []

@[simp] theorem isString_string (s t : String) : (JsValue.string s).isString t = (s == t) := rfl

@[simp] theorem isString_eq_true {v : JsValue} {s : String} :
    v.isString s = true ↔ v = .string s := by
  cases v <;> simp [isString]

/-- What equals a string is that string. -/
theorem strictEq_string {v : JsValue} {s : String} :
    (JsValue.string s).strictEq v = true ↔ v = .string s := by
  rw [strictEq, isString_eq_true]

theorem strictEq_string_right {v : JsValue} {s : String} :
    v.strictEq (.string s) = true ↔ v = .string s := by
  match v with
  | .string t => rw [strictEq_string, eq_comm]
  | .undefined | .null | .object _ | .strings _ | .other _ => simp [strictEq]

end JsValue

/-! ## Objects as tables -/

/-- What a plain object inherits: the names, and the string each of the values is converted to. -/
def objectPrototype : List (String × String) :=
  [("constructor", "function Object() \x7b [native code] \x7d"),
    ("__defineGetter__", "function __defineGetter__() \x7b [native code] \x7d"),
    ("__defineSetter__", "function __defineSetter__() \x7b [native code] \x7d"),
    ("hasOwnProperty", "function hasOwnProperty() \x7b [native code] \x7d"),
    ("__lookupGetter__", "function __lookupGetter__() \x7b [native code] \x7d"),
    ("__lookupSetter__", "function __lookupSetter__() \x7b [native code] \x7d"),
    ("isPrototypeOf", "function isPrototypeOf() \x7b [native code] \x7d"),
    ("propertyIsEnumerable", "function propertyIsEnumerable() \x7b [native code] \x7d"),
    ("toString", "function toString() \x7b [native code] \x7d"),
    ("valueOf", "function valueOf() \x7b [native code] \x7d"),
    ("__proto__", "[object Object]"),
    ("toLocaleString", "function toLocaleString() \x7b [native code] \x7d")]

/-- `name in table`, for a table of strings. -/
def inTable (table : List (String × String)) (name : String) : Bool :=
  (table.lookup name).isSome || (objectPrototype.lookup name).isSome

/-- The string that `table[name]` is converted to when it is used as a key. -/
def tableKey (table : List (String × String)) (name : String) : Option String :=
  (table.lookup name).or (objectPrototype.lookup name)

/-- A plain object with distinct own properties. -/
structure JsObject where
  /-- `Object.entries` -/
  entries : List (String × JsValue)
  /-- A property is there once. -/
  nodup : (entries.map Prod.fst).Nodup

namespace JsObject

/-- `{}` -/
def empty : JsObject := ⟨[], List.nodup_nil⟩

/-- `object[key]`, for a key that nothing is inherited under. -/
def get (o : JsObject) (key : String) : JsValue := (o.entries.lookup key).getD .undefined

theorem get_of_mem {o : JsObject} {e : String × JsValue} (he : e ∈ o.entries) :
    o.get e.1 = e.2 := by
  obtain ⟨l, hl⟩ := o
  simp only [get] at he ⊢
  induction l with
  | nil => cases he
  | cons a l ih =>
    obtain ⟨ha, hl⟩ := List.nodup_cons.1 hl
    rcases List.mem_cons.1 he with rfl | he
    · rw [List.lookup_cons_self, Option.getD_some]
    · have hne : e.1 ≠ a.1 := fun h => ha (h ▸ List.mem_map_of_mem he)
      rw [List.lookup_cons, beq_eq_false_iff_ne.2 hne]
      exact ih hl he

/-- A property with a value that is not `undefined` is one of the entries. -/
theorem mem_of_get {o : JsObject} {key : String} (h : o.get key ≠ .undefined) :
    (key, o.get key) ∈ o.entries := by
  cases hl : o.entries.lookup key with
  | none => exact absurd (by rw [get, hl]; rfl) h
  | some v =>
    obtain ⟨l, l', hl', -⟩ := List.lookup_eq_some_iff.1 hl
    rw [get, hl, hl']
    exact List.mem_append_right _ List.mem_cons_self

theorem get_of_notMem {o : JsObject} {key : String} (h : ∀ v, (key, v) ∉ o.entries) :
    o.get key = .undefined := by
  by_contra hne
  exact h _ (mem_of_get hne)

/-- What an object answers for a key depends on its entries for that key only. -/
theorem get_congr {o o' : JsObject} {key : String}
    (h : ∀ v, (key, v) ∈ o.entries ↔ (key, v) ∈ o'.entries) : o.get key = o'.get key := by
  by_cases hv : ∃ v, (key, v) ∈ o.entries
  · obtain ⟨v, hv⟩ := hv
    exact (get_of_mem hv).trans (get_of_mem ((h v).1 hv)).symm
  · rw [not_exists] at hv
    rw [get_of_notMem hv, get_of_notMem fun v hv' => hv v ((h v).2 hv')]

/-- `object[key] = v`: in place, or behind the other properties. -/
def set (o : JsObject) (key : String) (v : JsValue) : JsObject where
  entries :=
    if key ∈ o.entries.map Prod.fst then
      o.entries.map fun e => if e.1 = key then (key, v) else e
    else o.entries ++ [(key, v)]
  nodup := by
    split
    · have hkeys : (o.entries.map fun e => if e.1 = key then (key, v) else e).map Prod.fst =
          o.entries.map Prod.fst := by
        rw [List.map_map]
        refine List.map_congr_left fun e _ => ?_
        by_cases he : e.1 = key <;> simp [he]
      rw [hkeys]
      exact o.nodup
    · rename_i hkey
      rw [List.map_append, List.map_singleton]
      refine List.nodup_append.2 ⟨o.nodup, List.nodup_singleton _, fun a ha b hb hab => ?_⟩
      rw [hab, List.mem_singleton.1 hb] at ha
      exact hkey ha

theorem mem_set {o : JsObject} {key : String} {v : JsValue} {e : String × JsValue} :
    e ∈ (o.set key v).entries ↔ (e.1 ≠ key ∧ e ∈ o.entries) ∨ e = (key, v) := by
  rw [set]
  dsimp only
  split
  · rename_i hkey
    rw [List.mem_map]
    constructor
    · rintro ⟨a, ha, rfl⟩
      by_cases hak : a.1 = key
      · exact .inr (if_pos hak)
      · rw [if_neg hak]
        exact .inl ⟨hak, ha⟩
    · rintro (⟨hne, he⟩ | rfl)
      · exact ⟨e, he, if_neg hne⟩
      · obtain ⟨a, ha, hak⟩ := List.mem_map.1 hkey
        exact ⟨a, ha, if_pos hak⟩
  · rename_i hkey
    rw [List.mem_append, List.mem_singleton]
    refine or_congr_left (iff_and_self.2 fun he hek => hkey ?_)
    exact hek ▸ List.mem_map_of_mem he

theorem get_set_self (o : JsObject) (key : String) (v : JsValue) : (o.set key v).get key = v :=
  get_of_mem (e := (key, v)) (mem_set.2 (.inr rfl))

end JsObject
