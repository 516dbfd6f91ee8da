import PhpWasm.Base.Heap
import Mathlib.Algebra.Ring.Int.Defs
import Mathlib.Data.List.Forall2
import Mathlib.Data.Option.Defs
import Mathlib.Logic.Function.Basic

/-!
# The server context

`wasm_server_context` is how JavaScript hands a request to PHP: a struct of C strings, two linked
lists of key–value entries and three numbers, filled in by the `wasm_set_…` and `wasm_add_…`
functions before the request and read back by the SAPI callbacks during it.  This file models the
struct, the setters, `wasm_destroy_server_context`, `SG(request_info)` and the four callbacks.

`ServerContext ρ` is the struct over a type `ρ` of string references, and it is used at two types.

* At `Ptr` it is what the C code has: pointers into a heap of blocks, and the callbacks follow
  them with `Heap.read`, which fails on a freed block.
* At `CString` it is what the C code is *for*: the values themselves.  `Setter.set` says what each
  setter is supposed to make of them, and a callback that cannot fail reads them back.

`Mem.Holds m v` relates the two.  The setters carry it along (`holds_apply`), and under it a
callback that follows the pointers sees exactly the values (`callback_rel`).

The `next` pointers of the two lists are kept as the order of a `List`; reading an entry still
reads its own block, so a freed entry is noticed.
-/

set_option autoImplicit false

namespace PhpWasm

open Memory

/-- A C string, without its terminator. -/
abbrev CString := List UInt8

/-- The bytes of an ASCII literal. -/
def bytes (s : String) : CString := s.toList.map fun c => c.toNat.toUInt8

/-- `strncmp(a, b, n) == 0`. -/
def strncmpEq (a b : CString) (n : Nat) : Bool := a.take n == b.take n

/-! ## The struct -/

/-- The `char *` fields of `wasm_server_context_t`. -/
inductive Field
  | documentRoot | queryString | pathTranslated | requestUri | requestMethod | requestHost
  | contentType | requestBody | cookies
  deriving DecidableEq, Repr

/-- `wasm_array_entry_t`: the block of the entry itself, its key and its value. -/
structure Entry (ρ : Type*) where
  /-- The entry's own block. -/
  cell : ρ
  /-- Its `key`. -/
  key : ρ
  /-- Its `value`. -/
  value : ρ
  deriving DecidableEq

/-- `wasm_server_context_t`, over string references of type `ρ`. -/
structure ServerContext (ρ : Type*) where
  /-- The `char *` fields; `none` is `NULL`. -/
  str : Field → Option ρ
  /-- `server_array_entries`, from the head of the list. -/
  serverArrayEntries : List (Entry ρ)
  /-- `env_array_entries`, from the head of the list. -/
  envArrayEntries : List (Entry ρ)
  /-- `content_length`. -/
  contentLength : Int
  /-- `request_port`. -/
  requestPort : Int
  /-- `skip_shebang`. -/
  skipShebang : Int

/-- `wasm_init_server_context`: every field at its default. -/
def wasmInitServerContext {ρ : Type*} : ServerContext ρ where
  str _ := none
  serverArrayEntries := []
  envArrayEntries := []
  contentLength := -1
  requestPort := -1
  skipShebang := 0

/-- The pointers of `SG(request_info)` that `wasm_sapi_request_init` fills in. -/
inductive InfoField
  | queryString | pathTranslated | requestUri | requestMethod | contentType
  deriving DecidableEq, Repr

/-- The context field an `SG(request_info)` pointer is copied from. -/
def InfoField.source : InfoField → Field
  | .queryString => .queryString
  | .pathTranslated => .pathTranslated
  | .requestUri => .requestUri
  | .requestMethod => .requestMethod
  | .contentType => .contentType

/-- `SG(request_info)`, as far as this SAPI fills it in. -/
structure RequestInfo (ρ : Type*) where
  /-- The string pointers. -/
  str : InfoField → Option ρ
  /-- `content_length`. -/
  contentLength : Int
  /-- `proto_num`. -/
  protoNum : Int

/-- `SG(request_info)` before any request: the globals start zeroed. -/
def RequestInfo.zero {ρ : Type*} : RequestInfo ρ := ⟨fun _ => none, 0, 0⟩

/-- What `wasm_sapi_request_init` copies into `SG(request_info)`. -/
def ServerContext.info {ρ : Type*} (c : ServerContext ρ) : RequestInfo ρ where
  str f := c.str f.source
  contentLength := c.contentLength
  protoNum := 1000

/-! ## The setters -/

/-- A call of one of the functions JavaScript fills the context in with. -/
inductive Setter
  | addServerEntry (key value : CString)
  | addEnvEntry (key value : CString)
  | setQueryString (queryString : CString)
  | setPathTranslated (pathTranslated : CString)
  | setSkipShebang (shouldSkipShebang : Int)
  | setRequestUri (requestUri : CString)
  | setRequestMethod (requestMethod : CString)
  | setRequestHost (requestHost : CString)
  | setContentType (contentType : CString)
  | setRequestBody (requestBody : CString)
  | setContentLength (contentLength : Int)
  | setCookies (cookies : CString)
  | setRequestPort (port : Int)

/-- The heap together with the context in it. -/
structure Mem where
  /-- The blocks. -/
  heap : Heap CString
  /-- `*wasm_server_context`. -/
  context : ServerContext Ptr

namespace Mem

/-- `strdup`, and any other allocation of a block that holds `s`. -/
def strdup (s : CString) (m : Mem) : Ptr × Mem :=
  ((m.heap.alloc s).1, ⟨(m.heap.alloc s).2, m.context⟩)

/-- The shape of the string setters: duplicate the argument and point `field` at the copy.  What
`field` pointed at before is not freed. -/
def setString (field : Field) (s : CString) (m : Mem) : Mem where
  heap := (m.strdup s).2.heap
  context := { m.context with str := Function.update m.context.str field (some (m.strdup s).1) }

/-- The allocations of a list entry: the entry, its key and its value. -/
def newEntry (key value : CString) (m : Mem) : Entry Ptr × Mem :=
  let cell := m.strdup []
  let k := cell.2.strdup key
  let v := k.2.strdup value
  (⟨cell.1, k.1, v.1⟩, v.2)

end Mem

/-- `wasm_set_query_string` -/
def wasmSetQueryString : CString → Mem → Mem := Mem.setString .queryString

/-- `wasm_set_path_translated` -/
def wasmSetPathTranslated : CString → Mem → Mem := Mem.setString .pathTranslated

/-- `wasm_set_request_uri` -/
def wasmSetRequestUri : CString → Mem → Mem := Mem.setString .requestUri

/-- `wasm_set_request_method` -/
def wasmSetRequestMethod : CString → Mem → Mem := Mem.setString .requestMethod

/-- `wasm_set_request_host` -/
def wasmSetRequestHost : CString → Mem → Mem := Mem.setString .requestHost

/-- `wasm_set_content_type` -/
def wasmSetContentType : CString → Mem → Mem := Mem.setString .contentType

/-- `wasm_set_cookies` -/
def wasmSetCookies : CString → Mem → Mem := Mem.setString .cookies

/-- `wasm_set_request_body`.  The C function stores the pointer it is given; the allocation here is
the caller's, who keeps the buffer until the request is over. -/
def wasmSetRequestBody : CString → Mem → Mem := Mem.setString .requestBody

/-- `wasm_set_skip_shebang` -/
def wasmSetSkipShebang (n : Int) (m : Mem) : Mem :=
  { m with context := { m.context with skipShebang := n } }

/-- `wasm_set_content_length` -/
def wasmSetContentLength (n : Int) (m : Mem) : Mem :=
  { m with context := { m.context with contentLength := n } }

/-- `wasm_set_request_port` -/
def wasmSetRequestPort (n : Int) (m : Mem) : Mem :=
  { m with context := { m.context with requestPort := n } }

/-- `wasm_add_SERVER_entry`: prepend the entry, and keep track of the document root. -/
def wasmAddServerEntry (key value : CString) (m : Mem) : Mem :=
  let e := m.newEntry key value
  let m' : Mem := { e.2 with
    context := { e.2.context with serverArrayEntries := e.1 :: e.2.context.serverArrayEntries } }
  if key = bytes "DOCUMENT_ROOT" then m'.setString .documentRoot value else m'

/-- `wasm_add_ENV_entry`: prepend the entry. -/
def wasmAddEnvEntry (key value : CString) (m : Mem) : Mem :=
  let e := m.newEntry key value
  { e.2 with
    context := { e.2.context with envArrayEntries := e.1 :: e.2.context.envArrayEntries } }

/-- What a setter does to the heap and the context. -/
def Setter.apply : Setter → Mem → Mem
  | addServerEntry k v => wasmAddServerEntry k v
  | addEnvEntry k v => wasmAddEnvEntry k v
  | setQueryString s => wasmSetQueryString s
  | setPathTranslated s => wasmSetPathTranslated s
  | setSkipShebang n => wasmSetSkipShebang n
  | setRequestUri s => wasmSetRequestUri s
  | setRequestMethod s => wasmSetRequestMethod s
  | setRequestHost s => wasmSetRequestHost s
  | setContentType s => wasmSetContentType s
  | setRequestBody s => wasmSetRequestBody s
  | setContentLength n => wasmSetContentLength n
  | setCookies s => wasmSetCookies s
  | setRequestPort n => wasmSetRequestPort n

/-- `wasm_destroy_server_context`: every string but the request body is freed, and both lists.
The context itself still holds the pointers afterwards. -/
def wasmDestroyServerContext (m : Mem) : Heap CString :=
  let strings := [Field.documentRoot, .queryString, .pathTranslated, .requestUri, .requestMethod,
    .requestHost, .contentType, .cookies]
  let freeEntry (h : Heap CString) (e : Entry Ptr) := ((h.free e.key).free e.value).free e.cell
  let h := strings.foldl (fun h f => h.freeOpt (m.context.str f)) m.heap
  m.context.envArrayEntries.foldl freeEntry (m.context.serverArrayEntries.foldl freeEntry h)

/-! ## The callbacks

Each callback is written against a way of following a reference, `deref`, and one of copying out of
the block it leads to, `memcpy`, and fails as soon as one of them fails.  At `Heap.read` and
`copyInside` this is the C code; at `some` and `copyUpTo` it reads the values and cannot fail. -/

/-- `memcpy(buffer, body + start, n)`: a range that leaves the block is no access to a live
object. -/
def copyInside (body : CString) (start n : Nat) : Option CString :=
  if start + n ≤ body.length then some ((body.drop start).take n) else none

/-- The copy of the bytes that are there, however many were asked for. -/
def copyUpTo (body : CString) (start n : Nat) : Option CString := some ((body.drop start).take n)

section callbacks

variable {ρ : Type*} (deref : ρ → Option CString) (memcpy : CString → Nat → Nat → Option CString)

/-- Follow a reference that may be null. -/
def derefOpt : Option ρ → Option (Option CString)
  | none => some none
  | some p => (deref p).map some

/-- Read an entry: its block, its key and its value. -/
def readEntry (e : Entry ρ) : Option (CString × CString) := do
  let _ ← deref e.cell
  let key ← deref e.key
  let value ← deref e.value
  some (key, value)

/-- `wasm_sapi_getenv`: the value of the first entry whose key agrees with `name` on its first
`nameLen` bytes.  PHP reads the string it is handed. -/
def wasmSapiGetenv (name : CString) (nameLen : Nat) : List (Entry ρ) → Option (Option CString)
  | [] => some none
  | e :: rest => do
    let _ ← deref e.cell
    let key ← deref e.key
    if strncmpEq key name nameLen then (deref e.value).map some
    else wasmSapiGetenv name nameLen rest

/-- `wasm_sapi_read_cookies` -/
def wasmSapiReadCookies (c : ServerContext ρ) : Option (Option CString) :=
  derefOpt deref (c.str .cookies)

/-- `MIN(count_bytes, SG(request_info).content_length - SG(read_post_bytes))`, which is taken in
64-bit arithmetic and then stored in a 32-bit `size_t`. -/
def postBodyCount (countBytes readPostBytes : Nat) (contentLength : Int) : Nat :=
  let remaining := contentLength - readPostBytes
  if (countBytes : Int) < remaining then countBytes else (remaining % 2 ^ 32).toNat

/-- `wasm_sapi_read_post_body`: how many bytes it answers, and the bytes it copies. -/
def wasmSapiReadPostBody (countBytes readPostBytes : Nat) (c : ServerContext ρ)
    (info : RequestInfo ρ) : Option (Nat × CString) :=
  match c.str .requestBody with
  | none => some (0, [])
  | some p =>
    let n := postBodyCount countBytes readPostBytes info.contentLength
    if 0 < n then do
      let body ← deref p
      let copied ← memcpy body readPostBytes n
      some (n, copied)
    else some (n, [])

/-- The three script variables `wasm_sapi_register_server_variables` derives from the document
root, when the translated path starts with it. -/
def scriptVariables (root path : CString) : Option (List (CString × CString)) :=
  if strncmpEq root path root.length then
    some [(bytes "SCRIPT_NAME", path.drop root.length), (bytes "SCRIPT_FILENAME", path),
      (bytes "PHP_SELF", path.drop root.length)]
  else none

/-- What `wasm_sapi_register_server_variables` does: the variables it registers, oldest first, and
the `headers_only` flag, when it sets it. -/
structure ServerVariables where
  /-- The calls of `php_register_variable`, in order. -/
  registered : List (CString × CString)
  /-- The new value of `SG(request_info).headers_only`. -/
  headersOnly : Option Bool
  deriving DecidableEq

/-- The body of `wasm_sapi_register_server_variables`, once the strings have been read.
`imported` is what `php_import_environment_variables` registers. -/
def serverVariables (imported : List (CString × CString)) (uri : Option CString)
    (script : Option (List (CString × CString))) (query host method : Option CString)
    (protoNum port : Int) (entries : List (CString × CString)) : ServerVariables where
  registered :=
    imported ++
    (uri.toList.map fun v => (bytes "REQUEST_URI", v)) ++
    (script.getD (uri.toList.flatMap fun v =>
      [(bytes "SCRIPT_NAME", v), (bytes "SCRIPT_FILENAME", v), (bytes "PHP_SELF", v)])) ++
    (query.toList.map fun v => (bytes "argv", v)) ++
    [(bytes "SERVER_SOFTWARE", bytes "PHP.wasm")] ++
    (if protoNum ≠ -1 then [(bytes "SERVER_PORT", bytes (toString port))] else []) ++
    (host.toList.flatMap fun v => [(bytes "SERVER_NAME", v), (bytes "HTTP_HOST", v)]) ++
    (method.toList.map fun v => (bytes "REQUEST_METHOD", v)) ++
    (query.toList.map fun v => (bytes "QUERY_STRING", v)) ++
    entries
  headersOnly := method.map fun v => v == bytes "HEAD"

/-- `wasm_sapi_register_server_variables` -/
def wasmSapiRegisterServerVariables (imported : List (CString × CString)) (c : ServerContext ρ)
    (info : RequestInfo ρ) : Option ServerVariables := do
  let uri ← derefOpt deref (info.str .requestUri)
  let script ← match c.str .documentRoot, c.str .pathTranslated with
    | some r, some p => do
      let root ← deref r
      let path ← deref p
      some (scriptVariables root path)
    | _, _ => some none
  let query ← derefOpt deref (info.str .queryString)
  let host ← derefOpt deref (c.str .requestHost)
  let method ← derefOpt deref (info.str .requestMethod)
  let entries ← c.serverArrayEntries.mapM (readEntry deref)
  some (serverVariables imported uri script query host method info.protoNum c.requestPort entries)

end callbacks

/-- What PHP can ask of the SAPI during a request: the four callbacks, and reading one of the
pointers that were copied into `SG(request_info)`. -/
inductive Callback
  | getenv (name : CString) (nameLen : Nat)
  | registerServerVariables (imported : List (CString × CString))
  | readCookies
  | readPostBody (countBytes readPostBytes : Nat)
  | requestInfo (f : InfoField)

/-- What a callback answers. -/
inductive Answer
  | string (s : Option CString)
  | variables (v : ServerVariables)
  | body (count : Nat) (copied : CString)
  deriving DecidableEq

/-- The answer of a callback; `none` when it follows a reference that `deref` rejects or copies a
range that `memcpy` rejects. -/
def callback {ρ : Type*} (deref : ρ → Option CString)
    (memcpy : CString → Nat → Nat → Option CString) (c : ServerContext ρ) (info : RequestInfo ρ) :
    Callback → Option Answer
  | .getenv name nameLen => (wasmSapiGetenv deref name nameLen c.envArrayEntries).map .string
  | .registerServerVariables imported =>
    (wasmSapiRegisterServerVariables deref imported c info).map .variables
  | .readCookies => (wasmSapiReadCookies deref c).map .string
  | .readPostBody n r => (wasmSapiReadPostBody deref memcpy n r c info).map fun a => .body a.1 a.2
  | .requestInfo f => (derefOpt deref (info.str f)).map .string

/-! ## What the setters are for -/

/-- What each setter is supposed to do to the values of the next request. -/
def Setter.set : Setter → ServerContext CString → ServerContext CString
  | addServerEntry k v, c =>
    { c with
      serverArrayEntries := ⟨[], k, v⟩ :: c.serverArrayEntries
      str := if k = bytes "DOCUMENT_ROOT" then Function.update c.str .documentRoot (some v)
        else c.str }
  | addEnvEntry k v, c => { c with envArrayEntries := ⟨[], k, v⟩ :: c.envArrayEntries }
  | setQueryString s, c => { c with str := Function.update c.str .queryString (some s) }
  | setPathTranslated s, c => { c with str := Function.update c.str .pathTranslated (some s) }
  | setSkipShebang n, c => { c with skipShebang := n }
  | setRequestUri s, c => { c with str := Function.update c.str .requestUri (some s) }
  | setRequestMethod s, c => { c with str := Function.update c.str .requestMethod (some s) }
  | setRequestHost s, c => { c with str := Function.update c.str .requestHost (some s) }
  | setContentType s, c => { c with str := Function.update c.str .contentType (some s) }
  | setRequestBody s, c => { c with str := Function.update c.str .requestBody (some s) }
  | setContentLength n, c => { c with contentLength := n }
  | setCookies s, c => { c with str := Function.update c.str .cookies (some s) }
  | setRequestPort n, c => { c with requestPort := n }

/-! ## References that stand for values -/

/-- Two entries whose references are related. -/
structure Entry.Rel {ρ ρ' : Type*} (R : ρ → ρ' → Prop) (e : Entry ρ) (e' : Entry ρ') : Prop where
  cell : R e.cell e'.cell
  key : R e.key e'.key
  value : R e.value e'.value

/-- Two contexts whose references are related and whose numbers agree. -/
structure ServerContext.Rel {ρ ρ' : Type*} (R : ρ → ρ' → Prop) (c : ServerContext ρ)
    (c' : ServerContext ρ') : Prop where
  str : ∀ f, Option.Rel R (c.str f) (c'.str f)
  serverArrayEntries : List.Forall₂ (Entry.Rel R) c.serverArrayEntries c'.serverArrayEntries
  envArrayEntries : List.Forall₂ (Entry.Rel R) c.envArrayEntries c'.envArrayEntries
  contentLength : c.contentLength = c'.contentLength
  requestPort : c.requestPort = c'.requestPort
  skipShebang : c.skipShebang = c'.skipShebang

/-- **The pointers of the context are live and hold the values `v`.** -/
def Mem.Holds (m : Mem) (v : ServerContext CString) : Prop :=
  m.context.Rel (fun p s => m.heap.read p = some s) v

theorem Entry.Rel.mono {ρ ρ' : Type*} {R S : ρ → ρ' → Prop} (hRS : ∀ p q, R p q → S p q)
    {e : Entry ρ} {e' : Entry ρ'} (h : e.Rel R e') : e.Rel S e' :=
  ⟨hRS _ _ h.cell, hRS _ _ h.key, hRS _ _ h.value⟩

theorem optionRel_mono {ρ ρ' : Type*} {R S : ρ → ρ' → Prop} (hRS : ∀ p q, R p q → S p q)
    {o : Option ρ} {o' : Option ρ'} (h : Option.Rel R o o') : Option.Rel S o o' := by
  cases h with
  | some h => exact .some (hRS _ _ h)
  | none => exact .none

theorem optionRel_some {ρ ρ' : Type*} {R : ρ → ρ' → Prop} {p : ρ} {o : Option ρ'}
    (h : Option.Rel R (some p) o) : ∃ q, o = some q ∧ R p q := by
  cases h with
  | some h => exact ⟨_, rfl, h⟩

theorem ServerContext.Rel.mono {ρ ρ' : Type*} {R S : ρ → ρ' → Prop} (hRS : ∀ p q, R p q → S p q)
    {c : ServerContext ρ} {c' : ServerContext ρ'} (h : c.Rel R c') : c.Rel S c' where
  str f := optionRel_mono hRS (h.str f)
  serverArrayEntries := h.serverArrayEntries.imp fun _ _ => Entry.Rel.mono hRS
  envArrayEntries := h.envArrayEntries.imp fun _ _ => Entry.Rel.mono hRS
  contentLength := h.contentLength
  requestPort := h.requestPort
  skipShebang := h.skipShebang

/-- The default context holds the default values, on any heap. -/
theorem holds_init (h : Heap CString) :
    Mem.Holds ⟨h, wasmInitServerContext⟩ wasmInitServerContext :=
  ⟨fun _ => .none, .nil, .nil, rfl, rfl, rfl⟩

/-! ### The setters do what they are for -/

/-- An allocation disturbs nothing that is already in the context. -/
theorem Mem.Holds.strdup {m : Mem} {v : ServerContext CString} (h : m.Holds v) (s : CString) :
    (m.strdup s).2.Holds v :=
  ServerContext.Rel.mono (fun _ _ hp => Heap.read_alloc_of_live hp s) h

@[simp] theorem read_strdup_self (m : Mem) (s : CString) :
    (m.strdup s).2.heap.read (m.strdup s).1 = some s := Heap.read_alloc_self _ _

theorem read_strdup_of_live {m : Mem} {p : Ptr} {b : CString} (hp : m.heap.read p = some b)
    (s : CString) : (m.strdup s).2.heap.read p = some b := Heap.read_alloc_of_live hp s

theorem Mem.Holds.setString {m : Mem} {v : ServerContext CString} (h : m.Holds v) (f : Field)
    (s : CString) :
    (m.setString f s).Holds { v with str := Function.update v.str f (some s) } := by
  have h' := h.strdup s
  refine ⟨fun g => ?_, h'.serverArrayEntries, h'.envArrayEntries, h.contentLength, h.requestPort,
    h.skipShebang⟩
  show Option.Rel _ ((m.setString f s).context.str g) (Function.update v.str f (some s) g)
  by_cases hg : g = f
  · subst hg
    simp [Mem.setString]
  · have hc : (m.setString f s).context.str g = m.context.str g := Function.update_of_ne hg _ _
    have hv : Function.update v.str f (some s) g = v.str g := Function.update_of_ne hg _ _
    rw [hc, hv]
    exact h'.str g

/-- A new entry is live, and making it disturbs nothing. -/
theorem Mem.Holds.newEntry {m : Mem} {v : ServerContext CString} (h : m.Holds v)
    (key value : CString) :
    (m.newEntry key value).2.Holds v ∧ Entry.Rel
      (fun p s => (m.newEntry key value).2.heap.read p = some s) (m.newEntry key value).1
      ⟨[], key, value⟩ := by
  refine ⟨((h.strdup []).strdup key).strdup value, ?_, ?_, read_strdup_self _ _⟩
  · exact read_strdup_of_live (read_strdup_of_live (read_strdup_self _ _) _) _
  · exact read_strdup_of_live (read_strdup_self _ _) _

/-- **The setters do what they are for**: each turns a context that holds `v` into one that holds
the values it is supposed to make of `v`. -/
theorem holds_apply {m : Mem} {v : ServerContext CString} (h : m.Holds v) (s : Setter) :
    (s.apply m).Holds (s.set v) := by
  cases s with
  | addServerEntry k x =>
    obtain ⟨hm, he⟩ := h.newEntry k x
    have hm' : Mem.Holds { (m.newEntry k x).2 with
        context := { (m.newEntry k x).2.context with
          serverArrayEntries :=
            (m.newEntry k x).1 :: (m.newEntry k x).2.context.serverArrayEntries }}
        { v with serverArrayEntries := ⟨[], k, x⟩ :: v.serverArrayEntries } :=
      { hm with serverArrayEntries := .cons he hm.serverArrayEntries }
    rw [Setter.apply, wasmAddServerEntry, Setter.set]
    split
    · exact hm'.setString .documentRoot x
    · exact hm'
  | addEnvEntry k x =>
    obtain ⟨hm, he⟩ := h.newEntry k x
    exact { hm with envArrayEntries := .cons he hm.envArrayEntries }
  | setSkipShebang n => exact { h with skipShebang := rfl }
  | setContentLength n => exact { h with contentLength := rfl }
  | setRequestPort n => exact { h with requestPort := rfl }
  | setQueryString s => exact h.setString _ s
  | setPathTranslated s => exact h.setString _ s
  | setRequestUri s => exact h.setString _ s
  | setRequestMethod s => exact h.setString _ s
  | setRequestHost s => exact h.setString _ s
  | setContentType s => exact h.setString _ s
  | setRequestBody s => exact h.setString _ s
  | setCookies s => exact h.setString _ s

/-! ## What a callback sees

A callback only follows references and compares what it finds, so two contexts whose references
lead to the same strings get the same answers. -/

section relations

variable {ρ ρ' : Type*} {R : ρ → ρ' → Prop} {d : ρ → Option CString} {d' : ρ' → Option CString}
  {memcpy : CString → Nat → Nat → Option CString}

theorem derefOpt_rel (hd : ∀ p q, R p q → d p = d' q) {o : Option ρ} {o' : Option ρ'}
    (h : Option.Rel R o o') : derefOpt d o = derefOpt d' o' := by
  cases h with
  | some h => rw [derefOpt, derefOpt, hd _ _ h]
  | none => rfl

theorem readEntry_rel (hd : ∀ p q, R p q → d p = d' q) {e : Entry ρ} {e' : Entry ρ'}
    (h : e.Rel R e') : readEntry d e = readEntry d' e' := by
  rw [readEntry, readEntry, hd _ _ h.cell, hd _ _ h.key, hd _ _ h.value]

theorem mapM_readEntry_rel (hd : ∀ p q, R p q → d p = d' q) {l : List (Entry ρ)}
    {l' : List (Entry ρ')} (h : List.Forall₂ (Entry.Rel R) l l') :
    l.mapM (readEntry d) = l'.mapM (readEntry d') := by
  induction h with
  | nil => rfl
  | cons he _ ih => rw [List.mapM_cons, List.mapM_cons, ih, readEntry_rel hd he]

theorem wasmSapiGetenv_rel (hd : ∀ p q, R p q → d p = d' q) (name : CString) (n : Nat)
    {l : List (Entry ρ)} {l' : List (Entry ρ')} (h : List.Forall₂ (Entry.Rel R) l l') :
    wasmSapiGetenv d name n l = wasmSapiGetenv d' name n l' := by
  induction h with
  | nil => rfl
  | cons he _ ih =>
    rw [wasmSapiGetenv, wasmSapiGetenv, hd _ _ he.cell, hd _ _ he.key, hd _ _ he.value, ih]

/-- The protocol number is only compared with `-1`. -/
theorem serverVariables_protoNum {p q : Int} (h : p = -1 ↔ q = -1)
    (imported : List (CString × CString)) (uri : Option CString)
    (script : Option (List (CString × CString))) (query host method : Option CString) (port : Int)
    (entries : List (CString × CString)) :
    serverVariables imported uri script query host method p port entries =
      serverVariables imported uri script query host method q port entries := by
  simp only [serverVariables, ne_eq, h]

/-- **Related references, equal answers.** -/
theorem callback_rel (hd : ∀ p q, R p q → d p = d' q) {c : ServerContext ρ}
    {c' : ServerContext ρ'} (h : c.Rel R c') {i : RequestInfo ρ} {i' : RequestInfo ρ'}
    (hi : ∀ f, Option.Rel R (i.str f) (i'.str f)) (hlen : i.contentLength = i'.contentLength)
    (hproto : i.protoNum = -1 ↔ i'.protoNum = -1) (cb : Callback) :
    callback d memcpy c i cb = callback d' memcpy c' i' cb := by
  cases cb with
  | getenv name n => rw [callback, callback, wasmSapiGetenv_rel hd name n h.envArrayEntries]
  | readCookies =>
    rw [callback, callback, wasmSapiReadCookies, wasmSapiReadCookies, derefOpt_rel hd (h.str _)]
  | requestInfo f => rw [callback, callback, derefOpt_rel hd (hi f)]
  | readPostBody n r =>
    have hbody := h.str .requestBody
    rw [callback, callback, wasmSapiReadPostBody, wasmSapiReadPostBody, hlen]
    generalize c.str .requestBody = o at hbody
    generalize c'.str .requestBody = o' at hbody
    cases hbody with
    | none => rfl
    | some hp => simp only [hd _ _ hp]
  | registerServerVariables imported =>
    have hroot := h.str .documentRoot
    have hpath := h.str .pathTranslated
    rw [callback, callback, wasmSapiRegisterServerVariables, wasmSapiRegisterServerVariables,
      derefOpt_rel hd (hi .requestUri), derefOpt_rel hd (hi .queryString),
      derefOpt_rel hd (hi .requestMethod), derefOpt_rel hd (h.str .requestHost),
      mapM_readEntry_rel hd h.serverArrayEntries, h.requestPort]
    simp only [serverVariables_protoNum hproto]
    generalize c.str .documentRoot = o at hroot
    generalize c'.str .documentRoot = o' at hroot
    generalize c.str .pathTranslated = q at hpath
    generalize c'.str .pathTranslated = q' at hpath
    cases hroot with
    | none => rfl
    | some hr =>
      cases hpath with
      | none => rfl
      | some hp => simp only [hd _ _ hr, hd _ _ hp]

end relations

end PhpWasm
