import PhpWasm.Base.Json
import PhpWasm.Base.LittleEndian

/-!
# Messages to JavaScript

`post_message_to_js` hands a string to the handler `onMessage` of the page and waits for what its
promise settles with.  `js_module_onMessage` answers the number of bytes of the response, or -1, and
leaves the address of a block with these bytes where `response_buffer` points to; the caller copies
the block and frees it.

* `storeResponse_newBlock`: a response is left in a new block, unless `malloc` fails.
* `messageRight_iff`: when the message arrives, and PHP gets the response or `NULL`.
-/

set_option autoImplicit false

namespace PhpWasm

open Json (utf8 characters)
open LittleEndian

/-! ## The page -/

/-- A text of JavaScript: its UTF-16 code units. -/
abbrev JsText := List UInt16

/-- `new TextEncoder().encode(text)` -/
def textEncoderEncode (text : JsText) : List UInt8 :=
  utf8 (characters none (text.map fun unit => .unit unit.toNat))

/-- What the promise of a handler resolves to. -/
inductive Reply
  | string (text : JsText)
  | bytes (content : List UInt8)

/-- `responseBytes` -/
def Reply.responseBytes : Reply → List UInt8
  | .string text => textEncoderEncode text
  | .bytes content => content

/-- What `Module['onMessage'](dataStr)` does. -/
inductive Settled
  /-- It returns a promise that resolves. -/
  | resolves (response : Reply)
  /-- It returns a promise that is rejected. -/
  | rejects
  /-- It throws. -/
  | throws
  /-- It returns something without a `then`. -/
  | notPromise

/-- The program around a call. -/
structure Page where
  /-- `Module['onMessage']`, if there is one. -/
  onMessage : Option (List Char → Settled)
  /-- The address that `_malloc` answers, or 0. -/
  malloc : Nat → Nat
  /-- `HEAPU8.length` -/
  heapSize : Nat
  /-- The memory grows to 2 GB at most. -/
  heapSize_le : heapSize ≤ 2 ^ 31

/-- What a call works on. -/
structure CallState where
  /-- `HEAPU8` -/
  memory : ByteMemory
  /-- The blocks that `malloc` handed out: where they start, and their sizes. -/
  blocks : List (Nat × Nat)
  /-- What `onMessage` was called with. -/
  received : List (List Char)
  /-- What `free` was called with. -/
  freed : List Nat

/-- The handler is called. -/
def CallState.hear (s : CallState) (dataStr : List Char) : CallState :=
  { s with received := s.received ++ [dataStr] }

/-! ## The call -/

/-- `(size_t)-1` -/
def sizeMax : Nat := 2 ^ 32 - 1

section Call

-- `UTF8ToString` is Emscripten's.
variable (UTF8ToString : ByteMemory → Nat → List Char) (page : Page)

/-- The callback of `then`.  `HEAPU8.set` throws where the bytes would not fit in the memory. -/
def storeResponse (response_buffer : Nat) (s : CallState) (response : Reply) : Nat × CallState :=
  let responseBytes := response.responseBytes
  let responseSize := responseBytes.length
  let size := (responseSize + 1) % 2 ^ 32
  let responsePtr := page.malloc size
  let s :=
    if responsePtr = 0 then s else { s with blocks := (responsePtr, size) :: s.blocks }
  if responsePtr + responseSize ≤ page.heapSize then
    let memory := storeBytes s.memory responsePtr responseBytes
    let memory := storeBytes memory (responsePtr + responseSize) [0]
    let memory := store memory response_buffer 4 responsePtr
    (responseSize % 2 ^ 32, { s with memory := memory })
  else (sizeMax, s)

/-- `js_module_onMessage`.  There is no result where the promise of the call itself is rejected:
nothing resumes C then. -/
def jsModuleOnMessage (data response_buffer : Nat) (s : CallState) : Option (Nat × CallState) :=
  match page.onMessage with
  | none => some (0, s) -- `undefined`
  | some onMessage =>
    let dataStr := UTF8ToString s.memory data
    match onMessage dataStr with
    | .resolves response => some (storeResponse page response_buffer (s.hear dataStr) response)
    | .rejects => some (sizeMax, s.hear dataStr)
    | .throws | .notPromise => none

/-- `PHP_FUNCTION(post_message_to_js)`, with its variable `response` at `response_buffer`: what it
returns, a string or `NULL`. -/
def postMessageToJs (data response_buffer : Nat) (s : CallState) :
    Option (Option (List UInt8) × CallState) :=
  (jsModuleOnMessage UTF8ToString page data response_buffer s).map fun (response_len, s) =>
    if response_len ≠ sizeMax then
      let response := load s.memory response_buffer 4
      let return_string := loadBytes s.memory response response_len
      (some return_string, { s with freed := response :: s.freed })
    else (none, s)

/-! ## What is right -/

/-- `UTF8ToString` reads a text that ends with a null byte, where there is one: at address 0 it
reads none.  A byte order mark in front counts as a part of the text, which it does not for a
`TextDecoder`, which `UTF8ToString` asks for texts of more than 16 bytes. -/
def ReadsTexts : Prop :=
  ∀ memory ptr text, ptr ≠ 0 → '\x00' ∉ text → ptr + (utf8 text).length < 2 ^ 32 →
    loadBytes memory ptr ((utf8 text).length + 1) = utf8 text ++ [0] →
      UTF8ToString memory ptr = text

/-- What `malloc` hands out lies in the memory, apart from the stack and from the blocks that are in
use. -/
structure Allocates (response_buffer : Nat) (s : CallState) : Prop where
  inHeap : ∀ size, page.malloc size ≠ 0 → page.malloc size + size ≤ page.heapSize
  offStack : ∀ size, page.malloc size ≠ 0 →
    page.malloc size + size ≤ response_buffer ∨ response_buffer + 4 ≤ page.malloc size
  fresh : ∀ size, page.malloc size ≠ 0 → ∀ b ∈ s.blocks,
    page.malloc size + size ≤ b.1 ∨ b.1 + b.2 ≤ page.malloc size

/-- The message and a null byte are in the memory, as PHP has them. -/
structure HasMessage (message : List Char) (data : Nat) (s : CallState) : Prop where
  ne_null : data ≠ 0
  inHeap : data + (utf8 message).length < page.heapSize
  bytes : loadBytes s.memory data ((utf8 message).length + 1) = utf8 message ++ [0]

/-- There is a new block with `n` bytes, and `response_buffer` points to its address. -/
structure NewBlock (n response_buffer : Nat) (s s' : CallState) (ptr : Nat) : Prop where
  stored : load s'.memory response_buffer 4 = ptr
  allocated : s'.blocks = (ptr, n + 1) :: s.blocks
  inHeap : ptr ≠ 0 ∧ ptr + (n + 1) ≤ page.heapSize
  fresh : ∀ b ∈ s.blocks, ptr + (n + 1) ≤ b.1 ∨ b.1 + b.2 ≤ ptr

/-- What a call leaves, for the answer `n` of `js_module_onMessage` and the memory then. -/
structure Served (message : List Char) (response_buffer : Nat) (s : CallState) (n : Nat)
    (s₁ : CallState) (value : Option (List UInt8)) (s' : CallState) : Prop where
  /-- The handler gets the message, and nothing else. -/
  received : page.onMessage.isSome → s'.received = s.received ++ [message]
  /-- PHP gets the response or `NULL`. -/
  returns : value = none ∨ ∃ onMessage response, page.onMessage = some onMessage ∧
    onMessage message = .resolves response ∧ value = some response.responseBytes
  /-- The answer is -1, or there is a new block and it is freed. -/
  block : n = sizeMax ∧ s'.freed = s.freed ∨
    ∃ ptr, NewBlock page n response_buffer s s₁ ptr ∧ s'.freed = ptr :: s.freed

/-- PHP goes on after the call, and the call did what it should. -/
def MessageRight (message : List Char) (data response_buffer : Nat) (s : CallState) : Prop :=
  ∃ n s₁ value s',
    jsModuleOnMessage UTF8ToString page data response_buffer s = some (n, s₁) ∧
    postMessageToJs UTF8ToString page data response_buffer s = some (value, s') ∧
    Served page message response_buffer s n s₁ value s'

/-- **When a call comes out right.**  There is a handler, the message has no null byte, and the
handler returns a promise; where it resolves to something that the memory has room for, `malloc`
does not fail. -/
def MessageFits (message : List Char) : Prop :=
  '\x00' ∉ message ∧ ∃ onMessage, page.onMessage = some onMessage ∧
    match onMessage message with
    | .resolves response =>
      page.malloc ((response.responseBytes.length + 1) % 2 ^ 32) = 0 →
        page.heapSize < response.responseBytes.length
    | .rejects => True
    | .throws | .notPromise => False

/-! ## One call -/

variable {UTF8ToString page} {message : List Char} {data response_buffer : Nat} {s : CallState}

theorem HasMessage.lt (h : HasMessage page message data s) :
    data + (utf8 message).length < 2 ^ 32 := by
  have := page.heapSize_le
  have := h.inHeap
  omega

theorem dataStr_eq (hread : ReadsTexts UTF8ToString)
    (hdata : HasMessage page message data s)
    (hnul : '\x00' ∉ message) : UTF8ToString s.memory data = message :=
  hread _ _ _ hdata.ne_null hnul hdata.lt hdata.bytes

/-- The handler does not get what is behind a null byte. -/
theorem dataStr_ne (hread : ReadsTexts UTF8ToString)
    (hdata : HasMessage page message data s)
    (hnul : '\x00' ∈ message) : UTF8ToString s.memory data ≠ message := by
  obtain ⟨start, rest, rfl, hstart⟩ := List.eq_append_cons_of_mem hnul
  have hbytes : utf8 (start ++ '\x00' :: rest) = utf8 start ++ [0] ++ utf8 rest := by
    rw [Json.utf8_append, Json.utf8_cons, List.append_assoc]
    rfl
  have hlength : (utf8 (start ++ '\x00' :: rest)).length + 1 =
      (utf8 start).length + 1 + ((utf8 rest).length + 1) := by
    simp only [hbytes, List.length_append, List.length_singleton]
    omega
  have hloaded := hdata.bytes
  rw [hlength, loadBytes_append, hbytes, List.append_assoc] at hloaded
  have hlt := hdata.lt
  rw [hread _ _ _ hdata.ne_null hstart (by omega) (List.append_inj hloaded (by simp [length_loadBytes])).1]
  intro heq
  have := congrArg List.length heq
  simp at this

/-- A response that there is no room for is answered with -1. -/
theorem storeResponse_of_lt {response : Reply}
    (h : page.heapSize < page.malloc ((response.responseBytes.length + 1) % 2 ^ 32) +
      response.responseBytes.length) :
    (storeResponse page response_buffer s response).1 = sizeMax := by
  rw [storeResponse]
  simp only [if_neg (Nat.not_le_of_lt h)]

theorem freed_storeResponse (response : Reply) :
    (storeResponse page response_buffer s response).2.freed = s.freed := by
  simp only [storeResponse]
  split <;> split <;> rfl

theorem received_storeResponse (response : Reply) :
    (storeResponse page response_buffer s response).2.received = s.received := by
  simp only [storeResponse]
  split <;> split <;> rfl

/-- **A response is left in a new block.** -/
theorem storeResponse_newBlock (halloc : Allocates page response_buffer s) {response : Reply}
    (hptr : page.malloc ((response.responseBytes.length + 1) % 2 ^ 32) ≠ 0)
    (hroom : page.malloc ((response.responseBytes.length + 1) % 2 ^ 32) +
      response.responseBytes.length ≤ page.heapSize) :
    ∃ s₁, storeResponse page response_buffer s response =
        (response.responseBytes.length, s₁) ∧
      NewBlock page response.responseBytes.length response_buffer s s₁
        (page.malloc ((response.responseBytes.length + 1) % 2 ^ 32)) ∧
      loadBytes s₁.memory (page.malloc ((response.responseBytes.length + 1) % 2 ^ 32))
        response.responseBytes.length = response.responseBytes := by
  have hheap := page.heapSize_le
  have hsize : (response.responseBytes.length + 1) % 2 ^ 32 = response.responseBytes.length + 1 :=
    Nat.mod_eq_of_lt (by omega)
  have hcount : response.responseBytes.length % 2 ^ 32 = response.responseBytes.length :=
    Nat.mod_eq_of_lt (by omega)
  rw [hsize] at hptr hroom ⊢
  set ptr := page.malloc (response.responseBytes.length + 1) with hptr_eq
  have hin := halloc.inHeap _ hptr
  have hoff := halloc.offStack _ hptr
  rw [← hptr_eq] at hin hoff
  let s₁ : CallState :=
    { s with
      blocks := (ptr, response.responseBytes.length + 1) :: s.blocks
      memory := store (storeBytes (storeBytes s.memory ptr response.responseBytes)
        (ptr + response.responseBytes.length) [0]) response_buffer 4 ptr }
  refine ⟨s₁, ?_, ⟨?_, rfl, ⟨hptr, hin⟩, fun b hb => halloc.fresh _ hptr b hb⟩, ?_⟩
  · simp only [storeResponse, hsize, hcount, ← hptr_eq, if_neg hptr, if_pos hroom]
    rfl
  · rw [load_store_self, Nat.mod_eq_of_lt (by omega)]
  · calc
      _ = loadBytes (storeBytes s.memory ptr response.responseBytes) ptr
          response.responseBytes.length := by
        refine loadBytes_congr fun x hx hlt => ?_
        dsimp only [s₁]
        rw [store_of_outside (by omega), storeBytes_of_outside (by simp; omega)]
      _ = response.responseBytes := loadBytes_storeBytes _ _ _

/-- Where `malloc` fails, the response is written over what is at the start of the memory. -/
theorem storeResponse_of_null {response : Reply}
    (hptr : page.malloc ((response.responseBytes.length + 1) % 2 ^ 32) = 0)
    (hroom : response.responseBytes.length ≤ page.heapSize) :
    (storeResponse page response_buffer s response).1 = response.responseBytes.length ∧
      (storeResponse page response_buffer s response).2.blocks = s.blocks := by
  have hheap := page.heapSize_le
  have hcount : response.responseBytes.length % 2 ^ 32 = response.responseBytes.length :=
    Nat.mod_eq_of_lt (by omega)
  simp only [storeResponse, hptr, Nat.zero_add, if_pos hroom, hcount, if_true, and_self]

theorem length_ne_sizeMax {n : Nat} (h : n ≤ page.heapSize) : n ≠ sizeMax := by
  have hheap := page.heapSize_le
  rw [sizeMax]
  omega

theorem not_newBlock {n : Nat} {s₁ : CallState} (h : s₁.blocks = s.blocks) (ptr : Nat) :
    ¬ NewBlock page n response_buffer s s₁ ptr := by
  intro hnew
  have := congrArg List.length (hnew.allocated.symm.trans h)
  simp at this

/-! ## Null bytes -/

/-- The text in the memory up to a null byte. -/
def decodeCString (memory : ByteMemory) (ptr : Nat) : List Char :=
  let bytes := (loadBytes memory ptr (2 ^ 32 - ptr)).takeWhile fun b => b ≠ 0
  ((bytes.toByteArray.utf8Decode?).map Array.toList).getD []

theorem zero_notMem_utf8 {text : List Char} (h : '\x00' ∉ text) : 0 ∉ utf8 text := by
  intro hmem
  obtain ⟨c, hc, hb⟩ := List.mem_flatMap.1 hmem
  by_cases hascii : c.toNat < 0x80
  · rw [Json.utf8EncodeChar_ascii hascii, List.mem_singleton] at hb
    have hzero : c.toNat = 0 := by
      have := congrArg UInt8.toNat hb
      simp at this
      omega
    obtain rfl : c = '\x00' := Char.ext (UInt32.toNat_inj.1 hzero)
    exact h hc
  · have := Json.le_of_mem_utf8EncodeChar (Nat.le_of_not_lt hascii) hb
    exact absurd this (by decide)

theorem readsTexts_decodeCString : ReadsTexts decodeCString := by
  intro memory ptr text _ hnul hlt hbytes
  have hlength : 2 ^ 32 - ptr =
      (utf8 text).length + 1 + (2 ^ 32 - ptr - ((utf8 text).length + 1)) := by
    omega
  have hstart : ∀ b ∈ utf8 text, b ≠ 0 := by
    rintro b hb rfl
    exact zero_notMem_utf8 hnul hb
  have htake : (loadBytes memory ptr (2 ^ 32 - ptr)).takeWhile (fun b => b ≠ 0) = utf8 text := by
    rw [hlength, loadBytes_append, hbytes, List.append_assoc,
      List.takeWhile_append_of_pos (by simpa using hstart)]
    simp
  have hdecode : (utf8 text).toByteArray.utf8Decode? = some text.toArray :=
    List.utf8Decode?_utf8Encode
  rw [decodeCString, htake, hdecode]
  rfl

/-! ## The result -/

/-- What `post_message_to_js` does with the answer of `js_module_onMessage`. -/
theorem postMessageToJs_eq {n : Nat} {s₁ : CallState}
    (h : jsModuleOnMessage UTF8ToString page data response_buffer s = some (n, s₁)) :
    postMessageToJs UTF8ToString page data response_buffer s =
      some (if n ≠ sizeMax then
        (some (loadBytes s₁.memory (load s₁.memory response_buffer 4) n),
          { s₁ with freed := load s₁.memory response_buffer 4 :: s₁.freed })
      else (none, s₁)) := by
  rw [postMessageToJs, h, Option.map_some]

/-- The handler is called once. -/
theorem received_jsModuleOnMessage {onMessage : List Char → Settled}
    (hmodule : page.onMessage = some onMessage) {n : Nat} {s₁ : CallState}
    (h : jsModuleOnMessage UTF8ToString page data response_buffer s = some (n, s₁)) :
    s₁.received = s.received ++ [UTF8ToString s.memory data] := by
  simp only [jsModuleOnMessage, hmodule] at h
  split at h
  · rename_i response _
    have hafter := @received_storeResponse page response_buffer
      (s.hear (UTF8ToString s.memory data)) response
    rwa [Option.some.inj h] at hafter
  · obtain ⟨-, rfl⟩ := Prod.mk.inj (Option.some.inj h)
    rfl
  · cases h
  · cases h

theorem received_postMessageToJs {n : Nat} {s₁ s' : CallState} {value : Option (List UInt8)}
    (h : jsModuleOnMessage UTF8ToString page data response_buffer s = some (n, s₁))
    (h' : postMessageToJs UTF8ToString page data response_buffer s = some (value, s')) :
    s'.received = s₁.received := by
  rw [postMessageToJs_eq h, Option.some_inj] at h'
  split at h'
  · obtain ⟨-, rfl⟩ := Prod.mk.inj h'
    rfl
  · obtain ⟨-, rfl⟩ := Prod.mk.inj h'
    rfl

/-- -1 becomes `NULL`, and nothing is freed. -/
theorem served_sizeMax {onMessage : List Char → Settled} (hmodule : page.onMessage = some onMessage)
    {s₁ : CallState} (hstr : UTF8ToString s.memory data = message) (hfreed : s₁.freed = s.freed)
    (h : jsModuleOnMessage UTF8ToString page data response_buffer s = some (sizeMax, s₁)) :
    MessageRight UTF8ToString page message data response_buffer s := by
  refine ⟨sizeMax, s₁, none, s₁, h, ?_, ?_, .inl rfl, .inl ⟨rfl, hfreed⟩⟩
  · rw [postMessageToJs_eq h, if_neg (not_not_intro rfl)]
  · rw [← hstr]
    exact fun _ => received_jsModuleOnMessage hmodule h

theorem MessageRight.fits (hread : ReadsTexts UTF8ToString)
    (hdata : HasMessage page message data s)
    (h : MessageRight UTF8ToString page message data response_buffer s) :
    MessageFits page message := by
  obtain ⟨n, s₁, value, s', hjs, hphp, hserved⟩ := h
  cases hmodule : page.onMessage with
  | none =>
    rw [jsModuleOnMessage, hmodule] at hjs
    obtain ⟨rfl, rfl⟩ := Prod.mk.inj (Option.some.inj hjs)
    rcases hserved.block with ⟨h, -⟩ | ⟨ptr, hnew, -⟩
    · exact absurd h (by decide)
    · exact absurd hnew (not_newBlock rfl ptr)
  | some onMessage =>
    have hstr : UTF8ToString s.memory data = message := by
      have hreceived := hserved.received (by rw [hmodule]; rfl)
      rw [received_postMessageToJs hjs hphp, received_jsModuleOnMessage hmodule hjs] at hreceived
      exact (List.append_cancel_left hreceived |> List.cons.inj).1
    have hnul : '\x00' ∉ message := fun hmem => dataStr_ne hread hdata hmem hstr
    refine ⟨hnul, onMessage, hmodule, ?_⟩
    simp only [jsModuleOnMessage, hmodule, hstr] at hjs
    cases hanswer : onMessage message with
    | resolves response =>
      rw [hanswer] at hjs
      intro hptr
      by_contra hroom
      obtain ⟨hcount, hblocks⟩ := @storeResponse_of_null page response_buffer (s.hear message)
        response hptr (Nat.le_of_not_lt hroom)
      rw [Option.some.inj hjs] at hcount hblocks
      rcases hserved.block with ⟨h, -⟩ | ⟨ptr, hnew, -⟩
      · exact length_ne_sizeMax (Nat.le_of_not_lt hroom) (hcount.symm.trans h)
      · exact @not_newBlock page response_buffer s n s₁ hblocks ptr hnew
    | rejects => trivial
    | throws => rw [hanswer] at hjs; cases hjs
    | notPromise => rw [hanswer] at hjs; cases hjs

theorem MessageFits.right (hread : ReadsTexts UTF8ToString)
    (hdata : HasMessage page message data s)
    (halloc : Allocates page response_buffer s) (h : MessageFits page message) :
    MessageRight UTF8ToString page message data response_buffer s := by
  obtain ⟨hnul, onMessage, hmodule, hanswer⟩ := h
  have hstr := dataStr_eq hread hdata hnul
  have hjs : jsModuleOnMessage UTF8ToString page data response_buffer s =
      match onMessage message with
      | .resolves response => some (storeResponse page response_buffer (s.hear message) response)
      | .rejects => some (sizeMax, s.hear message)
      | .throws | .notPromise => none := by
    simp only [jsModuleOnMessage, hmodule, hstr]
  cases hcase : onMessage message with
  | resolves response =>
    rw [hcase] at hjs hanswer
    dsimp only at hjs hanswer
    by_cases hroom : page.malloc ((response.responseBytes.length + 1) % 2 ^ 32) +
        response.responseBytes.length ≤ page.heapSize
    · have hptr : page.malloc ((response.responseBytes.length + 1) % 2 ^ 32) ≠ 0 := by
        intro hptr
        have := hanswer hptr
        omega
      have halloc' : Allocates page response_buffer (s.hear message) :=
        ⟨halloc.inHeap, halloc.offStack, halloc.fresh⟩
      obtain ⟨s₁, hstore, hnew, hbytes⟩ := storeResponse_newBlock halloc' hptr hroom
      have hfreed := @freed_storeResponse page response_buffer (s.hear message) response
      rw [hstore] at hfreed
      have hjs' : jsModuleOnMessage UTF8ToString page data response_buffer s =
          some (response.responseBytes.length, s₁) := by rw [hjs, hstore]
      have hne : response.responseBytes.length ≠ sizeMax :=
        @length_ne_sizeMax page _ (by omega)
      refine ⟨_, s₁, some response.responseBytes,
        { s₁ with freed := load s₁.memory response_buffer 4 :: s₁.freed }, hjs', ?_, ?_, ?_, ?_⟩
      · rw [postMessageToJs_eq hjs', if_pos hne, hnew.stored, hbytes]
      · rw [← hstr]
        exact fun _ => (received_jsModuleOnMessage hmodule hjs' :)
      · exact .inr ⟨onMessage, response, hmodule, hcase, rfl⟩
      · refine .inr ⟨_, ⟨hnew.stored, hnew.allocated, hnew.inHeap, hnew.fresh⟩, ?_⟩
        rw [hnew.stored, hfreed]
        rfl
    · have hstore := @storeResponse_of_lt page response_buffer (s.hear message) response
        (Nat.lt_of_not_le hroom)
      have hfreed := @freed_storeResponse page response_buffer (s.hear message) response
      refine served_sizeMax hmodule hstr hfreed ?_
      rw [hjs, ← hstore]
  | rejects =>
    rw [hcase] at hjs
    have hfreed : (s.hear message).freed = s.freed := rfl
    exact served_sizeMax hmodule hstr hfreed hjs
  | throws => rw [hcase] at hanswer; exact hanswer.elim
  | notPromise => rw [hcase] at hanswer; exact hanswer.elim

/-- **When a message arrives, and PHP gets the response or `NULL`.** -/
theorem messageRight_iff (hread : ReadsTexts UTF8ToString) (message : List Char)
    (data response_buffer : Nat) (s : CallState)
    (hdata : HasMessage page message data s)
    (halloc : Allocates page response_buffer s) :
    MessageRight UTF8ToString page message data response_buffer s ↔ MessageFits page message :=
  ⟨fun h => h.fits hread hdata, fun h => h.right hread hdata halloc⟩

end Call

/-- A page whose handler, if there is one, answers with a text of one letter. -/
def examplePage (hasHandler : Bool) : Page where
  onMessage := if hasHandler then some fun _ => .resolves (.string [112]) else none
  malloc size := if size ≤ 16 then 1024 else 0
  heapSize := 2 ^ 16
  heapSize_le := by decide

/-- A call with the message `ping` at the address 64. -/
def exampleCall : CallState where
  memory := storeBytes (fun _ => 0) 64 (utf8 "ping".toList ++ [0])
  blocks := []
  received := []
  freed := []

theorem exampleCall_hasMessage (hasHandler : Bool) :
    HasMessage (examplePage hasHandler) "ping".toList 64 exampleCall :=
  ⟨by decide, by cases hasHandler <;> decide, by decide⟩

theorem examplePage_allocates (hasHandler : Bool) :
    Allocates (examplePage hasHandler) 32 exampleCall := by
  have hmalloc : ∀ size, (examplePage hasHandler).malloc size ≠ 0 →
      (examplePage hasHandler).malloc size = 1024 ∧ size ≤ 16 := by
    intro size h
    rw [examplePage] at h ⊢
    dsimp only at h ⊢
    split at h
    · exact ⟨by rw [if_pos ‹_›], ‹_›⟩
    · exact absurd rfl h
  have hheap : (examplePage hasHandler).heapSize = 2 ^ 16 := rfl
  refine ⟨fun size h => ?_, fun size h => ?_, fun size h b hb => absurd hb List.not_mem_nil⟩
  · have := hmalloc size h
    omega
  · have := hmalloc size h
    omega

/-- A call on a page with a handler. -/
theorem messageRight_iff_example :
    MessageRight decodeCString (examplePage true) "ping".toList 64 32 exampleCall ↔
      MessageFits (examplePage true) "ping".toList :=
  messageRight_iff readsTexts_decodeCString "ping".toList 64 32 exampleCall
    (exampleCall_hasMessage true) (examplePage_allocates true)

/-- Without a handler, the pointer that PHP copies from and frees was never set. -/
theorem no_handler_not_right :
    ¬ MessageRight decodeCString (examplePage false) "ping".toList 64 32 exampleCall := by
  intro h
  obtain ⟨-, onMessage, hmodule, -⟩ := h.fits readsTexts_decodeCString
    (exampleCall_hasMessage false)
  cases hmodule

end PhpWasm
