import PhpWasm.Sapi.Context
import Mathlib.Algebra.BigOperators.Group.List.Basic
import Mathlib.Algebra.Ring.Nat
import Mathlib.Data.List.Infix

/-!
# Reading the request body

PHP reads the body of a request in blocks: it calls `wasm_sapi_read_post_body` with a buffer, adds
what the call answers to `SG(read_post_bytes)`, and calls it again.  The callback goes by
`content_length`, which is -1 unless `wasm_set_content_length` was called.

* `postReads` is such a sequence of calls, for any buffer sizes.
* `postBodyRight_iff`: the calls stay inside the buffer and the body, and hand out the body, just
  when the length was set and is a positive `int`.
-/

set_option autoImplicit false

namespace PhpWasm

open Memory

/-! ## The calls -/

/-- A request body.  It lies in an address space of 32 bits. -/
structure RequestBody where
  bytes : CString
  fits : bytes.length < 2 ^ 32

/-- What becomes of `content_length`. -/
inductive ContentLength
  /-- It is left alone. -/
  | default
  /-- It is set to the length of the body. -/
  | ofBody
  deriving DecidableEq

/-- The argument of `wasm_set_content_length`, an `int`, that JavaScript passes a length for. -/
def lengthArg (n : Nat) : Int := (BitVec.ofNat 32 n).toInt

/-- The calls that hand over the body. -/
def bodySetters (body : RequestBody) : ContentLength → List Setter
  | .default => [.setRequestBody body.bytes]
  | .ofBody => [.setRequestBody body.bytes, .setContentLength (lengthArg body.bytes.length)]

/-- The context after these calls. -/
def bodyContext (heap : Heap CString) (body : RequestBody) (set : ContentLength) : Mem :=
  (bodySetters body set).foldl (fun m x => x.apply m) ⟨heap, wasmInitServerContext⟩

/-- One call of `wasm_sapi_read_post_body`. -/
structure PostRead where
  /-- `count_bytes`, the size of the buffer. -/
  countBytes : BitVec 32
  /-- `SG(read_post_bytes)` before the call. -/
  readPostBytes : Nat
  /-- What it answers. -/
  count : Nat
  /-- What it copies into the buffer. -/
  copied : CString
  deriving DecidableEq

/-- One call after the other, with buffers of the given sizes.  The copy is of the bytes that are
there; whether more were asked for is what `PostReadsRight.inside` is about. -/
def postReads (m : Mem) (readPostBytes : Nat) : List (BitVec 32) → Option (List PostRead)
  | [] => some []
  | countBytes :: sizes => do
    let (count, copied) ←
      wasmSapiReadPostBody m.heap.read copyUpTo countBytes.toNat readPostBytes m.context
        m.context.info
    let reads ← postReads m (readPostBytes + count) sizes
    some (⟨countBytes, readPostBytes, count, copied⟩ :: reads)

/-! ## What is asked of them -/

/-- What the calls hand out, one after the other. -/
def received (reads : List PostRead) : CString := reads.flatMap PostRead.copied

/-- **The calls are right.** -/
structure PostReadsRight (body : RequestBody) (set : ContentLength) (reads : List PostRead) :
    Prop where
  /-- No call answers more than its buffer holds. -/
  atMost : ∀ x ∈ reads, x.count ≤ x.countBytes.toNat
  /-- No call copies anything from outside of the body. -/
  inside : ∀ x ∈ reads, x.readPostBytes + x.count ≤ body.bytes.length
  /-- What is handed out is the beginning of the body. -/
  start : received reads <+: body.bytes
  /-- If the length is set, it is the whole body as soon as enough was asked for. -/
  whole : set = .ofBody → body.bytes.length ≤ (reads.map fun x => x.countBytes.toNat).sum →
    received reads = body.bytes
  /-- If the length is set, nothing comes after the whole body. -/
  ended : set = .ofBody → ∀ before x after, reads = before ++ x :: after →
    received before = body.bytes → x.count = 0

/-- **Reading the body is right**, whatever the sizes of the buffers. -/
def PostBodyRight (heap : Heap CString) (body : RequestBody) (set : ContentLength) : Prop :=
  ∀ sizes, ∃ reads, postReads (bodyContext heap body set) 0 sizes = some reads ∧
    PostReadsRight body set reads

/-! ## One call -/

section

variable {heap : Heap CString} {body : RequestBody} {set : ContentLength}

/-- The `content_length` the calls go by. -/
def contentLengthOf (body : RequestBody) : ContentLength → Int
  | .default => -1
  | .ofBody => lengthArg body.bytes.length

/-- One call answers what `postBodyCount` says, and copies it. -/
theorem wasmSapiReadPostBody_bodyContext (countBytes readPostBytes : Nat) :
    wasmSapiReadPostBody (bodyContext heap body set).heap.read copyUpTo countBytes readPostBytes
        (bodyContext heap body set).context (bodyContext heap body set).context.info =
      let n := postBodyCount countBytes readPostBytes (contentLengthOf body set)
      some (n, (body.bytes.drop readPostBytes).take n) := by
  have hread : (bodyContext heap body set).context.str .requestBody =
      some ((⟨heap, wasmInitServerContext⟩ : Mem).strdup body.bytes).1 ∧
      (bodyContext heap body set).heap.read
        ((⟨heap, wasmInitServerContext⟩ : Mem).strdup body.bytes).1 = some body.bytes ∧
      (bodyContext heap body set).context.contentLength = contentLengthOf body set := by
    cases set <;> exact ⟨by simp [bodyContext, bodySetters, Setter.apply, wasmSetRequestBody,
      wasmSetContentLength, Mem.setString], read_strdup_self _ _, rfl⟩
  obtain ⟨hstr, hbody, hlength⟩ := hread
  rw [wasmSapiReadPostBody, hstr]
  dsimp only
  rw [ServerContext.info, hlength, hbody]
  split
  · rfl
  · rename_i hzero
    rw [Nat.eq_zero_of_not_pos hzero, List.take_zero]

/-- Up to the length, a call answers the smaller of the buffer and what is left. -/
theorem postBodyCount_of_le {countBytes readPostBytes length : Nat}
    (hr : readPostBytes ≤ length) (hlength : length < 2 ^ 31) :
    postBodyCount countBytes readPostBytes length = min countBytes (length - readPostBytes) := by
  rw [postBodyCount]
  split <;> omega

/-- A `content_length` that is negative makes a call with an empty buffer answer something. -/
theorem postBodyCount_of_neg {contentLength : Int} (hneg : contentLength < 0)
    (hint : -2 ^ 32 < contentLength) : 0 < postBodyCount 0 0 contentLength := by
  rw [postBodyCount]
  split <;> omega

theorem lengthArg_of_lt {n : Nat} (h : n < 2 ^ 31) : lengthArg n = n := by
  rw [lengthArg, BitVec.toInt_ofNat', Int.bmod_eq_of_le] <;> omega

/-! ## All calls -/

/-- A call when the length is set. -/
def readOf (body : RequestBody) (readPostBytes : Nat) (countBytes : BitVec 32) : PostRead :=
  let n := min countBytes.toNat (body.bytes.length - readPostBytes)
  ⟨countBytes, readPostBytes, n, (body.bytes.drop readPostBytes).take n⟩

theorem length_copied_readOf (body : RequestBody) (r : Nat) (n : BitVec 32) :
    (readOf body r n).copied.length = min n.toNat (body.bytes.length - r) := by
  rw [readOf, List.length_take, List.length_drop]
  omega

/-- A call and what comes after it hand out what a larger call would. -/
theorem copied_readOf_append (body : RequestBody) (r : Nat) (n : BitVec 32) (k : Nat) :
    (readOf body r n).copied ++
        (body.bytes.drop (r + min n.toNat (body.bytes.length - r))).take k =
      (body.bytes.drop r).take (n.toNat + k) := by
  rw [readOf]
  rcases Nat.le_total n.toNat (body.bytes.length - r) with h | h
  · rw [Nat.min_eq_left h, List.take_add, List.drop_drop]
  · have hend : body.bytes.length ≤ r + (body.bytes.length - r) := by omega
    have hlength : (body.bytes.drop r).length ≤ n.toNat + k := by
      rw [List.length_drop]
      omega
    rw [Nat.min_eq_right h, List.drop_eq_nil_of_le hend, List.take_nil, List.append_nil,
      List.take_of_length_le hlength, List.take_of_length_le (by rw [List.length_drop])]

/-- The calls from a place in the body on, when the length is set. -/
structure ReadsFrom (body : RequestBody) (r : Nat) (sizes : List (BitVec 32))
    (reads : List PostRead) : Prop where
  sizes_eq : reads.map PostRead.countBytes = sizes
  received_eq : received reads = (body.bytes.drop r).take (sizes.map BitVec.toNat).sum
  /-- Each call goes on where the one before it stopped. -/
  each : ∀ before x after, reads = before ++ x :: after →
    x = readOf body (r + (received before).length) x.countBytes ∧
      r + (received before).length ≤ body.bytes.length

/-- **The calls one after the other.** -/
theorem readsFrom_postReads (hlength : body.bytes.length < 2 ^ 31) (sizes : List (BitVec 32))
    {r : Nat} (hr : r ≤ body.bytes.length) :
    ∃ reads, postReads (bodyContext heap body .ofBody) r sizes = some reads ∧
      ReadsFrom body r sizes reads := by
  induction sizes generalizing r with
  | nil =>
    exact ⟨[], rfl, rfl, by simp [received], fun before x after h => by simp at h⟩
  | cons n sizes ih =>
    have hcount : postBodyCount n.toNat r (contentLengthOf body .ofBody) =
        min n.toNat (body.bytes.length - r) := by
      rw [contentLengthOf, lengthArg_of_lt hlength, postBodyCount_of_le hr hlength]
    have hle : r + min n.toNat (body.bytes.length - r) ≤ body.bytes.length := by omega
    obtain ⟨reads, hreads, hfrom⟩ := ih hle
    refine ⟨readOf body r n :: reads, ?_, ?_, ?_, ?_⟩
    · rw [postReads, wasmSapiReadPostBody_bodyContext, hcount]
      show (postReads _ (r + min n.toNat (body.bytes.length - r)) sizes >>= fun reads =>
        some (readOf body r n :: reads)) = _
      rw [hreads]
      rfl
    · rw [List.map_cons, hfrom.sizes_eq]
      rfl
    · rw [List.map_cons, List.sum_cons, ← copied_readOf_append, ← hfrom.received_eq]
      rfl
    · intro before x after h
      rcases List.cons_eq_append_iff.1 h with ⟨rfl, hx⟩ | ⟨before', rfl, hbefore⟩
      · obtain ⟨rfl, -⟩ := List.cons.inj hx
        exact ⟨rfl, hr⟩
      · have hlen : r + (received (readOf body r n :: before')).length =
            r + min n.toNat (body.bytes.length - r) + (received before').length := by
          rw [received, List.flatMap_cons, List.length_append, length_copied_readOf, Nat.add_assoc]
          rfl
        rw [hlen]
        exact hfrom.each before' x after hbefore

/-- The calls are right when the length is set and positive. -/
theorem postReadsRight_of_readsFrom {sizes : List (BitVec 32)} {reads : List PostRead}
    (h : ReadsFrom body 0 sizes reads) : PostReadsRight body .ofBody reads := by
  have heach : ∀ x ∈ reads, ∃ r ≤ body.bytes.length, x = readOf body r x.countBytes := by
    intro x hx
    obtain ⟨before, after, hsplit⟩ := List.append_of_mem hx
    obtain ⟨heq, hle⟩ := h.each before x after hsplit
    exact ⟨_, hle, heq⟩
  have hreceived := h.received_eq
  rw [List.drop_zero] at hreceived
  refine ⟨fun x hx => ?_, fun x hx => ?_, ?_, fun _ henough => ?_,
    fun _ before x after hsplit hall => ?_⟩
  · obtain ⟨r, -, heq⟩ := heach x hx
    rw [heq]
    exact Nat.min_le_left _ _
  · obtain ⟨r, hr, heq⟩ := heach x hx
    rw [heq, readOf]
    dsimp only
    omega
  · rw [hreceived]
    exact List.take_prefix _ _
  · rw [hreceived, List.take_of_length_le]
    rw [← h.sizes_eq, List.map_map]
    exact henough
  · obtain ⟨heq, -⟩ := h.each before x after hsplit
    rw [heq, hall, readOf]
    dsimp only
    omega

end

/-- **When reading the body is right.** -/
theorem postBodyRight_iff (heap : Heap CString) (body : RequestBody) (set : ContentLength) :
    PostBodyRight heap body set ↔ set = .ofBody ∧ body.bytes.length < 2 ^ 31 := by
  constructor
  · intro h
    by_contra hbad
    have hneg : contentLengthOf body set < 0 ∧ -2 ^ 32 < contentLengthOf body set := by
      have hfits := body.fits
      cases set with
      | default =>
        rw [contentLengthOf]
        omega
      | ofBody =>
        have hlength : ¬ body.bytes.length < 2 ^ 31 := fun hlt => hbad ⟨rfl, hlt⟩
        rw [contentLengthOf, lengthArg, BitVec.toInt_ofNat', Int.bmod_def]
        split <;> omega
    obtain ⟨reads, hreads, hright⟩ := h [0#32]
    rw [postReads, wasmSapiReadPostBody_bodyContext] at hreads
    obtain rfl := Option.some.inj hreads
    have hcount := hright.atMost _ List.mem_cons_self
    exact absurd hcount (Nat.not_le.2 (postBodyCount_of_neg hneg.1 hneg.2))
  · rintro ⟨rfl, hlength⟩ sizes
    obtain ⟨reads, hreads, hfrom⟩ := readsFrom_postReads hlength sizes (Nat.zero_le _)
    exact ⟨reads, hreads, postReadsRight_of_readsFrom hfrom⟩

/-- Without a length, the first call answers 4294967295, whatever the size of its buffer. -/
theorem default_length_not_right :
    let body : RequestBody := ⟨bytes "a=1", by decide⟩
    (postReads (bodyContext .empty body .default) 0 [16384#32]).map (·.map PostRead.count) =
        some [4294967295] ∧
      ¬ PostBodyRight .empty body .default := by
  refine ⟨by decide, fun h => ?_⟩
  obtain ⟨reads, hreads, hright⟩ := h [16384#32]
  obtain rfl := Option.some.inj hreads
  exact absurd (hright.atMost _ List.mem_cons_self) (by decide)

end PhpWasm
