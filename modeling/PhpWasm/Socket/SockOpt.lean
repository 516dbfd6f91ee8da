import Mathlib.Algebra.Ring.Int.Defs
import PhpWasm.Base.LittleEndian
import PhpWasm.Socket.Connect
import PhpWasm.Socket.Options

/-!
# `setsockopt` and `getsockopt`

All socket options go through `js_setsockopt` and `__syscall_getsockopt`.  The timeouts are kept in
milliseconds, the options of the proxy are sent and kept (`PhpWasm.Socket.Options`), and `SO_ERROR`
is a property of the socket that reading clears.  Values are passed in memory.

* `sockoptRight_iff`: a call that fails changes nothing, and one that succeeds changes what it
  should, except that `SO_ERROR` is cleared before it is known whether it can be returned.
* `timeoutsRight`: a timeout is read back as it was set, in whole milliseconds.
-/

set_option autoImplicit false

namespace PhpWasm.Socket

open Assignments LittleEndian

/-! ## The state -/

/-- `SO_TYPE` -/
def soType : Int := 3
/-- `SO_ERROR` -/
def soError : Int := 4
/-- `ENOTSOCK` -/
def enotsock : Nat := 57

/-- An object in `socketTimeouts`: milliseconds, where they were set. -/
structure SocketTimeouts where
  receive : Option Nat
  send : Option Nat
  deriving DecidableEq

/-- The sockets, and what they are reached by. -/
structure SockState where
  /-- `FS.getStream`, and the socket of the stream's node, if it has one. -/
  streams : Int → Option (Option Nat)
  /-- Types, options of the proxy, WebSockets and what was sent to them. -/
  net : Net
  /-- `sock.error` -/
  errors : Nat → Option (BitVec 32)
  /-- `socketTimeouts` -/
  timeouts : Nat → Option SocketTimeouts
  memory : ByteMemory

/-- `HEAP32[ptr >> 2]` -/
def heap32 (m : ByteMemory) (ptr : Nat) : Int := loadInt m (ptr / 4 * 4) 4

/-- `HEAP64[ptr >> 3]` -/
def heap64 (m : ByteMemory) (ptr : Nat) : Int := loadInt m (ptr / 8 * 8) 8

/-- `HEAP32[ptr >> 2] = value` -/
def setHeap32 (m : ByteMemory) (ptr : Nat) (value : Int) : ByteMemory :=
  storeInt m (ptr / 4 * 4) 4 value

/-- `HEAP64[ptr >> 3] = value` -/
def setHeap64 (m : ByteMemory) (ptr : Nat) (value : Int) : ByteMemory :=
  storeInt m (ptr / 8 * 8) 8 value

/-! ## The code -/

/-- `parseSocketTimeout`.  Numbers are exact, as they are in JavaScript up to `2 ^ 53`. -/
def parseSocketTimeout (m : ByteMemory) (optionValuePtr : Nat) (optionLen : Int) : Option Nat :=
  if optionValuePtr = 0 ∨ optionLen < 8 then none
  else
    let (seconds, microseconds) :=
      if 16 ≤ optionLen then (heap64 m optionValuePtr, heap64 m (optionValuePtr + 8))
      else (heap32 m optionValuePtr, heap32 m (optionValuePtr + 4))
    if seconds < 0 ∨ microseconds < 0 then none
    else
      -- `Math.ceil` of a thousandth
      some (seconds.toNat * 1000 + (microseconds.toNat + 999) / 1000)

/-- What the pointer and the length of a value say. -/
def optionValue (m : ByteMemory) (optionValuePtr : Nat) (optionLen : Int) : OptionValue where
  null := optionValuePtr = 0
  len := optionLen
  int := heap32 m optionValuePtr
  byte := (m optionValuePtr).toNat
  timeout := parseSocketTimeout m optionValuePtr optionLen

namespace SockState

/-- The new value of one of the timeouts. -/
def setTimeout (s : SockState) (sock : Nat) (optionName : Int) (timeoutMs : Nat) : SockState :=
  let timeouts := (s.timeouts sock).getD ⟨none, none⟩
  let timeouts :=
    if optionName = soRcvtimeo then { timeouts with receive := some timeoutMs }
    else { timeouts with send := some timeoutMs }
  { s with timeouts := Function.update s.timeouts sock (some timeouts) }

/-- `js_setsockopt` -/
def jsSetsockopt (s : SockState) (fd level optionName : Int) (optionValuePtr : Nat)
    (optionLen : Int) : Int × SockState :=
  match s.streams fd with
  | none => (-ebadf, s)
  | some none => (-enotsock, s)
  | some (some sock) =>
    if level = solSocket ∧ (optionName = soRcvtimeo ∨ optionName = soSndtimeo) then
      match parseSocketTimeout s.memory optionValuePtr optionLen with
      | none => (-einval, s)
      | some timeoutMs => (0, s.setTimeout sock optionName timeoutMs)
    else
      let (ret, net) := Socket.jsSetsockopt s.net sock (level, optionName)
        (optionValue s.memory optionValuePtr optionLen)
      (ret, { s with net := net })

/-- The local function `writeInt` of `__syscall_getsockopt`. -/
def writeInt (s : SockState) (optionValuePtr optionLenPtr : Nat) (value : Int) : Int × SockState :=
  if heap32 s.memory optionLenPtr < 4 then (-einval, s)
  else
    (0, { s with memory := setHeap32 (setHeap32 s.memory optionValuePtr value) optionLenPtr 4 })

/-- `__syscall_getsockopt` -/
def syscallGetsockopt (s : SockState) (fd level optionName : Int)
    (optionValuePtr optionLenPtr : Nat) : Int × SockState :=
  match s.streams fd with
  | none => (-ebadf, s)
  | some none => (-enotsock, s)
  | some (some sock) =>
    if level = solSocket ∧ optionName = soError then
      let error := ((s.errors sock).getD 0).toInt
      let s := { s with errors := Function.update s.errors sock none }
      s.writeInt optionValuePtr optionLenPtr error
    else if level = solSocket ∧ optionName = soType then
      s.writeInt optionValuePtr optionLenPtr (s.net.socks sock).type
    else if level = solSocket ∧ (optionName = soRcvtimeo ∨ optionName = soSndtimeo) then
      if heap32 s.memory optionLenPtr < 16 then (-einval, s)
      else
        let timeouts := (s.timeouts sock).getD ⟨none, none⟩
        let ms := (if optionName = soRcvtimeo then timeouts.receive else timeouts.send).getD 0
        let memory := setHeap64 s.memory optionValuePtr (ms / 1000 : Nat)
        let memory := setHeap64 memory (optionValuePtr + 8) (ms % 1000 * 1000 : Nat)
        (0, { s with memory := setHeap32 memory optionLenPtr 16 })
    else if isProxiedSocketOption (s.net.socks sock).type (level, optionName) then
      s.writeInt optionValuePtr optionLenPtr
        ((first (level, optionName) (s.net.socks sock).options).getD 0 : Nat)
    else (-enoprotoopt, s)

end SockState

/-! ## What is asked of a call -/

/-- The arguments of `setsockopt`. -/
structure SetCall where
  fd : Int
  level : Int
  optionName : Int
  optionValuePtr : Nat
  optionLen : Int

/-- The arguments of `getsockopt`, of which two point into the memory: to a buffer for the value,
and to its length. -/
structure GetCall (m : ByteMemory) where
  fd : Int
  level : Int
  optionName : Int
  optionValuePtr : Nat
  optionLenPtr : Nat
  aligned : 4 ∣ optionValuePtr ∧ 4 ∣ optionLenPtr
  /-- A `struct timeval` has 64-bit fields. -/
  alignedTimeval : isTimeout (level, optionName) = true → 8 ∣ optionValuePtr
  /-- The length is not part of the buffer. -/
  apart : optionLenPtr + 4 ≤ optionValuePtr ∨
    (optionValuePtr : Int) + heap32 m optionLenPtr ≤ optionLenPtr

/-- One of the two calls. -/
inductive SockoptCall (m : ByteMemory)
  | set (c : SetCall)
  | get (c : GetCall m)

/-- The bytes a `getsockopt` may write: the buffer and its length. -/
def GetCall.Output {m : ByteMemory} (c : GetCall m) (a : Nat) : Prop :=
  (c.optionValuePtr ≤ a ∧ (a : Int) < c.optionValuePtr + heap32 m c.optionLenPtr) ∨
    (c.optionLenPtr ≤ a ∧ a < c.optionLenPtr + 4)

/-- It is about `SO_ERROR`. -/
def GetCall.IsSoError {m : ByteMemory} (c : GetCall m) : Prop :=
  c.level = solSocket ∧ c.optionName = soError

/-- A `getsockopt` that ends with the result `r.1` in the state `r.2` is right. -/
structure GetRight (s : SockState) (c : GetCall s.memory) (r : Int × SockState) : Prop where
  /-- One that fails changes nothing. -/
  failed : r.1 < 0 → r.2 = s
  /-- One that succeeds only writes its output. -/
  frame : r.1 = 0 → r.2.streams = s.streams ∧ r.2.net = s.net ∧ r.2.timeouts = s.timeouts ∧
    ∀ a, ¬ c.Output a → r.2.memory a = s.memory a
  errors : r.1 = 0 → ¬ c.IsSoError → r.2.errors = s.errors
  /-- `SO_ERROR` is returned and cleared. -/
  soError : r.1 = 0 → c.IsSoError → ∃ sock, s.streams c.fd = some (some sock) ∧
    r.2.errors = Function.update s.errors sock none ∧
    heap32 r.2.memory c.optionValuePtr = ((s.errors sock).getD 0).toInt

/-- **A call is right.** -/
def SockoptRight (s : SockState) : SockoptCall s.memory → Prop
  | .set c =>
    let r := s.jsSetsockopt c.fd c.level c.optionName c.optionValuePtr c.optionLen
    r.1 < 0 → r.2 = s
  | .get c =>
    GetRight s c (s.syscallGetsockopt c.fd c.level c.optionName c.optionValuePtr c.optionLenPtr)

/-- The call clears an error that it cannot return. -/
def SockoptCall.LosesError (s : SockState) : SockoptCall s.memory → Prop
  | .set _ => False
  | .get c => c.IsSoError ∧ heap32 s.memory c.optionLenPtr < 4 ∧
      ∃ sock, s.streams c.fd = some (some sock) ∧ s.errors sock ≠ none

/-! ## Access to memory -/

section

variable {m : ByteMemory} {p q : Nat} {v : Int}

theorem setHeap32_of_outside (hp : 4 ∣ p) {a : Nat} (h : a < p ∨ p + 4 ≤ a) (v : Int) :
    setHeap32 m p v a = m a := by
  rw [setHeap32, Nat.div_mul_cancel hp]
  exact store_of_outside h _

theorem setHeap64_of_outside (hp : 8 ∣ p) {a : Nat} (h : a < p ∨ p + 8 ≤ a) (v : Int) :
    setHeap64 m p v a = m a := by
  rw [setHeap64, Nat.div_mul_cancel hp]
  exact store_of_outside h _

theorem heap32_setHeap32_self (h : -2 ^ 31 ≤ v ∧ v < 2 ^ 31) : heap32 (setHeap32 m p v) p = v :=
  loadInt_storeInt (by omega) (by omega)

theorem heap32_setHeap32_of_apart (hp : 4 ∣ p) (hq : 4 ∣ q) (h : p + 4 ≤ q ∨ q + 4 ≤ p) :
    heap32 (setHeap32 m p v) q = heap32 m q := by
  rw [heap32, setHeap32, heap32, Nat.div_mul_cancel hp, Nat.div_mul_cancel hq]
  exact loadInt_storeInt_of_disjoint h.symm v

end

/-! ## The calls -/

section

variable {s : SockState} {c : GetCall s.memory}

/-- A call that fails, and leaves the state alone. -/
theorem getRight_of_error (c : GetCall s.memory) {errno : Nat} (h : 0 < errno) :
    GetRight s c (-errno, s) := by
  have hne : ¬(-(errno : Int) = 0) := by omega
  exact ⟨fun _ => rfl, fun h => absurd h hne, fun h => absurd h hne, fun h => absurd h hne⟩

/-- What `writeInt` writes is output. -/
theorem writeInt_frame (c : GetCall s.memory) (hlen : 4 ≤ heap32 s.memory c.optionLenPtr)
    (v : Int) {a : Nat} (ha : ¬ c.Output a) :
    setHeap32 (setHeap32 s.memory c.optionValuePtr v) c.optionLenPtr 4 a = s.memory a := by
  rw [GetCall.Output, not_or] at ha
  rw [setHeap32_of_outside c.aligned.2 (by omega), setHeap32_of_outside c.aligned.1 (by omega)]

/-- The branches that end with `writeInt`, but for `SO_ERROR`. -/
theorem getRight_writeInt (hoption : ¬ c.IsSoError) (v : Int) :
    GetRight s c (s.writeInt c.optionValuePtr c.optionLenPtr v) := by
  rw [SockState.writeInt]
  split
  · exact getRight_of_error c (by decide)
  · rename_i hlen
    refine ⟨fun h => absurd h (Int.lt_irrefl 0), fun _ => ⟨rfl, rfl, rfl, fun a ha => ?_⟩,
      fun _ _ => rfl, fun _ h => absurd h hoption⟩
    exact writeInt_frame c (by omega) v ha

/-- The branch for the timeouts. -/
theorem getRight_timeout (htimeout : isTimeout (c.level, c.optionName) = true)
    (hoption : ¬ c.IsSoError) (hlen : 16 ≤ heap32 s.memory c.optionLenPtr) (v w : Int) :
    GetRight s c (0, { s with memory := setHeap32 (setHeap64 (setHeap64 s.memory
      c.optionValuePtr v) (c.optionValuePtr + 8) w) c.optionLenPtr 16 }) := by
  refine ⟨fun h => absurd h (Int.lt_irrefl 0), fun _ => ⟨rfl, rfl, rfl, fun a ha => ?_⟩,
    fun _ _ => rfl, fun _ h => absurd h hoption⟩
  have haligned := c.alignedTimeval htimeout
  rw [GetCall.Output, not_or] at ha
  dsimp only
  rw [setHeap32_of_outside c.aligned.2 (by omega),
    setHeap64_of_outside (Nat.dvd_add haligned (Nat.dvd_refl 8)) (by omega),
    setHeap64_of_outside haligned (by omega)]

/-- **`SO_ERROR`.** -/
theorem getRight_soError_iff {sock : Nat} (hsock : s.streams c.fd = some (some sock))
    (hoption : c.IsSoError) :
    GetRight s c (SockState.writeInt { s with errors := Function.update s.errors sock none }
      c.optionValuePtr c.optionLenPtr ((s.errors sock).getD 0).toInt) ↔
      ¬(heap32 s.memory c.optionLenPtr < 4 ∧ s.errors sock ≠ none) := by
  rw [SockState.writeInt]
  dsimp only
  split
  · rename_i hlen
    rw [and_iff_right hlen, not_not]
    constructor
    · intro h
      -- the state is as before, the error included
      have hsame : Function.update s.errors sock none sock = s.errors sock :=
        congrArg (fun s => s.errors sock) (h.failed (show -(einval : Int) < 0 by decide))
      rw [Function.update_self] at hsame
      exact hsame.symm
    · intro hnone
      have hsame : Function.update s.errors sock none = s.errors := by
        rw [← hnone, Function.update_eq_self]
      rw [hsame]
      exact getRight_of_error c (by decide)
  · rename_i hlen
    refine iff_of_true ?_ fun h => hlen h.1
    have hle : 4 ≤ heap32 s.memory c.optionLenPtr := by omega
    refine ⟨fun h => absurd h (Int.lt_irrefl 0), fun _ => ⟨rfl, rfl, rfl, fun a ha => ?_⟩,
      fun _ h => absurd hoption h, fun _ _ => ⟨sock, hsock, rfl, ?_⟩⟩
    · exact writeInt_frame c hle _ ha
    · have hapart := c.apart
      dsimp only
      rw [heap32_setHeap32_of_apart c.aligned.2 c.aligned.1 (by omega),
        heap32_setHeap32_self ⟨BitVec.le_toInt _, BitVec.toInt_lt⟩]

/-- An option of the proxy is only kept and sent when nothing fails. -/
theorem jsSetsockopt_failed (net : Net) (sock : Nat) (key : OptionKey) (v : OptionValue)
    (h : (jsSetsockopt net sock key v).1 < 0) : (jsSetsockopt net sock key v).2 = net := by
  rw [jsSetsockopt] at h ⊢
  split
  · rfl
  · split
    · rfl
    · split
      · rfl
      · rename_i htimeout hproxied hvalue
        rw [if_neg htimeout, if_neg hproxied, if_neg hvalue] at h
        exact absurd h (Int.lt_irrefl 0)

/-- `setsockopt` knows before it stores anything whether it fails. -/
theorem setsockopt_failed (s : SockState) (c : SetCall) : SockoptRight s (.set c) := by
  rw [SockoptRight, SockState.jsSetsockopt]
  cases s.streams c.fd with
  | none => exact fun _ => rfl
  | some node =>
    cases node with
    | none => exact fun _ => rfl
    | some sock =>
      dsimp only
      split
      · split
        · exact fun _ => rfl
        · exact fun h => absurd h (Int.lt_irrefl 0)
      · intro h
        dsimp only
        rw [jsSetsockopt_failed _ _ _ _ h]

theorem isTimeout_iff {level optionName : Int} :
    isTimeout (level, optionName) = true ↔
      level = solSocket ∧ (optionName = soRcvtimeo ∨ optionName = soSndtimeo) := by
  rw [isTimeout, Bool.or_eq_true, beq_iff_eq, beq_iff_eq, Prod.mk.injEq, Prod.mk.injEq, and_or_left]

/-- **When a call is right.** -/
theorem sockoptRight_iff (s : SockState) (call : SockoptCall s.memory) :
    SockoptRight s call ↔ ¬ call.LosesError s := by
  cases call with
  | set c => exact iff_of_true (setsockopt_failed s c) fun h => h
  | get c =>
    rw [SockoptRight, SockState.syscallGetsockopt]
    cases hfd : s.streams c.fd with
    | none =>
      refine iff_of_true (getRight_of_error c (by decide)) ?_
      rintro ⟨-, -, sock, hsock, -⟩
      rw [hfd] at hsock
      cases hsock
    | some node =>
      cases node with
      | none =>
        refine iff_of_true (getRight_of_error c (by decide)) ?_
        rintro ⟨-, -, sock, hsock, -⟩
        rw [hfd] at hsock
        cases hsock
      | some sock =>
        dsimp only
        split
        · rename_i hoption
          rw [getRight_soError_iff hfd hoption]
          refine not_congr ⟨fun h => ⟨hoption, h.1, sock, hfd, h.2⟩, ?_⟩
          rintro ⟨-, hlen, sock', hsock', herror⟩
          rw [hfd] at hsock'
          cases hsock'
          exact ⟨hlen, herror⟩
        · rename_i hoption
          have hother : ¬ c.IsSoError := hoption
          refine iff_of_true ?_ fun h => hoption h.1
          split
          · exact getRight_writeInt hother _
          · split
            · rename_i htimeout
              split
              · exact getRight_of_error c (by decide)
              · rename_i hlen
                exact getRight_timeout (isTimeout_iff.2 htimeout) hother (by omega) _ _
            · split
              · exact getRight_writeInt hother _
              · exact getRight_of_error c (by decide)

end

/-- A buffer of two bytes: the pending error 111 is cleared, and not returned. -/
theorem short_buffer_loses_error :
    let memory := setHeap32 (fun _ => 0) 16 2
    let s : SockState := ⟨fun _ => some (some 0), .init fun _ => sockStream,
      fun _ => some 111, fun _ => none, memory⟩
    let r := s.syscallGetsockopt 5 solSocket soError 8 16
    r.1 = -28 ∧ r.2.errors 0 = none ∧
      ∃ c : GetCall s.memory, c.level = solSocket ∧ c.optionName = soError ∧
        c.optionValuePtr = 8 ∧ c.optionLenPtr = 16 ∧ ¬ SockoptRight s (.get c) := by
  intro memory s r
  have herror : r.2.errors 0 = none := by decide
  have hret : r.1 = -28 := by decide
  let c : GetCall s.memory := ⟨5, solSocket, soError, 8, 16, by decide, by decide, by decide⟩
  refine ⟨hret, herror, c, rfl, rfl, rfl, rfl, fun h => ?_⟩
  have hsame : r.2 = s := h.failed (by rw [hret]; decide)
  rw [hsame] at herror
  cases herror

/-! ## Timeouts -/

/-- The two timeouts. -/
inductive TimeoutOption
  | receive
  | send
  deriving DecidableEq

/-- The name of the option. -/
def TimeoutOption.name : TimeoutOption → Int
  | receive => soRcvtimeo
  | send => soSndtimeo

/-- The timeout in an object of `socketTimeouts`. -/
def SocketTimeouts.get (timeouts : SocketTimeouts) : TimeoutOption → Option Nat
  | .receive => timeouts.receive
  | .send => timeouts.send

/-- A timeout is set: a `struct timeval` lies in the memory, with 64-bit or with 32-bit fields. -/
structure TimeoutSetting where
  option : TimeoutOption
  memory : ByteMemory
  ptr : Nat
  len : Int
  seconds : Nat
  microseconds : Nat
  notNull : ptr ≠ 0
  layout : (16 ≤ len ∧ heap64 memory ptr = seconds ∧ heap64 memory (ptr + 8) = microseconds) ∨
    (8 ≤ len ∧ len < 16 ∧ heap32 memory ptr = seconds ∧ heap32 memory (ptr + 4) = microseconds)
  normal : microseconds < 10 ^ 6
  /-- The milliseconds are an exact number in JavaScript. -/
  exact : seconds * 1000 + (microseconds + 999) / 1000 ≤ 2 ^ 53

/-- The timeout in microseconds. -/
def TimeoutSetting.total (x : TimeoutSetting) : Nat := x.seconds * 10 ^ 6 + x.microseconds

/-- A timeout is read: there is room for a `struct timeval` with 64-bit fields. -/
structure TimeoutReading where
  option : TimeoutOption
  memory : ByteMemory
  ptr : Nat
  lenPtr : Nat
  aligned : 8 ∣ ptr ∧ 4 ∣ lenPtr
  room : 16 ≤ heap32 memory lenPtr
  apart : lenPtr + 4 ≤ ptr ∨ (ptr : Int) + heap32 memory lenPtr ≤ lenPtr

/-- A descriptor of a socket that no timeout was set on. -/
structure NewSocket where
  state : SockState
  fd : Int
  sock : Nat
  isSocket : state.streams fd = some (some sock)
  new : state.timeouts sock = none

namespace NewSocket

/-- `setsockopt` of a timeout. -/
def set (x : NewSocket) (s : SockState) (setting : TimeoutSetting) : SockState :=
  (SockState.jsSetsockopt { s with memory := setting.memory } x.fd solSocket setting.option.name
    setting.ptr setting.len).2

/-- Some settings, one after the other. -/
def after (x : NewSocket) (settings : List TimeoutSetting) : SockState :=
  settings.foldl x.set x.state

/-- `getsockopt` of a timeout. -/
def read (x : NewSocket) (s : SockState) (r : TimeoutReading) : Int × SockState :=
  SockState.syscallGetsockopt { s with memory := r.memory } x.fd solSocket r.option.name r.ptr
    r.lenPtr

end NewSocket

/-- The last setting of a timeout, in microseconds; zero if it was not set. -/
def lastTotal (option : TimeoutOption) (settings : List TimeoutSetting) : Nat :=
  (((settings.filter (·.option = option)).getLast?).map TimeoutSetting.total).getD 0

/-- A `getsockopt` succeeds with a timeval. -/
structure Returns (r : TimeoutReading) (result : Int × SockState) (seconds microseconds : Nat) :
    Prop where
  succeeds : result.1 = 0
  seconds_eq : heap64 result.2.memory r.ptr = seconds
  microseconds_eq : heap64 result.2.memory (r.ptr + 8) = microseconds
  len_eq : heap32 result.2.memory r.lenPtr = 16
  normal : microseconds < 10 ^ 6

/-- A `setsockopt` has a negative field, or is too short for its fields. -/
def BadTimeval (memory : ByteMemory) (ptr : Nat) (len : Int) : Prop :=
  len < 8 ∨ (16 ≤ len ∧ (heap64 memory ptr < 0 ∨ heap64 memory (ptr + 8) < 0)) ∨
    (8 ≤ len ∧ len < 16 ∧ (heap32 memory ptr < 0 ∨ heap32 memory (ptr + 4) < 0))

/-- **The timeouts are kept.** -/
structure TimeoutsRight (x : NewSocket) (settings : List TimeoutSetting) : Prop where
  /-- A timeout is read as it was set last, in whole milliseconds, never less, and as zero only if
  it is zero. -/
  read : ∀ r : TimeoutReading, ∃ seconds microseconds,
    Returns r (x.read (x.after settings) r) seconds microseconds ∧
    let total := seconds * 10 ^ 6 + microseconds
    1000 ∣ total ∧ lastTotal r.option settings ≤ total ∧
      total < lastTotal r.option settings + 1000 ∧
      (seconds = 0 ∧ microseconds = 0 ↔ lastTotal r.option settings = 0)
  /-- Setting one timeout leaves the other alone. -/
  other : ∀ (setting : TimeoutSetting) (r : TimeoutReading), r.option ≠ setting.option →
    (x.read (x.after (settings ++ [setting])) r).2.memory =
      (x.read (x.after settings) r).2.memory
  rejected : ∀ (option : TimeoutOption) (memory : ByteMemory) (ptr : Nat) (len : Int),
    BadTimeval memory ptr len →
      let s := { x.after settings with memory := memory }
      s.jsSetsockopt x.fd solSocket option.name ptr len = (-(einval : Int), s)

/-! ## Setting -/

/-- The timeout in milliseconds. -/
def TimeoutSetting.timeoutMs (x : TimeoutSetting) : Nat :=
  x.seconds * 1000 + (x.microseconds + 999) / 1000

theorem parseSocketTimeout_setting (x : TimeoutSetting) :
    parseSocketTimeout x.memory x.ptr x.len = some x.timeoutMs := by
  have hnonneg : ¬((x.seconds : Int) < 0 ∨ (x.microseconds : Int) < 0) := by omega
  rw [parseSocketTimeout]
  rcases x.layout with ⟨hlen, hseconds, hmicroseconds⟩ | ⟨hlen, hshort, hseconds, hmicroseconds⟩
  · have hok : ¬(x.ptr = 0 ∨ x.len < 8) := not_or.2 ⟨x.notNull, by omega⟩
    rw [if_neg hok, if_pos hlen, hseconds, hmicroseconds]
    exact if_neg hnonneg
  · have hok : ¬(x.ptr = 0 ∨ x.len < 8) := not_or.2 ⟨x.notNull, by omega⟩
    rw [if_neg hok, if_neg (by omega), hseconds, hmicroseconds]
    exact if_neg hnonneg

/-- One second and 999001 microseconds, in 32-bit fields. -/
example : parseSocketTimeout (setHeap32 (setHeap32 (fun _ => 0) 8 1) 12 999001) 8 8 =
    some 2000 := by decide

theorem parseSocketTimeout_bad {memory : ByteMemory} {ptr : Nat} {len : Int}
    (h : BadTimeval memory ptr len) : parseSocketTimeout memory ptr len = none := by
  rw [parseSocketTimeout]
  split
  · rfl
  · rename_i hok
    rw [not_or] at hok
    rcases h with hlen | ⟨hlen, hneg⟩ | ⟨-, hlen, hneg⟩
    · exact absurd hlen hok.2
    · rw [if_pos hlen]
      exact if_pos hneg
    · rw [if_neg (by omega)]
      exact if_pos hneg

/-- The names of the timeouts. -/
theorem TimeoutOption.name_cases (option : TimeoutOption) :
    option.name = soRcvtimeo ∨ option.name = soSndtimeo := by
  cases option
  · exact .inl rfl
  · exact .inr rfl

/-- A `setsockopt` of a timeout. -/
theorem jsSetsockopt_timeout {s : SockState} {fd : Int} {sock : Nat}
    (hfd : s.streams fd = some (some sock)) (option : TimeoutOption) (ptr : Nat) (len : Int) :
    s.jsSetsockopt fd solSocket option.name ptr len =
      match parseSocketTimeout s.memory ptr len with
      | none => (-(einval : Int), s)
      | some timeoutMs => (0, s.setTimeout sock option.name timeoutMs) := by
  rw [SockState.jsSetsockopt, hfd]
  dsimp only
  rw [if_pos ⟨rfl, option.name_cases⟩]

/-- The timeouts that are kept for a socket. -/
def SockState.timeoutsOf (s : SockState) (sock : Nat) : SocketTimeouts :=
  (s.timeouts sock).getD ⟨none, none⟩

theorem get_setTimeout (s : SockState) (sock : Nat) (option option' : TimeoutOption)
    (timeoutMs : Nat) :
    ((s.setTimeout sock option.name timeoutMs).timeoutsOf sock).get option' =
      if option = option' then some timeoutMs else (s.timeoutsOf sock).get option' := by
  rw [SockState.timeoutsOf, SockState.setTimeout]
  dsimp only
  rw [Function.update_self, SockState.timeoutsOf]
  cases option <;> cases option' <;> rfl

namespace NewSocket

variable {x : NewSocket}

/-- **The settings.** -/
theorem after_stored (settings : List TimeoutSetting) :
    (x.after settings).streams = x.state.streams ∧
      ∀ option, ((x.after settings).timeoutsOf x.sock).get option =
        ((settings.filter (·.option = option)).getLast?).map TimeoutSetting.timeoutMs := by
  induction settings using List.reverseRecOn with
  | nil =>
    refine ⟨rfl, fun option => ?_⟩
    rw [after, List.foldl_nil, SockState.timeoutsOf, x.new]
    cases option <;> rfl
  | append_singleton settings setting ih =>
    obtain ⟨hstreams, hstored⟩ := ih
    have hfd : ({ x.after settings with memory := setting.memory } : SockState).streams x.fd =
        some (some x.sock) := (congrFun hstreams x.fd).trans x.isSocket
    have hset : x.after (settings ++ [setting]) =
        SockState.setTimeout { x.after settings with memory := setting.memory } x.sock
          setting.option.name setting.timeoutMs := by
      rw [after, List.foldl_append, List.foldl_cons, List.foldl_nil, ← after, set,
        jsSetsockopt_timeout hfd, parseSocketTimeout_setting]
    rw [hset]
    refine ⟨hstreams, fun option => ?_⟩
    rw [get_setTimeout, List.filter_append]
    split
    · rename_i hsame
      rw [List.filter_cons_of_pos (by simpa using hsame), List.filter_nil, List.getLast?_concat]
      rfl
    · rename_i hother
      rw [List.filter_cons_of_neg (by simpa using hother), List.filter_nil, List.append_nil]
      exact hstored option

end NewSocket

/-! ## Reading -/

section

variable {m : ByteMemory} {p q : Nat} {v : Int}

theorem heap64_setHeap64_self (h : -2 ^ 63 ≤ v ∧ v < 2 ^ 63) : heap64 (setHeap64 m p v) p = v :=
  loadInt_storeInt (by omega) (by omega)

theorem heap64_setHeap64_of_apart (hp : 8 ∣ p) (hq : 8 ∣ q) (h : p + 8 ≤ q ∨ q + 8 ≤ p) :
    heap64 (setHeap64 m p v) q = heap64 m q := by
  rw [heap64, setHeap64, heap64, Nat.div_mul_cancel hp, Nat.div_mul_cancel hq]
  exact loadInt_storeInt_of_disjoint h.symm v

theorem heap64_setHeap32_of_apart (hp : 4 ∣ p) (hq : 8 ∣ q) (h : p + 4 ≤ q ∨ q + 8 ≤ p) :
    heap64 (setHeap32 m p v) q = heap64 m q := by
  rw [heap64, setHeap32, heap64, Nat.div_mul_cancel hp, Nat.div_mul_cancel hq]
  exact loadInt_storeInt_of_disjoint h.symm v

end

namespace NewSocket

variable {x : NewSocket}

/-- The milliseconds that are read, zero if there are none. -/
def readMs (x : NewSocket) (s : SockState) (option : TimeoutOption) : Nat :=
  ((s.timeoutsOf x.sock).get option).getD 0

/-- **A `getsockopt` of a timeout.** -/
theorem read_eq {s : SockState} (hfd : s.streams x.fd = some (some x.sock)) (r : TimeoutReading) :
    x.read s r =
      (0, { s with memory := setHeap32 (setHeap64 (setHeap64 r.memory r.ptr
        (x.readMs s r.option / 1000 : Nat)) (r.ptr + 8)
        (x.readMs s r.option % 1000 * 1000 : Nat)) r.lenPtr 16 }) := by
  have hroom : ¬heap32 r.memory r.lenPtr < 16 := Int.not_lt.2 r.room
  rw [NewSocket.read, SockState.syscallGetsockopt, hfd, readMs, SockState.timeoutsOf]
  dsimp only
  cases r.option with
  | receive =>
    rw [if_neg (by decide), if_neg (by decide), if_pos (by decide), if_neg hroom]
    rfl
  | send =>
    rw [if_neg (by decide), if_neg (by decide), if_pos (by decide), if_neg hroom]
    rfl

theorem read_returns {s : SockState} (hfd : s.streams x.fd = some (some x.sock))
    (r : TimeoutReading) (hms : x.readMs s r.option ≤ 2 ^ 53) :
    Returns r (x.read s r) (x.readMs s r.option / 1000) (x.readMs s r.option % 1000 * 1000) := by
  have hroom := r.room
  have hapart := r.apart
  have hnext : 8 ∣ r.ptr + 8 := Nat.dvd_add r.aligned.1 (Nat.dvd_refl 8)
  rw [read_eq hfd]
  refine ⟨rfl, ?_, ?_, heap32_setHeap32_self (by decide), by omega⟩
  · dsimp only
    rw [heap64_setHeap32_of_apart r.aligned.2 r.aligned.1 (by omega),
      heap64_setHeap64_of_apart hnext r.aligned.1 (by omega), heap64_setHeap64_self (by omega)]
  · dsimp only
    rw [heap64_setHeap32_of_apart r.aligned.2 hnext (by omega), heap64_setHeap64_self (by omega)]

end NewSocket

namespace NewSocket

/-- What is read is the last setting, rounded up to milliseconds. -/
theorem readMs_after (x : NewSocket) (settings : List TimeoutSetting) (option : TimeoutOption) :
    x.readMs (x.after settings) option ≤ 2 ^ 53 ∧
      lastTotal option settings ≤ x.readMs (x.after settings) option * 1000 ∧
      x.readMs (x.after settings) option * 1000 < lastTotal option settings + 1000 := by
  have hstored := (x.after_stored settings).2 option
  rw [readMs, hstored, lastTotal]
  cases (settings.filter (·.option = option)).getLast? with
  | none => exact ⟨Nat.zero_le _, Nat.le_refl 0, by decide⟩
  | some last =>
    have hexact := last.exact
    show last.timeoutMs ≤ _ ∧ last.total ≤ last.timeoutMs * 1000 ∧
      last.timeoutMs * 1000 < last.total + 1000
    rw [TimeoutSetting.timeoutMs, TimeoutSetting.total]
    omega

end NewSocket

/-- **The timeouts are kept**, whatever is set. -/
theorem timeoutsRight (x : NewSocket) (settings : List TimeoutSetting) :
    TimeoutsRight x settings := by
  have hfd : ∀ settings, (x.after settings).streams x.fd = some (some x.sock) := fun settings =>
    (congrFun (x.after_stored settings).1 x.fd).trans x.isSocket
  refine ⟨fun r => ?_, fun setting r hne => ?_, fun option memory ptr len hbad => ?_⟩
  · obtain ⟨hexact, hle, hlt⟩ := x.readMs_after settings r.option
    refine ⟨_, _, NewSocket.read_returns (hfd settings) r hexact, ?_⟩
    dsimp only
    omega
  · have hsame : x.readMs (x.after (settings ++ [setting])) r.option =
        x.readMs (x.after settings) r.option := by
      have hother : [setting].filter (·.option = r.option) = [] :=
        List.filter_cons_of_neg (by simpa using hne.symm)
      rw [NewSocket.readMs, NewSocket.readMs, (x.after_stored _).2, (x.after_stored _).2,
        List.filter_append, hother, List.append_nil]
    rw [NewSocket.read_eq (hfd _), NewSocket.read_eq (hfd _), hsame]
  · have hset := jsSetsockopt_timeout (s := { x.after settings with memory := memory })
      (hfd settings) option ptr len
    rw [parseSocketTimeout_bad hbad] at hset
    exact hset

/-! ### A socket with one timeout -/

/-- One second and 999001 microseconds, in 32-bit fields. -/
def TimeoutSetting.twoSeconds (option : TimeoutOption) : TimeoutSetting where
  option := option
  memory := setHeap32 (setHeap32 (fun _ => 0) 40 1) 44 999001
  ptr := 40
  len := 8
  seconds := 1
  microseconds := 999001
  notNull := by decide
  layout := .inr (by decide)
  normal := by decide
  exact := by decide

/-- There are 16 bytes for the timeout, and their number comes after them. -/
def TimeoutReading.atStart (option : TimeoutOption) : TimeoutReading where
  option := option
  memory := setHeap32 (fun _ => 0) 16 16
  ptr := 0
  lenPtr := 16
  aligned := by decide
  room := by decide
  apart := .inr (by decide)

/-- The first socket of a process, a stream. -/
def NewSocket.stream : NewSocket where
  state := ⟨fun fd => if fd = 5 then some (some 0) else none, .init fun _ => sockStream,
    fun _ => none, fun _ => none, fun _ => 0⟩
  fd := 5
  sock := 0
  isSocket := rfl
  new := rfl

/-- The timeout for receiving is rounded up to two seconds, and there is none for sending. -/
example :
    let s := NewSocket.stream.after [TimeoutSetting.twoSeconds .receive]
    let seconds := fun option =>
      let r := TimeoutReading.atStart option
      heap64 (NewSocket.stream.read s r).2.memory r.ptr
    seconds .receive = 2 ∧ seconds .send = 0 := by
  decide

end PhpWasm.Socket
