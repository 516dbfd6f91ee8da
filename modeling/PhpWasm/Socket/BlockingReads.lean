import PhpWasm.Base.Run
import PhpWasm.Socket.Peek

/-!
# Reads that wait

Emscripten's `recvfrom` never waits.  `wasm_recvfrom` and `wasm_recv` make waiting reads of it:
where a read answers `EAGAIN` they arm a timer, and read again when it fires, until something else
is answered or `SO_RCVTIMEO` is over.

* `Reads` is a socket with the call that waits, and `Reads.step` what the program, the network and
  the timer do to it.
* `readsRight`: whatever happens in whatever order, every call is answered once, what the calls were
  given and what is still queued is what has arrived, and a waiting call is told `EAGAIN` only after
  its time.
* `recv_simulates`: `wasm_recv` does what `wasm_recvfrom` does, but for errors, which it reports as
  the end of the stream.
-/

set_option autoImplicit false

namespace PhpWasm.Socket

open Machine

/-! ## The two functions -/

/-- `MSG_DONTWAIT` is among the flags. -/
def msgDontwait (flags : BitVec 32) : Bool := flags &&& 0x40#32 != 0#32

/-- The functions that wait. -/
inductive ReadFunction
  /-- `wasm_recv` -/
  | recv
  /-- `wasm_recvfrom` -/
  | recvfrom
  deriving DecidableEq

/-- What `wakeUp` is called with, for an attempt that answers anything but `EAGAIN`. -/
def ReadFunction.wakeUp : ReadFunction → RecvResult → Int
  | .recvfrom, result => result.value
  | .recv, result => if 0 < result.value then result.value else 0

/-- A call, with what it notes when it begins to wait. -/
structure ReadCall where
  function : ReadFunction
  read : Read
  /-- The call may wait. -/
  waits : Bool
  /-- `PHPWASM.getSocketTimeouts(fd)?.receive` -/
  receiveTimeout : Option Nat
  startedAt : Int

/-- `receiveTimeout > 0 && Date.now() - startedAt >= receiveTimeout` -/
def ReadCall.expired (c : ReadCall) (now : Int) : Bool :=
  c.receiveTimeout.any fun (timeout : Nat) =>
    decide (0 < timeout) && decide ((timeout : Int) ≤ now - c.startedAt)

/-- The time of a call is over only if there is a time. -/
theorem ReadCall.expired_iff {c : ReadCall} {now : Int} : c.expired now = true ↔
    ∃ timeout, c.receiveTimeout = some timeout ∧ 0 < timeout ∧ timeout ≤ now - c.startedAt := by
  simp [ReadCall.expired, Option.any_eq_true]

/-- A call that has returned. -/
structure ReadAnswer where
  call : ReadCall
  /-- The time of the last attempt, and what it has answered. -/
  now : Int
  result : RecvResult
  /-- What the call returns. -/
  value : Int

/-! ## The machine -/

/-- A socket, and the program that reads it. -/
structure Reads where
  sock : Receiver
  /-- `stream.flags & PHPWASM.O_NONBLOCK` -/
  nonBlocking : Bool
  /-- `SO_RCVTIMEO`, if it was set. -/
  receiveTimeout : Option Nat
  /-- The call that waits.  Its timer is armed. -/
  waiting : Option ReadCall
  /-- The messages that have arrived so far. -/
  arrived : List Queued
  /-- The calls that were made so far. -/
  calls : List Read
  answers : List ReadAnswer

/-- What happens to a socket. -/
inductive ReadEvent
  /-- A message arrives. -/
  | message (msg : Queued)
  /-- The peer's WebSocket fails: SOCKFS sets `sock.error`. -/
  | fails (errno : Nat)
  /-- The peer's WebSocket has another state, or the socket another peer. -/
  | peer (state : Option ReadyState)
  | setReceiveTimeout (ms : Option Nat)
  | setNonBlocking (nonBlocking : Bool)
  /-- The program calls one of the functions. -/
  | call (function : ReadFunction) (read : Read) (startedAt now : Int)
  /-- The timer fires. -/
  | timer (now : Int)

namespace Reads

/-- A socket with some messages in its queue, before the first call. -/
def start (sock : Receiver) (nonBlocking : Bool) (receiveTimeout : Option Nat) : Reads :=
  ⟨sock, nonBlocking, receiveTimeout, none, sock.recvQueue, [], []⟩

/-- The call returns. -/
def answer (c : ReadCall) (now : Int) (result : RecvResult) (value : Int) (s : Reads) : Reads :=
  { s with waiting := none, answers := s.answers ++ [⟨c, now, result, value⟩] }

/-- `poll`, of both functions. -/
def poll (proxy : Bool) (c : ReadCall) (now : Int) (s : Reads) : Reads :=
  let (result, sock) := recvfromNow proxy s.sock c.read
  let s := { s with sock := sock }
  if result.value ≠ -eagain then s.answer c now result (c.function.wakeUp result)
  else if c.expired now then s.answer c now result (-eagain)
  else { s with waiting := some c }

/-- The three ends of an attempt. -/
theorem poll_eq (proxy : Bool) (c : ReadCall) (now : Int) (s : Reads) :
    s.poll proxy c now =
      if (recvfromNow proxy s.sock c.read).1.value ≠ -eagain then
        answer c now (recvfromNow proxy s.sock c.read).1
          (c.function.wakeUp (recvfromNow proxy s.sock c.read).1)
          { s with sock := (recvfromNow proxy s.sock c.read).2 }
      else if c.expired now then
        answer c now (recvfromNow proxy s.sock c.read).1 (-eagain)
          { s with sock := (recvfromNow proxy s.sock c.read).2 }
      else { s with sock := (recvfromNow proxy s.sock c.read).2, waiting := some c } := rfl

/-- `wasm_recv` and `wasm_recvfrom`.  The second looks once before it waits. -/
def call (proxy : Bool) (function : ReadFunction) (read : Read) (startedAt now : Int) (s : Reads) :
    Reads :=
  let s := { s with calls := s.calls ++ [read] }
  match function with
  | .recv => s.poll proxy ⟨.recv, read, true, s.receiveTimeout, startedAt⟩ now
  | .recvfrom =>
    let waits := !(s.nonBlocking || msgDontwait read.flags)
    let c := ⟨.recvfrom, read, waits, s.receiveTimeout, startedAt⟩
    let (result, sock) := recvfromNow proxy s.sock read
    let s := { s with sock := sock }
    if result.value ≠ -eagain then s.answer c now result result.value
    else if !waits then s.answer c now result result.value
    else s.poll proxy c now

/-- One event.  The program does nothing while a call waits. -/
def step (proxy : Bool) (s : Reads) : ReadEvent → Reads
  | .message msg =>
    { s with
      sock := { s.sock with recvQueue := s.sock.recvQueue ++ [msg] }
      arrived := s.arrived ++ [msg] }
  | .fails errno => { s with sock := { s.sock with error := some errno } }
  | .peer state => { s with sock := { s.sock with peer := state } }
  | .setReceiveTimeout ms => if s.waiting.isSome then s else { s with receiveTimeout := ms }
  | .setNonBlocking nonBlocking =>
    if s.waiting.isSome then s else { s with nonBlocking := nonBlocking }
  | .call function read startedAt now =>
    if s.waiting.isSome then s else s.call proxy function read startedAt now
  | .timer now =>
    match s.waiting with
    | none => s
    | some c => s.poll proxy c now

end Reads

/-! ## What is asked of it -/

/-- The bytes that a call has taken out of the queue: all that it returns, unless it was a peek that
the build honours. -/
def ReadAnswer.taken (proxy : Bool) (a : ReadAnswer) : List UInt8 :=
  if proxy = true ∧ a.call.read.peek = true then [] else a.result.data.getD []

/-- The message of an answer, if it has one. -/
def ReadAnswer.received (a : ReadAnswer) : Option (Nat × Queued) :=
  match a.result with
  | .received msg => some (a.call.read.len, msg)
  | _ => none

/-- The books are right, where one call may be owed an answer. -/
structure Accounted (proxy : Bool) (owed : Option ReadCall) (s : Reads) : Prop where
  /-- Each call has one answer, in the order of the calls, or it is the one that is owed it. -/
  once : s.calls = s.answers.map (·.call.read) ++ owed.toList.map (·.read)
  /-- On a stream, no byte is lost, repeated or moved. -/
  stream : s.sock.kind = .stream →
    s.answers.flatMap (ReadAnswer.taken proxy) ++ s.sock.recvQueue.flatMap Queued.data =
      s.arrived.flatMap Queued.data
  /-- No datagram is lost or repeated, and none is given out of order.  What does not fit into the
  buffer is gone. -/
  dgram : s.sock.kind = .dgram → ∃ before, s.arrived = before ++ s.sock.recvQueue ∧
    List.Forall₂ (fun given msg => given.2 = { msg with data := msg.data.take given.1 })
      (s.answers.filterMap ReadAnswer.received) before
  /-- A call that may wait says `EAGAIN` only when its time is over. -/
  timely : ∀ a ∈ s.answers, a.value = -eagain → a.call.waits = true → a.call.expired a.now = true

/-- **The reads are right**: only the call that waits is owed an answer, and it is one that may
wait. -/
structure ReadsRight (proxy : Bool) (s : Reads) : Prop extends Accounted proxy s.waiting s where
  mayWait : ∀ c, s.waiting = some c → c.waits = true

/-- There is nothing to read, not even the end of the stream, and no error to report. -/
structure Receiver.Quiet (sock : Receiver) : Prop where
  queue : sock.recvQueue = []
  error : sock.kind = .dgram → sock.error = none
  peer : sock.kind = .stream → sock.listening = false ∧ sock.peer ≠ none ∧ ¬ sock.PeerGone

/-- The time of the attempt that an event leads to. -/
def ReadEvent.attemptAt (s : Reads) : ReadEvent → Option Int
  | .call _ _ _ now => if s.waiting.isSome then none else some now
  | .timer now => some now
  | _ => none

/-- A call goes on waiting after an attempt only if there is nothing to tell it, and its time is
not over. -/
def WaitsForReason (proxy : Bool) (s : Reads) (e : ReadEvent) : Prop :=
  ∀ now, e.attemptAt s = some now → ∀ c, (s.step proxy e).waiting = some c →
    (s.step proxy e).sock.Quiet ∧ c.expired now = false

/-! ## One attempt -/

section Attempt

variable {proxy : Bool} {sock : Receiver} {r : Read}

/-- An attempt takes from the first message, or it leaves the queue alone and has no message. -/
theorem recvfromNow_cases (proxy : Bool) (sock : Receiver) (r : Read) :
    (∃ m q, sock.recvQueue = m :: q ∧ ¬ (sock.kind = .stream ∧ sock.listening = true) ∧
      recvfromNow proxy sock r = (.received { m with data := m.data.take r.len },
        { sock with recvQueue := r.requeued proxy sock.kind m ++ q })) ∨
    ((recvfromNow proxy sock r).1.data.getD [] = [] ∧
      (∀ msg, (recvfromNow proxy sock r).1 ≠ .received msg) ∧
      (recvfromNow proxy sock r).2.kind = sock.kind ∧
      (recvfromNow proxy sock r).2.recvQueue = sock.recvQueue) := by
  by_cases hl : sock.kind = .stream ∧ sock.listening = true
  · rw [recvfromNow_listening hl.1 hl.2]
    exact .inr ⟨rfl, nofun, rfl, rfl⟩
  cases hq : sock.recvQueue with
  | cons m q => exact .inl ⟨m, q, rfl, hl, recvfromNow_cons hl hq r⟩
  | nil =>
    right
    obtain ⟨kind, listening, recvQueue, error, peer⟩ := sock
    cases hq
    cases kind with
    | dgram => cases error <;> exact ⟨rfl, nofun, rfl, rfl⟩
    | stream =>
      have hlisten : listening = false := by simpa using hl
      subst hlisten
      rcases peer with _ | _ | _ | _ | _ <;> exact ⟨rfl, nofun, rfl, rfl⟩

@[simp] theorem kind_recvfromNow (proxy : Bool) (sock : Receiver) (r : Read) :
    (recvfromNow proxy sock r).2.kind = sock.kind := by
  rcases recvfromNow_cases proxy sock r with ⟨m, q, -, -, heq⟩ | ⟨-, -, hkind, -⟩
  · rw [heq]
  · exact hkind

/-- `-EAGAIN` is the value of one answer only. -/
theorem value_eq_neg_eagain_iff {result : RecvResult} :
    result.value = -eagain ↔ result = .error eagain := by
  cases result with
  | received msg => exact iff_of_false (by simp only [RecvResult.value, eagain]; omega) nofun
  | closed => exact iff_of_false (by decide) nofun
  | error errno =>
    rw [RecvResult.value, RecvResult.error.injEq]
    omega

/-- **An attempt that answers `EAGAIN`** has found nothing, and the next one will find nothing
either. -/
theorem quiet_of_eagain (h : (recvfromNow proxy sock r).1.value = -eagain) :
    (recvfromNow proxy sock r).2.Quiet ∧
      (recvfromNow proxy sock r).2.recvQueue = sock.recvQueue := by
  rw [value_eq_neg_eagain_iff] at h
  obtain ⟨kind, listening, recvQueue, error, peer⟩ := sock
  by_cases hl : kind = .stream ∧ listening = true
  · obtain ⟨rfl, rfl⟩ := hl
    rw [recvfromNow_listening rfl rfl] at h
    cases h
  cases recvQueue with
  | cons m q =>
    rw [recvfromNow_cons hl rfl] at h
    cases h
  | nil =>
    cases kind with
    | dgram => cases error <;> exact ⟨⟨rfl, fun _ => rfl, fun h => (by cases h)⟩, rfl⟩
    | stream =>
      have hlisten : listening = false := by simpa using hl
      subst hlisten
      rcases peer with _ | _ | _ | _ | _
      · cases h
      · exact ⟨⟨rfl, fun h => (by cases h), fun _ => ⟨rfl, fun h => (by cases h),
          by simp [Receiver.PeerGone, recvfromNow, patchedRecvmsg, recvmsg]⟩⟩, rfl⟩
      · exact ⟨⟨rfl, fun h => (by cases h), fun _ => ⟨rfl, fun h => (by cases h),
          by simp [Receiver.PeerGone, recvfromNow, patchedRecvmsg, recvmsg]⟩⟩, rfl⟩
      · cases h
      · cases h

variable (proxy) in
/-- On a quiet socket an attempt does nothing. -/
theorem Receiver.Quiet.recvfromNow (h : sock.Quiet) (r : Read) :
    recvfromNow proxy sock r = (.error eagain, sock) := by
  obtain ⟨kind, listening, recvQueue, error, peer⟩ := sock
  obtain ⟨rfl, herror, hpeer⟩ := h
  cases kind with
  | dgram =>
    obtain rfl : error = none := herror rfl
    rfl
  | stream =>
    obtain ⟨rfl, hsome, hgone⟩ := hpeer rfl
    rcases peer with _ | _ | _ | _ | _
    · exact absurd rfl hsome
    · rfl
    · rfl
    · exact absurd (.inl rfl) hgone
    · exact absurd (.inr rfl) hgone

/-- What an attempt takes from a stream, and what it leaves there. -/
theorem taken_append (hk : sock.kind = .stream) (c : ReadCall) (now value : Int) :
    ReadAnswer.taken proxy ⟨c, now, (Socket.recvfromNow proxy sock c.read).1, value⟩ ++
      (Socket.recvfromNow proxy sock c.read).2.recvQueue.flatMap Queued.data =
        sock.recvQueue.flatMap Queued.data := by
  rcases recvfromNow_cases proxy sock c.read with ⟨m, q, hq, -, heq⟩ | ⟨hdata, -, -, hqueue⟩
  · have hrest : (c.read.requeued proxy sock.kind m).flatMap Queued.data =
        m.data.drop (c.read.taken proxy m) := by
      rw [Read.requeued]
      split
      · exact List.flatMap_singleton ..
      · rename_i htaken
        rw [not_and, not_lt] at htaken
        exact (List.drop_eq_nil_iff.2 (htaken hk)).symm
    rw [heq, hq, List.flatMap_append, hrest, List.flatMap_cons, ← List.append_assoc]
    congr 1
    rw [ReadAnswer.taken, Read.taken]
    split
    · rfl
    · have htake : m.data.take c.read.len = m.data.take (min c.read.len m.data.length) := by
        rw [List.take_eq_take_iff, min_assoc, min_self]
      rw [RecvResult.data, Option.getD_some, htake, List.take_append_drop]
  · rw [hqueue, ReadAnswer.taken, hdata, ite_self, List.nil_append]

variable (proxy) in
/-- What an attempt takes from a datagram socket, and what it leaves there. -/
theorem received_append (hk : sock.kind = .dgram) (c : ReadCall) (now value : Int) :
    ∃ given, given ++ (Socket.recvfromNow proxy sock c.read).2.recvQueue = sock.recvQueue ∧
      List.Forall₂ (fun given msg => given.2 = { msg with data := msg.data.take given.1 })
        ([⟨c, now, (Socket.recvfromNow proxy sock c.read).1, value⟩].filterMap
          ReadAnswer.received) given := by
  rcases recvfromNow_cases proxy sock c.read with ⟨m, q, hq, -, heq⟩ | ⟨-, hnone, -, hqueue⟩
  · have hrest : c.read.requeued proxy sock.kind m = [] := by simp [Read.requeued, hk]
    rw [heq, hq, hrest]
    exact ⟨[m], rfl, .cons rfl .nil⟩
  · refine ⟨[], hqueue, ?_⟩
    have hreceived : ReadAnswer.received
        ⟨c, now, (Socket.recvfromNow proxy sock c.read).1, value⟩ = none := by
      rw [ReadAnswer.received]
      split
      · rename_i msg hmsg
        exact absurd hmsg (hnone msg)
      · rfl
    rw [List.filterMap_cons_none hreceived]
    exact .nil

end Attempt

/-- To look once more is to look once: where `wasm_recvfrom` may wait, it begins with `poll`. -/
theorem Reads.call_recvfrom {proxy : Bool} {s : Reads} {read : Read}
    (hwaits : (!(s.nonBlocking || msgDontwait read.flags)) = true) (startedAt now : Int) :
    s.call proxy .recvfrom read startedAt now =
      Reads.poll proxy ⟨.recvfrom, read, true, s.receiveTimeout, startedAt⟩ now
        { s with calls := s.calls ++ [read] } := by
  rw [poll_eq]
  simp only [call, hwaits]
  by_cases hvalue : (recvfromNow proxy s.sock read).1.value = -eagain
  · have hquiet := (quiet_of_eagain hvalue).1.recvfromNow proxy read
    rw [if_neg (not_not.2 hvalue), if_neg (not_not.2 hvalue), if_neg nofun, poll_eq]
    simp only [hquiet, value_eq_neg_eagain_iff.1 hvalue]
    rfl
  · rw [if_pos hvalue, if_pos hvalue]
    rfl

/-! ## One event -/

section Step

variable {proxy : Bool} {s : Reads} {c : ReadCall}

/-- The books are about the queue alone. -/
theorem Accounted.congr {owed : Option ReadCall} {s' : Reads} (h : Accounted proxy owed s)
    (hkind : s'.sock.kind = s.sock.kind) (hqueue : s'.sock.recvQueue = s.sock.recvQueue)
    (harrived : s'.arrived = s.arrived) (hcalls : s'.calls = s.calls)
    (hanswers : s'.answers = s.answers) : Accounted proxy owed s' := by
  refine ⟨?_, fun hk => ?_, fun hk => ?_, ?_⟩
  · rw [hcalls, hanswers, h.once]
  · rw [hanswers, hqueue, harrived, h.stream (hkind ▸ hk)]
  · rw [hanswers, hqueue, harrived]
    exact h.dgram (hkind ▸ hk)
  · rw [hanswers]
    exact h.timely

/-- A message that arrives is behind the others. -/
theorem Accounted.message {owed : Option ReadCall} (h : Accounted proxy owed s) (msg : Queued) :
    Accounted proxy owed (s.step proxy (.message msg)) where
  once := h.once
  stream hk := by
    simp only [Reads.step, List.flatMap_append]
    rw [← List.append_assoc, h.stream hk]
  dgram hk := by
    obtain ⟨before, harrived, hgiven⟩ := h.dgram hk
    refine ⟨before, ?_, hgiven⟩
    simp only [Reads.step]
    rw [harrived, List.append_assoc]
  timely := h.timely

/-- An attempt that answers settles what is owed. -/
theorem Accounted.answer (h : Accounted proxy (some c) s) {now value : Int}
    (htime : value = -eagain → c.waits = true → c.expired now = true) :
    Accounted proxy none (Reads.answer c now (recvfromNow proxy s.sock c.read).1 value
      { s with sock := (recvfromNow proxy s.sock c.read).2 }) where
  once := by
    rw [Reads.answer, List.map_append]
    simpa using h.once
  stream hk := by
    have hkind : s.sock.kind = .stream := (kind_recvfromNow proxy s.sock c.read).symm.trans hk
    simp only [Reads.answer, List.flatMap_append, List.flatMap_singleton]
    rw [List.append_assoc, taken_append hkind, h.stream hkind]
  dgram hk := by
    have hkind : s.sock.kind = .dgram := (kind_recvfromNow proxy s.sock c.read).symm.trans hk
    obtain ⟨before, harrived, hgiven⟩ := h.dgram hkind
    obtain ⟨given, hqueue, hlast⟩ := received_append proxy hkind c now value
    refine ⟨before ++ given, ?_, ?_⟩
    · simp only [Reads.answer]
      rw [harrived, List.append_assoc, hqueue]
    · simp only [Reads.answer, List.filterMap_append]
      exact List.rel_append hgiven hlast
  timely a ha := by
    rcases List.mem_append.1 ha with hold | hnew
    · exact h.timely a hold
    · rw [List.mem_singleton.1 hnew]
      exact htime

/-- What an attempt of a call that may wait comes to. -/
theorem Accounted.poll (h : Accounted proxy (some c) s) (hwaits : c.waits = true) (now : Int) :
    ReadsRight proxy (s.poll proxy c now) := by
  rw [Reads.poll_eq]
  by_cases hvalue : (recvfromNow proxy s.sock c.read).1.value = -eagain
  · rw [if_neg (not_not.2 hvalue)]
    by_cases hexpired : c.expired now = true
    · rw [if_pos hexpired]
      exact ⟨h.answer fun _ _ => hexpired, nofun⟩
    · rw [if_neg hexpired]
      refine ⟨h.congr (kind_recvfromNow ..) (quiet_of_eagain hvalue).2 rfl rfl rfl, ?_⟩
      rintro c' ⟨⟩
      exact hwaits
  · rw [if_pos hvalue]
    refine ⟨h.answer fun hagain _ => absurd hagain ?_, nofun⟩
    rw [ReadFunction.wakeUp.eq_def]
    split
    · exact hvalue
    · split
      · omega
      · decide

/-- A call that begins is owed an answer. -/
theorem Accounted.begin (h : Accounted proxy none s) (c : ReadCall) :
    Accounted proxy (some c) { s with calls := s.calls ++ [c.read] } where
  once := by
    rw [h.once]
    simp
  stream := h.stream
  dgram := h.dgram
  timely := h.timely

theorem ReadsRight.call (h : ReadsRight proxy s) (hidle : s.waiting = none)
    (function : ReadFunction) (read : Read) (startedAt now : Int) :
    ReadsRight proxy (s.call proxy function read startedAt now) := by
  have howed : Accounted proxy none s := hidle ▸ h.toAccounted
  cases function with
  | recv => exact (howed.begin ⟨.recv, read, true, s.receiveTimeout, startedAt⟩).poll rfl now
  | recvfrom =>
    cases hwaits : !(s.nonBlocking || msgDontwait read.flags) with
    | true =>
      rw [Reads.call_recvfrom hwaits]
      exact (howed.begin _).poll rfl now
    | false =>
      have hbegin := howed.begin ⟨.recvfrom, read, false, s.receiveTimeout, startedAt⟩
      simp only [Reads.call, hwaits]
      split
      · rename_i hvalue
        exact ⟨hbegin.answer fun hagain _ => absurd hagain hvalue, nofun⟩
      · exact ⟨hbegin.answer nofun, nofun⟩

/-- **Every event keeps the reads right.** -/
theorem ReadsRight.step (h : ReadsRight proxy s) (e : ReadEvent) :
    ReadsRight proxy (s.step proxy e) := by
  cases e with
  | message msg => exact ⟨h.toAccounted.message msg, h.mayWait⟩
  | fails errno => exact ⟨h.toAccounted.congr rfl rfl rfl rfl rfl, h.mayWait⟩
  | peer state => exact ⟨h.toAccounted.congr rfl rfl rfl rfl rfl, h.mayWait⟩
  | setReceiveTimeout ms =>
    rw [Reads.step]
    split
    · exact h
    · exact ⟨h.toAccounted.congr rfl rfl rfl rfl rfl, h.mayWait⟩
  | setNonBlocking nonBlocking =>
    rw [Reads.step]
    split
    · exact h
    · exact ⟨h.toAccounted.congr rfl rfl rfl rfl rfl, h.mayWait⟩
  | call function read startedAt now =>
    rw [Reads.step]
    split
    · exact h
    · rename_i hidle
      exact h.call (by simpa using hidle) function read startedAt now
  | timer now =>
    rw [Reads.step]
    cases hw : s.waiting with
    | none => exact h
    | some c => exact Accounted.poll (hw ▸ h.toAccounted) (h.mayWait c hw) now

/-- After an attempt, a call waits for a reason. -/
theorem waiting_poll {now : Int} {c' : ReadCall}
    (h : (s.poll proxy c now).waiting = some c') :
    (s.poll proxy c now).sock.Quiet ∧ c'.expired now = false := by
  rw [Reads.poll_eq] at h ⊢
  by_cases hvalue : (recvfromNow proxy s.sock c.read).1.value = -eagain
  · rw [if_neg (not_not.2 hvalue)] at h ⊢
    split at h
    · cases h
    · rename_i hexpired
      rw [if_neg hexpired]
      cases h
      exact ⟨(quiet_of_eagain hvalue).1, by simpa using hexpired⟩
  · rw [if_pos hvalue] at h
    cases h

theorem waitsForReason_step (s : Reads) (e : ReadEvent) : WaitsForReason proxy s e := by
  intro now hnow c hc
  cases e with
  | call function read startedAt now' =>
    rw [ReadEvent.attemptAt] at hnow
    rw [Reads.step] at hc ⊢
    split at hnow
    · cases hnow
    · rename_i hidle
      cases hnow
      rw [if_neg hidle] at hc ⊢
      cases function with
      | recv => exact waiting_poll hc
      | recvfrom =>
        cases hwaits : !(s.nonBlocking || msgDontwait read.flags) with
        | true =>
          rw [Reads.call_recvfrom hwaits] at hc ⊢
          exact waiting_poll hc
        | false =>
          simp only [Reads.call, hwaits] at hc
          split at hc <;> cases hc
  | timer now' =>
    cases hnow
    rw [Reads.step] at hc ⊢
    cases hw : s.waiting with
    | none =>
      rw [hw] at hc
      exact absurd (hw.symm.trans hc) nofun
    | some c' =>
      rw [hw] at hc
      exact waiting_poll hc
  | _ => cases hnow

end Step

/-- **The reads are right**, whatever happens to the socket and in whatever order: every call is
answered once, or waits; what the calls were given and what is still queued is what has arrived;
`EAGAIN` is said to a call that may wait only when its time is over, and it goes on waiting only
where there is nothing to tell it. -/
theorem readsRight (proxy : Bool) (sock : Receiver) (nonBlocking : Bool)
    (receiveTimeout : Option Nat) (events : List ReadEvent) :
    ReadsRight proxy (run (Reads.step proxy) (.start sock nonBlocking receiveTimeout) events) ∧
      Along (Reads.step proxy) (WaitsForReason proxy) (.start sock nonBlocking receiveTimeout)
        events := by
  have hstart : ReadsRight proxy (.start sock nonBlocking receiveTimeout) :=
    ⟨⟨rfl, fun _ => rfl, fun _ => ⟨[], rfl, .nil⟩, nofun⟩, nofun⟩
  refine ⟨run_inv_of_step (fun s e h => h.step e) hstart events, ?_⟩
  rw [along_iff_split]
  exact fun pre e _ _ => waitsForReason_step (run (Reads.step proxy) _ pre) e

/-! ## The one beside the other -/

/-- The same event, with calls of the other function. -/
def ReadEvent.calling (function : ReadFunction) : ReadEvent → ReadEvent
  | .call _ read startedAt now => .call function read startedAt now
  | e => e

/-- The event leaves the socket blocking, and does not read it with `MSG_DONTWAIT`. -/
def ReadEvent.Blocking : ReadEvent → Prop
  | .call _ read _ _ => msgDontwait read.flags = false
  | .setNonBlocking nonBlocking => nonBlocking = false
  | _ => True

/-- What `wasm_recv` returns where `wasm_recvfrom` returns `value`: an error but `EAGAIN` is `0`. -/
def asRecvValue (value : Int) : Int := if 0 < value ∨ value = -eagain then value else 0

def ReadCall.asRecv (c : ReadCall) : ReadCall := { c with function := .recv }

def ReadAnswer.asRecv (a : ReadAnswer) : ReadAnswer :=
  { a with call := a.call.asRecv, value := asRecvValue a.value }

/-- The state that `wasm_recv` would have led to. -/
def Reads.asRecv (s : Reads) : Reads :=
  { s with waiting := s.waiting.map ReadCall.asRecv, answers := s.answers.map ReadAnswer.asRecv }

/-- Only calls of `wasm_recvfrom` on a blocking socket wait. -/
structure Reads.ByRecvfrom (s : Reads) : Prop where
  blocking : s.nonBlocking = false
  function : ∀ c, s.waiting = some c → c.function = .recvfrom

section Simulation

variable {proxy : Bool} {s : Reads}

theorem Reads.asRecv_answer (c : ReadCall) (now : Int) (result : RecvResult) (value : Int)
    (s : Reads) : (answer c now result value s).asRecv =
      answer c.asRecv now result (asRecvValue value) s.asRecv := by
  simp [Reads.asRecv, answer, ReadAnswer.asRecv]

/-- An attempt of the one is an attempt of the other. -/
theorem Reads.asRecv_poll {c : ReadCall} (hc : c.function = .recvfrom) (now : Int) (s : Reads) :
    (s.poll proxy c now).asRecv = s.asRecv.poll proxy c.asRecv now := by
  have hsock : s.asRecv.sock = s.sock := rfl
  rw [poll_eq, poll_eq, hsock]
  have hread : c.asRecv.read = c.read := rfl
  have hexpired : c.asRecv.expired now = c.expired now := rfl
  rw [hread, hexpired]
  by_cases hvalue : (recvfromNow proxy s.sock c.read).1.value = -eagain
  · rw [if_neg (not_not.2 hvalue), if_neg (not_not.2 hvalue)]
    by_cases hover : c.expired now = true
    · rw [if_pos hover, if_pos hover, asRecv_answer, asRecvValue, if_pos (.inr rfl)]
      rfl
    · rw [if_neg hover, if_neg hover]
      rfl
  · rw [if_pos hvalue, if_pos hvalue, asRecv_answer, hc]
    simp only [ReadCall.asRecv, ReadFunction.wakeUp, asRecvValue, hvalue, or_false]
    rfl

/-- A call of the one is a call of the other. -/
theorem Reads.asRecv_call {read : Read} (hblocking : s.nonBlocking = false)
    (hread : msgDontwait read.flags = false) (startedAt now : Int) :
    (s.call proxy .recvfrom read startedAt now).asRecv =
      s.asRecv.call proxy .recv read startedAt now := by
  have hwaits : (!(s.nonBlocking || msgDontwait read.flags)) = true := by rw [hblocking, hread]; rfl
  rw [call_recvfrom hwaits, asRecv_poll rfl]
  rfl

theorem Reads.asRecv_step (h : s.ByRecvfrom) {e : ReadEvent} (he : e.Blocking) :
    (s.step proxy (e.calling .recvfrom)).asRecv = s.asRecv.step proxy (e.calling .recv) := by
  have hsome : s.asRecv.waiting.isSome = s.waiting.isSome := Option.isSome_map
  cases e with
  | call function read startedAt now =>
    simp only [ReadEvent.calling, step, hsome]
    split
    · rfl
    · exact asRecv_call h.blocking he startedAt now
  | timer now =>
    cases hw : s.waiting with
    | none => simp [ReadEvent.calling, step, Reads.asRecv, hw]
    | some c =>
      have hmap : s.asRecv.waiting = some c.asRecv := by rw [Reads.asRecv, hw]; rfl
      simp only [ReadEvent.calling, step, hw, hmap]
      exact asRecv_poll (h.function c hw) now s
  | setReceiveTimeout ms =>
    simp only [ReadEvent.calling, step, hsome]
    split <;> rfl
  | setNonBlocking nonBlocking =>
    simp only [ReadEvent.calling, step, hsome]
    split <;> rfl
  | _ => rfl

theorem Reads.ByRecvfrom.poll {c : ReadCall} (h : s.nonBlocking = false)
    (hc : c.function = .recvfrom) (now : Int) : (s.poll proxy c now).ByRecvfrom := by
  rw [poll_eq]
  split
  · exact ⟨h, nofun⟩
  · split
    · exact ⟨h, nofun⟩
    · refine ⟨h, ?_⟩
      rintro c' ⟨⟩
      exact hc

theorem Reads.ByRecvfrom.step (h : s.ByRecvfrom) {e : ReadEvent} (he : e.Blocking) :
    (s.step proxy (e.calling .recvfrom)).ByRecvfrom := by
  cases e with
  | call function read startedAt now =>
    have hwaits : (!(s.nonBlocking || msgDontwait read.flags)) = true := by
      rw [h.blocking, he]
      rfl
    simp only [ReadEvent.calling, Reads.step]
    split
    · exact h
    · rw [call_recvfrom hwaits]
      have hblocking : { s with calls := s.calls ++ [read] }.nonBlocking = false := h.blocking
      exact .poll (c := ⟨.recvfrom, read, true, s.receiveTimeout, startedAt⟩) hblocking rfl now
  | timer now =>
    simp only [ReadEvent.calling, Reads.step]
    cases hw : s.waiting with
    | none => exact h
    | some c => exact .poll h.blocking (h.function c hw) now
  | setReceiveTimeout ms =>
    simp only [ReadEvent.calling, Reads.step]
    split
    · exact h
    · exact ⟨h.blocking, h.function⟩
  | setNonBlocking nonBlocking =>
    simp only [ReadEvent.calling, Reads.step]
    split
    · exact h
    · exact ⟨he, h.function⟩
  | _ => exact ⟨h.blocking, h.function⟩

end Simulation

/-- **`wasm_recv` does what `wasm_recvfrom` does** on a blocking socket: at the end of any run the
same messages are queued, the same call waits, and the same calls are answered, at the same times
and with the same data.  Only an error but `EAGAIN` is not reported: it looks like the end of the
stream. -/
theorem recv_simulates (proxy : Bool) (sock : Receiver) (receiveTimeout : Option Nat)
    (events : List ReadEvent) (h : ∀ e ∈ events, e.Blocking) :
    run (Reads.step proxy) (.start sock false receiveTimeout) (events.map (·.calling .recv)) =
      (run (Reads.step proxy) (.start sock false receiveTimeout)
        (events.map (·.calling .recvfrom))).asRecv := by
  have hrun : ∀ s : Reads, s.ByRecvfrom →
      run (Reads.step proxy) s.asRecv (events.map (·.calling .recv)) =
        (run (Reads.step proxy) s (events.map (·.calling .recvfrom))).asRecv := by
    induction events with
    | nil => exact fun _ _ => rfl
    | cons e events ih =>
      rw [List.forall_mem_cons] at h
      intro s hs
      rw [List.map_cons, List.map_cons, run_cons, run_cons, ← Reads.asRecv_step hs h.1]
      exact ih h.2 _ (hs.step h.1)
  exact hrun (.start sock false receiveTimeout) ⟨rfl, nofun⟩

/-- A peer that fails while a call waits. -/
theorem recv_simulates_failing_peer :
    let events : List ReadEvent := [.call .recv ⟨16, 0#32⟩ 0 0, .fails 14, .timer 20]
    let start : Reads := .start ⟨.dgram, false, [], none, none⟩ false (some 100)
    run (Reads.step false) start (events.map (·.calling .recv)) =
      (run (Reads.step false) start (events.map (·.calling .recvfrom))).asRecv :=
  recv_simulates false _ _ _ fun e he => by
    simp only [List.mem_cons, List.not_mem_nil, or_false] at he
    rcases he with rfl | rfl | rfl
    · rfl
    · trivial
    · trivial

end PhpWasm.Socket
