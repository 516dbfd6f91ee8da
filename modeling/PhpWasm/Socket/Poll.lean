import Mathlib.Data.List.Dedup
import Mathlib.Data.List.TakeWhile

/-!
# Polling a socket

`wasm_poll_socket` is what `poll(2)` and `select(2)` become for a WebSocket-backed socket.  It
looks at the socket once and either answers, or waits for its timer, or races the events of the
socket's WebSockets against it.

* `pollStart` is that first look, with every early exit of the source in its place.
* `wasmPollSocket` runs what was decided against a list of events: everything that happens on the
  WebSockets before the timeout.
* `pollAnswers_iff`: when the answer for a datagram socket polled with `POLLIN` is sound and
  complete.  It is not when the socket is bound and has datagrams queued, when an error is pending
  but no WebSocket is dead, when a dead WebSocket hides the live ones, and when a WebSocket closes
  with nothing to read.
-/

set_option autoImplicit false

namespace PhpWasm.Socket

/-! ## Sockets -/

/-- `WebSocket.readyState`. -/
inductive ReadyState
  | connecting
  | open
  | closing
  | closed
  deriving DecidableEq

/-- A WebSocket, by its identity and its state when the poll begins. -/
structure WebSocket where
  id : Nat
  readyState : ReadyState
  deriving DecidableEq

/-- The WebSocket will not deliver another event. -/
def WebSocket.Dead (ws : WebSocket) : Prop := ws.readyState = .closing ∨ ws.readyState = .closed

instance (ws : WebSocket) : Decidable ws.Dead := inferInstanceAs (Decidable (_ ∨ _))

/-- A message as it lies in a queue. -/
abbrev Message := List UInt8

/-- `SOCK_DGRAM`. -/
def sockDgram : Nat := 2

/-- A connection that waits to be accepted. -/
structure PendingSock where
  recvQueue : List Message
  peers : List WebSocket

/-- A socket of SOCKFS. -/
structure Sock where
  type : Nat
  /-- The clients of `sock.server`, once the socket listens; binding a datagram socket makes it
  listen. -/
  server : Option (List WebSocket)
  pending : List PendingSock
  recvQueue : List Message
  /-- The pending errno, which the next read reports. -/
  error : Option Nat
  peers : List WebSocket
  /-- Connections wait on stream sockets only; a datagram socket takes a connection's WebSocket
  for a peer. -/
  pending_dgram : type = sockDgram → pending = []

namespace Sock

variable (sock : Sock)

/-- What makes the next read return something else than `EAGAIN`. -/
def Ready : Prop := sock.recvQueue ≠ [] ∨ sock.error ≠ none

instance : Decidable sock.Ready := inferInstanceAs (Decidable (_ ∨ _))

/-- `PHPWASM.getAllPeers`. -/
def getAllPeers : List WebSocket :=
  ((if sock.server.isSome then sock.pending.flatMap PendingSock.peers else []) ++ sock.peers).dedup

/-- `PHPWASM.getAllWebSockets`. -/
def getAllWebSockets : List WebSocket := (sock.server.getD [] ++ sock.getAllPeers).dedup

end Sock

/-! ## Events -/

/-- What happens on a WebSocket. -/
inductive EventKind
  | open
  | message (data : Message)
  | error (errno : Nat)
  | close
  deriving DecidableEq

/-- The names listeners are registered under. -/
inductive EventName
  | open
  | message
  | error
  | close
  deriving DecidableEq

/-- The name of an event. -/
def EventKind.name : EventKind → EventName
  | .open => .open
  | .message _ => .message
  | .error _ => .error
  | .close => .close

/-- An event on one of the WebSockets of a socket. -/
structure WsEvent (sock : Sock) where
  ws : WebSocket
  mem : ws ∈ sock.getAllWebSockets
  kind : EventKind

/-- What SOCKFS does with an event.  The ready states are not kept up to date: the poll reads them
when it begins and never again. -/
def Sock.deliver (sock : Sock) : EventKind → Sock
  | .message data => { sock with recvQueue := sock.recvQueue ++ [data] }
  | .error errno => { sock with error := some errno }
  | .open => sock
  | .close => sock

/-! ## The poll -/

/-- `POLLIN`. -/
def pollIn : BitVec 32 := 0x0001#32
/-- `POLLPRI`. -/
def pollPri : BitVec 32 := 0x0002#32
/-- `POLLOUT`. -/
def pollOut : BitVec 32 := 0x0004#32
/-- `POLLERR`. -/
def pollErr : BitVec 32 := 0x0008#32
/-- `POLLHUP`. -/
def pollHup : BitVec 32 := 0x0010#32
/-- `POLLNVAL`. -/
def pollNval : BitVec 32 := 0x0020#32

/-- A promise of the race. -/
inductive Poll
  /-- `Promise.resolve()`. -/
  | resolved
  /-- `PHPWASM.awaitEvent(ws, event)`. -/
  | event (ws : Nat) (name : EventName)
  deriving DecidableEq

/-- `PHPWASM.awaitData`. -/
def awaitData (ws : WebSocket) : Poll := .event ws.id .message

/-- `PHPWASM.awaitConnection`. -/
def awaitConnection (ws : WebSocket) : Poll :=
  if ws.readyState = .open then .resolved else .event ws.id .open

/-- `PHPWASM.awaitClose`. -/
def awaitClose (ws : WebSocket) : Poll := if ws.Dead then .resolved else .event ws.id .close

/-- `PHPWASM.awaitError`. -/
def awaitError (ws : WebSocket) : Poll := if ws.Dead then .resolved else .event ws.id .error

/-- What the first look decides. -/
inductive Start
  /-- `wakeUp(v)` at once. -/
  | now (v : Int)
  /-- The race of the promises.  `timer` says whether `wakeUp(0)` is scheduled. -/
  | race (polls : List Poll) (timer : Bool)
  deriving DecidableEq

/-- The promises that are pushed for one WebSocket. -/
def pollsFor (events : BitVec 32) (ws : WebSocket) : List Poll :=
  (if events &&& pollIn ≠ 0 ∨ events &&& pollPri ≠ 0 then [awaitData ws] else []) ++
  (if events &&& pollOut ≠ 0 then [awaitConnection ws] else []) ++
  (if events &&& pollHup ≠ 0 ∨ events &&& pollIn ≠ 0 ∨ events &&& pollOut ≠ 0 ∨
      events &&& pollErr ≠ 0 then [awaitClose ws] else []) ++
  (if events &&& pollErr ≠ 0 ∨ events &&& pollNval ≠ 0 then [awaitError ws] else [])

/-- The queue that is looked at first: on a listening socket, the queues of the connections that
wait to be accepted, and the socket's own queue otherwise. -/
def Sock.hasInput (sock : Sock) : Bool :=
  if sock.server.isSome then sock.pending.any fun client => client.recvQueue ≠ []
  else sock.recvQueue ≠ []

/-- The socket branch of `wasm_poll_socket`, up to where it starts to wait. -/
def pollStart (sock : Sock) (events : BitVec 32) (timeout : Int) : Start :=
  if (events &&& pollIn ≠ 0 ∨ events &&& pollPri ≠ 0) ∧ sock.hasInput then .now 1
  else
    let webSockets := sock.getAllWebSockets
    if webSockets = [] then .now 0
    else if ∃ ws ∈ webSockets, ws.Dead then
      if sock.type ≠ sockDgram ∨ sock.error ≠ none ∨ sock.recvQueue ≠ [] then .now 1
      -- no listener is installed, also not on the WebSockets that are alive
      else .race [] (timeout ≠ -1)
    else
      let polls := webSockets.flatMap (pollsFor events)
      -- "Unsupported poll event": the timer runs whatever the timeout
      if polls = [] then .race [] true else .race polls (timeout ≠ -1)

/-- How a poll ends. -/
inductive PollResult
  /-- `wakeUp(v)`, and the socket at that moment. -/
  | resolved (v : Int) (sock : Sock)
  /-- No `wakeUp`. -/
  | pending

/-- A promise of the race is settled by an event. -/
def Poll.hears (ws : WebSocket) (name : EventName) (p : Poll) : Bool := p = .event ws.id name

/-- The race, run against the events before the timeout. -/
def raceEvents {sock₀ : Sock} (polls : List Poll) (timer : Bool) :
    Sock → List (WsEvent sock₀) → PollResult
  | sock, [] => if timer then .resolved 0 sock else .pending
  | sock, e :: es =>
    let sock' := sock.deliver e.kind
    if polls.any (Poll.hears e.ws e.kind.name) then .resolved 1 sock'
    else raceEvents polls timer sock' es

/-- `wasm_poll_socket` on a socket, with the events that happen before the timeout. -/
def wasmPollSocket (sock : Sock) (events : BitVec 32) (timeout : Int)
    (trace : List (WsEvent sock)) : PollResult :=
  match pollStart sock events timeout with
  | .now v => .resolved v sock
  | .race polls timer =>
    -- a promise that is resolved from the start wins before any event
    if Poll.resolved ∈ polls then .resolved 1 sock else raceEvents polls timer sock trace

/-! ## What is asked of the answer -/

/-- The event makes the socket ready. -/
def EventKind.Readies : EventKind → Prop
  | .message _ => True
  | .error _ => True
  | .open => False
  | .close => False

instance : ∀ k : EventKind, Decidable k.Readies
  | .message _ | .error _ => inferInstanceAs (Decidable True)
  | .open | .close => inferInstanceAs (Decidable False)

/-- **Soundness**: `1` is answered only when the next read returns something. -/
def PollResult.Sound : PollResult → Prop
  | resolved v sock => v = 1 → sock.Ready
  | pending => True

/-- The answer is `1`. -/
def PollResult.Wakes : PollResult → Prop
  | resolved v _ => v = 1
  | pending => False

/-- **What is asked of a poll**: it is sound, and it answers `1` whenever the socket is ready when
the poll begins or becomes so before the timeout. -/
def PollAnswers (sock : Sock) (timeout : Int) (trace : List (WsEvent sock)) : Prop :=
  (wasmPollSocket sock pollIn timeout trace).Sound ∧
    (sock.Ready ∨ (∃ e ∈ trace, e.kind.Readies) → (wasmPollSocket sock pollIn timeout trace).Wakes)

/-! ## When a datagram socket is answered -/

/-- The event settles the race of a poll for input. -/
def EventKind.wakes : EventKind → Bool
  | .message _ => true
  | .close => true
  | .open => false
  | .error _ => false

/-- The race on live WebSockets answers well: a message wakes it, or a close that comes when the
socket is ready already, or nothing happens that makes the socket ready. -/
def RaceAnswers (sock : Sock) (kinds : List EventKind) : Prop :=
  match kinds.find? EventKind.wakes with
  | some (.message _) => True
  | some _ => sock.Ready ∨ ∃ k ∈ kinds.takeWhile (!·.wakes), k.Readies
  | none => ¬ sock.Ready ∧ ∀ k ∈ kinds, ¬ k.Readies

/-- **When the answer is right**, by what the first look finds. -/
def Answerable (sock : Sock) (trace : List (WsEvent sock)) : Prop :=
  -- an unbound socket with a queued datagram
  (sock.server = none ∧ sock.recvQueue ≠ []) ∨
  -- no WebSocket, and nothing to report
  (sock.getAllWebSockets = [] ∧ ¬ sock.Ready) ∨
  -- a dead WebSocket, and something to report, or nothing that ever makes the socket ready
  ((∃ ws ∈ sock.getAllWebSockets, ws.Dead) ∧ (sock.Ready ∨ ∀ e ∈ trace, ¬ e.kind.Readies)) ∨
  -- only live ones
  (sock.getAllWebSockets ≠ [] ∧ (∀ ws ∈ sock.getAllWebSockets, ¬ ws.Dead) ∧
    RaceAnswers sock (trace.map WsEvent.kind))

@[simp] theorem ready_deliver (sock : Sock) (k : EventKind) :
    (sock.deliver k).Ready ↔ sock.Ready ∨ k.Readies := by
  cases k <;> simp [Sock.deliver, Sock.Ready, EventKind.Readies]

/-- Before anything wakes the race, an event only counts by making the socket ready. -/
theorem raceAnswers_cons_of_not_wakes {sock : Sock} {k : EventKind} (hk : k.wakes = false)
    (ks : List EventKind) : RaceAnswers sock (k :: ks) ↔ RaceAnswers (sock.deliver k) ks := by
  have hfind : (k :: ks).find? EventKind.wakes = ks.find? EventKind.wakes := by
    rw [List.find?_cons_of_neg (by simp [hk])]
  have htake : (k :: ks).takeWhile (!·.wakes) = k :: ks.takeWhile (!·.wakes) := by
    rw [List.takeWhile_cons, hk]
    rfl
  rw [RaceAnswers, RaceAnswers, hfind, htake]
  split
  · exact Iff.rfl
  · simp [or_assoc]
  · simp [and_assoc]

/-- **The race**, when its promises are those of a poll for input. -/
theorem raceEvents_answers {sock₀ : Sock} {polls : List Poll} (timer : Bool)
    (hpolls : ∀ e : WsEvent sock₀,
      polls.any (Poll.hears e.ws e.kind.name) = e.kind.wakes)
    (sock : Sock) (trace : List (WsEvent sock₀)) :
    ((raceEvents polls timer sock trace).Sound ∧
      (sock.Ready ∨ (∃ e ∈ trace, e.kind.Readies) → (raceEvents polls timer sock trace).Wakes)) ↔
    RaceAnswers sock (trace.map WsEvent.kind) := by
  induction trace generalizing sock with
  | nil => cases timer <;> simp [raceEvents, RaceAnswers, PollResult.Sound, PollResult.Wakes]
  | cons e es ih =>
    rw [raceEvents, hpolls e, List.map_cons]
    cases hk : e.kind.wakes with
    | false =>
      rw [raceAnswers_cons_of_not_wakes hk, ← ih]
      simp [or_assoc]
    | true =>
      rw [RaceAnswers, List.find?_cons_of_pos hk, List.takeWhile_cons, hk]
      cases hkind : e.kind with
      | message data => simp [PollResult.Sound, PollResult.Wakes, EventKind.Readies]
      | close => simp [PollResult.Sound, PollResult.Wakes, EventKind.Readies]
      | «open» => rw [hkind] at hk; cases hk
      | error errno => rw [hkind] at hk; cases hk

/-- The promises of a poll for input on live WebSockets. -/
theorem pollsFor_pollIn {ws : WebSocket} (hlive : ¬ ws.Dead) :
    pollsFor pollIn ws = [.event ws.id .message, .event ws.id .close] := by
  have hin : ¬ pollIn = 0#32 := by decide
  have hout : pollIn &&& pollOut = 0 := by decide
  have herr : pollIn &&& pollErr = 0 := by decide
  have hnval : pollIn &&& pollNval = 0 := by decide
  simp [pollsFor, hin, hout, herr, hnval, awaitData, awaitClose, hlive]

/-- They hear what wakes a poll for input, on each WebSocket of the socket. -/
theorem any_hears_pollIn {sock : Sock} (hlive : ∀ ws ∈ sock.getAllWebSockets, ¬ ws.Dead)
    (e : WsEvent sock) :
    (sock.getAllWebSockets.flatMap (pollsFor pollIn)).any (Poll.hears e.ws e.kind.name) =
      e.kind.wakes := by
  have hmem : ∀ p, p ∈ sock.getAllWebSockets.flatMap (pollsFor pollIn) ↔
      ∃ ws ∈ sock.getAllWebSockets, p = .event ws.id .message ∨ p = .event ws.id .close := by
    intro p
    rw [List.mem_flatMap]
    refine exists_congr fun ws => and_congr_right fun hws => ?_
    rw [pollsFor_pollIn (hlive ws hws)]
    simp
  rw [Bool.eq_iff_iff, List.any_eq_true]
  constructor
  · rintro ⟨p, hp, hhears⟩
    obtain ⟨ws, -, rfl | rfl⟩ := (hmem p).1 hp
    all_goals
      cases hkind : e.kind <;> simp [Poll.hears, hkind, EventKind.name, EventKind.wakes] at *
  · intro hw
    refine ⟨.event e.ws.id e.kind.name, (hmem _).2 ⟨e.ws, e.mem, ?_⟩, by simp [Poll.hears]⟩
    cases hkind : e.kind <;> simp [hkind, EventKind.name, EventKind.wakes] at *

/-- On a datagram socket only the socket's own queue is ever looked at first, and only when it is
not bound. -/
theorem hasInput_dgram {sock : Sock} (hd : sock.type = sockDgram) :
    sock.hasInput = true ↔ sock.server = none ∧ sock.recvQueue ≠ [] := by
  rw [Sock.hasInput, sock.pending_dgram hd]
  cases sock.server <;> simp

/-- **The first look at a datagram socket polled for input.** -/
theorem pollStart_dgram {sock : Sock} (hd : sock.type = sockDgram) (timeout : Int) :
    pollStart sock pollIn timeout =
      if sock.server = none ∧ sock.recvQueue ≠ [] then .now 1
      else if sock.getAllWebSockets = [] then .now 0
      else if ∃ ws ∈ sock.getAllWebSockets, ws.Dead then
        if sock.Ready then .now 1 else .race [] (timeout ≠ -1)
      else .race (sock.getAllWebSockets.flatMap (pollsFor pollIn)) (timeout ≠ -1) := by
  have hin : pollIn &&& pollIn ≠ 0 := by decide
  have hready : (sock.type ≠ sockDgram ∨ sock.error ≠ none ∨ sock.recvQueue ≠ []) ↔ sock.Ready := by
    rw [Sock.Ready, or_comm (a := sock.recvQueue ≠ [])]
    simp [hd]
  rw [pollStart]
  simp only [hin, true_or, true_and, hasInput_dgram hd, hready, ne_eq, not_false_eq_true]
  by_cases hnil : sock.getAllWebSockets = []
  · simp [hnil]
  · by_cases hdead : ∃ ws ∈ sock.getAllWebSockets, ws.Dead
    · simp [hnil, hdead]
    · -- every live WebSocket contributes a promise, so the race is never empty
      have hpolls : sock.getAllWebSockets.flatMap (pollsFor pollIn) ≠ [] := by
        obtain ⟨ws, hws⟩ := List.exists_mem_of_ne_nil _ hnil
        intro hempty
        have hws' := List.flatMap_eq_nil_iff.1 hempty ws hws
        rw [pollsFor_pollIn fun h => hdead ⟨ws, hws, h⟩] at hws'
        cases hws'
      simp [hnil, hdead, hpolls]

/-- Without a listener nothing but the timer ends the race. -/
theorem raceEvents_nil {sock₀ : Sock} (timer : Bool) (sock : Sock) (trace : List (WsEvent sock₀)) :
    (raceEvents [] timer sock trace).Sound ∧ ¬ (raceEvents [] timer sock trace).Wakes := by
  induction trace generalizing sock with
  | nil => cases timer <;> simp [raceEvents, PollResult.Sound, PollResult.Wakes]
  | cons e es ih => exact ih (sock.deliver e.kind)

/-- No promise of a poll for input on live WebSockets is settled from the start. -/
theorem resolved_notMem {sock : Sock} (hlive : ∀ ws ∈ sock.getAllWebSockets, ¬ ws.Dead) :
    Poll.resolved ∉ sock.getAllWebSockets.flatMap (pollsFor pollIn) := by
  rw [List.mem_flatMap]
  rintro ⟨ws, hws, hmem⟩
  rw [pollsFor_pollIn (hlive ws hws)] at hmem
  simp at hmem

/-- **When the answer for a datagram socket is sound and complete**, for every state of the socket
and its WebSockets, every timeout and everything that happens before it. -/
theorem pollAnswers_iff {sock : Sock} (hd : sock.type = sockDgram) (timeout : Int)
    (trace : List (WsEvent sock)) : PollAnswers sock timeout trace ↔ Answerable sock trace := by
  rw [PollAnswers, wasmPollSocket, pollStart_dgram hd, Answerable]
  by_cases hqueue : sock.server = none ∧ sock.recvQueue ≠ []
  · have hready : sock.Ready := Or.inl hqueue.2
    simp [hqueue, hready, PollResult.Sound, PollResult.Wakes]
  rw [if_neg hqueue]
  by_cases hnil : sock.getAllWebSockets = []
  · -- there is no WebSocket an event could be on
    have htrace : ∀ e ∈ trace, ¬ e.kind.Readies := by
      intro e _
      have := e.mem
      rw [hnil] at this
      cases this
    have hno : ¬ ∃ e ∈ trace, e.kind.Readies := fun ⟨e, he, hr⟩ => htrace e he hr
    simp [hnil, hqueue, hno, PollResult.Sound, PollResult.Wakes]
  rw [if_neg hnil]
  by_cases hdead : ∃ ws ∈ sock.getAllWebSockets, ws.Dead
  · have hlive : ¬ ∀ ws ∈ sock.getAllWebSockets, ¬ ws.Dead := by
      obtain ⟨ws, hws, h⟩ := hdead
      exact fun hall => hall ws hws h
    rw [if_pos hdead]
    by_cases hready : sock.Ready
    · simp [hready, hdead, hnil, PollResult.Sound, PollResult.Wakes]
    · obtain ⟨hsound, hwakes⟩ := raceEvents_nil (decide (timeout ≠ -1)) sock trace
      rw [if_neg hready]
      dsimp only
      rw [if_neg List.not_mem_nil]
      simp only [hsound, hwakes, hready, hdead, hlive, hnil, hqueue, false_or, true_and, imp_false,
        false_and, or_false, and_false, not_exists, not_and]
  · have hlive : ∀ ws ∈ sock.getAllWebSockets, ¬ ws.Dead := fun ws hws h => hdead ⟨ws, hws, h⟩
    rw [if_neg hdead]
    dsimp only
    rw [if_neg (resolved_notMem hlive), raceEvents_answers _ (any_hears_pollIn hlive)]
    simp only [hqueue, hnil, hdead, false_or, false_and, ne_eq, not_false_eq_true, true_and]
    exact ⟨fun h => ⟨hlive, h⟩, fun h => h.2⟩

/-- An open WebSocket. -/
def livePeer : WebSocket := ⟨0, .open⟩

/-- An unbound datagram socket with one open peer and nothing to read. -/
def liveDgram : Sock := ⟨sockDgram, none, [], [], none, [livePeer], fun _ => rfl⟩

/-- An event on its peer. -/
def liveEvent (kind : EventKind) : WsEvent liveDgram := ⟨livePeer, by decide, kind⟩

/-- A datagram arrives after an error. -/
theorem liveDgram_pollAnswers :
    PollAnswers liveDgram (-1) [liveEvent (.error 111), liveEvent (.message [7])] :=
  (pollAnswers_iff rfl (-1) _).2 (Or.inr (Or.inr (Or.inr ⟨by decide, by decide, trivial⟩)))

/-- The peer's WebSocket closes: the poll answers 1 and there is nothing to read. -/
theorem liveDgram_close_not_sound : ¬ PollAnswers liveDgram 1000 [liveEvent .close] := by
  intro h
  have hsound : liveDgram.Ready := h.1 rfl
  exact absurd hsound (by decide)

end PhpWasm.Socket
