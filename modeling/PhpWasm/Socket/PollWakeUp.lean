import PhpWasm.Base.Emitter
import PhpWasm.Base.Run
import PhpWasm.Socket.Poll

/-!
# How a poll resumes its caller

`wasm_poll_socket` suspends the caller and must resume it.  `PhpWasm.Socket.Poll` says what the
answer is; this file is about the machinery that delivers it: the timers, the listeners, the
polling loop and the continuation of `Promise.race`, which runs some time after the event that
settled the race.

* `arrange` is the first look, for every kind of descriptor.  `arrangeSocket` is what `pollStart`
  decides, with the plain timers told apart from the race (`start_arrangeSocket`).
* `step` is one event: something others do with the listeners, the continuation, the timeout, a
  timer of the polling loop or of a cancelled listener.  While `wakeUp` runs only the others act:
  the resumed caller is on the stack and the rest of the callback waits (`rest`).

`PhpWasm.Socket.PollResumes` is about its runs.
-/

set_option autoImplicit false

namespace PhpWasm.Socket

open Machine

/-! ## What is arranged -/

/-- Whose handler it is. -/
inductive Handler
  /-- The handler of the promise at an index of `polls`. -/
  | own (i : Nat)
  | other (n : Nat)
  deriving DecidableEq

/-- The handler was added by another call. -/
def Handler.isOther : Handler → Bool
  | own _ => false
  | other _ => true

/-- The handler was added by this call. -/
def Handler.isOwn (h : Handler) : Bool := !h.isOther

/-- The events of the WebSockets. -/
abbrev EventKey := Nat × EventName

/-- The listeners on the WebSockets. -/
abbrev Listeners := Emitter.Table EventKey Handler

/-- `SYSCALLS.DEFAULT_POLLMASK`, `POLLIN | POLLOUT`. -/
def defaultPollmask : BitVec 32 := 0x0005#32

/-- What a turn of the polling loop finds. -/
inductive Look
  /-- `FS.isClosed(stream)`. -/
  | closed
  /-- The answer of `stream.stream_ops.poll`, if there is one. -/
  | open (mask : Option (BitVec 32))
  /-- `stream.stream_ops.poll` throws an `ErrnoError`. -/
  | raises (errno : Nat)
  deriving DecidableEq

/-- The turn of the loop is its last one: the promise of `poll()` is resolved.  With what is not
looked at. -/
def Look.returns (events : BitVec 32) (interrupted : Bool) : Look → Bool
  | closed => true
  | .open mask =>
    decide (mask.getD defaultPollmask &&& (events ||| pollErr ||| pollHup) ≠ 0) || interrupted
  | raises _ => true

/-- A loop that is told to stop does. -/
@[simp] theorem returns_interrupted (events : BitVec 32) (look : Look) :
    look.returns events true = true := by
  cases look <;> simp [Look.returns]

/-- A promise of `polls`, with what its first turn finds where it is that of the polling loop. -/
inductive Entry
  | promise (p : Poll)
  | stream (first : Look)
  deriving DecidableEq

/-- The descriptor that is polled. -/
inductive Descriptor
  /-- `FS.isSocket` holds of it, with what `getSocketFromFD` returns. -/
  | socket (sock : Option Sock)
  /-- Its stream has a `poll` operation. -/
  | pollable (first : Look)
  /-- There is no stream, or it cannot be polled. -/
  | unpollable

/-- How the caller is going to be resumed. -/
inductive Arranged
  /-- `wakeUp(v)` at once. -/
  | now (v : Int)
  /-- `setTimeout(() => wakeUp(v), timeout)`. -/
  | timer (v : Int)
  /-- Not at all. -/
  | never
  /-- The race, and whether the timeout takes part. -/
  | race (polls : List Entry) (timer : Bool)
  deriving DecidableEq

/-- The branch for sockets. -/
def arrangeSocket (sock : Sock) (events : BitVec 32) (timeout : Int) : Arranged :=
  if (events &&& pollIn ≠ 0 ∨ events &&& pollPri ≠ 0) ∧ sock.hasInput then .now 1
  else
    let webSockets := sock.getAllWebSockets
    if webSockets = [] then .now 0
    else if ∃ ws ∈ webSockets, ws.Dead then
      if sock.type ≠ sockDgram ∨ sock.error ≠ none ∨ sock.recvQueue ≠ [] then .now 1
      else if timeout ≠ -1 then .timer 0 else .never
    else
      let polls := webSockets.flatMap (pollsFor events)
      -- "Unsupported poll event": the timer runs whatever the timeout
      if polls = [] then .timer 0 else .race (polls.map .promise) (timeout ≠ -1)

/-- The first look of `wasm_poll_socket`. -/
def arrange (events : BitVec 32) (timeout : Int) : Descriptor → Arranged
  | .socket none => .now 0
  | .socket (some sock) => arrangeSocket sock events timeout
  | .pollable first => .race [.stream first] (timeout ≠ -1)
  | .unpollable => .timer 1

/-- The promise as `PhpWasm.Socket.Poll` has it. -/
def Entry.poll : Entry → Option Poll
  | promise p => some p
  | stream _ => none

/-- What `PhpWasm.Socket.Poll` says about it: a plain timer is a race without promises. -/
def Arranged.start : Arranged → Start
  | .now v => .now v
  | .timer _ => .race [] true
  | .never => .race [] false
  | .race polls t => .race (polls.filterMap Entry.poll) t

@[simp] theorem start_now (v : Int) : (Arranged.now v).start = .now v := rfl

@[simp] theorem start_timer (v : Int) : (Arranged.timer v).start = .race [] true := rfl

@[simp] theorem start_never : Arranged.never.start = .race [] false := rfl

@[simp] theorem start_race (polls : List Poll) (t : Bool) :
    (Arranged.race (polls.map .promise) t).start = .race polls t := by
  rw [Arranged.start, List.filterMap_map]
  exact congrArg (Start.race · t) List.filterMap_some

/-- **The two readings of the first look agree.** -/
theorem start_arrangeSocket (sock : Sock) (events : BitVec 32) (timeout : Int) :
    (arrangeSocket sock events timeout).start = pollStart sock events timeout := by
  rw [arrangeSocket, pollStart]
  simp only [apply_ite Arranged.start, start_now, start_timer, start_never, start_race]
  by_cases h : timeout = -1 <;> simp [h]

/-! ## The state -/

/-- The continuation of `Promise.race`. -/
inductive Continuation
  /-- No promise is settled. -/
  | waiting
  | queued
  | done
  deriving DecidableEq

/-- Who called the `wakeUp` that is running. -/
inductive Resumer
  | continuation
  | timeout
  deriving DecidableEq

/-- The variables of a race and what it has pending. -/
structure Race where
  polls : List Entry
  events : BitVec 32
  continuation : Continuation
  awaken : Bool
  /-- The timer `timeoutId` is pending. -/
  timer : Bool
  /-- `wakeUp` has been called and has not returned. -/
  rest : Option Resumer
  interrupted : Bool
  /-- The polling loop waits for its timer of 10 ms. -/
  sleeping : Bool
  /-- The pending `setTimeout(resolve)` of the promises that were cancelled. -/
  resolves : List Nat
  deriving DecidableEq

/-- What is arranged and not over. -/
inductive Branch
  | over
  /-- The pending `setTimeout(() => wakeUp(v), timeout)`. -/
  | timer (v : Int)
  | race (r : Race)
  deriving DecidableEq

/-- A poll under way. -/
structure PollState where
  listeners : Listeners
  /-- What `wakeUp` was called with, call by call. -/
  wakeUps : List Int
  branch : Branch
  deriving DecidableEq

/-- A promise of the race is settled. -/
def Race.settle (r : Race) : Race :=
  if r.continuation = .waiting then { r with continuation := .queued } else r

/-- The listener of the promise at an index. -/
def Entry.listener : Entry × Nat → Option (Emitter.Listener EventKey Handler)
  | (.promise (.event ws name), i) => some ⟨(ws, name), .own i, true⟩
  | (.promise .resolved, _) => none
  | (.stream _, _) => none

/-- The listeners that are added for `polls`, each by `ws.once(event, listener)`. -/
def register (polls : List Entry) : Listeners := polls.zipIdx.filterMap Entry.listener

/-- The promise is settled from the start. -/
def Entry.settled (events : BitVec 32) : Entry → Bool
  | promise .resolved => true
  | promise (.event _ _) => false
  | stream first => first.returns events false

/-- The polling loop goes to sleep after its first turn. -/
def Entry.sleeps (events : BitVec 32) : Entry → Bool
  | promise _ => false
  | stream first => !first.returns events false

/-- The race as it begins. -/
def Race.begin (polls : List Entry) (events : BitVec 32) (timer : Bool) : Race where
  polls := polls
  events := events
  continuation := if polls.any (Entry.settled events) then .queued else .waiting
  awaken := false
  timer := timer
  rest := none
  interrupted := false
  sleeping := polls.any (Entry.sleeps events)
  resolves := []

/-- The listeners of others, in a table that this call uses too. -/
def ofOthers (t : Emitter.Table EventKey Nat) : Listeners :=
  t.map fun l => ⟨l.event, .other l.handler, l.once⟩

/-- **The call**, on WebSockets with the listeners of others. -/
def wasmPoll (d : Descriptor) (events : BitVec 32) (timeout : Int)
    (others : Emitter.Table EventKey Nat) : PollState :=
  match arrange events timeout d with
  | .now v => ⟨ofOthers others, [v], .over⟩
  | .timer v => ⟨ofOthers others, [], .timer v⟩
  | .never => ⟨ofOthers others, [], .over⟩
  | .race polls timer =>
    ⟨ofOthers others ++ register polls, [], .race (Race.begin polls events timer)⟩

/-! ## Its steps -/

/-- The `clear` of the promise at an index: `cancel` of `awaitEvent`, `noop`, or the end of the
polling loop. -/
def Entry.clear (s : Listeners × Race) : Entry × Nat → Listeners × Race
  | (.promise (.event ws name), i) =>
    (Emitter.removeListener s.1 (ws, name) (.own i), { s.2 with resolves := s.2.resolves ++ [i] })
  | (.promise .resolved, _) => s
  | (.stream _, _) => (s.1, { s.2 with interrupted := true })

/-- `clearPolling()`. -/
def clearPolling (listeners : Listeners) (r : Race) : Listeners × Race :=
  r.polls.zipIdx.foldl Entry.clear (listeners, r)

/-- What happens next. -/
inductive PollStep
  /-- Others use the listener tables, or an event is emitted. -/
  | outside (o : Emitter.Op EventKey Nat)
  /-- The continuation of the race runs. -/
  | continuation
  /-- The timeout is over. -/
  | timeout
  /-- `wakeUp` returns, and the callback that called it goes on to its end. -/
  | finish
  /-- The `setTimeout(resolve)` of a cancelled promise. -/
  | resolve (i : Nat)
  /-- The timer of the polling loop. -/
  | turn (look : Look)
  deriving DecidableEq

/-- What others do in a step, as an operation on the whole table. -/
def PollStep.op : PollStep → Option (Emitter.Op EventKey Handler)
  | outside o => some (o.map .other)
  | _ => none

/-- What others do in a run. -/
def outsides (trace : List PollStep) : List (Emitter.Op EventKey Handler) :=
  trace.filterMap PollStep.op

namespace PollState

variable (s : PollState)

/-- The event calls a handler of this poll. -/
def heard (k : EventKey) : Bool := (Emitter.called s.listeners k).any Handler.isOwn

/-- What an operation of the others does to the poll. -/
def outside (o : Emitter.Op EventKey Nat) : PollState where
  listeners := (o.map Handler.other).apply s.listeners
  wakeUps := s.wakeUps
  branch :=
    match s.branch, o with
    | .race r, .emit k => .race (if s.heard k then r.settle else r)
    | b, _ => b

/-- The continuation of the race, up to `wakeUp`. -/
def continuation (r : Race) : PollState :=
  if r.continuation = .queued then
    if !r.awaken then
      { s with
        wakeUps := s.wakeUps ++ [1]
        branch := .race
          { r with continuation := .done, awaken := true, rest := some .continuation } }
    else { s with branch := .race { r with continuation := .done } }
  else s

/-- The callback of the timeout, up to `wakeUp`. -/
def timeout (r : Race) : PollState :=
  if r.timer then
    if !r.awaken then
      { s with
        wakeUps := s.wakeUps ++ [0]
        branch := .race { r with timer := false, awaken := true, rest := some .timeout } }
    else { s with branch := .race { r with timer := false } }
  else s

/-- The rest of the callback after `wakeUp`.  The continuation clears the timeout first. -/
def finish (r : Race) (resumer : Resumer) : PollState :=
  let cleared := clearPolling s.listeners
    { r with timer := r.timer && resumer ≠ .continuation, rest := none }
  { s with listeners := cleared.1, branch := .race cleared.2 }

/-- The timer of a cancelled promise. -/
def resolve (r : Race) (i : Nat) : PollState :=
  if i ∈ r.resolves then
    { s with branch := .race { r with resolves := r.resolves.erase i }.settle }
  else s

/-- A turn of the polling loop after the first. -/
def turn (r : Race) (look : Look) : PollState :=
  if r.sleeping ∧ look.returns r.events r.interrupted then
    { s with branch := .race { r with sleeping := false }.settle }
  else s

/-- A callback of the race.  None runs while another one is on the stack. -/
def callback (f : Race → PollState) : PollState :=
  match s.branch with
  | .race r => if r.rest = none then f r else s
  | _ => s

/-- **One step.** -/
def step : PollStep → PollState
  | .outside o => s.outside o
  | .continuation => s.callback s.continuation
  | .timeout =>
    match s.branch with
    | .timer v => { s with wakeUps := s.wakeUps ++ [v], branch := .over }
    | _ => s.callback s.timeout
  | .finish =>
    match s.branch with
    | .race r => r.rest.elim s (s.finish r)
    | _ => s
  | .resolve i => s.callback (s.resolve · i)
  | .turn look => s.callback (s.turn · look)

end PollState

end PhpWasm.Socket
