import PhpWasm.Base.Assignments
import PhpWasm.Base.Run
import PhpWasm.Socket.Poll

/-!
# Socket options

`SO_KEEPALIVE` and `TCP_NODELAY` take effect on the far side of a socket's WebSocket.  A value that
is set goes to the WebSockets that are open and into a map, and the map is sent to a WebSocket once
it opens.  This file models `js_setsockopt`, `__syscall_getsockopt`, the wrapper around `connect`
and the WebSockets' own steps, which come in any order.

`optionsRight_iff`: whatever the order, a WebSocket that has opened has been sent the last value of
each option.  What may go wrong is that values are sent to a WebSocket that is closing by the time
its `open` event is delivered, and that is the only thing that may.
-/

set_option autoImplicit false

namespace PhpWasm.Socket

open Assignments Machine

/-! ## Sockets and WebSockets -/

/-- `SOL_SOCKET` -/
def solSocket : Int := 1
/-- `SO_KEEPALIVE` -/
def soKeepalive : Int := 9
/-- `SO_RCVTIMEO` -/
def soRcvtimeo : Int := 66
/-- `SO_SNDTIMEO` -/
def soSndtimeo : Int := 67
/-- `IPPROTO_TCP` -/
def ipprotoTcp : Int := 6
/-- `TCP_NODELAY` -/
def tcpNodelay : Int := 1
/-- `SOCK_STREAM` -/
def sockStream : Nat := 1
/-- `EINVAL` -/
def einval : Nat := 28
/-- `ENOPROTOOPT` -/
def enoprotoopt : Nat := 50

/-- A level and an option name, the key `level:name` of the map. -/
abbrev OptionKey := Int × Int

/-- A socket. -/
structure OptionSock where
  type : Nat
  /-- `proxiedSocketOptions.get(sock)` -/
  options : List (OptionKey × Nat)
  /-- `getAllWebSockets(sock)`, by number. -/
  webSockets : List Nat

/-- A value that was sent: whose it is, and the state of the WebSocket at that moment. -/
structure Sent where
  sock : Nat
  option : OptionKey × Nat
  readyState : ReadyState
  deriving DecidableEq

/-- A WebSocket of the proxy. -/
structure ProxySocket where
  /-- The socket it was created for. -/
  owner : Nat
  readyState : ReadyState
  /-- The `sendAll` listeners that wait for `open`, by their socket. -/
  onceOpen : List Nat
  /-- Its `open` event has been delivered. -/
  opened : Bool
  /-- What `setSocketOpt()` was called with. -/
  sent : List Sent

/-- All sockets and WebSockets. -/
structure Net where
  socks : Nat → OptionSock
  webSockets : Nat → ProxySocket
  /-- How many WebSockets there have been. -/
  count : Nat

/-- No WebSocket, and no option set, on sockets of the given types. -/
def Net.init (type : Nat → Nat) : Net where
  socks sock := ⟨type sock, [], []⟩
  webSockets _ := ⟨0, .closed, [], false, []⟩
  count := 0

/-! ## The code -/

/-- `isProxiedSocketOption` -/
def isProxiedSocketOption (type : Nat) (key : OptionKey) : Bool :=
  key == (solSocket, soKeepalive) || (key == (ipprotoTcp, tcpNodelay) && type == sockStream)

/-- `sendSocketOption` -/
def sendSocketOption (sock : Nat) (option : OptionKey × Nat) (ws : ProxySocket) : ProxySocket :=
  { ws with sent := ws.sent ++ [⟨sock, option, ws.readyState⟩] }

namespace Net

/-- `sendAll`: every option of the socket, in the order they were first set in. -/
def sendAll (net : Net) (ws : ProxySocket) (sock : Nat) : ProxySocket :=
  (net.socks sock).options.foldl (fun ws option => sendSocketOption sock option ws) ws

/-- `for (const ws of PHPWASM.getAllWebSockets(sock))` -/
def forWebSockets (net : Net) (sock : Nat) (f : ProxySocket → ProxySocket) : Net :=
  { net with webSockets := fun n =>
      if n ∈ (net.socks sock).webSockets then f (net.webSockets n) else net.webSockets n }

/-- `sendSocketOptionsOnOpen` -/
def sendSocketOptionsOnOpen (net : Net) (sock : Nat) : Net :=
  net.forWebSockets sock fun ws =>
    match ws.readyState with
    | .open => net.sendAll ws sock
    | .connecting => { ws with onceOpen := ws.onceOpen ++ [sock] }
    | _ => ws

/-- Another value for a socket. -/
def setSock (net : Net) (sock : Nat) (s : OptionSock) : Net :=
  { net with socks := fun n => if n = sock then s else net.socks n }

/-- Another value for a WebSocket. -/
def setWebSocket (net : Net) (ws : Nat) (w : ProxySocket) : Net :=
  { net with webSockets := fun n => if n = ws then w else net.webSockets n }

end Net

/-- What `optionValuePtr` and `optionLen` say. -/
structure OptionValue where
  /-- The pointer is null. -/
  null : Bool
  len : Int
  /-- `HEAP32[optionValuePtr >> 2]` -/
  int : Int
  /-- `HEAPU8[optionValuePtr]` -/
  byte : Nat
  /-- `parseSocketTimeout` -/
  timeout : Option Nat

/-- The int flag. -/
def OptionValue.flag (v : OptionValue) : Nat :=
  if (if 4 ≤ v.len then v.int else v.byte) ≠ 0 then 1 else 0

/-- The option is one of the timeouts, which are kept elsewhere. -/
def isTimeout (key : OptionKey) : Bool :=
  key == (solSocket, soRcvtimeo) || key == (solSocket, soSndtimeo)

/-- `js_setsockopt`, on the socket of its descriptor. -/
def jsSetsockopt (net : Net) (sock : Nat) (key : OptionKey) (v : OptionValue) : Int × Net :=
  if isTimeout key then (if v.timeout.isNone then -einval else 0, net)
  else if !isProxiedSocketOption (net.socks sock).type key then (-enoprotoopt, net)
  else if v.null ∨ v.len < 1 then (-einval, net)
  else
    let s := net.socks sock
    let net := net.setSock sock { s with options := assign key v.flag s.options }
    (0, net.forWebSockets sock fun ws =>
      if ws.readyState = .open then sendSocketOption sock (key, v.flag) ws else ws)

/-- `__syscall_getsockopt` for these two options: what it writes, or an errno. -/
def getsockopt (net : Net) (sock : Nat) (key : OptionKey) (len : Int) : Except Nat Nat :=
  if !isProxiedSocketOption (net.socks sock).type key then .error enoprotoopt
  else if len < 4 then .error einval
  else .ok ((first key (net.socks sock).options).getD 0)

/-! ## The steps -/

/-- How far a WebSocket has come. -/
def ReadyState.rank : ReadyState → Nat
  | connecting => 0
  | .open => 1
  | closing => 2
  | closed => 3

/-- A state only gives way to a later one. -/
def ReadyState.advance (s t : ReadyState) : ReadyState := if s.rank < t.rank then t else s

/-- One thing that happens. -/
inductive OptionStep
  | setsockopt (sock : Nat) (key : OptionKey) (v : OptionValue)
  /-- `sock_ops.connect` throws, or creates a WebSocket in some state. -/
  | connect (sock : Nat) (created : Option ReadyState)
  | ready (ws : Nat) (readyState : ReadyState)
  /-- The `open` event is delivered.  A WebSocket is not connecting any more by then. -/
  | opens (ws : Nat)
  /-- The WebSocket is closed and its peer removed, by `shutdownSocket` or a connect that failed. -/
  | close (ws : Nat)

namespace Net

/-- `originalConnect`, when it creates a WebSocket. -/
def originalConnect (net : Net) (sock : Nat) (created : ReadyState) : Net :=
  let s := net.socks sock
  let net' := net.setSock sock { s with webSockets := s.webSockets ++ [net.count] }
  { net'.setWebSocket net.count ⟨sock, created, [], false, []⟩ with count := net.count + 1 }

/-- The wrapper around `connect`. -/
def connect (net : Net) (sock : Nat) (created : ReadyState) : Net :=
  (net.originalConnect sock created).sendSocketOptionsOnOpen sock

/-- The listeners for `open` run, each once. -/
def opens (net : Net) (ws : Nat) : Net :=
  let w := net.webSockets ws
  let w := { w with readyState := w.readyState.advance .open, opened := true, onceOpen := [] }
  net.setWebSocket ws ((net.webSockets ws).onceOpen.foldl net.sendAll w)

/-- One step. -/
def step (net : Net) : OptionStep → Net
  | .setsockopt sock key v => (jsSetsockopt net sock key v).2
  | .connect _ none => net
  | .connect sock (some created) => net.connect sock created
  | .ready ws readyState =>
    let w := net.webSockets ws
    net.setWebSocket ws { w with readyState := w.readyState.advance readyState }
  | .opens ws => net.opens ws
  | .close ws =>
    let w := net.webSockets ws
    { net.setWebSocket ws { w with readyState := w.readyState.advance .closing } with
      socks := fun n => { net.socks n with
        webSockets := (net.socks n).webSockets.filter (· ≠ ws) } }

end Net

/-! ## What is asked of the options -/

/-- The values that were set, by socket and option. -/
def valuesSet (type : Nat → Nat) (steps : List OptionStep) : List ((Nat × OptionKey) × Nat) :=
  steps.filterMap fun
    | .setsockopt sock key v =>
      if isProxiedSocketOption (type sock) key ∧ ¬ (v.null ∨ v.len < 1) then
        some ((sock, key), v.flag)
      else none
    | _ => none

/-- The last value an option of a socket was set to. -/
def lastSet (type : Nat → Nat) (steps : List OptionStep) (sock : Nat) (key : OptionKey) :
    Option Nat :=
  last (sock, key) (valuesSet type steps)

/-- The last value of an option that a WebSocket was sent. -/
def ProxySocket.lastSent (ws : ProxySocket) (key : OptionKey) : Option Nat :=
  last key (ws.sent.map Sent.option)

/-- **The options are right** after some steps. -/
structure OptionsRight (type : Nat → Nat) (steps : List OptionStep) (net : Net) : Prop where
  /-- A WebSocket that has opened, and is open, knows the last value of each option. -/
  known : ∀ n < net.count, (net.webSockets n).opened = true →
    (net.webSockets n).readyState = .open →
      ∀ key, (net.webSockets n).lastSent key = lastSet type steps (net.webSockets n).owner key
  /-- Only an open WebSocket is sent anything. -/
  sentOpen : ∀ n < net.count, ∀ m ∈ (net.webSockets n).sent, m.readyState = .open
  /-- A WebSocket is only sent the options of its own socket. -/
  own : ∀ n < net.count, ∀ m ∈ (net.webSockets n).sent, m.sock = (net.webSockets n).owner
  /-- The last value is also what is read back, and zero if there is none. -/
  readBack : ∀ sock key len, isProxiedSocketOption (type sock) key = true → 4 ≤ len →
    getsockopt net sock key len = .ok ((lastSet type steps sock key).getD 0)

/-- The step delivers no `open` event to a WebSocket that is closing or closed and still to be sent
an option. -/
def OpensOpen (net : Net) : OptionStep → Prop
  | .opens ws => (net.webSockets ws).readyState = .connecting ∨
      (net.webSockets ws).readyState = .open ∨
        ∀ sock ∈ (net.webSockets ws).onceOpen, (net.socks sock).options = []
  | _ => True

/-! ## States -/

namespace ReadyState

theorem eq_connecting {s t : ReadyState} (h : s.advance t = .connecting) : s = .connecting := by
  cases s <;> cases t <;> first | rfl | exact absurd h (by decide)

theorem eq_open {s t : ReadyState} (h : s.advance t = .open) : s = .connecting ∨ s = .open := by
  cases s <;> cases t <;> first | decide | exact absurd h (by decide)

theorem advance_open (s : ReadyState) : s.advance .open ≠ .connecting := by
  cases s <;> decide

theorem advance_closing (s : ReadyState) :
    s.advance .closing ≠ .connecting ∧ s.advance .closing ≠ .open := by
  cases s <;> decide

@[simp] theorem advance_closed (t : ReadyState) : ReadyState.closed.advance t = .closed := by
  cases t <;> rfl

end ReadyState

/-! ## What a WebSocket is sent -/

/-- What one `sendAll` adds. -/
def allOptions (net : Net) (readyState : ReadyState) (sock : Nat) : List Sent :=
  (net.socks sock).options.map fun option => ⟨sock, option, readyState⟩

theorem sendAll_eq (net : Net) (ws : ProxySocket) (sock : Nat) :
    net.sendAll ws sock = { ws with sent := ws.sent ++ allOptions net ws.readyState sock } := by
  rw [Net.sendAll, allOptions]
  generalize (net.socks sock).options = options
  induction options generalizing ws with
  | nil => simp
  | cons option options ih => rw [List.foldl_cons, ih]; simp [sendSocketOption]

theorem foldl_sendAll (net : Net) (ws : ProxySocket) (socks : List Nat) :
    socks.foldl net.sendAll ws =
      { ws with sent := ws.sent ++ socks.flatMap (allOptions net ws.readyState) } := by
  induction socks generalizing ws with
  | nil => simp
  | cons sock socks ih => rw [List.foldl_cons, ih, sendAll_eq]; simp

theorem map_option_allOptions (net : Net) (readyState : ReadyState) (sock : Nat) :
    (allOptions net readyState sock).map Sent.option = (net.socks sock).options := by
  rw [allOptions, List.map_map]
  exact List.map_id _

/-- However often a map is sent, its values are what comes last. -/
theorem last_flatMap_allOptions {net : Net} {owner : Nat} (readyState : ReadyState)
    {socks : List Nat} (hsocks : ∀ sock ∈ socks, sock = owner) (hne : socks ≠ [])
    (key : OptionKey) :
    last key ((socks.flatMap (allOptions net readyState)).map Sent.option) =
      last key (net.socks owner).options := by
  induction socks with
  | nil => exact absurd rfl hne
  | cons sock socks ih =>
    obtain ⟨rfl, hsocks⟩ := List.forall_mem_cons.1 hsocks
    rw [List.flatMap_cons, List.map_append, last_append, map_option_allOptions]
    by_cases hnil : socks = []
    · rw [hnil]
      rfl
    · rw [ih hsocks hnil, Option.or_self]

/-! ## The invariant -/

/-- What holds of a WebSocket with the options of its owner, also before its owner's connect has
looked at it. -/
structure ProxySocket.Loose (options : List (OptionKey × Nat)) (listed : Prop) (ws : ProxySocket) :
    Prop where
  /-- It is one of its owner's until it is closing. -/
  alive : ws.readyState = .connecting ∨ ws.readyState = .open → listed
  listener : ∀ sock ∈ ws.onceOpen, sock = ws.owner
  unopened : ws.readyState = .connecting → ws.opened = false
  once : ws.opened = true → ws.onceOpen = []
  own : ∀ m ∈ ws.sent, m.sock = ws.owner
  keys : ∀ m ∈ ws.sent, last m.option.1 options ≠ none

/-- What holds of a WebSocket afterwards: if it is open it knows the options, or a listener will
send them. -/
structure ProxySocket.Ok (options : List (OptionKey × Nat)) (listed : Prop) (ws : ProxySocket) :
    Prop extends ws.Loose options listed where
  waits : ws.readyState = .connecting → ws.onceOpen ≠ []
  knows : ws.readyState = .open → ws.onceOpen ≠ [] ∨ ∀ key, ws.lastSent key = last key options

/-- What holds in every state. -/
structure Net.Inv (type : Nat → Nat) (steps : List OptionStep) (net : Net) : Prop where
  type_eq : ∀ sock, (net.socks sock).type = type sock
  last_eq : ∀ sock key, last key (net.socks sock).options = lastSet type steps sock key
  /-- The map has one value for a key. -/
  single : ∀ sock key, last key (net.socks sock).options = first key (net.socks sock).options
  listed : ∀ sock, ∀ n ∈ (net.socks sock).webSockets,
    n < net.count ∧ (net.webSockets n).owner = sock
  ok : ∀ n, (net.webSockets n).Ok (net.socks (net.webSockets n).owner).options
    (n ∈ (net.socks (net.webSockets n).owner).webSockets)
  fresh : ∀ n, net.count ≤ n → (net.webSockets n).readyState = .closed ∧
    (net.webSockets n).onceOpen = [] ∧ (net.webSockets n).sent = []

section WebSockets

variable {options : List (OptionKey × Nat)} {listed : Prop} {ws : ProxySocket}

namespace ProxySocket

/-- What is sent is among the options. -/
theorem Loose.or_lastSent (h : ws.Loose options listed) (key : OptionKey) :
    (last key options).or (ws.lastSent key) = last key options := by
  cases hkey : last key options with
  | some v => rfl
  | none =>
    rw [Option.none_or, lastSent, last_eq_none_iff]
    intro e he
    obtain ⟨m, hm, rfl⟩ := List.mem_map.1 he
    exact fun heq => h.keys m hm (heq ▸ hkey)

/-- Sending the map tells the WebSocket all the options. -/
theorem Loose.lastSent_append (h : ws.Loose options listed) {ms : List Sent}
    (hms : ∀ key, last key (ms.map Sent.option) = last key options) (key : OptionKey) :
    last key ((ws.sent ++ ms).map Sent.option) = last key options := by
  rw [List.map_append, last_append, hms, ← lastSent, h.or_lastSent]

/-- Setting an option, on a WebSocket of the socket. -/
theorem Ok.assign (h : ws.Ok options listed) (key : OptionKey) (v : Nat)
    (hsingle : ∀ key, last key options = first key options) :
    (if ws.readyState = .open then sendSocketOption ws.owner (key, v) ws else ws).Ok
      (Assignments.assign key v options) listed := by
  have hlast := last_assign key v hsingle
  have hkeys : ∀ k, last k options ≠ none → last k (Assignments.assign key v options) ≠ none := by
    intro k hk
    rw [hlast]
    split
    · exact Option.some_ne_none v
    · exact hk
  split
  · rename_i hopen
    refine ⟨⟨h.alive, h.listener, h.unopened, h.once, ?_, ?_⟩, h.waits, fun _ => ?_⟩
    · rw [sendSocketOption, List.forall_mem_append]
      exact ⟨h.own, fun m hm => by rw [List.mem_singleton.1 hm]⟩
    · rw [sendSocketOption, List.forall_mem_append]
      refine ⟨fun m hm => hkeys _ (h.keys m hm), fun m hm => ?_⟩
      rw [List.mem_singleton.1 hm, hlast, if_pos rfl]
      exact Option.some_ne_none v
    · refine (h.knows hopen).imp_right fun hknows k => ?_
      rw [lastSent, sendSocketOption, List.map_append, last_append, ← lastSent, hknows, hlast]
      rw [List.map_singleton, last_cons]
      by_cases hk : k = key <;> simp [hk, last]
  · rename_i hopen
    exact ⟨⟨h.alive, h.listener, h.unopened, h.once, h.own, fun m hm => hkeys _ (h.keys m hm)⟩,
      h.waits, fun ho => absurd ho hopen⟩

/-- What is sent to a WebSocket by listeners of its owner. -/
theorem Loose.send {net : Net} (h : ws.Loose (net.socks ws.owner).options listed)
    (readyState : ReadyState) (socks : List Nat) (hsocks : ∀ sock ∈ socks, sock = ws.owner) :
    ∀ m ∈ ws.sent ++ socks.flatMap (allOptions net readyState),
      m.sock = ws.owner ∧ last m.option.1 (net.socks ws.owner).options ≠ none := by
  rw [List.forall_mem_append]
  refine ⟨fun m hm => ⟨h.own m hm, h.keys m hm⟩, fun m hm => ?_⟩
  obtain ⟨sock, hsock, hm⟩ := List.mem_flatMap.1 hm
  obtain ⟨option, hoption, rfl⟩ := List.mem_map.1 hm
  obtain rfl := hsocks sock hsock
  refine ⟨rfl, fun hnone => ?_⟩
  exact last_eq_none_iff.1 hnone option hoption rfl

/-- Its owner's connect looks at the WebSocket. -/
theorem Loose.connect {net : Net} (h : ws.Loose (net.socks ws.owner).options listed) :
    (match ws.readyState with
      | .open => net.sendAll ws ws.owner
      | .connecting => { ws with onceOpen := ws.onceOpen ++ [ws.owner] }
      | _ => ws).Ok (net.socks ws.owner).options listed := by
  split
  · rename_i hstate
    have hsent := h.send ws.readyState [ws.owner] (by simp)
    rw [List.flatMap_singleton] at hsent
    rw [sendAll_eq]
    exact ⟨⟨h.alive, h.listener, h.unopened, h.once, fun m hm => (hsent m hm).1,
      fun m hm => (hsent m hm).2⟩, fun hc => absurd (hstate.symm.trans hc) (by simp),
      fun _ => .inr (h.lastSent_append fun key => by rw [map_option_allOptions])⟩
  · rename_i hstate
    have hopened : ws.opened ≠ true := by simp [h.unopened hstate]
    refine ⟨⟨h.alive, ?_, h.unopened, fun ho => absurd ho hopened, h.own, h.keys⟩,
      fun _ => List.append_ne_nil_of_right_ne_nil _ (List.cons_ne_nil _ _),
      fun ho => absurd (hstate.symm.trans ho) (by simp)⟩
    rw [List.forall_mem_append]
    exact ⟨h.listener, by simp⟩
  · rename_i hopen hconnecting
    exact ⟨h, fun hc => (hconnecting hc).elim, fun ho => (hopen ho).elim⟩

/-- Its state moves on. -/
theorem Ok.ready (h : ws.Ok options listed) (readyState : ReadyState) :
    Ok options listed { ws with readyState := ws.readyState.advance readyState } where
  alive hs := h.alive <| hs.elim (fun hc => .inl (ReadyState.eq_connecting hc))
    ReadyState.eq_open
  listener := h.listener
  unopened hc := h.unopened (ReadyState.eq_connecting hc)
  once := h.once
  own := h.own
  keys := h.keys
  waits hc := h.waits (ReadyState.eq_connecting hc)
  knows ho := (ReadyState.eq_open ho).elim (fun hc => .inl (h.waits hc)) h.knows

/-- It is closing, or further. -/
theorem Loose.close (h : ws.Loose options listed) (listed' : Prop) :
    Ok options listed' { ws with readyState := ws.readyState.advance .closing } := by
  obtain ⟨hc, ho⟩ := ReadyState.advance_closing ws.readyState
  exact ⟨⟨fun hs => (hs.elim hc ho).elim, h.listener, fun hs => (hc hs).elim, h.once, h.own,
    h.keys⟩,
    fun hs => (hc hs).elim, fun hs => (ho hs).elim⟩

/-- Its `open` event is delivered. -/
theorem Ok.opens {net : Net} (h : ws.Ok (net.socks ws.owner).options listed) :
    (ws.onceOpen.foldl net.sendAll { ws with
      readyState := ws.readyState.advance .open, opened := true, onceOpen := [] }).Ok
        (net.socks ws.owner).options listed := by
  have hsent := h.send (ws.readyState.advance .open) ws.onceOpen h.listener
  have hconnecting := ReadyState.advance_open ws.readyState
  rw [foldl_sendAll]
  refine ⟨⟨fun hs => h.alive (hs.elim (fun hc => absurd hc hconnecting) ReadyState.eq_open),
    fun _ hm => absurd hm List.not_mem_nil, fun hc => absurd hc hconnecting, fun _ => rfl,
    fun m hm => (hsent m hm).1, fun m hm => (hsent m hm).2⟩, fun hc => absurd hc hconnecting,
    fun ho => .inr fun key => ?_⟩
  by_cases hnil : ws.onceOpen = []
  · -- nobody listens any more, so it was open and knows the options
    have hknows := (ReadyState.eq_open ho).elim (fun hc => absurd hnil (h.waits hc)) h.knows
    rw [lastSent, hnil, List.flatMap_nil, List.append_nil]
    exact hknows.resolve_left (fun hne => hne hnil) key
  · exact h.lastSent_append (last_flatMap_allOptions _ h.listener hnil) key

end ProxySocket

end WebSockets

/-! ## The steps keep the invariant -/

section Steps

variable {type : Nat → Nat} {steps : List OptionStep} {net : Net}

theorem lastSet_append (e : OptionStep) (sock : Nat) (key : OptionKey) :
    lastSet type (steps ++ [e]) sock key =
      (last (sock, key) (valuesSet type [e])).or (lastSet type steps sock key) := by
  rw [lastSet, valuesSet, List.filterMap_append, last_append]
  rfl

/-- What a new value of a socket shares with the old one stays, for every socket. -/
theorem Net.apply_setSock {β : Type*} (g : OptionSock → β) {sock : Nat} {s : OptionSock}
    (h : g s = g (net.socks sock)) (n : Nat) :
    g ((net.setSock sock s).socks n) = g (net.socks n) := by
  rw [Net.setSock]
  dsimp only
  split
  · rename_i hn
    rw [h, hn]
  · rfl

/-- A step that sets no option. -/
theorem Net.Inv.of_valuesSet_eq_nil (h : net.Inv type steps) {e : OptionStep}
    (he : valuesSet type [e] = []) : net.Inv type (steps ++ [e]) := by
  refine ⟨h.type_eq, fun sock key => ?_, h.single, h.listed, h.ok, h.fresh⟩
  rw [lastSet_append, he, h.last_eq]
  rfl

theorem ProxySocket.Ok.of_listed {options : List (OptionKey × Nat)} {listed listed' : Prop}
    {ws : ProxySocket} (h : ws.Ok options listed) (hl : listed → listed') :
    ws.Ok options listed' :=
  { h with alive := fun hs => hl (h.alive hs) }

theorem ProxySocket.Ok.of_dead {options : List (OptionKey × Nat)} {listed listed' : Prop}
    {ws : ProxySocket} (h : ws.Ok options listed)
    (hdead : ws.readyState ≠ .connecting ∧ ws.readyState ≠ .open) : ws.Ok options listed' :=
  { h with alive := fun hs => (hs.elim hdead.1 hdead.2).elim }

/-- One WebSocket gets another value. -/
theorem Net.Inv.setWebSocket (h : net.Inv type steps) {ws : Nat} {w : ProxySocket}
    (hok : w.Ok (net.socks (net.webSockets ws).owner).options
      (ws ∈ (net.socks (net.webSockets ws).owner).webSockets))
    (howner : w.owner = (net.webSockets ws).owner)
    (hfresh : net.count ≤ ws → w.readyState = .closed ∧ w.onceOpen = [] ∧ w.sent = []) :
    (net.setWebSocket ws w).Inv type steps := by
  refine ⟨h.type_eq, h.last_eq, h.single, fun sock n hn => ⟨(h.listed sock n hn).1, ?_⟩,
    fun n => ?_, fun n hn => ?_⟩ <;> rw [Net.setWebSocket] <;> dsimp only
  · by_cases hws : n = ws
    · rw [if_pos hws, howner, ← hws]
      exact (h.listed sock n hn).2
    · rw [if_neg hws]
      exact (h.listed sock n hn).2
  · by_cases hws : n = ws
    · rw [if_pos hws, howner, hws]
      exact hok
    · rw [if_neg hws]
      exact h.ok n
  · by_cases hws : n = ws
    · rw [if_pos hws]
      exact hfresh (hws ▸ hn)
    · rw [if_neg hws]
      exact h.fresh n hn

theorem Net.Inv.ready (h : net.Inv type steps) (ws : Nat) (readyState : ReadyState) :
    (net.step (.ready ws readyState)).Inv type (steps ++ [.ready ws readyState]) := by
  have hset := h.setWebSocket ((h.ok ws).ready readyState) rfl fun hn => by
    obtain ⟨hclosed, honce, hsent⟩ := h.fresh ws hn
    exact ⟨by rw [hclosed, ReadyState.advance_closed], honce, hsent⟩
  exact hset.of_valuesSet_eq_nil rfl

theorem Net.Inv.opens (h : net.Inv type steps) (ws : Nat) :
    (net.step (.opens ws)).Inv type (steps ++ [.opens ws]) := by
  refine Net.Inv.of_valuesSet_eq_nil (h.setWebSocket (h.ok ws).opens ?_ fun hn => ?_) rfl
  · rw [foldl_sendAll]
  · obtain ⟨hclosed, honce, hsent⟩ := h.fresh ws hn
    rw [foldl_sendAll, honce]
    exact ⟨by rw [hclosed, ReadyState.advance_closed], rfl, by simpa using hsent⟩

theorem Net.Inv.close (h : net.Inv type steps) (ws : Nat) :
    (net.step (.close ws)).Inv type (steps ++ [.close ws]) := by
  refine Net.Inv.of_valuesSet_eq_nil ?_ rfl
  have hclosing := (h.ok ws).toLoose.close
  have hset := h.setWebSocket (hclosing _) rfl fun hn => by
    obtain ⟨hclosed, honce, hsent⟩ := h.fresh ws hn
    exact ⟨by rw [hclosed, ReadyState.advance_closed], honce, hsent⟩
  refine ⟨hset.type_eq, hset.last_eq, hset.single, fun sock n hn => ?_, fun n => ?_, hset.fresh⟩
  · exact hset.listed sock n (List.mem_of_mem_filter hn)
  · by_cases hws : n = ws
    · -- it is closing, so nobody has to know it
      refine (hset.ok n).of_dead ?_
      rw [Net.setWebSocket]
      dsimp only
      rw [if_pos hws]
      exact ReadyState.advance_closing _
    · exact (hset.ok n).of_listed fun hn => List.mem_filter.2 ⟨hn, by simpa using hws⟩

/-- What holds while the WebSockets of a socket are still to be told what has changed. -/
structure Net.Connecting (type : Nat → Nat) (steps : List OptionStep) (sock : Nat) (net : Net) :
    Prop where
  type_eq : ∀ sock, (net.socks sock).type = type sock
  last_eq : ∀ sock key, last key (net.socks sock).options = lastSet type steps sock key
  single : ∀ sock key, last key (net.socks sock).options = first key (net.socks sock).options
  listed : ∀ sock, ∀ n ∈ (net.socks sock).webSockets,
    n < net.count ∧ (net.webSockets n).owner = sock
  loose : ∀ n, (net.webSockets n).Loose (net.socks (net.webSockets n).owner).options
    (n ∈ (net.socks (net.webSockets n).owner).webSockets)
  ok : ∀ n ∉ (net.socks sock).webSockets,
    (net.webSockets n).Ok (net.socks (net.webSockets n).owner).options
      (n ∈ (net.socks (net.webSockets n).owner).webSockets)
  fresh : ∀ n, net.count ≤ n → (net.webSockets n).readyState = .closed ∧
    (net.webSockets n).onceOpen = [] ∧ (net.webSockets n).sent = []

/-- When the WebSockets of the socket are told, the invariant holds again. -/
theorem Net.Connecting.forWebSockets {sock : Nat} (h : net.Connecting type steps sock)
    {f : ProxySocket → ProxySocket} (hf : ∀ ws, (f ws).owner = ws.owner)
    (hok : ∀ n ∈ (net.socks sock).webSockets, (f (net.webSockets n)).Ok
      (net.socks (net.webSockets n).owner).options
      (n ∈ (net.socks (net.webSockets n).owner).webSockets)) :
    (net.forWebSockets sock f).Inv type steps := by
  have hws : ∀ n, (net.forWebSockets sock f).webSockets n =
      if n ∈ (net.socks sock).webSockets then f (net.webSockets n) else net.webSockets n :=
    fun n => rfl
  have howner : ∀ n, ((net.forWebSockets sock f).webSockets n).owner = (net.webSockets n).owner :=
    fun n => by
      rw [hws]
      split
      · exact hf _
      · rfl
  refine ⟨h.type_eq, h.last_eq, h.single, fun s n hn => ?_, fun n => ?_, fun n hn => ?_⟩
  · rw [howner]
    exact h.listed s n hn
  · rw [howner, hws]
    split
    · rename_i hn
      exact hok n hn
    · rename_i hn
      exact h.ok n hn
  · have hnot : n ∉ (net.socks sock).webSockets := fun hmem => by
      have hlt := (h.listed sock n hmem).1
      exact absurd hlt (Nat.not_lt.2 hn)
    rw [hws, if_neg hnot]
    exact h.fresh n hn

theorem Net.Connecting.send {sock : Nat} (h : net.Connecting type steps sock) :
    (net.sendSocketOptionsOnOpen sock).Inv type steps := by
  refine h.forWebSockets (fun ws => ?_) fun n hn => ?_
  · split
    · rw [sendAll_eq]
    · rfl
    · rfl
  · obtain rfl : (net.webSockets n).owner = sock := (h.listed sock n hn).2
    exact (h.loose n).connect

theorem Net.Inv.originalConnect (h : net.Inv type steps) (sock : Nat) (created : ReadyState) :
    (net.originalConnect sock created).Connecting type steps sock := by
  have hsocks : ∀ s, (net.originalConnect sock created).socks s =
      if s = sock then
        { net.socks sock with webSockets := (net.socks sock).webSockets ++ [net.count] }
      else net.socks s := fun s => rfl
  have hws : ∀ n, (net.originalConnect sock created).webSockets n =
      if n = net.count then ⟨sock, created, [], false, []⟩ else net.webSockets n := fun n => rfl
  have hoptions : ∀ s, ((net.originalConnect sock created).socks s).options =
      (net.socks s).options := net.apply_setSock OptionSock.options rfl
  have hlisted : ∀ s n, n ∈ (net.socks s).webSockets →
      n ∈ ((net.originalConnect sock created).socks s).webSockets := fun s n hn => by
    rw [hsocks]
    split
    · rename_i hs
      exact List.mem_append_left _ (hs ▸ hn)
    · exact hn
  have hcount : net.count ∈ ((net.originalConnect sock created).socks sock).webSockets := by
    rw [hsocks, if_pos rfl]
    exact List.mem_append_right _ (List.mem_singleton.2 rfl)
  have htype : ∀ s, ((net.originalConnect sock created).socks s).type = (net.socks s).type :=
    net.apply_setSock OptionSock.type rfl
  refine ⟨fun s => (htype s).trans (h.type_eq s), fun s key => by rw [hoptions, h.last_eq],
    fun s key => by rw [hoptions, h.single], fun s n hn => ?_, fun n => ?_, fun n hn => ?_,
    fun n hn => ?_⟩
  · have hmem : n ∈ (net.socks s).webSockets ∨ (n = net.count ∧ s = sock) := by
      rw [hsocks] at hn
      split at hn
      · rename_i hs
        rw [hs]
        exact (List.mem_append.1 hn).imp_right fun hn => ⟨List.mem_singleton.1 hn, rfl⟩
      · exact .inl hn
    rcases hmem with hmem | ⟨rfl, rfl⟩
    · obtain ⟨hlt, howner⟩ := h.listed s n hmem
      rw [hws, if_neg (Nat.ne_of_lt hlt)]
      exact ⟨Nat.lt_succ_of_lt hlt, howner⟩
    · rw [hws, if_pos rfl]
      exact ⟨Nat.lt_succ_self _, rfl⟩
  · by_cases hn : n = net.count
    · rw [hws, if_pos hn, hn]
      exact ⟨fun _ => hcount, by simp, fun _ => rfl, by simp, by simp, by simp⟩
    · rw [hws, if_neg hn, hoptions]
      exact ((h.ok n).of_listed (hlisted _ n)).toLoose
  · have hne : n ≠ net.count := fun heq => hn (heq ▸ hcount)
    rw [hws, if_neg hne, hoptions]
    exact (h.ok n).of_listed (hlisted _ n)
  · have hlt : net.count < n := hn
    rw [hws, if_neg (Nat.ne_of_gt hlt)]
    exact h.fresh n hlt.le

/-- A connect keeps the invariant. -/
theorem Net.Inv.connect (h : net.Inv type steps) (sock : Nat) (created : ReadyState) :
    (net.connect sock created).Inv type steps :=
  (h.originalConnect sock created).send

theorem isProxied_of_isTimeout {key : OptionKey} (h : isTimeout key = true) (type : Nat) :
    isProxiedSocketOption type key = false := by
  rw [isTimeout, Bool.or_eq_true, beq_iff_eq, beq_iff_eq] at h
  rcases h with rfl | rfl <;> simp [isProxiedSocketOption, solSocket, soRcvtimeo, soSndtimeo,
    soKeepalive, ipprotoTcp]

/-- An option is set, and the WebSockets of the socket are still to be told. -/
theorem Net.Inv.setOption (h : net.Inv type steps) (sock : Nat) (key : OptionKey) (v : Nat)
    {e : OptionStep} (he : valuesSet type [e] = [((sock, key), v)]) :
    (net.setSock sock { net.socks sock with
      options := Assignments.assign key v (net.socks sock).options }).Connecting type
        (steps ++ [e]) sock := by
  generalize hnet : net.setSock sock _ = net'
  have hsocks : ∀ s, net'.socks s = if s = sock then
      { net.socks sock with options := Assignments.assign key v (net.socks sock).options }
      else net.socks s := fun s => by rw [← hnet]; rfl
  have hws : net'.webSockets = net.webSockets := by rw [← hnet]; rfl
  have hcount : net'.count = net.count := by rw [← hnet]; rfl
  have hlisted : ∀ s, (net'.socks s).webSockets = (net.socks s).webSockets :=
    hnet ▸ net.apply_setSock OptionSock.webSockets rfl
  have htype : ∀ s, (net'.socks s).type = (net.socks s).type :=
    hnet ▸ net.apply_setSock OptionSock.type rfl
  have hlast : ∀ s k, last k (net'.socks s).options =
      if s = sock ∧ k = key then some v else last k (net.socks s).options := fun s k => by
    rw [hsocks]
    by_cases hs : s = sock
    · rw [if_pos hs, last_assign key v (h.single sock), hs]
      simp
    · rw [if_neg hs, if_neg (fun hc => hs hc.1)]
  have hloose : ∀ n, (net'.webSockets n).Loose (net'.socks (net'.webSockets n).owner).options
      (n ∈ (net'.socks (net'.webSockets n).owner).webSockets) := fun n => by
    rw [hws, hlisted]
    refine { (h.ok n).toLoose with keys := fun m hm => ?_ }
    rw [hlast]
    split
    · exact Option.some_ne_none v
    · exact (h.ok n).keys m hm
  refine ⟨fun s => (htype s).trans (h.type_eq s), fun s k => ?_, fun s k => ?_, fun s n hn => ?_,
    hloose, fun n hn => ?_, ?_⟩
  · rw [hlast, lastSet_append, he, last_cons, ← h.last_eq]
    by_cases hsk : s = sock ∧ k = key <;> simp [hsk, last]
  · rw [hlast, hsocks]
    by_cases hs : s = sock
    · rw [if_pos hs, first_assign, hs, h.single]
      simp
    · rw [if_neg hs, if_neg (fun hc => hs hc.1), h.single]
  · rw [hlisted] at hn
    rw [hcount, hws]
    exact h.listed s n hn
  · -- a WebSocket that is not listed any more is closing, or it is another socket's
    by_cases howner : (net.webSockets n).owner = sock
    · have hdead : ¬ ((net'.webSockets n).readyState = .connecting ∨
          (net'.webSockets n).readyState = .open) := fun hs => by
        have hmem := (hloose n).alive hs
        rw [hws, howner] at hmem
        exact hn hmem
      exact { hloose n with
        waits := fun hc => absurd (.inl hc) hdead
        knows := fun ho => absurd (.inr ho) hdead }
    · rw [hws, hsocks, if_neg howner]
      exact h.ok n
  · rw [hcount, hws]
    exact h.fresh

/-- A call that sets an option. -/
theorem Net.Inv.assign (h : net.Inv type steps) (sock : Nat) (key : OptionKey) (v : Nat)
    {e : OptionStep} (he : valuesSet type [e] = [((sock, key), v)]) :
    (Net.forWebSockets (net.setSock sock
        { net.socks sock with options := Assignments.assign key v (net.socks sock).options })
      sock fun ws => if ws.readyState = .open then sendSocketOption sock (key, v) ws else ws).Inv
        type (steps ++ [e]) := by
  refine (h.setOption sock key v he).forWebSockets (fun ws => ?_) fun n hn => ?_
  · split <;> rfl
  · have hmem : n ∈ (net.socks sock).webSockets := by
      rw [Net.setSock] at hn
      simpa using hn
    obtain rfl : (net.webSockets n).owner = sock := (h.listed sock n hmem).2
    simpa [Net.setSock] using (h.ok n).assign key v (h.single _)

theorem Net.Inv.setsockopt (h : net.Inv type steps) (sock : Nat) (key : OptionKey)
    (v : OptionValue) :
    (net.step (.setsockopt sock key v)).Inv type (steps ++ [.setsockopt sock key v]) := by
  rw [Net.step, jsSetsockopt, h.type_eq]
  split
  · rename_i htimeout
    refine h.of_valuesSet_eq_nil ?_
    simp [valuesSet, isProxied_of_isTimeout htimeout]
  · split
    · rename_i hproxied
      refine h.of_valuesSet_eq_nil ?_
      simp_all [valuesSet]
    · split
      · rename_i hinvalid
        refine h.of_valuesSet_eq_nil ?_
        simp only [valuesSet, List.filterMap_cons, hinvalid]
        simp
      · rename_i hproxied hvalid
        refine h.assign sock key v.flag ?_
        simp_all [valuesSet]

theorem Net.Inv.step (h : net.Inv type steps) (e : OptionStep) :
    (net.step e).Inv type (steps ++ [e]) := by
  match e with
  | .setsockopt sock key v => exact h.setsockopt sock key v
  | .connect sock none => exact h.of_valuesSet_eq_nil rfl
  | .connect sock (some created) => exact (h.connect sock created).of_valuesSet_eq_nil rfl
  | .ready ws readyState => exact h.ready ws readyState
  | .opens ws => exact h.opens ws
  | .close ws => exact h.close ws

/-! ## To whom values are sent -/

/-- Nothing was sent to a WebSocket that was not open. -/
def Net.SentOpen (net : Net) : Prop :=
  ∀ n, ∀ m ∈ (net.webSockets n).sent, m.readyState = .open

/-- Where the WebSockets of a socket are only sent values while they are open. -/
theorem Net.SentOpen.forWebSockets (h : net.SentOpen) (sock : Nat) {f : ProxySocket → ProxySocket}
    (hf : ∀ ws : ProxySocket, (∀ m ∈ ws.sent, m.readyState = .open) →
      ∀ m ∈ (f ws).sent, m.readyState = .open) : (net.forWebSockets sock f).SentOpen := by
  intro n
  rw [Net.forWebSockets]
  dsimp only
  split
  · exact hf _ (h n)
  · exact h n

theorem Net.SentOpen.setWebSocket (h : net.SentOpen) (ws : Nat) {w : ProxySocket}
    (hw : ∀ m ∈ w.sent, m.readyState = .open) : (net.setWebSocket ws w).SentOpen := by
  intro n
  rw [Net.setWebSocket]
  dsimp only
  split
  · exact hw
  · exact h n

theorem mem_allOptions {readyState : ReadyState} {sock : Nat} {m : Sent}
    (hm : m ∈ allOptions net readyState sock) : m.readyState = readyState := by
  obtain ⟨option, -, rfl⟩ := List.mem_map.1 hm
  rfl

theorem Net.SentOpen.setsockopt (h : net.SentOpen) (sock : Nat) (key : OptionKey)
    (v : OptionValue) : (jsSetsockopt net sock key v).2.SentOpen := by
  rw [jsSetsockopt]
  split
  · exact h
  · split
    · exact h
    · split
      · exact h
      · have hset : ∀ s, (net.setSock sock s).SentOpen := fun _ => h
        dsimp only
        refine (hset _).forWebSockets sock fun ws hws => ?_
        split
        · rename_i hopen
          rw [sendSocketOption, List.forall_mem_append]
          exact ⟨hws, fun m hm => by rw [List.mem_singleton.1 hm, hopen]⟩
        · exact hws

theorem Net.SentOpen.connect (h : net.SentOpen) (sock : Nat) (created : ReadyState) :
    (net.connect sock created).SentOpen := by
  have hset : ∀ s, (net.setSock sock s).SentOpen := fun _ => h
  have hcreated : (net.originalConnect sock created).SentOpen :=
    (hset _).setWebSocket net.count fun _ hm => absurd hm List.not_mem_nil
  rw [Net.connect, Net.sendSocketOptionsOnOpen]
  refine hcreated.forWebSockets sock fun ws hws => ?_
  split
  · rename_i hopen
    rw [sendAll_eq, List.forall_mem_append]
    exact ⟨hws, fun m hm => (mem_allOptions hm).trans hopen⟩
  · exact hws
  · exact hws

/-- What the listeners of an `open` event send. -/
theorem sentOpen_opens_iff (h : net.SentOpen) (ws : Nat) :
    (net.opens ws).SentOpen ↔ OpensOpen net (.opens ws) := by
  have hsent : ((net.opens ws).webSockets ws).sent = (net.webSockets ws).sent ++
      (net.webSockets ws).onceOpen.flatMap
        (allOptions net ((net.webSockets ws).readyState.advance .open)) := by
    rw [Net.opens, Net.setWebSocket]
    dsimp only
    rw [if_pos rfl, foldl_sendAll]
  constructor
  · intro hopens
    by_contra hbad
    rw [OpensOpen, not_or, not_or, not_forall] at hbad
    obtain ⟨hconnecting, hopen, sock, hsock⟩ := hbad
    rw [Classical.not_imp] at hsock
    obtain ⟨option, options, hoptions⟩ := List.exists_cons_of_ne_nil hsock.2
    have hdead : (net.webSockets ws).readyState.advance .open ≠ .open := fun ho =>
      (ReadyState.eq_open ho).elim hconnecting hopen
    refine hdead (hopens ws ⟨sock, option, _⟩ ?_)
    rw [hsent, List.mem_append, List.mem_flatMap]
    exact .inr ⟨sock, hsock.1, List.mem_map.2 ⟨option, by simp [hoptions], rfl⟩⟩
  · intro hopens
    refine h.setWebSocket ws ?_
    rw [foldl_sendAll, List.forall_mem_append]
    refine ⟨h ws, fun m hm => ?_⟩
    obtain ⟨sock, hsock, hm⟩ := List.mem_flatMap.1 hm
    rw [mem_allOptions hm]
    rcases hopens with hconnecting | hopen | hnone
    · rw [hconnecting]
      rfl
    · rw [hopen]
      rfl
    · rw [allOptions, hnone sock hsock] at hm
      exact absurd hm List.not_mem_nil

/-- **One step**, and to whom it sends values. -/
theorem sentOpen_step_iff (h : net.SentOpen) (e : OptionStep) :
    (net.step e).SentOpen ↔ OpensOpen net e := by
  match e with
  | .setsockopt sock key v => exact iff_of_true (h.setsockopt sock key v) trivial
  | .connect sock none => exact iff_of_true h trivial
  | .connect sock (some created) => exact iff_of_true (h.connect sock created) trivial
  | .ready ws readyState => exact iff_of_true (h.setWebSocket ws (h ws)) trivial
  | .opens ws => exact sentOpen_opens_iff h ws
  | .close ws => exact iff_of_true (h.setWebSocket ws (h ws)) trivial

/-! ## Runs -/

theorem Net.Inv.init (type : Nat → Nat) : (Net.init type).Inv type [] where
  type_eq _ := rfl
  last_eq _ _ := rfl
  single _ _ := rfl
  listed _ _ hn := absurd hn List.not_mem_nil
  ok _ := by
    refine ⟨⟨?_, ?_, ?_, ?_, ?_, ?_⟩, ?_, ?_⟩ <;> simp [Net.init]
  fresh _ _ := ⟨rfl, rfl, rfl⟩

/-- Whatever happens, the invariant holds. -/
theorem Net.Inv.run (h : net.Inv type steps) (es : List OptionStep) :
    (run Net.step net es).Inv type (steps ++ es) := by
  induction es generalizing net steps with
  | nil => rwa [List.append_nil]
  | cons e es ih =>
    rw [run_cons, List.append_cons]
    exact ih (h.step e)

/-- The invariant is what is asked, but for to whom values are sent. -/
theorem Net.Inv.right (h : net.Inv type steps) (hsent : net.SentOpen) :
    OptionsRight type steps net := by
  refine ⟨fun n _ hopened hopen key => ?_, fun n _ => hsent n, fun n _ => (h.ok n).own,
    fun sock key len hkey hlen => ?_⟩
  · have hknows := ((h.ok n).knows hopen).resolve_left fun hne => hne ((h.ok n).once hopened)
    rw [hknows, h.last_eq]
  · rw [getsockopt, h.type_eq, hkey, if_neg (by simp), if_neg (Int.not_lt.2 hlen), ← h.single,
      h.last_eq]

theorem Net.Inv.sentOpen (h : net.Inv type steps) (hright : OptionsRight type steps net) :
    net.SentOpen := by
  intro n
  by_cases hn : n < net.count
  · exact hright.sentOpen n hn
  · rw [(h.fresh n (Nat.not_lt.1 hn)).2.2]
    exact fun _ hm => absurd hm List.not_mem_nil

end Steps

/-- **When the options are right in every state of a run**, for every order of its steps. -/
theorem optionsRight_iff {type : Nat → Nat} {steps : List OptionStep} :
    (∀ before after, steps = before ++ after →
        OptionsRight type before (run Net.step (Net.init type) before)) ↔
      Along Net.step OpensOpen (Net.init type) steps := by
  have hinit : (Net.init type).SentOpen := fun _ _ hm => absurd hm List.not_mem_nil
  have hinv : ∀ es, (run Net.step (Net.init type) es).Inv type es := fun es =>
    (Net.Inv.init type).run es
  have hstep : ∀ net e, net.SentOpen → OpensOpen net e → (net.step e).SentOpen :=
    fun _ e h => (sentOpen_step_iff h e).2
  constructor
  · intro hright
    refine along_iff_split.2 fun before e after hsteps => ?_
    have hbefore := (hinv before).sentOpen (hright before (e :: after) hsteps)
    have hafter := (hinv (before ++ [e])).sentOpen
      (hright (before ++ [e]) after (by rw [hsteps, List.append_assoc]; rfl))
    rw [run_append] at hafter
    exact (sentOpen_step_iff hbefore e).1 hafter
  · rintro halong before after rfl
    exact (hinv before).right (run_inv hstep hinit (along_append.1 halong).1)

/-- An option is set, the socket connects, its WebSocket opens and is closed again before the
listeners for `open` run: the last of them sends the option to a WebSocket that is closing. -/
theorem closed_before_event_not_right :
    let steps : List OptionStep :=
      [.setsockopt 0 (solSocket, soKeepalive) ⟨false, 4, 1, 1, none⟩, .connect 0 (some .connecting),
        .ready 0 .open, .ready 0 .closing, .opens 0]
    ¬ OptionsRight (fun _ => sockStream) steps
      (run Net.step (.init fun _ => sockStream) steps) := by
  intro steps h
  have hsent := h.sentOpen 0 (by decide) ⟨0, ((solSocket, soKeepalive), 1), .closing⟩ (by decide)
  exact absurd hsent (by decide)

end PhpWasm.Socket
