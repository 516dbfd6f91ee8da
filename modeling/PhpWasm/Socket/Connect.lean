import PhpWasm.Socket.Poll

/-!
# Connecting a socket

`wasm_connect` is what `connect(2)` becomes.  On a blocking stream socket it starts the connection
and suspends PHP until the WebSocket opens, fails or closes, or until the send timeout is over.

* `wasmConnect` is the call up to where it waits, with every early exit of the source.
* `happen` is one thing that happens while it waits or afterwards.  Closing the WebSocket can make
  more things happen at once, inside the clean-up; `Happening` holds them in a tree.
* `wasmConnect_right`: whatever happens, the call is resumed once, with the result of what came
  first, and what it leaves agrees with that result.
-/

set_option autoImplicit false

namespace PhpWasm.Socket

/-! ## The call -/

/-- `EBADF` -/
def ebadf : Nat := 8
/-- `ECONNREFUSED` -/
def econnrefused : Nat := 14
/-- `EFAULT` -/
def efault : Nat := 21
/-- `EINPROGRESS` -/
def einprogress : Nat := 26
/-- `ETIMEDOUT` -/
def etimedout : Nat := 73

/-- A socket that may be connecting. -/
structure ConnectSock extends Sock where
  connecting : Bool

/-- An exception. -/
inductive Thrown
  /-- An `ErrnoError`. -/
  | errno (errno : Nat) (pos : 0 < errno)
  | other

/-- The result a handler makes of an exception. -/
def Thrown.result (t : Thrown) (otherwise : Nat) : Int :=
  match t with
  | errno n _ => -n
  | other => -otherwise

/-- What `FS.getStream` finds. -/
structure FdStream where
  nonblock : Bool
  /-- `stream.node.sock` -/
  sock : Option ConnectSock

/-- What the call is made with, and the parts of SOCKFS it uses. -/
structure ConnectEnv where
  /-- `"Suspending" in WebAssembly` -/
  suspending : Bool
  stream : Option FdStream
  /-- `getSocketAddress` -/
  address : Except Thrown (String × Nat)
  /-- `sock_ops.connect`: the socket as it leaves it. -/
  connect : ConnectSock → String × Nat → Except Thrown ConnectSock
  /-- `getSocketTimeouts(sockfd)?.send` -/
  sendTimeout : Option Nat
  /-- What SOCKFS's own listeners make of an event. -/
  listen : EventName → ConnectSock → ConnectSock

/-- A call of `wakeUp`, and what there is at that moment. -/
structure Woken where
  result : Int
  sock : ConnectSock
  listeners : List EventName
  timer : Bool

/-- A call that waits for its WebSocket. -/
structure Waiting where
  sock : ConnectSock
  ws : WebSocket
  /-- `ws.readyState` now. -/
  readyState : ReadyState
  /-- The peer of the WebSocket, looked up before the wait. -/
  peer : Option WebSocket
  /-- The events the call listens for. -/
  listeners : List EventName
  /-- The timer is armed. -/
  timer : Bool
  resolved : Bool
  woken : List Woken

/-- What becomes of a call. -/
inductive ConnectOutcome
  | returned (v : Int)
  | threw
  /-- `handleSleep`, with `wakeUp(v)` before anything is waited for. -/
  | woken (v : Int)
  | waits (c : Waiting)

/-- `getSocketFromFD` -/
def ConnectEnv.getSocketFromFD (env : ConnectEnv) : Except Thrown ConnectSock :=
  match env.stream.bind FdStream.sock with
  | some sock => .ok sock
  | none => .error (.errno ebadf (by decide))

/-- `SOCK_DGRAM` or `O_NONBLOCK`: the socket does not wait for its connection. -/
def FdStream.immediate (stream : FdStream) (sock : ConnectSock) : Bool :=
  sock.type == sockDgram || stream.nonblock

/-- The timeout in milliseconds; zero stands for none. -/
def ConnectEnv.timeout (env : ConnectEnv) : Nat := env.sendTimeout.getD 30000

/-- The part of the call that is suspended. -/
def connectAndWait (env : ConnectEnv) : ConnectOutcome :=
  match env.getSocketFromFD with
  | .error _ => .woken (-ebadf)
  | .ok sock =>
    match env.address with
    | .error t => .woken (t.result efault)
    | .ok address =>
      match env.connect sock address with
      | .error t => .woken (t.result econnrefused)
      | .ok sock =>
        match sock.getAllWebSockets with
        | [] => .woken (-econnrefused)
        | ws :: _ =>
          if ws.readyState = .open then .woken 0
          else if ws.readyState = .closing ∨ ws.readyState = .closed then .woken (-econnrefused)
          else
            .waits
              { sock, ws
                readyState := ws.readyState
                peer := sock.getAllPeers.find? fun candidate => candidate.id == ws.id
                listeners := [.open, .error, .close]
                timer := 0 < env.timeout
                resolved := false
                woken := [] }

/-- `wasm_connect` -/
def wasmConnect (env : ConnectEnv) : ConnectOutcome :=
  if !env.suspending then
    match env.getSocketFromFD, env.address with
    | .ok sock, .ok address =>
      match env.connect sock address with
      | .ok _ => .returned 0
      | .error _ => .threw
    | _, _ => .threw
  else
    match env.stream with
    | some stream =>
      match stream.sock with
      | some sock =>
        if stream.immediate sock then
          match env.address with
          | .error t => .returned (t.result econnrefused)
          | .ok address =>
            match env.connect sock address with
            | .error t => .returned (t.result econnrefused)
            | .ok _ => .returned (if sock.type = sockDgram then 0 else -einprogress)
        else connectAndWait env
      | none => connectAndWait env
    | none => connectAndWait env

/-! ## What happens while it waits -/

/-- Something that happens to the WebSocket or the timer.  If it makes the call close the
WebSocket, `during` happens while `ws.close()` runs. -/
inductive Happening
  /-- `ws.readyState` changes. -/
  | ready (readyState : ReadyState)
  | event (name : EventName) (during : List Happening)
  | timeout (during : List Happening)

namespace Waiting

/-- `cleanupConnectListeners` -/
def cleanupConnectListeners (c : Waiting) : Waiting :=
  { c with
    timer := false
    listeners := ((c.listeners.erase .open).erase .error).erase .close }

/-- `SOCKFS.websocket_sock_ops.removePeer`, if there is a peer. -/
def removePeer (sock : ConnectSock) (peer : Option WebSocket) : ConnectSock :=
  match peer with
  | some peer => { sock with peers := sock.peers.filter fun p => p.id != peer.id }
  | none => sock

/-- `ws.close()`, unless the WebSocket is closing already.  An exception is ignored. -/
def closeWebSocket (during : Waiting → Waiting) (c : Waiting) : Waiting :=
  if c.readyState ≠ .closing ∧ c.readyState ≠ .closed then
    during { c with readyState := .closing }
  else c

/-- `cleanupFailedConnect` -/
def cleanupFailedConnect (during : Waiting → Waiting) (errno : Nat) (c : Waiting) : Waiting :=
  let c := c.closeWebSocket during
  { c with sock := { removePeer c.sock c.peer with connecting := false, error := some errno } }

/-- `wakeUp(result)` -/
def wakeUp (result : Int) (c : Waiting) : Waiting :=
  { c with woken := c.woken ++ [⟨result, c.sock, c.listeners, c.timer⟩] }

/-- `finishConnect` -/
def finishConnect (during : Waiting → Waiting) (result : Int) (c : Waiting) : Waiting :=
  if c.resolved then c
  else
    let c := { c with resolved := true }.cleanupConnectListeners
    let c := if result < 0 then c.cleanupFailedConnect during result.natAbs else c
    c.wakeUp result

end Waiting

/-- `handleOpen`, `handleError`, `handleClose`: what the listener for an event finishes with. -/
def handler : EventName → Option Int
  | .open => some 0
  | .error => some (-econnrefused)
  | .close => some (-econnrefused)
  | .message => none

mutual

/-- One thing happens.  SOCKFS's listeners are older than those of the call and run first. -/
def happen (listen : EventName → ConnectSock → ConnectSock) : Happening → Waiting → Waiting
  | .ready readyState, c => { c with readyState }
  | .event name during, c =>
    let c := { c with sock := listen name c.sock }
    match handler name with
    | some result =>
      if name ∈ c.listeners then c.finishConnect (happenAll listen during) result else c
    | none => c
  | .timeout during, c =>
    if c.timer then
      { c with timer := false }.finishConnect (happenAll listen during) (-etimedout)
    else c

/-- One thing after the other. -/
def happenAll (listen : EventName → ConnectSock → ConnectSock) : List Happening → Waiting → Waiting
  | [], c => c
  | h :: hs, c => happenAll listen hs (happen listen h c)

end

/-! ## What is asked of the call -/

/-- A blocking stream socket, or none at all, where PHP can be suspended. -/
structure ConnectEnv.Blocking (env : ConnectEnv) : Prop where
  suspending : env.suspending = true
  waits : ∀ stream sock, env.stream = some stream → stream.sock = some sock →
    stream.immediate sock = false

/-- The connection is started, and leaves the socket with this WebSocket. -/
def ConnectEnv.Starts (env : ConnectEnv) (left : ConnectSock) (ws : WebSocket) : Prop :=
  ∃ sock address, env.getSocketFromFD = .ok sock ∧ env.address = .ok address ∧
    env.connect sock address = .ok left ∧ left.getAllWebSockets.head? = some ws

/-- What the call relies on. -/
structure ConnectEnv.SockfsBehaves (env : ConnectEnv) : Prop where
  /-- A listening socket is not connected. -/
  listening : ∀ sock address left, env.connect sock address = .ok left → left.server = none
  /-- SOCKFS's listeners for `open` and `message` leave the peers and the pending error alone. -/
  quiet : ∀ name sock, name = .open ∨ name = .message →
    (env.listen name sock).peers = sock.peers ∧ (env.listen name sock).error = sock.error

/-- The result of a call that is waiting, if this is the first thing that ends the wait. -/
def Happening.result (timed : Bool) : Happening → Option Int
  | .ready _ => none
  | .event name _ => handler name
  | .timeout _ => if timed then some (-etimedout) else none

/-- What holds at the moment a call is resumed. -/
structure Woken.Right (left : ConnectSock) (ws : WebSocket) (w : Woken) : Prop where
  clean : w.listeners = [] ∧ w.timer = false
  /-- After a failure the peer is gone and the errno is kept. -/
  failed : w.result < 0 → (∀ p ∈ w.sock.peers, p.id ≠ ws.id) ∧ w.sock.connecting = false ∧
    w.sock.error = some w.result.natAbs
  /-- A success leaves the peers and the pending error as the connect left them. -/
  succeeded : w.result = 0 → w.sock.peers = left.peers ∧ w.sock.error = left.error

/-- **A wait is right**. -/
structure WaitRight (env : ConnectEnv) (left : ConnectSock) (ws : WebSocket)
    (happenings : List Happening) (c : Waiting) : Prop where
  /-- It is resumed once, with the result of what comes first. -/
  once : c.woken.map Woken.result =
    (happenings.findSome? (Happening.result (0 < env.timeout))).toList
  right : ∀ w ∈ c.woken, w.Right left ws
  /-- Nothing is left behind. -/
  settled : c.woken ≠ [] → c.listeners = [] ∧ c.timer = false
  /-- A zero timeout arms no timer. -/
  untimed : env.sendTimeout = some 0 → c.timer = false

/-- **The call is right**, whatever happens. -/
structure ConnectRight (env : ConnectEnv) (happenings : List Happening) : Prop where
  /-- Where no connection is started, or its WebSocket is dead, the call fails. -/
  early : (∀ left ws, env.Starts left ws → ws.Dead) → ∃ v < 0, wasmConnect env = .woken v
  already : ∀ left ws, env.Starts left ws → ws.readyState = .open → wasmConnect env = .woken 0
  waits : ∀ left ws, env.Starts left ws → ws.readyState = .connecting →
    ∃ c, wasmConnect env = .waits c ∧
      WaitRight env left ws happenings (happenAll env.listen happenings c)

/-! ## Late events -/

/-- The call does not listen any more. -/
structure Waiting.Idle (peer : Option WebSocket) (woken : List Woken) (c : Waiting) : Prop where
  listeners : c.listeners = []
  timer : c.timer = false
  resolved : c.resolved = true
  peer_eq : c.peer = peer
  woken_eq : c.woken = woken

section Happenings

variable {listen : EventName → ConnectSock → ConnectSock} {peer : Option WebSocket}
  {woken : List Woken} {c : Waiting}

/-- Nothing resumes a call that does not listen. -/
theorem Waiting.Idle.after (hc : c.Idle peer woken) (h : Happening) :
    (happen listen h c).Idle peer woken := by
  match h with
  | .ready readyState => exact ⟨hc.listeners, hc.timer, hc.resolved, hc.peer_eq, hc.woken_eq⟩
  | .event name during =>
    have hafter : happen listen (.event name during) c = { c with sock := listen name c.sock } := by
      rw [happen]
      split
      · exact if_neg (by simp [hc.listeners])
      · rfl
    rw [hafter]
    exact ⟨hc.listeners, hc.timer, hc.resolved, hc.peer_eq, hc.woken_eq⟩
  | .timeout during =>
    rw [happen, if_neg (by simp [hc.timer])]
    exact hc

theorem Waiting.Idle.afterAll (hc : c.Idle peer woken) (hs : List Happening) :
    (happenAll listen hs c).Idle peer woken := by
  induction hs generalizing c with
  | nil => exact hc
  | cons h hs ih => exact ih (hc.after h)

/-! ## The end of the wait -/

theorem Waiting.Idle.closeWebSocket {during : Waiting → Waiting} (hc : c.Idle peer woken)
    (hduring : ∀ c, Waiting.Idle peer woken c → (during c).Idle peer woken) :
    (c.closeWebSocket during).Idle peer woken := by
  rw [Waiting.closeWebSocket]
  split
  · exact hduring _ ⟨hc.listeners, hc.timer, hc.resolved, hc.peer_eq, hc.woken_eq⟩
  · exact hc

/-- **The clean-up after a failure**, whatever happens while the WebSocket is closed. -/
theorem Waiting.Idle.cleanupFailedConnect {during : Waiting → Waiting} {p : WebSocket}
    (hc : c.Idle (some p) woken)
    (hduring : ∀ c, Waiting.Idle (some p) woken c → (during c).Idle (some p) woken) (errno : Nat) :
    (c.cleanupFailedConnect during errno).Idle (some p) woken ∧
      (∀ q ∈ (c.cleanupFailedConnect during errno).sock.peers, q.id ≠ p.id) ∧
      (c.cleanupFailedConnect during errno).sock.connecting = false ∧
      (c.cleanupFailedConnect during errno).sock.error = some errno := by
  have hclosed := hc.closeWebSocket hduring
  refine ⟨⟨hclosed.listeners, hclosed.timer, hclosed.resolved, hclosed.peer_eq, hclosed.woken_eq⟩,
    fun q hq => ?_, rfl, rfl⟩
  have hmem : q ∈ (Waiting.removePeer (c.closeWebSocket during).sock
    (c.closeWebSocket during).peer).peers := hq
  rw [hclosed.peer_eq] at hmem
  simpa using (List.mem_filter.1 hmem).2

theorem Waiting.Idle.wakeUp {peer : Option WebSocket} (hc : c.Idle peer []) (result : Int) :
    (c.wakeUp result).Idle peer [⟨result, c.sock, [], false⟩] := by
  refine ⟨hc.listeners, hc.timer, hc.resolved, hc.peer_eq, ?_⟩
  rw [Waiting.wakeUp, hc.woken_eq, hc.listeners, hc.timer]
  rfl

/-- The call waits. -/
structure Waiting.Pending (timed : Bool) (left : ConnectSock) (ws : WebSocket) (c : Waiting) :
    Prop where
  listeners : c.listeners = [.open, .error, .close]
  timer : c.timer = timed
  resolved : c.resolved = false
  peer : ∃ p, c.peer = some p ∧ p.id = ws.id
  woken : c.woken = []
  peers : c.sock.peers = left.peers
  error : c.sock.error = left.error

/-- **The end of a wait**: the call is resumed with the result it finishes with. -/
theorem Waiting.finishConnect_right {left : ConnectSock} {ws p : WebSocket} (result : Int)
    {during : Waiting → Waiting}
    (hduring : ∀ c, Waiting.Idle (some p) [] c → (during c).Idle (some p) [])
    (hlisteners : c.listeners = [.open, .error, .close]) (hresolved : c.resolved = false)
    (hpeer : c.peer = some p) (hid : p.id = ws.id) (hwoken : c.woken = [])
    (hsock : result = 0 → c.sock.peers = left.peers ∧ c.sock.error = left.error) :
    ∃ w : Woken, w.result = result ∧ w.Right left ws ∧
      (c.finishConnect during result).Idle (some p) [w] := by
  have hclean : ({ c with resolved := true }.cleanupConnectListeners).Idle (some p) [] := by
    refine ⟨?_, rfl, rfl, hpeer, hwoken⟩
    rw [Waiting.cleanupConnectListeners, hlisteners]
    rfl
  rw [Waiting.finishConnect, if_neg (by simp [hresolved])]
  dsimp only
  by_cases hneg : result < 0
  · rw [if_pos hneg]
    obtain ⟨hidle, hpeers, hconnecting, herror⟩ :=
      hclean.cleanupFailedConnect hduring result.natAbs
    refine ⟨_, rfl, ⟨⟨rfl, rfl⟩, fun _ => ⟨fun q hq => ?_, hconnecting, herror⟩,
      fun h0 => absurd h0 (Int.ne_of_lt hneg)⟩, hidle.wakeUp result⟩
    rw [← hid]
    exact hpeers q hq
  · rw [if_neg hneg]
    exact ⟨_, rfl, ⟨⟨rfl, rfl⟩, fun h => absurd h hneg, hsock⟩, hclean.wakeUp result⟩

end Happenings

/-- One thing happens to a call that waits. -/
theorem Waiting.Pending.after {env : ConnectEnv} (hsockfs : env.SockfsBehaves) {timed : Bool}
    {left : ConnectSock} {ws : WebSocket} {c : Waiting} (hc : c.Pending timed left ws)
    (h : Happening) :
    (h.result timed = none ∧ (happen env.listen h c).Pending timed left ws) ∨
      ∃ (w : Woken) (p : WebSocket), h.result timed = some w.result ∧ w.Right left ws ∧
        (happen env.listen h c).Idle (some p) [w] := by
  obtain ⟨p, hpeer, hid⟩ := hc.peer
  have hduring : ∀ during c, Waiting.Idle (some p) [] c →
      (happenAll env.listen during c).Idle (some p) [] := fun during c h => h.afterAll during
  match h with
  | .ready readyState =>
    exact .inl ⟨rfl, hc.listeners, hc.timer, hc.resolved, hc.peer, hc.woken, hc.peers, hc.error⟩
  | .event name during =>
    rw [happen]
    dsimp only
    cases hname : handler name with
    | none =>
      obtain rfl : name = .message := by cases name <;> first | rfl | cases hname
      obtain ⟨hpeers, herror⟩ := hsockfs.quiet .message c.sock (.inr rfl)
      exact .inl ⟨rfl, hc.listeners, hc.timer, hc.resolved, hc.peer, hc.woken,
        hpeers.trans hc.peers, herror.trans hc.error⟩
    | some result =>
      have hmem : name ∈ c.listeners := by
        rw [hc.listeners]
        cases name <;> first | decide | cases hname
      have hsock : result = 0 → (env.listen name c.sock).peers = left.peers ∧
          (env.listen name c.sock).error = left.error := by
        rintro rfl
        obtain rfl : name = .open := by cases name <;> first | rfl | cases hname
        obtain ⟨hpeers, herror⟩ := hsockfs.quiet .open c.sock (.inl rfl)
        exact ⟨hpeers.trans hc.peers, herror.trans hc.error⟩
      obtain ⟨w, hresult, hright, hidle⟩ := Waiting.finishConnect_right
        (c := { c with sock := env.listen name c.sock }) result (hduring during) hc.listeners
        hc.resolved hpeer hid hc.woken hsock
      dsimp only
      rw [if_pos hmem]
      exact .inr ⟨w, p, hname.trans (congrArg some hresult.symm), hright, hidle⟩
  | .timeout during =>
    rw [happen]
    cases htimed : timed with
    | false =>
      rw [if_neg (by simp [hc.timer, htimed])]
      rw [htimed] at hc
      exact .inl ⟨rfl, hc⟩
    | true =>
      rw [if_pos (by simp [hc.timer, htimed])]
      obtain ⟨w, hresult, hright, hidle⟩ := Waiting.finishConnect_right
        (c := { c with timer := false }) (-etimedout) (hduring during) hc.listeners hc.resolved
        hpeer hid hc.woken fun h => absurd h (by decide)
      exact .inr ⟨w, p, congrArg some hresult.symm, hright, hidle⟩

/-- **The wait**, whatever happens. -/
theorem Waiting.Pending.afterAll {env : ConnectEnv} (hsockfs : env.SockfsBehaves) {timed : Bool}
    {left : ConnectSock} {ws : WebSocket} {c : Waiting} (hc : c.Pending timed left ws)
    (hs : List Happening) :
    (hs.findSome? (Happening.result timed) = none ∧
        (happenAll env.listen hs c).Pending timed left ws) ∨
      ∃ (w : Woken) (p : WebSocket), hs.findSome? (Happening.result timed) = some w.result ∧
        w.Right left ws ∧ (happenAll env.listen hs c).Idle (some p) [w] := by
  induction hs generalizing c with
  | nil => exact .inl ⟨rfl, hc⟩
  | cons h hs ih =>
    rw [List.findSome?_cons, happenAll]
    rcases hc.after hsockfs h with ⟨hnone, hpending⟩ | ⟨w, p, hsome, hright, hidle⟩
    · rw [hnone]
      exact ih hpending
    · rw [hsome]
      exact .inr ⟨w, p, rfl, hright, hidle.afterAll hs⟩

theorem wasmConnect_eq {env : ConnectEnv} (h : env.Blocking) :
    wasmConnect env = connectAndWait env := by
  rw [wasmConnect, if_neg (by simp [h.suspending])]
  split
  · rename_i stream hstream
    split
    · rename_i sock hsock
      rw [if_neg (by simp [h.waits stream sock hstream hsock])]
    · rfl
  · rfl

theorem Thrown.result_neg (t : Thrown) {otherwise : Nat} (h : 0 < otherwise) :
    t.result otherwise < 0 := by
  cases t with
  | errno n pos => rw [Thrown.result]; omega
  | other => rw [Thrown.result]; omega

/-- The call when it begins to wait. -/
def ConnectEnv.atWait (env : ConnectEnv) (left : ConnectSock) (ws : WebSocket) : Waiting where
  sock := left
  ws := ws
  readyState := ws.readyState
  peer := left.getAllPeers.find? fun candidate => candidate.id == ws.id
  listeners := [.open, .error, .close]
  timer := 0 < env.timeout
  resolved := false
  woken := []

/-- The call up to where it would wait. -/
theorem connectAndWait_of_starts {env : ConnectEnv} {left : ConnectSock} {ws : WebSocket}
    (h : env.Starts left ws) :
    connectAndWait env =
      if ws.readyState = .open then .woken 0
      else if ws.readyState = .closing ∨ ws.readyState = .closed then .woken (-econnrefused)
      else .waits (env.atWait left ws) := by
  obtain ⟨sock, address, hsock, haddress, hconnect, hws⟩ := h
  obtain ⟨wss, hwss⟩ := List.head?_eq_some_iff.1 hws
  rw [connectAndWait, hsock]
  dsimp only
  rw [haddress]
  dsimp only
  rw [hconnect]
  dsimp only
  rw [hwss]
  rfl

/-- Without a connection the call fails. -/
theorem connectAndWait_of_not_starts {env : ConnectEnv}
    (h : ∀ left ws, ¬ env.Starts left ws) : ∃ v < 0, connectAndWait env = .woken v := by
  rw [connectAndWait]
  cases hsock : env.getSocketFromFD with
  | error t => exact ⟨-ebadf, by decide, rfl⟩
  | ok sock =>
    cases haddress : env.address with
    | error t => exact ⟨t.result efault, t.result_neg (by decide), rfl⟩
    | ok address =>
      dsimp only
      cases hconnect : env.connect sock address with
      | error t => exact ⟨t.result econnrefused, t.result_neg (by decide), rfl⟩
      | ok left =>
        dsimp only
        cases hwss : left.getAllWebSockets with
        | nil => exact ⟨-econnrefused, by decide, rfl⟩
        | cons ws wss =>
          exact absurd ⟨sock, address, hsock, haddress, hconnect, by rw [hwss]; rfl⟩ (h left ws)

/-- The peer of the WebSocket is there when the wait begins. -/
theorem pending_of_starts {env : ConnectEnv} (hsockfs : env.SockfsBehaves) {left : ConnectSock}
    {ws : WebSocket} (h : env.Starts left ws) :
    (env.atWait left ws).Pending (0 < env.timeout) left ws := by
  obtain ⟨sock, address, -, -, hconnect, hws⟩ := h
  have hserver := hsockfs.listening sock address left hconnect
  have hmem : ws ∈ left.getAllPeers := by
    have hall := List.mem_of_head? hws
    simpa [Sock.getAllWebSockets, hserver] using hall
  have hfind : ((left.getAllPeers.find? fun candidate => candidate.id == ws.id).isSome) :=
    List.find?_isSome.2 ⟨ws, hmem, by simp⟩
  obtain ⟨p, hp⟩ := Option.isSome_iff_exists.1 hfind
  exact ⟨rfl, rfl, rfl, ⟨p, hp, by simpa using List.find?_some hp⟩, rfl, rfl, rfl⟩

/-- **A blocking connect is right**, for every order of the events and the timeout. -/
theorem wasmConnect_right {env : ConnectEnv} (hblocking : env.Blocking)
    (hsockfs : env.SockfsBehaves) (happenings : List Happening) :
    ConnectRight env happenings := by
  have heq := wasmConnect_eq hblocking
  refine ⟨fun hdead => ?_, fun left ws hstarts hopen => ?_, fun left ws hstarts hconnecting => ?_⟩
  · rw [heq]
    by_cases hstarts : ∃ left ws, env.Starts left ws
    · obtain ⟨left, ws, hstarts⟩ := hstarts
      have hws := hdead left ws hstarts
      have hopen : ws.readyState ≠ .open := by rcases hws with h | h <;> simp [h]
      refine ⟨-econnrefused, by decide, ?_⟩
      rw [connectAndWait_of_starts hstarts, if_neg hopen]
      exact if_pos hws
    · exact connectAndWait_of_not_starts fun left ws h => hstarts ⟨left, ws, h⟩
  · rw [heq, connectAndWait_of_starts hstarts, if_pos hopen]
  · rw [heq, connectAndWait_of_starts hstarts, if_neg (by simp [hconnecting]),
      if_neg (by simp [hconnecting])]
    refine ⟨_, rfl, ?_⟩
    have huntimed : env.sendTimeout = some 0 → decide (0 < env.timeout) = false := fun h => by
      rw [ConnectEnv.timeout, h]
      rfl
    rcases (pending_of_starts hsockfs hstarts).afterAll hsockfs happenings with
      ⟨hnone, hpending⟩ | ⟨w, p, hsome, hright, hidle⟩
    · refine ⟨?_, ?_, ?_, ?_⟩
      · rw [hpending.woken, hnone]
        rfl
      · rw [hpending.woken]
        exact fun w hw => absurd hw List.not_mem_nil
      · exact fun h => absurd hpending.woken h
      · exact fun h => hpending.timer.trans (huntimed h)
    · refine ⟨?_, ?_, fun _ => ⟨hidle.listeners, hidle.timer⟩, fun _ => hidle.timer⟩
      · rw [hidle.woken_eq, hsome]
        rfl
      · rw [hidle.woken_eq]
        intro w' hw'
        rwa [List.mem_singleton.1 hw']

/-- `EOPNOTSUPP` -/
def eopnotsupp : Nat := 138

/-- A stream socket without peers, and what SOCKFS does to connect it. -/
def freshConnect : ConnectEnv where
  suspending := true
  stream := some
    { nonblock := false
      sock := some
        { type := 1, server := none, pending := [], recvQueue := [], error := none, peers := []
          pending_dgram := fun _ => rfl, connecting := false } }
  address := .ok ("127.0.0.1", 80)
  connect sock _ :=
    if sock.server.isSome then .error (.errno eopnotsupp (by decide))
    else .ok { sock with peers := [⟨1, .connecting⟩], connecting := true }
  sendTimeout := some 5000
  listen name sock :=
    match name with
    | .open => { sock with connecting := false }
    | .error => { sock with error := some econnrefused }
    | _ => sock

/-- The send timeout is over, closing the WebSocket makes it fail and close, and it closes once
more. -/
theorem freshConnect_right :
    ConnectRight freshConnect
      [.timeout [.event .error [], .ready .closed, .event .close []], .event .close []] := by
  refine wasmConnect_right ⟨rfl, fun stream sock hstream hsock => ?_⟩
    ⟨fun sock address left hconnect => ?_, fun name sock hname => ?_⟩ _
  · obtain rfl := Option.some.inj hstream
    obtain rfl := Option.some.inj hsock
    rfl
  · cases hserver : sock.server with
    | some clients =>
      simp only [freshConnect, hserver] at hconnect
      cases hconnect
    | none =>
      simp only [freshConnect, hserver] at hconnect
      cases hconnect
      rfl
  · rcases hname with rfl | rfl <;> exact ⟨rfl, rfl⟩

end PhpWasm.Socket
