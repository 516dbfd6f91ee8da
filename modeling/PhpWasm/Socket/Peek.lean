import PhpWasm.Socket.Poll

/-!
# Reading a socket with `MSG_PEEK`

`recv(2)` and `recvfrom(2)` end in `PHPWASM.recvfromNow`, which asks SOCKFS for the first message of
the receive queue.  This file models it with the wrapper that `patchDatagramPoll` puts around
`recvmsg`, in both builds: only with `WITH_WS_NETWORKING_PROXY=yes` does the Dockerfile edit the
generated code so that `recvmsg` sees the flags of the call.

The edit makes `recvmsg` requeue the whole message, at the place where the unread rest of a
message on a stream socket is requeued.  So it does nothing for a datagram socket, nor for a message
without bytes, of which nothing is unread.  `peekHarmless_iff` is about every queue, every length
and every sequence of reads, and says when a read with `MSG_PEEK` leaves no trace.
-/

set_option autoImplicit false

namespace PhpWasm.Socket

/-! ## Receiving -/

/-- `SOCK_STREAM` or `SOCK_DGRAM`. -/
inductive SockKind
  | stream
  | dgram
  deriving DecidableEq

/-- A message of `recv_queue`. -/
structure Queued where
  addr : String
  port : Nat
  data : List UInt8
  deriving DecidableEq

/-- What the reads of a socket look at. -/
structure Receiver where
  kind : SockKind
  /-- `sock.server` is there. -/
  listening : Bool
  recvQueue : List Queued
  /-- The pending errno, if the peer's WebSocket failed. -/
  error : Option Nat
  /-- The WebSocket of the peer the socket is connected to. -/
  peer : Option ReadyState
  deriving DecidableEq

/-- `EAGAIN` -/
def eagain : Nat := 6
/-- `ENOTCONN` -/
def enotconn : Nat := 53

/-- `MSG_PEEK` is among the flags. -/
def msgPeek (flags : BitVec 32) : Bool := flags &&& 2#32 != 0#32

/-- `SOCKFS.websocket_sock_ops.recvmsg`, as the build has it: `none` for a socket that is closed. -/
def recvmsg (proxy : Bool) (sock : Receiver) (length : Nat) (flags : BitVec 32) :
    Except Nat (Option Queued) × Receiver :=
  if sock.kind = .stream ∧ sock.listening = true then (.error enotconn, sock)
  else
    match sock.recvQueue with
    | [] =>
      match sock.kind, sock.peer with
      | .stream, none => (.error enotconn, sock)
      | .stream, some .closing => (.ok none, sock)
      | .stream, some .closed => (.ok none, sock)
      | _, _ => (.error eagain, sock)
    | queued :: rest =>
      let bytesRead := min length queued.data.length
      let res := { queued with data := queued.data.take bytesRead }
      -- the line of the proxy build: `if (flags&2) {bytesRead = 0;}`
      let bytesRead := if proxy = true ∧ msgPeek flags = true then 0 else bytesRead
      if sock.kind = .stream ∧ bytesRead < queued.data.length then
        (.ok (some res),
          { sock with recvQueue := { queued with data := queued.data.drop bytesRead } :: rest })
      else (.ok (some res), { sock with recvQueue := rest })

/-- The `recvmsg` that `patchDatagramPoll` puts around it. -/
def patchedRecvmsg (proxy : Bool) (sock : Receiver) (length : Nat) (flags : BitVec 32) :
    Except Nat (Option Queued) × Receiver :=
  match sock.kind, sock.recvQueue, sock.error with
  | .dgram, [], some errno => (.error errno, { sock with error := none })
  | _, _, _ => recvmsg proxy sock length flags

/-- What a read gives the caller. -/
inductive RecvResult
  /-- The bytes, and where they come from. -/
  | received (msg : Queued)
  /-- `0`: the socket is closed. -/
  | closed
  /-- `-errno`.  A blocking read that gets `EAGAIN` asks again later. -/
  | error (errno : Nat)
  deriving DecidableEq

/-- What the call returns. -/
def RecvResult.value : RecvResult → Int
  | received msg => msg.data.length
  | closed => 0
  | error errno => -errno

/-- The bytes that are returned, unless the call fails. -/
def RecvResult.data : RecvResult → Option (List UInt8)
  | received msg => some msg.data
  | closed => some []
  | error _ => none

/-- The arguments of a read. -/
structure Read where
  len : Nat
  flags : BitVec 32

/-- The read only peeks. -/
def Read.peek (r : Read) : Bool := msgPeek r.flags

/-- `PHPWASM.recvfromNow`.  The default build calls `recvmsg` without flags. -/
def recvfromNow (proxy : Bool) (sock : Receiver) (r : Read) : RecvResult × Receiver :=
  match patchedRecvmsg proxy sock r.len (if proxy then r.flags else 0#32) with
  | (.ok (some msg), sock) => (.received msg, sock)
  | (.ok none, sock) => (.closed, sock)
  | (.error errno, sock) => (.error errno, sock)

/-! ## What is asked of a peek -/

/-- The data that the reads without `MSG_PEEK` return. -/
def answers (proxy : Bool) : Receiver → List Read → List (Option (List UInt8))
  | _, [] => []
  | sock, r :: reads =>
    let (result, sock') := recvfromNow proxy sock r
    if r.peek then answers proxy sock' reads else result.data :: answers proxy sock' reads

/-- What is left to read: bytes, or datagrams. -/
def Receiver.remaining (sock : Receiver) : List UInt8 ⊕ List Queued :=
  match sock.kind with
  | .stream => .inl (sock.recvQueue.flatMap Queued.data)
  | .dgram => .inr sock.recvQueue

/-- **A peek is harmless**. -/
structure PeekHarmless (proxy : Bool) (sock : Receiver) : Prop where
  /-- It returns what the next read of that length returns. -/
  same : ∀ r r' : Read, r.peek = true → r'.peek = false → r'.len = r.len →
    (recvfromNow proxy sock r).1.data =
      (recvfromNow proxy (recvfromNow proxy sock r).2 r').1.data
  /-- It leaves what is left to read. -/
  unchanged : ∀ r : Read, r.peek = true →
    (recvfromNow proxy sock r).2.remaining = sock.remaining
  /-- The other reads of a sequence do not notice. -/
  inserted : ∀ reads : List Read,
    answers proxy sock reads = answers proxy sock (reads.filter (!·.peek))

/-! ## When a peek is harmless -/

/-- The peer's WebSocket is closing or closed. -/
def Receiver.PeerGone (sock : Receiver) : Prop :=
  sock.peer = some .closing ∨ sock.peer = some .closed

/-- Messages without bytes are at the end of the queue, where they read like the end of the stream
that comes behind them. -/
structure Receiver.EmptyAtEnd (sock : Receiver) : Prop where
  gone : ∀ m ∈ sock.recvQueue, m.data = [] → sock.PeerGone
  last : sock.recvQueue.Pairwise fun m m' => m.data = [] → m'.data = []

/-- **When a peek is harmless**: nothing is queued on a datagram socket, or a stream socket listens,
or its empty messages are at its end and, in the default build, there are no others. -/
def PeekSafe (proxy : Bool) (sock : Receiver) : Prop :=
  match sock.kind with
  | .dgram => sock.recvQueue = []
  | .stream => sock.listening = true ∨
      sock.EmptyAtEnd ∧ (proxy = true ∨ ∀ m ∈ sock.recvQueue, m.data = [])

/-! ## One read -/

theorem msgPeek_zero : msgPeek 0#32 = false := by decide

theorem msgPeek_two : msgPeek 2#32 = true := by decide

section Reads

variable {proxy : Bool} {sock : Receiver} {m : Queued} {q : List Queued}

/-- A stream socket that listens has nothing to read. -/
theorem recvfromNow_listening (hk : sock.kind = .stream) (hl : sock.listening = true) (r : Read) :
    recvfromNow proxy sock r = (.error enotconn, sock) := by
  simp [recvfromNow, patchedRecvmsg, recvmsg, hk, hl]

/-- How many bytes of the first message are gone for the part that is requeued. -/
def Read.taken (proxy : Bool) (r : Read) (m : Queued) : Nat :=
  if proxy = true ∧ r.peek = true then 0 else min r.len m.data.length

/-- What is requeued of the first message. -/
def Read.requeued (proxy : Bool) (r : Read) (kind : SockKind) (m : Queued) : List Queued :=
  if kind = .stream ∧ r.taken proxy m < m.data.length then
    [{ m with data := m.data.drop (r.taken proxy m) }]
  else []

/-- **A read of a queue with a message.** -/
theorem recvfromNow_cons (hl : ¬ (sock.kind = .stream ∧ sock.listening = true))
    (hq : sock.recvQueue = m :: q) (r : Read) :
    recvfromNow proxy sock r = (.received { m with data := m.data.take r.len },
      { sock with recvQueue := r.requeued proxy sock.kind m ++ q }) := by
  have hflags : (proxy = true ∧ msgPeek (if proxy then r.flags else 0#32) = true) ↔
      (proxy = true ∧ r.peek = true) := and_congr_right fun h => by rw [if_pos h, Read.peek]
  have htake : m.data.take (min r.len m.data.length) = m.data.take r.len := by
    rw [List.take_eq_take_iff, min_assoc, min_self]
  have hrecv : patchedRecvmsg proxy sock r.len (if proxy then r.flags else 0#32) =
      recvmsg proxy sock r.len (if proxy then r.flags else 0#32) := by
    rw [patchedRecvmsg, hq]
    split <;> simp_all
  rw [recvfromNow, hrecv, recvmsg, if_neg hl, hq]
  simp only [htake, hflags]
  rw [Read.requeued]
  by_cases hrest : sock.kind = .stream ∧ r.taken proxy m < m.data.length
  · rw [if_pos hrest]
    rw [Read.taken] at hrest ⊢
    rw [if_pos hrest]
    rfl
  · rw [if_neg hrest]
    rw [Read.taken] at hrest
    rw [if_neg hrest]
    rfl

/-- An empty queue of a stream socket stays as it is. -/
theorem recvfromNow_nil_stream (hk : sock.kind = .stream) (hl : sock.listening = false)
    (hq : sock.recvQueue = []) (r : Read) :
    (recvfromNow proxy sock r).2 = sock ∧
      ((recvfromNow proxy sock r).1.data = some [] ↔ sock.PeerGone) := by
  obtain ⟨kind, listening, recvQueue, error, peer⟩ := sock
  subst hk hl hq
  rcases peer with _ | _ | _ | _ | _ <;>
    simp [recvfromNow, patchedRecvmsg, recvmsg, RecvResult.data, Receiver.PeerGone]

/-- An empty queue of a datagram socket has no data. -/
theorem recvfromNow_nil_dgram (hk : sock.kind = .dgram) (hq : sock.recvQueue = []) (r : Read) :
    (recvfromNow proxy sock r).1.data = none ∧ (recvfromNow proxy sock r).2.kind = .dgram ∧
      (recvfromNow proxy sock r).2.recvQueue = [] := by
  obtain ⟨kind, listening, recvQueue, error, peer⟩ := sock
  subst hk hq
  cases error <;> simp [recvfromNow, patchedRecvmsg, recvmsg, RecvResult.data]

/-- What a read returns does not depend on its flags. -/
theorem recvfromNow_data_congr (sock : Receiver) {r r' : Read} (h : r'.len = r.len) :
    (recvfromNow proxy sock r').1.data = (recvfromNow proxy sock r).1.data := by
  by_cases hl : sock.kind = .stream ∧ sock.listening = true
  · rw [recvfromNow_listening hl.1 hl.2, recvfromNow_listening hl.1 hl.2]
  · cases hq : sock.recvQueue with
    | cons m q => rw [recvfromNow_cons hl hq, recvfromNow_cons hl hq, h]
    | nil => rw [recvfromNow, recvfromNow, h, patchedRecvmsg, patchedRecvmsg, recvmsg, recvmsg, hq]

/-- A read that takes the whole first message. -/
theorem recvfromNow_all (hl : ¬ (sock.kind = .stream ∧ sock.listening = true))
    (hq : sock.recvQueue = m :: q) {r : Read} (hr : r.peek = false) (hlen : m.data.length ≤ r.len) :
    recvfromNow proxy sock r = (.received m, { sock with recvQueue := q }) := by
  have hdata : { m with data := m.data.take r.len } = m := by rw [List.take_of_length_le hlen]
  have hrest : r.requeued proxy sock.kind m = [] := by
    simp [Read.requeued, Read.taken, hr, hlen]
  rw [recvfromNow_cons hl hq, hdata, hrest, List.nil_append]

/-- A message without bytes is gone after any read. -/
theorem recvfromNow_empty (hl : ¬ (sock.kind = .stream ∧ sock.listening = true))
    (hq : sock.recvQueue = m :: q) (hm : m.data = []) (r : Read) :
    recvfromNow proxy sock r = (.received m, { sock with recvQueue := q }) := by
  have hdata : { m with data := m.data.take r.len } = m := by rw [hm, List.take_nil, ← hm]
  have hrest : r.requeued proxy sock.kind m = [] := by simp [Read.requeued, hm]
  rw [recvfromNow_cons hl hq, hdata, hrest, List.nil_append]

/-- In the proxy build, a peek requeues a message with bytes on a stream socket. -/
theorem recvfromNow_peek (hk : sock.kind = .stream) (hl : sock.listening = false)
    (hq : sock.recvQueue = m :: q) (hm : m.data ≠ []) {r : Read} (hr : r.peek = true) :
    (recvfromNow true sock r).2 = sock := by
  have hrest : r.requeued true sock.kind m = [m] := by
    simp [Read.requeued, Read.taken, hk, hr, List.length_pos_iff.2 hm]
  rw [recvfromNow_cons (by simp [hl]) hq, hrest, List.singleton_append, ← hq]

end Reads

/-! ## Sequences of reads -/

section Answers

variable {proxy : Bool}

theorem answers_cons_peek (sock : Receiver) {r : Read} (hr : r.peek = true) (reads : List Read) :
    answers proxy sock (r :: reads) = answers proxy (recvfromNow proxy sock r).2 reads := by
  rw [answers]
  exact if_pos hr

theorem answers_cons_read (sock : Receiver) {r : Read} (hr : r.peek = false) (reads : List Read) :
    answers proxy sock (r :: reads) = (recvfromNow proxy sock r).1.data ::
      answers proxy (recvfromNow proxy sock r).2 reads := by
  rw [answers]
  exact if_neg (by simp [hr])

/-- Where every read has the same answer, only their number counts. -/
theorem answers_const {P : Receiver → Prop} {d : Option (List UInt8)}
    (hstep : ∀ sock r, P sock →
      (recvfromNow proxy sock r).1.data = d ∧ P (recvfromNow proxy sock r).2)
    {sock : Receiver} (h : P sock) (reads : List Read) :
    answers proxy sock reads = List.replicate (reads.filter (!·.peek)).length d := by
  induction reads generalizing sock with
  | nil => rfl
  | cons r reads ih =>
    obtain ⟨hdata, hnext⟩ := hstep sock r h
    cases hr : r.peek with
    | true => rw [answers_cons_peek sock hr, ih hnext, List.filter_cons_of_neg (by simp [hr])]
    | false =>
      rw [answers_cons_read sock hr, ih hnext, hdata, List.filter_cons_of_pos (by simp [hr])]
      rfl

/-- There a peek makes no difference. -/
theorem inserted_of_const {P : Receiver → Prop} {d : Option (List UInt8)}
    (hstep : ∀ sock r, P sock →
      (recvfromNow proxy sock r).1.data = d ∧ P (recvfromNow proxy sock r).2)
    {sock : Receiver} (h : P sock) (reads : List Read) :
    answers proxy sock reads = answers proxy sock (reads.filter (!·.peek)) := by
  rw [answers_const hstep h, answers_const hstep h, List.filter_filter]
  simp only [Bool.and_self]

/-- What is harmless before a read is harmless after it. -/
theorem inserted_after {sock : Receiver}
    (h : ∀ reads, answers proxy sock reads = answers proxy sock (reads.filter (!·.peek)))
    {r : Read} (hr : r.peek = false) (reads : List Read) :
    answers proxy (recvfromNow proxy sock r).2 reads =
      answers proxy (recvfromNow proxy sock r).2 (reads.filter (!·.peek)) := by
  have hcons := h (r :: reads)
  rw [List.filter_cons_of_pos (by simp [hr]), answers_cons_read sock hr,
    answers_cons_read sock hr] at hcons
  exact (List.cons.inj hcons).2

/-- A peek answers like the read behind it, if nobody notices the peek. -/
theorem same_of_inserted {sock : Receiver}
    (h : ∀ reads, answers proxy sock reads = answers proxy sock (reads.filter (!·.peek)))
    (r r' : Read) (hr : r.peek = true) (hr' : r'.peek = false) (hlen : r'.len = r.len) :
    (recvfromNow proxy sock r).1.data =
      (recvfromNow proxy (recvfromNow proxy sock r).2 r').1.data := by
  have hpair := h [r, r']
  rw [List.filter_cons_of_neg (by simp [hr]), List.filter_cons_of_pos (by simp [hr']),
    answers_cons_peek sock hr, answers_cons_read _ hr', answers_cons_read _ hr'] at hpair
  rw [(List.cons.inj hpair).1, recvfromNow_data_congr sock hlen]

end Answers

/-! ## When nobody notices -/

section Streams

variable {proxy : Bool} {sock : Receiver}

/-- Nothing but the end of the stream, or empty messages that read like it. -/
structure Receiver.Ended (sock : Receiver) : Prop where
  kind : sock.kind = .stream
  listening : sock.listening = false
  empty : ∀ m ∈ sock.recvQueue, m.data = []
  gone : sock.PeerGone

theorem Receiver.Ended.read (h : sock.Ended) (r : Read) :
    (recvfromNow proxy sock r).1.data = some [] ∧ (recvfromNow proxy sock r).2.Ended := by
  cases hq : sock.recvQueue with
  | nil =>
    refine ⟨(recvfromNow_nil_stream h.kind h.listening hq r).2.2 h.gone, ?_⟩
    rw [(recvfromNow_nil_stream h.kind h.listening hq r).1]
    exact h
  | cons m q =>
    have hempty := h.empty
    rw [hq, List.forall_mem_cons] at hempty
    rw [recvfromNow_empty (by simp [h.listening]) hq hempty.1]
    exact ⟨congrArg some hempty.1, h.kind, h.listening, hempty.2, h.gone⟩

theorem emptyAtEnd_cons {m : Queued} {q : List Queued} (hq : sock.recvQueue = m :: q) :
    sock.EmptyAtEnd ↔ (m.data = [] → sock.PeerGone ∧ ∀ m' ∈ q, m'.data = []) ∧
      Receiver.EmptyAtEnd { sock with recvQueue := q } := by
  constructor
  · rintro ⟨hgone, hlast⟩
    rw [hq, List.forall_mem_cons] at hgone
    rw [hq, List.pairwise_cons] at hlast
    exact ⟨fun hm => ⟨hgone.1 hm, fun m' hm' => hlast.1 m' hm' hm⟩, hgone.2, hlast.2⟩
  · rintro ⟨hm, hgone, hlast⟩
    refine ⟨?_, ?_⟩
    · rw [hq, List.forall_mem_cons]
      exact ⟨fun h => (hm h).1, hgone⟩
    · rw [hq, List.pairwise_cons]
      exact ⟨fun m' hm' h => (hm h).2 m' hm', hlast⟩

/-- A queue of empty messages reads as ended only if the stream is. -/
theorem ended_of_data (hk : sock.kind = .stream) (hl : sock.listening = false)
    (hrest : sock.EmptyAtEnd) {r : Read} (hlen : r.len ≠ 0)
    (hdata : (recvfromNow proxy sock r).1.data = some []) : sock.Ended := by
  cases hq : sock.recvQueue with
  | nil => exact ⟨hk, hl, by simp [hq], (recvfromNow_nil_stream hk hl hq r).2.1 hdata⟩
  | cons m q =>
    have hm : m.data = [] := by
      rw [recvfromNow_cons (by simp [hl]) hq, RecvResult.data, Option.some.injEq,
        List.take_eq_nil_iff] at hdata
      exact hdata.resolve_left hlen
    obtain ⟨hgone, hempty⟩ := ((emptyAtEnd_cons hq).1 hrest).1 hm
    refine ⟨hk, hl, ?_, hgone⟩
    rw [hq, List.forall_mem_cons]
    exact ⟨hm, hempty⟩

/-- Messages behind an empty one are empty, and then the peer is gone. -/
theorem emptyAtEnd_of_inserted (hk : sock.kind = .stream) (hl : sock.listening = false)
    (h : ∀ reads, answers proxy sock reads = answers proxy sock (reads.filter (!·.peek))) :
    sock.EmptyAtEnd := by
  generalize hq : sock.recvQueue = q
  induction q generalizing sock with
  | nil => exact ⟨by simp [hq], by simp [hq]⟩
  | cons m q ih =>
    have hlisten : ¬ (sock.kind = .stream ∧ sock.listening = true) := by simp [hl]
    have hafter : recvfromNow proxy sock ⟨m.data.length, 0#32⟩ = _ :=
      recvfromNow_all hlisten hq msgPeek_zero le_rfl
    have hrest : Receiver.EmptyAtEnd { sock with recvQueue := q } := by
      refine ih hk hl (fun reads => ?_) rfl
      have hnext := inserted_after h (r := ⟨m.data.length, 0#32⟩) msgPeek_zero reads
      rwa [hafter] at hnext
    by_cases hm : m.data = []
    · -- a peek drops the message, so the next read finds the end of the stream as well
      have hsame := same_of_inserted h ⟨1, 2#32⟩ ⟨1, 0#32⟩ msgPeek_two msgPeek_zero rfl
      rw [recvfromNow_empty hlisten hq hm, RecvResult.data, hm] at hsame
      have hended : Receiver.Ended { sock with recvQueue := q } :=
        ended_of_data hk hl hrest Nat.one_ne_zero hsame.symm
      exact (emptyAtEnd_cons hq).2 ⟨fun _ => ⟨hended.gone, hended.empty⟩, hrest⟩
    · exact (emptyAtEnd_cons hq).2 ⟨fun h => absurd h hm, hrest⟩

/-- In the default build, a peek at a message with bytes takes one away. -/
theorem empty_of_unchanged (hk : sock.kind = .stream) (hl : sock.listening = false)
    (hend : sock.EmptyAtEnd)
    (h : ∀ r : Read, r.peek = true → (recvfromNow false sock r).2.remaining = sock.remaining) :
    ∀ m ∈ sock.recvQueue, m.data = [] := by
  cases hq : sock.recvQueue with
  | nil => exact fun m hm => absurd hm List.not_mem_nil
  | cons m q =>
    have hm : m.data = [] := by
      by_contra hne
      have hlen := h ⟨m.data.length, 2#32⟩ msgPeek_two
      have hrest : Read.requeued false ⟨m.data.length, 2#32⟩ sock.kind m = [] := by
        simp [Read.requeued, Read.taken]
      rw [recvfromNow_cons (by simp [hl]) hq, hrest, List.nil_append, Receiver.remaining,
        Receiver.remaining, hq] at hlen
      simp only [hk, Sum.inl.injEq, List.flatMap_cons] at hlen
      exact hne (List.append_left_eq_self.1 hlen.symm)
    rw [List.forall_mem_cons]
    exact ⟨hm, (((emptyAtEnd_cons hq).1 hend).1 hm).2⟩

/-- On a datagram socket, a peek takes the first message away. -/
theorem nil_of_unchanged (hk : sock.kind = .dgram)
    (h : ∀ r : Read, r.peek = true → (recvfromNow proxy sock r).2.remaining = sock.remaining) :
    sock.recvQueue = [] := by
  cases hq : sock.recvQueue with
  | nil => rfl
  | cons m q =>
    have hlen := h ⟨0, 2#32⟩ msgPeek_two
    have hrest : Read.requeued proxy ⟨0, 2#32⟩ sock.kind m = [] := by simp [Read.requeued, hk]
    rw [recvfromNow_cons (by simp [hk]) hq, hrest, List.nil_append, Receiver.remaining,
      Receiver.remaining, hq] at hlen
    simp [hk] at hlen

/-- **What harmless peeks come down to.** -/
theorem peekSafe_of_harmless (h : PeekHarmless proxy sock) : PeekSafe proxy sock := by
  rw [PeekSafe]
  cases hk : sock.kind with
  | dgram => exact nil_of_unchanged hk h.unchanged
  | stream =>
    cases hl : sock.listening with
    | true => exact .inl rfl
    | false =>
      have hend := emptyAtEnd_of_inserted hk hl h.inserted
      cases hproxy : proxy with
      | true => exact .inr ⟨hend, .inl rfl⟩
      | false =>
        rw [hproxy] at h
        exact .inr ⟨hend, .inr (empty_of_unchanged hk hl hend h.unchanged)⟩

/-- What is safe about a stream socket that does not listen. -/
structure StreamSafe (proxy : Bool) (sock : Receiver) : Prop where
  kind : sock.kind = .stream
  listening : sock.listening = false
  atEnd : sock.EmptyAtEnd
  build : proxy = true ∨ ∀ m ∈ sock.recvQueue, m.data = []

theorem Receiver.Ended.streamSafe (h : sock.Ended) : StreamSafe proxy sock where
  kind := h.kind
  listening := h.listening
  atEnd := ⟨fun _ _ _ => h.gone,
    List.pairwise_of_forall_mem_list fun _ _ m' hm' _ => h.empty m' hm'⟩
  build := .inr h.empty

/-- In a queue that is safe, an empty message is the end. -/
theorem StreamSafe.ended {m : Queued} {q : List Queued} (h : StreamSafe proxy sock)
    (hq : sock.recvQueue = m :: q) (hm : m.data = []) : sock.Ended := by
  obtain ⟨hgone, hempty⟩ := ((emptyAtEnd_cons hq).1 h.atEnd).1 hm
  refine ⟨h.kind, h.listening, ?_, hgone⟩
  rw [hq, List.forall_mem_cons]
  exact ⟨hm, hempty⟩

/-- Reading keeps a queue safe. -/
theorem StreamSafe.read (h : StreamSafe proxy sock) (r : Read) :
    StreamSafe proxy (recvfromNow proxy sock r).2 := by
  cases hq : sock.recvQueue with
  | nil => rwa [(recvfromNow_nil_stream h.kind h.listening hq r).1]
  | cons m q =>
    by_cases hm : m.data = []
    · exact ((h.ended hq hm).read r).2.streamSafe
    · have hproxy : proxy = true := h.build.resolve_right fun hall => hm (hall m (by simp [hq]))
      have hrest := ((emptyAtEnd_cons hq).1 h.atEnd).2
      rw [recvfromNow_cons (by simp [h.listening]) hq]
      refine ⟨h.kind, h.listening, ?_, .inl hproxy⟩
      rw [Read.requeued]
      split
      · -- bytes are left in what is requeued
        rename_i htaken
        refine (emptyAtEnd_cons rfl).2 ⟨fun hnil => absurd hnil ?_, hrest⟩
        rw [List.drop_eq_nil_iff, not_le]
        exact htaken.2
      · exact hrest

/-- A peek leaves a safe queue alone, unless only the end of the stream is left. -/
theorem StreamSafe.peek (h : StreamSafe proxy sock) :
    sock.Ended ∨ ∀ r : Read, r.peek = true → (recvfromNow proxy sock r).2 = sock := by
  cases hq : sock.recvQueue with
  | nil => exact .inr fun r _ => (recvfromNow_nil_stream h.kind h.listening hq r).1
  | cons m q =>
    by_cases hm : m.data = []
    · exact .inl (h.ended hq hm)
    · have hproxy : proxy = true := h.build.resolve_right fun hall => hm (hall m (by simp [hq]))
      rw [hproxy]
      exact .inr fun r => recvfromNow_peek h.kind h.listening hq hm

theorem StreamSafe.inserted (h : StreamSafe proxy sock) (reads : List Read) :
    answers proxy sock reads = answers proxy sock (reads.filter (!·.peek)) := by
  induction reads generalizing sock with
  | nil => rfl
  | cons r reads ih =>
    rcases h.peek with hended | hsame
    · exact inserted_of_const (fun _ r h => h.read r) hended (r :: reads)
    · cases hr : r.peek with
      | true =>
        rw [answers_cons_peek sock hr, hsame r hr, List.filter_cons_of_neg (by simp [hr]), ih h]
      | false =>
        rw [List.filter_cons_of_pos (by simp [hr]), answers_cons_read sock hr,
          answers_cons_read sock hr, ih (h.read r)]

theorem StreamSafe.unchanged (h : StreamSafe proxy sock) {r : Read} (hr : r.peek = true) :
    (recvfromNow proxy sock r).2.remaining = sock.remaining := by
  have hbytes : ∀ {sock : Receiver}, sock.Ended → sock.remaining = .inl [] := fun hended => by
    rw [Receiver.remaining, hended.kind]
    exact congrArg Sum.inl (List.flatMap_eq_nil_iff.2 hended.empty)
  rcases h.peek with hended | hsame
  · rw [hbytes hended, hbytes (hended.read r).2]
  · rw [hsame r hr]

end Streams

/-- Nobody notices the peeks, and they leave what is left to read. -/
theorem inserted_and_unchanged {proxy : Bool} {sock : Receiver} (h : PeekSafe proxy sock) :
    (∀ reads, answers proxy sock reads = answers proxy sock (reads.filter (!·.peek))) ∧
      ∀ r : Read, r.peek = true → (recvfromNow proxy sock r).2.remaining = sock.remaining := by
  rw [PeekSafe] at h
  cases hk : sock.kind with
  | dgram =>
    rw [hk] at h
    have hstep : ∀ (sock : Receiver) (r : Read), sock.kind = .dgram ∧ sock.recvQueue = [] →
        (recvfromNow proxy sock r).1.data = none ∧ (recvfromNow proxy sock r).2.kind = .dgram ∧
          (recvfromNow proxy sock r).2.recvQueue = [] :=
      fun _ r h => recvfromNow_nil_dgram h.1 h.2 r
    refine ⟨inserted_of_const hstep ⟨hk, h⟩, fun r _ => ?_⟩
    obtain ⟨-, hk', hq'⟩ := hstep sock r ⟨hk, h⟩
    rw [Receiver.remaining, Receiver.remaining, hk, hk', hq', h]
  | stream =>
    rw [hk] at h
    cases hl : sock.listening with
    | true =>
      have hstep : ∀ (sock : Receiver) (r : Read), sock.kind = .stream ∧ sock.listening = true →
          (recvfromNow proxy sock r).1.data = none ∧
            (recvfromNow proxy sock r).2.kind = .stream ∧
              (recvfromNow proxy sock r).2.listening = true := fun sock r h => by
        rw [recvfromNow_listening h.1 h.2]
        exact ⟨rfl, h⟩
      exact ⟨inserted_of_const hstep ⟨hk, hl⟩, fun r _ => by rw [recvfromNow_listening hk hl]⟩
    | false =>
      obtain ⟨hend, hbuild⟩ := h.resolve_left (by simp [hl])
      have hsafe : StreamSafe proxy sock := ⟨hk, hl, hend, hbuild⟩
      exact ⟨hsafe.inserted, fun r => hsafe.unchanged⟩

/-- **When reads with `MSG_PEEK` are harmless**, in both builds. -/
theorem peekHarmless_iff {proxy : Bool} {sock : Receiver} :
    PeekHarmless proxy sock ↔ PeekSafe proxy sock := by
  refine ⟨peekSafe_of_harmless, fun h => ?_⟩
  obtain ⟨hinserted, hunchanged⟩ := inserted_and_unchanged h
  exact ⟨fun r r' hr hr' => same_of_inserted hinserted r r' hr hr', hunchanged, hinserted⟩

/-- In the default build a peek at `abc` on a connected socket takes a byte of it away; in the proxy
build a peek at a datagram takes the datagram away. -/
theorem default_peek_not_harmless :
    ¬ PeekHarmless false ⟨.stream, false, [⟨"10.0.0.1", 80, [97, 98, 99]⟩], none, some .open⟩ ∧
      ¬ PeekHarmless true ⟨.dgram, false, [⟨"10.0.0.1", 53, [97, 98, 99]⟩], none, some .open⟩ := by
  constructor
  all_goals
    intro h
    have hsame := h.same ⟨1, 2#32⟩ ⟨1, 0#32⟩ rfl rfl rfl
    exact absurd hsame (by decide)

end PhpWasm.Socket
