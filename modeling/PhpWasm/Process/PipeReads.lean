import PhpWasm.Base.Pipe
import PhpWasm.Base.Run
import PhpWasm.Process.FdRead

/-!
# Reading a pipe to its end

`wasm_read` is `js_fd_read` on the pipe of a child process, while the process goes on writing.  The
moments of `PhpWasm.Process.FdRead` are here those of one `Posix.Pipe`, as the build patches PIPEFS:
a read of an empty pipe answers `EWOULDBLOCK` as long as its other end is open, and `0` afterwards.

* `PipeReads` is the pipe with what was written to it and what the reads have returned.  What the
  writer does while a call sleeps is part of the event that the call is.
* `pipeReadsRight`: whatever the writer does and however long the calls sleep, the bytes that were
  read and those that are left are the bytes that were written; the end is reported only after all
  of them, and a call fails only where there is nothing to read, after all its attempts.
-/

set_option autoImplicit false

namespace PhpWasm.FdRead

open Machine Posix

/-! ## The last attempt of a call -/

/-- Without success, the loop ends where a moment gives up, or after all its retries. -/
theorem waits_pollLoop {moments : Nat → Moment} {i retries : Nat} (h : retries ≤ maxRetries)
    (hresult : (pollLoop moments i retries).result = ewouldblock) :
    (moments (i + (pollLoop moments i retries).waits)).givesUp ewouldblock = true ∨
      retries + (pollLoop moments i retries).waits = maxRetries := by
  induction i, retries using pollLoop.induct moments with
  | case1 i retries num hattempt =>
    rw [pollLoop, hattempt] at hresult
    exact absurd hresult.symm ewouldblock.2
  | case2 i retries e hattempt hstop =>
    rw [pollLoop, hattempt] at hresult ⊢
    dsimp only at hresult ⊢
    rw [if_pos hstop] at hresult ⊢
    have he : e = ewouldblock := Subtype.ext hresult
    rw [he] at hstop
    rcases hstop with hretries | hgivesUp
    · exact .inr (by rw [Nat.add_zero]; omega)
    · exact .inl hgivesUp
  | case3 i retries e hattempt hgo ih =>
    rw [pollLoop, hattempt] at hresult ⊢
    dsimp only at hresult ⊢
    rw [if_neg hgo] at hresult ⊢
    rw [not_or] at hgo
    have hnext := ih (by omega) hresult
    rw [waits_after_true]
    rw [show i + ((pollLoop moments (i + 1) (retries + 1)).waits + 1) =
      i + 1 + (pollLoop moments (i + 1) (retries + 1)).waits by omega]
    exact hnext.imp_right fun hwaits => by omega

/-- **How a call of `wasm_read` ends.**  Attempt `last` is the last one, and decides. -/
structure EndsAfter (moments : Nat → Moment) (c : Call) (last : Nat) : Prop where
  length : c.attempts.length = last + 1
  before : ∀ i < last, (moments i).attempt = .error ewouldblock
  ends : c.EndsWith (moments last).attempt
  /-- It does not give up early. -/
  patient : c.result = ewouldblock → (moments 0).nonBlocking = true ∨
    (moments last).givesUp ewouldblock = true ∨ c.waits = maxRetries

/-- The attempts of a call, read off its moments. -/
theorem Call.Shape.moments {moments : Nat → Moment} {c : Call} {failures i : Nat}
    (h : c.Shape failures) (hinOrder : c.attempts = outcomes moments i c.attempts.length) :
    (∀ k < failures, (moments (i + k)).attempt = .error ewouldblock) ∧
      c.EndsWith (moments (i + failures)).attempt := by
  have hlength := h.length
  obtain ⟨last, hattempts, hends⟩ := h
  have hget : ∀ k ≤ failures, c.attempts[k]? = some (moments (i + k)).attempt := by
    intro k hk
    rw [hinOrder, hlength, outcomes, List.getElem?_map,
      List.getElem?_range' (Nat.lt_succ_of_le hk), one_mul]
    rfl
  refine ⟨fun k hk => ?_, ?_⟩
  · have hsome := hget k hk.le
    rw [hattempts, List.getElem?_append_left (by simpa using hk),
      List.getElem?_replicate_of_lt hk] at hsome
    exact (Option.some.inj hsome).symm
  · have hsome := hget failures le_rfl
    rw [hattempts, List.getElem?_append_right (by simp), List.length_replicate,
      Nat.sub_self] at hsome
    rwa [← Option.some.inj hsome]

theorem fdRead_endsAfter (build : Build) (moments : Nat → Moment) (pnum : UInt32) :
    ∃ last, EndsAfter moments (fdRead build true moments pnum) last := by
  have hnone : ∀ k < 0, (moments k).attempt = .error ewouldblock := fun k hk =>
    absurd hk (Nat.not_lt_zero k)
  rw [fdRead_eq, jsFdRead]
  cases hattempt : (moments 0).attempt with
  | ok num =>
    refine ⟨0, rfl, hnone, ?_, fun h => absurd h.symm ewouldblock.2⟩
    rw [hattempt]
    exact ⟨rfl, rfl⟩
  | error e =>
    dsimp only
    split
    · rename_i he
      exact ⟨0, rfl, hnone, by rw [hattempt]; rfl, fun h => absurd (Subtype.ext h) he⟩
    rename_i he
    rw [not_not] at he
    split
    · rename_i hnonBlocking
      exact ⟨0, rfl, hnone, by rw [hattempt]; rfl, fun _ => .inl hnonBlocking⟩
    · rw [if_neg fun h => by cases h]
      obtain ⟨hshape, hinOrder, -⟩ := pollLoop_shape moments (i := 1) (Nat.zero_le maxRetries)
      obtain ⟨hbefore, hends⟩ := hshape.moments hinOrder
      refine ⟨(pollLoop moments 1 0).waits + 1, ?_, fun k hk => ?_, ?_, fun hresult => ?_⟩
      · rw [attempts_after, List.length_cons, hshape.length]
      · rcases k with _ | k
        · rw [hattempt, he]
        · rw [Nat.add_comm]
          exact hbefore k (by omega)
      · rw [Nat.add_comm]
        exact hends
      · have hpatient := waits_pollLoop (Nat.zero_le maxRetries) hresult
        rw [Nat.add_comm, Nat.zero_add] at hpatient
        exact .inr hpatient

/-! ## The pipe -/

/-- What the process at the other end does. -/
inductive WriterEvent
  | write (bytes : List UInt8)
  | close

/-- The pipe afterwards.  Nobody writes to an end that is closed. -/
def WriterEvent.apply (p : Pipe UInt8) : WriterEvent → Pipe UInt8
  | .write bytes => if p.writeEnd then p.write bytes else p
  | .close => p.closeWrite

/-- The bytes that are written. -/
def WriterEvent.bytes (p : Pipe UInt8) : WriterEvent → List UInt8
  | .write bytes => if p.writeEnd then bytes else []
  | .close => []

/-- `pipe.refcnt` -/
def refcnt (p : Pipe UInt8) : Nat := p.readEnd.toNat + p.writeEnd.toNat

/-- What `doReadv` answers for a buffer of `n` bytes, and what it leaves. -/
def doReadv (p : Pipe UInt8) (n : UInt32) : Outcome × List UInt8 × Pipe UInt8 :=
  if n = 0 then (.ok 0, [], p)
  else
    match p.read n.toNat with
    | (.data bytes, p) => (.ok (.ofNat bytes.length), bytes, p)
    | (.eof, p) => (.ok 0, [], p)
    | (.wouldBlock, p) => (.error ewouldblock, [], p)

/-- What an attempt finds. -/
def pipeMoment (flags : BitVec 32) (n : UInt32) (p : Pipe UInt8) : Moment :=
  ⟨some ⟨flags, false, some (refcnt p), (doReadv p n).1⟩⟩

/-! ## The machine -/

/-- A pipe, and what has come of it. -/
structure PipeReads where
  pipe : Pipe UInt8
  /-- The bytes that were written so far. -/
  written : List UInt8
  /-- The bytes that the reads have returned so far. -/
  delivered : List UInt8
  /-- What the last read has returned: `wasm_read`, and the buffer. -/
  returned : Option ((Int × Option Nat) × List UInt8)

/-- A call of `wasm_read`. -/
structure PipeRead where
  build : Build
  /-- The flags of the stream. -/
  flags : BitVec 32
  /-- The size of the buffer. -/
  n : UInt32
  /-- What is at `pnum` before. -/
  num : UInt32
  /-- What the writer does between two attempts. -/
  meanwhile : Nat → List WriterEvent

/-- What happens to a pipe. -/
inductive PipeEvent
  | writer (e : WriterEvent)
  | read (r : PipeRead)

namespace PipeReads

/-- A pipe, before anything is written. -/
def start : PipeReads := ⟨.new, [], [], none⟩

/-- What the writer does. -/
def writes (s : PipeReads) (e : WriterEvent) : PipeReads :=
  { s with pipe := e.apply s.pipe, written := s.written ++ e.bytes s.pipe }

/-- What attempt `i` of a call finds, if the ones before it have failed. -/
def before (s : PipeReads) (meanwhile : Nat → List WriterEvent) : Nat → PipeReads
  | 0 => s
  | i + 1 => (meanwhile i).foldl writes (s.before meanwhile i)

/-- What the attempts of a call find. -/
def moments (s : PipeReads) (r : PipeRead) (i : Nat) : Moment :=
  pipeMoment r.flags r.n (s.before r.meanwhile i).pipe

/-- The number of the last attempt. -/
def last (s : PipeReads) (r : PipeRead) : Nat :=
  (fdRead r.build true (s.moments r) r.num).attempts.length - 1

/-- A call: its last attempt takes the bytes. -/
def reads (s : PipeReads) (r : PipeRead) : PipeReads :=
  let found := s.before r.meanwhile (s.last r)
  let (_, bytes, pipe) := doReadv found.pipe r.n
  { found with
    pipe := pipe
    delivered := found.delivered ++ bytes
    returned := some (wasmRead r.build (s.moments r) r.num, bytes) }

def step (s : PipeReads) : PipeEvent → PipeReads
  | .writer e => s.writes e
  | .read r => s.reads r

end PipeReads

/-! ## What is asked of it -/

/-- **The pipe is right**: what was read and what is left is what was written. -/
structure PipeRight (s : PipeReads) : Prop where
  stream : s.delivered ++ s.pipe.buffer = s.written
  /-- The end that is read from is open. -/
  readEnd : s.pipe.readEnd = true

/-- **A read is right**, whatever the writer does meanwhile. -/
structure ReadRight (s : PipeReads) (r : PipeRead) : Prop where
  /-- It returns the number of the bytes. -/
  counted : ∀ value bytes, (s.reads r).returned = some ((value, none), bytes) →
    r.n.toNat < 2 ^ 31 → value = bytes.length ∧ bytes.length ≤ r.n.toNat
  /-- The end is reported when the writer is gone and all that it has written was read. -/
  atEnd : ∀ value, (s.reads r).returned = some ((value, none), []) → r.n ≠ 0 →
    (s.reads r).pipe.writeEnd = false ∧ (s.reads r).delivered = (s.reads r).written
  /-- A call that fails says `EWOULDBLOCK`.  There is nothing to read then, and, unless the stream
  does not block, there was nothing for a hundred times fifty milliseconds. -/
  failed : ∀ value errno bytes, (s.reads r).returned = some ((value, some errno), bytes) →
    value = -1 ∧ errno = ewouldblock ∧ bytes = [] ∧ (s.reads r).pipe.writeEnd = true ∧
      (s.reads r).delivered = (s.reads r).written ∧
        (r.flags &&& oNonblock ≠ 0 ∨ (fdRead r.build true (s.moments r) r.num).waits = 100)

/-- What is asked of a step. -/
def EventRight (s : PipeReads) : PipeEvent → Prop
  | .writer _ => True
  | .read r => ReadRight s r

/-! ## One attempt -/

section Attempt

variable {p : Pipe UInt8} {n : UInt32}

/-- The three answers of `doReadv`. -/
theorem doReadv_cases (p : Pipe UInt8) (n : UInt32) :
    (∃ bytes rest, doReadv p n = (.ok (.ofNat bytes.length), bytes, { p with buffer := rest }) ∧
      bytes ++ rest = p.buffer ∧ bytes.length ≤ n.toNat ∧
        (bytes = [] → n ≠ 0 → p.buffer = [] ∧ p.writeEnd = false)) ∨
    (doReadv p n = (.error ewouldblock, [], p) ∧ p.buffer = [] ∧ p.writeEnd = true) := by
  by_cases hn : n = 0
  · refine .inl ⟨[], p.buffer, ?_, rfl, Nat.zero_le _, fun _ h => absurd hn h⟩
    rw [doReadv, if_pos hn]
    rfl
  by_cases hbuffer : p.buffer = []
  · cases hw : p.writeEnd with
    | false =>
      refine .inl ⟨[], [], ?_, hbuffer.symm, Nat.zero_le _, fun _ _ => ⟨hbuffer, rfl⟩⟩
      obtain ⟨buffer, readEnd, writeEnd⟩ := p
      obtain rfl : buffer = [] := hbuffer
      obtain rfl : writeEnd = false := hw
      rw [doReadv, if_neg hn]
      rfl
    | true =>
      refine .inr ⟨?_, hbuffer, rfl⟩
      rw [doReadv, if_neg hn, Pipe.read_of_nil hbuffer, hw]
      rfl
  · refine .inl ⟨p.buffer.take n.toNat, p.buffer.drop n.toNat, ?_, List.take_append_drop _ _,
      List.length_take_le _ _, fun hnil h => ?_⟩
    · rw [doReadv, if_neg hn, Pipe.read_of_ne_nil hbuffer]
    · rw [List.take_eq_nil_iff] at hnil
      exact absurd (hnil.resolve_right hbuffer) fun h0 => h (UInt32.toNat_inj.1 h0)

theorem attempt_pipeMoment (flags : BitVec 32) (n : UInt32) (p : Pipe UInt8) :
    (pipeMoment flags n p).attempt = (doReadv p n).1 := rfl

/-- Nobody gives up a pipe that is still written to. -/
theorem givesUp_pipeMoment (flags : BitVec 32) (n : UInt32) (hr : p.readEnd = true)
    (hw : p.writeEnd = true) : (pipeMoment flags n p).givesUp ewouldblock = false := by
  simp [pipeMoment, Moment.givesUp, refcnt, hr, hw]

end Attempt

/-! ## One event -/

section Step

variable {s : PipeReads}

theorem PipeRight.writes (h : PipeRight s) (e : WriterEvent) : PipeRight (s.writes e) := by
  cases e with
  | close =>
    refine ⟨?_, h.readEnd⟩
    simp only [PipeReads.writes, WriterEvent.apply, WriterEvent.bytes, List.append_nil]
    exact h.stream
  | write bytes =>
    simp only [PipeReads.writes, WriterEvent.apply, WriterEvent.bytes]
    split
    · refine ⟨?_, h.readEnd⟩
      rw [Pipe.buffer_write, ← List.append_assoc, h.stream]
    · rw [List.append_nil]
      exact ⟨h.stream, h.readEnd⟩

/-- What the writer does between the attempts keeps the pipe right. -/
theorem PipeRight.before (h : PipeRight s) (meanwhile : Nat → List WriterEvent) (i : Nat) :
    PipeRight (s.before meanwhile i) := by
  induction i with
  | zero => exact h
  | succ i ih => exact run_inv_of_step (fun _ e hs => hs.writes e) ih (meanwhile i)

/-- Its last attempt is the one that decides about a call. -/
theorem endsAfter_last (s : PipeReads) (r : PipeRead) :
    EndsAfter (s.moments r) (fdRead r.build true (s.moments r) r.num) (s.last r) := by
  obtain ⟨last, hends⟩ := fdRead_endsAfter r.build (s.moments r) r.num
  have hlast : s.last r = last := by
    rw [PipeReads.last, hends.length, Nat.add_sub_cancel]
  rwa [hlast]

/-- **What a call does.**  It takes bytes, or it finds nothing and fails. -/
theorem reads_cases (h : PipeRight s) (r : PipeRead) :
    let found := s.before r.meanwhile (s.last r)
    (∃ bytes rest, bytes ++ rest = found.pipe.buffer ∧ bytes.length ≤ r.n.toNat ∧
      (bytes = [] → r.n ≠ 0 → found.pipe.buffer = [] ∧ found.pipe.writeEnd = false) ∧
      s.reads r = { found with
        pipe := { found.pipe with buffer := rest }
        delivered := found.delivered ++ bytes
        returned := some (((UInt32.ofNat bytes.length).toBitVec.toInt, none), bytes) }) ∨
    (found.pipe.buffer = [] ∧ found.pipe.writeEnd = true ∧
      (r.flags &&& oNonblock ≠ 0 ∨ (fdRead r.build true (s.moments r) r.num).waits = 100) ∧
      s.reads r = { found with returned := some ((-1, some ewouldblock), []) }) := by
  have hends := endsAfter_last s r
  have hfound := h.before r.meanwhile (s.last r)
  have hattempt : (s.moments r (s.last r)).attempt =
      (doReadv (s.before r.meanwhile (s.last r)).pipe r.n).1 := rfl
  have hlast := hends.ends
  rw [hattempt] at hlast
  rw [PipeReads.reads, wasmRead]
  rcases doReadv_cases (s.before r.meanwhile (s.last r)).pipe r.n with
    ⟨bytes, rest, heq, hbuffer, hle, hnil⟩ | ⟨heq, hbuffer, hw⟩
  · rw [heq] at hlast ⊢
    refine .inl ⟨bytes, rest, hbuffer, hle, hnil, ?_⟩
    obtain ⟨hpnum, hresult⟩ := hlast
    simp [hpnum, hresult]
  · rw [heq] at hlast ⊢
    have hresult : (fdRead r.build true (s.moments r) r.num).result = ewouldblock := hlast
    refine .inr ⟨hbuffer, hw, ?_, ?_⟩
    · rcases hends.patient hresult with hnonBlocking | hgivesUp | hwaits
      · exact .inl (by simpa [PipeReads.moments, pipeMoment, Moment.nonBlocking] using hnonBlocking)
      · rw [PipeReads.moments, givesUp_pipeMoment r.flags r.n hfound.readEnd hw] at hgivesUp
        cases hgivesUp
      · exact .inr hwaits
    · simp [hresult, ewouldblock]

theorem PipeRight.reads (h : PipeRight s) (r : PipeRead) : PipeRight (s.reads r) := by
  have hfound := h.before r.meanwhile (s.last r)
  rcases reads_cases h r with ⟨bytes, rest, hbuffer, -, -, heq⟩ | ⟨-, -, -, heq⟩
  · rw [heq]
    refine ⟨?_, hfound.readEnd⟩
    rw [List.append_assoc, hbuffer, hfound.stream]
  · rw [heq]
    exact ⟨hfound.stream, hfound.readEnd⟩

/-- **Every event keeps the pipe right.** -/
theorem PipeRight.step (h : PipeRight s) (e : PipeEvent) : PipeRight (s.step e) := by
  cases e with
  | writer e => exact h.writes e
  | read r => exact h.reads r

/-- **Every read of a pipe that is right is right.** -/
theorem PipeRight.readRight (h : PipeRight s) (r : PipeRead) : ReadRight s r := by
  have hfound := h.before r.meanwhile (s.last r)
  have hstream := (h.reads r).stream
  rcases reads_cases h r with ⟨bytes, rest, hbuffer, hle, hnil, heq⟩ | ⟨hbuffer, hw, hpatient, heq⟩
  · refine ⟨?_, ?_, ?_⟩
    · rw [heq]
      rintro value bytes' ⟨⟩ hn
      refine ⟨?_, hle⟩
      rw [UInt32.toBitVec_ofNat', BitVec.toInt_eq_toNat_of_lt (by simp; omega), BitVec.toNat_ofNat,
        Nat.mod_eq_of_lt (by omega)]
    · intro value hreturned hn
      rw [heq] at hreturned hstream ⊢
      cases hreturned
      obtain ⟨hnone, hclosed⟩ := hnil rfl hn
      refine ⟨hclosed, ?_⟩
      rw [List.nil_append] at hbuffer
      rw [← hstream, hbuffer, hnone, List.append_nil]
    · rw [heq]
      rintro value errno bytes' ⟨⟩
  · rw [heq] at hstream
    refine ⟨?_, ?_, ?_⟩
    · rw [heq]
      rintro value bytes ⟨⟩
    · rw [heq]
      rintro value ⟨⟩
    · rw [heq]
      rintro value errno bytes ⟨⟩
      refine ⟨rfl, rfl, rfl, hw, ?_, hpatient⟩
      rw [← hstream, hbuffer, List.append_nil]

end Step

/-- **Reading a pipe is right**: after any run the bytes that were read and those that are left are
the bytes that were written, and every read of the run was right. -/
theorem pipeReadsRight (events : List PipeEvent) :
    PipeRight (run PipeReads.step .start events) ∧
      Along PipeReads.step EventRight .start events := by
  have hstart : PipeRight .start := ⟨rfl, rfl⟩
  refine ⟨run_inv_of_step (fun _ e h => h.step e) hstart events, ?_⟩
  rw [along_iff_split]
  intro pre e post _
  have h : PipeRight (run PipeReads.step .start pre) :=
    run_inv_of_step (fun _ e h => h.step e) hstart pre
  cases e with
  | writer e => trivial
  | read r => exact h.readRight r

end PhpWasm.FdRead
