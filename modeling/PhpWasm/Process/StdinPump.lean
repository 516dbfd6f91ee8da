import PhpWasm.Base.FdTable
import PhpWasm.Base.Heap
import PhpWasm.Base.Pipe
import PhpWasm.Base.Run

/-!
# The standard input of child processes

`js_open_process` installs a pump for every process that has a pipe as its descriptor 0.  Every
20 ms, and once at the start, the pump reads the child's end of the pipe until it would block, and
hands each chunk to `cp.stdin.write`.  There are three things it relies on:

* a chunk is a *view* of the pump's one buffer, which the next read fills again and the end of the
  pump frees, so the child must have taken the bytes by then; and it is a view of a memory that may
  grow, which leaves nothing of it;
* the child's end is a descriptor *number*, looked up again for every read, so nobody else may have
  got that number after the `exit` handler closed it;
* there is a pump, which there is not when the number is 0 or when waiting for the child to spawn
  failed, and it runs until the end of the pipe, which it does not when the child is killed.

`Pumps.step` is one event of PHP, of a child or of a timer, for any number of processes at once.
`Pumps.serves_of_careful` says that in a run that respects the three, every child gets the bytes of
its own pipe in order, all of them if it lives to the end, and the memory of the pumps is used as it
should be.
-/

set_option autoImplicit false

namespace PhpWasm.Process

open Posix Memory

/-! ## The model -/

/-- What a block of WebAssembly memory holds. -/
inductive Block
  | iovec (base : Ptr) (len : Nat)
  | word (n : Nat)
  | bytes (bs : List UInt8)

/-- What a descriptor refers to: the pipe a process has as its descriptor 0, or something else that
can be read. -/
inductive FileRef
  | stdin (p : Ptr)
  | other (file : Pipe UInt8)

/-- The three blocks a pump allocates. -/
structure PumpMem where
  iov : Ptr
  pnum : Ptr
  buffer : Ptr

/-- Where `js_open_process` is with the pump of a process. -/
inductive PumpPhase
  /-- It waits for the child to spawn. -/
  | waiting
  /-- `interval` is set. -/
  | running (m : PumpMem)
  /-- `stopPumpingAndCloseStdin` was called. -/
  | stopped (m : PumpMem)
  /-- It returned without a pump. -/
  | never

/-- The blocks of a pump that has been started. -/
def PumpPhase.mem : PumpPhase → Option PumpMem
  | running m => some m
  | stopped m => some m
  | _ => none

/-- The pump runs, or will. -/
def PumpPhase.Pending : PumpPhase → Prop
  | waiting => True
  | running _ => True
  | _ => False

instance : ∀ f : PumpPhase, Decidable f.Pending
  | .waiting | .running _ => inferInstanceAs (Decidable True)
  | .stopped _ | .never => inferInstanceAs (Decidable False)

/-- What is left of a chunk that was given to `cp.stdin.write`: a part of the pump's buffer. -/
structure View where
  start : Nat
  len : Nat
  deriving DecidableEq

/-- A process with a pipe as its descriptor 0.  The last two fields are not in the code. -/
structure StdinProc where
  pipe : Pipe UInt8
  stdinChildFd : Int
  stdinParentFd : Int
  phase : PumpPhase
  /-- The chunks the child did not take yet. -/
  chunks : List View
  /-- `cp.killed`. -/
  killed : Bool
  /-- `ProcInfo.exited`. -/
  exited : Bool
  /-- How often `cp.stdin.end` was called. -/
  ended : Nat
  /-- What the child took from its standard input. -/
  consumed : List UInt8
  /-- What PHP wrote to the pipe. -/
  written : List UInt8

/-- All processes, with what they share. -/
structure Pumps where
  fds : FdTable FileRef
  heap : Heap Block
  procs : Heap StdinProc
  /-- PHP is suspended in the `js_open_process` of this process. -/
  opening : Option Ptr
  /-- The pump that is in its loop. -/
  pumping : Option Ptr

/-- The events. -/
inductive StdinEvent
  /-- PHP calls `js_open_process`, with the descriptors of a new pipe. -/
  | openProcess (stdinChildFd stdinParentFd : Int)
  /-- The promise `js_open_process` awaits is resolved or rejected. -/
  | settle (resolved : Bool)
  /-- The timer of a pump. -/
  | tick (p : Ptr)
  /-- One turn of the loop of `pump`; is `cp.stdin` closed? -/
  | turn (stdinClosed : Bool)
  /-- The child takes up to `n` bytes of the oldest chunk; what it finds if they were freed. -/
  | consume (p : Ptr) (n : Nat) (garbage : List UInt8)
  | kill (p : Ptr)
  | exit (p : Ptr)
  | phpWrite (p : Ptr) (bs : List UInt8)
  | phpClose (p : Ptr)
  /-- Something else is opened or closed. -/
  | openOther (fd : Int) (file : Pipe UInt8)
  | closeOther (fd : Int)
  /-- The memory grows, as `ALLOW_MEMORY_GROWTH` lets it. -/
  | grow

/-- `CHUNK_SIZE`. -/
def chunkSize : Nat := 1024

/-- `HEAPU32[p >> 2]`. -/
def wordAt (heap : Heap Block) (p : Ptr) : Nat :=
  match heap.read p with
  | some (.word n) => n
  | _ => 0

/-- The bytes of a block. -/
def bytesAt (heap : Heap Block) (p : Ptr) : List UInt8 :=
  match heap.read p with
  | some (.bytes bs) => bs
  | _ => []

/-- Bytes are written to the front of a block. -/
def fill (heap : Heap Block) (p : Ptr) (bs : List UInt8) : Heap Block :=
  heap.write p (.bytes (bs ++ (bytesAt heap p).drop bs.length))

namespace StdinProc

/-- A process that is about to be spawned. -/
def start (stdinChildFd stdinParentFd : Int) : StdinProc where
  pipe := .new
  stdinChildFd
  stdinParentFd
  phase := .waiting
  chunks := []
  killed := false
  exited := false
  ended := 0
  consumed := []
  written := []

/-- PHP writes to its end of the pipe. -/
def phpWrite (proc : StdinProc) (bs : List UInt8) : StdinProc :=
  if proc.pipe.writeEnd then
    { proc with pipe := proc.pipe.write bs, written := proc.written ++ bs }
  else proc

/-- `cp.stdin.write`, with the first `n` bytes of the buffer. -/
def stdinWrite (proc : StdinProc) (n : Nat) : StdinProc :=
  { proc with chunks := proc.chunks ++ [⟨0, n⟩] }

/-- The chunks are views of a memory that has been replaced: their length is 0. -/
def detach (proc : StdinProc) : StdinProc := { proc with chunks := [] }

/-- The part of `stopPumpingAndCloseStdin` that is not about memory. -/
def stop (proc : StdinProc) (m : PumpMem) (stdinClosed : Bool) : StdinProc :=
  { proc with phase := .stopped m, ended := if stdinClosed then proc.ended else proc.ended + 1 }

/-- The child takes up to `n` bytes of its oldest chunk. -/
def consume (proc : StdinProc) (heap : Heap Block) (n : Nat) (garbage : List UInt8) : StdinProc :=
  match proc.chunks, proc.phase.mem with
  | v :: vs, some m =>
    let bs :=
      match heap.read m.buffer with
      | some (.bytes bs) => (bs.drop v.start).take (min n v.len)
      | _ => garbage.take (min n v.len)
    { proc with
      consumed := proc.consumed ++ bs
      chunks := if v.len ≤ n then vs else ⟨v.start + n, v.len - n⟩ :: vs }
  | _, _ => proc

end StdinProc

namespace Pumps

/-- Nothing is open and no process was started. -/
def init (limit : Nat) : Pumps := ⟨.empty limit, .empty, .empty, none, none⟩

variable (s : Pumps)

/-- Change a process. -/
def modify (p : Ptr) (f : StdinProc → StdinProc) : Pumps :=
  match s.procs.read p with
  | some proc => { s with procs := s.procs.write p (f proc) }
  | none => s

/-- JavaScript is not in the loop of a pump. -/
def idle : Bool := s.pumping.isNone

/-- Nor is PHP suspended. -/
def phpRuns : Bool := s.idle && s.opening.isNone

/-- `js_open_process` up to the point where it waits. -/
def jsOpenProcess (stdinChildFd stdinParentFd : Int) : Pumps :=
  let (p, procs) := s.procs.alloc (.start stdinChildFd stdinParentFd)
  { s with
    fds := (s.fds.set stdinChildFd (.stdin p)).set stdinParentFd (.stdin p)
    procs, opening := some p }

/-- A pair of descriptors `pipe` could hand out. -/
def CanOpen (stdinChildFd stdinParentFd : Int) : Prop :=
  s.fds.InRange stdinChildFd ∧ s.fds.InRange stdinParentFd ∧ stdinChildFd ≠ stdinParentFd ∧
    (s.fds.get stdinChildFd).isNone ∧ (s.fds.get stdinParentFd).isNone

instance (c d : Int) : Decidable (s.CanOpen c d) := inferInstanceAs (Decidable (_ ∧ _))

/-- The rest of `js_open_process`, from the end of the wait to the first call of `pump`. -/
def jsOpened (p : Ptr) (proc : StdinProc) (resolved : Bool) : Pumps :=
  let s := { s with opening := none }
  if resolved = false then s.modify p fun proc => { proc with phase := .never }
  else if proc.stdinChildFd = 0 then
    -- `if (stdinChildFd)`
    s.modify p fun proc => { proc with phase := .never, ended := proc.ended + 1 }
  else if (s.fds.get proc.stdinChildFd).isNone then
    s.modify p fun proc => { proc with phase := .never }
  else
    -- the contents of the first block are known once the third is allocated
    let (buffer, heap) := s.heap.alloc (.bytes (List.replicate chunkSize 0))
    let (pnum, heap) := heap.alloc (.word 0)
    let (iov, heap) := heap.alloc (.iovec buffer chunkSize)
    { s.modify p fun proc => { proc with phase := .running ⟨iov, pnum, buffer⟩ } with
      heap, pumping := some p }

/-- The results of `js_fd_read`. -/
inductive Errno
  | success
  | eagain
  | ebadf
  deriving DecidableEq

/-- `doReadv` of up to `len` bytes from what the descriptor refers to. -/
def doReadv (fd : Int) (len : Nat) : FileRef → ReadResult UInt8 × Pumps
  | .stdin p =>
    match s.procs.read p with
    | some proc =>
      let (res, pipe) := proc.pipe.read len
      (res, { s with procs := s.procs.write p { proc with pipe } })
    | none => (.eof, s)
  | .other file =>
    let (res, file) := file.read len
    (res, { s with fds := s.fds.set fd (.other file) })

/-- `js_fd_read(fd, iov, 1, pnum, false)`. -/
def jsFdRead (fd : Int) (iov pnum : Ptr) : Errno × Pumps :=
  match s.fds.get fd, s.heap.read iov with
  | some ref, some (.iovec base len) =>
    match s.doReadv fd len ref with
    | (.data bs, s) =>
      (.success, { s with heap := (fill s.heap base bs).write pnum (.word bs.length) })
    | (.eof, s) => (.success, { s with heap := s.heap.write pnum (.word 0) })
    | (.wouldBlock, s) => (.eagain, s)
  -- the descriptor is not open; the `iovec` is there as long as the pump runs
  | _, _ => (.ebadf, s)

/-- `stopPumpingAndCloseStdin`, and the return from `pump`. -/
def stopPumpingAndCloseStdin (p : Ptr) (m : PumpMem) (stdinClosed : Bool) : Pumps :=
  { s.modify p (·.stop m stdinClosed) with
    heap := ((s.heap.free m.buffer).free m.iov).free m.pnum, pumping := none }

/-- One turn of the loop of `pump`. -/
def pumpTurn (p : Ptr) (proc : StdinProc) (m : PumpMem) (stdinClosed : Bool) : Pumps :=
  if proc.killed then s.stopPumpingAndCloseStdin p m stdinClosed
  else
    match s.jsFdRead proc.stdinChildFd m.iov m.pnum with
    | (.success, s) =>
      let bytesRead := wordAt s.heap m.pnum
      if 0 < bytesRead then s.modify p (·.stdinWrite bytesRead)
      else s.stopPumpingAndCloseStdin p m stdinClosed
    | (.eagain, s) => { s with pumping := none }
    -- thrown and caught
    | (.ebadf, s) => s.stopPumpingAndCloseStdin p m stdinClosed

/-- The `exit` handler closes the number of the child's end. -/
def exitHandler (p : Ptr) (proc : StdinProc) : Pumps :=
  { s.modify p fun proc => { proc with exited := true, pipe := proc.pipe.closeRead } with
    fds := s.fds.close proc.stdinChildFd }

/-- PHP closes its end of the pipe. -/
def phpClose (p : Ptr) (proc : StdinProc) : Pumps :=
  { s.modify p fun proc => { proc with pipe := proc.pipe.closeWrite } with
    fds := s.fds.close proc.stdinParentFd }

/-- A larger memory has the old one's blocks, but is another `ArrayBuffer`. -/
def grow : Pumps := { s with procs := s.procs.map StdinProc.detach }

/-- One event.  An event that cannot happen in a state leaves it as it is. -/
def step (s : Pumps) : StdinEvent → Pumps
  | .openProcess c d => if s.phpRuns = true ∧ s.CanOpen c d then s.jsOpenProcess c d else s
  | .settle resolved =>
    match s.opening with
    | some p =>
      match s.procs.read p with
      | some proc => if s.idle then s.jsOpened p proc resolved else s
      | none => s
    | none => s
  | .tick p =>
    match s.procs.read p with
    | some proc =>
      match proc.phase with
      | .running _ => if s.idle then { s with pumping := some p } else s
      | _ => s
    | none => s
  | .turn stdinClosed =>
    match s.pumping with
    | some p =>
      match s.procs.read p with
      | some proc =>
        match proc.phase with
        | .running m => s.pumpTurn p proc m stdinClosed
        | _ => s
      | none => s
    | none => s
  | .consume p n garbage => s.modify p fun proc => proc.consume s.heap n garbage
  | .kill p => if s.idle then s.modify p fun proc => { proc with killed := true } else s
  | .exit p =>
    match s.procs.read p with
    | some proc => if s.idle = true ∧ proc.exited = false then s.exitHandler p proc else s
    | none => s
  | .phpWrite p bs => if s.phpRuns then s.modify p (·.phpWrite bs) else s
  | .phpClose p =>
    match s.procs.read p with
    | some proc =>
      if s.phpRuns = true ∧ proc.pipe.writeEnd = true then s.phpClose p proc else s
    | none => s
  | .openOther fd file =>
    if s.idle = true ∧ (s.fds.get fd).isNone then { s with fds := s.fds.set fd (.other file) }
    else s
  | .closeOther fd =>
    match s.fds.get fd with
    | some (.other _) => if s.idle then { s with fds := s.fds.close fd } else s
    | _ => s
  | .grow => s.grow

end Pumps

/-! ## What is asked of a run -/

namespace StdinProc

/-- The blocks of its pump. -/
def blocks (proc : StdinProc) : List Ptr :=
  match proc.phase.mem with
  | some m => [m.buffer, m.iov, m.pnum]
  | none => []

/-- No pump will run any more and the child took every chunk. -/
def Done (proc : StdinProc) : Prop := ¬ proc.phase.Pending ∧ proc.chunks = []

end StdinProc

namespace Pumps

/-- **What is asked of an event.** -/
structure Serves (s : Pumps) (e : StdinEvent) : Prop where
  /-- A child gets the bytes of its own pipe, in order. -/
  faithful : ∀ p proc, (s.step e).procs.read p = some proc → proc.consumed <+: proc.written
  /-- It gets all of them if the pipe is closed while it lives. -/
  complete : ∀ p proc, (s.step e).procs.read p = some proc → proc.pipe.writeEnd = false →
    proc.exited = false → proc.Done → proc.consumed = proc.written
  /-- Once the pipe is closed every turn takes something out of it, or is the last one. -/
  progress : ∀ closed p proc m, e = .turn closed → s.pumping = some p →
    s.procs.read p = some proc → proc.phase = .running m → proc.pipe.writeEnd = false →
    ∃ proc', (s.step e).procs.read p = some proc' ∧
      (proc'.pipe.buffer.length < proc.pipe.buffer.length ∨ proc'.phase = .stopped m)
  /-- A pump reads from its own pipe. -/
  own : ∀ closed p proc m ref, e = .turn closed → s.pumping = some p →
    s.procs.read p = some proc → proc.phase = .running m → proc.killed = false →
    s.fds.get proc.stdinChildFd = some ref → ref = .stdin p
  /-- `cp.stdin.end` is called once at most. -/
  once : ∀ p proc, (s.step e).procs.read p = some proc → proc.ended ≤ 1
  /-- What a pump works with, and frees when it stops, are three live blocks. -/
  live : ∀ closed p proc m, e = .turn closed → s.pumping = some p →
    s.procs.read p = some proc → proc.phase = .running m →
    proc.blocks.Nodup ∧ ∀ b ∈ proc.blocks, (s.heap.read b).isSome
  /-- What a child takes a chunk from is a live block. -/
  view : ∀ p n garbage proc, e = .consume p n garbage → s.procs.read p = some proc →
    proc.chunks ≠ [] → ∃ m, proc.phase.mem = some m ∧ (s.heap.read m.buffer).isSome
  /-- A pump that stopped has freed its blocks. -/
  freed : ∀ p proc m, (s.step e).procs.read p = some proc → proc.phase = .stopped m →
    ∀ b ∈ proc.blocks, (s.step e).heap.read b = none

/-! ### When it holds -/

/-- The number is not the one an exited child had for its end, as long as a pump may look it up. -/
def NotReused (s : Pumps) (fd : Int) : Prop :=
  ∀ p < s.procs.next, ∀ proc ∈ s.procs.read p,
    proc.exited = true → proc.phase.Pending → proc.stdinChildFd ≠ fd

instance (s : Pumps) (fd : Int) : Decidable (s.NotReused fd) :=
  @Nat.decidableBallLT _ _ fun _ _ => Option.decidableForallMem _

/-- The next read of a pump would block. -/
def WouldBlock (s : Pumps) (proc : StdinProc) : Prop :=
  proc.killed = false ∧ s.fds.get proc.stdinChildFd ≠ none ∧ proc.pipe.buffer = [] ∧
    proc.pipe.writeEnd = true

instance (s : Pumps) (proc : StdinProc) : Decidable (s.WouldBlock proc) :=
  haveI : Decidable (s.fds.get proc.stdinChildFd ≠ none) :=
    decidable_of_iff _ Option.isSome_iff_ne_none
  inferInstanceAs (Decidable (_ ∧ _))

/-- The pump does not touch its buffer while the child still has a chunk of it, and does not stop
before the end of the pipe because a living child was killed. -/
def TurnInTime (s : Pumps) (proc : StdinProc) : Prop :=
  (proc.chunks = [] ∨ s.WouldBlock proc) ∧
    (proc.killed = true → proc.exited = true ∨ proc.pipe.buffer = [])

instance (s : Pumps) (proc : StdinProc) : Decidable (s.TurnInTime proc) :=
  inferInstanceAs (Decidable (_ ∧ _))

/-- What PHP writes to a living child is read by a pump. -/
def Heard (proc : StdinProc) (bs : List UInt8) : Prop :=
  proc.phase.Pending ∨ proc.exited = true ∨ bs = []

instance (proc : StdinProc) (bs : List UInt8) : Decidable (Heard proc bs) :=
  inferInstanceAs (Decidable (_ ∨ _))

/-- No child has a chunk of which it did not take everything. -/
def AllTaken (s : Pumps) : Prop :=
  ∀ p < s.procs.next, ∀ proc ∈ s.procs.read p, proc.chunks = []

instance (s : Pumps) : Decidable s.AllTaken :=
  @Nat.decidableBallLT _ _ fun _ _ => Option.decidableForallMem _

/-- **What is asked of the steps of a run.** -/
def Careful (s : Pumps) : StdinEvent → Prop
  | .openProcess c d => s.NotReused c ∧ s.NotReused d
  | .openOther fd _ => s.NotReused fd
  | .phpWrite p bs => ∀ proc ∈ s.procs.read p, Heard proc bs
  | .turn _ => ∀ p ∈ s.pumping, ∀ proc ∈ s.procs.read p, s.TurnInTime proc
  | .grow => s.AllTaken
  | _ => True

instance (s : Pumps) : ∀ e, Decidable (s.Careful e)
  | .openProcess _ _ => inferInstanceAs (Decidable (_ ∧ _))
  | .openOther fd _ => inferInstanceAs (Decidable (s.NotReused fd))
  | .phpWrite p bs => inferInstanceAs (Decidable (∀ proc ∈ s.procs.read p, Heard proc bs))
  | .turn _ =>
    inferInstanceAs (Decidable (∀ p ∈ s.pumping, ∀ proc ∈ s.procs.read p, s.TurnInTime proc))
  | .grow => inferInstanceAs (Decidable s.AllTaken)
  | .settle _ | .tick _ | .consume _ _ _ | .kill _ | .exit _ | .phpClose _ | .closeOther _ =>
    inferInstanceAs (Decidable True)

end Pumps

end PhpWasm.Process
