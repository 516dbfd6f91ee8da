import PhpWasm.Base.Heap
import PhpWasm.Popen.PopenToFile

/-!
# Several pipes open for reading

Every `popen($cmd, "r")` ends up reading the one file `/tmp/popen_output`, and the exit code of its
command is put into the one global `FG(pclose_ret)` when the pipe is *opened*, to be looked up when
it is closed.

* `PopenHandles.step` is one operation on any number of pipes.
* `PopenHandles.Faithful` asks a pipe to deliver the output and the exit code of its own command.
* `PopenHandles.faithful_of_current`: it does along every run that reads and closes a pipe only
  while it is the one opened last, provided the command has no output after its exit or before
  anybody listens, and its code fits into a byte.
-/

set_option autoImplicit false

namespace PhpWasm.Popen

open Memory

/-- A `FILE *` on `/tmp/popen_output`.  The last two fields are not in the code: the command the
pipe was opened for, and what was read from it so far. -/
structure Handle where
  pos : Nat
  spawned : Except JsError Spawned
  received : Bytes

/-- The exit code of the command of a pipe. -/
def Handle.exitCode (f : Handle) : Option Int :=
  match f.spawned with
  | .ok ⟨⟨_, .exit code, _⟩, _⟩ => some code
  | _ => none

/-- The command of a pipe writes nothing after its exit, and nothing before it is listened to. -/
def Handle.Early (f : Handle) : Prop :=
  match f.spawned with
  | .ok child => child.Heard ∧ child.run.late.flatten = []
  | .error _ => True

instance (f : Handle) : Decidable f.Early := by
  unfold Handle.Early
  split <;> infer_instance

/-- The state `popen`, reads and `pclose` share. -/
structure PopenHandles where
  /-- The contents of `/tmp/popen_output`. -/
  file : Option Bytes
  /-- `FG(pclose_ret)`. -/
  pcloseRet : Int
  handles : Heap Handle
  /-- PHP is suspended in `js_popen_to_file` for ever. -/
  suspended : Bool
  /-- The pipe of the last `popen`, if it opened one.  The code does not keep this. -/
  latest : Option Ptr

/-- Before the first `popen`. -/
def PopenHandles.init : PopenHandles := ⟨none, 0, .empty, false, none⟩

/-- An operation. -/
inductive PopenOp
  /-- `wasm_popen(cmd, "r")`, what the spawn handler does, and what the variable `last_exit_code`
  holds before anything is assigned to it. -/
  | popen (command : CString) (handler : Option HandlerAnswer) (lastExitCode : BitVec 8)
  /-- A read of up to `n` bytes. -/
  | read (h : Ptr) (n : Nat)
  /-- `__wrap_pclose`. -/
  | pclose (h : Ptr)

namespace PopenHandles

/-- `fopen` of what `js_popen_to_file` returned, and the rest of `wasm_popen`. -/
def opened (s : PopenHandles) (path : PathPtr) (spawned : Except JsError Spawned)
    (lastExitCode : BitVec 8) : PopenHandles :=
  let s := { s with pcloseRet := lastExitCode.toNat }
  match path with
  | .outputPath =>
    let (h, handles) := s.handles.alloc ⟨0, spawned, []⟩
    { s with handles, latest := some h }
  | .null | .one => { s with latest := none }

/-- `wasm_popen(cmd, "r")`. -/
def wasmPopen (s : PopenHandles) (command : CString) (handler : Option HandlerAnswer)
    (lastExitCode : BitVec 8) : PopenHandles :=
  match jsPopenToFile (some command) (bytes "r") handler s.file with
  | .returned v => s.opened v (spawnProcess handler) lastExitCode
  | .suspended _ x =>
    match x.wakeUps with
    | [] => { s with file := x.file, suspended := true }
    | w :: _ =>
      { s with file := w.file }.opened w.value (spawnProcess handler)
        (w.exitCode.getD lastExitCode)

/-- What `read(2)` delivers at the position of the pipe. -/
def bytesAt (s : PopenHandles) (pos n : Nat) : Bytes := ((s.file.getD []).drop pos).take n

/-- A read of up to `n` bytes from the pipe `h`, which is `f`. -/
def readHandle (s : PopenHandles) (h : Ptr) (f : Handle) (n : Nat) : PopenHandles :=
  let bs := s.bytesAt f.pos n
  let f' := { f with pos := f.pos + bs.length, received := f.received ++ bs }
  { s with handles := s.handles.write h f' }

/-- One operation.  Nothing happens on a pipe that is not open. -/
def step (s : PopenHandles) (op : PopenOp) : PopenHandles :=
  if s.suspended then s
  else match op with
    | .popen command handler lastExitCode => s.wasmPopen command handler lastExitCode
    | .read h n =>
      match s.handles.read h with
      | none => s
      | some f => s.readHandle h f n
    | .pclose h => { s with handles := s.handles.free h }

/-- The exit status PHP goes by: the result of `pclose`, or `FG(pclose_ret)` where that is -1.  No
pid is recorded for the descriptor of a pipe that is open for reading, so `__wrap_pclose` calls the
`pclose` of the C library, which is what `realPclose` stands for. -/
def status (realPclose : Int) (s : PopenHandles) : Int :=
  if realPclose = -1 then s.pcloseRet else realPclose

/-! ## What is asked of a pipe -/

/-- **What is asked of an operation**: a read delivers the next bytes of the output of the pipe's
own command, and reports the end of the file only at the end of that output; the status at the
`pclose` is the exit code of that command. -/
def Faithful (realPclose : Int) (s : PopenHandles) : PopenOp → Prop
  | .popen _ _ _ => True
  | .read h n => s.suspended = false → ∀ f ∈ s.handles.read h,
    f.received ++ s.bytesAt f.pos n <+: outputOf f.spawned ∧
      (n ≠ 0 → s.bytesAt f.pos n = [] → f.received = outputOf f.spawned)
  | .pclose h => s.suspended = false → ∀ f ∈ s.handles.read h,
    f.exitCode = some (s.status realPclose)

/-- **What is asked of the steps of a run**: a pipe is read or closed only while it is the latest,
its command writes nothing after its exit or before it is listened to, and its exit code fits into a
byte. -/
def Current (s : PopenHandles) : PopenOp → Prop
  | .popen _ _ _ => True
  | .read h _ => s.suspended = false → ∀ f ∈ s.handles.read h, s.latest = some h ∧ f.Early
  | .pclose h => s.suspended = false → ∀ f ∈ s.handles.read h,
    s.latest = some h ∧ ∀ code ∈ f.exitCode, 0 ≤ code ∧ code < 256

instance (s : PopenHandles) : ∀ op, Decidable (s.Current op)
  | .popen _ _ _ => inferInstanceAs (Decidable True)
  | .read h _ => inferInstanceAs (Decidable (s.suspended = false →
      ∀ f ∈ s.handles.read h, s.latest = some h ∧ f.Early))
  | .pclose h => inferInstanceAs (Decidable (s.suspended = false → ∀ f ∈ s.handles.read h,
      s.latest = some h ∧ ∀ code ∈ f.exitCode, 0 ≤ code ∧ code < 256))

/-! ## The invariant -/

/-- What is known of the latest pipe: the file and the global are those of its command, and what
was read from it is what lies before its position. -/
structure Fresh (s : PopenHandles) (f : Handle) (c : Spawned) (code : Int) : Prop where
  spawned : f.spawned = .ok c
  ending : c.run.ending = .exit code
  file : s.file = some (c.run.early.drop c.missed).flatten
  pcloseRet : s.pcloseRet = (BitVec.ofInt 8 code).toNat
  received : f.received = (c.run.early.drop c.missed).flatten.take f.pos

/-- **The invariant**, about the latest pipe for as long as it is open. -/
def Inv (s : PopenHandles) : Prop :=
  ∀ h f, s.latest = some h → s.handles.read h = some f → ∃ c code, s.Fresh f c code

variable {s : PopenHandles}

theorem inv_init : Inv init := by
  intro h f hl
  cases hl

theorem Inv.suspend (hinv : s.Inv) : Inv { s with suspended := true } := by
  intro h f hl hread
  obtain ⟨c, code, hf⟩ := hinv h f hl hread
  exact ⟨c, code, hf.spawned, hf.ending, hf.file, hf.pcloseRet, hf.received⟩

/-- A pipe that was just opened is at the start of the output of its command. -/
theorem inv_wasmPopen (command : CString) (handler : Option HandlerAnswer)
    (lastExitCode : BitVec 8) (hinv : s.Inv) : (s.wasmPopen command handler lastExitCode).Inv := by
  rw [wasmPopen, jsPopenToFile]
  by_cases hcmd : command = []
  · rw [if_pos hcmd]
    intro h f hl
    cases hl
  have hmode : bytes "r" ≠ [] := by decide
  rw [if_neg hcmd, if_neg hmode]
  dsimp only
  cases hsp : spawnProcess handler with
  | error e =>
    have hx : (executor s.file (.error e)).2 = .init s.file := by
      rw [executor]
      split <;> rfl
    rw [hx]
    exact hinv.suspend
  | ok c =>
    rw [executor]
    dsimp only
    rw [run_heard, file_run_heard]
    cases hending : c.run.ending with
    | error => exact hinv.suspend
    | exit code =>
      dsimp only
      by_cases hle : c.missed ≤ c.run.early.length
      · rw [if_pos hle]
        intro h f hl hread
        cases hl
        have hf : f = ⟨0, .ok c, []⟩ :=
          (Option.some.inj ((Heap.read_alloc_self s.handles _).symm.trans hread)).symm
        subst hf
        exact ⟨c, code, rfl, hending, rfl, rfl, by simp⟩
      · rw [if_neg hle, if_neg hle]
        exact hinv.suspend

/-- Reading on from what was read before. -/
theorem take_add_length_take {α : Type*} (l : List α) (pos n : Nat) :
    l.take (pos + ((l.drop pos).take n).length) = l.take pos ++ (l.drop pos).take n := by
  rw [List.take_add, List.length_take, ← List.take_take, List.take_length]

/-- A read moves the position over what it delivers. -/
theorem Inv.read {h : Ptr} {f : Handle} (hinv : s.Inv) (hread : s.handles.read h = some f)
    (n : Nat) : (s.readHandle h f n).Inv := by
  intro k g hl hk
  by_cases hkh : k = h
  · subst hkh
    obtain ⟨c, code, hf⟩ := hinv k f hl hread
    have hg := Option.some.inj ((Heap.read_write_self hread _).symm.trans hk)
    subst hg
    refine ⟨c, code, hf.spawned, hf.ending, hf.file, hf.pcloseRet, ?_⟩
    dsimp only
    rw [bytesAt, hf.file, Option.getD_some, hf.received, take_add_length_take]
  · have hk' : s.handles.read k = some g := by
      rw [← hk]
      exact (Heap.read_write_of_ne s.handles hkh _).symm
    obtain ⟨c, code, hf⟩ := hinv k g hl hk'
    exact ⟨c, code, hf.spawned, hf.ending, hf.file, hf.pcloseRet, hf.received⟩

theorem Inv.pclose (hinv : s.Inv) (h : Ptr) : Inv { s with handles := s.handles.free h } := by
  intro k g hl hk
  by_cases hkh : k = h
  · subst hkh
    exact absurd ((Heap.read_free_self s.handles k).symm.trans hk) (by simp)
  · rw [Heap.read_free_of_ne s.handles hkh] at hk
    obtain ⟨c, code, hf⟩ := hinv k g hl hk
    exact ⟨c, code, hf.spawned, hf.ending, hf.file, hf.pcloseRet, hf.received⟩

/-- Every operation keeps the invariant. -/
theorem inv_step (op : PopenOp) (hinv : s.Inv) : (s.step op).Inv := by
  unfold step
  split
  · exact hinv
  cases op with
  | popen command handler lastExitCode => exact inv_wasmPopen command handler lastExitCode hinv
  | read h n =>
    dsimp only
    split
    · exact hinv
    · exact hinv.read ‹_› n
  | pclose h => exact hinv.pclose h

/-! ## One operation -/

/-- A read of the latest pipe. -/
theorem Fresh.read {f : Handle} {c : Spawned} {code : Int} (hf : s.Fresh f c code)
    (hearly : f.Early) (n : Nat) :
    f.received ++ s.bytesAt f.pos n <+: outputOf f.spawned ∧
      (n ≠ 0 → s.bytesAt f.pos n = [] → f.received = outputOf f.spawned) := by
  rw [Handle.Early, hf.spawned] at hearly
  have hout : outputOf f.spawned = (c.run.early.drop c.missed).flatten := by
    rw [hf.spawned, outputOf]
    exact ((heard_output_iff c).2 ⟨hearly.1.2, hearly.2⟩).symm
  have hbytes : s.bytesAt f.pos n = ((c.run.early.drop c.missed).flatten.drop f.pos).take n := by
    rw [bytesAt, hf.file, Option.getD_some]
  rw [hout, hbytes, hf.received, ← List.take_add]
  refine ⟨List.take_prefix _ _, fun hn hnil => ?_⟩
  rw [List.take_eq_nil_iff] at hnil
  rcases hnil with h0 | hdrop
  · exact absurd h0 hn
  · exact List.take_of_length_le (List.drop_eq_nil_iff.1 hdrop)

theorem Fresh.exitCode {f : Handle} {c : Spawned} {code : Int} (hf : s.Fresh f c code) :
    f.exitCode = some code := by
  obtain ⟨⟨early, ending, late⟩, missed⟩ := c
  have hending : ending = .exit code := hf.ending
  rw [Handle.exitCode, hf.spawned, hending]

/-- A code that fits into a byte is what comes back from one. -/
theorem toNat_ofInt_eight {code : Int} (hcode : 0 ≤ code ∧ code < 256) :
    ((BitVec.ofInt 8 code).toNat : Int) = code := by
  rw [BitVec.toNat_ofInt]
  omega

/-- Under the invariant, an operation on the latest pipe does what is asked of it. -/
theorem faithful_step {op : PopenOp} (hinv : s.Inv) (hc : s.Current op) : s.Faithful (-1) op := by
  cases op with
  | popen command handler lastExitCode => trivial
  | read h n =>
    intro hs f hopen
    obtain ⟨hl, hearly⟩ := hc hs f hopen
    obtain ⟨c, code, hf⟩ := hinv h f hl hopen
    exact hf.read hearly n
  | pclose h =>
    intro hs f hopen
    obtain ⟨hl, hcode⟩ := hc hs f hopen
    obtain ⟨c, code, hf⟩ := hinv h f hl hopen
    rw [status, if_pos rfl, hf.pcloseRet, toNat_ofInt_eight (hcode code hf.exitCode)]
    exact hf.exitCode

/-! ## The run -/

/-- **A pipe delivers the output and the exit code of its own command** along every run that uses
only the latest pipe, the `pclose` of the C library returning -1. -/
theorem faithful_of_current {realPclose : Int} (hreal : realPclose = -1) {ops : List PopenOp}
    (hc : Machine.Along step Current init ops) :
    Machine.Along step (Faithful realPclose) init ops := by
  subst hreal
  exact Machine.Along.of_inv (I := Inv) (fun _ op hinv _ => inv_step op hinv)
    (fun _ _ => faithful_step) inv_init hc

end PopenHandles

/-- A command that writes one byte and exits. -/
def oneByte (b : UInt8) (code : Int) : PopenOp :=
  .popen (bytes "cmd") (some (.emitter ⟨[[b]], .exit code, []⟩)) 0

/-- One pipe after the other. -/
def inTurn : List PopenOp :=
  [oneByte 1 3, .read 0 8, .read 0 8, .pclose 0, oneByte 2 0, .read 1 8, .pclose 1]

theorem inTurn_faithful : Machine.Along PopenHandles.step PopenHandles.Current .init inTurn ∧
    Machine.Along PopenHandles.step (PopenHandles.Faithful (-1)) .init inTurn := by
  have hc : Machine.Along PopenHandles.step PopenHandles.Current .init inTurn := by decide
  exact ⟨hc, PopenHandles.faithful_of_current rfl hc⟩

/-- Two pipes that are open at the same time. -/
def overlapping : List PopenOp := [oneByte 1 3, oneByte 2 0, .read 0 8, .pclose 0]

/-- The first pipe delivers the output of the second command. -/
theorem overlapping_not_faithful :
    ¬ Machine.Along PopenHandles.step (PopenHandles.Faithful (-1)) .init overlapping := by
  intro h
  have hread := (h.2.2.1 rfl ⟨0, .ok ⟨⟨[[1]], .exit 3, []⟩, 0⟩, []⟩ rfl).1
  exact absurd hread (by decide)

end PhpWasm.Popen
