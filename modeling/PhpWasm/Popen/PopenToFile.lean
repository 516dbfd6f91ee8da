import PhpWasm.Base.Run
import PhpWasm.Sapi.Context

/-!
# Running a command into a file

`js_popen_to_file` suspends PHP, spawns a command, collects what it writes to its standard output
and resumes PHP with the path of a file that holds the output.  All of this happens in an `async`
function, which resumes PHP only from the `exit` event of the child.

* `ChildRun` is a child with the events it emits, in an order Node allows.
* `Spawned` is a child that may have emitted some of them before anybody could listen: while a
  promise of it was awaited.
* `jsPopenToFile` is the function, for whatever the spawn handler does.
* `resumes_iff`: PHP is resumed as it should be just when the spawn handler provides a child, the
  child exits, and all of its output comes when it is listened to and before the `exit` event.
-/

set_option autoImplicit false

namespace PhpWasm.Popen

/-- Bytes on a stream. -/
abbrev Bytes := List UInt8

/-! ## The child -/

/-- The events of a child process that are listened to, or could be. -/
inductive ChildEvent
  /-- `data` on `cp.stdout`. -/
  | data (chunk : Bytes)
  | exit (code : Int)
  | error
  | close

/-- How a child ends. -/
inductive Ending
  | exit (code : Int)
  /-- `error` instead of `exit`. -/
  | error

/-- The event a child ends with. -/
def Ending.event : Ending → ChildEvent
  | .exit code => .exit code
  | .error => .error

/-- A child process with all the events it will emit.  Node delivers output before and after the
end of the process, and `close` after all output. -/
structure ChildRun where
  early : List Bytes
  ending : Ending
  late : List Bytes

namespace ChildRun

/-- The events, in order. -/
def events (run : ChildRun) : List ChildEvent :=
  run.early.map .data ++ run.ending.event :: (run.late.map .data ++ [.close])

/-- Everything the child writes to its standard output. -/
def output (run : ChildRun) : Bytes := (run.early ++ run.late).flatten

/-- The child exits, rather than failing with an error. -/
def Exits (run : ChildRun) : Prop := ∃ code, run.ending = .exit code

end ChildRun

/-! ## Spawning -/

/-- A child the listeners are installed on.  The first events of it were emitted before. -/
structure Spawned where
  run : ChildRun
  /-- The number of events that nobody heard. -/
  missed : Nat

namespace Spawned

/-- The events that are listened to. -/
def heard (c : Spawned) : List ChildEvent := c.run.events.drop c.missed

/-- Nothing that matters was missed: the child had not exited, and had not written anything. -/
def Heard (c : Spawned) : Prop :=
  c.missed ≤ c.run.early.length ∧ (c.run.early.take c.missed).flatten = []

instance (c : Spawned) : Decidable c.Heard := inferInstanceAs (Decidable (_ ∧ _))

end Spawned

/-- A JavaScript error, by its `code`. -/
structure JsError where
  code : Option CString
  deriving DecidableEq

/-- What `Module.spawnProcess`, the spawn handler, does. -/
inductive HandlerAnswer
  /-- It returns an `EventEmitter`. -/
  | emitter (run : ChildRun)
  /-- It returns a promise of one, which emits some of its events while the promise is awaited, or
  of something else. -/
  | promise (child : Option Spawned)
  /-- It throws, or its promise is rejected. -/
  | fails (e : JsError)

/-- `SPAWN_UNSUPPORTED`. -/
def spawnUnsupported : JsError := ⟨some (bytes "SPAWN_UNSUPPORTED")⟩

/-- `PHPWASM.spawnProcess`, and the `await` of what it returns. -/
def spawnProcess : Option HandlerAnswer → Except JsError Spawned
  | some (.emitter run) => .ok ⟨run, 0⟩
  | some (.promise (some child)) => .ok child
  -- "spawnProcess() must return an EventEmitter but returned a different type."
  | some (.promise none) => .error ⟨none⟩
  | some (.fails e) => .error e
  | none => .error spawnUnsupported

/-! ## The function -/

/-- A `char *` that comes out of `js_popen_to_file`. -/
inductive PathPtr
  | null
  /-- The number 1. -/
  | one
  /-- `/tmp/popen_output`. -/
  | outputPath
  deriving DecidableEq

/-- One call of `wakeUp`, with the file and `*exitCodePtr` as they were at that moment. -/
structure WakeUp where
  value : PathPtr
  file : Option Bytes
  exitCode : Option (BitVec 8)
  deriving DecidableEq

/-- The variables of the executor and what it leaves behind. -/
structure Executor where
  outByteArrays : List Bytes
  /-- The contents of `/tmp/popen_output`. -/
  file : Option Bytes
  /-- `*exitCodePtr`, once it was written. -/
  exitCode : Option (BitVec 8)
  wakeUps : List WakeUp
  deriving DecidableEq

/-- The executor after it installed its listeners. -/
def Executor.init (file : Option Bytes) : Executor := ⟨[], file, none, []⟩

/-- The listeners on `cp.stdout` and `cp`.  Nothing listens to `error` and `close`. -/
def Executor.onEvent (x : Executor) : ChildEvent → Executor
  | .data chunk => { x with outByteArrays := x.outByteArrays ++ [chunk] }
  | .exit code =>
    let file := some x.outByteArrays.flatten
    let exitCode := some (BitVec.ofInt 8 code)
    { x with file, exitCode, wakeUps := x.wakeUps ++ [⟨.outputPath, file, exitCode⟩] }
  | .error => x
  | .close => x

/-- How the promise of the `async` executor settles.  Nobody looks at it. -/
inductive Settled
  | value (v : Option Int)
  | rejected (e : JsError)
  deriving DecidableEq

/-- The executor, run to the end. -/
def executor (file : Option Bytes) : Except JsError Spawned → Settled × Executor
  | .error e =>
    if e = spawnUnsupported then (.value (some 1), .init file) else (.rejected e, .init file)
  | .ok child => (.value none, Machine.run Executor.onEvent (.init file) child.heard)

/-- What becomes of a call. -/
inductive PopenCall
  /-- It returned without suspending PHP. -/
  | returned (v : PathPtr)
  /-- It suspended PHP. -/
  | suspended (settled : Settled) (x : Executor)

/-- `js_popen_to_file`; `file` is what `/tmp/popen_output` holds before. -/
def jsPopenToFile (command : Option CString) (mode : CString) (handler : Option HandlerAnswer)
    (file : Option Bytes) : PopenCall :=
  match command with
  | none => .returned .one
  | some command =>
    if command = [] then .returned .null
    else if mode = [] then .returned .null
    else
      let (settled, x) := executor file (spawnProcess handler)
      .suspended settled x

/-! ## What is asked of it -/

/-- What a spawned command writes. -/
def outputOf : Except JsError Spawned → Bytes
  | .ok child => child.run.output
  | .error _ => []

/-- **What is asked of a suspended call**: PHP is resumed once, with something `wasm_popen` can
open or report, and if it is resumed with the path then the whole output is in the file and the
exit code is written. -/
def Resumes (x : Executor) (output : Bytes) : Prop :=
  ∃ w, x.wakeUps = [w] ∧ w.value ≠ .one ∧
    (w.value = .outputPath → w.file = some output ∧ w.exitCode ≠ none)

/-- The spawn handler provides a child that exits, with no output after the exit, and neither output
nor the exit before anybody listens. -/
def Clean (spawned : Except JsError Spawned) : Prop :=
  ∃ child, spawned = .ok child ∧ child.run.Exits ∧ child.Heard ∧ child.run.late.flatten = []

/-! ## What the listeners do -/

/-- Chunks are collected and change nothing else. -/
theorem run_data (x : Executor) (chunks : List Bytes) :
    Machine.run Executor.onEvent x (chunks.map .data) =
      { x with outByteArrays := x.outByteArrays ++ chunks } := by
  induction chunks generalizing x with
  | nil => simp
  | cons c cs ih =>
    rw [List.map_cons, Machine.run_cons, ih]
    simp [Executor.onEvent]

/-- Only an `exit` event resumes PHP or writes the file. -/
theorem run_of_no_exit (x : Executor) {es : List ChildEvent} (h : ∀ e ∈ es, ∀ code, e ≠ .exit code) :
    (Machine.run Executor.onEvent x es).wakeUps = x.wakeUps ∧
      (Machine.run Executor.onEvent x es).file = x.file := by
  induction es generalizing x with
  | nil => exact ⟨rfl, rfl⟩
  | cons e es ih =>
    rw [Machine.run_cons]
    obtain ⟨hwake, hfile⟩ := ih (x.onEvent e) fun e he => h e (List.mem_cons_of_mem _ he)
    rw [hwake, hfile]
    cases e with
    | exit code => exact absurd rfl (h _ List.mem_cons_self code)
    | data chunk => exact ⟨rfl, rfl⟩
    | error => exact ⟨rfl, rfl⟩
    | close => exact ⟨rfl, rfl⟩

/-- What comes after the end of a child. -/
theorem no_exit_after (run : ChildRun) {n : Nat} :
    ∀ e ∈ (run.late.map ChildEvent.data ++ [ChildEvent.close]).drop n, ∀ code, e ≠ .exit code := by
  intro e he code heq
  rcases List.mem_append.1 (List.mem_of_mem_drop he) with hdata | hclose
  · obtain ⟨chunk, -, rfl⟩ := List.mem_map.1 hdata
    cases heq
  · rw [List.mem_singleton.1 hclose] at heq
    cases heq

/-- What the listeners hear, up to the end of the child, if they hear that. -/
theorem heard_of_le {c : Spawned} (h : c.missed ≤ c.run.early.length) :
    c.heard = (c.run.early.drop c.missed).map .data ++
      c.run.ending.event :: (c.run.late.map .data ++ [.close]) := by
  rw [Spawned.heard, ChildRun.events, List.drop_append_of_le_length (by rwa [List.length_map]),
    List.map_drop]

theorem heard_of_lt {c : Spawned} (h : c.run.early.length < c.missed) :
    c.heard = (c.run.late.map ChildEvent.data ++ [ChildEvent.close]).drop
      (c.missed - c.run.early.length - 1) := by
  obtain ⟨n, hn⟩ := Nat.exists_eq_add_of_lt h
  have hdrop : c.missed - c.run.early.length = n + 1 := by omega
  rw [Spawned.heard, ChildRun.events, List.drop_append, List.length_map, hdrop,
    List.drop_succ_cons, List.drop_eq_nil_of_le (by rw [List.length_map]; omega), List.nil_append,
    Nat.add_sub_cancel]

/-- **A child, from the first event that is heard to the last**: the only thing that resumes PHP is
the `exit` event, and what PHP then finds is what was collected before it. -/
theorem run_heard (file : Option Bytes) (c : Spawned) :
    (Machine.run Executor.onEvent (.init file) c.heard).wakeUps =
      match c.run.ending with
      | .exit code =>
        if c.missed ≤ c.run.early.length then
          [⟨.outputPath, some (c.run.early.drop c.missed).flatten, some (BitVec.ofInt 8 code)⟩]
        else []
      | .error => [] := by
  by_cases hle : c.missed ≤ c.run.early.length
  · rw [heard_of_le hle, Machine.run_append, run_data, Machine.run_cons, Machine.run_append,
      run_data]
    cases c.run.ending <;> simp [Ending.event, Executor.onEvent, Executor.init, hle]
  · rw [heard_of_lt (Nat.lt_of_not_le hle), (run_of_no_exit _ (no_exit_after c.run)).1]
    cases c.run.ending <;> simp [Executor.init, hle]

/-- The file after the last event, too. -/
theorem file_run_heard (file : Option Bytes) (c : Spawned) :
    (Machine.run Executor.onEvent (.init file) c.heard).file =
      match c.run.ending with
      | .exit _ =>
        if c.missed ≤ c.run.early.length then some (c.run.early.drop c.missed).flatten else file
      | .error => file := by
  by_cases hle : c.missed ≤ c.run.early.length
  · rw [heard_of_le hle, Machine.run_append, run_data, Machine.run_cons, Machine.run_append,
      run_data]
    cases c.run.ending <;> simp [Ending.event, Executor.onEvent, Executor.init, hle]
  · rw [heard_of_lt (Nat.lt_of_not_le hle), (run_of_no_exit _ (no_exit_after c.run)).2]
    cases c.run.ending <;> simp [Executor.init, hle]

/-- The output that is heard before the exit is all of it just when none is lost at either end. -/
theorem heard_output_iff (c : Spawned) :
    (c.run.early.drop c.missed).flatten = c.run.output ↔
      (c.run.early.take c.missed).flatten = [] ∧ c.run.late.flatten = [] := by
  have hsplit : c.run.output = (c.run.early.take c.missed).flatten ++
      ((c.run.early.drop c.missed).flatten ++ c.run.late.flatten) := by
    have htaken := congrArg List.flatten (List.take_append_drop c.missed c.run.early)
    rw [List.flatten_append] at htaken
    rw [← List.append_assoc, htaken, ChildRun.output, List.flatten_append]
  rw [hsplit]
  refine ⟨fun h => ?_, fun ⟨htake, hlate⟩ => by rw [htake, hlate, List.nil_append, List.append_nil]⟩
  have hlength := congrArg List.length h
  rw [List.length_append, List.length_append] at hlength
  exact ⟨List.length_eq_zero_iff.1 (by omega), List.length_eq_zero_iff.1 (by omega)⟩

/-- **When PHP is resumed as it should be**, for everything the spawn handler can do. -/
theorem resumes_iff (file : Option Bytes) (handler : Option HandlerAnswer) :
    Resumes (executor file (spawnProcess handler)).2 (outputOf (spawnProcess handler)) ↔
      Clean (spawnProcess handler) := by
  cases spawnProcess handler with
  | error e =>
    have hx : (executor file (.error e)).2 = .init file := by
      rw [executor]
      split <;> rfl
    rw [hx]
    simp [Resumes, Clean, Executor.init]
  | ok child =>
    rw [executor, Resumes, run_heard]
    have hclean : Clean (.ok child) ↔
        child.run.Exits ∧ child.Heard ∧ child.run.late.flatten = [] := by simp [Clean]
    rw [hclean, outputOf, ChildRun.Exits, Spawned.Heard, and_assoc, ← heard_output_iff]
    cases hending : child.run.ending with
    | error => simp
    | exit code =>
      by_cases hle : child.missed ≤ child.run.early.length
      · simp [hle]
      · simp [hle]

/-- A handler that answers with a promise, which the child does not wait for. -/
example : (executor none (spawnProcess (some (.promise (some ⟨⟨[], .exit 0, []⟩, 1⟩))))).2.wakeUps =
    [] := by decide

/-- A child that still has output to deliver when it exits. -/
def lateChild : ChildRun := ⟨[[1]], .exit 0, [[2]]⟩

/-- Without a spawn handler PHP stays suspended for ever, and the late output is not in the file. -/
theorem lateChild_not_resumes :
    ¬ Resumes (executor none (spawnProcess none)).2 (outputOf (spawnProcess none)) ∧
    ¬ Resumes (executor none (spawnProcess (some (.emitter lateChild)))).2
      (outputOf (spawnProcess (some (.emitter lateChild)))) := by
  constructor
  · rintro ⟨w, hw, -⟩
    have hnil : (executor none (spawnProcess none)).2.wakeUps = [] := by decide
    rw [hnil] at hw
    cases hw
  · rintro ⟨w, hw, -, hpath⟩
    have hone : (executor none (spawnProcess (some (.emitter lateChild)))).2.wakeUps =
        [⟨.outputPath, some [1], some 0⟩] := by decide
    rw [hone] at hw
    cases hw
    exact absurd (hpath rfl).1 (by decide)

end PhpWasm.Popen
