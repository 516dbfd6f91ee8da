import PhpWasm.Base.Run
import PhpWasm.Sapi.Context
import PhpWasm.Sapi.Streams

/-!
# Requests, one after another

The SAPI is a state machine driven from JavaScript: the setters fill the server context in,
`wasm_sapi_handle_request` runs one request with it, and `run_cli` runs PHP's CLI instead.
`Sapi` is the state the three share and `Sapi.step` is one call; `Machine.run` strings the calls
together.

What happens inside a request is up to PHP and to the file system, and `Request` collects their
choices: which system calls succeed, whether `php_request_startup` and the primary script do, and
the SAPI callbacks PHP makes.  A callback is made in one of three windows: before
`wasm_sapi_request_init` has filled `SG(request_info)` in (`early`), from then until
`wasm_sapi_request_shutdown` starts (`during`), and inside `php_request_shutdown` (`late`).  The
server context does not change inside a window, so the order of the callbacks in it is the order
of a list.  The script itself leaves no descriptor behind.

## The descriptor table

The first result is about the table.  `Sapi.tableKept_iff` says that a sequence of calls keeps it
as it was, call by call, exactly when no request and no CLI run in the sequence manages to open a
`/request/…` file: every redirection that succeeds leaves one descriptor behind.
-/

set_option autoImplicit false

namespace PhpWasm

open Posix Memory

variable {δ : Type*}

/-! ## The environment variables of the process -/

/-- The name in a `NAME=value` string: what stands before the first `=`. -/
def envName (s : CString) : CString := s.takeWhile (· != '='.toNat.toUInt8)

/-- `putenv`.  A string without a name is rejected, and one without a value unsets the variable. -/
def putenv (s : CString) (environ : List CString) : List CString :=
  if envName s = [] then environ
  else if envName s = s then environ.filter fun e => envName e != s
  else
    match environ.findIdx? fun e => envName e == envName s with
    | some i => environ.set i s
    | none => environ ++ [s]

/-- The `key=` or `key=value` string `run_cli` builds for an entry, from what the two pointers
lead to. -/
def envString (h : Heap CString) (e : Entry Ptr) (withValue : Bool) : CString :=
  (h.read e.key).getD [] ++ bytes "=" ++ if withValue then (h.read e.value).getD [] else []

/-- A loop of `run_cli` over the environment entries.  It answers where its cursor ends up. -/
def putenvEntries (h : Heap CString) (withValue : Bool) :
    List (Entry Ptr) → List CString → List (Entry Ptr) × List CString
  | [], environ => ([], environ)
  | e :: rest, environ => putenvEntries h withValue rest (putenv (envString h e withValue) environ)

/-! ## The state -/

/-- The state of the SAPI between two calls. -/
structure Sapi (δ : Type*) where
  /-- The descriptor table of the process. -/
  fds : FdTable δ
  /-- `stdout_replacement` -/
  stdoutReplacement : Int
  /-- `stderr_replacement` -/
  stderrReplacement : Int
  /-- The heap and the server context. -/
  mem : Mem
  /-- `SG(request_info)` -/
  requestInfo : RequestInfo Ptr
  /-- `CG(skip_shebang)` -/
  skipShebang : Bool
  /-- Is the PHP module started up? -/
  moduleUp : Bool
  /-- The environment variables. -/
  environ : List CString
  /-- `cli_argv`, newest argument first. -/
  cliArgv : List CString

/-- The state `php_wasm_init` leaves, over a given descriptor table. -/
def Sapi.start (fds : FdTable δ) : Sapi δ where
  fds := fds
  stdoutReplacement := 0
  stderrReplacement := 0
  mem := ⟨Heap.empty, wasmInitServerContext⟩
  requestInfo := RequestInfo.zero
  skipShebang := false
  moduleUp := true
  environ := []
  cliArgv := []

/-- Everything the environment decides about one request. -/
structure Request (δ : Type*) where
  /-- The answers to the redirections and restorations. -/
  streams : StreamCalls δ
  /-- The callbacks made before `SG(request_info)` is filled in. -/
  early : List Callback
  /-- Does `php_request_startup` succeed? -/
  startup : Bool
  /-- The callbacks made from there until the shutdown starts. -/
  during : List Callback
  /-- Is the primary script there? -/
  primaryScript : Bool
  /-- `EG(exit_status)` after the script. -/
  exitStatus : Int
  /-- The descriptions the `fopen`s of `wasm_sapi_send_headers` create. -/
  headers : List (Option δ)
  /-- The callbacks made inside `php_request_shutdown`. -/
  late : List Callback

/-- Everything the environment decides about one CLI run. -/
structure CliRun (δ : Type*) where
  /-- The answers to the redirections and restorations. -/
  streams : StreamCalls δ
  /-- `main`, as a function of its arguments and the environment variables. -/
  main : List CString → List CString → Int × List CString

/-! ## The calls -/

namespace Sapi

/-- The redirections both entry points start with. -/
def redirect (c : StreamCalls δ) (s : Sapi δ) : Sapi δ :=
  { s with
    fds := (c.redirectStderr s.fds).2
    stdoutReplacement := (c.redirectStdout s.fds).1
    stderrReplacement := (c.redirectStderr s.fds).1 }

/-- Did one of the redirections fail? -/
def NotRedirected (s : Sapi δ) : Prop := s.stdoutReplacement = -1 ∨ s.stderrReplacement = -1

instance (s : Sapi δ) : Decidable s.NotRedirected := inferInstanceAs (Decidable (_ ∨ _))

/-- `wasm_sapi_request_init` -/
def requestInit (r : Request δ) (s : Sapi δ) : Int × Sapi δ :=
  let s₁ := ({ s with environ := putenv (bytes "USE_ZEND_ALLOC=0") s.environ }).redirect r.streams
  if s₁.NotRedirected then (-1, s₁)
  else
    let s₂ := { s₁ with requestInfo := s₁.mem.context.info }
    if r.startup then (0, { s₂ with skipShebang := s₂.mem.context.skipShebang = 1 })
    else (-1, { s₂ with moduleUp := false })

/-- The state inside `php_request_shutdown`: the strings and lists of the context are freed, and
the context still points at them. -/
def destroyed (s : Sapi δ) : Sapi δ :=
  { s with mem := ⟨wasmDestroyServerContext s.mem, s.mem.context⟩ }

/-- `wasm_sapi_request_shutdown` -/
def requestShutdown (r : Request δ) (s : Sapi δ) : Sapi δ :=
  let s₁ := s.destroyed
  let fds := r.headers.foldl (fun t opened => sendHeaders opened t) s₁.fds
  { s₁ with
    fds := r.streams.restore s₁.stdoutReplacement s₁.stderrReplacement fds
    mem := ⟨s₁.mem.heap, wasmInitServerContext⟩ }

/-- `wasm_sapi_handle_request`.  Its answer is not determined when the primary script is missing:
`result` is never assigned on that path. -/
def handleRequest (r : Request δ) (s : Sapi δ) : Option Int × Sapi δ :=
  let init := s.requestInit r
  let result :=
    if init.1 = -1 then some (-1) else if r.primaryScript then some r.exitStatus else none
  (result, init.2.requestShutdown r)

/-- `run_cli` -/
def runCli (c : CliRun δ) (s : Sapi δ) : Int × Sapi δ :=
  let s₁ := s.redirect c.streams
  if s₁.NotRedirected then (-1, s₁)
  else
    let exported := putenvEntries s₁.mem.heap true s₁.mem.context.envArrayEntries s₁.environ
    let res := c.main s₁.cliArgv.reverse exported.2
    -- the second loop goes on with the cursor the first one has run to the end
    let cleared := putenvEntries s₁.mem.heap false exported.1 res.2
    (res.1, { s₁ with
      environ := cleared.2
      fds := c.streams.restore s₁.stdoutReplacement s₁.stderrReplacement s₁.fds })

end Sapi

/-- A call from JavaScript. -/
inductive Call (δ : Type*)
  | set (s : Setter)
  | addCliArg (arg : CString)
  | request (r : Request δ)
  | cli (c : CliRun δ)

/-- The state after a call. -/
def Sapi.step (s : Sapi δ) : Call δ → Sapi δ
  | .set x => { s with mem := x.apply s.mem }
  | .addCliArg arg => { s with cliArgv := arg :: s.cliArgv }
  | .request r => (s.handleRequest r).2
  | .cli c => (s.runCli c).2

/-! ## What a request does to the table -/

namespace Sapi

@[simp] theorem redirect_fds (c : StreamCalls δ) (s : Sapi δ) :
    (s.redirect c).fds = (c.redirectStderr s.fds).2 := rfl

/-- Initialisation changes the table only by redirecting, however it goes on. -/
theorem requestInit_streams (r : Request δ) (s : Sapi δ) :
    (s.requestInit r).2.fds = (r.streams.redirectStderr s.fds).2 ∧
      (s.requestInit r).2.stdoutReplacement = (r.streams.redirectStdout s.fds).1 ∧
      (s.requestInit r).2.stderrReplacement = (r.streams.redirectStderr s.fds).1 := by
  simp only [requestInit]
  split
  · exact ⟨rfl, rfl, rfl⟩
  · split <;> exact ⟨rfl, rfl, rfl⟩

/-- Sending the headers opens and closes a file, which is no change. -/
theorem foldl_sendHeaders (headers : List (Option δ)) (t : FdTable δ) :
    headers.foldl (fun t opened => sendHeaders opened t) t = t := by
  induction headers with
  | nil => rfl
  | cons o headers ih => rw [List.foldl_cons, sendHeaders_eq, ih]

/-- **A request, seen from the table**, is a pair of redirections and restorations: nothing else
in it is left over, whichever of its steps fails. -/
theorem handleRequest_fds (r : Request δ) (s : Sapi δ) :
    (s.handleRequest r).2.fds = r.streams.bracketFds s.fds := by
  obtain ⟨hfds, hout, herr⟩ := requestInit_streams r s
  simp only [handleRequest, requestShutdown, destroyed, foldl_sendHeaders, hfds, hout, herr,
    StreamCalls.bracketFds]

/-- A CLI run, seen from the table: the restorations are missing when a redirection failed. -/
theorem runCli_fds (c : CliRun δ) (s : Sapi δ) :
    (s.runCli c).2.fds =
      if c.streams.Failed s.fds then (c.streams.redirectStderr s.fds).2
      else c.streams.bracketFds s.fds := by
  simp only [runCli]
  split
  · rename_i h
    rw [if_pos (show c.streams.Failed s.fds from h), redirect_fds]
  · rename_i h
    rw [if_neg (show ¬ c.streams.Failed s.fds from h)]
    rfl

theorem runCli_fds_eq_iff {c : CliRun δ} {s : Sapi δ} :
    (s.runCli c).2.fds = s.fds ↔ c.streams.NoFileOpens s.fds := by
  rw [runCli_fds]
  split
  · exact StreamCalls.redirectStderr_eq_iff
  · exact StreamCalls.bracketFds_eq_iff

/-! ## The table over a sequence of calls -/

/-- The call leaves the descriptor table as it was, descriptors 1 and 2 included. -/
def FdsKept (s : Sapi δ) (e : Call δ) : Prop :=
  (s.step e).fds = s.fds ∧ (s.step e).fds.get stdoutFd = s.fds.get stdoutFd ∧
    (s.step e).fds.get stderrFd = s.fds.get stderrFd

/-- A sequence of calls keeps the table: every call in it does, and it does not use the table up. -/
def TableKept (s : Sapi δ) (es : List (Call δ)) : Prop :=
  Machine.Along step FdsKept s es ∧ ((Machine.run step s es).fds.Full → s.fds.Full)

/-- The call opens neither `/request/stdout` nor `/request/stderr`. -/
def NoFileOpens (s : Sapi δ) : Call δ → Prop
  | .request r => r.streams.NoFileOpens s.fds
  | .cli c => c.streams.NoFileOpens s.fds
  | .set _ => True
  | .addCliArg _ => True

theorem fdsKept_iff (s : Sapi δ) (e : Call δ) : s.FdsKept e ↔ s.NoFileOpens e := by
  have hiff : s.FdsKept e ↔ (s.step e).fds = s.fds :=
    ⟨fun h => h.1, fun h => ⟨h, by rw [h], by rw [h]⟩⟩
  rw [hiff]
  cases e with
  | set x => exact ⟨fun _ => trivial, fun _ => rfl⟩
  | addCliArg arg => exact ⟨fun _ => trivial, fun _ => rfl⟩
  | request r =>
    rw [step, handleRequest_fds, NoFileOpens]
    exact StreamCalls.bracketFds_eq_iff
  | cli c => exact runCli_fds_eq_iff

/-- A run of calls that keep the table ends with the table it started with. -/
theorem run_fds_of_fdsKept {s : Sapi δ} {es : List (Call δ)}
    (h : Machine.Along step FdsKept s es) : (Machine.run step s es).fds = s.fds :=
  Machine.run_inv (I := fun s' => s'.fds = s.fds) (fun _ _ hs he => he.1.trans hs) rfl h

/-- **When requests and CLI runs keep the descriptor table**: exactly when each of them fails to
open either of the files it redirects to. -/
theorem tableKept_iff (s : Sapi δ) (es : List (Call δ)) :
    s.TableKept es ↔ Machine.Along step NoFileOpens s es := by
  have hcongr : Machine.Along step FdsKept s es ↔ Machine.Along step NoFileOpens s es :=
    Machine.along_congr (I := fun _ => True) (fun _ _ _ _ => trivial)
      (fun s e _ => fdsKept_iff s e) trivial
  refine ⟨fun h => hcongr.1 h.1, fun h => ⟨hcongr.2 h, fun hfull => ?_⟩⟩
  rwa [run_fds_of_fdsKept (hcongr.2 h)] at hfull

end Sapi

/-! ### One request is enough

A table with room for eight descriptors and a request that goes through without a failure: it
leaves its two files open at descriptors 3 and 5, and the third such request finds no descriptor
left. -/

/-- Descriptors 0, 1 and 2 of a process that has just started. -/
def stdioTable : FdTable Nat := (((FdTable.empty 8).set 0 0).set 1 1).set 2 2

/-- A request in which every system call is granted and the script runs to its end. -/
def plainRequest : Request Nat where
  streams := ⟨⟨some 3, true, true⟩, ⟨some 4, true, true⟩, true, true⟩
  early := []
  startup := true
  during := []
  primaryScript := true
  exitStatus := 0
  headers := []
  late := []

theorem plainRequest_leaks :
    ¬ (Sapi.start stdioTable).TableKept [.request plainRequest] ∧
      (Machine.run Sapi.step (Sapi.start stdioTable)
        [.request plainRequest, .request plainRequest, .request plainRequest]).fds.Full := by
  refine ⟨fun h => ?_, by decide⟩
  have h3 := congrArg (fun t => t.get 3) h.1.1.1
  exact absurd h3 (by decide)

end PhpWasm
