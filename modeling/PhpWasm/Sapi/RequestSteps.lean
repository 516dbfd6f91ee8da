import PhpWasm.Sapi.Request

/-!
# The steps of one request

`wasm_sapi_handle_request` leaves by three ways, and all of them end in the same label: the
initialisation fails, the primary script cannot be opened, or the script runs.  What stands at the
label shuts everything down, whatever was started, and returns `result`, whatever was assigned.

* `requestSteps` lists the steps of a request, one for each call it makes.
* `run_requestSteps` and `resultOf_requestSteps` say that this is the request of
  `Sapi.handleRequest`: performing the steps leads to the same state and the same answer.
* `requestRight_iff` says when the answer is one and when each part is shut down once, after it was
  started: only when nothing fails.
-/

set_option autoImplicit false

namespace PhpWasm

variable {δ : Type*}

/-! ## The steps -/

/-- What is started for a request and shut down after it. -/
inductive RequestPart
  | stdout | stderr | request
  deriving DecidableEq

/-- A step of a request. -/
inductive RequestStep
  | putenv
  /-- `redirect_stream_to_file` or `php_request_startup`, and whether it succeeds. -/
  | start (part : RequestPart) (ok : Bool)
  | fillRequestInfo
  | setSkipShebang
  | registerPhpSelf
  /-- `wasm_sapi_module_shutdown` -/
  | moduleShutdown
  /-- `php_fopen_primary_script`, and whether it succeeds. -/
  | openPrimaryScript (ok : Bool)
  /-- The response to a script that cannot be opened. -/
  | refuse (httpResponseCode : Nat) (text : CString)
  | executeScript
  /-- An assignment to `result`. -/
  | assignResult (result : Int)
  | destroyServerContext
  /-- `restore_stream_handler` or `php_request_shutdown`. -/
  | stop (part : RequestPart)
  | fflush (fd : Int)
  | releaseFileLocks
  | initServerContext
  deriving DecidableEq

/-- Does `wasm_sapi_request_init` fail? -/
def Request.InitFails (r : Request δ) (s : Sapi δ) : Prop :=
  r.streams.Failed s.fds ∨ r.startup = false

instance (r : Request δ) (s : Sapi δ) : Decidable (r.InitFails s) :=
  inferInstanceAs (Decidable (_ ∨ _))

/-- The steps of `wasm_sapi_request_init`. -/
def requestInitSteps (r : Request δ) (s : Sapi δ) : List RequestStep :=
  [.putenv, .start .stdout ((r.streams.redirectStdout s.fds).1 != -1),
    .start .stderr ((r.streams.redirectStderr s.fds).1 != -1)] ++
  if r.streams.Failed s.fds then []
  else
    .fillRequestInfo :: .start .request r.startup ::
      if r.startup then [.setSkipShebang, .registerPhpSelf] else [.moduleShutdown]

/-- The steps from `php_fopen_primary_script` to the label.  `denied` is whether `errno` is
`EACCES` when there is no script. -/
def scriptSteps (r : Request δ) (denied : Bool) : List RequestStep :=
  .openPrimaryScript r.primaryScript ::
    if r.primaryScript then [.executeScript, .assignResult r.exitStatus]
    else if denied then [.refuse 403 (bytes "Access denied.\n")]
    else [.refuse 404 (bytes "No input file specified.\n")]

/-- The steps of `wasm_sapi_request_shutdown`. -/
def requestShutdownSteps : List RequestStep :=
  [.destroyServerContext, .stop .request, .fflush stdoutFd, .fflush stderrFd, .stop .stdout,
    .stop .stderr, .releaseFileLocks, .initServerContext]

/-- The steps of `wasm_sapi_handle_request`. -/
def requestSteps (r : Request δ) (denied : Bool) (s : Sapi δ) : List RequestStep :=
  requestInitSteps r s ++
    (if r.InitFails s then [.assignResult (-1)] else scriptSteps r denied) ++ requestShutdownSteps

namespace Sapi

/-- What a step does to the state of the SAPI. -/
def perform (r : Request δ) (s : Sapi δ) : RequestStep → Sapi δ
  | .putenv => { s with environ := PhpWasm.putenv (bytes "USE_ZEND_ALLOC=0") s.environ }
  | .start .stdout _ =>
    let res := redirectStreamToFile r.streams.stdout stdoutFd s.fds
    { s with fds := res.2, stdoutReplacement := res.1 }
  | .start .stderr _ =>
    let res := redirectStreamToFile r.streams.stderr stderrFd s.fds
    { s with fds := res.2, stderrReplacement := res.1 }
  | .fillRequestInfo => { s with requestInfo := s.mem.context.info }
  | .setSkipShebang => { s with skipShebang := s.mem.context.skipShebang = 1 }
  | .moduleShutdown => { s with moduleUp := false }
  | .destroyServerContext => s.destroyed
  | .stop .request =>
    { s with fds := r.headers.foldl (fun t opened => sendHeaders opened t) s.fds }
  | .stop .stdout =>
    { s with
      fds := restoreStreamHandler r.streams.restoreStdout stdoutFd s.stdoutReplacement s.fds }
  | .stop .stderr =>
    { s with
      fds := restoreStreamHandler r.streams.restoreStderr stderrFd s.stderrReplacement s.fds }
  | .initServerContext => { s with mem := ⟨s.mem.heap, wasmInitServerContext⟩ }
  | .start .request _ | .registerPhpSelf | .openPrimaryScript _ | .refuse _ _ | .executeScript
  | .assignResult _ | .fflush _ | .releaseFileLocks => s

end Sapi

/-- `result` after an assignment, or any other step. -/
def assigned (result : Option Int) : RequestStep → Option Int
  | .assignResult v => some v
  | _ => result

/-- `result` at the end.  It starts without a value. -/
def resultOf (steps : List RequestStep) : Option Int := Machine.run assigned none steps

/-! ### They are the request -/

section

variable {r : Request δ} {denied : Bool} {s : Sapi δ}

theorem not_initFails_iff : ¬ r.InitFails s ↔ ¬ r.streams.Failed s.fds ∧ r.startup = true := by
  rw [Request.InitFails, not_or, Bool.not_eq_false]

/-- The steps of the initialisation do what `wasm_sapi_request_init` does. -/
theorem requestInit_eq :
    s.requestInit r =
      (if r.InitFails s then -1 else 0,
        Machine.run (Sapi.perform r) s (requestInitSteps r s)) := by
  rw [Sapi.requestInit, requestInitSteps]
  by_cases hfailed : r.streams.Failed s.fds
  · rw [if_pos hfailed, if_pos (show r.InitFails s from .inl hfailed)]
    exact if_pos hfailed
  · rw [if_neg hfailed]
    refine (if_neg hfailed).trans ?_
    rcases hstartup : r.startup with _ | _
    · rw [if_pos (show r.InitFails s from .inr hstartup)]
      rfl
    · rw [if_neg (not_initFails_iff.2 ⟨hfailed, hstartup⟩)]
      rfl

/-- The steps of the shutdown do what `wasm_sapi_request_shutdown` does. -/
theorem requestShutdown_eq :
    s.requestShutdown r = Machine.run (Sapi.perform r) s requestShutdownSteps := rfl

/-- What happens to the script does not concern the SAPI. -/
theorem run_scriptSteps : Machine.run (Sapi.perform r) s (scriptSteps r denied) = s := by
  rw [scriptSteps]
  cases r.primaryScript <;> cases denied <;> rfl

/-- **The steps lead where the request leads.** -/
theorem run_requestSteps (denied : Bool) :
    Machine.run (Sapi.perform r) s (requestSteps r denied s) = (s.handleRequest r).2 := by
  rw [requestSteps, Machine.run_append, Machine.run_append, Sapi.handleRequest]
  dsimp only
  rw [requestInit_eq, requestShutdown_eq]
  split
  · rfl
  · rw [run_scriptSteps]

/-- Only the path to the label assigns to `result`. -/
theorem resultOf_requestSteps_eq (denied : Bool) :
    resultOf (requestSteps r denied s) =
      if r.InitFails s then some (-1) else resultOf (scriptSteps r denied) := by
  have hinit : ∀ tail : List RequestStep,
      resultOf (requestInitSteps r s ++ tail) = resultOf tail := by
    intro tail
    rw [requestInitSteps]
    cases r.startup <;> split <;> rfl
  rw [requestSteps, List.append_assoc, hinit]
  split
  · rfl
  · rw [resultOf, Machine.run_append]
    rfl

/-- **And they lead to its answer.** -/
theorem resultOf_requestSteps (denied : Bool) :
    resultOf (requestSteps r denied s) = (s.handleRequest r).1 := by
  rw [resultOf_requestSteps_eq, Sapi.handleRequest, requestInit_eq]
  by_cases hfails : r.InitFails s
  · rw [if_pos hfails, if_pos hfails]
    rfl
  · rw [if_neg hfails, if_neg hfails]
    dsimp only
    rw [if_neg (show ¬ (0 : Int) = -1 by decide), scriptSteps]
    cases r.primaryScript <;> cases denied <;> rfl

end

/-! ## What is asked of a request -/

/-- The state and the steps so far, newest first. -/
def recorded (r : Request δ) :
    Sapi δ × List RequestStep → RequestStep → Sapi δ × List RequestStep :=
  Machine.both (Sapi.perform r) fun done step => step :: done

/-- The step is made for the first time.  Where it shuts a part down, the part was started, and
`php_request_shutdown` finds the PHP module up. -/
def StepRight (p : Sapi δ × List RequestStep) (step : RequestStep) : Prop :=
  step ∉ p.2 ∧ ∀ part, step = .stop part →
    .start part true ∈ p.2 ∧ (part = .request → p.1.moduleUp = true)

/-- The answer of a request is a value, and its steps are paired. -/
structure RequestRight (r : Request δ) (denied : Bool) (s : Sapi δ) : Prop where
  /-- The answer is -1 when the initialisation fails, a failure code when there is no script, and
  the exit status of the script otherwise. -/
  result : ∃ v, (s.handleRequest r).1 = some v ∧ (r.InitFails s → v = -1) ∧
    (¬ r.InitFails s → r.primaryScript = false → v ≠ 0) ∧
    (¬ r.InitFails s → r.primaryScript = true → v = r.exitStatus)
  steps : Machine.Along (recorded r) StepRight (s, []) (requestSteps r denied s)
  stopped : ∀ part, .start part true ∈ requestSteps r denied s →
    .stop part ∈ requestSteps r denied s
  /-- What every shutdown has to do is done. -/
  cleaned : ∀ step ∈ [RequestStep.destroyServerContext, .fflush stdoutFd, .fflush stderrFd,
    .releaseFileLocks, .initServerContext], step ∈ requestSteps r denied s

/-- Nothing fails. -/
structure Request.Succeeds (r : Request δ) (s : Sapi δ) : Prop where
  moduleUp : s.moduleUp = true
  init : ¬ r.InitFails s
  primaryScript : r.primaryScript = true

/-! ## When a request is right -/

section

variable {r : Request δ} {denied : Bool} {s : Sapi δ}

/-- What was recorded. -/
theorem run_recorded (steps done : List RequestStep) :
    Machine.run (recorded r) (s, done) steps =
      (Machine.run (Sapi.perform r) s steps, steps.reverse ++ done) := by
  induction steps generalizing s done with
  | nil => rfl
  | cons step steps ih =>
    rw [Machine.run_cons, Machine.run_cons, List.reverse_cons, List.append_assoc]
    exact ih _

/-- Where the steps are right, whatever is shut down was started before. -/
theorem started_of_stop {steps pre post : List RequestStep} {part : RequestPart}
    (h : Machine.Along (recorded r) StepRight (s, []) steps)
    (hsplit : steps = pre ++ .stop part :: post) :
    .start part true ∈ pre ∧
      (part = .request → (Machine.run (Sapi.perform r) s pre).moduleUp = true) := by
  have hstep := (Machine.along_iff_split.1 h pre _ post hsplit).2 part rfl
  rw [run_recorded, List.append_nil, List.mem_reverse] at hstep
  exact hstep

/-- Every request runs `php_request_shutdown`. -/
theorem requestSteps_split (r : Request δ) (denied : Bool) (s : Sapi δ) :
    ∃ pre post, requestSteps r denied s = pre ++ .stop .request :: post :=
  List.append_of_mem (List.mem_append_right _ (by decide))

/-- A part of PHP that is shut down does not come up again. -/
theorem moduleUp_of_run {steps : List RequestStep}
    (h : (Machine.run (Sapi.perform r) s steps).moduleUp = true) : s.moduleUp = true := by
  induction steps generalizing s with
  | nil => exact h
  | cons step steps ih =>
    have hstep := ih h
    -- only `wasm_sapi_module_shutdown` writes to `moduleUp`, and it does not set it
    cases step with
    | moduleShutdown => exact nomatch hstep
    | start part ok => cases part <;> exact hstep
    | stop part => cases part <;> exact hstep
    | _ => exact hstep

/-- `php_request_startup` succeeds in a request exactly when the initialisation does. -/
theorem start_request_mem_iff :
    .start .request true ∈ requestSteps r denied s ↔ ¬ r.InitFails s := by
  have hscript : .start .request true ∉ scriptSteps r denied := by
    rw [scriptSteps]
    cases r.primaryScript <;> cases denied <;> simp
  have hshutdown : .start .request true ∉ requestShutdownSteps := by decide
  rw [requestSteps, requestInitSteps]
  by_cases hfailed : r.streams.Failed s.fds
  · have hinit : r.InitFails s := .inl hfailed
    simp [hfailed, hinit, hshutdown]
  · rcases hstartup : r.startup with _ | _
    · have hinit : r.InitFails s := .inr hstartup
      simp [hfailed, hinit, hshutdown]
    · have hinit : ¬ r.InitFails s := not_initFails_iff.2 ⟨hfailed, hstartup⟩
      simp [hfailed, hinit]

/-- **A request in which the initialisation fails** shuts down what was not started. -/
theorem not_steps_of_initFails (h : r.InitFails s) :
    ¬ Machine.Along (recorded r) StepRight (s, []) (requestSteps r denied s) := by
  intro hsteps
  obtain ⟨pre, post, hsplit⟩ := requestSteps_split r denied s
  have hstart : .start .request true ∈ requestSteps r denied s := by
    rw [hsplit]
    exact List.mem_append_left _ (started_of_stop hsteps hsplit).1
  exact start_request_mem_iff.1 hstart h

/-- **A request without a script** answers with a value that was never assigned. -/
theorem handleRequest_of_no_script (h : ¬ r.InitFails s) (hscript : r.primaryScript = false) :
    (s.handleRequest r).1 = none := by
  rw [← resultOf_requestSteps false, resultOf_requestSteps_eq, if_neg h, scriptSteps, hscript]
  rfl

/-- The steps of a request in which nothing fails. -/
theorem requestSteps_of_succeeds (h : r.Succeeds s) (denied : Bool) :
    requestSteps r denied s =
      [.putenv, .start .stdout true, .start .stderr true, .fillRequestInfo, .start .request true,
        .setSkipShebang, .registerPhpSelf, .openPrimaryScript true, .executeScript,
        .assignResult r.exitStatus] ++ requestShutdownSteps := by
  obtain ⟨hfailed, hstartup⟩ := not_initFails_iff.1 h.init
  obtain ⟨hout, herr⟩ := not_or.1 hfailed
  rw [requestSteps, if_neg h.init, requestInitSteps, if_neg hfailed, scriptSteps, h.primaryScript,
    hstartup, bne_iff_ne.2 hout, bne_iff_ne.2 herr]
  rfl

/-- The module is up in each step of such a request. -/
theorem steps_of_succeeds (h : r.Succeeds s) :
    Machine.Along (recorded r) StepRight (s, []) (requestSteps r denied s) := by
  rw [requestSteps_of_succeeds h denied]
  simp [StepRight, recorded, Machine.both, requestShutdownSteps, Sapi.perform, Sapi.destroyed,
    h.moduleUp, stdoutFd, stderrFd]

end

/-- **When a request is right**: exactly when the PHP module is up, the initialisation succeeds and
the primary script can be opened. -/
theorem requestRight_iff (r : Request δ) (denied : Bool) (s : Sapi δ) :
    RequestRight r denied s ↔
      s.moduleUp = true ∧ ¬ r.streams.Failed s.fds ∧ r.startup = true ∧
        r.primaryScript = true := by
  constructor
  · intro h
    have hinit : ¬ r.InitFails s := fun hfails => not_steps_of_initFails hfails h.steps
    obtain ⟨hfailed, hstartup⟩ := not_initFails_iff.1 hinit
    obtain ⟨v, hv, -⟩ := h.result
    obtain ⟨pre, post, hsplit⟩ := requestSteps_split r denied s
    refine ⟨moduleUp_of_run ((started_of_stop h.steps hsplit).2 rfl), hfailed, hstartup,
      eq_true_of_ne_false fun hscript => ?_⟩
    rw [handleRequest_of_no_script hinit hscript] at hv
    exact nomatch hv
  · rintro ⟨hup, hfailed, hstartup, hscript⟩
    have hinit : ¬ r.InitFails s := not_initFails_iff.2 ⟨hfailed, hstartup⟩
    have hsucceeds : r.Succeeds s := ⟨hup, hinit, hscript⟩
    have hsteps := requestSteps_of_succeeds hsucceeds denied
    refine ⟨⟨r.exitStatus, ?_, fun h => absurd h hinit, ?_, fun _ _ => rfl⟩,
      steps_of_succeeds hsucceeds, fun part _ => ?_, fun step hstep => ?_⟩
    · rw [← resultOf_requestSteps denied, hsteps]
      rfl
    · intro _ h
      exact absurd (hscript.symm.trans h) nofun
    · rw [hsteps]
      refine List.mem_append_right _ ?_
      cases part <;> decide
    · rw [hsteps]
      refine List.mem_append_right _ ?_
      revert step
      decide

/-- The three ways to fail.  Without a primary script, the answer is whatever is in `result`.  When
`php_request_startup` fails, `php_request_shutdown` runs after `php_module_shutdown`, and when
stdout cannot be redirected, it runs without a `php_request_startup`. -/
theorem failed_requests_not_right :
    let s := Sapi.start stdioTable
    let noScript := { plainRequest with primaryScript := false }
    let noStartup := { plainRequest with startup := false }
    let noStdout :=
      { plainRequest with streams := { plainRequest.streams with stdout := ⟨none, true, true⟩ } }
    ((s.handleRequest noScript).1 = none ∧ ¬ RequestRight noScript false s) ∧
      ([.moduleShutdown, .stop .request].Sublist (requestSteps noStartup false s) ∧
        ¬ RequestRight noStartup false s) ∧
      (.start .request true ∉ requestSteps noStdout false s ∧ ¬ RequestRight noStdout false s) := by
  intro s noScript noStartup noStdout
  have hscript : (s.handleRequest noScript).1 = none := handleRequest_of_no_script (by decide) rfl
  have hstartup : noStartup.InitFails s := by decide
  have hstdout : noStdout.InitFails s := by decide
  refine ⟨⟨hscript, fun h => ?_⟩, ⟨by decide, fun h => not_steps_of_initFails hstartup h.steps⟩,
    fun h => start_request_mem_iff.1 h hstdout, fun h => not_steps_of_initFails hstdout h.steps⟩
  obtain ⟨v, hv, -⟩ := h.result
  rw [hscript] at hv
  exact nomatch hv

end PhpWasm
