import PhpWasm.Base.FdTable
import PhpWasm.Base.Run
import PhpWasm.Sapi.Context

/-!
# A pipe open for writing

`popen($cmd, "w")` makes three pipes, wraps the writing end of the third one into a `FILE *`, and
spawns the command.  What is opened is closed in two places: `wasm_pclose` closes the `FILE *`, and
the `exit` handler of the child closes the first descriptor of each pipe.

* `wasmPopen` is the call, whatever the pipes, `fdopen` and the spawn handler answer, and `step` is
  what may happen afterwards.
* `open_of_completes` says what is left open when `wasm_pclose` has returned: the writing ends of
  the two pipes for output.
* `popenRight_iff`: descriptors are kept account of only when the first pipe cannot be made, or when
  everything can and the `FILE *` or the child stays.
-/

set_option autoImplicit false

namespace PhpWasm.Popen

open Posix FdTable

universe u

/-! ## The call -/

/-- A `ProcInfo` object. -/
structure ProcInfo where
  pid : Nat
  /-- The property `fd`, while it is there. -/
  fd : Option Int
  /-- `exitCode`, once `exited` is true. -/
  exitCode : Option (BitVec 32)
  deriving DecidableEq

/-- `js_open_process`, where it puts a new `ProcInfo` into the table.  The properties of the table
are numbers, so a `for in` loop meets them in ascending order. -/
def startProcess (pid : Nat) (table : List ProcInfo) : List ProcInfo :=
  table.filter (·.pid < pid) ++ ⟨pid, none, none⟩ :: table.filter (pid < ·.pid)

/-- The `exit` handler, as far as the table goes. -/
def exitProcess (pid : Nat) (code : BitVec 32) (table : List ProcInfo) : List ProcInfo :=
  table.map fun info => if info.pid = pid then { info with exitCode := some code } else info

/-- `js_popen_set_pid_for_fd` -/
def setPidForFd (fd pid : Int) (table : List ProcInfo) : List ProcInfo :=
  table.map fun info => if (info.pid : Int) = pid then { info with fd := some fd } else info

/-- `js_popen_get_pid_for_fd` -/
def getPidForFd (fd : Int) (table : List ProcInfo) : Int :=
  match table.find? (·.fd = some fd) with
  | some info => info.pid
  | none => -1

/-- `js_popen_clear_pid_for_fd`: the loop stops at the first entry with the descriptor. -/
def clearPidForFd (fd : Int) : List ProcInfo → List ProcInfo
  | [] => []
  | info :: infos =>
    if info.fd = some fd then { info with fd := none } :: infos
    else info :: clearPidForFd fd infos

/-- What `PHPWASM.spawnProcess` and the events of the new process lead to. -/
inductive SpawnResult
  /-- `js_open_process` returns -1. -/
  | fails
  /-- There is a child; it may exit before `js_open_process` returns. -/
  | starts (pid : Nat) (early : Option (BitVec 32))
  deriving DecidableEq

/-- A call of `wasm_popen(cmd, "w")`, and what the functions it calls answer. -/
structure WriteCall (δ : Type u) where
  cmd : CString
  stdoutPipe : Option (δ × δ)
  stderrPipe : Option (δ × δ)
  stdinPipe : Option (δ × δ)
  /-- `fdopen` answers a `FILE *`. -/
  fdopen : Bool
  spawn : SpawnResult

/-- What the call and everything after it work on. -/
structure PopenWrite (δ : Type u) where
  fds : FdTable δ
  /-- `PHPWASM.processTable`, in the order of a `for in` loop. -/
  processTable : List ProcInfo
  /-- The descriptor of the `FILE *` that was returned, until it is closed. -/
  file : Option Int
  /-- The child. -/
  child : Option Nat
  /-- What the `exit` handler of the child closes. -/
  childFds : List Int
  /-- The child has exited. -/
  exited : Option (BitVec 32)
  /-- `wasm_pclose` is waiting in `js_waitpid`. -/
  waiting : Option Nat
  /-- What `wasm_pclose` returned. -/
  pcloseRet : Option (BitVec 32)

namespace PopenWrite

variable {δ : Type u}

/-- A function on the table. -/
def onTable (f : List ProcInfo → List ProcInfo) (s : PopenWrite δ) : PopenWrite δ :=
  { s with processTable := f s.processTable }

/-- The `exit` handler of the child. -/
def onExit (code : BitVec 32) (s : PopenWrite δ) : PopenWrite δ :=
  match s.child, s.exited with
  | some pid, none =>
    { s with
      fds := s.fds.closeAll s.childFds
      processTable := exitProcess pid code s.processTable
      exited := some code }
  | _, _ => s

/-- The new child: `ProcInfo` goes into the table, and the handlers are attached. -/
def withChild (pid : Nat) (descv : List (Int × Int)) (s : PopenWrite δ) : PopenWrite δ :=
  { s with
    processTable := startProcess pid s.processTable
    child := some pid
    childFds := descv.map Prod.fst }

/-- `js_open_process`: the answer, and the state it leaves. -/
def jsOpenProcess (cmd : CString) (descv : List (Int × Int)) (spawn : SpawnResult)
    (s : PopenWrite δ) : Int × PopenWrite δ :=
  if cmd = [] then (-1, s)
  else
    match spawn with
    | .fails => (-1, s)
    | .starts pid early =>
      let s := s.withChild pid descv
      (pid, early.elim s s.onExit)

/-- `wasm_popen(cmd, "w")`.  The null pointer is a `file` of `none`. -/
def wasmPopen (call : WriteCall δ) (s : PopenWrite δ) : PopenWrite δ :=
  match s.fds.sysPipe call.stdoutPipe with
  | (none, t) => { s with fds := t }
  | (some stdoutPipe, t) =>
    match t.sysPipe call.stderrPipe with
    | (none, t) => { s with fds := t }
    | (some stderrPipe, t) =>
      match t.sysPipe call.stdinPipe with
      | (none, t) => { s with fds := t }
      | (some stdinPipe, t) =>
        let s := { s with fds := t }
        if call.fdopen = false then s
        else
          let s := { s with file := some stdinPipe.2 }
          let (pid, s) := s.jsOpenProcess call.cmd [stdinPipe, stdoutPipe, stderrPipe] call.spawn
          s.onTable (setPidForFd stdinPipe.2 pid)

/-! ## What happens afterwards -/

/-- One turn of the function `poll` in `js_waitpid`. -/
def poll (pid : Nat) (s : PopenWrite δ) : PopenWrite δ :=
  match (s.processTable.find? (·.pid = pid)).bind ProcInfo.exitCode with
  | some code => { s with waiting := none, pcloseRet := some code }
  | none => { s with waiting := some pid }

/-- `wasm_pclose`, of the `FILE *` that is open. -/
def wasmPclose (s : PopenWrite δ) : PopenWrite δ :=
  match s.file with
  | none => s
  | some fd =>
    let pid := getPidForFd fd s.processTable
    let s := s.onTable (clearPidForFd fd)
    let s := { s with fds := s.fds.close fd, file := none }
    if pid < 0 then { s with pcloseRet := some (-1) }
    else if s.processTable.find? (·.pid = pid.toNat) = none then { s with pcloseRet := some 0 }
    else s.poll pid.toNat

end PopenWrite

/-- What may happen after the call. -/
inductive WriteEvent
  /-- Bytes are written to the `FILE *`. -/
  | write (data : CString)
  /-- The child writes to its output or its error output. -/
  | output (data : CString)
  /-- The child exits. -/
  | exit (code : BitVec 32)
  | pclose
  /-- The timer of `js_waitpid` fires. -/
  | timer
  deriving DecidableEq

namespace PopenWrite

variable {δ : Type u}

/-- One event.  What is in the pipes is not part of the state. -/
def step (s : PopenWrite δ) : WriteEvent → PopenWrite δ
  | .write _ | .output _ => s
  | .exit code => s.onExit code
  | .pclose => s.wasmPclose
  | .timer => s.waiting.elim s s.poll

end PopenWrite

/-! ## What is asked of it -/

section

variable {δ : Type u}

/-- The state before the call.  Whoever has a descriptor in the process table has it open. -/
structure BeforePopen (δ : Type u) where
  fds : FdTable δ
  processTable : List ProcInfo
  live : ∀ info ∈ processTable, ∀ fd, info.fd = some fd → fds.get fd ≠ none

/-- That state, with nothing of the call in it. -/
def BeforePopen.state (before : BeforePopen δ) : PopenWrite δ :=
  ⟨before.fds, before.processTable, none, none, [], none, none, none⟩

/-- After the call. -/
def afterPopen (before : BeforePopen δ) (call : WriteCall δ) : PopenWrite δ :=
  before.state.wasmPopen call

/-- After the call and some events. -/
def afterRun (before : BeforePopen δ) (call : WriteCall δ) (events : List WriteEvent) :
    PopenWrite δ :=
  Machine.run PopenWrite.step (afterPopen before call) events

/-- The pipes can be made, one after the other. -/
def PipesMade (before : BeforePopen δ) (call : WriteCall δ) (out err inp : Int × Int)
    (t : FdTable δ) : Prop :=
  ∃ t₁ t₂, before.fds.sysPipe call.stdoutPipe = (some out, t₁) ∧
    t₁.sysPipe call.stderrPipe = (some err, t₂) ∧ t₂.sysPipe call.stdinPipe = (some inp, t)

/-- The process can be created. -/
def WriteCall.Starts (call : WriteCall δ) : Prop := call.cmd ≠ [] ∧ call.spawn ≠ .fails

/-- Everything can be created. -/
def AllMade (before : BeforePopen δ) (call : WriteCall δ) : Prop :=
  (∃ out err inp t, PipesMade before call out err inp t) ∧ call.fdopen = true ∧ call.Starts

/-- **The descriptors are accounted for.** -/
structure PopenRight (before : BeforePopen δ) (call : WriteCall δ) (events : List WriteEvent) :
    Prop where
  /-- Where something cannot be created, the answer is the null pointer and nothing is left. -/
  failed : ¬ AllMade before call →
    (afterPopen before call).file = none ∧ (afterPopen before call).fds = before.fds
  /-- Otherwise all that was opened is closed when `wasm_pclose` has returned and the child has
  exited. -/
  closed : AllMade before call → (afterRun before call events).pcloseRet ≠ none →
    (afterRun before call events).exited ≠ none →
      ∀ fd, before.fds.get fd = none → (afterRun before call events).fds.get fd = none
  /-- `wasm_pclose` returns the exit code. -/
  code : AllMade before call → ∀ code, (afterRun before call events).pcloseRet = some code →
    (afterRun before call events).exited = some code

/-- The exit of the child before `js_open_process` returns. -/
def WriteCall.early (call : WriteCall δ) : List WriteEvent :=
  match call.spawn with
  | .starts _ (some code) => [.exit code]
  | _ => []

/-- The events lead to the return of `wasm_pclose` after the exit of the child: the child exits
before the call, or the timer fires after both. -/
def Completes (events : List WriteEvent) : Prop :=
  ∃ before after, events = before ++ .pclose :: after ∧ .pclose ∉ before ∧
    ∃ code, .exit code ∈ before ∨ [.exit code, .timer].Sublist after

end

/-! ## When the events lead to the return -/

section

variable {events : List WriteEvent} {e : WriteEvent}

theorem not_completes_of_notMem (h : WriteEvent.pclose ∉ events) : ¬ Completes events := by
  rintro ⟨before, after, rfl, -, -⟩
  exact h (List.mem_append_right _ List.mem_cons_self)

theorem completes_concat_of_notMem (h : WriteEvent.pclose ∉ events) :
    Completes (events ++ [e]) ↔ e = .pclose ∧ ∃ code, .exit code ∈ events := by
  constructor
  · rintro ⟨before, after, hsplit, -, code, hcode⟩
    rcases List.eq_nil_or_concat' after with rfl | ⟨after, x, rfl⟩
    · obtain ⟨rfl, hlast⟩ := List.append_inj' hsplit rfl
      refine ⟨List.singleton_inj.1 hlast, code, hcode.resolve_right fun hsub => ?_⟩
      cases hsub
    · rw [← List.cons_append, ← List.append_assoc] at hsplit
      obtain ⟨rfl, -⟩ := List.append_inj' hsplit rfl
      exact absurd (List.mem_append_right _ List.mem_cons_self) h
  · rintro ⟨rfl, code, hcode⟩
    exact ⟨events, [], rfl, h, code, .inl hcode⟩

theorem completes_concat_of_mem (h : WriteEvent.pclose ∈ events) :
    Completes (events ++ [e]) ↔
      Completes events ∨ (e = .timer ∧ ∃ code, .exit code ∈ events) := by
  constructor
  · rintro ⟨before, after, hsplit, hfirst, code, hcode⟩
    rcases List.eq_nil_or_concat' after with rfl | ⟨after, x, rfl⟩
    · obtain ⟨rfl, -⟩ := List.append_inj' hsplit rfl
      exact absurd h hfirst
    · rw [← List.cons_append, ← List.append_assoc] at hsplit
      obtain ⟨rfl, hlast⟩ := List.append_inj' hsplit rfl
      obtain rfl := List.singleton_inj.1 hlast
      rcases hcode with hcode | hsub
      · exact .inl ⟨before, after, rfl, hfirst, code, .inl hcode⟩
      · obtain ⟨front, back, heq, hfront, hback⟩ := List.sublist_append_iff.1 hsub
        rcases List.sublist_singleton.1 hback with rfl | rfl
        · rw [List.append_nil] at heq
          subst heq
          exact .inl ⟨before, after, rfl, hfirst, code, .inr hfront⟩
        · have hpair : [WriteEvent.exit code] ++ [.timer] = front ++ [e] := heq
          obtain ⟨rfl, htimer⟩ := List.append_inj' hpair rfl
          refine .inr ⟨(List.singleton_inj.1 htimer).symm, code, ?_⟩
          exact List.mem_append_right _ (List.mem_cons_of_mem _ (List.singleton_sublist.1 hfront))
  · rintro (⟨before, after, rfl, hfirst, code, hcode⟩ | ⟨rfl, code, hcode⟩)
    · refine ⟨before, after ++ [e], by simp, hfirst, code, hcode.imp_right fun hsub => ?_⟩
      exact hsub.trans (List.sublist_append_left _ _)
    · obtain ⟨before, after, rfl, hfirst⟩ := List.eq_append_cons_of_mem h
      refine ⟨before, after ++ [.timer], by simp, hfirst, code, ?_⟩
      rcases List.mem_append.1 hcode with hcode | hcode
      · exact .inl hcode
      · have hafter := (List.mem_cons.1 hcode).resolve_left nofun
        exact .inr ((List.singleton_sublist.2 hafter).append (List.Sublist.refl [WriteEvent.timer]))

end

/-! ## The entry of the child in the process table -/

section

variable {lo hi : List ProcInfo} {pid : Nat} {fd : Int}

/-- No other entry has the pid or the descriptor. -/
def Unrelated (pid : Nat) (fd : Int) (infos : List ProcInfo) : Prop :=
  ∀ info ∈ infos, info.pid ≠ pid ∧ info.fd ≠ some fd

theorem Unrelated.find?_pid (h : Unrelated pid fd lo) (f : Option Int)
    (code : Option (BitVec 32)) :
    (lo ++ ⟨pid, f, code⟩ :: hi).find? (·.pid = pid) = some ⟨pid, f, code⟩ := by
  have hnone : lo.find? (·.pid = pid) = none :=
    List.find?_eq_none.2 fun info hinfo => by simpa using (h info hinfo).1
  rw [List.find?_append, hnone, Option.none_or, List.find?_cons_of_pos (by simp)]

theorem Unrelated.find?_fd (h : Unrelated pid fd lo) (code : Option (BitVec 32)) :
    (lo ++ ⟨pid, some fd, code⟩ :: hi).find? (·.fd = some fd) = some ⟨pid, some fd, code⟩ := by
  have hnone : lo.find? (·.fd = some fd) = none :=
    List.find?_eq_none.2 fun info hinfo => by simpa using (h info hinfo).2
  rw [List.find?_append, hnone, Option.none_or, List.find?_cons_of_pos (by simp)]

theorem Unrelated.map_pid {infos : List ProcInfo} (h : Unrelated pid fd infos)
    (g : ProcInfo → ProcInfo) :
    (infos.map fun info => if info.pid = pid then g info else info) = infos :=
  (List.map_congr_left fun info hinfo => if_neg (h info hinfo).1).trans (List.map_id _)

theorem map_entry (hlo : Unrelated pid fd lo) (hhi : Unrelated pid fd hi)
    (g : ProcInfo → ProcInfo) (f : Option Int) (code : Option (BitVec 32)) :
    ((lo ++ ⟨pid, f, code⟩ :: hi).map fun info => if info.pid = pid then g info else info) =
      lo ++ g ⟨pid, f, code⟩ :: hi := by
  rw [List.map_append, List.map_cons, hlo.map_pid, hhi.map_pid, if_pos rfl]

theorem Unrelated.clearPidForFd (h : Unrelated pid fd lo) (code : Option (BitVec 32)) :
    clearPidForFd fd (lo ++ ⟨pid, some fd, code⟩ :: hi) = lo ++ ⟨pid, none, code⟩ :: hi := by
  induction lo with
  | nil => exact if_pos rfl
  | cons info lo ih =>
    have hne := (h info List.mem_cons_self).2
    rw [List.cons_append, Popen.clearPidForFd, if_neg hne,
      ih fun info hinfo => h info (List.mem_cons_of_mem _ hinfo)]
    rfl

end

/-- Only `pclose` and the timer make `wasm_pclose` return. -/
theorem completes_concat_of_ne (events : List WriteEvent) {e : WriteEvent}
    (hpclose : e ≠ .pclose) (htimer : e ≠ .timer) :
    Completes (events ++ [e]) ↔ Completes events := by
  by_cases hmem : WriteEvent.pclose ∈ events
  · rw [completes_concat_of_mem hmem]
    exact or_iff_left fun h => htimer h.1
  · rw [completes_concat_of_notMem hmem]
    exact iff_of_false (fun h => hpclose h.1) (not_completes_of_notMem hmem)

/-! ## What happens after a call that succeeded -/

namespace PopenWrite

variable {δ : Type u}

/-- The state after some events.  `t` is the table when the call returned, and `lo` and `hi` are the
other entries of the process table. -/
structure Tracked (t : FdTable δ) (pid : Nat) (fd : Int) (childFds : List Int)
    (lo hi : List ProcInfo) (events : List WriteEvent) (s : PopenWrite δ) : Prop where
  table : s.processTable = lo ++ ⟨pid, s.file, s.exited⟩ :: hi
  child_eq : s.child = some pid
  childFds_eq : s.childFds = childFds
  file_eq : s.file = if WriteEvent.pclose ∈ events then none else some fd
  exited_iff : s.exited ≠ none ↔ ∃ code, WriteEvent.exit code ∈ events
  get_eq : ∀ x, s.fds.get x =
    if (s.exited ≠ none ∧ x ∈ childFds) ∨ (s.file = none ∧ x = fd) then none else t.get x
  waiting_eq : s.waiting = if s.file = none ∧ s.pcloseRet = none then some pid else none
  ret : ∀ code, s.pcloseRet = some code → s.exited = some code
  completes : s.pcloseRet ≠ none ↔ Completes events

variable {t : FdTable δ} {pid : Nat} {fd : Int} {childFds : List Int} {lo hi : List ProcInfo}
  {events : List WriteEvent} {s : PopenWrite δ}

theorem mem_concat_of_ne (events : List WriteEvent) {e e' : WriteEvent} (h : e' ≠ e) :
    e' ∈ events ++ [e] ↔ e' ∈ events := by
  rw [List.mem_append, List.mem_singleton, or_iff_left h]

/-- An event that is neither an exit nor a `pclose`, and does not change the state. -/
theorem Tracked.same (h : s.Tracked t pid fd childFds lo hi events) {e : WriteEvent}
    (hexit : ∀ code, e ≠ .exit code) (hpclose : e ≠ .pclose)
    (hcompletes : Completes (events ++ [e]) ↔ Completes events) :
    s.Tracked t pid fd childFds lo hi (events ++ [e]) := by
  refine ⟨h.table, h.child_eq, h.childFds_eq, ?_, ?_, h.get_eq, h.waiting_eq, h.ret,
    h.completes.trans hcompletes.symm⟩
  · rw [h.file_eq]
    exact if_congr (mem_concat_of_ne events hpclose.symm).symm rfl rfl
  · rw [h.exited_iff]
    exact exists_congr fun code => (mem_concat_of_ne events (hexit code).symm).symm

/-- What the `exit` handler does. -/
theorem onExit_eq (hlo : Unrelated pid fd lo) (hhi : Unrelated pid fd hi) {f : Option Int}
    (hchild : s.child = some pid) (hexited : s.exited = none)
    (htable : s.processTable = lo ++ ⟨pid, f, none⟩ :: hi) (code : BitVec 32) :
    s.onExit code =
      { s with
        fds := s.fds.closeAll s.childFds
        processTable := lo ++ ⟨pid, f, some code⟩ :: hi
        exited := some code } := by
  rw [PopenWrite.onExit, hchild, hexited]
  dsimp only
  rw [htable, exitProcess, map_entry hlo hhi fun info => { info with exitCode := some code }]

/-- The child exits. -/
theorem Tracked.onExit (h : s.Tracked t pid fd childFds lo hi events)
    (hlo : Unrelated pid fd lo) (hhi : Unrelated pid fd hi) (code : BitVec 32) :
    (s.onExit code).Tracked t pid fd childFds lo hi (events ++ [.exit code]) := by
  have hfile : s.file = if WriteEvent.pclose ∈ events ++ [.exit code] then none else some fd := by
    have hiff := mem_concat_of_ne events (show WriteEvent.pclose ≠ .exit code from nofun)
    rw [h.file_eq]
    exact if_congr hiff.symm rfl rfl
  have hcompletes := h.completes.trans
    (completes_concat_of_ne events (e := .exit code) nofun nofun).symm
  have hmem : ∃ code', WriteEvent.exit code' ∈ events ++ [.exit code] :=
    ⟨code, List.mem_append_right _ (List.mem_singleton_self _)⟩
  cases hexited : s.exited with
  | some earlier =>
    have hsome : s.exited ≠ none := by
      rw [hexited]
      exact nofun
    have hsame : s.onExit code = s := by
      rw [PopenWrite.onExit, h.child_eq, hexited]
    rw [hsame]
    exact ⟨h.table, h.child_eq, h.childFds_eq, hfile, iff_of_true hsome hmem, h.get_eq,
      h.waiting_eq, h.ret, hcompletes⟩
  | none =>
    have htable := h.table
    rw [hexited] at htable
    rw [onExit_eq hlo hhi h.child_eq hexited htable]
    refine ⟨rfl, h.child_eq, h.childFds_eq, hfile, iff_of_true nofun hmem, fun x => ?_,
      h.waiting_eq, fun code' hret => ?_, hcompletes⟩
    · dsimp only
      rw [get_closeAll, h.get_eq, h.childFds_eq, hexited]
      by_cases hx : x ∈ childFds <;> simp [hx]
    · have hnone := h.ret code' hret
      rw [hexited] at hnone
      cases hnone

/-- One turn of `poll`. -/
theorem poll_eq (hlo : Unrelated pid fd lo) {f : Option Int} {code : Option (BitVec 32)}
    (htable : s.processTable = lo ++ ⟨pid, f, code⟩ :: hi) :
    s.poll pid =
      { s with
        waiting := code.elim (some pid) fun _ => none
        pcloseRet := code.or s.pcloseRet } := by
  have hcode : (s.processTable.find? (·.pid = pid)).bind ProcInfo.exitCode = code := by
    rw [htable, hlo.find?_pid]
    rfl
  rw [PopenWrite.poll, hcode]
  cases code <;> rfl

/-- `wasm_pclose` of the `FILE *` that is open. -/
theorem Tracked.wasmPclose_eq (h : s.Tracked t pid fd childFds lo hi events)
    (hlo : Unrelated pid fd lo) (hfile : s.file = some fd) :
    s.wasmPclose =
      { s with
        processTable := lo ++ ⟨pid, none, s.exited⟩ :: hi
        fds := s.fds.close fd
        file := none
        waiting := s.exited.elim (some pid) fun _ => none
        pcloseRet := s.exited.or s.pcloseRet } := by
  have htable := h.table
  rw [hfile] at htable
  have hget : getPidForFd fd s.processTable = pid := by
    rw [getPidForFd, htable, hlo.find?_fd]
  have hclear : s.onTable (clearPidForFd fd) =
      { s with processTable := lo ++ ⟨pid, none, s.exited⟩ :: hi } := by
    rw [onTable, htable, hlo.clearPidForFd]
  have hneg : ¬(pid : Int) < 0 := by omega
  have hfind : (lo ++ ⟨pid, none, s.exited⟩ :: hi).find? (·.pid = pid) ≠ none := by
    rw [hlo.find?_pid]
    exact nofun
  rw [PopenWrite.wasmPclose, hfile]
  dsimp only
  rw [hget, hclear, if_neg hneg, Int.toNat_natCast, if_neg hfind, poll_eq hlo rfl]

/-- PHP calls `wasm_pclose`. -/
theorem Tracked.wasmPclose (h : s.Tracked t pid fd childFds lo hi events)
    (hlo : Unrelated pid fd lo) :
    s.wasmPclose.Tracked t pid fd childFds lo hi (events ++ [.pclose]) := by
  have hlast : WriteEvent.pclose ∈ events ++ [.pclose] :=
    List.mem_append_right _ (List.mem_singleton_self _)
  have hexit : s.exited ≠ none ↔ ∃ code, WriteEvent.exit code ∈ events ++ [.pclose] := by
    rw [h.exited_iff]
    refine exists_congr fun code => (mem_concat_of_ne events ?_).symm
    exact nofun
  have hfile := h.file_eq
  by_cases hmem : WriteEvent.pclose ∈ events
  · -- the `FILE *` is closed already
    rw [if_pos hmem] at hfile
    have hcompletes : Completes (events ++ [.pclose]) ↔ Completes events :=
      (completes_concat_of_mem hmem).trans (or_iff_left fun h => nomatch h.1)
    rw [PopenWrite.wasmPclose, hfile]
    refine ⟨h.table, h.child_eq, h.childFds_eq, ?_, hexit, h.get_eq, h.waiting_eq, h.ret,
      h.completes.trans hcompletes.symm⟩
    rw [if_pos hlast, hfile]
  · rw [if_neg hmem] at hfile
    have hret : s.pcloseRet = none :=
      not_not.1 fun hne => not_completes_of_notMem hmem (h.completes.1 hne)
    rw [h.wasmPclose_eq hlo hfile, hret]
    refine ⟨rfl, h.child_eq, h.childFds_eq, (if_pos hlast).symm, hexit, fun x => ?_, ?_,
      fun code hcode => ?_, ?_⟩
    · dsimp only
      rw [get_close, h.get_eq, hfile]
      by_cases hx : x = fd <;> simp [hx]
    · cases s.exited <;> rfl
    · rwa [Option.or_none] at hcode
    · rw [completes_concat_of_notMem hmem, ← h.exited_iff, Option.or_none]
      exact (and_iff_right rfl).symm

/-- The timer fires. -/
theorem Tracked.timer (h : s.Tracked t pid fd childFds lo hi events) (hlo : Unrelated pid fd lo) :
    (s.step .timer).Tracked t pid fd childFds lo hi (events ++ [.timer]) := by
  have hwaiting := h.waiting_eq
  rw [step]
  by_cases hmem : WriteEvent.pclose ∈ events
  · have hfile := h.file_eq
    rw [if_pos hmem] at hfile
    by_cases hret : s.pcloseRet = none
    · -- `wasm_pclose` is waiting
      rw [if_pos ⟨hfile, hret⟩] at hwaiting
      have hkept : WriteEvent.pclose ∈ events ++ [.timer] := List.mem_append_left _ hmem
      have hexit : s.exited ≠ none ↔ ∃ code, WriteEvent.exit code ∈ events ++ [.timer] := by
        rw [h.exited_iff]
        refine exists_congr fun code => (mem_concat_of_ne events ?_).symm
        exact nofun
      have hnot : ¬ Completes events := fun hc => h.completes.2 hc hret
      rw [hwaiting, Option.elim_some, poll_eq hlo h.table, hret]
      refine ⟨h.table, h.child_eq, h.childFds_eq, ?_, hexit, h.get_eq, ?_, fun code hcode => ?_, ?_⟩
      · rw [if_pos hkept]
        exact hfile
      · rw [hfile]
        cases s.exited <;> rfl
      · rwa [Option.or_none] at hcode
      · rw [completes_concat_of_mem hmem, or_iff_right hnot, ← h.exited_iff, Option.or_none]
        exact (and_iff_right rfl).symm
    · -- it has returned
      rw [if_neg fun hboth => hret hboth.2] at hwaiting
      rw [hwaiting]
      refine h.same nofun nofun ((completes_concat_of_mem hmem).trans (or_iff_left_of_imp ?_))
      exact fun _ => h.completes.1 hret
  · -- it was not called
    have hfile := h.file_eq
    rw [if_neg hmem] at hfile
    rw [if_neg fun hboth => by rw [hfile] at hboth; exact nomatch hboth.1] at hwaiting
    rw [hwaiting]
    refine h.same nofun nofun (iff_of_false ?_ (not_completes_of_notMem hmem))
    exact fun hc => nomatch ((completes_concat_of_notMem hmem).1 hc).1

/-- **One event.** -/
theorem Tracked.step (h : s.Tracked t pid fd childFds lo hi events) (hlo : Unrelated pid fd lo)
    (hhi : Unrelated pid fd hi) (e : WriteEvent) :
    (s.step e).Tracked t pid fd childFds lo hi (events ++ [e]) := by
  cases e with
  | write data =>
    exact h.same nofun nofun (completes_concat_of_ne events nofun nofun)
  | output data =>
    exact h.same nofun nofun (completes_concat_of_ne events nofun nofun)
  | exit code => exact h.onExit hlo hhi code
  | pclose => exact h.wasmPclose hlo
  | timer => exact h.timer hlo

/-- **All events.** -/
theorem Tracked.run (h : s.Tracked t pid fd childFds lo hi events) (hlo : Unrelated pid fd lo)
    (hhi : Unrelated pid fd hi) (more : List WriteEvent) :
    (Machine.run PopenWrite.step s more).Tracked t pid fd childFds lo hi (events ++ more) := by
  induction more generalizing s events with
  | nil => rwa [List.append_nil]
  | cons e more ih =>
    rw [Machine.run_cons, List.append_cons]
    exact ih (h.step hlo hhi e)

end PopenWrite

/-! ## The call -/

section

variable {δ : Type u} {before : BeforePopen δ} {call : WriteCall δ} {out err inp : Int × Int}
  {t t₁ t₂ : FdTable δ}

/-- The pipes can only be made in one way. -/
theorem PipesMade.eq {out' err' inp' : Int × Int} {t' : FdTable δ}
    (h : PipesMade before call out err inp t) (h' : PipesMade before call out' err' inp' t') :
    out = out' ∧ err = err' ∧ inp = inp' ∧ t = t' := by
  obtain ⟨t₁, t₂, hout, herr, hinp⟩ := h
  obtain ⟨t₁', t₂', hout', herr', hinp'⟩ := h'
  rw [hout] at hout'
  obtain ⟨hout₁, rfl⟩ := Prod.mk.inj hout'
  rw [herr] at herr'
  obtain ⟨herr₁, rfl⟩ := Prod.mk.inj herr'
  rw [hinp] at hinp'
  obtain ⟨hinp₁, rfl⟩ := Prod.mk.inj hinp'
  exact ⟨Option.some.inj hout₁, Option.some.inj herr₁, Option.some.inj hinp₁, rfl⟩

/-- The call, once the pipes are made. -/
theorem afterPopen_of_pipes (h : PipesMade before call out err inp t) :
    afterPopen before call =
      let s : PopenWrite δ := { before.state with fds := t }
      if call.fdopen = false then s
      else
        let s := { s with file := some inp.2 }
        let (pid, s) := s.jsOpenProcess call.cmd [inp, out, err] call.spawn
        s.onTable (setPidForFd inp.2 pid) := by
  obtain ⟨t₁, t₂, hout, herr, hinp⟩ := h
  rw [afterPopen, PopenWrite.wasmPopen]
  have hfirst : before.state.fds.sysPipe call.stdoutPipe = (some out, t₁) := hout
  rw [hfirst]
  dsimp only
  rw [herr]
  dsimp only
  rw [hinp]

/-- The table that a pipe is made in is what `sysPipe` leaves. -/
theorem sysPipe_eq {t : FdTable δ} {ends : Option (δ × δ)} {p : Int × Int}
    (h : (t.sysPipe ends).1 = some p) : t.sysPipe ends = (some p, (t.sysPipe ends).2) := by
  rw [← h]

/-- What the pipes leave in the table. -/
theorem PipesMade.opened (h : PipesMade before call out err inp t) :
    Opened before.fds t [out.1, out.2, err.1, err.2, inp.1, inp.2] := by
  obtain ⟨t₁, t₂, hout, herr, hinp⟩ := h
  have hstep : ∀ {t t' : FdTable δ} {fds ends} {p : Int × Int}, Opened before.fds t fds →
      t.sysPipe ends = (some p, t') → Opened before.fds t' (fds ++ [p.1, p.2]) := by
    intro t t' fds ends p hopened heq
    rcases hopened.sysPipe ends with hnone | ⟨r, w, t'', hsome, hopened'⟩
    · rw [heq] at hnone
      cases hnone
    · rw [heq] at hsome
      cases hsome
      exact hopened'
  exact hstep (hstep (hstep (Opened.refl _) hout) herr) hinp

/-- `js_open_process` without a child changes nothing. -/
theorem jsOpenProcess_of_not_starts (h : ¬ call.Starts) (descv : List (Int × Int))
    (s : PopenWrite δ) : s.jsOpenProcess call.cmd descv call.spawn = (-1, s) := by
  by_cases hcmd : call.cmd = []
  · exact if_pos hcmd
  · have hspawn : call.spawn = .fails := not_not.1 fun hne => h ⟨hcmd, hne⟩
    rw [hspawn]
    exact if_neg hcmd

/-- **The call, when something cannot be created**: only if the first pipe cannot be made is
everything as it was. -/
theorem afterPopen_of_not_made (h : ¬ AllMade before call) :
    ((afterPopen before call).file = none ∧ (afterPopen before call).fds = before.fds) ↔
      (before.fds.sysPipe call.stdoutPipe).1 = none := by
  have hlost : ∀ {fd fds}, Opened before.fds (afterPopen before call).fds (fd :: fds) →
      ¬((afterPopen before call).file = none ∧ (afterPopen before call).fds = before.fds) :=
    fun hopened hsame => List.cons_ne_nil _ _ (hopened.eq_iff.1 hsame.2)
  rcases (Opened.refl before.fds).sysPipe call.stdoutPipe with hout | ⟨r, w, t₁, hout, hopened₁⟩
  · have hafter : afterPopen before call = before.state := by
      rw [afterPopen, PopenWrite.wasmPopen]
      have hfirst : before.state.fds.sysPipe call.stdoutPipe = (none, before.fds) := hout
      rw [hfirst]
      rfl
    rw [hafter, hout]
    exact iff_of_true ⟨rfl, rfl⟩ rfl
  rw [hout]
  refine iff_of_false ?_ nofun
  rcases hopened₁.sysPipe call.stderrPipe with herr | ⟨r', w', t₂, herr, hopened₂⟩
  · have hafter : (afterPopen before call).fds = t₁ := by
      rw [afterPopen, PopenWrite.wasmPopen]
      have hfirst : before.state.fds.sysPipe call.stdoutPipe = (some (r, w), t₁) := hout
      rw [hfirst]
      dsimp only
      rw [herr]
    exact hlost (hafter ▸ hopened₁)
  rcases hopened₂.sysPipe call.stdinPipe with hinp | ⟨r'', w'', t, hinp, -⟩
  · have hafter : (afterPopen before call).fds = t₂ := by
      rw [afterPopen, PopenWrite.wasmPopen]
      have hfirst : before.state.fds.sysPipe call.stdoutPipe = (some (r, w), t₁) := hout
      rw [hfirst]
      dsimp only
      rw [herr]
      dsimp only
      rw [hinp]
    exact hlost (hafter ▸ hopened₂)
  · have hpipes : PipesMade before call (r, w) (r', w') (r'', w'') t := ⟨t₁, t₂, hout, herr, hinp⟩
    have hafter : (afterPopen before call).fds = t := by
      rw [afterPopen_of_pipes hpipes]
      dsimp only
      split
      · rfl
      · rename_i hfile
        rw [jsOpenProcess_of_not_starts fun hstarts => h
          ⟨⟨_, _, _, _, hpipes⟩, eq_true_of_ne_false hfile, hstarts⟩]
        rfl
    exact hlost (hafter ▸ hpipes.opened)

/-- What `js_popen_set_pid_for_fd` does to the entry of the child. -/
theorem onTable_setPidForFd {lo hi : List ProcInfo} {pid : Nat} {fd : Int}
    (hlo : Unrelated pid fd lo) (hhi : Unrelated pid fd hi) {f : Option Int}
    {code : Option (BitVec 32)} {s : PopenWrite δ}
    (htable : s.processTable = lo ++ ⟨pid, f, code⟩ :: hi) :
    s.onTable (setPidForFd fd pid) =
      { s with processTable := lo ++ ⟨pid, some fd, code⟩ :: hi } := by
  have hmap := map_entry hlo hhi (fun info => { info with fd := some fd }) f code
  rw [PopenWrite.onTable, htable, setPidForFd]
  simp only [Int.natCast_inj, hmap]

/-- **The call, when everything can be created.** -/
theorem afterPopen_of_made (h : PipesMade before call out err inp t) (hfile : call.fdopen = true)
    (hstarts : call.Starts) :
    ∃ pid lo hi s, Unrelated pid inp.2 lo ∧ Unrelated pid inp.2 hi ∧
      s.Tracked t pid inp.2 [inp.1, out.1, err.1] lo hi [] ∧
      afterPopen before call = Machine.run PopenWrite.step s call.early := by
  obtain ⟨hcmd, hspawn⟩ := hstarts
  have hfree : before.fds.get inp.2 = none := h.opened.free _ (by simp)
  have hother : ∀ info ∈ before.processTable, info.fd ≠ some inp.2 := fun info hinfo hfd =>
    before.live info hinfo inp.2 hfd hfree
  cases hs : call.spawn with
  | fails => exact absurd hs hspawn
  | starts pid early =>
    have hlo : Unrelated pid inp.2 (before.processTable.filter (·.pid < pid)) := by
      intro info hinfo
      obtain ⟨hmem, hlt⟩ := List.mem_filter.1 hinfo
      exact ⟨Nat.ne_of_lt (of_decide_eq_true hlt), hother info hmem⟩
    have hhi : Unrelated pid inp.2 (before.processTable.filter (pid < ·.pid)) := by
      intro info hinfo
      obtain ⟨hmem, hlt⟩ := List.mem_filter.1 hinfo
      exact ⟨Nat.ne_of_gt (of_decide_eq_true hlt), hother info hmem⟩
    let s : PopenWrite δ := ⟨t, before.processTable.filter (·.pid < pid) ++
      ⟨pid, some inp.2, none⟩ :: before.processTable.filter (pid < ·.pid), some inp.2, some pid,
      [inp.1, out.1, err.1], none, none, none⟩
    refine ⟨pid, _, _, s, hlo, hhi, ?_, ?_⟩
    · refine ⟨rfl, rfl, rfl, rfl, by simp [s], fun x => by simp [s], rfl, nofun, ?_⟩
      exact iff_of_false (fun hne => hne rfl) (not_completes_of_notMem List.not_mem_nil)
    · have hopen : ∀ s : PopenWrite δ,
          s.jsOpenProcess call.cmd [inp, out, err] (.starts pid early) =
            (↑pid, early.elim (s.withChild pid [inp, out, err])
              (s.withChild pid [inp, out, err]).onExit) :=
        fun s => if_neg hcmd
      rw [afterPopen_of_pipes h, hs, WriteCall.early, hs]
      dsimp only
      rw [if_neg (by rw [hfile]; exact nofun), hopen]
      dsimp only
      cases early with
      | none => exact onTable_setPidForFd hlo hhi rfl
      | some code =>
        -- the exit handler and the assignment of `fd` change different properties of the entry
        let opened : PopenWrite δ := { before.state with fds := t, file := some inp.2 }
        have hearly : (opened.withChild pid [inp, out, err]).onExit code = _ :=
          PopenWrite.onExit_eq hlo hhi rfl rfl rfl code
        refine (congrArg _ hearly).trans ((onTable_setPidForFd hlo hhi rfl).trans ?_)
        exact (PopenWrite.onExit_eq (s := s) hlo hhi rfl rfl rfl code).symm

/-- Some events after a call that succeeded. -/
theorem tracked_afterRun (h : PipesMade before call out err inp t) (hfile : call.fdopen = true)
    (hstarts : call.Starts) (events : List WriteEvent) :
    ∃ pid lo hi, (afterRun before call events).Tracked t pid inp.2 [inp.1, out.1, err.1] lo hi
      (call.early ++ events) := by
  obtain ⟨pid, lo, hi, s, hlo, hhi, htracked, hafter⟩ := afterPopen_of_made h hfile hstarts
  refine ⟨pid, lo, hi, ?_⟩
  rw [afterRun, hafter, ← Machine.run_append]
  exact htracked.run hlo hhi (call.early ++ events)

/-- **What is left open** when `wasm_pclose` has returned: the writing ends of the pipes for
output. -/
theorem get_of_completes (h : PipesMade before call out err inp t) (hfile : call.fdopen = true)
    (hstarts : call.Starts) {events : List WriteEvent}
    (hcompletes : Completes (call.early ++ events)) (fd : Int) :
    (afterRun before call events).fds.get fd =
      if fd = out.2 ∨ fd = err.2 then t.get fd else before.fds.get fd := by
  obtain ⟨pid, lo, hi, htracked⟩ := tracked_afterRun h hfile hstarts events
  obtain ⟨code, hret⟩ := Option.ne_none_iff_exists'.1 (htracked.completes.2 hcompletes)
  have hexited : (afterRun before call events).exited ≠ none := by
    rw [htracked.ret code hret]
    exact nofun
  have hclosed : (afterRun before call events).file = none := by
    rw [htracked.file_eq, if_pos]
    obtain ⟨earlier, later, heq, -⟩ := hcompletes
    rw [heq]
    exact List.mem_append_right _ List.mem_cons_self
  have hopened := h.opened
  have hnodup := hopened.nodup
  have hclosings : ((afterRun before call events).exited ≠ none ∧ fd ∈ [inp.1, out.1, err.1]) ∨
      ((afterRun before call events).file = none ∧ fd = inp.2) ↔
      (fd = inp.1 ∨ fd = out.1 ∨ fd = err.1) ∨ fd = inp.2 := by
    simp [hexited, hclosed]
  simp only [List.nodup_cons, List.mem_cons, List.not_mem_nil, or_false, not_or] at hnodup
  rw [htracked.get_eq, if_congr hclosings rfl rfl]
  by_cases hkept : fd = out.2 ∨ fd = err.2
  · rw [if_pos hkept, if_neg]
    -- the ends of three pipes are six descriptors
    grind
  · rw [if_neg hkept]
    split
    · rename_i hend
      exact (hopened.free fd (by simp; omega)).symm
    · rename_i hother
      exact hopened.frame fd (by simp; omega)

/-- **When the descriptors are accounted for.** -/
theorem popenRight_iff (before : BeforePopen δ) (call : WriteCall δ) (events : List WriteEvent) :
    PopenRight before call events ↔
      (before.fds.sysPipe call.stdoutPipe).1 = none ∨
        (AllMade before call ∧ ¬ Completes (call.early ++ events)) := by
  by_cases hmade : AllMade before call
  · have ⟨⟨out, err, inp, t, hpipes⟩, hfile, hstarts⟩ := hmade
    obtain ⟨pid, lo, hi, htracked⟩ := tracked_afterRun hpipes hfile hstarts events
    have hfirst : (before.fds.sysPipe call.stdoutPipe).1 ≠ none := by
      obtain ⟨t₁, t₂, hout, -, -⟩ := hpipes
      rw [hout]
      exact nofun
    rw [or_iff_right hfirst, and_iff_right hmade]
    constructor
    · intro hright hcompletes
      -- the writing end of the first pipe is open
      have hnone := hright.closed hmade (htracked.completes.2 hcompletes) ?_ out.2
        (hpipes.opened.free _ (by simp))
      · rw [get_of_completes hpipes hfile hstarts hcompletes, if_pos (.inl rfl)] at hnone
        exact hpipes.opened.live _ (by simp) hnone
      · obtain ⟨code, hret⟩ := Option.ne_none_iff_exists'.1 (htracked.completes.2 hcompletes)
        rw [htracked.ret code hret]
        exact nofun
    · intro hnot
      exact ⟨fun h => absurd hmade h, fun _ hret => absurd (htracked.completes.1 hret) hnot,
        fun _ => htracked.ret⟩
  · rw [← afterPopen_of_not_made hmade, or_iff_left fun h => hmade h.1]
    exact ⟨fun h => h.failed hmade, fun h => ⟨fun _ => h, fun h => absurd h hmade,
      fun h => absurd h hmade⟩⟩

end

/-- A command that is spawned and exits with 3: after `wasm_pclose` two of the six descriptors are
open.  A command that is not spawned: the answer is a `FILE *`. -/
theorem popen_leaves_pipes :
    let before : BeforePopen Unit := ⟨.empty 8, [], by decide⟩
    let call : WriteCall Unit :=
      ⟨bytes "cat", some ((), ()), some ((), ()), some ((), ()), true, .starts 7 none⟩
    (afterRun before call [.exit 3, .pclose]).pcloseRet = some 3 ∧
      [0, 1, 2, 3, 4, 5].filter (fun fd =>
        ((afterRun before call [.exit 3, .pclose]).fds.get fd).isSome) = [1, 3] ∧
      ¬ PopenRight before call [.exit 3, .pclose] ∧
      (afterPopen before { call with spawn := .fails }).file = some 5 ∧
      ¬ PopenRight before { call with spawn := .fails } [] := by
  intro before call
  let t₁ := (before.fds.sysPipe call.stdoutPipe).2
  let t₂ := (t₁.sysPipe call.stderrPipe).2
  have hpipes : PipesMade before call (0, 1) (2, 3) (4, 5) (t₂.sysPipe call.stdinPipe).2 :=
    ⟨t₁, t₂, sysPipe_eq (by decide), sysPipe_eq (by decide), sysPipe_eq (by decide)⟩
  have hmade : AllMade before call := ⟨⟨_, _, _, _, hpipes⟩, rfl, by decide, nofun⟩
  have hret : (afterRun before call [.exit 3, .pclose]).pcloseRet = some 3 := by decide
  have hexited : (afterRun before call [.exit 3, .pclose]).exited = some 3 := by decide
  have hopen : (afterRun before call [.exit 3, .pclose]).fds.get 1 = some () := by decide
  have hfile : (afterPopen before { call with spawn := .fails }).file = some 5 := by decide
  refine ⟨hret, by decide, fun h => ?_, hfile, fun h => ?_⟩
  · have hclosed := h.closed hmade (hret ▸ nofun) (hexited ▸ nofun) 1 rfl
    rw [hopen] at hclosed
    cases hclosed
  · have hnone := (h.failed fun hall => hall.2.2.2 rfl).1
    rw [hfile] at hnone
    cases hnone

end PhpWasm.Popen
