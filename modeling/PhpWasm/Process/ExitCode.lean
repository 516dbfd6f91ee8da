import PhpWasm.Base.Heap
import PhpWasm.Base.Run
import PhpWasm.Sapi.Context

/-!
# The exit code of a child process

PHP learns the exit code of a child in two ways.  `proc_get_status` asks `js_process_status`, which
hands out the code as it is.  `proc_close` runs the destructor of the process resource, which asks
`js_waitpid` for the same number but then takes it apart with the macros of `wait(2)`, as if it
were a wait status.

* `recordStatus_eq_iff`: the macros give a code back unchanged just when it is `0` or no multiple
  of 128.
* `Children` is the state the two functions share: the `ProcInfo` objects of JavaScript, the table
  that finds them by pid, the process handles and the two globals of PHP.  Beside it stands what the
  children said when they exited, which is what the two functions are held to.
* `Children.agrees_of_careful`: in a run in which no pid of an open handle is handed out again, no
  child exits before it is listened to, no closed child has a code the macros destroy and no handle
  is left to the garbage collector, the two ways agree on the code of the handle's own child.
-/

set_option autoImplicit false

namespace PhpWasm.Process

open Memory

/-! ## The macros of `wait(2)` -/

/-- `WTERMSIG(s)`. -/
def wtermsig (s : BitVec 32) : BitVec 32 := s &&& 0x7f#32

/-- `WIFEXITED(s)`. -/
def wifexited (s : BitVec 32) : Bool := wtermsig s = 0

/-- `WEXITSTATUS(s)`. -/
def wexitstatus (s : BitVec 32) : BitVec 32 := (s &&& 0xff00#32).sshiftRight 8

/-- What the destructor leaves in `FG(pclose_ret)`, by the values of its locals `wait_pid` and
`wstatus`. -/
def recordStatus (waitPid : Int) (wstatus : BitVec 32) : BitVec 32 :=
  if waitPid ≤ 0 then -1
  else if wifexited wstatus then wexitstatus wstatus
  else wstatus

/-- The exit codes that are read back from a wait status as they went in. -/
def Survives (code : BitVec 32) : Prop := code = 0 ∨ code.toNat % 128 ≠ 0

instance (code : BitVec 32) : Decidable (Survives code) := inferInstanceAs (Decidable (_ ∨ _))

theorem wifexited_iff (s : BitVec 32) : wifexited s = true ↔ s.toNat % 128 = 0 := by
  have h : (wtermsig s).toNat = s.toNat % 128 := by
    rw [wtermsig, BitVec.toNat_and]
    exact Nat.and_two_pow_sub_one_eq_mod s.toNat 7
  rw [wifexited, decide_eq_true_iff, ← BitVec.toNat_inj, h]
  rfl

theorem wexitstatus_lt (s : BitVec 32) : (wexitstatus s).toNat < 256 := by
  have hle : (s &&& 0xff00#32).toNat ≤ 0xff00 := by
    rw [BitVec.toNat_and]
    exact Nat.and_le_right
  have hmsb : (s &&& 0xff00#32).msb = false := by
    rw [BitVec.msb_eq_false_iff_two_mul_lt]
    omega
  rw [wexitstatus, BitVec.sshiftRight_eq_of_msb_false hmsb, BitVec.toNat_ushiftRight,
    Nat.shiftRight_eq_div_pow]
  omega

/-- **When the decoded wait status is the code that was put in**: the code is 0 or has one of its
low seven bits set. -/
theorem recordStatus_eq_iff {waitPid : Int} (hpid : 0 < waitPid) (code : BitVec 32) :
    recordStatus waitPid code = code ↔ Survives code := by
  rw [recordStatus, if_neg (by omega), Survives]
  by_cases hmod : code.toNat % 128 = 0
  · rw [if_pos ((wifexited_iff code).2 hmod)]
    constructor
    · intro heq
      have hlt := wexitstatus_lt code
      rw [heq] at hlt
      -- the only multiples of 128 below 256
      have hcases : code.toNat = 0 ∨ code.toNat = 128 := by omega
      rcases hcases with h0 | h128
      · exact Or.inl (BitVec.eq_of_toNat_eq h0)
      · have : code = 128#32 := BitVec.eq_of_toNat_eq h128
        subst this
        exact absurd heq (by decide)
    · rintro (rfl | hne)
      · decide
      · exact absurd hmod hne
  · rw [if_neg (fun h => hmod ((wifexited_iff code).1 h))]
    exact ⟨fun _ => Or.inr hmod, fun _ => rfl⟩

/-! ## The state -/

/-- `ProcInfo`, the object `js_open_process` makes for a child.  The code is there once the child
has exited. -/
structure ProcInfo where
  pid : Int
  exited : Bool
  exitCode : BitVec 32

/-- The code, if it is there. -/
def ProcInfo.code (info : ProcInfo) : Option (BitVec 32) :=
  if info.exited then some info.exitCode else none

/-- `struct php_process_handle`.  The last field is not in the C code: it is the child that the
handle was opened for, which the code only knows by its pid. -/
structure ProcessHandle where
  command : CString
  child : Int
  procInfo : Ptr

/-- What `proc_open`, `proc_get_status`, `proc_close` and the exit handlers share. -/
structure Children where
  /-- The `ProcInfo` objects. -/
  infos : Heap ProcInfo
  /-- `PHPWASM.processTable`. -/
  processTable : Int → Option Ptr
  /-- The process resources of PHP that were not freed. -/
  handles : Heap ProcessHandle
  /-- `FG(pclose_wait)`. -/
  pcloseWait : Bool
  /-- `FG(pclose_ret)`. -/
  pcloseRet : BitVec 32
  /-- The handle in whose `proc_close` PHP is suspended, if it is. -/
  waiting : Option Ptr
  /-- The code of the `exit` event of a child, once it was emitted.  The children are numbered like
  their `ProcInfo` objects; the code does not keep this. -/
  emitted : Ptr → Option (BitVec 32)

/-- Before the first child. -/
def Children.init : Children :=
  ⟨.empty, fun _ => none, .empty, false, 0, none, fun _ => none⟩

/-- The array `proc_get_status` returns. -/
structure Status where
  command : CString
  pid : Int
  running : Bool
  signaled : Bool
  stopped : Bool
  exitcode : Int
  termsig : Int
  stopsig : Int
  deriving DecidableEq

/-- What PHP sees of an event. -/
inductive Reply
  /-- Nothing: no PHP function returned. -/
  | silent
  /-- `FALSE`. -/
  | false
  /-- The process resource of `proc_open`. -/
  | opened (h : Ptr)
  /-- The array of `proc_get_status`, and whether "Failed to get process status" was warned. -/
  | status (st : Status) (warned : Bool)
  /-- The number `proc_close` returns for a handle. -/
  | closed (h : Ptr) (ret : Int)
  deriving DecidableEq

/-- The events of a run. -/
inductive ChildEvent
  /-- `proc_open`, with the pid of the child the spawn handler hands out, and the code of an `exit`
  event that came before anybody listened: while a promise of the child was awaited. -/
  | procOpen (command : CString) (pid : Int) (missed : Option (BitVec 32))
  /-- `proc_get_status`. -/
  | procGetStatus (h : Ptr)
  /-- `proc_close`; is `errno` at `EINTR`? -/
  | procClose (h : Ptr) (eintr : Bool)
  /-- The garbage collector frees a handle; the values found in the uninitialised locals
  `wait_pid` and `wstatus`. -/
  | collect (h : Ptr) (waitPid : Int) (wstatus : BitVec 32)
  /-- A child emits its `exit` event. -/
  | exit (child : Ptr) (code : BitVec 32)
  /-- The timer of `js_waitpid`. -/
  | poll

/-- What an event does. -/
structure Outcome where
  state : Children
  reply : Reply
  /-- Did the destructor branch on a local that was never assigned? -/
  uninit : Bool

namespace Children

variable (s : Children)

/-! ## The functions -/

/-- `PHPWASM.processTable[pid]`. -/
def lookup (pid : Int) : Option ProcInfo := (s.processTable pid).bind s.infos.read

/-- `js_process_status`: its result, and what `exitCodePtr` points to afterwards. -/
def jsProcessStatus (pid : Int) (exitCode : BitVec 32) : Int × BitVec 32 :=
  match s.lookup pid with
  | none => (-1, exitCode)
  | some info => if info.exited then (1, info.exitCode) else (0, exitCode)

/-- `proc_get_status` of a live handle. -/
def procGetStatus (proc : ProcessHandle) : Reply :=
  let (procStatus, exitcode) := s.jsProcessStatus proc.child (-1)
  .status
    { command := proc.command, pid := proc.child
      running := procStatus ≠ 1, signaled := false, stopped := procStatus = 1
      exitcode := exitcode.toInt, termsig := 0, stopsig := 0 }
    (procStatus = -1)

/-- The rest of `proc_open_rsrc_dtor` once `wait_pid` and `wstatus` are what they are, and the
return to whoever freed the handle. -/
def finish (h : Ptr) (waitPid : Int) (wstatus : BitVec 32) : Children :=
  { s with
    handles := s.handles.free h, pcloseRet := recordStatus waitPid wstatus
    pcloseWait := false, waiting := none }

/-- One turn of the loop around `js_waitpid` in the destructor, `FG(pclose_wait)` being set. -/
def waitTurn (h : Ptr) (proc : ProcessHandle) (eintr : Bool) : Outcome :=
  match s.lookup proc.child with
  | none =>
    -- `js_waitpid` returns -1 at once, and the loop spins for as long as `errno` is `EINTR`
    if eintr then ⟨{ s with pcloseWait := true, waiting := some h }, .silent, false⟩
    else
      let s' := s.finish h (-1) 0
      ⟨s', .closed h s'.pcloseRet.toInt, false⟩
  | some info =>
    if info.exited then
      let s' := s.finish h proc.child info.exitCode
      ⟨s', .closed h s'.pcloseRet.toInt, false⟩
    else ⟨{ s with pcloseWait := true, waiting := some h }, .silent, false⟩

/-- `js_open_process`, as far as the exit code goes, and the process handle `proc_open` makes.
The handle is made for positive pids only. -/
def procOpen (command : CString) (pid : Int) (missed : Option (BitVec 32)) : Outcome :=
  let (info, infos) := s.infos.alloc ⟨pid, false, 0⟩
  let s := { s with
    infos
    processTable := fun p => if p = pid then some info else s.processTable p
    emitted := fun p => if p = info then missed else s.emitted p }
  if pid ≤ 0 then ⟨s, .false, false⟩
  else
    let (h, handles) := s.handles.alloc ⟨command, pid, info⟩
    ⟨{ s with handles }, .opened h, false⟩

/-- The `exit` handler of a child.  It closes over the child's own `ProcInfo`. -/
def exitHandler (p : Ptr) (info : ProcInfo) (code : BitVec 32) : Children :=
  { s with infos := s.infos.write p { info with exitCode := code, exited := true } }

/-- A child exits, if it has not done so. -/
def exit (p : Ptr) (code : BitVec 32) : Children :=
  match s.infos.read p, s.emitted p with
  | some info, none =>
    Children.exitHandler { s with emitted := fun q => if q = p then some code else s.emitted q }
      p info code
  | _, _ => s

/-- One event.  While PHP is suspended in `proc_close` only the events of JavaScript happen. -/
def exec (s : Children) : ChildEvent → Outcome
  | .procOpen command pid missed =>
    if s.waiting.isSome then ⟨s, .silent, false⟩ else s.procOpen command pid missed
  | .procGetStatus h =>
    if s.waiting.isSome then ⟨s, .silent, false⟩
    else match s.handles.read h with
      | none => ⟨s, .false, false⟩
      | some proc => ⟨s, s.procGetStatus proc, false⟩
  | .procClose h eintr =>
    if s.waiting.isSome then ⟨s, .silent, false⟩
    else match s.handles.read h with
      | none => ⟨s, .false, false⟩
      | some proc => s.waitTurn h proc eintr
  | .collect h waitPid wstatus =>
    if s.waiting.isSome then ⟨s, .silent, false⟩
    else match s.handles.read h with
      | none => ⟨s, .silent, false⟩
      -- `FG(pclose_wait)` is not set, so nothing was assigned to `wait_pid`
      | some _ => ⟨s.finish h waitPid wstatus, .silent, true⟩
  | .exit p code => ⟨s.exit p code, .silent, false⟩
  | .poll =>
    match s.waiting with
    | none => ⟨s, .silent, false⟩
    | some h =>
      match s.handles.read h with
      | none => ⟨s, .silent, false⟩
      | some proc => s.waitTurn h proc true

/-- The state after an event. -/
def step (s : Children) (e : ChildEvent) : Children := (s.exec e).state

end Children

/-! ## The two ways agree -/

namespace Children

/-- The code that the child of an open handle has exited with. -/
def exitedWith (s : Children) (h : Ptr) : Option (BitVec 32) :=
  (s.handles.read h).bind fun proc => s.emitted proc.procInfo

/-- The event asks for the exit code of the handle by way of `proc_close`: it is the call, or a
turn of the timer while the call is suspended. -/
def Closes (s : Children) (h : Ptr) : ChildEvent → Prop
  | .procClose h' _ => s.waiting = none ∧ h' = h
  | .poll => s.waiting = some h
  | _ => False

instance (s : Children) (h : Ptr) : ∀ e, Decidable (s.Closes h e)
  | .procClose h' _ => inferInstanceAs (Decidable (s.waiting = none ∧ h' = h))
  | .poll => inferInstanceAs (Decidable (s.waiting = some h))
  | .procOpen _ _ _ | .procGetStatus _ | .collect _ _ _ | .exit _ _ =>
    inferInstanceAs (Decidable False)

/-- What PHP learns about the exit code of a handle is the code its own child exited with. -/
structure Truthful (s : Children) (e : ChildEvent) : Prop where
  /-- `proc_get_status` after the `exit` event. -/
  status : ∀ h code, e = .procGetStatus h → s.waiting = none → s.exitedWith h = some code →
    ∃ st, (s.exec e).reply = .status st false ∧ st.running = false ∧ st.exitcode = code.toInt
  /-- `proc_close` after the `exit` event. -/
  close : ∀ h code, s.Closes h e → s.exitedWith h = some code →
    (s.exec e).reply = .closed h code.toInt
  /-- `proc_close` returns no earlier. -/
  wait : ∀ h ret, (s.exec e).reply = .closed h ret →
    ∃ code, s.exitedWith h = some code ∧ ret = code.toInt

/-- **What is asked of an event.** -/
structure Agrees (s : Children) (e : ChildEvent) : Prop extends Truthful s e where
  /-- The destructor does not branch on an uninitialised local. -/
  initialised : (s.exec e).uninit = false

/-- The macros of `wait(2)` do not change the code of the handle's child. -/
def Closable (s : Children) (h : Ptr) : Prop := ∀ code ∈ s.exitedWith h, Survives code

instance (s : Children) (h : Ptr) : Decidable (s.Closable h) :=
  Option.decidableForallMem _

/-- No child gets the pid of an open handle or exits before it is listened to, and no handle is
closed whose child has a code that the macros of `wait(2)` change. -/
def Benign (s : Children) : ChildEvent → Prop
  | .procOpen _ pid missed => s.waiting = none →
    missed = none ∧ ∀ h < s.handles.next, ∀ proc ∈ s.handles.read h, proc.child ≠ pid
  | .procClose h _ => s.waiting = none → s.Closable h
  | .poll => ∀ h ∈ s.waiting, s.Closable h
  | _ => True

/-- The garbage collector frees an open handle. -/
def Collects (s : Children) : ChildEvent → Prop
  | .collect h _ _ => s.waiting = none ∧ (s.handles.read h).isSome
  | _ => False

/-- **What is asked of the steps of a run.** -/
def Careful (s : Children) (e : ChildEvent) : Prop := s.Benign e ∧ ¬ s.Collects e

instance (s : Children) : ∀ e, Decidable (s.Benign e)
  | .procOpen _ pid missed => inferInstanceAs (Decidable (s.waiting = none →
      missed = none ∧ ∀ h < s.handles.next, ∀ proc ∈ s.handles.read h, proc.child ≠ pid))
  | .procClose h _ => inferInstanceAs (Decidable (s.waiting = none → s.Closable h))
  | .poll => inferInstanceAs (Decidable (∀ h ∈ s.waiting, s.Closable h))
  | .procGetStatus _ | .collect _ _ _ | .exit _ _ => inferInstanceAs (Decidable True)

instance (s : Children) : ∀ e, Decidable (s.Collects e)
  | .collect h _ _ => inferInstanceAs (Decidable (s.waiting = none ∧ (s.handles.read h).isSome))
  | .procOpen _ _ _ | .procGetStatus _ | .procClose _ _ | .exit _ _ | .poll =>
    inferInstanceAs (Decidable False)

instance (s : Children) (e : ChildEvent) : Decidable (s.Careful e) :=
  inferInstanceAs (Decidable (_ ∧ _))

/-- **The invariant**: an open handle's pid leads to the handle's own child, and what is noted of a
child is what it said. -/
structure Own (s : Children) : Prop where
  /-- The table entry of a handle's pid is the object made for it. -/
  table : ∀ h proc, s.handles.read h = some proc → s.processTable proc.child = some proc.procInfo
  /-- That object exists. -/
  live : ∀ h proc, s.handles.read h = some proc → (s.infos.read proc.procInfo).isSome
  /-- Handles have positive pids. -/
  pos : ∀ h proc, s.handles.read h = some proc → 0 < proc.child
  /-- The objects have the codes of the `exit` events. -/
  noted : ∀ p info, s.infos.read p = some info → info.code = s.emitted p

theorem own_init : Own init where
  table _ _ h := by cases h
  live _ _ h := by cases h
  pos _ _ h := by cases h
  noted _ _ h := by cases h

variable {s : Children} {h : Ptr} {proc : ProcessHandle}

/-- Under the invariant the lookup by pid finds the handle's own child. -/
theorem Own.lookup_eq (hown : s.Own) (hh : s.handles.read h = some proc) :
    ∃ info, s.lookup proc.child = some info ∧
      s.exitedWith h = if info.exited then some info.exitCode else none := by
  obtain ⟨info, hinfo⟩ := Option.isSome_iff_exists.1 (hown.live h proc hh)
  refine ⟨info, ?_, ?_⟩
  · rw [lookup, hown.table h proc hh]
    exact hinfo
  · rw [exitedWith, hh]
    exact (hown.noted _ info hinfo).symm

/-! ### What keeps the invariant -/

theorem Own.suspend (hown : s.Own) (b : Bool) (w : Option Ptr) :
    Own { s with pcloseWait := b, waiting := w } :=
  ⟨hown.table, hown.live, hown.pos, hown.noted⟩

theorem Own.finish (hown : s.Own) (h : Ptr) (waitPid : Int) (wstatus : BitVec 32) :
    (s.finish h waitPid wstatus).Own := by
  have hread : ∀ k proc, (s.finish h waitPid wstatus).handles.read k = some proc →
      s.handles.read k = some proc := by
    intro k proc hk
    by_cases hkh : k = h
    · subst hkh
      exact absurd (hk.symm.trans (Heap.read_free_self s.handles k)) (by simp)
    · rw [← hk]
      exact (Heap.read_free_of_ne s.handles hkh).symm
  exact ⟨fun k proc hk => hown.table k proc (hread k proc hk),
    fun k proc hk => hown.live k proc (hread k proc hk),
    fun k proc hk => hown.pos k proc (hread k proc hk), hown.noted⟩

theorem Own.waitTurn (hown : s.Own) (h : Ptr) (proc : ProcessHandle) (eintr : Bool) :
    (s.waitTurn h proc eintr).state.Own := by
  rw [Children.waitTurn]
  split
  · split
    · exact hown.suspend true (some h)
    · exact hown.finish h _ _
  · split
    · exact hown.finish h _ _
    · exact hown.suspend true (some h)

/-- The listener notes the code that the child exits with. -/
theorem Own.exit (hown : s.Own) (p : Ptr) (code : BitVec 32) : (s.exit p code).Own := by
  rw [Children.exit]
  split
  · rename_i info hinfo _
    refine ⟨hown.table, fun h proc hh => ?_, hown.pos, fun q other hq => ?_⟩
    · rw [Children.exitHandler, Heap.isSome_read_write]
      exact hown.live h proc hh
    · by_cases hqp : q = p
      · subst hqp
        obtain rfl := Option.some.inj ((Heap.read_write_self hinfo _).symm.trans hq)
        exact (if_pos rfl).symm
      · have hq' := (Heap.read_write_of_ne s.infos hqp _).symm.trans hq
        exact (hown.noted q other hq').trans (if_neg hqp).symm
  · exact hown

/-- A new child whose pid is not the pid of an open handle. -/
theorem Own.procOpen (hown : s.Own) (command : CString) {pid : Int}
    (hfresh : ∀ h proc, s.handles.read h = some proc → proc.child ≠ pid) :
    (s.procOpen command pid none).state.Own := by
  -- the handles that were open before are as they were
  have hold : ∀ h proc, s.handles.read h = some proc →
      (if proc.child = pid then some s.infos.next else s.processTable proc.child) =
        some proc.procInfo ∧
      ((s.infos.alloc ⟨pid, false, 0⟩).2.read proc.procInfo).isSome ∧ 0 < proc.child := by
    intro h proc hh
    obtain ⟨info, hinfo⟩ := Option.isSome_iff_exists.1 (hown.live h proc hh)
    refine ⟨?_, ?_, hown.pos h proc hh⟩
    · rw [if_neg (hfresh h proc hh), hown.table h proc hh]
    · rw [Heap.read_alloc_of_live hinfo]
      rfl
  -- and so are the objects
  have hnoted : ∀ p info, (s.infos.alloc ⟨pid, false, 0⟩).2.read p = some info →
      info.code = if p = s.infos.next then none else s.emitted p := by
    intro p info hp
    by_cases hnew : p = s.infos.next
    · subst hnew
      obtain rfl := Option.some.inj ((Heap.read_alloc_self s.infos _).symm.trans hp)
      exact (if_pos rfl).symm
    · have hp' : s.infos.read p = some info := (if_neg hnew).symm.trans hp
      exact (hown.noted p info hp').trans (if_neg hnew).symm
  rw [Children.procOpen]
  dsimp only
  split
  · exact ⟨fun h proc hh => (hold h proc hh).1, fun h proc hh => (hold h proc hh).2.1,
      fun h proc hh => (hold h proc hh).2.2, hnoted⟩
  · rename_i hpos
    have hnew : ∀ h proc,
        (s.handles.alloc ⟨command, pid, s.infos.next⟩).2.read h = some proc →
        (if proc.child = pid then some s.infos.next else s.processTable proc.child) =
          some proc.procInfo ∧
        ((s.infos.alloc ⟨pid, false, 0⟩).2.read proc.procInfo).isSome ∧ 0 < proc.child := by
      intro h proc hh
      rcases Heap.read_alloc_cases hh with ⟨-, rfl⟩ | hh'
      · refine ⟨if_pos rfl, ?_, Int.not_le.1 hpos⟩
        exact Option.isSome_iff_exists.2 ⟨_, Heap.read_alloc_self s.infos ⟨pid, false, 0⟩⟩
      · exact hold h proc hh'
    exact ⟨fun h proc hh => (hnew h proc hh).1, fun h proc hh => (hnew h proc hh).2.1,
      fun h proc hh => (hnew h proc hh).2.2, hnoted⟩

/-- A benign step keeps the invariant. -/
theorem own_step {e : ChildEvent} (hown : s.Own) (hc : s.Benign e) : (s.step e).Own := by
  rw [step]
  cases e with
  | procOpen command pid missed =>
    rw [exec]
    split
    · exact hown
    · rename_i hw
      obtain ⟨rfl, hfresh⟩ := hc (by simpa using hw)
      refine hown.procOpen command fun h proc hh => hfresh h ?_ proc hh
      by_contra hge
      exact absurd (hh.symm.trans (s.handles.fresh h (Nat.le_of_not_lt hge))) (by simp)
  | procGetStatus h =>
    rw [exec]
    split
    · exact hown
    · split <;> exact hown
  | procClose h eintr =>
    rw [exec]
    split
    · exact hown
    · split
      · exact hown
      · exact hown.waitTurn h _ eintr
  | collect h waitPid wstatus =>
    rw [exec]
    split
    · exact hown
    · split
      · exact hown
      · exact hown.finish h waitPid wstatus
  | exit p code => exact hown.exit p code
  | poll =>
    rw [exec]
    split
    · exact hown
    · split
      · exact hown
      · exact hown.waitTurn _ _ true

/-! ### One step -/

/-- **The destructor's loop, one turn**: PHP stays suspended while the child runs, and returns the
code of the handle's own child when it has exited with a code that survives. -/
theorem waitTurn_reply (hown : s.Own) (hh : s.handles.read h = some proc) (eintr : Bool)
    (hc : s.Closable h) :
    (s.waitTurn h proc eintr).reply =
      match s.exitedWith h with
      | some code => .closed h code.toInt
      | none => .silent := by
  obtain ⟨info, hinfo, hcode⟩ := hown.lookup_eq hh
  rw [waitTurn, hinfo]
  by_cases hex : info.exited = true
  · rw [if_pos hex] at hcode
    have hsurv : recordStatus proc.child info.exitCode = info.exitCode :=
      (recordStatus_eq_iff (hown.pos h proc hh) _).2 (hc _ hcode)
    simp [hex, hcode, Children.finish, hsurv]
  · rw [if_neg hex] at hcode
    simp [hex, hcode]

/-- `proc_get_status` of an open handle whose child has exited. -/
theorem procGetStatus_reply (hown : s.Own) (hh : s.handles.read h = some proc) {code : BitVec 32}
    (hcode : s.exitedWith h = some code) :
    ∃ st, s.procGetStatus proc = .status st false ∧ st.running = false ∧
      st.exitcode = code.toInt := by
  obtain ⟨info, hinfo, heq⟩ := hown.lookup_eq hh
  rw [hcode] at heq
  have hex : info.exited = true := by
    by_contra hne
    rw [if_neg hne] at heq
    cases heq
  rw [if_pos hex] at heq
  cases heq
  refine ⟨_, by simp [procGetStatus, jsProcessStatus, hinfo, hex]; rfl, rfl, rfl⟩

/-- The child of a handle that is not open has not exited: there is none. -/
theorem handle_of_exitedWith {code : BitVec 32} (hcode : s.exitedWith h = some code) :
    ∃ proc, s.handles.read h = some proc := by
  cases hh : s.handles.read h with
  | some proc => exact ⟨proc, rfl⟩
  | none => simp [exitedWith, hh] at hcode

/-- An event that is no turn of the destructor's loop tells nothing about a closed handle. -/
theorem truthful_of_quiet {e : ChildEvent} (hcl : ∀ h, ¬ s.Closes h e)
    (hreply : ∀ h ret, (s.exec e).reply ≠ .closed h ret) (hst : ∀ h, e ≠ .procGetStatus h) :
    s.Truthful e where
  status h _ he := absurd he (hst h)
  close h _ hh := absurd hh (hcl h)
  wait h ret hr := absurd hr (hreply h ret)

/-- An event that is a turn of the destructor's loop. -/
theorem truthful_of_waitTurn {e : ChildEvent} {eintr : Bool} (hown : s.Own)
    (hh : s.handles.read h = some proc) (hc : s.Closable h)
    (hexec : s.exec e = s.waitTurn h proc eintr) (hcl : ∀ k, s.Closes k e → k = h)
    (hst : ∀ h, e ≠ .procGetStatus h) : s.Truthful e := by
  have hreply := waitTurn_reply hown hh eintr hc
  rw [← hexec] at hreply
  refine ⟨fun k _ he => absurd he (hst k), fun k code hk hcode => ?_, fun k ret hr => ?_⟩
  · obtain rfl := hcl k hk
    rw [hreply, hcode]
  · rw [hreply] at hr
    cases hcode : s.exitedWith h with
    | none => rw [hcode] at hr; cases hr
    | some code =>
      rw [hcode] at hr
      cases hr
      exact ⟨code, hcode, rfl⟩

/-- An event that would close a handle that is not open. -/
theorem truthful_of_closed {e : ChildEvent} {h : Ptr} (hh : s.handles.read h = none)
    (hcl : ∀ k, s.Closes k e → k = h) (hreply : ∀ k ret, (s.exec e).reply ≠ .closed k ret)
    (hst : ∀ h, e ≠ .procGetStatus h) : s.Truthful e where
  status k _ he := absurd he (hst k)
  close k code hk hcode := by
    obtain ⟨proc, hp⟩ := handle_of_exitedWith hcode
    rw [hcl k hk, hh] at hp
    cases hp
  wait k ret hr := absurd hr (hreply k ret)

theorem truthful_procClose (hown : s.Own) {h : Ptr} {eintr : Bool}
    (hc : s.Benign (.procClose h eintr)) : s.Truthful (.procClose h eintr) := by
  cases hw : s.waiting with
  | some k =>
    have hexec : s.exec (.procClose h eintr) = ⟨s, .silent, false⟩ := by simp [exec, hw]
    refine truthful_of_quiet (fun k hk => ?_) (by simp [hexec]) (by simp)
    have hnone := hk.1
    rw [hw] at hnone
    cases hnone
  | none =>
    have hcl : ∀ k, s.Closes k (.procClose h eintr) → k = h := fun k hk => hk.2.symm
    cases hh : s.handles.read h with
    | none =>
      have hexec : s.exec (.procClose h eintr) = ⟨s, .false, false⟩ := by simp [exec, hw, hh]
      exact truthful_of_closed hh hcl (by simp [hexec]) (by simp)
    | some proc =>
      have hexec : s.exec (.procClose h eintr) = s.waitTurn h proc eintr := by
        simp [exec, hw, hh]
      exact truthful_of_waitTurn hown hh (hc hw) hexec hcl (by simp)

theorem truthful_poll (hown : s.Own) (hc : s.Benign .poll) : s.Truthful .poll := by
  cases hw : s.waiting with
  | none =>
    refine truthful_of_quiet (fun k hk => ?_) (by simp [exec, hw]) (by simp)
    rw [Closes, hw] at hk
    cases hk
  | some h =>
    have hcl : ∀ k, s.Closes k .poll → k = h := by
      intro k hk
      rw [Closes, hw] at hk
      exact (Option.some.inj hk).symm
    cases hh : s.handles.read h with
    | none => exact truthful_of_closed hh hcl (by simp [exec, hw, hh]) (by simp)
    | some proc =>
      have hexec : s.exec .poll = s.waitTurn h proc true := by simp [exec, hw, hh]
      exact truthful_of_waitTurn hown hh (hc h hw) hexec hcl (by simp)

/-- Under the invariant PHP learns the truth from a benign step, whatever was collected. -/
theorem truthful_step {e : ChildEvent} (hown : s.Own) (hc : s.Benign e) : s.Truthful e := by
  cases e with
  | procOpen command pid missed =>
    refine truthful_of_quiet (fun _ => id) (fun h ret => ?_) (by simp)
    rw [exec]
    split
    · simp
    · rw [procOpen]
      dsimp only
      split <;> simp
  | procGetStatus h =>
    refine ⟨fun k code hk hw hcode => ?_, fun _ _ hk => absurd hk id, fun k ret => ?_⟩
    · cases hk
      obtain ⟨proc, hh⟩ := handle_of_exitedWith hcode
      rw [exec, hw, hh]
      exact procGetStatus_reply hown hh hcode
    · rw [exec]
      split
      · simp
      · split <;> simp [procGetStatus]
  | procClose h eintr => exact truthful_procClose hown hc
  | collect h waitPid wstatus =>
    refine truthful_of_quiet (fun _ => id) (fun h ret => ?_) (by simp)
    rw [exec]
    split
    · simp
    · split <;> simp
  | exit p code => exact truthful_of_quiet (fun _ => id) (by simp [exec]) (by simp)
  | poll => exact truthful_poll hown hc

/-- The destructor branches on an uninitialised local exactly when the garbage collector calls
it. -/
theorem uninit_iff (s : Children) (e : ChildEvent) :
    (s.exec e).uninit = true ↔ s.Collects e := by
  have hturn : ∀ h proc eintr, (s.waitTurn h proc eintr).uninit = false := by
    intro h proc eintr
    rw [waitTurn]
    split <;> split <;> rfl
  cases e with
  | procOpen command pid missed =>
    simp only [exec, Collects, procOpen]
    split
    · simp
    · split <;> simp
  | procGetStatus h => simp only [exec, Collects]; split <;> [simp; (split <;> simp)]
  | procClose h eintr =>
    simp only [exec, Collects]
    split
    · simp
    · split <;> simp [hturn]
  | collect h waitPid wstatus =>
    simp only [exec, Collects]
    split
    · rename_i hw
      rw [Option.isSome_iff_ne_none] at hw
      simp [hw]
    · rename_i hw
      split <;> simp_all
  | exit p code => simp [exec, Collects]
  | poll =>
    simp only [exec, Collects]
    split
    · simp
    · split <;> simp [hturn]

/-- Under the invariant a careful step does what is asked of it. -/
theorem agrees_step {e : ChildEvent} (hown : s.Own) (hc : s.Careful e) : s.Agrees e where
  toTruthful := truthful_step hown hc.1
  initialised := by
    have h := fun hun => hc.2 ((uninit_iff s e).1 hun)
    simpa using h

/-! ### The run -/

/-- **Collecting a handle never changes what PHP learns about another one.** -/
theorem truthful_of_benign {es : List ChildEvent} (hb : Machine.Along step Benign init es) :
    Machine.Along step Truthful init es :=
  Machine.Along.of_inv (I := Own) (fun _ _ => own_step) (fun _ _ => truthful_step) own_init hb

/-- **The two ways agree along every careful run**: every `proc_close` returns the code the
handle's own child exited with, and every `proc_get_status` after the exit reports it. -/
theorem agrees_of_careful {es : List ChildEvent} (hc : Machine.Along step Careful init es) :
    Machine.Along step Agrees init es :=
  Machine.Along.of_inv (I := Own) (fun _ _ hown h => own_step hown h.1) (fun _ _ => agrees_step)
    own_init hc

end Children

/-- A careful run: two children, one of which exits with 3 while `proc_close` waits for it and one
with -1 before it is asked. -/
def twoChildren : List ChildEvent :=
  [.procOpen (bytes "a") 11 none, .procOpen (bytes "b") 12 none, .procClose 0 false, .poll, .exit 1 (-1),
    .exit 0 3, .poll, .procGetStatus 1, .procClose 1 false]

theorem twoChildren_agree : Machine.Along Children.step Children.Careful .init twoChildren ∧
    Machine.Along Children.step Children.Agrees .init twoChildren := by
  have hc : Machine.Along Children.step Children.Careful .init twoChildren := by decide
  exact ⟨hc, Children.agrees_of_careful hc⟩

/-- A child that exited before it was listened to runs for ever, as far as PHP can tell. -/
example : ((Children.init.step (.procOpen (bytes "a") 11 (some 3))).exec (.procGetStatus 0)).reply =
    .status ⟨bytes "a", 11, true, false, false, -1, 0, 0⟩ false := by decide

/-- A child that exits with 256, asked for both ways. -/
def exit256 : List ChildEvent :=
  [.procOpen (bytes "a") 11 none, .exit 0 256, .procGetStatus 0, .procClose 0 false]

/-- `proc_get_status` says 256 and `proc_close` says 1. -/
theorem exit256_disagrees : ¬ Machine.Along Children.step Children.Agrees .init exit256 := by
  intro h
  have hclose := h.2.2.2.1.toTruthful.close 0 256 (by decide) (by decide)
  exact absurd hclose (by decide)

end PhpWasm.Process
