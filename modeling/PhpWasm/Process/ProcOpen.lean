import PhpWasm.Base.FdTable
import PhpWasm.Base.Slots
import PhpWasm.Sapi.Context

/-!
# Opening a process

`PHP_FUNCTION(proc_open)`: the command array is turned into `argv`, the descriptor specification is
walked and a descriptor acquired for each of its entries, `js_open_process` spawns the child, and
the parent ends of the pipes become streams.  Wherever something fails the function jumps to one
label, `exit_fail`, which frees the arrays over their full lengths.

The model computes what the function returns, the warnings it raises, what it does to the
descriptor table, and what it does with the four arrays it fills: `argv`, `descv`, `descriptors` and
`proc->pipes`, each access in order.  What the calls outside of this repository answer is part of
the input (`Attempt`, `Spawn`).  The environment array and the working directory, which are handed
on as they are, are left out.

* `prepareCommand`, `acquire`, `walk`, `jsOpenProcess` and `openStreams` are the stages.
* `procOpen` puts them together; `procOpenRsrcDtor` is what the destructor of the resource reads.
-/

set_option autoImplicit false

namespace PhpWasm.Process

open Posix Memory

variable {δ : Type*}

/-! ## PHP values -/

/-- A PHP string, which may contain NUL bytes. -/
abbrev ZString := List UInt8

/-- The C string a PHP string is read as. -/
def ZString.val (s : ZString) : CString := s.takeWhile (· ≠ 0)

/-- A value in a descriptor item. -/
inductive Zval
  | long (n : BitVec 64)
  | string (s : ZString)
  /-- A value that has no string form. -/
  | unconvertible

/-- A number, as `printf` writes it. -/
def decimal (n : Int) : CString := bytes (toString n)

/-- `try_convert_to_string`. -/
def tryConvertToString : Zval → Option ZString
  | .long n => some (decimal n.toInt)
  | .string s => some s
  | .unconvertible => none

/-- The key of an array. -/
inductive Key
  | string (s : ZString)
  | int (n : BitVec 64)

/-- `(int)nindex`. -/
def Key.index : Key → Int
  | .int n => (n.setWidth 32).toInt
  | .string _ => 0

/-- An item of the descriptor specification. -/
inductive DescItem
  /-- A resource that is no stream. -/
  | resource
  /-- A stream, and the descriptor `php_stream_cast` finds for it. -/
  | stream (fd : Option Int)
  /-- An array, by its elements 0, 1 and 2. -/
  | array (ztype zfirst zsecond : Option Zval)
  | other

/-! ## What the outside answers -/

/-- `php_stream_open_wrapper` followed by `php_stream_cast`. -/
inductive StreamOpen (δ : Type*)
  /-- No stream. -/
  | null
  /-- A stream that has no descriptor to give; it may hold one nevertheless. -/
  | uncastable (holds : Option δ)
  | castable (d : δ)

/-- What the calls made for one entry answer, if they are made. -/
structure Attempt (δ : Type*) where
  pipe : Option (δ × δ)
  dup : Bool
  devNull : Option δ
  stream : StreamOpen δ
  strerror : CString

/-- An entry of the descriptor specification. -/
structure SpecEntry (δ : Type*) where
  key : Key
  item : DescItem
  attempt : Attempt δ

/-- What becomes of the child. -/
inductive Spawn
  /-- `js_open_process` returns -1. -/
  | refused
  /-- A child with a pid, and whether its `exit` event comes before `js_open_process` returns. -/
  | child (pid : Int) (exited : Bool)

/-- The command. -/
inductive Command
  | string (s : ZString)
  /-- The elements, as `zval_get_string` gives them. -/
  | array (elems : List ZString)

/-- A call of `proc_open`. -/
structure Call (δ : Type*) where
  command : Command
  spec : List (SpecEntry δ)
  spawn : Spawn
  /-- `zend_try_array_init(pipes)` succeeds. -/
  pipesInit : Bool
  /-- `php_stream_fopen_from_fd` gives a stream for the `i`-th entry. -/
  fopenFromFd : Nat → Bool
  strerror : CString

/-! ## The arrays -/

/-- The arrays. -/
inductive Arr
  | argv
  | descv
  | descriptors
  | pipes
  deriving DecidableEq

/-- A list of accesses to the arrays. -/
abbrev Trace := List (Arr × Access)

/-- The accesses to one array. -/
def Trace.on (a : Arr) (trace : Trace) : List Access :=
  trace.filterMap fun x => if x.1 = a then some x.2 else none

/-- Accesses to one array, as accesses to the arrays. -/
def onArr (a : Arr) (xs : List Access) : Trace := xs.map fun x => (a, x)

/-- How a stage gives up. -/
inductive Stop
  /-- `goto exit_fail`. -/
  | exitFail
  /-- `RETURN_FALSE`. -/
  | returnFalse
  deriving DecidableEq

/-! ## The command -/

/-- `get_valid_arg_string`: the string, or the warning. -/
def getValidArgString (s : ZString) (elemNum : Nat) : Except CString CString :=
  if s.val.length ≠ s.length then
    .error (bytes "Command array element " ++ decimal elemNum ++ bytes " contains a null byte")
  else .ok s.val

/-- What the loop over the command array does to `argv`, and the strings it found. -/
structure ArgvLoop where
  accesses : List Access
  warnings : List CString
  strs : Option (List CString)

/-- The loop over the command array, from element `i` on. -/
def argvLoop (i : Nat) : List ZString → ArgvLoop
  | [] => ⟨[], [], some []⟩
  | arg :: args =>
    match getValidArgString arg (i + 1) with
    | .error w => ⟨[.write i], [w], none⟩
    | .ok str =>
      let r := argvLoop (i + 1) args
      ⟨(if i = 0 then [] else [.write (i - 1)]) ++ r.accesses, r.warnings, r.strs.map (str :: ·)⟩

/-- The command stage. -/
structure Prepared where
  trace : Trace
  warnings : List CString
  /-- `num_argv`, if `argv` was allocated. -/
  numArgv : Option Nat
  /-- The command and its arguments. -/
  result : Except Stop (List CString)

/-- The command stage of `proc_open`. -/
def prepareCommand : Command → Prepared
  | .string s => ⟨[], [], none, .ok [s.val]⟩
  | .array [] =>
    ⟨[], [bytes "Command array must have at least one element"], none, .error .returnFalse⟩
  | .array elems =>
    let numArgv := elems.length - 1
    let r := argvLoop 0 elems
    { trace := onArr .argv (.alloc numArgv :: r.accesses), warnings := r.warnings
      numArgv := some numArgv
      result := match r.strs with
        | none => .error .exitFail
        | some strs => .ok strs }

/-! ## The descriptors -/

/-- `struct php_proc_open_descriptor_item`. -/
structure DescriptorItem where
  index : Int
  parentend : Int
  childend : Int
  mode : Nat
  modeFlags : Nat
  deriving DecidableEq

/-- `DESC_PIPE`. -/
def descPipe : Nat := 1
/-- `DESC_FILE`. -/
def descFile : Nat := 2
/-- `DESC_REDIRECT`. -/
def descRedirect : Nat := 3
/-- `DESC_PARENT_MODE_WRITE`. -/
def descParentModeWrite : Nat := 8

/-- `O_RDONLY`. -/
def oRdonly : Nat := 0
/-- `O_WRONLY`. -/
def oWronly : Nat := 1

/-- What one entry comes to: an item or a stop, the table and the warnings. -/
abbrev Acquired (δ : Type*) := Except Stop DescriptorItem × FdTable δ × List CString

/-- The jump to `exit_fail`. -/
def exitFail (t : FdTable δ) (warnings : List CString) : Acquired δ :=
  (.error .exitFail, t, warnings)

/-- A descriptor that only the child gets. -/
def childOnly (n : BitVec 64) (childend : Int) (mode : Nat) : DescriptorItem :=
  ⟨(n.setWidth 32).toInt, 0, childend, mode, 0⟩

/-- An entry that is a stream. -/
def acquireStream (n : BitVec 64) (fd : Option Int) (att : Attempt δ) (t : FdTable δ) :
    Acquired δ :=
  match fd with
  | none => exitFail t []
  | some fd =>
    let (childend, t') := t.sysDup att.dup fd
    if childend < 0 then
      exitFail t' [bytes "unable to dup File-Handle for descriptor " ++ decimal n.toNat ++
        bytes " - " ++ att.strerror]
    else (.ok (childOnly n childend descFile), t', [])

/-- An entry `["pipe", mode]`. -/
def acquirePipe (n : BitVec 64) (zmode : Option Zval) (att : Attempt δ) (t : FdTable δ) :
    Acquired δ :=
  match zmode with
  | none => exitFail t [bytes "Missing mode parameter for 'pipe'"]
  | some zmode =>
    match tryConvertToString zmode with
    | none => exitFail t []
    | some mode =>
      match t.sysPipe att.pipe with
      | (none, t') => exitFail t' [bytes "unable to create pipe " ++ att.strerror]
      | (some (r, w), t') =>
        let index := (n.setWidth 32).toInt
        if strncmpEq mode.val (bytes "w") 1 then
          (.ok ⟨index, r, w, descPipe, oRdonly⟩, t', [])
        else (.ok ⟨index, w, r, descPipe ||| descParentModeWrite, oWronly⟩, t', [])

/-- An entry `["file", name, mode]`. -/
def acquireFile (n : BitVec 64) (zfile zmode : Option Zval) (att : Attempt δ) (t : FdTable δ) :
    Acquired δ :=
  match zfile with
  | none => exitFail t [bytes "Missing file name parameter for 'file'"]
  | some zfile =>
    match tryConvertToString zfile with
    | none => exitFail t []
    | some _ =>
      match zmode with
      | none => exitFail t [bytes "Missing mode parameter for 'file'"]
      | some zmode =>
        match tryConvertToString zmode with
        | none => exitFail t []
        | some _ =>
          match att.stream with
          | .null => exitFail t []
          -- the stream stays open when it cannot be cast
          | .uncastable holds => exitFail (t.sysOpen holds).2 []
          | .castable d =>
            let (fd, t') := t.sysOpen (some d)
            if fd < 0 then exitFail t' [] else (.ok (childOnly n fd descFile), t', [])

/-- An entry `["redirect", target]`; `descs` are the items that were set up before it. -/
def acquireRedirect (n : BitVec 64) (ztarget : Option Zval) (att : Attempt δ)
    (descs : List DescriptorItem) (t : FdTable δ) : Acquired δ :=
  match ztarget with
  | none => exitFail t [bytes "Missing redirection target"]
  | some (.long target) =>
    let redirectTo (childend : Int) : Acquired δ :=
      let (fd, t') := t.sysDup att.dup childend
      if fd < 0 then
        exitFail t' [bytes "Failed to dup() for descriptor " ++ decimal n.toInt ++ bytes " - " ++
          att.strerror]
      else (.ok (childOnly n fd descRedirect), t', [])
    match descs.find? fun d => d.index = target.toInt with
    | some d => redirectTo d.childend
    | none =>
      if target.toInt < 0 ∨ target.toInt > 2 then
        exitFail t [bytes "Redirection target " ++ decimal target.toInt ++ bytes " not found"]
      else redirectTo target.toInt
  | some _ => exitFail t [bytes "Redirection target must be an integer"]

/-- An entry `["null"]`. -/
def acquireNull (n : BitVec 64) (att : Attempt δ) (t : FdTable δ) : Acquired δ :=
  let (fd, t') := t.sysOpen att.devNull
  if fd < 0 then exitFail t' [bytes "Failed to open /dev/null - " ++ att.strerror]
  else (.ok (childOnly n fd descFile), t', [])

/-- One entry with an integer key, in the order of the source's tests. -/
def acquire (n : BitVec 64) (item : DescItem) (att : Attempt δ) (descs : List DescriptorItem)
    (t : FdTable δ) : Acquired δ :=
  match item with
  -- `php_stream_from_zval` returns from the function
  | .resource => (.error .returnFalse, t, [])
  | .stream fd => acquireStream n fd att t
  | .other => exitFail t [bytes "Descriptor item must be either an array or a File-Handle"]
  | .array none _ _ => exitFail t [bytes "Missing handle qualifier in array"]
  | .array (some ztype) zfirst zsecond =>
    match tryConvertToString ztype with
    | none => exitFail t []
    | some ztype =>
      if ztype.val = bytes "pipe" then acquirePipe n zfirst att t
      else if ztype.val = bytes "file" then acquireFile n zfirst zsecond att t
      else if ztype.val = bytes "redirect" then acquireRedirect n zfirst att descs t
      else if ztype.val = bytes "null" then acquireNull n att t
      else if ztype.val = bytes "pty" then
        exitFail t [bytes "pty pseudo terminal not supported on this system"]
      else exitFail t [ztype.val ++ bytes " is not a valid descriptor spec/mode"]

/-- What the walk over the specification comes to. -/
structure Walk (δ : Type*) where
  result : Except Stop (List DescriptorItem)
  fds : FdTable δ
  trace : Trace
  warnings : List CString

/-- The walk over the specification; `descs` are the items set up so far. -/
def walk : List (SpecEntry δ) → List DescriptorItem → FdTable δ → Walk δ
  | [], descs, t => ⟨.ok descs, t, [], []⟩
  | e :: es, descs, t =>
    let ndesc := descs.length
    match e.key with
    | .string _ =>
      ⟨.error .exitFail, t, [], [bytes "descriptor spec must be an integer indexed array"]⟩
    | .int n =>
      match acquire n e.item e.attempt descs t with
      | (.error stop, t', ws) => ⟨.error stop, t', onArr .descriptors [.write ndesc], ws⟩
      | (.ok d, t', ws) =>
        let r := walk es (descs ++ [d]) t'
        { r with
          trace := onArr .descriptors [.write ndesc, .write ndesc] ++
            onArr .descv [.write ndesc] ++ r.trace
          warnings := ws ++ r.warnings }

/-! ## The child -/

/-- The object `std` of `js_open_process`: a later item with the same index takes its place. -/
def jsStd (descs : List DescriptorItem) (n : Int) : Option DescriptorItem :=
  descs.reverse.find? fun d => d.index = n

/-- The descriptors the `exit` handler closes. -/
def exitFds (descs : List DescriptorItem) : List Int :=
  [1, 2, 0].filterMap fun n => (jsStd descs n).map DescriptorItem.childend

/-- `js_open_process`: what it returns, and the table when it does. -/
def jsOpenProcess (descs : List DescriptorItem) (spawn : Spawn) (t : FdTable δ) :
    Int × FdTable δ :=
  match spawn with
  | .refused => (-1, t)
  | .child pid exited => (pid, if exited then t.closeAll (exitFds descs) else t)

/-! ## The streams -/

/-- The item is a pipe: `(mode & ~DESC_PARENT_MODE_WRITE) == DESC_PIPE`. -/
def DescriptorItem.isPipe (d : DescriptorItem) : Bool :=
  d.mode = descPipe ∨ d.mode = descPipe ||| descParentModeWrite

/-- What the loop that opens the streams does. -/
structure Streams where
  /-- `proc->pipes`: the descriptor of the stream in a slot.  A slot without a stream is null, or
  was never written. -/
  pipes : List (Option Int)
  /-- What is put into `$pipes`. -/
  phpPipes : List (Int × Int)
  accesses : List Access

/-- The loop that opens streams on the parent ends, from item `i` on. -/
def openStreams (fopenFromFd : Nat → Bool) (i : Nat) : List DescriptorItem → Streams
  | [] => ⟨[], [], []⟩
  | d :: ds =>
    let r := openStreams fopenFromFd (i + 1) ds
    if d.isPipe then
      if fopenFromFd i then
        ⟨some d.parentend :: r.pipes, (d.index, d.parentend) :: r.phpPipes, .write i :: r.accesses⟩
      else { r with pipes := none :: r.pipes }
    else { r with pipes := none :: r.pipes, accesses := .write i :: r.accesses }

/-! ## The function -/

/-- `struct php_process_handle`. -/
structure ProcHandle where
  child : Int
  pipes : List (Option Int)

/-- What a call comes to. -/
structure Result (δ : Type*) where
  /-- The resource, or `FALSE`. -/
  ret : Option ProcHandle
  fds : FdTable δ
  phpPipes : List (Int × Int)
  /-- What the `exit` handler of the child closes. -/
  exitFds : List Int
  trace : Trace
  warnings : List CString

/-- The loop that frees what an array points to, and the array. -/
def freeArray (a : Arr) (n : Nat) : Trace := onArr a (Slots.frees n ++ [.release])

/-- The same for an array that may not have been allocated. -/
def freeArrayOpt (a : Arr) : Option Nat → Trace
  | none => []
  | some n => freeArray a n

/-- The end of a call that returns `FALSE` without freeing anything. -/
def returnFalse (t : FdTable δ) (trace : Trace) (warnings : List CString) : Result δ :=
  ⟨none, t, [], [], trace, warnings⟩

/-- The label `exit_fail`. -/
def atExitFail (numArgv : Option Nat) (numDescv : Option Nat) : Trace :=
  (if numDescv.isSome then onArr .descriptors [.release] else []) ++
    freeArrayOpt .argv numArgv ++ freeArrayOpt .descv numDescv

/-- `PHP_FUNCTION(proc_open)`. -/
def procOpen (c : Call δ) (t : FdTable δ) : Result δ :=
  let cmd := prepareCommand c.command
  match cmd.result with
  | .error .returnFalse => returnFalse t cmd.trace cmd.warnings
  | .error .exitFail => returnFalse t (cmd.trace ++ atExitFail cmd.numArgv none) cmd.warnings
  | .ok _ =>
    let n := c.spec.length
    let w := walk c.spec [] t
    let trace := cmd.trace ++ onArr .descv [.alloc n] ++ onArr .descriptors [.alloc n, .fill] ++
      w.trace
    let warnings := cmd.warnings ++ w.warnings
    match w.result with
    | .error .returnFalse => returnFalse w.fds trace warnings
    | .error .exitFail => returnFalse w.fds (trace ++ atExitFail cmd.numArgv (some n)) warnings
    | .ok descs =>
      let (child, t') := jsOpenProcess descs c.spawn w.fds
      if child ≤ 0 then
        returnFalse t' (trace ++ atExitFail cmd.numArgv (some n))
          (warnings ++ [bytes "proc_open() failed - " ++ c.strerror])
      else if c.pipesInit = false then
        returnFalse t' (trace ++ atExitFail cmd.numArgv (some n)) warnings
      else
        let s := openStreams c.fopenFromFd 0 descs
        { ret := some ⟨child, s.pipes⟩, fds := t', phpPipes := s.phpPipes, exitFds := exitFds descs
          trace := trace ++ onArr .pipes (.alloc n :: s.accesses) ++
            freeArrayOpt .argv cmd.numArgv ++ freeArray .descv n ++ onArr .descriptors [.release]
          warnings }

/-- What `proc_open_rsrc_dtor` does with `proc->pipes`. -/
def procOpenRsrcDtor (proc : ProcHandle) : Trace :=
  onArr .pipes (Slots.reads proc.pipes.length ++ [.release])

/-! ## The ways through the function

One equation for each way a call can end. -/

namespace Call

/-- The accesses up to the end of the walk. -/
def traceToWalk (c : Call δ) (t : FdTable δ) : Trace :=
  (prepareCommand c.command).trace ++ onArr .descv [.alloc c.spec.length] ++
    onArr .descriptors [.alloc c.spec.length, .fill] ++ (walk c.spec [] t).trace

/-- The warnings up to the end of the walk. -/
def warningsToWalk (c : Call δ) (t : FdTable δ) : List CString :=
  (prepareCommand c.command).warnings ++ (walk c.spec [] t).warnings

variable {c : Call δ} {t : FdTable δ} {strs : List CString} {descs : List DescriptorItem}

/-- The command array is empty. -/
theorem procOpen_of_noCommand (h : (prepareCommand c.command).result = .error .returnFalse) :
    procOpen c t =
      returnFalse t (prepareCommand c.command).trace (prepareCommand c.command).warnings := by
  simp only [procOpen, h]

/-- An element of the command array contains a NUL byte. -/
theorem procOpen_of_badCommand (h : (prepareCommand c.command).result = .error .exitFail) :
    procOpen c t =
      returnFalse t ((prepareCommand c.command).trace ++
        atExitFail (prepareCommand c.command).numArgv none)
      (prepareCommand c.command).warnings := by
  simp only [procOpen, h]

/-- An entry is a resource that is no stream. -/
theorem procOpen_of_noStream (hc : (prepareCommand c.command).result = .ok strs)
    (hw : (walk c.spec [] t).result = .error .returnFalse) :
    procOpen c t =
      returnFalse (walk c.spec [] t).fds (c.traceToWalk t) (c.warningsToWalk t) := by
  simp only [procOpen, hc, hw, traceToWalk, warningsToWalk]

/-- An entry cannot be acquired. -/
theorem procOpen_of_badEntry (hc : (prepareCommand c.command).result = .ok strs)
    (hw : (walk c.spec [] t).result = .error .exitFail) :
    procOpen c t =
      returnFalse (walk c.spec [] t).fds
        (c.traceToWalk t ++ atExitFail (prepareCommand c.command).numArgv (some c.spec.length))
        (c.warningsToWalk t) := by
  simp only [procOpen, hc, hw, traceToWalk, warningsToWalk]

/-- The child was not spawned, or `$pipes` could not be made an array. -/
def NotStarted (c : Call δ) (descs : List DescriptorItem) (t : FdTable δ) : Prop :=
  (jsOpenProcess descs c.spawn t).1 ≤ 0 ∨ c.pipesInit = false

instance (c : Call δ) (descs : List DescriptorItem) (t : FdTable δ) :
    Decidable (c.NotStarted descs t) :=
  inferInstanceAs (Decidable (_ ∨ _))

theorem procOpen_of_notStarted (hc : (prepareCommand c.command).result = .ok strs)
    (hw : (walk c.spec [] t).result = .ok descs) (hn : c.NotStarted descs (walk c.spec [] t).fds) :
    ∃ warnings, procOpen c t =
      returnFalse (jsOpenProcess descs c.spawn (walk c.spec [] t).fds).2
        (c.traceToWalk t ++ atExitFail (prepareCommand c.command).numArgv (some c.spec.length))
        warnings := by
  simp only [procOpen, hc, hw, traceToWalk]
  by_cases hchild : (jsOpenProcess descs c.spawn (walk c.spec [] t).fds).1 ≤ 0
  · exact ⟨_, by rw [if_pos hchild]⟩
  · exact ⟨_, by rw [if_neg hchild, if_pos (hn.resolve_left hchild)]⟩

/-- The call succeeds. -/
theorem procOpen_of_started (hc : (prepareCommand c.command).result = .ok strs)
    (hw : (walk c.spec [] t).result = .ok descs)
    (hn : ¬ c.NotStarted descs (walk c.spec [] t).fds) :
    procOpen c t =
      { ret := some ⟨(jsOpenProcess descs c.spawn (walk c.spec [] t).fds).1,
          (openStreams c.fopenFromFd 0 descs).pipes⟩
        fds := (jsOpenProcess descs c.spawn (walk c.spec [] t).fds).2
        phpPipes := (openStreams c.fopenFromFd 0 descs).phpPipes
        exitFds := exitFds descs
        trace := c.traceToWalk t ++
          onArr .pipes (.alloc c.spec.length :: (openStreams c.fopenFromFd 0 descs).accesses) ++
          freeArrayOpt .argv (prepareCommand c.command).numArgv ++
          freeArray .descv c.spec.length ++ onArr .descriptors [.release]
        warnings := c.warningsToWalk t } := by
  rw [NotStarted, not_or] at hn
  simp only [procOpen, hc, hw, traceToWalk, warningsToWalk, if_neg hn.1, if_neg hn.2]

end Call

end PhpWasm.Process
