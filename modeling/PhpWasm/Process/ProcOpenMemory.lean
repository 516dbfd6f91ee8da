import PhpWasm.Process.ProcOpenDescriptors

/-!
# The arrays of `proc_open`

`proc_open` allocates `argv`, `descv`, `descriptors` and `proc->pipes` at their full lengths and
fills them as it goes; `exit_fail` frees what `argv` and `descv` point to over their full lengths
again, however far the filling got.

* `argvLoop_accesses`, `walk_accesses` and `openStreams_inside` say which slots are written.
* `Call.memorySafe_iff`: when every access is inside its array and everything that is read or freed
  was written before.
-/

set_option autoImplicit false

namespace PhpWasm.Process

open Posix Memory Machine

variable {δ : Type*}

/-! ## Accesses to one array -/

@[simp] theorem on_append (a : Arr) (x y : Trace) : (x ++ y).on a = x.on a ++ y.on a :=
  List.filterMap_append

theorem on_onArr (a b : Arr) (xs : List Access) :
    (onArr b xs).on a = if b = a then xs else [] := by
  rw [Trace.on, onArr, List.filterMap_map]
  split
  · rename_i h
    simp [h]
  · rename_i h
    simp [h]

@[simp] theorem on_nil (a : Arr) : Trace.on a [] = [] := rfl

@[simp] theorem on_onArr_self (a : Arr) (xs : List Access) : (onArr a xs).on a = xs := by
  rw [on_onArr, if_pos rfl]

theorem on_onArr_ne {a b : Arr} (h : b ≠ a) (xs : List Access) : (onArr b xs).on a = [] := by
  rw [on_onArr, if_neg h]

/-! ## `argv` -/

/-- The element of a command array makes the call fail. -/
def badArg (s : ZString) : Bool := s.val.length ≠ s.length

theorem argvLoop_of_bad (i : Nat) {arg : ZString} (args : List ZString) (h : badArg arg = true) :
    (argvLoop i (arg :: args)).strs = none ∧
      (argvLoop i (arg :: args)).accesses = [.write i] := by
  have hlen : arg.val.length ≠ arg.length := by simpa [badArg] using h
  rw [argvLoop, getValidArgString, if_pos hlen]
  exact ⟨rfl, rfl⟩

/-- An element that is good is put where the one before it belongs. -/
theorem argvLoop_of_good (i : Nat) {arg : ZString} (args : List ZString) (h : ¬ badArg arg = true) :
    (argvLoop i (arg :: args)).strs = (argvLoop (i + 1) args).strs.map (arg.val :: ·) ∧
      (argvLoop i (arg :: args)).accesses =
        (if i = 0 then [] else [.write (i - 1)]) ++ (argvLoop (i + 1) args).accesses := by
  have hlen : ¬ arg.val.length ≠ arg.length := by simpa [badArg] using h
  rw [argvLoop, getValidArgString, if_neg hlen]
  exact ⟨rfl, rfl⟩

/-- **The loop over the command array**, after its first element: `argv` is filled up to the first
bad element, whose own index is then used for a last write. -/
theorem argvLoop_accesses (i : Nat) (args : List ZString) :
    match args.findIdx? badArg with
    | none => (argvLoop (i + 1) args).strs.isSome = true ∧
        (argvLoop (i + 1) args).accesses = Slots.writes i args.length
    | some q => (argvLoop (i + 1) args).strs = none ∧
        (argvLoop (i + 1) args).accesses = Slots.writes i q ++ [.write (i + 1 + q)] := by
  induction args generalizing i with
  | nil => exact ⟨rfl, rfl⟩
  | cons a args ih =>
    rw [List.findIdx?_cons]
    by_cases hbad : badArg a = true
    · rw [if_pos hbad]
      exact argvLoop_of_bad (i + 1) args hbad
    · obtain ⟨hstrs, haccesses⟩ := argvLoop_of_good (i + 1) args hbad
      rw [if_neg hbad, hstrs, haccesses]
      have hrec := ih (i + 1)
      cases hfind : args.findIdx? badArg with
      | none =>
        rw [hfind] at hrec
        dsimp only [Option.map_none]
        rw [hrec.2]
        exact ⟨by simpa using hrec.1, by simp [Slots.writes_succ]⟩
      | some q =>
        rw [hfind] at hrec
        dsimp only [Option.map_some]
        rw [hrec.1, hrec.2]
        refine ⟨rfl, ?_⟩
        have hidx : i + 1 + (q + 1) = i + 1 + 1 + q := by omega
        simp [Slots.writes_succ, hidx]

/-- Only one position of a bad element does no harm: the first of two. -/
def Command.Guarded : Command → Prop
  | .string _ => True
  | .array elems => ∀ p, elems.findIdx? badArg = some p → p = 0 ∧ elems.length = 2

/-- The array `argv` once it was filled. -/
theorem along_filled (n : Nat) : Along Slots.step Slots.Ok .absent
    (.alloc n :: Slots.writes 0 n) ∧
    ∀ i, (run Slots.step .absent (.alloc n :: Slots.writes 0 n)).init i = true ↔ i < n := by
  have hsize : 0 + n ≤ (Slots.step .absent (.alloc n)).size := by
    simp [Slots.step]
  refine ⟨⟨trivial, (Slots.along_writes _ 0 n).2 (Or.inr hsize)⟩, fun i => ?_⟩
  rw [run_cons, Slots.init_run_writes _ (Or.inr hsize)]
  simp [Slots.step]

/-- An array that was filled can be cleared. -/
theorem safe_filled_free (n : Nat) :
    Slots.Safe (.alloc n :: Slots.writes 0 n ++ (Slots.frees n ++ [.release])) := by
  rw [Slots.Safe, along_append, along_append, Slots.along_frees]
  exact ⟨(along_filled n).1, fun i hi => ((along_filled n).2 i).2 hi, trivial, trivial⟩

/-- **A bad element**: clearing `argv` is in order just when it was the first of two. -/
theorem safe_badArg_iff (n p : Nat) (hp : p < n) :
    Slots.Safe (.alloc (n - 1) :: (Slots.writes 0 (p - 1) ++ [.write p]) ++
      (Slots.frees (n - 1) ++ [.release])) ↔ p = 0 ∧ n = 2 := by
  have hsize : p - 1 = 0 ∨ 0 + (p - 1) ≤ (Slots.step .absent (.alloc (n - 1))).size := by
    simp only [Slots.step]
    omega
  have hwrites := Slots.init_run_writes _ hsize
  rw [Slots.Safe, List.cons_append, along_cons, along_append, along_append, along_append,
    along_cons, Slots.along_writes, Slots.along_frees, run_append]
  have hlen : (run Slots.step (Slots.step .absent (.alloc (n - 1))) (Slots.writes 0 (p - 1))).size =
      n - 1 := by
    rw [Slots.size_run_writes]
    rfl
  -- what `argv` holds when it is cleared
  have hinit : ∀ j, (run Slots.step (run Slots.step (Slots.step .absent (.alloc (n - 1)))
      (Slots.writes 0 (p - 1))) [.write p]).init j = true ↔ j < p - 1 ∨ (j = p ∧ p < n - 1) := by
    intro j
    rw [run_cons, run_nil, Slots.init_step_write, hwrites, hlen]
    simp [Slots.step]
  simp only [hinit, Slots.Ok, hlen, along_nil, and_true, along_cons, true_and]
  constructor
  · rintro ⟨⟨-, hlt⟩, hfree⟩
    by_cases h0 : p = 0
    · have h1 := hfree (n - 2)
      omega
    · have h1 := hfree (p - 1) (by omega)
      omega
  · rintro ⟨rfl, rfl⟩
    refine ⟨⟨Or.inl rfl, by omega⟩, fun i hi => Or.inr (by omega)⟩

/-- The command stage only touches `argv`. -/
theorem prepareCommand_on_ne (cmd : Command) {a : Arr} (ha : a ≠ .argv) :
    (prepareCommand cmd).trace.on a = [] := by
  unfold prepareCommand
  split
  · rfl
  · rfl
  · exact on_onArr_ne ha.symm _

/-- Clearing `argv` only touches `argv`. -/
theorem freeArrayOpt_on_ne (n : Option Nat) {a : Arr} (ha : a ≠ .argv) :
    (freeArrayOpt .argv n).on a = [] := by
  cases n with
  | none => rfl
  | some m => exact on_onArr_ne ha.symm _

/-- The loop over the whole command array. -/
theorem argvLoop_zero (arg : ZString) (args : List ZString) :
    match (arg :: args).findIdx? badArg with
    | none => (argvLoop 0 (arg :: args)).strs.isSome = true ∧
        (argvLoop 0 (arg :: args)).accesses = Slots.writes 0 args.length
    | some p => (argvLoop 0 (arg :: args)).strs = none ∧
        (argvLoop 0 (arg :: args)).accesses = Slots.writes 0 (p - 1) ++ [.write p] := by
  rw [List.findIdx?_cons]
  by_cases hbad : badArg arg = true
  · rw [if_pos hbad]
    exact argvLoop_of_bad 0 args hbad
  · obtain ⟨hstrs, haccesses⟩ := argvLoop_of_good 0 args hbad
    rw [if_neg hbad, hstrs, haccesses]
    have hrec := argvLoop_accesses 0 args
    cases hfind : args.findIdx? badArg with
    | none =>
      rw [hfind] at hrec
      dsimp only [Option.map_none]
      exact ⟨by simpa using hrec.1, by simpa using hrec.2⟩
    | some q =>
      rw [hfind] at hrec
      dsimp only [Option.map_some]
      rw [hrec.1, hrec.2]
      refine ⟨rfl, ?_⟩
      have hidx : 0 + 1 + q = q + 1 := by omega
      simp [hidx]

/-- The accesses to `argv` when it is cleared after the command stage. -/
def Command.clearedArgv (cmd : Command) : List Access :=
  (prepareCommand cmd).trace.on .argv ++ (freeArrayOpt .argv (prepareCommand cmd).numArgv).on .argv

/-- **The command stage when it goes through.** -/
theorem safe_argv_of_ok {cmd : Command} {strs : List CString}
    (h : (prepareCommand cmd).result = .ok strs) :
    cmd.Guarded ∧ Slots.Safe ((prepareCommand cmd).trace.on .argv) ∧
      Slots.Safe cmd.clearedArgv := by
  cases cmd with
  | string s => exact ⟨trivial, trivial, trivial⟩
  | array elems =>
    cases elems with
    | nil => cases h
    | cons arg args =>
      have hloop := argvLoop_zero arg args
      cases hfind : (arg :: args).findIdx? badArg with
      | some p =>
        rw [hfind] at hloop
        simp [prepareCommand, hloop.1] at h
      | none =>
        rw [hfind] at hloop
        refine ⟨fun p hp => ?_, ?_, ?_⟩
        · rw [hfind] at hp
          cases hp
        · simp only [prepareCommand, on_onArr_self, hloop.2, List.length_cons, Nat.add_sub_cancel]
          exact (along_filled args.length).1
        · simp only [Command.clearedArgv, prepareCommand, on_onArr_self, hloop.2, freeArrayOpt,
            freeArray, List.length_cons, Nat.add_sub_cancel]
          exact safe_filled_free args.length

/-- **The command stage when it fails.** -/
theorem safe_argv_of_exitFail {cmd : Command} (h : (prepareCommand cmd).result = .error .exitFail) :
    Slots.Safe cmd.clearedArgv ↔ cmd.Guarded := by
  cases cmd with
  | string s => cases h
  | array elems =>
    cases elems with
    | nil => cases h
    | cons arg args =>
      have hloop := argvLoop_zero arg args
      cases hfind : (arg :: args).findIdx? badArg with
      | none =>
        rw [hfind] at hloop
        obtain ⟨strs, hstrs⟩ := Option.isSome_iff_exists.1 hloop.1
        simp [prepareCommand, hstrs] at h
      | some p =>
        rw [hfind] at hloop
        have hp : p < (arg :: args).length := (List.findIdx?_eq_some_iff_getElem.1 hfind).1
        have hsafe := safe_badArg_iff (arg :: args).length p hp
        simp only [Command.clearedArgv, prepareCommand, on_onArr_self, hloop.2, freeArrayOpt,
          freeArray, Command.Guarded, hfind]
        rw [hsafe]
        constructor
        · rintro hpn q ⟨⟩
          exact hpn
        · exact fun hq => hq p rfl

theorem guarded_of_noCommand {cmd : Command}
    (h : (prepareCommand cmd).result = .error .returnFalse) :
    cmd.Guarded ∧ (prepareCommand cmd).trace = [] := by
  cases cmd with
  | string s => cases h
  | array elems =>
    cases elems with
    | nil => exact ⟨fun p hp => (by cases hp), rfl⟩
    | cons arg args =>
      simp only [prepareCommand] at h
      split at h <;> cases h

/-! ## `descv` and `descriptors` -/

/-- **What the walk writes**: a slot of `descv` for each entry it gets past, and slots of
`descriptors` inside the array. -/
theorem walk_accesses (es : List (SpecEntry δ)) (descs : List DescriptorItem) (t : FdTable δ) :
    (∃ k, (walk es descs t).trace.on .descv = Slots.writes descs.length k ∧
      (∀ ds, (walk es descs t).result = .ok ds → k = es.length) ∧
      (∀ stop, (walk es descs t).result = .error stop → k < es.length)) ∧
    (∀ x ∈ (walk es descs t).trace.on .descriptors,
      ∃ i < descs.length + es.length, x = .write i) ∧
    (walk es descs t).trace.on .argv = [] ∧ (walk es descs t).trace.on .pipes = [] := by
  induction es generalizing descs t with
  | nil => exact ⟨⟨0, rfl, fun _ _ => rfl, fun _ h => by cases h⟩, by simp [walk], rfl, rfl⟩
  | cons e es ih =>
    rw [walk]
    dsimp only
    split
    · exact ⟨⟨0, rfl, fun _ h => (by cases h), fun _ _ => Nat.succ_pos _⟩, by simp, rfl, rfl⟩
    · split
      · refine ⟨⟨0, rfl, fun _ h => (by cases h), fun _ _ => Nat.succ_pos _⟩, fun x hx => ?_,
          rfl, rfl⟩
        rw [on_onArr_self, List.mem_singleton] at hx
        exact ⟨descs.length, by simp, hx⟩
      · rename_i d t' ws _
        obtain ⟨⟨k, hk, hok, herr⟩, hdesc, hargv, hpipes⟩ := ih (descs ++ [d]) t'
        rw [List.length_append, List.length_singleton] at hk hdesc
        refine ⟨⟨k + 1, ?_, fun ds h => ?_, fun stop h => ?_⟩, fun x hx => ?_, ?_, ?_⟩
        · rw [on_append, on_append, hk, on_onArr_self, on_onArr_ne (by decide)]
          rfl
        · rw [hok ds h, List.length_cons]
        · rw [List.length_cons]
          exact Nat.succ_lt_succ (herr stop h)
        · rw [on_append, on_append, on_onArr_self, on_onArr_ne (by decide), List.append_nil,
            List.mem_append] at hx
          rcases hx with hx | hx
          · refine ⟨descs.length, by simp, ?_⟩
            simpa using hx
          · obtain ⟨i, hi, rfl⟩ := hdesc x hx
            exact ⟨i, by rw [List.length_cons]; omega, rfl⟩
        · rw [on_append, on_append, hargv, on_onArr_ne (by decide), on_onArr_ne (by decide)]
          rfl
        · rw [on_append, on_append, hpipes, on_onArr_ne (by decide), on_onArr_ne (by decide)]
          rfl

/-- Writes inside the array are in order. -/
theorem along_of_forall_write {s : Slots} {xs : List Access}
    (h : ∀ x ∈ xs, ∃ i < s.size, x = .write i) : Along Slots.step Slots.Ok s xs := by
  induction xs generalizing s with
  | nil => trivial
  | cons x xs ih =>
    obtain ⟨i, hi, rfl⟩ := h x List.mem_cons_self
    exact ⟨hi, ih fun y hy => h y (List.mem_cons_of_mem _ hy)⟩

/-! ## `proc->pipes` -/

/-- The loop that opens the streams stays inside the array. -/
theorem openStreams_inside (f : Nat → Bool) (i : Nat) (ds : List DescriptorItem) :
    ∀ x ∈ (openStreams f i ds).accesses, ∃ j, i ≤ j ∧ j < i + ds.length ∧ x = .write j := by
  induction ds generalizing i with
  | nil => simp [openStreams]
  | cons d ds ih =>
    have htail : ∀ x ∈ (openStreams f (i + 1) ds).accesses,
        ∃ j, i ≤ j ∧ j < i + (d :: ds).length ∧ x = .write j := by
      intro x hx
      obtain ⟨j, h1, h2, rfl⟩ := ih (i + 1) x hx
      exact ⟨j, by omega, by rw [List.length_cons]; omega, rfl⟩
    have hhead : ∀ x ∈ Access.write i :: (openStreams f (i + 1) ds).accesses,
        ∃ j, i ≤ j ∧ j < i + (d :: ds).length ∧ x = .write j := by
      intro x hx
      rcases List.mem_cons.1 hx with rfl | hx
      · exact ⟨i, Nat.le_refl i, by simp, rfl⟩
      · exact htail x hx
    rw [openStreams]
    split
    · split
      · exact hhead
      · exact htail
    · exact hhead

theorem length_pipes (f : Nat → Bool) (i : Nat) (ds : List DescriptorItem) :
    (openStreams f i ds).pipes.length = ds.length := by
  induction ds generalizing i with
  | nil => rfl
  | cons d ds ih =>
    rw [openStreams]
    split
    · split <;> simp [ih]
    · simp [ih]

/-- What writes inside an array leave: the slots they name. -/
theorem init_run_of_forall_write {s : Slots} {xs : List Access}
    (h : ∀ x ∈ xs, ∃ i < s.size, x = .write i) (j : Nat) :
    (run Slots.step s xs).init j = true ↔ s.init j = true ∨ .write j ∈ xs := by
  induction xs generalizing s with
  | nil => simp
  | cons x xs ih =>
    obtain ⟨i, hi, rfl⟩ := h x List.mem_cons_self
    have hxs := ih (s := s.step (.write i)) fun y hy => h y (List.mem_cons_of_mem _ hy)
    rw [run_cons, hxs, Slots.init_step_write, List.mem_cons, or_assoc]
    have hwrite : j = i ∧ i < s.size ↔ Access.write j = .write i := by
      simp [hi]
    rw [hwrite]

/-- The slots that are written: those of all items but the pipes that got no stream. -/
theorem write_mem_openStreams (f : Nat → Bool) (i j : Nat) (ds : List DescriptorItem) :
    .write (i + j) ∈ (openStreams f i ds).accesses ↔
      ∃ d, ds[j]? = some d ∧ (d.isPipe = true → f (i + j) = true) := by
  induction ds generalizing i j with
  | nil => simp [openStreams]
  | cons d ds ih =>
    have hno : Access.write i ∉ (openStreams f (i + 1) ds).accesses := by
      intro hmem
      obtain ⟨k, h1, -, hk⟩ := openStreams_inside f (i + 1) ds _ hmem
      cases hk
      omega
    cases j with
    | zero =>
      rw [openStreams]
      by_cases hp : d.isPipe = true
      · by_cases hf : f i = true <;> simp [hp, hf, hno]
      · simp [hp]
    | succ j =>
      have hrec := ih (i + 1) j
      have hidx : i + 1 + j = i + (j + 1) := by omega
      rw [hidx] at hrec
      rw [List.getElem?_cons_succ, ← hrec, openStreams]
      by_cases hp : d.isPipe = true
      · by_cases hf : f i = true <;> simp [hp, hf]
      · simp [hp]

/-- **What the destructor reads**: slots that were all written, just when every pipe got its
stream. -/
theorem safe_pipes_iff (f : Nat → Bool) (ds : List DescriptorItem) :
    Slots.Safe (.alloc ds.length :: (openStreams f 0 ds).accesses ++
      (Slots.reads ds.length ++ [.release])) ↔
      ∀ j d, ds[j]? = some d → d.isPipe = true → f j = true := by
  have hinside : ∀ x ∈ (openStreams f 0 ds).accesses,
      ∃ i < (Slots.step .absent (.alloc ds.length)).size, x = .write i := by
    intro x hx
    obtain ⟨j, -, hj, rfl⟩ := openStreams_inside f 0 ds x hx
    exact ⟨j, by simpa [Slots.step] using hj, rfl⟩
  have hinit : ∀ j, (run Slots.step (Slots.step .absent (.alloc ds.length))
      (openStreams f 0 ds).accesses).init j = true ↔
        ∃ d, ds[j]? = some d ∧ (d.isPipe = true → f j = true) := by
    intro j
    have hj := write_mem_openStreams f 0 j ds
    rw [Nat.zero_add] at hj
    rw [init_run_of_forall_write hinside, hj]
    simp [Slots.step]
  rw [Slots.Safe, List.cons_append, along_cons, along_append, along_append, Slots.along_reads]
  simp only [hinit, along_of_forall_write hinside, Slots.Ok, along_cons, along_nil, true_and,
    and_true]
  constructor
  · intro h j d hj hp
    obtain ⟨e, he, hf⟩ := h j (List.getElem?_eq_some_iff.1 hj).1
    rw [hj] at he
    cases he
    exact hf hp
  · intro h j hj
    exact ⟨ds[j], List.getElem?_eq_getElem hj, h j ds[j] (List.getElem?_eq_getElem hj)⟩

/-! ## The call -/

namespace Call

/-- The accesses of a call and, if it succeeds, of the destructor of the process handle. -/
def lifeTrace (c : Call δ) (t : FdTable δ) : Trace :=
  (procOpen c t).trace ++
    match (procOpen c t).ret with
    | none => []
    | some proc => procOpenRsrcDtor proc

/-- **What is asked of a call**: writes stay inside the arrays, and what is freed or read was
written before and not freed yet. -/
def MemorySafe (c : Call δ) (t : FdTable δ) : Prop := ∀ a, Slots.Safe ((c.lifeTrace t).on a)

/-- **When it holds**: a bad element of the command array is the first of two, no entry of the
specification makes the call jump to `exit_fail`, and if the call succeeds every pipe gets its
stream. -/
structure Guarded (c : Call δ) (t : FdTable δ) : Prop where
  command : c.command.Guarded
  entries : (∃ strs, (prepareCommand c.command).result = .ok strs) →
    (walk c.spec [] t).result ≠ .error .exitFail
  streams : (procOpen c t).ret ≠ none →
    ∀ (j : Nat) e, c.spec[j]? = some e → e.item.isPipe = true → c.fopenFromFd j = true

variable {c : Call δ} {t : FdTable δ}

/-- What was done to each array when the walk is over. -/
theorem traceToWalk_on (c : Call δ) (t : FdTable δ) :
    (c.traceToWalk t).on .argv = (prepareCommand c.command).trace.on .argv ∧
    (c.traceToWalk t).on .descv = .alloc c.spec.length :: (walk c.spec [] t).trace.on .descv ∧
    (c.traceToWalk t).on .descriptors =
      .alloc c.spec.length :: .fill :: (walk c.spec [] t).trace.on .descriptors ∧
    (c.traceToWalk t).on .pipes = [] := by
  obtain ⟨-, -, hargv, hpipes⟩ := walk_accesses c.spec [] t
  refine ⟨?_, ?_, ?_, ?_⟩
  all_goals
    simp only [traceToWalk, on_append, on_onArr]
    simp [hargv, hpipes, prepareCommand_on_ne]

/-- `descriptors` is always in order. -/
theorem safe_descriptors (c : Call δ) (t : FdTable δ) :
    Slots.Safe ((c.traceToWalk t).on .descriptors) ∧
      Slots.Safe ((c.traceToWalk t).on .descriptors ++ [.release]) := by
  obtain ⟨-, hdesc, -, -⟩ := walk_accesses c.spec [] t
  have hsafe : Slots.Safe ((c.traceToWalk t).on .descriptors) := by
    rw [(traceToWalk_on c t).2.2.1]
    refine ⟨trivial, trivial, along_of_forall_write fun x hx => ?_⟩
    obtain ⟨i, hi, rfl⟩ := hdesc x hx
    exact ⟨i, by simpa [Slots.step] using hi, rfl⟩
  exact ⟨hsafe, along_append.2 ⟨hsafe, trivial, trivial⟩⟩

/-- `descv` is in order while it is filled, and can be cleared just when the walk went through. -/
theorem safe_descv (c : Call δ) (t : FdTable δ) :
    Slots.Safe ((c.traceToWalk t).on .descv) ∧
      (Slots.Safe ((c.traceToWalk t).on .descv ++ (Slots.frees c.spec.length ++ [.release])) ↔
        ∃ ds, (walk c.spec [] t).result = .ok ds) := by
  obtain ⟨⟨k, hk, hok, herr⟩, -⟩ := walk_accesses c.spec [] t
  have hkn : k ≤ c.spec.length := by
    cases hw : (walk c.spec [] t).result with
    | error stop => exact Nat.le_of_lt (herr stop hw)
    | ok ds => exact Nat.le_of_eq (hok ds hw)
  have hsize : k = 0 ∨ 0 + k ≤ (Slots.step .absent (.alloc c.spec.length)).size := by
    simp only [Slots.step]
    omega
  have hfilled : Slots.Safe (.alloc c.spec.length :: Slots.writes 0 k) :=
    ⟨trivial, (Slots.along_writes _ 0 k).2 hsize⟩
  rw [(traceToWalk_on c t).2.1, hk]
  refine ⟨hfilled, ?_⟩
  rw [Slots.Safe, along_append, along_append, Slots.along_frees]
  have hinit : ∀ i, (run Slots.step .absent (.alloc c.spec.length :: Slots.writes 0 k)).init i =
      true ↔ i < k := by
    intro i
    rw [run_cons, Slots.init_run_writes _ hsize]
    simp [Slots.step]
  simp only [List.length_nil, hinit]
  constructor
  · rintro ⟨-, hfree, -⟩
    cases hw : (walk c.spec [] t).result with
    | ok ds => exact ⟨ds, rfl⟩
    | error stop =>
      have hlt := herr stop hw
      exact absurd (hfree k hlt) (Nat.lt_irrefl k)
  · rintro ⟨ds, hds⟩
    exact ⟨hfilled, fun i hi => by rw [hok ds hds]; exact hi, trivial, trivial⟩

/-- One array after the other. -/
theorem forall_arr_iff {p : Arr → Prop} :
    (∀ a, p a) ↔ p .argv ∧ p .descv ∧ p .descriptors ∧ p .pipes := by
  refine ⟨fun h => ⟨h _, h _, h _, h _⟩, fun ⟨h1, h2, h3, h4⟩ a => ?_⟩
  cases a
  · exact h1
  · exact h2
  · exact h3
  · exact h4

/-- The accesses of the label `exit_fail` after the walk. -/
theorem atExitFail_on (numArgv : Option Nat) (n : Nat) :
    (atExitFail numArgv (some n)).on .argv = (freeArrayOpt .argv numArgv).on .argv ∧
    (atExitFail numArgv (some n)).on .descv = Slots.frees n ++ [.release] ∧
    (atExitFail numArgv (some n)).on .descriptors = [.release] ∧
    (atExitFail numArgv (some n)).on .pipes = [] := by
  refine ⟨?_, ?_, ?_, ?_⟩
  all_goals
    rw [atExitFail, on_append, on_append, freeArrayOpt, freeArray, Option.isSome_some, if_pos rfl]
    simp [on_onArr, freeArrayOpt_on_ne]

/-- **A call that gets past the command and jumps to `exit_fail`.** -/
theorem memorySafe_exitFail_iff {strs : List CString}
    (hc : (prepareCommand c.command).result = .ok strs) :
    (∀ a, Slots.Safe ((c.traceToWalk t ++
      atExitFail (prepareCommand c.command).numArgv (some c.spec.length)).on a)) ↔
      ∃ ds, (walk c.spec [] t).result = .ok ds := by
  obtain ⟨hx1, hx2, hx3, hx4⟩ := atExitFail_on (prepareCommand c.command).numArgv c.spec.length
  obtain ⟨h1, -, -, h4⟩ := traceToWalk_on c t
  rw [forall_arr_iff]
  simp only [on_append, hx1, hx2, hx3, hx4, h4]
  rw [h1, (safe_descv c t).2]
  have hargv := (safe_argv_of_ok hc).2.2
  rw [Command.clearedArgv] at hargv
  exact ⟨fun h => h.2.1, fun h => ⟨hargv, h, (safe_descriptors c t).2, trivial⟩⟩

/-- **A call that succeeds**, up to the end of its handle. -/
theorem memorySafe_started_iff {strs : List CString} {ds : List DescriptorItem}
    (hc : (prepareCommand c.command).result = .ok strs)
    (hw : (walk c.spec [] t).result = .ok ds)
    (hn : ¬ c.NotStarted ds (walk c.spec [] t).fds) :
    c.MemorySafe t ↔
      ∀ (j : Nat) e, c.spec[j]? = some e → e.item.isPipe = true → c.fopenFromFd j = true := by
  obtain ⟨-, hi, hp⟩ := walk_ok hw
  have hlen : ds.length = c.spec.length := by
    have h := congrArg List.length hi
    simpa only [List.length_map] using h
  obtain ⟨h1, -, -, h4⟩ := traceToWalk_on c t
  rw [← forall_streams_iff hp, ← safe_pipes_iff, MemorySafe, forall_arr_iff, lifeTrace,
    procOpen_of_started hc hw hn]
  simp only [on_append, on_onArr, freeArray, procOpenRsrcDtor, length_pipes, h1, h4, hlen,
    reduceCtorEq, if_false, if_true, List.append_nil, List.nil_append, freeArrayOpt_on_ne, ne_eq,
    not_false_eq_true]
  have hargv := (safe_argv_of_ok hc).2.2
  rw [Command.clearedArgv] at hargv
  have hdescv := (safe_descv c t).2.2 ⟨ds, hw⟩
  exact ⟨fun h => h.2.2.2, fun h => ⟨hargv, hdescv, (safe_descriptors c t).2, h⟩⟩

/-! ### Where a call can end -/

/-- The command array is empty. -/
theorem memorySafe_of_noCommand (hc : (prepareCommand c.command).result = .error .returnFalse) :
    c.MemorySafe t ↔ c.Guarded t := by
  have heq := procOpen_of_noCommand (t := t) hc
  obtain ⟨hg, hnil⟩ := guarded_of_noCommand hc
  refine iff_of_true (fun a => ?_) ⟨hg, fun ⟨strs, h⟩ => ?_, fun h => absurd ?_ h⟩
  · rw [lifeTrace, heq, hnil]
    trivial
  · rw [hc] at h
    cases h
  · rw [heq, returnFalse]

/-- An element of the command array has a null byte. -/
theorem memorySafe_of_badCommand (hc : (prepareCommand c.command).result = .error .exitFail) :
    c.MemorySafe t ↔ c.Guarded t := by
  have heq := procOpen_of_badCommand (t := t) hc
  have hret : (procOpen c t).ret = none := by rw [heq, returnFalse]
  have hno : ¬ ∃ strs, (prepareCommand c.command).result = .ok strs := by
    rintro ⟨strs, h⟩
    rw [hc] at h
    cases h
  have hguard : c.Guarded t ↔ c.command.Guarded :=
    ⟨fun h => h.command, fun h => ⟨h, fun h' => absurd h' hno, fun h' => absurd hret h'⟩⟩
  rw [hguard, ← safe_argv_of_exitFail hc, MemorySafe, forall_arr_iff, lifeTrace, heq]
  have hother : ∀ a, a ≠ .argv → ((prepareCommand c.command).trace ++
      atExitFail (prepareCommand c.command).numArgv none).on a = [] := by
    intro a ha
    rw [on_append, prepareCommand_on_ne _ ha, atExitFail, on_append, on_append,
      freeArrayOpt_on_ne _ ha]
    rfl
  have hargv : ((prepareCommand c.command).trace ++
      atExitFail (prepareCommand c.command).numArgv none).on .argv = c.command.clearedArgv := by
    simp [atExitFail, freeArrayOpt, Command.clearedArgv]
  simp only [returnFalse, List.append_nil, hargv, hother, ne_eq, reduceCtorEq, not_false_eq_true]
  exact ⟨fun h => h.1, fun h => ⟨h, trivial, trivial, trivial⟩⟩

/-- An entry is a resource that is no stream: the call returns and frees nothing. -/
theorem memorySafe_of_noStream {strs : List CString}
    (hc : (prepareCommand c.command).result = .ok strs)
    (hw : (walk c.spec [] t).result = .error .returnFalse) : c.MemorySafe t ↔ c.Guarded t := by
  have heq := procOpen_of_noStream hc hw
  obtain ⟨hg, hargv, -⟩ := safe_argv_of_ok hc
  obtain ⟨h1, -, -, h4⟩ := traceToWalk_on c t
  have hwalk : (walk c.spec [] t).result ≠ .error .exitFail := by
    rw [hw]
    simp
  refine iff_of_true ?_ ⟨hg, fun _ => hwalk, fun h => absurd ?_ h⟩
  · rw [MemorySafe, forall_arr_iff, lifeTrace, heq, returnFalse]
    dsimp only
    rw [List.append_nil, h1, h4]
    exact ⟨hargv, (safe_descv c t).1, (safe_descriptors c t).1, trivial⟩
  · rw [heq, returnFalse]

/-- An entry makes the walk jump to `exit_fail`. -/
theorem not_memorySafe_of_badEntry {strs : List CString}
    (hc : (prepareCommand c.command).result = .ok strs)
    (hw : (walk c.spec [] t).result = .error .exitFail) : ¬ c.MemorySafe t := by
  intro h
  rw [MemorySafe, lifeTrace, procOpen_of_badEntry hc hw, returnFalse] at h
  simp only [List.append_nil] at h
  obtain ⟨ds, hds⟩ := (memorySafe_exitFail_iff hc).1 h
  rw [hw] at hds
  cases hds

/-- The walk goes through, and the call succeeds or does not. -/
theorem memorySafe_of_walked {strs : List CString} {ds : List DescriptorItem}
    (hc : (prepareCommand c.command).result = .ok strs)
    (hw : (walk c.spec [] t).result = .ok ds) : c.MemorySafe t ↔ c.Guarded t := by
  have hg := (safe_argv_of_ok hc).1
  have hentries : (walk c.spec [] t).result ≠ .error .exitFail := by
    rw [hw]
    simp
  by_cases hn : c.NotStarted ds (walk c.spec [] t).fds
  · obtain ⟨ws, heq⟩ := procOpen_of_notStarted hc hw hn
    refine iff_of_true ?_ ⟨hg, fun _ => hentries, fun h => absurd ?_ h⟩
    · rw [MemorySafe, lifeTrace, heq, returnFalse]
      simp only [List.append_nil]
      exact (memorySafe_exitFail_iff hc).2 ⟨ds, hw⟩
    · rw [heq, returnFalse]
  · rw [memorySafe_started_iff hc hw hn]
    have hret : (procOpen c t).ret ≠ none := by
      rw [procOpen_of_started hc hw hn]
      exact Option.some_ne_none _
    exact ⟨fun h => ⟨hg, fun _ => hentries, fun _ => h⟩, fun h => h.streams hret⟩

/-- **When `proc_open` keeps its memory in order**, for every command, every specification and
everything the calls it makes can answer. -/
theorem memorySafe_iff (c : Call δ) (t : FdTable δ) : c.MemorySafe t ↔ c.Guarded t := by
  cases hc : (prepareCommand c.command).result with
  | error stop =>
    cases stop with
    | returnFalse => exact memorySafe_of_noCommand hc
    | exitFail => exact memorySafe_of_badCommand hc
  | ok strs =>
    cases hw : (walk c.spec [] t).result with
    | error stop =>
      cases stop with
      | returnFalse => exact memorySafe_of_noStream hc hw
      | exitFail =>
        exact iff_of_false (not_memorySafe_of_badEntry hc hw) fun h => h.entries ⟨strs, hc⟩ hw
    | ok ds => exact memorySafe_of_walked hc hw

end Call

/-- A command array whose last element contains a NUL byte. -/
def nulArgument : Call Nat where
  command := .array [bytes "ls", [97, 0, 98]]
  spec := []
  spawn := .child 7 false
  pipesInit := true
  fopenFromFd _ := true
  strerror := []

/-- `argv` has one slot and the second one is written. -/
theorem nulArgument_not_memorySafe : ¬ nulArgument.MemorySafe (.empty 8) := by
  intro h
  have hargv := h .argv
  exact absurd hargv (by decide)

end PhpWasm.Process
