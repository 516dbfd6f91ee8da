import PhpWasm.Base.Ledger
import PhpWasm.Base.Run
import PhpWasm.Sapi.Context

/-!
# The path of php.ini

`wasm_set_phpini_path` keeps a copy of the path in a global of its own, and `php_wasm_init` hands
the copy over to `php_wasm_sapi_module.php_ini_path_override`, where PHP looks for it.  Either
function frees what it is about to overwrite.  But `php_wasm_init` hands over the pointer and keeps
it as well, so that from then on two owners share one string.

`pathsRight_iff` says what comes of it: all is well until a path was handed over, and whatever is
called next leaves the SAPI module with a string that was freed.
-/

set_option autoImplicit false

namespace PhpWasm

open Memory

/-! ## The two functions -/

/-- The globals that hold the path, and the strings. -/
structure IniPath where
  /-- All calls of `strdup` and `free`. -/
  ledger : Ledger CString Unit
  /-- `phpini_path_override` -/
  phpiniPathOverride : Option Ptr
  /-- `php_wasm_sapi_module.php_ini_path_override` -/
  sapiPathOverride : Option Ptr
  /-- `php_sapi_started` -/
  phpSapiStarted : Bool

namespace IniPath

/-- The globals of a process that has just started. -/
def start : IniPath := ⟨Ledger.empty, none, none, false⟩

/-- `wasm_set_phpini_path` -/
def wasmSetPhpiniPath (path : CString) (s : IniPath) : IniPath :=
  let copy := (s.ledger.releaseOpt s.phpiniPathOverride ()).alloc path
  { s with ledger := copy.2, phpiniPathOverride := some copy.1 }

/-- `php_wasm_init`, up to the call of `startup`. -/
def beforeStartup (s : IniPath) : IniPath :=
  match s.phpiniPathOverride with
  | none => { s with phpSapiStarted := true }
  | some p =>
    { s with
      ledger := s.ledger.releaseOpt s.sapiPathOverride ()
      sapiPathOverride := some p
      phpSapiStarted := true }

/-- The path that `startup` reads.  There is no answer when the string was freed. -/
def pathAtStartup (s : IniPath) : Option (Option CString) :=
  derefOpt s.beforeStartup.ledger.read s.beforeStartup.sapiPathOverride

/-- `php_wasm_init`, where `startup` is whether PHP's own start-up succeeds. -/
def phpWasmInit (startup : Bool) (s : IniPath) : Int × IniPath :=
  (if startup then 0 else -1, s.beforeStartup)

end IniPath

/-- A call of one of the two functions. -/
inductive IniCall
  | setPhpiniPath (path : CString)
  | init (startup : Bool)
  deriving DecidableEq

/-- The state after a call. -/
def IniPath.step (s : IniPath) : IniCall → IniPath
  | .setPhpiniPath path => s.wasmSetPhpiniPath path
  | .init startup => (s.phpWasmInit startup).2

/-! ## What is asked of them -/

/-- The latest path that was set. -/
def latestPath (path : Option CString) : IniCall → Option CString
  | .setPhpiniPath path => some path
  | .init _ => path

/-- The call frees nothing twice, PHP keeps a string that is live, and a start-up reads the latest
path. -/
structure IniPath.CallRight (p : IniPath × Option CString) (call : IniCall) : Prop where
  once : (p.1.step call).ledger.Sound fun _ _ => True
  live : ∀ q, (p.1.step call).sapiPathOverride = some q → (p.1.step call).ledger.read q ≠ none
  latest : ∀ startup, call = .init startup → p.1.pathAtStartup = some p.2

/-- Every call of a sequence is right. -/
def PathsRight (calls : List IniCall) : Prop :=
  Machine.Along (Machine.both IniPath.step latestPath) IniPath.CallRight (.start, none) calls

/-! ## Before and after the path is handed over -/

namespace IniPath

variable {s : IniPath} {path : Option CString} {calls : List IniCall}

/-- The path was not handed over: it is live, and PHP holds nothing. -/
structure Pending (s : IniPath) (path : Option CString) : Prop where
  sound : s.ledger.Sound fun _ _ => True
  held : derefOpt s.ledger.read s.phpiniPathOverride = some path
  free : s.sapiPathOverride = none

theorem pending_start : Pending start none := ⟨Ledger.sound_empty _, rfl, rfl⟩

/-- There is no path, or there is a live string with it. -/
theorem Pending.none_or_live (h : s.Pending path) :
    (s.phpiniPathOverride = none ∧ path = none) ∨
      ∃ p content, s.phpiniPathOverride = some p ∧ s.ledger.read p = some content ∧
        path = some content := by
  have hheld := h.held
  rcases hp : s.phpiniPathOverride with _ | p
  · rw [hp] at hheld
    exact .inl ⟨rfl, (Option.some.inj hheld).symm⟩
  · rw [hp] at hheld
    obtain ⟨content, hread, hcontent⟩ := Option.map_eq_some_iff.1 hheld
    exact .inr ⟨p, content, rfl, hread, hcontent.symm⟩

/-- What `free` does to the ledger, when the path was not handed over. -/
theorem Pending.sound_releaseOpt (h : s.Pending path) :
    (s.ledger.releaseOpt s.phpiniPathOverride ()).Sound fun _ _ => True := by
  rcases h.none_or_live with ⟨hp, -⟩ | ⟨p, content, hp, hread, -⟩
  · rw [hp]
    exact h.sound
  · rw [hp]
    exact Ledger.sound_release_iff.2 ⟨h.sound, content, hread, trivial⟩

/-- Setting a path again before it is handed over. -/
theorem Pending.set (h : s.Pending path) (new : CString) :
    (s.wasmSetPhpiniPath new).Pending (some new) := by
  refine ⟨h.sound_releaseOpt.alloc new, ?_, h.free⟩
  exact Option.map_eq_some_iff.2 ⟨new, h.sound_releaseOpt.read_alloc_self new, rfl⟩

theorem Pending.right_set (h : s.Pending path) (new : CString) :
    CallRight (s, path) (.setPhpiniPath new) where
  once := (h.set new).sound
  live q hq := by
    rw [show (s.step (.setPhpiniPath new)).sapiPathOverride = none from h.free] at hq
    exact nomatch hq
  latest _ he := nomatch he

/-- The global that `wasm_set_phpini_path` fills in is empty until a path is set. -/
theorem Pending.eq_none (h : s.Pending none) : s.phpiniPathOverride = none := by
  rcases h.none_or_live with ⟨hp, -⟩ | ⟨_, _, -, -, hpath⟩
  · exact hp
  · exact nomatch hpath

theorem beforeStartup_of_none (h : s.phpiniPathOverride = none) :
    s.beforeStartup = { s with phpSapiStarted := true } := by
  rw [beforeStartup, h]

theorem beforeStartup_of_some {p : Ptr} (h : s.phpiniPathOverride = some p) :
    s.beforeStartup =
      { s with
        ledger := s.ledger.releaseOpt s.sapiPathOverride ()
        sapiPathOverride := some p
        phpSapiStarted := true } := by
  rw [beforeStartup, h]

/-- A start without a path. -/
theorem Pending.init (h : s.Pending none) : s.beforeStartup.Pending none := by
  rw [beforeStartup_of_none h.eq_none]
  exact ⟨h.sound, h.held, h.free⟩

theorem Pending.right_init_of_none (h : s.Pending none) (startup : Bool) :
    CallRight (s, none) (.init startup) where
  once := h.init.sound
  live q hq := by
    rw [show (s.step (.init startup)).sapiPathOverride = none from h.init.free] at hq
    exact nomatch hq
  latest _ _ := by
    rw [pathAtStartup, h.init.free]
    rfl

/-- The path was handed over: both globals lead to it. -/
structure HandedOver (s : IniPath) : Prop where
  shared : s.phpiniPathOverride = s.sapiPathOverride
  held : s.sapiPathOverride ≠ none

/-- A start with a path reads it, and hands it over. -/
theorem Pending.handOver {new : CString} (h : s.Pending (some new)) (startup : Bool) :
    CallRight (s, some new) (.init startup) ∧ s.beforeStartup.HandedOver := by
  rcases h.none_or_live with ⟨-, hpath⟩ | ⟨p, content, hp, hread, hpath⟩
  · exact nomatch hpath
  have hbefore := beforeStartup_of_some hp
  rw [h.free] at hbefore
  refine ⟨⟨?_, ?_, ?_⟩, ?_⟩
  · rw [step, phpWasmInit, hbefore]
    exact h.sound
  · intro q hq hnone
    rw [step, phpWasmInit, hbefore] at hq hnone
    obtain rfl := Option.some.inj hq
    rw [show s.ledger.read p = none from hnone] at hread
    exact nomatch hread
  · intro _ _
    rw [pathAtStartup, hbefore, hpath]
    exact Option.map_eq_some_iff.2 ⟨content, hread, rfl⟩
  · rw [hbefore]
    exact ⟨hp, nofun⟩

/-- **After that, no call is right**: either function frees the string, and PHP is left with it. -/
theorem HandedOver.not_right (h : s.HandedOver) (call : IniCall) : ¬ CallRight (s, path) call := by
  obtain ⟨p, hp⟩ := Option.ne_none_iff_exists'.1 h.held
  intro hright
  rcases call with new | startup
  · refine hright.live p hp ?_
    have hfree : (s.step (.setPhpiniPath new)).ledger = ((s.ledger.release p ()).alloc new).2 := by
      rw [step, wasmSetPhpiniPath, h.shared, hp]
      rfl
    rw [hfree]
    exact Ledger.read_alloc_of_released List.mem_cons_self new
  · have hbefore := beforeStartup_of_some (h.shared.trans hp)
    refine hright.live p ?_ ?_
    · rw [step, phpWasmInit, hbefore]
    · rw [step, phpWasmInit, hbefore, hp]
      exact Ledger.read_release_self _ _ _

/-! ## When every call is right -/

/-- No call is right once the path was handed over, so there may be none. -/
theorem HandedOver.along_iff (h : s.HandedOver) :
    Machine.Along (Machine.both step latestPath) CallRight (s, path) calls ↔ calls = [] := by
  rcases calls with _ | ⟨call, calls⟩
  · exact iff_of_true trivial rfl
  · exact iff_of_false (fun hright => h.not_right call hright.1) nofun

/-- With a path that is set, nothing may follow the next `php_wasm_init`. -/
theorem Pending.along_iff_of_set {new : CString} (h : s.Pending (some new)) :
    Machine.Along (Machine.both step latestPath) CallRight (s, some new) calls ↔
      ¬ ∃ startup call, [IniCall.init startup, call].Sublist calls := by
  induction calls generalizing s new with
  | nil => exact iff_of_true trivial fun ⟨_, _, hsub⟩ => nomatch hsub
  | cons call calls ih =>
    rw [Machine.along_cons]
    rcases call with other | startup
    · rw [and_iff_right (h.right_set other)]
      refine (ih (h.set other)).trans (not_congr ?_)
      constructor
      · rintro ⟨startup, call, hsub⟩
        exact ⟨startup, call, hsub.cons _⟩
      · rintro ⟨startup, call, hsub⟩
        have hne : IniCall.init startup ≠ .setPhpiniPath other := nofun
        exact ⟨startup, call, hsub.of_cons_of_ne hne⟩
    · obtain ⟨hright, hover⟩ := h.handOver startup
      rw [and_iff_right hright]
      refine hover.along_iff.trans ?_
      rw [List.eq_nil_iff_forall_not_mem]
      constructor
      · rintro hnone ⟨startup', call, hsub⟩
        exact hnone call (List.singleton_sublist.1 hsub.tail)
      · intro hnone call hmem
        exact hnone ⟨startup, call, (List.singleton_sublist.2 hmem).cons_cons _⟩

/-- Without one, nothing may follow a `php_wasm_init` that follows a path. -/
theorem Pending.along_iff_of_unset (h : s.Pending none) :
    Machine.Along (Machine.both step latestPath) CallRight (s, none) calls ↔
      ¬ ∃ path startup call, [IniCall.setPhpiniPath path, .init startup, call].Sublist calls := by
  induction calls generalizing s with
  | nil => exact iff_of_true trivial fun ⟨_, _, _, hsub⟩ => nomatch hsub
  | cons call calls ih =>
    rw [Machine.along_cons]
    rcases call with new | startup
    · rw [and_iff_right (h.right_set new)]
      refine (h.set new).along_iff_of_set.trans (not_congr ?_)
      constructor
      · rintro ⟨startup, call, hsub⟩
        exact ⟨new, startup, call, hsub.cons_cons _⟩
      · rintro ⟨path, startup, call, hsub⟩
        exact ⟨startup, call, hsub.tail⟩
    · rw [and_iff_right (h.right_init_of_none startup)]
      refine (ih h.init).trans (not_congr ?_)
      constructor
      · rintro ⟨path, startup, call, hsub⟩
        exact ⟨path, startup, call, hsub.cons _⟩
      · rintro ⟨path, startup', call, hsub⟩
        have hne : IniCall.setPhpiniPath path ≠ .init startup := nofun
        exact ⟨path, startup', call, hsub.of_cons_of_ne hne⟩

end IniPath

/-- **When the path is owned once**: as long as nothing is called after a `php_wasm_init` that had
a path to hand over. -/
theorem pathsRight_iff (calls : List IniCall) :
    PathsRight calls ↔
      ¬ ∃ path startup call, [IniCall.setPhpiniPath path, .init startup, call].Sublist calls :=
  IniPath.pending_start.along_iff_of_unset

/-- A path, a start, another path and another start: the first string is freed by both functions.
Where only the second start follows, it reads a string that was freed. -/
theorem path_freed_twice :
    let calls := [IniCall.setPhpiniPath (bytes "/a"), .init true, .setPhpiniPath (bytes "/b"),
      .init true]
    (Machine.run IniPath.step .start calls).ledger.released = [0, 0] ∧ ¬ PathsRight calls ∧
      (Machine.run IniPath.step .start
        [.setPhpiniPath (bytes "/a"), .init true]).pathAtStartup = none := by
  refine ⟨by decide, fun h => ?_, by decide⟩
  exact absurd h.2.2.2.1.once.once (by decide)

end PhpWasm
