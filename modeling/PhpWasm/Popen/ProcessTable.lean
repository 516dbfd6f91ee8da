import PhpWasm.Base.Run
import PhpWasm.Popen.PopenForWriting

/-!
# Which process a descriptor belongs to

`wasm_popen` remembers which process the descriptor of its `FILE *` leads to, and `__wrap_pclose`
looks the descriptor up to tell such a `FILE *` from any other.  The map is kept in
`PHPWASM.processTable`, the other way round: an entry may have a property `fd`, entries are never
removed, and both the lookup and its removal stop at the first entry with the descriptor.

* `Processes` is the table, with the functions on it, and the `FILE *`s that are open.
* `PidMap` is the map that is meant: `claims fd` is the process of the latest
  `js_popen_set_pid_for_fd` that was not undone.
* `represents_iff` is the connection: the pairs in the table are the pairs in the map.
* `tableRight_iff` says when it is right in every state of a run.  A descriptor has to be cleared
  before it is given to another process or another `FILE *`, and the descriptor of a process before
  the process gets another one or its pid is used again.
-/

set_option autoImplicit false

namespace PhpWasm.Popen

/-! ## The table -/

/-- The table and the `FILE *`s. -/
structure Processes where
  /-- `PHPWASM.processTable`, in the order of a `for in` loop. -/
  table : List ProcInfo
  /-- The `FILE *` of a descriptor, while it is open: did `wasm_popen` open it for writing? -/
  files : Int → Option Bool

/-- What happens to the table and to descriptors. -/
inductive TableEvent
  /-- A process is started. -/
  | start (pid : Nat)
  /-- The process of an entry exits. -/
  | exit (pid : Nat) (code : BitVec 32)
  | setPid (fd : Int) (pid : Nat)
  | clearPid (fd : Int)
  /-- A `FILE *` gets the descriptor. -/
  | fopen (fd : Int) (popenForWriting : Bool)
  | fclose (fd : Int)
  /-- `__wrap_pclose` -/
  | pclose (fd : Int)

namespace Processes

/-- No process was started yet. -/
def start (files : Int → Option Bool) : Processes := ⟨[], files⟩

/-- `__wrap_pclose` takes the branch that leads to `wasm_pclose`. -/
def TakesProcessBranch (s : Processes) (fd : Int) : Prop := 0 ≤ getPidForFd fd s.table

instance (s : Processes) (fd : Int) : Decidable (s.TakesProcessBranch fd) :=
  inferInstanceAs (Decidable (_ ≤ _))

/-- `__wrap_pclose`, as far as the table and the descriptor go. -/
def wrapPclose (fd : Int) (s : Processes) : Processes where
  table := if s.TakesProcessBranch fd then clearPidForFd fd s.table else s.table
  files := Function.update s.files fd none

/-- One event. -/
def step (s : Processes) : TableEvent → Processes
  | .start pid => { s with table := startProcess pid s.table }
  | .exit pid code => { s with table := exitProcess pid code s.table }
  | .setPid fd pid => { s with table := setPidForFd fd pid s.table }
  | .clearPid fd => { s with table := clearPidForFd fd s.table }
  | .fopen fd popenForWriting =>
    { s with files := Function.update s.files fd (some popenForWriting) }
  | .fclose fd => { s with files := Function.update s.files fd none }
  | .pclose fd => s.wrapPclose fd

end Processes

/-! ## The map -/

/-- The map from descriptors to processes. -/
structure PidMap where
  claims : Int → Option Nat
  /-- The processes that were started. -/
  started : List Nat
  files : Int → Option Bool

namespace PidMap

/-- No process was started yet. -/
def start (files : Int → Option Bool) : PidMap := ⟨fun _ => none, [], files⟩

/-- One event. -/
def step (m : PidMap) : TableEvent → PidMap
  | .start pid => { m with started := pid :: m.started }
  | .exit _ _ => m
  | .setPid fd pid =>
    if pid ∈ m.started then { m with claims := Function.update m.claims fd (some pid) } else m
  | .clearPid fd => { m with claims := Function.update m.claims fd none }
  | .fopen fd popenForWriting =>
    { m with files := Function.update m.files fd (some popenForWriting) }
  | .fclose fd => { m with files := Function.update m.files fd none }
  | .pclose fd =>
    { m with
      claims := Function.update m.claims fd none
      files := Function.update m.files fd none }

/-- The process of a descriptor, or -1. -/
def pidOf (m : PidMap) (fd : Int) : Int :=
  match m.claims fd with
  | some pid => pid
  | none => -1

/-- Nothing is overwritten that was not cleared before. -/
def Clears (m : PidMap) : TableEvent → Prop
  | .start pid => ∀ fd, m.claims fd ≠ some pid
  | .setPid fd pid =>
    pid ∈ m.started →
      (∀ fd', m.claims fd' = some pid → fd' = fd) ∧ (∀ pid', m.claims fd = some pid' → pid' = pid) ∧
        m.files fd ≠ some false
  | .fopen fd popenForWriting => popenForWriting = false → m.claims fd = none
  | _ => True

end PidMap

/-! ## What is asked of the table -/

/-- The entry of a process has the descriptor. -/
def Claims (table : List ProcInfo) (pid : Nat) (fd : Int) : Prop :=
  ∃ info ∈ table, info.pid = pid ∧ info.fd = some fd

/-- The table represents the map: lookups answer what is in the map, -1 where there is nothing, no
two processes have one descriptor, and `__wrap_pclose` of a `FILE *` that `wasm_popen` did not open
for writing does not lead to a process. -/
structure Represents (p : Processes × PidMap) : Prop where
  get : ∀ fd, getPidForFd fd p.1.table = p.2.pidOf fd
  once : ∀ pid pid' fd, Claims p.1.table pid fd → Claims p.1.table pid' fd → pid = pid'
  branch : ∀ fd, p.1.files fd = some false → ¬ p.1.TakesProcessBranch fd

/-- The table represents the map after every event. -/
def TableRight (files : Int → Option Bool) (events : List TableEvent) : Prop :=
  Machine.Along (Machine.both Processes.step PidMap.step)
    (fun p e => Represents (Machine.both Processes.step PidMap.step p e))
    (.start files, .start files) events

/-! ## Lookups -/

section

variable {table : List ProcInfo} {pid pid' : Nat} {fd fd' : Int}

/-- A lookup answers -1, and no process has the descriptor, or it answers one that has. -/
theorem getPidForFd_cases (fd : Int) (table : List ProcInfo) :
    (getPidForFd fd table = -1 ∧ ∀ pid, ¬ Claims table pid fd) ∨
      ∃ pid : Nat, getPidForFd fd table = pid ∧ Claims table pid fd := by
  rw [getPidForFd]
  split
  · rename_i info hfind
    have hfd : info.fd = some fd := by simpa using List.find?_some hfind
    exact .inr ⟨info.pid, rfl, info, List.mem_of_find?_eq_some hfind, rfl, hfd⟩
  · rename_i hfind
    refine .inl ⟨rfl, ?_⟩
    rintro pid ⟨info, hmem, -, hfd⟩
    exact List.find?_eq_none.1 hfind info hmem (decide_eq_true hfd)

theorem takesProcessBranch_iff {s : Processes} :
    s.TakesProcessBranch fd ↔ ∃ pid, Claims s.table pid fd := by
  rw [Processes.TakesProcessBranch]
  rcases getPidForFd_cases fd s.table with ⟨hget, hnone⟩ | ⟨pid, hget, hclaims⟩
  · rw [hget]
    exact iff_of_false (by omega) fun ⟨pid, hclaims⟩ => hnone pid hclaims
  · rw [hget]
    exact iff_of_true (Int.natCast_nonneg pid) ⟨pid, hclaims⟩

theorem pidOf_eq_neg_one_iff {m : PidMap} : m.pidOf fd = -1 ↔ m.claims fd = none := by
  rw [PidMap.pidOf]
  rcases m.claims fd with _ | pid
  · exact iff_of_true rfl rfl
  · exact iff_of_false (by dsimp only; omega) nofun

theorem pidOf_eq_natCast_iff {m : PidMap} : m.pidOf fd = pid ↔ m.claims fd = some pid := by
  rw [PidMap.pidOf]
  rcases m.claims fd with _ | pid'
  · exact iff_of_false (by dsimp only; omega) nofun
  · exact Int.natCast_inj.trans Option.some_inj.symm

/-- **The table represents the map** when its pairs are those of the map, and the descriptors of
other `FILE *`s are in no pair. -/
theorem represents_iff {p : Processes × PidMap} :
    Represents p ↔
      (∀ pid fd, Claims p.1.table pid fd ↔ p.2.claims fd = some pid) ∧
        ∀ fd, p.1.files fd = some false → p.2.claims fd = none := by
  constructor
  · intro h
    have hpairs : ∀ pid fd, Claims p.1.table pid fd ↔ p.2.claims fd = some pid := by
      intro pid fd
      rw [← pidOf_eq_natCast_iff, ← h.get]
      rcases getPidForFd_cases fd p.1.table with ⟨hget, hnone⟩ | ⟨pid', hget, hclaims⟩
      · rw [hget]
        exact iff_of_false (hnone pid) (by omega)
      · rw [hget, Int.natCast_inj]
        exact ⟨fun hc => h.once _ _ fd hclaims hc, fun heq => heq ▸ hclaims⟩
    refine ⟨hpairs, fun fd hfile => ?_⟩
    rw [Option.eq_none_iff_forall_ne_some]
    exact fun pid hc => h.branch fd hfile (takesProcessBranch_iff.2 ⟨pid, (hpairs pid fd).2 hc⟩)
  · rintro ⟨hpairs, hfiles⟩
    refine ⟨fun fd => ?_, fun pid pid' fd hc hc' => ?_, fun fd hfile hbranch => ?_⟩
    · rcases getPidForFd_cases fd p.1.table with ⟨hget, hnone⟩ | ⟨pid, hget, hclaims⟩
      · rw [hget, eq_comm, pidOf_eq_neg_one_iff, Option.eq_none_iff_forall_ne_some]
        exact fun pid hc => hnone pid ((hpairs pid fd).2 hc)
      · rw [hget, eq_comm, pidOf_eq_natCast_iff]
        exact (hpairs pid fd).1 hclaims
    · rw [hpairs] at hc hc'
      exact Option.some.inj (hc.symm.trans hc')
    · obtain ⟨pid, hc⟩ := takesProcessBranch_iff.1 hbranch
      rw [hpairs, hfiles fd hfile] at hc
      exact nomatch hc

/-! ## What each function does to the pairs -/

/-- The processes in the table. -/
def pids (table : List ProcInfo) : List Nat := table.map ProcInfo.pid

theorem mem_pids_iff : pid ∈ pids table ↔ ∃ info ∈ table, info.pid = pid := List.mem_map

theorem claims_cons {info : ProcInfo} :
    Claims (info :: table) pid fd ↔ (info.pid = pid ∧ info.fd = some fd) ∨ Claims table pid fd :=
  List.exists_mem_cons_iff ..

/-- A new process has no descriptor, not even when its pid had one. -/
theorem claims_startProcess :
    Claims (startProcess pid' table) pid fd ↔ pid ≠ pid' ∧ Claims table pid fd := by
  constructor
  · rintro ⟨info, hmem, rfl, hfd⟩
    rcases List.mem_append.1 hmem with hmem | hmem
    · obtain ⟨hmem, hlt⟩ := List.mem_filter.1 hmem
      exact ⟨Nat.ne_of_lt (of_decide_eq_true hlt), info, hmem, rfl, hfd⟩
    rcases List.mem_cons.1 hmem with rfl | hmem
    · exact nomatch hfd
    · obtain ⟨hmem, hlt⟩ := List.mem_filter.1 hmem
      exact ⟨Nat.ne_of_gt (of_decide_eq_true hlt), info, hmem, rfl, hfd⟩
  · rintro ⟨hne, info, hmem, rfl, hfd⟩
    refine ⟨info, List.mem_append.2 ?_, rfl, hfd⟩
    rcases Nat.lt_or_gt_of_ne hne with hlt | hlt
    · exact .inl (List.mem_filter.2 ⟨hmem, decide_eq_true hlt⟩)
    · exact .inr (List.mem_cons_of_mem _ (List.mem_filter.2 ⟨hmem, decide_eq_true hlt⟩))

theorem claims_exitProcess {code : BitVec 32} :
    Claims (exitProcess pid' code table) pid fd ↔ Claims table pid fd := by
  induction table with
  | nil => exact Iff.rfl
  | cons info table ih =>
    rw [exitProcess, List.map_cons, claims_cons, claims_cons]
    refine or_congr ?_ ih
    split <;> exact Iff.rfl

/-- A process that is in the table gets the descriptor and loses the one it had. -/
theorem claims_setPidForFd :
    Claims (setPidForFd fd' pid' table) pid fd ↔
      if pid = pid' then pid ∈ pids table ∧ fd = fd' else Claims table pid fd := by
  constructor
  · rintro ⟨_, hmem, hpid, hfd⟩
    obtain ⟨info, hinfo, rfl⟩ := List.mem_map.1 hmem
    by_cases heq : (info.pid : Int) = pid'
    · rw [if_pos heq] at hpid hfd
      rw [if_pos (hpid.symm.trans (Int.natCast_inj.1 heq))]
      exact ⟨mem_pids_iff.2 ⟨info, hinfo, hpid⟩, (Option.some.inj hfd).symm⟩
    · rw [if_neg heq] at hpid hfd
      rw [if_neg fun h => heq (Int.natCast_inj.2 (hpid.trans h))]
      exact ⟨info, hinfo, hpid, hfd⟩
  · split
    · rename_i heq
      rintro ⟨hmem, rfl⟩
      obtain ⟨info, hmem, hpid⟩ := mem_pids_iff.1 hmem
      refine ⟨_, List.mem_map_of_mem hmem, ?_⟩
      rw [if_pos (Int.natCast_inj.2 (hpid.trans heq))]
      exact ⟨hpid, rfl⟩
    · rename_i hne
      rintro ⟨info, hmem, hpid, hfd⟩
      refine ⟨_, List.mem_map_of_mem hmem, ?_⟩
      rw [if_neg fun h => hne (hpid.symm.trans (Int.natCast_inj.1 h))]
      exact ⟨hpid, hfd⟩

/-- `js_popen_set_pid_for_fd` of a process that was never started does nothing. -/
theorem setPidForFd_of_notMem (h : pid' ∉ pids table) : setPidForFd fd' pid' table = table := by
  refine (List.map_congr_left fun info hinfo => ?_).trans (List.map_id table)
  exact if_neg fun heq => h (mem_pids_iff.2 ⟨info, hinfo, Int.natCast_inj.1 heq⟩)

/-- The descriptor is cleared, if only one process had it. -/
theorem claims_clearPidForFd
    (h : table.Pairwise fun a b => ¬ (a.fd = some fd' ∧ b.fd = some fd')) :
    Claims (clearPidForFd fd' table) pid fd ↔ fd ≠ fd' ∧ Claims table pid fd := by
  induction table with
  | nil =>
    have hnone : ¬ Claims [] pid fd := by
      rintro ⟨info, hmem, -⟩
      exact absurd hmem List.not_mem_nil
    exact iff_of_false hnone fun hc => hnone hc.2
  | cons info table ih =>
    obtain ⟨hhead, htail⟩ := List.pairwise_cons.1 h
    rw [clearPidForFd]
    split
    · -- the loop stops here, so nothing behind this entry may have the descriptor
      rename_i hinfo
      rw [claims_cons, claims_cons, or_iff_right fun hc => Option.some_ne_none fd hc.2.symm]
      constructor
      · intro hc
        refine ⟨?_, .inr hc⟩
        rintro rfl
        obtain ⟨info', hmem, -, hfd⟩ := hc
        exact hhead info' hmem ⟨hinfo, hfd⟩
      · rintro ⟨hne, ⟨-, hfd⟩ | hc⟩
        · exact absurd (Option.some.inj (hfd.symm.trans hinfo)) hne
        · exact hc
    · rename_i hinfo
      rw [claims_cons, claims_cons, ih htail, and_or_left]
      refine or_congr (iff_and_self.2 ?_) Iff.rfl
      rintro ⟨-, hfd⟩ rfl
      exact hinfo hfd

/-! The processes in the table only change when one is started. -/

@[simp] theorem pids_exitProcess (pid : Nat) (code : BitVec 32) (table : List ProcInfo) :
    pids (exitProcess pid code table) = pids table := by
  rw [pids, exitProcess, List.map_map]
  refine List.map_congr_left fun info _ => ?_
  rw [Function.comp_apply]
  split <;> rfl

@[simp] theorem pids_setPidForFd (fd pid : Int) (table : List ProcInfo) :
    pids (setPidForFd fd pid table) = pids table := by
  rw [pids, setPidForFd, List.map_map]
  refine List.map_congr_left fun info _ => ?_
  rw [Function.comp_apply]
  split <;> rfl

@[simp] theorem pids_clearPidForFd (fd : Int) (table : List ProcInfo) :
    pids (clearPidForFd fd table) = pids table := by
  induction table with
  | nil => rfl
  | cons info table ih =>
    rw [clearPidForFd]
    split
    · rfl
    · exact congrArg (info.pid :: ·) ih

theorem pids_startProcess (pid : Nat) (table : List ProcInfo) :
    pids (startProcess pid table) =
      (pids table).filter (· < pid) ++ pid :: (pids table).filter (pid < ·) := by
  rw [pids, startProcess, List.map_append, List.map_cons, pids, List.filter_map, List.filter_map]
  rfl

theorem mem_pids_startProcess :
    pid ∈ pids (startProcess pid' table) ↔ pid = pid' ∨ pid ∈ pids table := by
  rw [pids_startProcess]
  simp only [List.mem_append, List.mem_cons, List.mem_filter, decide_eq_true_eq]
  constructor
  · rintro (⟨hmem, -⟩ | rfl | ⟨hmem, -⟩)
    · exact .inr hmem
    · exact .inl rfl
    · exact .inr hmem
  · rintro (rfl | hmem)
    · exact .inr (.inl rfl)
    · rcases Nat.lt_trichotomy pid pid' with hlt | rfl | hlt
      · exact .inl ⟨hmem, hlt⟩
      · exact .inr (.inl rfl)
      · exact .inr (.inr ⟨hmem, hlt⟩)

/-- The table stays in the order of a `for in` loop. -/
theorem sorted_startProcess (h : (pids table).Pairwise (· < ·)) :
    (pids (startProcess pid table)).Pairwise (· < ·) := by
  rw [pids_startProcess, List.pairwise_append, List.pairwise_cons]
  refine ⟨h.filter _, ⟨fun q hq => ?_, h.filter _⟩, fun p hp q hq => ?_⟩
  · exact of_decide_eq_true (List.mem_filter.1 hq).2
  · have hp := of_decide_eq_true (List.mem_filter.1 hp).2
    rcases List.mem_cons.1 hq with rfl | hq
    · exact hp
    · exact hp.trans (of_decide_eq_true (List.mem_filter.1 hq).2)

end

/-! ## One event -/

/-- What is true of the table in every run, right or not. -/
structure Tidy (p : Processes × PidMap) : Prop where
  sorted : (pids p.1.table).Pairwise (· < ·)
  started : ∀ pid, pid ∈ p.2.started ↔ pid ∈ pids p.1.table
  files : p.1.files = p.2.files

section

variable {s : Processes} {m : PidMap} {pid : Nat} {fd fd' : Int}

theorem Tidy.step (h : Tidy (s, m)) (e : TableEvent) : Tidy (s.step e, m.step e) := by
  obtain ⟨hsorted, hstarted, hfiles⟩ := h
  rcases e with pid | ⟨pid, code⟩ | ⟨fd, pid⟩ | fd | ⟨fd, popenForWriting⟩ | fd | fd
  · refine ⟨sorted_startProcess hsorted, fun pid' => ?_, hfiles⟩
    rw [Processes.step, mem_pids_startProcess, PidMap.step, List.mem_cons]
    exact or_congr_right (hstarted pid')
  · rw [Processes.step, PidMap.step]
    exact ⟨by simpa using hsorted, by simpa using hstarted, hfiles⟩
  · rw [Processes.step, PidMap.step]
    split <;> exact ⟨by simpa using hsorted, by simpa using hstarted, hfiles⟩
  · rw [Processes.step, PidMap.step]
    exact ⟨by simpa using hsorted, by simpa using hstarted, hfiles⟩
  · exact ⟨hsorted, hstarted, congrArg (Function.update · fd _) hfiles⟩
  · exact ⟨hsorted, hstarted, congrArg (Function.update · fd _) hfiles⟩
  · have hpids : pids (s.wrapPclose fd).table = pids s.table := by
      rw [Processes.wrapPclose]
      split
      · exact pids_clearPidForFd fd s.table
      · rfl
    refine ⟨?_, fun pid => ?_, congrArg (Function.update · fd _) hfiles⟩
    · rw [Processes.step, hpids]
      exact hsorted
    · rw [Processes.step, hpids]
      exact hstarted pid

/-- Where the table represents the map, one entry at most has a descriptor. -/
theorem Tidy.one_entry (h : Tidy (s, m)) (hr : Represents (s, m)) (fd : Int) :
    s.table.Pairwise fun a b => ¬ (a.fd = some fd ∧ b.fd = some fd) := by
  refine (List.pairwise_map.1 h.sorted).imp_of_mem ?_
  rintro a b ha hb hlt ⟨hafd, hbfd⟩
  have heq : a.pid = b.pid := hr.once _ _ fd ⟨a, ha, rfl, hafd⟩ ⟨b, hb, rfl, hbfd⟩
  omega

/-- What is left of the map when a descriptor is cleared. -/
theorem update_none_eq_some_iff :
    Function.update m.claims fd none fd' = some pid ↔ fd' ≠ fd ∧ m.claims fd' = some pid := by
  by_cases heq : fd' = fd
  · rw [heq, Function.update_self]
    exact iff_of_false nofun fun h => h.1 rfl
  · rw [Function.update_of_ne heq, and_iff_right heq]

/-- A process that starts loses the descriptor of an earlier one with its pid. -/
theorem represents_start_iff (hr : Represents (s, m)) :
    Represents (s.step (.start pid), m.step (.start pid)) ↔ ∀ fd, m.claims fd ≠ some pid := by
  obtain ⟨hpairs, hfiles⟩ := represents_iff.1 hr
  rw [represents_iff]
  constructor
  · rintro ⟨hpairs', -⟩ fd hc
    exact (claims_startProcess.1 ((hpairs' pid fd).2 hc)).1 rfl
  · refine fun hfree => ⟨fun pid' fd => ?_, hfiles⟩
    rw [Processes.step, claims_startProcess, hpairs]
    exact and_iff_right_of_imp fun hc heq => hfree fd (heq ▸ hc)

/-- Setting a descriptor overwrites the one of the process, and leaves another process with it. -/
theorem represents_setPid_iff (h : Tidy (s, m)) (hr : Represents (s, m)) :
    Represents (s.step (.setPid fd pid), m.step (.setPid fd pid)) ↔ m.Clears (.setPid fd pid) := by
  obtain ⟨hpairs, hfiles⟩ := represents_iff.1 hr
  rw [represents_iff]
  by_cases hmem : pid ∈ m.started
  · have hstep : m.step (.setPid fd pid) =
        { m with claims := Function.update m.claims fd (some pid) } := if_pos hmem
    have hclaims : ∀ pid' fd', Claims (s.step (.setPid fd pid)).table pid' fd' ↔
        if pid' = pid then fd' = fd else m.claims fd' = some pid' := by
      intro pid' fd'
      rw [Processes.step, claims_setPidForFd, hpairs]
      split
      · rename_i heq
        exact and_iff_right (heq ▸ (h.started pid).1 hmem)
      · exact Iff.rfl
    rw [hstep, show (s.step (.setPid fd pid)).files = m.files from h.files]
    rw [show s.files = m.files from h.files] at hfiles
    simp only [hclaims, PidMap.Clears, hmem, forall_const]
    constructor
    · rintro ⟨hpairs', hfiles'⟩
      refine ⟨fun fd' hc => ?_, fun pid' hc => ?_, fun hfile => ?_⟩
      · by_contra hne
        have hlost := (hpairs' pid fd').2 (by rw [Function.update_of_ne hne, hc])
        rw [if_pos rfl] at hlost
        exact hne hlost
      · by_contra hne
        have hboth := (hpairs' pid' fd).1 (by rw [if_neg hne, hc])
        rw [Function.update_self] at hboth
        exact hne (Option.some.inj hboth).symm
      · have hnone := hfiles' fd hfile
        rw [Function.update_self] at hnone
        exact nomatch hnone
    · rintro ⟨hown, hfree, hfile⟩
      refine ⟨fun pid' fd' => ?_, fun fd' hfile' => ?_⟩
      · by_cases hfd : fd' = fd
        · rw [hfd, Function.update_self, Option.some_inj]
          split
          · rename_i heq
            exact iff_of_true rfl heq.symm
          · rename_i hne
            exact iff_of_false (fun hc => hne (hfree pid' hc)) fun heq => hne heq.symm
        · rw [Function.update_of_ne hfd]
          split
          · rename_i heq
            exact iff_of_false hfd fun hc => hfd (hown fd' (heq ▸ hc))
          · exact Iff.rfl
      · have hne : fd' ≠ fd := fun heq => hfile (heq ▸ hfile')
        rw [Function.update_of_ne hne]
        exact hfiles fd' hfile'
  · have hm : m.step (.setPid fd pid) = m := if_neg hmem
    have hs : s.step (.setPid fd pid) = s := by
      rw [Processes.step, setPidForFd_of_notMem fun hc => hmem ((h.started pid).2 hc)]
    rw [hm, hs]
    exact iff_of_true (represents_iff.1 hr) fun hc => absurd hc hmem

/-- Clearing a descriptor does what it is meant to do. -/
theorem represents_clearPid (h : Tidy (s, m)) (hr : Represents (s, m)) :
    Represents (s.step (.clearPid fd), m.step (.clearPid fd)) := by
  obtain ⟨hpairs, hfiles⟩ := represents_iff.1 hr
  refine represents_iff.2 ⟨fun pid fd' => ?_, fun fd' hfile => ?_⟩
  · rw [Processes.step, claims_clearPidForFd (h.one_entry hr fd), hpairs, PidMap.step,
      update_none_eq_some_iff]
  · rw [Option.eq_none_iff_forall_ne_some]
    intro pid hc
    have hnone := hfiles fd' hfile
    rw [(update_none_eq_some_iff.1 hc).2] at hnone
    exact nomatch hnone

/-- A descriptor that gets a `FILE *` has to be free, unless it is for a process. -/
theorem represents_fopen_iff (hr : Represents (s, m)) {popenForWriting : Bool} :
    Represents (s.step (.fopen fd popenForWriting), m.step (.fopen fd popenForWriting)) ↔
      (popenForWriting = false → m.claims fd = none) := by
  obtain ⟨hpairs, hfiles⟩ := represents_iff.1 hr
  rw [represents_iff]
  constructor
  · rintro ⟨-, hfiles'⟩ rfl
    exact hfiles' fd (Function.update_self ..)
  · refine fun hfree => ⟨hpairs, fun fd' hfile => ?_⟩
    by_cases heq : fd' = fd
    · subst heq
      have hnew : Function.update s.files fd' (some popenForWriting) fd' = some false := hfile
      rw [Function.update_self] at hnew
      exact hfree (Option.some.inj hnew)
    · exact hfiles fd' ((Function.update_of_ne heq ..).symm.trans hfile)

/-- Closing a `FILE *` does no harm. -/
theorem represents_fclose (hr : Represents (s, m)) :
    Represents (s.step (.fclose fd), m.step (.fclose fd)) := by
  obtain ⟨hpairs, hfiles⟩ := represents_iff.1 hr
  refine represents_iff.2 ⟨hpairs, fun fd' hfile => ?_⟩
  have hne : fd' ≠ fd := by
    rintro rfl
    exact nomatch (Function.update_self ..).symm.trans hfile
  exact hfiles fd' ((Function.update_of_ne hne ..).symm.trans hfile)

/-- `__wrap_pclose` of a `FILE *` of a process clears the descriptor, and there is nothing to clear
for any other. -/
theorem represents_pclose (h : Tidy (s, m)) (hr : Represents (s, m)) :
    Represents (s.step (.pclose fd), m.step (.pclose fd)) := by
  by_cases hbranch : s.TakesProcessBranch fd
  · have hs : s.step (.pclose fd) = (s.step (.clearPid fd)).step (.fclose fd) := by
      simp only [Processes.step, Processes.wrapPclose, if_pos hbranch]
    rw [hs]
    exact represents_fclose (represents_clearPid h hr)
  · have hs : s.step (.pclose fd) = s.step (.fclose fd) := by
      simp only [Processes.step, Processes.wrapPclose, if_neg hbranch]
    have hnone : m.claims fd = none := by
      rw [Option.eq_none_iff_forall_ne_some]
      intro pid hc
      exact hbranch (takesProcessBranch_iff.2 ⟨pid, ((represents_iff.1 hr).1 pid fd).2 hc⟩)
    have hsame : Function.update m.claims fd none = m.claims := by
      rw [← hnone, Function.update_eq_self]
    have hm : m.step (.pclose fd) = m.step (.fclose fd) := by
      simp only [PidMap.step, hsame]
    rw [hs, hm]
    exact represents_fclose hr

/-- **One event.**  The table goes on representing the map exactly when nothing is overwritten that
was not cleared before. -/
theorem represents_step_iff (h : Tidy (s, m)) (hr : Represents (s, m)) (e : TableEvent) :
    Represents (s.step e, m.step e) ↔ m.Clears e := by
  rcases e with pid | ⟨pid, code⟩ | ⟨fd, pid⟩ | fd | ⟨fd, popenForWriting⟩ | fd | fd
  · exact represents_start_iff hr
  · obtain ⟨hpairs, hfiles⟩ := represents_iff.1 hr
    refine iff_of_true (represents_iff.2 ⟨fun pid' fd => ?_, hfiles⟩) trivial
    exact claims_exitProcess.trans (hpairs pid' fd)
  · exact represents_setPid_iff h hr
  · exact iff_of_true (represents_clearPid h hr) trivial
  · exact represents_fopen_iff hr
  · exact iff_of_true (represents_fclose hr) trivial
  · exact iff_of_true (represents_pclose h hr) trivial

end

/-- **When the table represents the map** in every state of a run. -/
theorem tableRight_iff (files : Int → Option Bool) (events : List TableEvent) :
    TableRight files events ↔ Machine.Along PidMap.step PidMap.Clears (.start files) events := by
  have hstart : Tidy (.start files, .start files) ∧
      Represents (.start files, .start files) := by
    refine ⟨⟨List.Pairwise.nil, fun _ => Iff.rfl, rfl⟩, represents_iff.2 ⟨fun pid fd => ?_, ?_⟩⟩
    · exact iff_of_false nofun nofun
    · exact fun _ _ => rfl
  calc TableRight files events
      ↔ Machine.Along (Machine.both Processes.step PidMap.step) (fun p e => p.2.Clears e)
          (.start files, .start files) events :=
        Machine.along_congr (I := fun p => Tidy p ∧ Represents p)
          (fun _ e hp hright => ⟨hp.1.step e, hright⟩)
          (fun _ e hp => represents_step_iff hp.1 hp.2 e) hstart
    _ ↔ Machine.Along PidMap.step PidMap.Clears (.start files) events := Machine.along_both_snd

/-- Two processes get one descriptor, and it is cleared: the lookup answers the other process.
Where the descriptor is only closed, `__wrap_pclose` takes the next `FILE *` with it for a process;
where the process gets another descriptor, or another process its pid, the first is forgotten. -/
theorem cleared_descriptor_is_found :
    let noFile : Int → Option Bool := fun _ => none
    let after := fun events => Machine.run Processes.step (.start noFile) events
    let twice := [TableEvent.start 1, .start 2, .setPid 3 2, .setPid 3 1, .clearPid 3]
    getPidForFd 3 (after twice).table = 2 ∧ ¬ TableRight noFile twice ∧
      (after [.start 1, .setPid 3 1, .fclose 3, .fopen 3 false]).TakesProcessBranch 3 ∧
      getPidForFd 3 (after [.start 1, .setPid 3 1, .setPid 4 1]).table = -1 ∧
      getPidForFd 3 (after [.start 1, .setPid 3 1, .start 1]).table = -1 := by
  refine ⟨by decide, fun h => ?_, by decide, by decide, by decide⟩
  exact absurd (h.2.2.2.2.1.get 3) (by decide)

end PhpWasm.Popen
