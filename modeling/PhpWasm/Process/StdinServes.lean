import PhpWasm.Process.StdinInvariant

/-!
# When the pumps serve the children

`pumpTurn_cases` lists what one turn of the loop in `pump` can do.  Together with the other events
it gives `inv_step`, from there `serves_step`, and for runs `Pumps.serves_of_careful`.
-/

set_option autoImplicit false

namespace PhpWasm.Process

open Posix Memory

namespace Pumps

variable {s : Pumps} {p : Ptr} {proc : StdinProc}

/-! ## One turn of the loop -/

/-- Reading from one's own pipe. -/
theorem jsFdRead_own (hp : s.procs.read p = some proc) {m : PumpMem} (hl : m.Live s.heap)
    (hget : s.fds.get proc.stdinChildFd = some (.stdin p)) :
    s.jsFdRead proc.stdinChildFd m.iov m.pnum =
      let (res, pipe) := proc.pipe.read chunkSize
      let s' := { s with procs := s.procs.write p { proc with pipe } }
      match res with
      | .data bs =>
        (.success, { s' with heap := (fill s.heap m.buffer bs).write m.pnum (.word bs.length) })
      | .eof => (.success, { s' with heap := s.heap.write m.pnum (.word 0) })
      | .wouldBlock => (.eagain, s') := by
  rw [jsFdRead, hget, hl.iov]
  dsimp only
  rw [doReadv, hp]
  dsimp only
  cases (proc.pipe.read chunkSize).1 <;> rfl

/-- The end of the pipe is found by reading it. -/
theorem pumpTurn_of_eof (hp : s.procs.read p = some proc) {m : PumpMem} (hl : m.Live s.heap)
    (hget : s.fds.get proc.stdinChildFd = some (.stdin p)) (hk : proc.killed = false)
    (hbuf : proc.pipe.buffer = []) (hw : proc.pipe.writeEnd = false) (closed : Bool) :
    s.pumpTurn p proc m closed =
      { s with heap := s.heap.write m.pnum (.word 0) }.stopPumpingAndCloseStdin p m closed := by
  have hread : proc.pipe.read chunkSize = (.eof, proc.pipe) := by
    rw [Pipe.read_of_nil hbuf, hw]
    rfl
  have hself : s.procs.write p { proc with pipe := proc.pipe } = s.procs := Heap.write_of_read hp
  rw [pumpTurn, if_neg (by simp [hk]), jsFdRead_own hp hl hget, hread]
  dsimp only
  rw [hself, hl.wordAt_write_pnum, if_neg (Nat.lt_irrefl 0)]

theorem pumpTurn_of_wouldBlock (hp : s.procs.read p = some proc) {m : PumpMem}
    (hl : m.Live s.heap) (hget : s.fds.get proc.stdinChildFd = some (.stdin p))
    (hk : proc.killed = false) (hbuf : proc.pipe.buffer = []) (hw : proc.pipe.writeEnd = true)
    (closed : Bool) : s.pumpTurn p proc m closed = { s with pumping := none } := by
  have hread : proc.pipe.read chunkSize = (.wouldBlock, proc.pipe) := by
    rw [Pipe.read_of_nil hbuf, hw]
    rfl
  have hself : s.procs.write p { proc with pipe := proc.pipe } = s.procs := Heap.write_of_read hp
  rw [pumpTurn, if_neg (by simp [hk]), jsFdRead_own hp hl hget, hread]
  dsimp only
  rw [hself]

/-- `s'` is left when the pump has handed out some of the data in its pipe. -/
def HandsOut (s : Pumps) (p : Ptr) (proc : StdinProc) (m : PumpMem) (s' : Pumps) : Prop :=
  ∃ bs pipe, bs ≠ [] ∧ bs ++ pipe.buffer = proc.pipe.buffer ∧
    pipe.writeEnd = proc.pipe.writeEnd ∧
    (∀ q, s'.procs.read q =
      if q = p then some ({ proc with pipe }.stdinWrite bs.length) else s.procs.read q) ∧
    s'.heap = (fill s.heap m.buffer bs).write m.pnum (.word bs.length) ∧
    s'.fds = s.fds ∧ s'.opening = s.opening

/-- Data is read into the buffer and handed out. -/
theorem pumpTurn_of_data (hp : s.procs.read p = some proc) {m : PumpMem} (hl : m.Live s.heap)
    (hget : s.fds.get proc.stdinChildFd = some (.stdin p)) (hk : proc.killed = false)
    (hbuf : proc.pipe.buffer ≠ []) (closed : Bool) :
    s.HandsOut p proc m (s.pumpTurn p proc m closed) := by
  have hne : proc.pipe.buffer.take chunkSize ≠ [] := by simp [chunkSize, hbuf]
  have hread := Pipe.read_of_ne_nil hbuf chunkSize
  have hbs := List.take_append_drop chunkSize proc.pipe.buffer
  generalize proc.pipe.buffer.take chunkSize = bs at hne hread hbs
  generalize hrest : proc.pipe.buffer.drop chunkSize = rest at hread hbs
  have hp' : (s.procs.write p { proc with pipe := { proc.pipe with buffer := rest } }).read p =
      some { proc with pipe := { proc.pipe with buffer := rest } } := Heap.read_write_self hp _
  refine ⟨bs, { proc.pipe with buffer := rest }, hne, hbs, rfl, ?_⟩
  rw [pumpTurn, if_neg (by simp [hk]), jsFdRead_own hp hl hget, hread]
  dsimp only
  rw [(hl.fill bs).wordAt_write_pnum, if_pos (List.length_pos_iff.2 hne)]
  refine ⟨fun q => ?_, ?_, ?_, ?_⟩
  · rw [read_modify hp']
    by_cases hqp : q = p
    · rw [if_pos hqp, if_pos hqp]
    · rw [if_neg hqp, if_neg hqp]
      exact Heap.read_write_of_ne _ hqp _
  all_goals rw [modify_eq hp']

/-- **What a turn can do**: stop for a reason, go to sleep, or hand out data. -/
theorem pumpTurn_cases (hinv : s.Inv) (hp : s.procs.read p = some proc) {m : PumpMem}
    (hm : proc.phase = .running m) (closed : Bool) :
    (∃ heap, (heap = s.heap ∨ heap = s.heap.write m.pnum (.word 0)) ∧
      (proc.killed = true ∨ proc.exited = true ∨ proc.pipe.AtEof) ∧ ¬ s.WouldBlock proc ∧
      s.pumpTurn p proc m closed = { s with heap }.stopPumpingAndCloseStdin p m closed) ∨
    (s.WouldBlock proc ∧ s.pumpTurn p proc m closed = { s with pumping := none }) ∨
    (¬ s.WouldBlock proc ∧ s.HandsOut p proc m (s.pumpTurn p proc m closed)) := by
  have hsound := hinv.sound p proc hp
  have hl := hsound.live m hm
  have hpend := StdinProc.pending_of_running hm
  by_cases hk : proc.killed = true
  · have hno : ¬ s.WouldBlock proc := fun h => by rw [h.1] at hk; cases hk
    refine Or.inl ⟨s.heap, Or.inl rfl, Or.inl hk, hno, ?_⟩
    rw [pumpTurn, if_pos hk]
  · rw [Bool.not_eq_true] at hk
    cases hget : s.fds.get proc.stdinChildFd with
    | none =>
      have hx : proc.exited = true := by
        by_contra hx
        rw [hsound.childOpen (by simpa using hx)] at hget
        cases hget
      refine Or.inl ⟨s.heap, Or.inl rfl, Or.inr (Or.inl hx), fun h => h.2.1 hget, ?_⟩
      rw [pumpTurn, if_neg (by simp [hk]), jsFdRead, hget]
    | some ref =>
      rw [hsound.own hpend hget] at hget
      by_cases hbuf : proc.pipe.buffer = []
      · cases hw : proc.pipe.writeEnd with
        | false =>
          have hno : ¬ s.WouldBlock proc := fun h => by rw [h.2.2.2] at hw; cases hw
          exact Or.inl ⟨_, Or.inr rfl, Or.inr (Or.inr ⟨hbuf, hw⟩), hno,
            pumpTurn_of_eof hp hl hget hk hbuf hw closed⟩
        | true =>
          refine Or.inr (Or.inl ⟨⟨hk, ?_, hbuf, hw⟩, ?_⟩)
          · rw [hget]
            exact Option.some_ne_none _
          · exact pumpTurn_of_wouldBlock hp hl hget hk hbuf hw closed
      · exact Or.inr (Or.inr ⟨fun h => hbuf h.2.2.1,
          pumpTurn_of_data hp hl hget hk hbuf closed⟩)

theorem Inv.pump (hinv : s.Inv) (x : Option Ptr) : Inv { s with pumping := x } :=
  ⟨hinv.sound, hinv.waiting, hinv.apart⟩

theorem Inv.write_pnum (hinv : s.Inv) (hp : s.procs.read p = some proc) {m : PumpMem}
    (hm : proc.phase = .running m) (n : Nat) :
    Inv { s with heap := s.heap.write m.pnum (.word n) } := by
  have hmem := StdinProc.mem_of_running hm
  refine ⟨fun q other hq => ?_, hinv.waiting, hinv.apart⟩
  by_cases hqp : q = p
  · subst hqp
    obtain rfl := Option.some.inj (hp.symm.trans hq)
    exact (hinv.sound q proc hp).write_pnum hm n
  · refine hinv.frame_others hp (fun b hb => Heap.read_write_of_ne _ ?_ _) rfl q other hqp hq
    rintro rfl
    exact hb ((StdinProc.mem_blocks hmem _).2 (Or.inr (Or.inr rfl)))

theorem Inv.pumpTurn (hinv : s.Inv) (hp : s.procs.read p = some proc) {m : PumpMem}
    (hm : proc.phase = .running m) (ht : s.TurnInTime proc) (closed : Bool) :
    (s.pumpTurn p proc m closed).Inv := by
  have hnil : ¬ s.WouldBlock proc → proc.chunks = [] := ht.1.resolve_right
  rcases pumpTurn_cases hinv hp hm closed with
    ⟨heap, hheap, hwhy, hno, heq⟩ | ⟨-, heq⟩ | ⟨hno, bs, pipe, -, hbs, hw, hread, hheap, hfds,
      hopening⟩
  · have hfin : proc.exited = true ∨ proc.pipe.buffer = [] := by
      rcases hwhy with hk | hx | heof
      · exact ht.2 hk
      · exact Or.inl hx
      · exact Or.inr heof.1
    have hinv' : Inv { s with heap } := by
      rcases hheap with rfl | rfl
      · exact hinv
      · exact hinv.write_pnum hp hm 0
    rw [heq]
    exact hinv'.stop hp hm (hnil hno) hfin closed
  · rw [heq]
    exact hinv.pump none
  · have hsound := (hinv.sound p proc hp).stdinWrite hm (hnil hno) hbs hw
    refine hinv.of_same hp hread ?_ ?_ rfl hopening
    · rw [hheap, hfds]
      exact hsound.write_pnum hm _
    · rw [hheap, hfds]
      refine hinv.frame_others hp (fun b hb => ?_) rfl
      have hne := StdinProc.ne_of_notMem_blocks hm hb
      rw [Heap.read_write_of_ne _ hne.2.2]
      exact Heap.read_write_of_ne _ hne.1 _

/-! ## The run -/

theorem phpRuns_iff : s.phpRuns = true ↔ s.pumping = none ∧ s.opening = none := by
  simp [phpRuns, idle]

/-- A careful step keeps the invariant. -/
theorem inv_step {e : StdinEvent} (hinv : s.Inv) (hc : s.Careful e) : (s.step e).Inv := by
  cases e with
  | openProcess c d =>
    rw [step]
    split
    · rename_i h
      exact hinv.jsOpenProcess (phpRuns_iff.1 h.1).2 h.2 hc.1 hc.2
    · exact hinv
  | settle resolved =>
    rw [step]
    split
    · rename_i p hopening
      split
      · rename_i proc hp
        split
        · exact hinv.jsOpened hopening hp resolved
        · exact hinv
      · exact hinv
    · exact hinv
  | tick p =>
    rw [step]
    split
    · split
      · split
        · exact hinv.pump (some p)
        · exact hinv
      · exact hinv
    · exact hinv
  | turn closed =>
    rw [step]
    split
    · rename_i p hpump
      split
      · rename_i proc hp
        split
        · rename_i m hm
          exact hinv.pumpTurn hp hm (hc p hpump proc hp) closed
        · exact hinv
      · exact hinv
    · exact hinv
  | consume p n garbage =>
    exact hinv.modify (fun proc hp => (hinv.sound p proc hp).consume n garbage)
      fun proc => phase_consume proc s.heap n garbage
  | kill p =>
    rw [step]
    split
    · exact hinv.modify (fun proc hp => (hinv.sound p proc hp).kill) fun _ => rfl
    · exact hinv
  | exit p =>
    rw [step]
    split
    · rename_i proc hp
      split
      · rename_i h
        exact hinv.exitHandler hp h.2
      · exact hinv
    · exact hinv
  | phpWrite p bs =>
    rw [step]
    split
    · rename_i h
      refine hinv.modify (fun proc hp => ?_) fun proc => phase_phpWrite proc bs
      refine (hinv.sound p proc hp).phpWrite (fun hw => ?_) (hc proc hp)
      -- PHP runs, so it waits for no process
      have hopening := (hinv.waiting p proc hp).1 hw
      rw [(phpRuns_iff.1 h).2] at hopening
      cases hopening
    · exact hinv
  | phpClose p =>
    rw [step]
    split
    · rename_i proc hp
      split
      · rename_i h
        exact hinv.phpClose hp h.2
      · exact hinv
    · exact hinv
  | openOther fd file =>
    rw [step]
    split
    · rename_i h
      exact hinv.openOther (Option.isNone_iff_eq_none.1 h.2) hc _
    · exact hinv
  | closeOther fd =>
    rw [step]
    split
    · rename_i file hget
      split
      · exact hinv.closeOther hget
      · exact hinv
    · exact hinv
  | grow => exact hinv.grow hc

/-- A turn with a closed pipe gets on. -/
theorem pumpTurn_progress (hinv : s.Inv) (hp : s.procs.read p = some proc) {m : PumpMem}
    (hm : proc.phase = .running m) (hw : proc.pipe.writeEnd = false) (closed : Bool) :
    ∃ proc', (s.pumpTurn p proc m closed).procs.read p = some proc' ∧
      (proc'.pipe.buffer.length < proc.pipe.buffer.length ∨ proc'.phase = .stopped m) := by
  rcases pumpTurn_cases hinv hp hm closed with
    ⟨heap, -, -, -, heq⟩ | ⟨hblock, -⟩ | ⟨-, bs, pipe, hne, hbs, -, hread, -⟩
  · have hp' : { s with heap }.procs.read p = some proc := hp
    refine ⟨proc.stop m closed, ?_, Or.inr rfl⟩
    rw [heq]
    exact (read_modify hp' _ p).trans (if_pos rfl)
  · rw [hblock.2.2.2] at hw
    cases hw
  · refine ⟨{ proc with pipe }.stdinWrite bs.length, ?_, Or.inl ?_⟩
    · rw [hread, if_pos rfl]
    · rw [← hbs, List.length_append]
      exact Nat.lt_add_of_pos_left (List.length_pos_iff.2 hne)

theorem step_turn (hpump : s.pumping = some p) (hp : s.procs.read p = some proc) {m : PumpMem}
    (hm : proc.phase = .running m) (closed : Bool) :
    s.step (.turn closed) = s.pumpTurn p proc m closed := by
  rw [step, hpump]
  dsimp only
  rw [hp]
  dsimp only
  rw [hm]

/-- Under the invariant a careful step does what is asked of it. -/
theorem serves_step {e : StdinEvent} (hinv : s.Inv) (hc : s.Careful e) : s.Serves e where
  faithful p proc hp := ((inv_step hinv hc).sound p proc hp).consumed_le_written
  complete p proc hp _ hx hd := ((inv_step hinv hc).sound p proc hp).consumed_eq hx hd
  progress closed p proc m he hpump hp hm hw := by
    rw [he, step_turn hpump hp hm]
    exact pumpTurn_progress hinv hp hm hw closed
  own closed p proc m ref _ _ hp hm _ hget :=
    (hinv.sound p proc hp).own (StdinProc.pending_of_running hm) hget
  once p proc hp := ((inv_step hinv hc).sound p proc hp).once
  live closed p proc m _ _ hp hm := by
    have hl := (hinv.sound p proc hp).live m hm
    obtain ⟨n, hn⟩ := hl.pnum
    obtain ⟨bs, hbs⟩ := hl.buffer
    refine ⟨StdinProc.nodup_blocks hm hl, fun b hb => ?_⟩
    rcases (StdinProc.mem_blocks (StdinProc.mem_of_running hm) b).1 hb with rfl | rfl | rfl
    · rw [hbs]; rfl
    · rw [hl.iov]; rfl
    · rw [hn]; rfl
  view p n garbage proc _ hp hne := by
    have hsound := hinv.sound p proc hp
    obtain ⟨m, v, hm, -⟩ := hsound.single.resolve_left hne
    obtain ⟨bs, hbs⟩ := (hsound.live m hm).buffer
    exact ⟨m, StdinProc.mem_of_running hm, by rw [hbs]; rfl⟩
  freed p proc m hp hm := ((inv_step hinv hc).sound p proc hp).freed m hm

/-- **The pumps serve every careful run**: any number of processes, any interleaving of what PHP,
the children and the timers do. -/
theorem serves_of_careful {limit : Nat} {es : List StdinEvent}
    (hc : Machine.Along step Careful (init limit) es) :
    Machine.Along step Serves (init limit) es :=
  Machine.Along.of_inv (I := Inv) (fun _ _ => inv_step) (fun _ _ => serves_step) (inv_init limit) hc

end Pumps

/-- A careful run.  The first child takes its chunk in two parts and sees the end of its pipe; the
second one exits, and its number is free again once its pump has noticed.  The memory grows when the
chunks are taken. -/
def takenInTime : List StdinEvent :=
  [.openProcess 3 4, .settle true, .turn false, .openProcess 5 6, .settle true, .turn false,
    .phpWrite 0 [1, 2], .phpWrite 1 [9], .tick 0, .turn false, .turn false, .consume 0 1 [],
    .tick 1, .turn false, .consume 1 1 [], .turn false, .consume 0 5 [], .exit 1, .grow, .phpClose 0,
    .tick 0, .turn false, .tick 1, .turn true, .openOther 5 .new]

theorem takenInTime_serves : Machine.Along Pumps.step Pumps.Careful (.init 8) takenInTime ∧
    Machine.Along Pumps.step Pumps.Serves (.init 8) takenInTime := by
  have hc : Machine.Along Pumps.step Pumps.Careful (.init 8) takenInTime := by decide
  exact ⟨hc, Pumps.serves_of_careful hc⟩

/-- The memory grows before the child has taken its chunk, and there is nothing left of it. -/
example : ((Machine.run Pumps.step (.init 8) [.openProcess 3 4, .settle true, .turn false,
    .phpWrite 0 [1], .tick 0, .turn false, .grow, .consume 0 1 []]).procs.read 0).map
      (fun proc => (proc.consumed, proc.pipe.buffer, proc.chunks)) = some ([], [], []) := by decide

/-- The pump fills its buffer again before the child has taken the first chunk. -/
def refilled : List StdinEvent :=
  [.openProcess 3 4, .settle true, .turn false, .phpWrite 0 [1], .tick 0, .turn false, .turn false,
    .phpWrite 0 [2], .tick 0, .turn false, .consume 0 1 []]

/-- The child takes a 2 first, and PHP wrote a 1. -/
theorem refilled_not_served : ¬ Machine.Along Pumps.step Pumps.Serves (.init 8) refilled := by
  intro h
  have hlast := Machine.along_iff_split.1 h (refilled.take 10) (.consume 0 1 []) [] rfl
  obtain ⟨proc, hp⟩ := Option.isSome_iff_exists.1
    (show ((Machine.run Pumps.step (.init 8) refilled).procs.read 0).isSome = true by decide)
  have hwrong : ∀ proc ∈ (Machine.run Pumps.step (.init 8) refilled).procs.read 0,
      ¬ proc.consumed <+: proc.written := by decide
  exact hwrong proc hp (hlast.faithful 0 proc hp)

end PhpWasm.Process
