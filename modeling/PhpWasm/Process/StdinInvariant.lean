import PhpWasm.Process.StdinSound

/-!
# Many processes and their pumps

`Pumps.Inv` says that every process is sound and that no two of them share memory.  An event changes
one process, so it is enough to look at that one (`Inv.of_one`, `Inv.of_same`) and to see that the
others do not notice (`Inv.frame_others`, `Inv.close_others`, `Inv.set_others`).

The rest is one lemma for each event but the turn of a pump, which is in the next file.
-/

set_option autoImplicit false

namespace PhpWasm.Process

open Posix Memory

namespace Pumps

/-- **The invariant.** -/
structure Inv (s : Pumps) : Prop where
  sound : ∀ p proc, s.procs.read p = some proc → proc.Sound s.fds s.heap p
  /-- The process that waits is the one PHP waits for. -/
  waiting : ∀ p proc, s.procs.read p = some proc → (proc.phase = .waiting ↔ s.opening = some p)
  /-- No block belongs to two pumps. -/
  apart : ∀ p q proc other, p ≠ q → s.procs.read p = some proc → s.procs.read q = some other →
    proc.blocks.Disjoint other.blocks

theorem inv_init (limit : Nat) : (init limit).Inv where
  sound _ _ h := by cases h
  waiting _ _ h := by cases h
  apart _ _ _ _ _ h := by cases h

variable {s s' : Pumps} {p : Ptr} {proc : StdinProc}

theorem read_modify (hp : s.procs.read p = some proc) (f : StdinProc → StdinProc) (q : Ptr) :
    (s.modify p f).procs.read q = if q = p then some (f proc) else s.procs.read q := by
  rw [modify, hp]
  dsimp only
  split
  · rename_i hqp
    rw [hqp, Heap.read_write_self hp]
  · rename_i hqp
    rw [Heap.read_write_of_ne _ hqp]

theorem modify_eq (hp : s.procs.read p = some proc) (f : StdinProc → StdinProc) :
    s.modify p f = { s with procs := s.procs.write p (f proc) } := by
  rw [modify, hp]

/-- **One process changes**, or is new: what must be said about it and about the others. -/
theorem Inv.of_one (hinv : s.Inv) {proc' : StdinProc}
    (hread : ∀ q, s'.procs.read q = if q = p then some proc' else s.procs.read q)
    (hself : proc'.Sound s'.fds s'.heap p)
    (hothers : ∀ q other, q ≠ p → s.procs.read q = some other → other.Sound s'.fds s'.heap q)
    (hwself : proc'.phase = .waiting ↔ s'.opening = some p)
    (hwothers : ∀ q, q ≠ p → (s.opening = some q ↔ s'.opening = some q))
    (hblocks : ∀ b ∈ proc'.blocks,
      (∃ proc, s.procs.read p = some proc ∧ b ∈ proc.blocks) ∨ s.heap.next ≤ b) : s'.Inv := by
  have hapart : ∀ q other, q ≠ p → s.procs.read q = some other →
      proc'.blocks.Disjoint other.blocks := by
    intro q other hqp hq b hb hb'
    rcases hblocks b hb with ⟨proc, hp, hmem⟩ | hge
    · exact hinv.apart p q proc other hqp.symm hp hq hmem hb'
    · exact absurd ((hinv.sound q other hq).below b hb') (Nat.not_lt.2 hge)
  refine ⟨fun q other hq => ?_, fun q other hq => ?_, ?_⟩
  · rw [hread] at hq
    by_cases hqp : q = p
    · rw [if_pos hqp] at hq
      obtain rfl := Option.some.inj hq
      exact hqp ▸ hself
    · rw [if_neg hqp] at hq
      exact hothers q other hqp hq
  · rw [hread] at hq
    by_cases hqp : q = p
    · rw [if_pos hqp] at hq
      obtain rfl := Option.some.inj hq
      exact hqp ▸ hwself
    · rw [if_neg hqp] at hq
      exact (hinv.waiting q other hq).trans (hwothers q hqp)
  · intro q r one two hqr hq hr
    rw [hread] at hq hr
    by_cases hqp : q = p
    · rw [if_pos hqp] at hq
      obtain rfl := Option.some.inj hq
      have hrp : r ≠ p := fun h => hqr (hqp.trans h.symm)
      rw [if_neg hrp] at hr
      exact hapart r two hrp hr
    · rw [if_neg hqp] at hq
      by_cases hrp : r = p
      · rw [if_pos hrp] at hr
        obtain rfl := Option.some.inj hr
        exact fun b hb hb' => hapart q one hqp hq hb' hb
      · rw [if_neg hrp] at hr
        exact hinv.apart q r one two hqr hq hr

/-- The same for a change that leaves the phase and the blocks as they are. -/
theorem Inv.of_same (hinv : s.Inv) (hp : s.procs.read p = some proc) {proc' : StdinProc}
    (hread : ∀ q, s'.procs.read q = if q = p then some proc' else s.procs.read q)
    (hself : proc'.Sound s'.fds s'.heap p)
    (hothers : ∀ q other, q ≠ p → s.procs.read q = some other → other.Sound s'.fds s'.heap q)
    (hphase : proc'.phase = proc.phase) (hopening : s'.opening = s.opening) : s'.Inv := by
  refine hinv.of_one hread hself hothers ?_ (fun q _ => by rw [hopening]) fun b hb => ?_
  · rw [hphase, hopening]
    exact hinv.waiting p proc hp
  · refine Or.inl ⟨proc, hp, ?_⟩
    rw [StdinProc.blocks, hphase] at hb
    exact hb

/-- The memory of a pump is nothing to the others. -/
theorem Inv.frame_others (hinv : s.Inv) (hp : s.procs.read p = some proc) {heap : Heap Block}
    (hread : ∀ b, b ∉ proc.blocks → heap.read b = s.heap.read b) (hnext : heap.next = s.heap.next) :
    ∀ q other, q ≠ p → s.procs.read q = some other → other.Sound s.fds heap q := by
  intro q other hqp hq
  refine (hinv.sound q other hq).frame (fun b hb => hread b fun hmem => ?_) ?_
  · exact hinv.apart p q proc other hqp.symm hp hq hmem hb
  · exact Nat.le_of_eq hnext.symm

/-- A descriptor of one process is not one of another. -/
theorem Inv.close_others (hinv : s.Inv) {fd : Int} (hget : s.fds.get fd = some (.stdin p) ∨
    s.fds.get fd = none) :
    ∀ q other, q ≠ p → s.procs.read q = some other → other.Sound (s.fds.close fd) s.heap q := by
  intro q other hqp hq
  refine (hinv.sound q other hq).close fun hq' => ?_
  rcases hget with hget | hget
  · rw [hget] at hq'
    exact hqp (FileRef.stdin.inj (Option.some.inj hq')).symm
  · rw [hget] at hq'
    cases hq'

/-- A number nobody looks up is given to something else. -/
theorem Inv.set_others (hinv : s.Inv) {fd : Int} (hfree : s.fds.get fd = none)
    (hreuse : s.NotReused fd) (ref : FileRef) :
    ∀ q other, s.procs.read q = some other → other.Sound (s.fds.set fd ref) s.heap q := by
  intro q other hq
  refine (hinv.sound q other hq).set hfree (fun hx hpend => ?_) ref
  refine hreuse q ?_ other hq hx hpend
  by_contra hge
  rw [s.procs.fresh q (Nat.le_of_not_lt hge)] at hq
  cases hq

/-! ## One event -/

/-- A change of one process that touches neither memory nor descriptors. -/
theorem Inv.modify (hinv : s.Inv) {f : StdinProc → StdinProc}
    (hself : ∀ proc, s.procs.read p = some proc → (f proc).Sound s.fds s.heap p)
    (hphase : ∀ proc, (f proc).phase = proc.phase) : (s.modify p f).Inv := by
  cases hp : s.procs.read p with
  | none =>
    rw [Pumps.modify, hp]
    exact hinv
  | some proc =>
    have hread := read_modify hp f
    rw [modify_eq hp] at hread ⊢
    exact hinv.of_same hp hread (hself proc hp) (fun q other _ hq => hinv.sound q other hq)
      (hphase proc) rfl

theorem phase_phpWrite (proc : StdinProc) (bs : List UInt8) :
    (proc.phpWrite bs).phase = proc.phase := by
  rw [StdinProc.phpWrite]
  split <;> rfl

theorem phase_consume (proc : StdinProc) (heap : Heap Block) (n : Nat) (garbage : List UInt8) :
    (proc.consume heap n garbage).phase = proc.phase := by
  unfold StdinProc.consume
  split <;> rfl

theorem Inv.phpClose (hinv : s.Inv) (hp : s.procs.read p = some proc)
    (hw : proc.pipe.writeEnd = true) : (s.phpClose p proc).Inv := by
  have hread := read_modify hp fun proc => { proc with pipe := proc.pipe.closeWrite }
  have hsound := hinv.sound p proc hp
  rw [Pumps.phpClose]
  rw [modify_eq hp] at hread ⊢
  exact hinv.of_same hp hread hsound.phpClose (hinv.close_others (Or.inl (hsound.parentOpen hw)))
    rfl rfl

theorem Inv.exitHandler (hinv : s.Inv) (hp : s.procs.read p = some proc)
    (hx : proc.exited = false) : (s.exitHandler p proc).Inv := by
  have hread := read_modify hp fun proc =>
    { proc with exited := true, pipe := proc.pipe.closeRead }
  have hsound := hinv.sound p proc hp
  rw [Pumps.exitHandler]
  rw [modify_eq hp] at hread ⊢
  exact hinv.of_same hp hread hsound.exit (hinv.close_others (Or.inl (hsound.childOpen hx))) rfl rfl

theorem Inv.openOther (hinv : s.Inv) {fd : Int} (hfree : s.fds.get fd = none)
    (hreuse : s.NotReused fd) (ref : FileRef) : Inv { s with fds := s.fds.set fd ref } :=
  ⟨hinv.set_others hfree hreuse ref, hinv.waiting, hinv.apart⟩

theorem Inv.closeOther (hinv : s.Inv) {fd : Int} {file : Pipe UInt8}
    (hget : s.fds.get fd = some (.other file)) : Inv { s with fds := s.fds.close fd } := by
  refine ⟨fun q other hq => ?_, hinv.waiting, hinv.apart⟩
  refine (hinv.sound q other hq).close fun hq' => ?_
  rw [hget] at hq'
  cases hq'

/-- Where no chunk is left, nothing is lost when the memory grows. -/
theorem read_grow (h : s.AllTaken) (p : Ptr) : s.grow.procs.read p = s.procs.read p := by
  show (s.procs.read p).map StdinProc.detach = s.procs.read p
  cases hp : s.procs.read p with
  | none => rfl
  | some proc =>
    have hlt : p < s.procs.next := by
      by_contra hge
      rw [s.procs.fresh p (Nat.le_of_not_lt hge)] at hp
      cases hp
    have hnil := h p hlt proc hp
    rw [Option.map_some, StdinProc.detach, ← hnil]

theorem Inv.grow (hinv : s.Inv) (h : s.AllTaken) : s.grow.Inv where
  sound p proc hp := hinv.sound p proc ((read_grow h p).symm.trans hp)
  waiting p proc hp := hinv.waiting p proc ((read_grow h p).symm.trans hp)
  apart p q proc other hpq hp hq :=
    hinv.apart p q proc other hpq ((read_grow h p).symm.trans hp) ((read_grow h q).symm.trans hq)

theorem Inv.jsOpenProcess (hinv : s.Inv) {c d : Int} (hopen : s.opening = none)
    (hcan : s.CanOpen c d) (hc : s.NotReused c) (hd : s.NotReused d) :
    (s.jsOpenProcess c d).Inv := by
  obtain ⟨hcr, hdr, hcd, hcfree, hdfree⟩ := hcan
  rw [Option.isNone_iff_eq_none] at hcfree hdfree
  have hgetc : ((s.fds.set c (.stdin s.procs.next)).set d (.stdin s.procs.next)).get c =
      some (.stdin s.procs.next) := by
    rw [FdTable.get_set, if_neg fun h => hcd h.1, FdTable.get_set, if_pos ⟨rfl, hcr⟩]
  have hgetd : ((s.fds.set c (.stdin s.procs.next)).set d (.stdin s.procs.next)).get d =
      some (.stdin s.procs.next) := by
    rw [FdTable.get_set, if_pos ⟨rfl, hdr⟩]
  have hfree : (s.fds.set c (.stdin s.procs.next)).get d = none := by
    rw [FdTable.get_set, if_neg fun h => hcd h.1.symm, hdfree]
  refine hinv.of_one (fun _ => rfl) ?_ (fun q other _ hq => ?_) ⟨fun _ => rfl, fun _ => rfl⟩
    (fun q hqp => ?_) fun b hb => absurd hb List.not_mem_nil
  · exact {
      accounts := rfl
      single := Or.inl rfl
      childOpen := fun _ => hgetc
      childGone := fun hx => by cases hx
      parentOpen := fun _ => hgetd
      ends := hcd
      unwritten := fun _ => rfl
      live := fun _ hm => by cases hm
      freed := fun _ hm => by cases hm
      below := fun b hb => absurd hb List.not_mem_nil
      finished := fun hno => absurd trivial hno
      once := Nat.zero_le _
      notEnded := fun _ => rfl }
  · have hset : Inv { s with fds := s.fds.set c (.stdin s.procs.next) } :=
      hinv.openOther hcfree hc _
    exact hset.set_others hfree hd (.stdin s.procs.next) q other hq
  · rw [hopen]
    refine iff_of_false (by simp) fun h => ?_
    exact hqp (Option.some.inj h).symm

/-- The three blocks of a new pump are live, and the others are as they were. -/
theorem live_alloc (heap : Heap Block) :
    let a := heap.alloc (.bytes (List.replicate chunkSize 0))
    let b := a.2.alloc (.word 0)
    let c := b.2.alloc (.iovec a.1 chunkSize)
    PumpMem.Live c.2 ⟨c.1, b.1, a.1⟩ ∧ ∀ p < heap.next, c.2.read p = heap.read p := by
  intro a b c
  have hbuffer : a.2.read a.1 = some (.bytes (List.replicate chunkSize 0)) :=
    Heap.read_alloc_self _ _
  have hpnum : b.2.read b.1 = some (.word 0) := Heap.read_alloc_self _ _
  refine ⟨⟨Heap.read_alloc_self _ _, ⟨0, Heap.read_alloc_of_live hpnum _⟩, ⟨_,
    Heap.read_alloc_of_live (Heap.read_alloc_of_live hbuffer _) _⟩⟩, fun p hp => ?_⟩
  have ha : p < a.2.next := Nat.lt_add_right 1 hp
  have hb : p < b.2.next := Nat.lt_add_right 1 ha
  calc c.2.read p = b.2.read p := Heap.read_alloc_of_lt hb _
    _ = a.2.read p := Heap.read_alloc_of_lt ha _
    _ = heap.read p := Heap.read_alloc_of_lt hp _

/-- `js_open_process` returns, with a pump or without one. -/
theorem Inv.jsOpened (hinv : s.Inv) (hopening : s.opening = some p)
    (hp : s.procs.read p = some proc) (resolved : Bool) : (s.jsOpened p proc resolved).Inv := by
  have hw : proc.phase = .waiting := (hinv.waiting p proc hp).2 hopening
  have hsound := hinv.sound p proc hp
  have hended := hsound.notEnded (StdinProc.pending_of_waiting hw)
  have hnever : ∀ n ≤ 1, Inv { s with
      opening := none, procs := s.procs.write p { proc with phase := .never, ended := n } } := by
    intro n hn
    have hread := read_modify hp fun proc => { proc with phase := .never, ended := n }
    rw [modify_eq hp] at hread
    refine hinv.of_one hread (hsound.never hw hn) (fun q other _ hq => hinv.sound q other hq)
      (by simp) (fun q hqp => ?_) fun b hb => absurd hb List.not_mem_nil
    rw [hopening]
    exact iff_of_false (fun h => hqp (Option.some.inj h).symm) (by simp)
  have hp' : { s with opening := none }.procs.read p = some proc := hp
  rw [Pumps.jsOpened]
  dsimp only
  split
  · rw [modify_eq hp']
    have h := hnever proc.ended (by omega)
    exact h
  · split
    · rw [modify_eq hp']
      exact hnever (proc.ended + 1) (by omega)
    · split
      · rw [modify_eq hp']
        exact hnever proc.ended (by omega)
      · obtain ⟨hl, hold⟩ := live_alloc s.heap
        have hread := read_modify hp' fun proc => { proc with
          phase := .running ⟨s.heap.next + 2, s.heap.next + 1, s.heap.next⟩ }
        rw [modify_eq hp'] at hread ⊢
        have hnew : ∀ n b : Nat, b = n ∨ b = n + 2 ∨ b = n + 1 → n ≤ b ∧ b < n + 3 := by omega
        refine hinv.of_one hread (hsound.run hw hl fun b hb => ?_) (fun q other _ hq => ?_)
          (by simp) (fun q hqp => ?_) fun b hb => Or.inr ?_
        · exact (hnew s.heap.next b (by simpa using hb)).2
        · have hother := hinv.sound q other hq
          exact hother.frame (fun b hb => hold b (hother.below b hb)) (Nat.le_add_right _ 3)
        · rw [hopening]
          exact iff_of_false (fun h => hqp (Option.some.inj h).symm) (by simp)
        · exact (hnew s.heap.next b ((StdinProc.mem_blocks rfl b).1 hb)).1

/-- The pump stops. -/
theorem Inv.stop (hinv : s.Inv) (hp : s.procs.read p = some proc) {m : PumpMem}
    (hm : proc.phase = .running m) (hnil : proc.chunks = [])
    (hfin : proc.exited = true ∨ proc.pipe.buffer = []) (closed : Bool) :
    (s.stopPumpingAndCloseStdin p m closed).Inv := by
  have hread := read_modify hp (·.stop m closed)
  have hsound := hinv.sound p proc hp
  have hmem := StdinProc.mem_of_running hm
  have hnot : s.opening ≠ some p := by
    intro h
    have := (hinv.waiting p proc hp).2 h
    rw [hm] at this
    cases this
  rw [stopPumpingAndCloseStdin]
  rw [modify_eq hp] at hread ⊢
  refine hinv.of_one hread (hsound.stop hm hnil hfin closed) (hinv.frame_others hp ?_ rfl)
    (iff_of_false (by simp [StdinProc.stop]) hnot) (fun _ _ => Iff.rfl) fun b hb => ?_
  · intro b hb
    have hne := StdinProc.ne_of_notMem_blocks hm hb
    rw [Heap.read_free_of_ne _ hne.2.2, Heap.read_free_of_ne _ hne.2.1,
      Heap.read_free_of_ne _ hne.1]
  · exact Or.inl ⟨proc, hp, (StdinProc.mem_blocks hmem b).2 ((StdinProc.mem_blocks rfl b).1 hb)⟩

end Pumps

end PhpWasm.Process
