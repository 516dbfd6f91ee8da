import PhpWasm.Process.StdinPump

/-!
# One process and its pump

`StdinProc.Sound` is what holds of a process at all times: where the bytes PHP wrote are, which
descriptors are whose, and which blocks of memory are live.

There are two kinds of lemmas about it.  `Sound.frame`, `Sound.close` and `Sound.set` say that what
happens to the memory and the descriptors of others does not matter.  The others, one for each thing
that can happen to the process itself, say that it stays sound and what that takes.
-/

set_option autoImplicit false

namespace PhpWasm.Process

open Posix Memory

/-! ## The memory of a pump -/

/-- The blocks hold what the pump put there. -/
structure PumpMem.Live (heap : Heap Block) (m : PumpMem) : Prop where
  iov : heap.read m.iov = some (.iovec m.buffer chunkSize)
  pnum : ∃ n, heap.read m.pnum = some (.word n)
  buffer : ∃ bs, heap.read m.buffer = some (.bytes bs)

namespace PumpMem.Live

variable {heap : Heap Block} {m : PumpMem}

theorem buffer_ne_iov (hl : m.Live heap) : m.buffer ≠ m.iov := by
  intro h
  obtain ⟨bs, hbs⟩ := hl.buffer
  rw [h, hl.iov] at hbs
  cases hbs

theorem buffer_ne_pnum (hl : m.Live heap) : m.buffer ≠ m.pnum := by
  intro h
  obtain ⟨bs, hbs⟩ := hl.buffer
  obtain ⟨n, hn⟩ := hl.pnum
  rw [h, hn] at hbs
  cases hbs

theorem iov_ne_pnum (hl : m.Live heap) : m.iov ≠ m.pnum := by
  intro h
  obtain ⟨n, hn⟩ := hl.pnum
  rw [← h, hl.iov] at hn
  cases hn

/-- The number of bytes read is stored. -/
theorem write_pnum (hl : m.Live heap) (n : Nat) : m.Live (heap.write m.pnum (.word n)) where
  iov := by rw [Heap.read_write_of_ne _ hl.iov_ne_pnum]; exact hl.iov
  pnum := by
    obtain ⟨k, hk⟩ := hl.pnum
    exact ⟨n, Heap.read_write_self hk _⟩
  buffer := by rw [Heap.read_write_of_ne _ hl.buffer_ne_pnum]; exact hl.buffer

/-- Bytes are read into the buffer. -/
theorem fill (hl : m.Live heap) (bs : List UInt8) : m.Live (fill heap m.buffer bs) where
  iov := (Heap.read_write_of_ne _ hl.buffer_ne_iov.symm _).trans hl.iov
  pnum := by
    obtain ⟨n, hn⟩ := hl.pnum
    exact ⟨n, (Heap.read_write_of_ne _ hl.buffer_ne_pnum.symm _).trans hn⟩
  buffer := by
    obtain ⟨old, hold⟩ := hl.buffer
    exact ⟨_, Heap.read_write_self hold _⟩

theorem wordAt_write_pnum (hl : m.Live heap) (n : Nat) :
    wordAt (heap.write m.pnum (.word n)) m.pnum = n := by
  obtain ⟨k, hk⟩ := hl.pnum
  rw [wordAt, Heap.read_write_self hk]

theorem bytesAt_write_pnum (hl : m.Live heap) (n : Nat) :
    bytesAt (heap.write m.pnum (.word n)) m.buffer = bytesAt heap m.buffer := by
  rw [bytesAt, bytesAt, Heap.read_write_of_ne _ hl.buffer_ne_pnum]

/-- The view of what was read last. -/
theorem take_bytesAt_fill (hl : m.Live heap) (bs : List UInt8) :
    (bytesAt (PhpWasm.Process.fill heap m.buffer bs) m.buffer).take bs.length = bs := by
  obtain ⟨old, hold⟩ := hl.buffer
  have hread : bytesAt (PhpWasm.Process.fill heap m.buffer bs) m.buffer =
      bs ++ (bytesAt heap m.buffer).drop bs.length := by
    rw [bytesAt, PhpWasm.Process.fill, Heap.read_write_self hold]
  rw [hread, List.take_left]

end PumpMem.Live

/-! ## The invariant -/

namespace StdinProc

/-- The bytes of the chunk the child has not taken yet. -/
def outstanding (heap : Heap Block) (proc : StdinProc) : List UInt8 :=
  match proc.phase.mem, proc.chunks with
  | some m, [v] => ((bytesAt heap m.buffer).drop v.start).take v.len
  | _, _ => []

/-- **The invariant of a process**, given the descriptors and the memory. -/
structure Sound (fds : FdTable FileRef) (heap : Heap Block) (p : Ptr) (proc : StdinProc) :
    Prop where
  /-- Every byte PHP wrote was taken by the child, or is in the chunk it has, or in the pipe. -/
  accounts : proc.consumed ++ proc.outstanding heap ++ proc.pipe.buffer = proc.written
  /-- There is one chunk at most, and its pump runs. -/
  single : proc.chunks = [] ∨ ∃ m v, proc.phase = .running m ∧ proc.chunks = [v]
  /-- A living child's end is open. -/
  childOpen : proc.exited = false → fds.get proc.stdinChildFd = some (.stdin p)
  /-- The number of a dead child's end is not in use while a pump may look it up. -/
  childGone : proc.exited = true → proc.phase.Pending → fds.get proc.stdinChildFd = none
  parentOpen : proc.pipe.writeEnd = true → fds.get proc.stdinParentFd = some (.stdin p)
  ends : proc.stdinChildFd ≠ proc.stdinParentFd
  /-- PHP cannot write before `js_open_process` returns. -/
  unwritten : proc.phase = .waiting → proc.written = []
  live : ∀ m, proc.phase = .running m → m.Live heap
  freed : ∀ m, proc.phase = .stopped m → ∀ b ∈ proc.blocks, heap.read b = none
  below : ∀ b ∈ proc.blocks, b < heap.next
  /-- Without a pump nothing is left in the pipe of a living child. -/
  finished : ¬ proc.phase.Pending → proc.exited = true ∨ proc.pipe.buffer = []
  once : proc.ended ≤ 1
  notEnded : proc.phase.Pending → proc.ended = 0

variable {fds : FdTable FileRef} {heap heap' : Heap Block} {p : Ptr} {proc : StdinProc}

theorem mem_of_running {m : PumpMem} (hm : proc.phase = .running m) :
    proc.phase.mem = some m := by
  rw [hm]
  rfl

theorem pending_of_running {m : PumpMem} (hm : proc.phase = .running m) : proc.phase.Pending := by
  rw [hm]
  trivial

theorem pending_of_waiting (hw : proc.phase = .waiting) : proc.phase.Pending := by
  rw [hw]
  trivial

theorem mem_blocks {m : PumpMem} (hm : proc.phase.mem = some m) (b : Ptr) :
    b ∈ proc.blocks ↔ b = m.buffer ∨ b = m.iov ∨ b = m.pnum := by
  simp [blocks, hm]

theorem ne_of_notMem_blocks {m : PumpMem} (hm : proc.phase = .running m) {b : Ptr}
    (hb : b ∉ proc.blocks) : b ≠ m.buffer ∧ b ≠ m.iov ∧ b ≠ m.pnum := by
  rw [mem_blocks (mem_of_running hm), not_or, not_or] at hb
  exact hb

theorem outstanding_of_nil (h : proc.chunks = []) : proc.outstanding heap = [] := by
  rw [outstanding, h]
  cases proc.phase.mem <;> rfl

theorem outstanding_of_one {m : PumpMem} {v : View} (hv : proc.chunks = [v])
    (hm : proc.phase.mem = some m) :
    proc.outstanding heap = ((bytesAt heap m.buffer).drop v.start).take v.len := by
  rw [outstanding, hm, hv]

theorem bytesAt_of_read {b : Ptr} {bs : List UInt8} (h : heap.read b = some (.bytes bs)) :
    bytesAt heap b = bs := by
  rw [bytesAt, h]

/-- Live blocks are not one block used twice: they hold different things. -/
theorem nodup_blocks {m : PumpMem} (hm : proc.phase = .running m) (hl : m.Live heap) :
    proc.blocks.Nodup := by
  simp [blocks, hm, PumpPhase.mem, hl.buffer_ne_iov, hl.buffer_ne_pnum, hl.iov_ne_pnum]

/-- What happens elsewhere in memory does not matter. -/
theorem Sound.frame (h : Sound fds heap p proc)
    (hread : ∀ b ∈ proc.blocks, heap'.read b = heap.read b)
    (hnext : heap.next ≤ heap'.next) : Sound fds heap' p proc := by
  have hout : proc.outstanding heap' = proc.outstanding heap := by
    unfold outstanding
    split
    · rename_i m v hm _
      have hb := hread m.buffer ((mem_blocks hm _).2 (Or.inl rfl))
      rw [bytesAt, bytesAt, hb]
    · rfl
  have hlive : ∀ m, proc.phase = .running m → m.Live heap' := by
    intro m hm
    have hmem := mem_of_running hm
    have hl := h.live m hm
    refine ⟨?_, ?_, ?_⟩
    · rw [hread _ ((mem_blocks hmem _).2 (Or.inr (Or.inl rfl)))]
      exact hl.iov
    · rw [hread _ ((mem_blocks hmem _).2 (Or.inr (Or.inr rfl)))]
      exact hl.pnum
    · rw [hread _ ((mem_blocks hmem _).2 (Or.inl rfl))]
      exact hl.buffer
  exact {
    h with
    accounts := by rw [hout]; exact h.accounts
    live := hlive
    freed := fun m hm b hb => (hread b hb).trans (h.freed m hm b hb)
    below := fun b hb => Nat.lt_of_lt_of_le (h.below b hb) hnext }

/-- Nor does the closing of a descriptor that is not one of its pipe. -/
theorem Sound.close (h : Sound fds heap p proc) {fd : Int} (hne : fds.get fd ≠ some (.stdin p)) :
    Sound (fds.close fd) heap p proc := by
  have hkeep : ∀ x, fds.get x = some (.stdin p) → (fds.close fd).get x = some (.stdin p) := by
    intro x hx
    rw [FdTable.get_close_ne, hx]
    rintro rfl
    exact hne hx
  refine { h with
    childOpen := fun hx => hkeep _ (h.childOpen hx)
    childGone := fun hx hp => ?_
    parentOpen := fun hw => hkeep _ (h.parentOpen hw) }
  rw [FdTable.get_close]
  split
  · rfl
  · exact h.childGone hx hp

/-- Nor the opening of one, unless it gets the number of an end the pump still looks up. -/
theorem Sound.set (h : Sound fds heap p proc) {fd : Int} (hfree : fds.get fd = none)
    (hreuse : proc.exited = true → proc.phase.Pending → proc.stdinChildFd ≠ fd) (ref : FileRef) :
    Sound (fds.set fd ref) heap p proc := by
  have hother : ∀ x, x ≠ fd → (fds.set fd ref).get x = fds.get x := by
    intro x hx
    rw [FdTable.get_set, if_neg fun hc => hx hc.1]
  have hkeep : ∀ x, fds.get x = some (.stdin p) → (fds.set fd ref).get x = some (.stdin p) := by
    intro x hx
    rw [hother, hx]
    rintro rfl
    rw [hfree] at hx
    cases hx
  exact {
    h with
    childOpen := fun hx => hkeep _ (h.childOpen hx)
    childGone := fun hx hp => by rw [hother _ (hreuse hx hp)]; exact h.childGone hx hp
    parentOpen := fun hw => hkeep _ (h.parentOpen hw) }

/-- What the child took is a prefix of what PHP wrote. -/
theorem Sound.consumed_le_written (h : Sound fds heap p proc) : proc.consumed <+: proc.written := by
  rw [← h.accounts, List.append_assoc]
  exact List.prefix_append _ _

/-- It is all of it in the end, if the child lives. -/
theorem Sound.consumed_eq (h : Sound fds heap p proc) (hx : proc.exited = false) (hd : proc.Done) :
    proc.consumed = proc.written := by
  have hbuf : proc.pipe.buffer = [] := by
    rcases h.finished hd.1 with hex | hbuf
    · rw [hx] at hex
      cases hex
    · exact hbuf
  rw [← h.accounts, hbuf, outstanding_of_nil hd.2]
  simp

/-- The child has a chunk only while its pump runs. -/
theorem Sound.chunks_eq_nil (h : Sound fds heap p proc) (hno : ∀ m, proc.phase ≠ .running m) :
    proc.chunks = [] := by
  rcases h.single with hnil | ⟨m, v, hm, -⟩
  · exact hnil
  · exact absurd hm (hno m)

/-- A pump finds its own pipe, or nothing. -/
theorem Sound.own (h : Sound fds heap p proc) (hp : proc.phase.Pending) {ref : FileRef}
    (hget : fds.get proc.stdinChildFd = some ref) : ref = .stdin p := by
  cases hx : proc.exited with
  | false =>
    rw [h.childOpen hx] at hget
    exact (Option.some.inj hget).symm
  | true =>
    rw [h.childGone hx hp] at hget
    cases hget

/-! ## What happens to the process -/

theorem Sound.kill (h : Sound fds heap p proc) : Sound fds heap p { proc with killed := true } :=
  { h with }

/-- PHP writes, and somebody will read it. -/
theorem Sound.phpWrite (h : Sound fds heap p proc) (hw : proc.phase ≠ .waiting) {bs : List UInt8}
    (hheard : Pumps.Heard proc bs) : Sound fds heap p (proc.phpWrite bs) := by
  rw [StdinProc.phpWrite]
  split
  · refine { h with
      accounts := ?_
      unwritten := fun hwait => absurd hwait hw
      finished := fun hno => ?_ }
    · have hacc := h.accounts
      show proc.consumed ++ proc.outstanding heap ++ (proc.pipe.buffer ++ bs) = proc.written ++ bs
      rw [← hacc, List.append_assoc _ proc.pipe.buffer]
    · rcases hheard with hp | hx | rfl
      · exact absurd hp hno
      · exact Or.inl hx
      · have := h.finished hno
        simpa using this
  · exact h

theorem Sound.phpClose (h : Sound fds heap p proc) :
    Sound (fds.close proc.stdinParentFd) heap p { proc with pipe := proc.pipe.closeWrite } := by
  refine { h with
    childOpen := fun hx => ?_
    childGone := fun hx hp => ?_
    parentOpen := fun hw => by cases hw }
  · rw [FdTable.get_close_ne _ h.ends]
    exact h.childOpen hx
  · rw [FdTable.get_close_ne _ h.ends]
    exact h.childGone hx hp

theorem Sound.exit (h : Sound fds heap p proc) :
    Sound (fds.close proc.stdinChildFd) heap p
      { proc with exited := true, pipe := proc.pipe.closeRead } := by
  refine { h with
    childOpen := fun hx => by cases hx
    childGone := fun _ _ => FdTable.get_close_self fds _
    parentOpen := fun hw => ?_
    finished := fun _ => Or.inl rfl }
  rw [FdTable.get_close_ne _ h.ends.symm]
  exact h.parentOpen hw

/-- The child takes a part of its chunk, or all of it. -/
theorem Sound.consume (h : Sound fds heap p proc) (n : Nat) (garbage : List UInt8) :
    Sound fds heap p (proc.consume heap n garbage) := by
  rcases h.single with hnil | ⟨m, v, hm, hv⟩
  · rw [StdinProc.consume, hnil]
    exact h
  · have hmem : proc.phase.mem = some m := by rw [hm]; rfl
    obtain ⟨bs, hbs⟩ := (h.live m hm).buffer
    have hacc := h.accounts
    rw [outstanding_of_one hv hmem, bytesAt_of_read hbs] at hacc
    rw [StdinProc.consume, hv, hmem]
    dsimp only
    rw [hbs]
    dsimp only
    by_cases hle : v.len ≤ n
    · rw [if_pos hle, Nat.min_eq_right hle]
      refine { h with accounts := ?_, single := Or.inl rfl }
      rw [outstanding_of_nil rfl, List.append_nil]
      exact hacc
    · rw [if_neg hle, Nat.min_eq_left (Nat.le_of_not_le hle)]
      refine { h with accounts := ?_, single := Or.inr ⟨m, _, hm, rfl⟩ }
      have hsplit : (bs.drop v.start).take v.len =
          (bs.drop v.start).take n ++ (bs.drop (v.start + n)).take (v.len - n) := by
        have hlen : v.len = n + (v.len - n) := by omega
        rw [hlen, List.take_add, List.drop_drop, Nat.add_sub_cancel_left]
      simp only [outstanding, hmem, bytesAt_of_read hbs]
      rw [List.append_assoc proc.consumed, ← hsplit]
      exact hacc

/-- The number of bytes read is stored. -/
theorem Sound.write_pnum (h : Sound fds heap p proc) {m : PumpMem} (hm : proc.phase = .running m)
    (n : Nat) : Sound fds (heap.write m.pnum (.word n)) p proc := by
  have hl := h.live m hm
  have hmem := mem_of_running hm
  refine { h with
    accounts := ?_
    live := fun m' hm' => ?_
    freed := fun m' hm' => ?_ }
  · have hout : proc.outstanding (heap.write m.pnum (.word n)) = proc.outstanding heap := by
      rcases h.single with hnil | ⟨m', v, -, hv⟩
      · rw [outstanding_of_nil hnil, outstanding_of_nil hnil]
      · rw [outstanding_of_one hv hmem, outstanding_of_one hv hmem, hl.bytesAt_write_pnum]
    rw [hout]
    exact h.accounts
  · rw [hm] at hm'
    cases hm'
    exact hl.write_pnum n
  · rw [hm] at hm'
    cases hm'

/-- The pump reads what it can hold and hands it out, when the child has no other chunk. -/
theorem Sound.stdinWrite (h : Sound fds heap p proc) {m : PumpMem} (hm : proc.phase = .running m)
    (hnil : proc.chunks = []) {bs : List UInt8} {pipe : Pipe UInt8}
    (hbs : bs ++ pipe.buffer = proc.pipe.buffer) (hw : pipe.writeEnd = proc.pipe.writeEnd) :
    Sound fds (fill heap m.buffer bs) p ({ proc with pipe }.stdinWrite bs.length) := by
  have hl := h.live m hm
  have hmem := mem_of_running hm
  have hchunks : ({ proc with pipe }.stdinWrite bs.length).chunks = [⟨0, bs.length⟩] := by
    rw [StdinProc.stdinWrite, hnil]
    rfl
  refine { h with
    accounts := ?_
    single := Or.inr ⟨m, _, hm, hchunks⟩
    parentOpen := fun hopen => h.parentOpen (hw.symm.trans hopen)
    live := fun m' hm' => ?_
    freed := fun m' hm' => ?_
    finished := fun hno => ?_ }
  · have hacc := h.accounts
    rw [outstanding_of_nil hnil, List.append_nil, ← hbs] at hacc
    rw [outstanding_of_one hchunks hmem, List.drop_zero, hl.take_bytesAt_fill, List.append_assoc]
    exact hacc
  · obtain rfl := PumpPhase.running.inj (hm.symm.trans hm')
    exact hl.fill bs
  · exact absurd (hm.symm.trans hm') (by simp)
  · exact absurd (pending_of_running hm) hno

/-- The pump stops and frees its blocks. -/
theorem Sound.stop (h : Sound fds heap p proc) {m : PumpMem} (hm : proc.phase = .running m)
    (hnil : proc.chunks = []) (hfin : proc.exited = true ∨ proc.pipe.buffer = [])
    (closed : Bool) :
    Sound fds (((heap.free m.buffer).free m.iov).free m.pnum) p (proc.stop m closed) := by
  have hmem := mem_of_running hm
  have hp := pending_of_running hm
  have hblocks : ∀ b ∈ (proc.stop m closed).blocks,
      (((heap.free m.buffer).free m.iov).free m.pnum).read b = none := by
    intro b hb
    rcases (mem_blocks rfl b).1 hb with rfl | rfl | rfl
    · exact Heap.read_free_of_none (Heap.read_free_of_none (Heap.read_free_self _ _) _) _
    · exact Heap.read_free_of_none (Heap.read_free_self _ _) _
    · exact Heap.read_free_self _ _
  refine { h with
    accounts := ?_
    single := Or.inl hnil
    childGone := fun _ hno => absurd hno id
    unwritten := fun hno => by cases hno
    live := fun m' hm' => by cases hm'
    freed := fun _ _ => hblocks
    below := fun b hb => ?_
    finished := fun _ => hfin
    once := ?_
    notEnded := fun hno => absurd hno id }
  · have hacc := h.accounts
    rw [outstanding_of_nil hnil] at hacc
    rw [outstanding_of_nil (show (proc.stop m closed).chunks = [] from hnil)]
    exact hacc
  · exact h.below b ((mem_blocks hmem b).2 ((mem_blocks rfl b).1 hb))
  · show (if closed then proc.ended else proc.ended + 1) ≤ 1
    rw [h.notEnded hp]
    split <;> omega

/-- `js_open_process` returns without a pump. -/
theorem Sound.never (h : Sound fds heap p proc) (hw : proc.phase = .waiting) {n : Nat}
    (hn : n ≤ 1) : Sound fds heap p { proc with phase := .never, ended := n } := by
  have hacc := h.accounts
  rw [h.unwritten hw, List.append_eq_nil_iff, List.append_eq_nil_iff] at hacc
  have hnil : proc.chunks = [] := h.chunks_eq_nil (by simp [hw])
  refine { h with
    accounts := ?_
    single := Or.inl hnil
    childGone := fun _ hno => absurd hno id
    unwritten := fun hno => by cases hno
    live := fun m' hm' => by cases hm'
    freed := fun _ hm' => by cases hm'
    below := fun b hb => absurd hb List.not_mem_nil
    finished := fun _ => Or.inr hacc.2
    once := hn
    notEnded := fun hno => absurd hno id }
  show proc.consumed ++ [] ++ proc.pipe.buffer = proc.written
  rw [h.unwritten hw, hacc.1.1, hacc.2]
  rfl

/-- The pump is installed. -/
theorem Sound.run (h : Sound fds heap p proc) (hw : proc.phase = .waiting) {m : PumpMem}
    (hl : m.Live heap') (hbelow : ∀ b ∈ [m.buffer, m.iov, m.pnum], b < heap'.next) :
    Sound fds heap' p { proc with phase := .running m } := by
  have hpend := pending_of_waiting hw
  have hnil : proc.chunks = [] := h.chunks_eq_nil (by simp [hw])
  refine { h with
    accounts := ?_
    single := Or.inl hnil
    childGone := fun hx _ => h.childGone hx hpend
    unwritten := fun hno => by cases hno
    live := fun m' hm' => ?_
    freed := fun _ hm' => by cases hm'
    below := hbelow
    finished := fun hno => absurd trivial hno
    notEnded := fun _ => h.notEnded hpend }
  · have hacc := h.accounts
    rw [outstanding_of_nil hnil] at hacc
    simp only [outstanding, hnil]
    exact hacc
  · obtain rfl := PumpPhase.running.inj hm'
    exact hl

end StdinProc

end PhpWasm.Process
