import PhpWasm.Base.Ledger
import PhpWasm.Base.Run

/-!
# The memory storage of the Zend heap

PHP's memory manager gets its chunks from `heap->storage` when it is set, and from `mmap` and
`munmap` when it is not.  The extension `wasm_memory_storage` sets it in MINIT, to a storage that
uses `posix_memalign` and `free`, and unsets it in MSHUTDOWN.  Which family a chunk is from is
decided when it is allocated; which family releases it is decided when it is released.

* `ZendHeap` is the heap, over a ledger of the chunks.
* `Timeline` knows nothing of storages or families.  It follows which chunks were allocated between
  MINIT and MSHUTDOWN, and which of them the memory manager still has.
* `released_by_producer_iff`: every chunk is released by the family that produced it if and only if
  no chunk is released on another side of MINIT or MSHUTDOWN than it was allocated on.
-/

set_option autoImplicit false

namespace PhpWasm

open Memory

/-! ## Chunks and where they come from -/

/-- The functions chunks are from. -/
inductive AllocatorFamily
  | posixMemalign | mmap
  deriving DecidableEq

/-- The functions chunks are released by. -/
inductive Releaser
  | free | munmap
  deriving DecidableEq

/-- The one that belongs to a family. -/
def AllocatorFamily.releaser : AllocatorFamily → Releaser
  | .posixMemalign => .free
  | .mmap => .munmap

/-- A chunk. -/
structure Chunk where
  family : AllocatorFamily
  contents : List UInt8

/-- All chunks, and all releases. -/
abbrev Chunks := Ledger Chunk Releaser

/-- The release is by the family that produced the chunk. -/
def ReleasedByProducer (chunk : Chunk) (releaser : Releaser) : Prop :=
  chunk.family.releaser = releaser

/-- A new chunk of zeros, if `granted`. -/
def newChunk (family : AllocatorFamily) (size : Nat) (granted : Bool) (c : Chunks) :
    Option Ptr × Chunks :=
  if granted then
    let res := c.alloc ⟨family, List.replicate size 0⟩
    (some res.1, res.2)
  else (none, c)

/-- The handlers of a `zend_mm_storage`. -/
structure ZendMmStorage where
  /-- From the size, the alignment and whether there is memory left. -/
  chunkAlloc : Nat → Nat → Bool → Chunks → Option Ptr × Chunks
  /-- From the pointer and the size. -/
  chunkFree : Ptr → Nat → Chunks → Chunks

/-- `wasm_memory_storage_chunk_alloc`, where `granted` is whether `posix_memalign` answers 0. -/
def wasmMemoryStorageChunkAlloc (size _alignment : Nat) (granted : Bool) (c : Chunks) :
    Option Ptr × Chunks :=
  newChunk .posixMemalign size granted c

/-- `wasm_memory_storage_chunk_free` -/
def wasmMemoryStorageChunkFree (ptr : Ptr) (_size : Nat) (c : Chunks) : Chunks :=
  c.release ptr .free

/-- `wasm_memory_storage_struct` -/
def wasmMemoryStorageStruct : ZendMmStorage where
  chunkAlloc := wasmMemoryStorageChunkAlloc
  chunkFree := wasmMemoryStorageChunkFree

/-! ## The heap -/

/-- The heap of PHP's memory manager. -/
structure ZendHeap where
  /-- `heap->storage` -/
  storage : Option ZendMmStorage
  chunks : Chunks
  /-- The chunks that the memory manager has. -/
  held : List Ptr

namespace ZendHeap

/-- The heap of a process that has just started. -/
def start : ZendHeap := ⟨none, Ledger.empty, []⟩

/-- `PHP_MINIT_FUNCTION(wasm_memory_storage)` -/
def minit (h : ZendHeap) : ZendHeap := { h with storage := some wasmMemoryStorageStruct }

/-- `PHP_MSHUTDOWN_FUNCTION(wasm_memory_storage)` -/
def mshutdown (h : ZendHeap) : ZendHeap := { h with storage := none }

/-- The memory manager asks for a chunk. -/
def chunkAlloc (size alignment : Nat) (granted : Bool) (h : ZendHeap) : ZendHeap :=
  let res := match h.storage with
    | some storage => storage.chunkAlloc size alignment granted h.chunks
    | none => newChunk .mmap size granted h.chunks
  { h with chunks := res.2, held := res.1.toList ++ h.held }

/-- The memory manager gives one of its chunks back. -/
def chunkFree (ptr : Ptr) (size : Nat) (h : ZendHeap) : ZendHeap :=
  if ptr ∈ h.held then
    { h with
      chunks := match h.storage with
        | some storage => storage.chunkFree ptr size h.chunks
        | none => h.chunks.release ptr .munmap
      held := h.held.filter (· != ptr) }
  else h

end ZendHeap

/-- What happens to the heap. -/
inductive HeapEvent
  | minit
  | mshutdown
  | chunkAlloc (size alignment : Nat) (granted : Bool)
  | chunkFree (ptr : Ptr) (size : Nat)
  deriving DecidableEq

/-- One event. -/
def ZendHeap.step (h : ZendHeap) : HeapEvent → ZendHeap
  | .minit => h.minit
  | .mshutdown => h.mshutdown
  | .chunkAlloc size alignment granted => h.chunkAlloc size alignment granted
  | .chunkFree ptr size => h.chunkFree ptr size

/-- No chunk is ever released twice, nor by another family than the one that produced it. -/
def AllReleasedByProducer (events : List HeapEvent) : Prop :=
  Machine.Along ZendHeap.step (fun h e => (h.step e).chunks.Sound ReleasedByProducer) .start events

/-! ## The timeline -/

/-- When the chunks were allocated. -/
structure Timeline where
  /-- MINIT was the latest of MINIT and MSHUTDOWN. -/
  inside : Bool
  /-- How many chunks were allocated. -/
  count : Nat
  /-- The chunks that were not released, each with the side on which it was allocated. -/
  held : List (Ptr × Bool)

namespace Timeline

/-- Before MINIT. -/
def start : Timeline := ⟨false, 0, []⟩

/-- One event. -/
def step (t : Timeline) : HeapEvent → Timeline
  | .minit => { t with inside := true }
  | .mshutdown => { t with inside := false }
  | .chunkAlloc _ _ true =>
    { t with count := t.count + 1, held := (t.count, t.inside) :: t.held }
  | .chunkAlloc _ _ false => t
  | .chunkFree ptr _ => { t with held := t.held.filter (·.1 != ptr) }

/-- A chunk that is released is on the side on which it was allocated. -/
def SameSide (t : Timeline) : HeapEvent → Prop
  | .chunkFree ptr _ => ∀ side, (ptr, side) ∈ t.held → side = t.inside
  | _ => True

end Timeline

/-! ## The heap follows the timeline -/

/-- The storage on either side of MINIT and MSHUTDOWN. -/
def storageAt (inside : Bool) : Option ZendMmStorage :=
  if inside then some wasmMemoryStorageStruct else none

/-- The family of the chunks that are allocated there. -/
def familyAt (inside : Bool) : AllocatorFamily := if inside then .posixMemalign else .mmap

/-- The heap and the timeline agree. -/
structure Follows (p : ZendHeap × Timeline) : Prop where
  sound : p.1.chunks.Sound ReleasedByProducer
  storage : p.1.storage = storageAt p.2.inside
  count : p.1.chunks.blocks.length = p.2.count
  held : p.1.held = p.2.held.map Prod.fst
  live : ∀ x ∈ p.2.held, ∃ chunk, p.1.chunks.read x.1 = some chunk ∧ chunk.family = familyAt x.2

variable {h : ZendHeap} {t : Timeline}

theorem follows_start : Follows (.start, .start) := ⟨Ledger.sound_empty _, rfl, rfl, rfl, nofun⟩

/-- What the memory manager gets, on either side. -/
theorem Follows.chunkAlloc_eq (hf : Follows (h, t)) (size alignment : Nat) :
    h.chunkAlloc size alignment true =
      { h with
        chunks := (h.chunks.alloc ⟨familyAt t.inside, List.replicate size 0⟩).2
        held := t.count :: h.held } := by
  rw [ZendHeap.chunkAlloc, hf.storage, ← hf.count]
  cases t.inside <;> rfl

theorem Follows.chunkAlloc_refused (hf : Follows (h, t)) (size alignment : Nat) :
    h.chunkAlloc size alignment false = h := by
  rcases h with ⟨storage, chunks, held⟩
  obtain rfl : storage = storageAt t.inside := hf.storage
  rw [ZendHeap.chunkAlloc]
  cases t.inside <;> rfl

/-- How it releases a chunk, on either side. -/
theorem Follows.chunkFree_eq (hf : Follows (h, t)) {ptr : Ptr} (hmem : ptr ∈ h.held) (size : Nat) :
    h.chunkFree ptr size =
      { h with
        chunks := h.chunks.release ptr (familyAt t.inside).releaser
        held := h.held.filter (· != ptr) } := by
  rw [ZendHeap.chunkFree, if_pos hmem, hf.storage]
  cases t.inside <;> rfl

theorem releaser_familyAt_inj {a b : Bool} :
    (familyAt a).releaser = (familyAt b).releaser ↔ a = b := by
  cases a <;> cases b <;> decide

/-- A chunk that the memory manager has. -/
theorem Follows.mem_held_iff (hf : Follows (h, t)) {ptr : Ptr} :
    ptr ∈ h.held ↔ ∃ side, (ptr, side) ∈ t.held := by
  rw [hf.held, List.mem_map]
  constructor
  · rintro ⟨⟨_, side⟩, hmem, rfl⟩
    exact ⟨side, hmem⟩
  · rintro ⟨side, hmem⟩
    exact ⟨_, hmem, rfl⟩

/-- **One event.**  It keeps the ledger sound exactly when it stays on the side of its chunk. -/
theorem Follows.sound_step_iff (hf : Follows (h, t)) (e : HeapEvent) :
    (h.step e).chunks.Sound ReleasedByProducer ↔ t.SameSide e := by
  rcases e with _ | _ | ⟨size, alignment, granted⟩ | ⟨ptr, size⟩
  · exact iff_of_true hf.sound trivial
  · exact iff_of_true hf.sound trivial
  · refine iff_of_true ?_ trivial
    rw [ZendHeap.step]
    cases granted with
    | false => rw [hf.chunkAlloc_refused]; exact hf.sound
    | true => rw [hf.chunkAlloc_eq]; exact hf.sound.alloc _
  rw [ZendHeap.step]
  by_cases hmem : ptr ∈ h.held
  · rw [hf.chunkFree_eq hmem, Ledger.sound_release_iff, and_iff_right hf.sound]
    constructor
    · rintro ⟨chunk, hread, hreleaser⟩ side hside
      obtain ⟨chunk', hread', hfamily⟩ := hf.live _ hside
      obtain rfl := Option.some.inj (hread.symm.trans hread')
      rw [ReleasedByProducer, hfamily] at hreleaser
      exact releaser_familyAt_inj.1 hreleaser
    · intro hsame
      obtain ⟨side, hside⟩ := hf.mem_held_iff.1 hmem
      obtain ⟨chunk, hread, hfamily⟩ := hf.live _ hside
      refine ⟨chunk, hread, ?_⟩
      rw [ReleasedByProducer, hfamily, hsame side hside]
  · rw [ZendHeap.chunkFree, if_neg hmem]
    refine iff_of_true hf.sound fun side hside => ?_
    exact absurd (hf.mem_held_iff.2 ⟨side, hside⟩) hmem

/-- The heap still follows the timeline after an event that keeps the ledger sound. -/
theorem Follows.step (hf : Follows (h, t)) {e : HeapEvent}
    (hsound : (h.step e).chunks.Sound ReleasedByProducer) : Follows (h.step e, t.step e) := by
  rcases e with _ | _ | ⟨size, alignment, granted⟩ | ⟨ptr, size⟩
  · exact ⟨hsound, rfl, hf.count, hf.held, hf.live⟩
  · exact ⟨hsound, rfl, hf.count, hf.held, hf.live⟩
  · cases granted with
    | false =>
      rw [show h.step (.chunkAlloc size alignment false) = h from hf.chunkAlloc_refused ..]
      exact hf
    | true =>
      rw [show h.step (.chunkAlloc size alignment true) = _ from hf.chunkAlloc_eq ..] at hsound ⊢
      refine ⟨hsound, hf.storage, ?_, ?_, ?_⟩
      · simpa [Ledger.alloc, Timeline.step] using hf.count
      · simpa [Timeline.step] using hf.held
      · intro x hx
        rcases List.mem_cons.1 hx with rfl | hx
        · refine ⟨⟨familyAt t.inside, List.replicate size 0⟩, ?_, rfl⟩
          rw [← hf.count]
          exact hf.sound.read_alloc_self _
        · obtain ⟨chunk, hread, hfamily⟩ := hf.live x hx
          exact ⟨chunk, Ledger.read_alloc_of_live hread _, hfamily⟩
  · by_cases hmem : ptr ∈ h.held
    · rw [show h.step (.chunkFree ptr size) = _ from hf.chunkFree_eq hmem size] at hsound ⊢
      refine ⟨hsound, hf.storage, hf.count, ?_, ?_⟩
      · rw [hf.held]
        exact List.filter_map
      · intro x hx
        obtain ⟨hx, hne⟩ := List.mem_filter.1 hx
        obtain ⟨chunk, hread, hfamily⟩ := hf.live x hx
        refine ⟨chunk, ?_, hfamily⟩
        rwa [Ledger.read_release_of_ne (bne_iff_ne.1 hne)]
    · -- the memory manager does not have the chunk, so nothing happens
      have hgone : t.step (.chunkFree ptr size) = t := by
        rw [Timeline.step, List.filter_eq_self.2]
        rintro ⟨ptr', side⟩ hside
        refine bne_iff_ne.2 ?_
        rintro rfl
        exact hmem (hf.mem_held_iff.2 ⟨side, hside⟩)
      rw [show h.step (.chunkFree ptr size) = h from if_neg hmem, hgone]
      exact hf

/-- **When every chunk is released by the family that produced it**: exactly when each one is
released on the side of MINIT and MSHUTDOWN on which it was allocated. -/
theorem released_by_producer_iff (events : List HeapEvent) :
    AllReleasedByProducer events ↔
      Machine.Along Timeline.step Timeline.SameSide .start events := by
  calc AllReleasedByProducer events
      ↔ Machine.Along (Machine.both ZendHeap.step Timeline.step)
          (fun p e => (p.1.step e).chunks.Sound ReleasedByProducer) (.start, .start) events :=
        Machine.along_both_fst.symm
    _ ↔ Machine.Along (Machine.both ZendHeap.step Timeline.step) (fun p e => p.2.SameSide e)
          (.start, .start) events :=
        Machine.along_congr (fun _ _ hf hsound => hf.step hsound)
          (fun _ e hf => hf.sound_step_iff e) follows_start
    _ ↔ Machine.Along Timeline.step Timeline.SameSide .start events := Machine.along_both_snd

/-- A chunk that is allocated before MINIT and released after it goes to `free`, and one that is
still there after MSHUTDOWN goes to `munmap`. -/
theorem chunks_cross_over :
    let early := [HeapEvent.chunkAlloc 2097152 2097152 true, .minit, .chunkFree 0 2097152]
    let late := [HeapEvent.minit, .chunkAlloc 2097152 2097152 true, .mshutdown,
      .chunkFree 0 2097152]
    ¬ AllReleasedByProducer early ∧ ¬ AllReleasedByProducer late := by
  constructor
  · rintro ⟨-, -, hfree, -⟩
    obtain ⟨chunk, hread, hreleaser⟩ := (Ledger.sound_release_iff.1 hfree).2
    obtain rfl := Option.some.inj hread
    exact absurd (show Releaser.munmap = .free from hreleaser) nofun
  · rintro ⟨-, -, -, hfree, -⟩
    obtain ⟨chunk, hread, hreleaser⟩ := (Ledger.sound_release_iff.1 hfree).2
    obtain rfl := Option.some.inj hread
    exact absurd (show Releaser.free = .munmap from hreleaser) nofun

end PhpWasm
