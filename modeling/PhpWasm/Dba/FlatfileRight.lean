import PhpWasm.Dba.Flatfile
import Mathlib.Data.List.Nodup

/-!
# What a flat file keeps

* `FlatStore` is what a flat file is for: entries with different keys, in the order they were
  inserted, and a walk over the keys.  A walk that is under way comes to what is inserted, and does
  not come to what is deleted.
* `Keeps` relates it to a file, in which there may be deleted entries.
* `flatfileRight`: for whatever calls, in session after session on one file, the handler answers
  what the store answers, as long as what it writes is written.
-/

set_option autoImplicit false

namespace PhpWasm.Dba

open Extent (At at_append at_append_right)
open Machine (Along Simulates answers leaves run)

/-! ## The store -/

/-- Entries, the keys that a walk has still to come to, and how long the file is. -/
structure FlatStore where
  entries : List (Bytes × Bytes)
  walk : Option (List Bytes)
  used : ℕ

namespace FlatStore

variable (t : FlatStore)

def keys : List Bytes := t.entries.map Prod.fst

/-- The value of a key. -/
def value? (key : Bytes) : Option Bytes := (t.entries.find? fun e => e.1 = key).map Prod.snd

def remove (key : Bytes) : FlatStore where
  entries := t.entries.filter fun e => e.1 ≠ key
  walk := t.walk.map fun keys => keys.filter (· ≠ key)
  used := t.used

def append (key value : Bytes) : FlatStore where
  entries := t.entries ++ [(key, value)]
  walk := t.walk.map fun keys => keys ++ [key]
  used := t.used + (entryBytes (key, value)).length

/-- The walk comes to the first of these keys. -/
def step (keys : List Bytes) : Answer × FlatStore :=
  (.ofOption keys.head?, { t with walk := keys.tail? })

/-- What the store answers. -/
def handle (mode : DbaMode) (t : FlatStore) : Request → Answer × FlatStore
  | .dbaFetch key skip =>
    if skip < -2 ^ 31 ∨ 2 ^ 31 ≤ skip then
      (.valueError "must be between -2147483648 and 2147483647", t)
    else (.ofOption (t.value? key), t)
  | .dbaExists key => (.bool (key ∈ t.keys), t)
  | .dbaFirstkey => t.step t.keys
  | .dbaNextkey => t.walk.elim (.bool false, t) t.step
  | .dbaInsert key value =>
    if mode = .reader ∨ key ∈ t.keys then (.bool false, t) else (.bool true, t.append key value)
  | .dbaReplace key value =>
    if mode = .reader then (.bool false, t) else (.bool true, (t.remove key).append key value)
  | .dbaDelete key =>
    if mode = .reader then (.bool false, t) else (.bool (key ∈ t.keys), t.remove key)
  | .dbaOptimize => (.bool (mode ≠ .reader), t)
  | .dbaSync => (.bool true, t)

end FlatStore

/-- A key that is not taken for one that was deleted. -/
def Named (key : Bytes) : Prop := key.headD 0 ≠ 0

/-- A call with such a key, and with an entry that there is room for. -/
def Usable (t : FlatStore) : Request → Prop
  | .dbaFetch key _ | .dbaExists key | .dbaDelete key => Named key
  | .dbaInsert key value | .dbaReplace key value =>
    Named key ∧ Short (key, value) ∧ t.used + (entryBytes (key, value)).length < 2 ^ 32
  | .dbaFirstkey | .dbaNextkey | .dbaOptimize | .dbaSync => True

instance (key : Bytes) : Decidable (Named key) := inferInstanceAs (Decidable (_ ≠ _))

instance (e : Bytes × Bytes) : Decidable (Short e) := inferInstanceAs (Decidable (_ ∧ _))

instance (t : FlatStore) (request : Request) : Decidable (Usable t request) :=
  match request with
  | .dbaFetch key _ | .dbaExists key | .dbaDelete key => inferInstanceAs (Decidable (Named key))
  | .dbaInsert _ _ | .dbaReplace _ _ => inferInstanceAs (Decidable (_ ∧ _ ∧ _))
  | .dbaFirstkey | .dbaNextkey | .dbaOptimize | .dbaSync => inferInstanceAs (Decidable True)

/-! ## Entries in a file -/

/-- An entry that was not deleted. -/
def isLive (e : Bytes × Bytes) : Bool := e.1.headD 0 ≠ 0

/-- An entry whose key may have been overwritten. -/
def bury (key : Bytes) (e : Bytes × Bytes) : Bytes × Bytes :=
  if e.1 = key then (0 :: e.1.tail, e.2) else e

/-- **What is in the file**: the entries, and deleted ones between them. -/
structure Stores (file : Bytes) (slots entries : List (Bytes × Bytes)) : Prop where
  bytes : file = entriesBytes slots
  short : ∀ x ∈ slots, Short x
  named : ∀ x ∈ slots, x.1 ≠ []
  small : file.length < 2 ^ 32
  live : slots.filter isLive = entries
  nodup : (entries.map Prod.fst).Nodup

section Slots

variable {file key value : Bytes} {slots entries before after : List (Bytes × Bytes)}
  {e : Bytes × Bytes} {pos : ℕ}

theorem length_le_entriesBytes (slots : List (Bytes × Bytes)) :
    slots.length ≤ (entriesBytes slots).length := by
  induction slots with
  | nil => exact Nat.le_refl _
  | cons x slots ih =>
    have hline : 0 < (sizeLine x.1.length).length := by
      rw [sizeLine_eq, List.length_append]
      exact Nat.succ_pos _
    rw [entriesBytes_cons, List.length_append, entryBytes, fieldBytes, List.length_append,
      List.length_append, List.length_cons]
    omega

theorem length_bury (key : Bytes) {e : Bytes × Bytes} (he : e.1 ≠ []) :
    (bury key e).1.length = e.1.length ∧ (bury key e).2 = e.2 := by
  rw [bury]
  split
  · refine ⟨?_, rfl⟩
    rw [List.length_cons, List.length_tail, Nat.sub_add_cancel (List.length_pos_iff.2 he)]
  · exact ⟨rfl, rfl⟩

theorem length_entryBytes_bury (key : Bytes) (he : e.1 ≠ []) :
    (entryBytes (bury key e)).length = (entryBytes e).length := by
  obtain ⟨hkey, hvalue⟩ := length_bury key he
  simp only [entryBytes, fieldBytes, List.length_append, hkey, hvalue]

theorem length_map_bury (key : Bytes) (hnamed : ∀ x ∈ slots, x.1 ≠ []) :
    (entriesBytes (slots.map (bury key))).length = (entriesBytes slots).length := by
  induction slots with
  | nil => rfl
  | cons x slots ih =>
    rw [List.forall_mem_cons] at hnamed
    rw [List.map_cons, entriesBytes_cons, entriesBytes_cons, List.length_append,
      List.length_append, ih hnamed.2, length_entryBytes_bury key hnamed.1]

theorem bury_of_ne (h : e.1 ≠ key) : bury key e = e := if_neg h

/-- What is buried is not live. -/
theorem filter_bury (hkey : Named key) (slots : List (Bytes × Bytes)) :
    (slots.map (bury key)).filter isLive =
      (slots.filter isLive).filter fun e => e.1 ≠ key := by
  induction slots with
  | nil => rfl
  | cons x slots ih =>
    rw [List.map_cons]
    by_cases hx : x.1 = key
    · have hlive : isLive x = true := by
        rw [isLive, hx]
        exact decide_eq_true hkey
      have hdead : ¬ isLive (bury key x) = true := by simp [bury, hx, isLive]
      rw [List.filter_cons_of_neg hdead, List.filter_cons_of_pos hlive,
        List.filter_cons_of_neg (by simpa using hx), ih]
    · rw [bury_of_ne hx, List.filter_cons, List.filter_cons, ih]
      split
      · rw [List.filter_cons_of_pos (by simpa using hx)]
      · rfl

theorem isLive_of_key (hkey : Named key) (he : e.1 = key) : isLive e = true := by
  rw [isLive, he]
  exact decide_eq_true hkey

/-- A key of the store is in the file once. -/
theorem Stores.exists_split (h : Stores file slots entries) (hkey : Named key)
    (hmem : key ∈ entries.map Prod.fst) :
    ∃ before e after, slots = before ++ e :: after ∧ e.1 = key ∧ (∀ x ∈ before, x.1 ≠ key) ∧
      ∀ x ∈ after, x.1 ≠ key := by
  obtain ⟨e, he, rfl⟩ := List.mem_map.1 hmem
  rw [← h.live] at he
  obtain ⟨before, after, hslots⟩ := List.append_of_mem (List.mem_of_mem_filter he)
  have hnodup := h.nodup
  rw [← h.live, hslots, List.filter_append, List.filter_cons_of_pos (isLive_of_key hkey rfl),
    List.map_append, List.map_cons, List.nodup_middle, List.nodup_cons, List.mem_append,
    not_or] at hnodup
  refine ⟨before, e, after, hslots, rfl, fun x hx heq => hnodup.1.1 ?_,
    fun x hx heq => hnodup.1.2 ?_⟩
  · rw [← heq]
    exact List.mem_map_of_mem (List.mem_filter.2 ⟨hx, isLive_of_key hkey heq⟩)
  · rw [← heq]
    exact List.mem_map_of_mem (List.mem_filter.2 ⟨hx, isLive_of_key hkey heq⟩)

/-- Another key is not in the file. -/
theorem Stores.forall_ne (h : Stores file slots entries) (hkey : Named key)
    (hmem : key ∉ entries.map Prod.fst) : ∀ x ∈ slots, x.1 ≠ key := by
  intro x hx heq
  refine hmem (heq ▸ List.mem_map_of_mem ?_)
  rw [← h.live]
  exact List.mem_filter.2 ⟨hx, isLive_of_key hkey heq⟩

/-- The value of a key of the store. -/
theorem Stores.find?_eq (h : Stores file slots entries) (hkey : Named e.1)
    (hslots : slots = before ++ e :: after) (hbefore : ∀ x ∈ before, x.1 ≠ e.1) :
    entries.find? (fun x => x.1 = e.1) = some e := by
  have hnone : (before.filter isLive).find? (fun x => x.1 = e.1) = none :=
    List.find?_eq_none.2 fun x hx => by simpa using hbefore x (List.mem_of_mem_filter hx)
  rw [← h.live, hslots, List.filter_append, List.filter_cons_of_pos (isLive_of_key hkey rfl),
    List.find?_append, hnone, Option.none_or, List.find?_cons_of_pos (by simp)]

/-- Where the value of an entry is. -/
theorem Stores.at_value (h : Stores file slots entries) (hslots : slots = before ++ e :: after) :
    At file ((entriesBytes before).length + (fieldBytes e.1).length) (fieldBytes e.2) := by
  have hat := at_append_right (entriesBytes before) (entriesBytes (e :: after))
  rw [← entriesBytes_append, ← hslots, ← h.bytes, entriesBytes_cons, at_append, entryBytes,
    at_append] at hat
  exact hat.1.2

/-! ### Looking for a key -/

theorem Stores.find_key (h : Stores file slots entries) (hslots : slots = before ++ e :: after)
    (hbefore : ∀ x ∈ before, x.1 ≠ e.1) :
    PhpStream.find ⟨file, 0⟩ (isKey e.1) =
      (some ((entriesBytes before).length + (sizeLine e.1.length).length, e.1),
        ⟨file, (entriesBytes before).length + (fieldBytes e.1).length⟩) := by
  have hlength := length_le_entriesBytes slots
  rw [← h.bytes] at hlength
  have hfuel : before.length < file.length + 1 := by
    rw [hslots, List.length_append] at hlength
    omega
  have hat : At file 0 (entriesBytes (before ++ e :: after)) := by
    rw [← hslots, ← h.bytes]
    exact List.prefix_rfl
  have hfound := findEntry_found (isKey e.1) hat (hslots ▸ h.short)
    (fun x hx => decide_eq_false (hbefore x hx)) (decide_eq_true rfl) hfuel
  rwa [Nat.zero_add] at hfound

theorem Stores.find_no_key (h : Stores file slots entries) (hne : ∀ x ∈ slots, x.1 ≠ key) :
    PhpStream.find ⟨file, 0⟩ (isKey key) = (none, ⟨file, file.length⟩) := by
  have hlength := length_le_entriesBytes slots
  rw [← h.bytes] at hlength
  have hat : At file 0 (entriesBytes slots) := by
    rw [← h.bytes]
    exact List.prefix_rfl
  exact findEntry_none (isKey key) hat (by rw [Nat.zero_add, ← h.bytes]) h.short
    (fun x hx => decide_eq_false (hne x hx)) (Nat.le_succ_of_le hlength)

/-- The stream of a file, at some position. -/
def PhpStream.On (s : PhpStream) (file : Bytes) : Prop := s.bytes = file

theorem flatfileFindkey_eq (h : Stores file slots entries) (hkey : Named key) {fp : PhpStream}
    (hfp : fp.On file) :
    (flatfileFindkey fp key).1 = decide (key ∈ entries.map Prod.fst) ∧
      (flatfileFindkey fp key).2.On file := by
  have hseek : fp.seek 0 = ⟨file, 0⟩ := by rw [PhpStream.seek, hfp]
  rw [flatfileFindkey, hseek]
  by_cases hmem : key ∈ entries.map Prod.fst
  · obtain ⟨before, e, after, hslots, rfl, hbefore, -⟩ := h.exists_split hkey hmem
    rw [h.find_key hslots hbefore, decide_eq_true hmem]
    exact ⟨rfl, rfl⟩
  · rw [h.find_no_key (h.forall_ne hkey hmem), decide_eq_false hmem]
    exact ⟨rfl, rfl⟩

/-- **Fetching.** -/
theorem flatfileFetch_eq (h : Stores file slots entries) (hkey : Named key) {fp : PhpStream}
    (hfp : fp.On file) :
    (flatfileFetch fp key).1 = (entries.find? fun e => e.1 = key).map Prod.snd ∧
      (flatfileFetch fp key).2.On file := by
  have hseek : fp.seek 0 = ⟨file, 0⟩ := by rw [PhpStream.seek, hfp]
  rw [flatfileFetch, flatfileFindkey, hseek]
  by_cases hmem : key ∈ entries.map Prod.fst
  · obtain ⟨before, e, after, hslots, rfl, hbefore, -⟩ := h.exists_split hkey hmem
    have hshort : e.2.length < 2 ^ 32 :=
      Nat.lt_trans (h.short e (hslots ▸ by simp)).2 (by decide)
    obtain ⟨hline, hvalue⟩ := at_append.1 (h.at_value hslots)
    rw [h.find_key hslots hbefore, h.find?_eq hkey hslots hbefore]
    dsimp only
    rw [if_pos Option.isSome_some, gets_sizeLine hline hshort (by decide)]
    dsimp only
    rw [sizeOfLine_sizeLine hshort, read_field hvalue]
    exact ⟨rfl, rfl⟩
  · have hnone : entries.find? (fun e => e.1 = key) = none :=
      List.find?_eq_none.2 fun e he => by
        simpa using fun heq : e.1 = key => hmem (heq ▸ List.mem_map_of_mem he)
    rw [h.find_no_key (h.forall_ne hkey hmem), hnone]
    exact ⟨rfl, rfl⟩

/-! ### Changing the file -/

/-- The file when a key was deleted. -/
def buried (key : Bytes) (slots : List (Bytes × Bytes)) : Bytes :=
  entriesBytes (slots.map (bury key))

theorem map_bury_of_ne (h : ∀ x ∈ slots, x.1 ≠ key) : slots.map (bury key) = slots :=
  (List.map_congr_left fun x hx => bury_of_ne (h x hx)).trans (List.map_id' _)

/-- **Deleting.** -/
theorem flatfileDelete_eq {P : StreamOps} (hP : P.Works) (h : Stores file slots entries)
    (hkey : Named key) {fp : PhpStream} (hfp : fp.On file) :
    flatfileDelete P fp key =
      (decide (key ∈ entries.map Prod.fst), ⟨buried key slots, (buried key slots).length⟩) := by
  have hseek : fp.seek 0 = ⟨file, 0⟩ := by rw [PhpStream.seek, hfp]
  rw [flatfileDelete, hseek, buried]
  by_cases hmem : key ∈ entries.map Prod.fst
  · obtain ⟨before, e, after, hslots, rfl, hbefore, hafter⟩ := h.exists_split hkey hmem
    have hsmall := h.small
    have hlen : file.length = (entriesBytes before).length + (sizeLine e.1.length).length +
        e.1.length + (fieldBytes e.2).length + (entriesBytes after).length := by
      rw [h.bytes, hslots, entriesBytes_append, entriesBytes_cons, entryBytes, fieldBytes]
      simp only [List.length_append]
      omega
    have hmod : ((entriesBytes before).length + (sizeLine e.1.length).length) % 2 ^ 32 =
        (entriesBytes before).length + (sizeLine e.1.length).length :=
      Nat.mod_eq_of_lt (by omega)
    obtain ⟨b, rest, hname⟩ := List.exists_cons_of_ne_nil (h.named e (hslots ▸ by simp))
    have hmap : slots.map (bury e.1) = before ++ (0 :: rest, e.2) :: after := by
      rw [hslots, List.map_append, List.map_cons, map_bury_of_ne hbefore, map_bury_of_ne hafter,
        bury, if_pos rfl, hname, List.tail_cons]
    have hfield : fieldBytes (0 :: rest) = sizeLine e.1.length ++ 0 :: rest := by
      rw [hname]
      rfl
    have hfile : file = entriesBytes before ++ sizeLine e.1.length ++
        b :: (rest ++ fieldBytes e.2 ++ entriesBytes after) := by
      rw [h.bytes, hslots, entriesBytes_append, entriesBytes_cons, entryBytes, fieldBytes, hname]
      simp only [List.append_assoc, List.cons_append]
    have hwrite : (PhpStream.write ⟨file,
        (entriesBytes before).length + (sizeLine e.1.length).length⟩ [0]).bytes =
          entriesBytes (slots.map (bury e.1)) := by
      rw [hfile, ← List.length_append, write_byte, hmap, entriesBytes_append, entriesBytes_cons,
        entryBytes, hfield]
      simp only [List.append_assoc, List.cons_append]
    rw [h.find_key hslots hbefore, decide_eq_true hmem]
    dsimp only
    rw [hmod, hP.write, PhpStream.seek, PhpStream.seekEnd, hwrite]
  · have hne := h.forall_ne hkey hmem
    rw [h.find_no_key hne, map_bury_of_ne hne, ← h.bytes, decide_eq_false hmem]

/-- What is in the file when a key was deleted. -/
theorem Stores.bury (h : Stores file slots entries) (hkey : Named key) :
    Stores (buried key slots) (slots.map (bury key)) (entries.filter fun e => e.1 ≠ key) where
  bytes := rfl
  short := by
    intro x hx
    obtain ⟨y, hy, rfl⟩ := List.mem_map.1 hx
    obtain ⟨hlength, hvalue⟩ := length_bury key (h.named y hy)
    rw [Short, hlength, hvalue]
    exact h.short y hy
  named := by
    intro x hx
    obtain ⟨y, hy, rfl⟩ := List.mem_map.1 hx
    rw [Dba.bury]
    split
    · exact List.cons_ne_nil _ _
    · exact h.named y hy
  small := by
    rw [buried, length_map_bury key h.named, ← h.bytes]
    exact h.small
  live := by rw [filter_bury hkey, h.live]
  nodup := h.nodup.sublist (List.Sublist.map _ List.filter_sublist)

/-- What is in the file when an entry was appended. -/
theorem Stores.append (h : Stores file slots entries) (hkey : Named key)
    (hshort : Short (key, value)) (hroom : file.length + (entryBytes (key, value)).length < 2 ^ 32)
    (hnew : key ∉ entries.map Prod.fst) :
    Stores (file ++ entryBytes (key, value)) (slots ++ [(key, value)])
      (entries ++ [(key, value)]) where
  bytes := by
    rw [entriesBytes_append, ← h.bytes, entriesBytes_cons, entriesBytes_nil, List.append_nil]
  short := by
    rw [List.forall_mem_append, List.forall_mem_singleton]
    exact ⟨h.short, hshort⟩
  named := by
    rw [List.forall_mem_append, List.forall_mem_singleton]
    refine ⟨h.named, fun hnil => hkey ?_⟩
    rw [show key = [] from hnil]
    rfl
  small := by rwa [List.length_append]
  live := by
    rw [List.filter_append, h.live, List.filter_cons_of_pos (isLive_of_key hkey rfl),
      List.filter_nil]
  nodup := by
    rw [List.map_append, List.map_cons, List.map_nil, ← List.concat_eq_append]
    exact h.nodup.concat hnew

/-! ### The walk -/

/-- **Where a walk is** that has still to come to these keys: behind the key of an entry. -/
def WalksAt (slots : List (Bytes × Bytes)) (pos : ℕ) (nextkey : Option Bytes) :
    Option (List Bytes) → Prop
  | none => nextkey = none
  | some keys => nextkey ≠ none ∧ ∃ before e after, slots = before ++ e :: after ∧
      pos = (entriesBytes before).length + (fieldBytes e.1).length ∧
        (after.filter isLive).map Prod.fst = keys

variable {nextkey : Option Bytes} {walk : Option (List Bytes)}

theorem WalksAt.bury (h : WalksAt slots pos nextkey walk) (hkey : Named key)
    (hnamed : ∀ x ∈ slots, x.1 ≠ []) :
    WalksAt (slots.map (bury key)) pos nextkey (walk.map fun keys => keys.filter (· ≠ key)) := by
  rcases walk with _ | keys
  · exact h
  · obtain ⟨hnextkey, before, e, after, rfl, rfl, rfl⟩ := h
    rw [List.forall_mem_append, List.forall_mem_cons] at hnamed
    obtain ⟨hlength, -⟩ := length_bury key hnamed.2.1
    refine ⟨hnextkey, before.map (Dba.bury key), Dba.bury key e, after.map (Dba.bury key), ?_, ?_,
      ?_⟩
    · rw [List.map_append, List.map_cons]
    · rw [length_map_bury key hnamed.1, fieldBytes, fieldBytes, List.length_append,
        List.length_append, hlength]
    · rw [filter_bury hkey]
      dsimp only
      rw [List.filter_map]
      rfl

theorem WalksAt.append (h : WalksAt slots pos nextkey walk) (hkey : Named key) (value : Bytes) :
    WalksAt (slots ++ [(key, value)]) pos nextkey (walk.map fun keys => keys ++ [key]) := by
  rcases walk with _ | keys
  · exact h
  · obtain ⟨hnextkey, before, e, after, rfl, rfl, rfl⟩ := h
    refine ⟨hnextkey, before, e, after ++ [(key, value)], ?_, rfl, ?_⟩
    · rw [List.append_assoc, List.cons_append]
    · rw [List.filter_append, List.filter_cons_of_pos (isLive_of_key hkey rfl), List.filter_nil,
        List.map_append]
      rfl

theorem isNotDeleted_eq {x : Bytes × Bytes} (hx : x.1 ≠ []) (line : Bytes) :
    isNotDeleted line x.1 = isLive x := by
  obtain ⟨b, rest, hkey⟩ := List.exists_cons_of_ne_nil hx
  rw [isNotDeleted, isLive, hkey]
  rfl

/-- **The walk goes on** with the entries that are still to come. -/
theorem current_eq (before : List (Bytes × Bytes)) (h : Stores file slots entries)
    (hslots : slots = before ++ after)
    (dba : Flatfile) {r : Option Bytes × Flatfile}
    (hr : r = dba.current (PhpStream.find ⟨file, (entriesBytes before).length⟩ isNotDeleted)) :
    r.1 = ((after.filter isLive).map Prod.fst).head? ∧ r.2.fp.On file ∧
      WalksAt slots r.2.currentFlatFilePos r.1 ((after.filter isLive).map Prod.fst).tail? := by
  have hsmall := h.small
  have hfuel := length_le_entriesBytes slots
  have hat := at_append_right (entriesBytes before) (entriesBytes after)
  have hend : (entriesBytes before).length + (entriesBytes after).length = file.length := by
    rw [h.bytes, hslots, entriesBytes_append, List.length_append]
  have hshort : ∀ x ∈ after, Short x := fun x hx => h.short x (by simp [hslots, hx])
  have hnamed : ∀ x ∈ after, x.1 ≠ [] := fun x hx => h.named x (by simp [hslots, hx])
  rw [← entriesBytes_append, ← hslots, ← h.bytes] at hat
  rw [← h.bytes, hslots, List.length_append] at hfuel
  rcases hlive : after.filter isLive with _ | ⟨e, rest⟩
  · have hnone := findEntry_none isNotDeleted hat hend hshort (fun x hx => by
      rw [isNotDeleted_eq (hnamed x hx)]
      simpa using List.filter_eq_nil_iff.1 hlive x hx) (show after.length ≤ file.length + 1 by omega)
    rw [PhpStream.find, hnone] at hr
    subst hr
    exact ⟨rfl, rfl, rfl⟩
  · obtain ⟨dead, later, rfl, hdead, he, rfl⟩ := List.filter_eq_cons_iff.1 hlive
    rw [List.length_append] at hfuel
    have hfound := findEntry_found isNotDeleted hat hshort (fun x hx => by
      rw [isNotDeleted_eq (hnamed x (by simp [hx]))]
      simpa using hdead x hx) (by rwa [isNotDeleted_eq (hnamed e (by simp))])
      (show dead.length < file.length + 1 by omega)
    have hpos : ((entriesBytes before).length + (entriesBytes dead).length +
        (fieldBytes e.1).length) % 2 ^ 32 = (entriesBytes (before ++ dead)).length +
          (fieldBytes e.1).length := by
      rw [entriesBytes_append, entriesBytes_cons, entryBytes] at hend
      simp only [List.length_append] at hend
      rw [entriesBytes_append, List.length_append]
      exact Nat.mod_eq_of_lt (by omega)
    rw [PhpStream.find, hfound] at hr
    subst hr
    refine ⟨rfl, rfl, Option.some_ne_none _, before ++ dead, e, later, ?_, hpos, rfl⟩
    rw [hslots, List.append_assoc]

end Slots

/-! ### The handler -/

/-- **The file keeps** what the store has. -/
def Keeps (dba : Flatfile) (t : FlatStore) : Prop :=
  t.used = dba.fp.bytes.length ∧ ∃ slots, Stores dba.fp.bytes slots t.entries ∧
    WalksAt slots dba.currentFlatFilePos dba.nextkey t.walk

section Handler

variable {P : StreamOps} {dba : Flatfile} {t : FlatStore} {key value : Bytes}

/-- Reading does not change what is kept. -/
theorem Keeps.read (h : Keeps dba t) {fp : PhpStream} (hfp : fp.On dba.fp.bytes) :
    Keeps { dba with fp := fp } t := by
  obtain ⟨hused, slots, hstores, hwalk⟩ := h
  have hbytes : fp.bytes = dba.fp.bytes := hfp
  exact ⟨hbytes ▸ hused, slots, hbytes ▸ hstores, hwalk⟩

theorem Keeps.fetch (h : Keeps dba t) (hkey : Named key) :
    (flatfileFetch dba.fp key).1 = t.value? key ∧
      Keeps { dba with fp := (flatfileFetch dba.fp key).2 } t := by
  obtain ⟨-, slots, hstores, -⟩ := id h
  obtain ⟨hvalue, hfp⟩ := flatfileFetch_eq hstores hkey rfl
  exact ⟨hvalue, h.read hfp⟩

theorem isSome_value? (t : FlatStore) (key : Bytes) :
    (t.value? key).isSome = decide (key ∈ t.keys) := by
  rw [FlatStore.value?, Option.isSome_map, FlatStore.keys]
  by_cases hmem : key ∈ t.entries.map Prod.fst
  · obtain ⟨e, he, rfl⟩ := List.mem_map.1 hmem
    rw [decide_eq_true hmem, List.find?_isSome]
    exact ⟨e, he, decide_eq_true rfl⟩
  · rw [decide_eq_false hmem, List.find?_eq_none.2 fun e he => ?_]
    · rfl
    · simpa using fun heq : e.1 = key => hmem (heq ▸ List.mem_map_of_mem he)

/-- **Deleting** removes the entry. -/
theorem Keeps.delete (hP : P.Works) (h : Keeps dba t) (hkey : Named key) :
    (flatfileDelete P dba.fp key).1 = decide (key ∈ t.keys) ∧
      Keeps { dba with fp := (flatfileDelete P dba.fp key).2 } (t.remove key) := by
  obtain ⟨hused, slots, hstores, hwalk⟩ := h
  rw [flatfileDelete_eq hP hstores hkey rfl]
  refine ⟨rfl, ?_, slots.map (bury key), hstores.bury hkey, hwalk.bury hkey hstores.named⟩
  rw [FlatStore.remove, hused, buried, length_map_bury key hstores.named, ← hstores.bytes]

/-- **Appending** an entry whose key is new. -/
theorem Keeps.append (hP : P.Works) (h : Keeps dba t) (hkey : Named key)
    (hshort : Short (key, value)) (hroom : t.used + (entryBytes (key, value)).length < 2 ^ 32)
    (hnew : key ∉ t.keys) (hend : dba.fp.pos = dba.fp.bytes.length) :
    (writeEntry P dba.fp key value).1 = 0 ∧
      Keeps { dba with fp := (writeEntry P dba.fp key value).2 } (t.append key value) := by
  obtain ⟨hused, slots, hstores, hwalk⟩ := h
  have hfp : dba.fp = ⟨dba.fp.bytes, dba.fp.bytes.length⟩ := by rw [← hend]
  rw [hfp, writeEntry_end hP]
  rw [hused] at hroom
  refine ⟨rfl, ?_, slots ++ [(key, value)], hstores.append hkey hshort hroom hnew,
    hwalk.append hkey value⟩
  rw [FlatStore.append, hused, List.length_append]

/-- **The first key.** -/
theorem Keeps.firstkey (h : Keeps dba t) :
    (dbaFirstkeyFlatfile dba).1 = t.keys.head? ∧
      Keeps (dbaFirstkeyFlatfile dba).2 { t with walk := t.keys.tail? } := by
  obtain ⟨hused, slots, hstores, -⟩ := h
  obtain ⟨hkey, hfp, hwalk⟩ :=
    current_eq [] hstores (List.nil_append slots).symm dba rfl
  rw [hstores.live] at hkey hwalk
  have hbytes : (dbaFirstkeyFlatfile dba).2.fp.bytes = dba.fp.bytes := hfp
  exact ⟨hkey, hbytes ▸ hused, slots, hbytes ▸ hstores, hwalk⟩

/-- **The next key.** -/
theorem Keeps.nextkey (h : Keeps dba t) {keys : List Bytes} (hkeys : t.walk = some keys) :
    (dbaNextkeyFlatfile dba).1 = keys.head? ∧
      Keeps (dbaNextkeyFlatfile dba).2 { t with walk := keys.tail? } := by
  obtain ⟨hused, slots, hstores, hwalk⟩ := h
  rw [hkeys] at hwalk
  obtain ⟨hnextkey, before, e, after, hslots, hpos, rfl⟩ := hwalk
  have hshort := hstores.short e (hslots ▸ by simp)
  obtain ⟨hline, hvalue⟩ := at_append.1 (hstores.at_value hslots)
  have hseek : dba.fp.seek dba.currentFlatFilePos =
      ⟨dba.fp.bytes, (entriesBytes before).length + (fieldBytes e.1).length⟩ := by
    rw [PhpStream.seek, hpos]
  have hend : (entriesBytes before).length + (fieldBytes e.1).length +
      (sizeLine e.2.length).length + e.2.length = (entriesBytes (before ++ [e])).length := by
    rw [entriesBytes_append, entriesBytes_cons, entriesBytes_nil, List.append_nil, entryBytes]
    simp only [List.length_append, fieldBytes]
    omega
  have hnext : flatfileNextkey dba = dba.current
      (PhpStream.find ⟨dba.fp.bytes, (entriesBytes (before ++ [e])).length⟩ isNotDeleted) := by
    rw [flatfileNextkey, hseek, getSize_sizeLine hline hshort.2]
    dsimp only
    rw [read_field hvalue, hend]
  rw [← List.singleton_append, ← List.append_assoc] at hslots
  obtain ⟨hkey, hfp, hcurrent⟩ := current_eq (before ++ [e]) hstores hslots dba hnext
  rw [dbaNextkeyFlatfile, if_neg hnextkey]
  have hbytes : (flatfileNextkey dba).2.fp.bytes = dba.fp.bytes := hfp
  exact ⟨hkey, hbytes ▸ hused, slots, hbytes ▸ hstores, hcurrent⟩

/-- A deleted key is not in the store. -/
theorem not_mem_remove (t : FlatStore) (key : Bytes) : key ∉ (t.remove key).keys := by
  simp [FlatStore.remove, FlatStore.keys]

/-- **Inserting** an entry, unless there is one with the key. -/
theorem Keeps.insert (hP : P.Works) (h : Keeps dba t) (hkey : Named key)
    (hshort : Short (key, value)) (hroom : t.used + (entryBytes (key, value)).length < 2 ^ 32) :
    (dbaUpdateFlatfile P dba key value 1).1 = decide (key ∉ t.keys) ∧
      Keeps (dbaUpdateFlatfile P dba key value 1).2
        (if key ∈ t.keys then t else t.append key value) := by
  obtain ⟨-, slots, hstores, -⟩ := id h
  obtain ⟨hfound, hfp⟩ := flatfileFindkey_eq hstores hkey (show dba.fp.On dba.fp.bytes from rfl)
  by_cases hmem : key ∈ t.keys
  · have hstore : flatfileStore P dba.fp key value 1 = (1, (flatfileFindkey dba.fp key).2) := by
      rw [flatfileStore, if_pos rfl]
      exact if_pos (hfound.trans (decide_eq_true hmem))
    rw [dbaUpdateFlatfile, if_pos rfl, hstore, if_pos hmem, decide_eq_false (not_not.2 hmem)]
    exact ⟨rfl, h.read hfp⟩
  · have hnot : ¬ (flatfileFindkey dba.fp key).1 = true :=
      Bool.eq_false_iff.1 (hfound.trans (decide_eq_false hmem))
    have hstore : flatfileStore P dba.fp key value 1 =
        writeEntry P (flatfileFindkey dba.fp key).2.seekEnd key value := by
      rw [flatfileStore, if_pos rfl]
      exact if_neg hnot
    have hseek : Keeps { dba with fp := (flatfileFindkey dba.fp key).2.seekEnd } t := h.read hfp
    obtain ⟨hzero, hkeeps⟩ := hseek.append hP hkey hshort hroom hmem rfl
    rw [dbaUpdateFlatfile, if_pos rfl, hstore, if_neg hmem, decide_eq_true hmem]
    exact ⟨decide_eq_true hzero, hkeeps⟩

/-- **Replacing** an entry: it is deleted, and appended anew. -/
theorem Keeps.replace (hP : P.Works) (h : Keeps dba t) (hkey : Named key)
    (hshort : Short (key, value)) (hroom : t.used + (entryBytes (key, value)).length < 2 ^ 32) :
    (dbaUpdateFlatfile P dba key value 0).1 = true ∧
      Keeps (dbaUpdateFlatfile P dba key value 0).2 ((t.remove key).append key value) := by
  obtain ⟨-, slots, hstores, -⟩ := id h
  obtain ⟨-, hkeeps⟩ := h.delete hP hkey
  obtain ⟨hzero, hstored⟩ := hkeeps.append hP hkey hshort hroom (not_mem_remove t key) (by
    rw [flatfileDelete_eq hP hstores hkey rfl])
  exact ⟨decide_eq_true hzero, hstored⟩

/-- **One call**: the handler answers what the store answers. -/
theorem flatfile_simulates (hP : P.Works) (mode : DbaMode) :
    Simulates (dbaHandle (flatfileHandler P) mode) (FlatStore.handle mode) Usable Keeps := by
  intro dba t request h husable
  match request with
  | .dbaFetch key skip =>
    rw [dbaHandle, FlatStore.handle]
    split_ifs
    · exact ⟨rfl, h⟩
    · obtain ⟨hvalue, hkeeps⟩ := h.fetch husable
      exact ⟨congrArg Answer.ofOption hvalue, hkeeps⟩
  | .dbaExists key =>
    obtain ⟨hvalue, hkeeps⟩ := h.fetch husable
    refine ⟨congrArg Answer.bool ?_, hkeeps⟩
    rw [← isSome_value?, ← hvalue]
    rfl
  | .dbaFirstkey =>
    obtain ⟨hkey, hkeeps⟩ := h.firstkey
    exact ⟨congrArg Answer.ofOption hkey, hkeeps⟩
  | .dbaNextkey =>
    rw [FlatStore.handle]
    rcases hwalk : t.walk with _ | keys
    · have hnone : dba.nextkey = none := by
        obtain ⟨-, slots, -, hw⟩ := id h
        rw [hwalk] at hw
        exact hw
      have hnext : dbaNextkeyFlatfile dba = (none, dba) := if_pos hnone
      rw [dbaHandle, flatfileHandler]
      dsimp only
      rw [hnext]
      exact ⟨rfl, h⟩
    · obtain ⟨hkey, hkeeps⟩ := h.nextkey hwalk
      exact ⟨congrArg Answer.ofOption hkey, hkeeps⟩
  | .dbaInsert key value =>
    obtain ⟨hkey, hshort, hroom⟩ := husable
    rw [dbaHandle, phpDbaUpdate, FlatStore.handle]
    by_cases hmode : mode = .reader
    · rw [if_pos hmode, if_pos (.inl hmode)]
      exact ⟨rfl, h⟩
    · obtain ⟨hnew, hkeeps⟩ := h.insert hP hkey hshort hroom
      rw [if_neg hmode]
      by_cases hmem : key ∈ t.keys
      · rw [if_pos hmem] at hkeeps
        rw [if_pos (.inr hmem)]
        exact ⟨congrArg Answer.bool (hnew.trans (decide_eq_false (not_not.2 hmem))), hkeeps⟩
      · rw [if_neg hmem] at hkeeps
        rw [if_neg (not_or.2 ⟨hmode, hmem⟩)]
        exact ⟨congrArg Answer.bool (hnew.trans (decide_eq_true hmem)), hkeeps⟩
  | .dbaReplace key value =>
    obtain ⟨hkey, hshort, hroom⟩ := husable
    rw [dbaHandle, phpDbaUpdate, FlatStore.handle]
    split_ifs
    · exact ⟨rfl, h⟩
    · obtain ⟨hdone, hkeeps⟩ := h.replace hP hkey hshort hroom
      exact ⟨congrArg Answer.bool hdone, hkeeps⟩
  | .dbaDelete key =>
    rw [dbaHandle, FlatStore.handle]
    split_ifs
    · exact ⟨rfl, h⟩
    · obtain ⟨hdeleted, hkeeps⟩ := h.delete hP husable
      exact ⟨congrArg Answer.bool hdeleted, hkeeps⟩
  | .dbaOptimize =>
    rw [dbaHandle, FlatStore.handle]
    split_ifs with hmode
    · exact ⟨by simp [hmode], h⟩
    · exact ⟨by simp [hmode, flatfileHandler, dbaOptimizeFlatfile], h⟩
  | .dbaSync => exact ⟨rfl, h⟩

end Handler

/-! ### Sessions -/

/-- A session on a file: the answers, and the file that is left. -/
def flatfileSession (P : StreamOps) (file : Bytes) (s : DbaMode × List Request) :
    List Answer × Bytes :=
  let dba := dbaOpenFlatfile ⟨if s.1 = .trunc then [] else file, 0⟩
  let handle := dbaHandle (flatfileHandler P) s.1
  (answers handle dba s.2, (run (leaves handle) dba s.2).fp.bytes)

/-- The store when it is opened. -/
def FlatStore.opened (mode : DbaMode) (t : FlatStore) : FlatStore :=
  if mode = .trunc then ⟨[], none, 0⟩ else { t with walk := none }

/-- A session with the store. -/
def FlatStore.session (t : FlatStore) (s : DbaMode × List Request) : List Answer × FlatStore :=
  (answers (FlatStore.handle s.1) (t.opened s.1) s.2,
    run (leaves (FlatStore.handle s.1)) (t.opened s.1) s.2)

/-- A session of calls that are usable. -/
def SessionUsable (t : FlatStore) (s : DbaMode × List Request) : Prop :=
  Along (leaves (FlatStore.handle s.1)) Usable (t.opened s.1) s.2

instance (t : FlatStore) (s : DbaMode × List Request) : Decidable (SessionUsable t s) :=
  inferInstanceAs (Decidable (Along _ _ _ _))

/-- The file has what the store has. -/
def Kept (file : Bytes) (t : FlatStore) : Prop :=
  t.used = file.length ∧ ∃ slots, Stores file slots t.entries

theorem stores_nil : Stores [] [] [] where
  bytes := rfl
  short := by simp
  named := by simp
  small := by decide
  live := rfl
  nodup := List.nodup_nil

/-- A file that is opened. -/
theorem Kept.opened {file : Bytes} {t : FlatStore} (h : Kept file t) (mode : DbaMode) :
    Keeps (dbaOpenFlatfile ⟨if mode = .trunc then [] else file, 0⟩) (t.opened mode) := by
  obtain ⟨hused, slots, hstores⟩ := h
  rw [FlatStore.opened]
  split
  · exact ⟨rfl, [], stores_nil, rfl⟩
  · exact ⟨hused, slots, hstores, rfl⟩

theorem session_simulates {P : StreamOps} (hP : P.Works) :
    Simulates (flatfileSession P) FlatStore.session SessionUsable Kept := by
  intro file t s h husable
  obtain ⟨hanswers, hused, slots, hstores, -⟩ :=
    (flatfile_simulates hP s.1).session (h.opened s.1) husable
  exact ⟨hanswers, hused, slots, hstores⟩

/-- **Sessions on one file.**  Whatever is called in them, the answers are those of the store, as
long as nothing fails. -/
theorem flatfileRight {P : StreamOps} (hP : P.Works) (sessions : List (DbaMode × List Request))
    (husable : Along (leaves FlatStore.session) SessionUsable ⟨[], none, 0⟩ sessions) :
    answers (flatfileSession P) [] sessions = answers FlatStore.session ⟨[], none, 0⟩ sessions := by
  have hempty : Kept [] ⟨[], none, 0⟩ := ⟨rfl, [], stores_nil⟩
  exact ((session_simulates hP).session hempty husable).1

/-- A walk over two entries, of which the first is deleted, and a reader. -/
theorem flatfileRight_two :
    answers (flatfileSession .plain) [] [(.creat, [.dbaInsert [97] [1], .dbaInsert [98] [2],
        .dbaInsert [97] [3], .dbaFirstkey, .dbaDelete [97], .dbaNextkey, .dbaReplace [98] [4],
        .dbaNextkey, .dbaNextkey]),
      (.reader, [.dbaFetch [98] 0, .dbaExists [97], .dbaDelete [98], .dbaFirstkey, .dbaNextkey,
        .dbaSync])] =
    [[.bool true, .bool true, .bool false, .str [97], .bool true, .str [98], .bool true, .str [98],
        .bool false],
      [.str [4], .bool false, .bool false, .str [98], .bool false, .bool true]] :=
  flatfileRight StreamOps.plain_works _ (by decide)

end PhpWasm.Dba
