import PhpWasm.Dba.CdbMake

/-!
# Looking up a constant database

`cdb_findnext` looks for the records of a key, one with each call: it goes through the slots of the
key's table, from where the key's hash starts up to a free slot, and compares the keys of the
records that have the hash.

* `cdbFindnext` is one call, with the loop in `searchSlots`.
* `Finds` says what a row of calls finds, and `dataOf` are the data of a key.
* `findRight`: on a file that was written for some records, the calls for a key find its data, one
  after another, and then nothing; none of them fails.
-/

set_option autoImplicit false

namespace PhpWasm.Dba

open Extent (At at_append)
open Probing (Chain)

/-! ## `cdb.c` -/

/-- `struct cdb`, without the stream. -/
structure Cdb where
  loop : ℕ
  khash : UInt32
  kpos : ℕ
  hpos : ℕ
  hslots : ℕ
  dpos : ℕ
  dlen : ℕ

/-- `cdb_read`: the bytes, unless the file ends before. -/
def cdbRead (file : Bytes) (len pos : ℕ) : Option Bytes :=
  let buf := (file.drop pos).take len
  if buf.length < len then none else some buf

/-- The loop of `cdb_match`; the fuel is for the bytes of the key. -/
def matchLoop (file : Bytes) : ℕ → Bytes → ℕ → Option Bool
  | 0, _, _ => some true
  | fuel + 1, key, pos =>
    if key = [] then some true
    else
      let n := min 32 key.length
      match cdbRead file n pos with
      | none => none
      | some buf =>
        if buf ≠ key.take n then some false
        else matchLoop file fuel (key.drop n) ((pos + n) % 2 ^ 32)

/-- `cdb_match`: nothing where it fails. -/
def cdbMatch (file key : Bytes) (pos : ℕ) : Option Bool := matchLoop file key.length key pos

/-- One slot further. -/
def Cdb.pass (c : Cdb) : Cdb :=
  let kpos := (c.kpos + 8) % 2 ^ 32
  { c with
    loop := c.loop + 1
    kpos := if kpos = (c.hpos + c.hslots * 8 % 2 ^ 32) % 2 ^ 32 then c.hpos else kpos }

/-- The loop of `cdb_findnext`; the fuel is `c->hslots - c->loop`. -/
def searchSlots (file key : Bytes) : ℕ → Cdb → Int × Cdb
  | 0, c => (0, c)
  | fuel + 1, c =>
    match cdbRead file 8 c.kpos with
    | none => (-1, c)
    | some slot =>
      let pos := uint32Unpack (slot.drop 4)
      if pos = 0 then (0, c)
      else
        let c := c.pass
        if uint32Unpack slot ≠ c.khash.toNat then searchSlots file key fuel c
        else
          match cdbRead file 8 pos with
          | none => (-1, c)
          | some buf =>
            if uint32Unpack buf ≠ key.length then searchSlots file key fuel c
            else
              match cdbMatch file key ((pos + 8) % 2 ^ 32) with
              | none => (-1, c)
              | some false => searchSlots file key fuel c
              | some true =>
                (1, { c with
                  dlen := uint32Unpack (buf.drop 4), dpos := (pos + 8 + key.length) % 2 ^ 32 })

/-- `cdb_findnext` -/
def cdbFindnext (file key : Bytes) (c : Cdb) : Int × Cdb :=
  if c.loop = 0 then
    let u := cdbHash key
    match cdbRead file 8 (u.toNat * 8 % 2048) with
    | none => (-1, c)
    | some buf =>
      let c := { c with hslots := uint32Unpack (buf.drop 4) }
      if c.hslots = 0 then (0, c)
      else
        let hpos := uint32Unpack buf
        searchSlots file key (c.hslots - c.loop)
          { c with
            hpos := hpos, khash := u, kpos := (hpos + u.toNat / 256 % c.hslots * 8) % 2 ^ 32 }
  else searchSlots file key (c.hslots - c.loop) c

/-- `cdb_findstart` -/
def cdbFindstart (c : Cdb) : Cdb := { c with loop := 0 }

/-- `cdb_find` -/
def cdbFind (file key : Bytes) (c : Cdb) : Int × Cdb := cdbFindnext file key (cdbFindstart c)

/-! ## What is found -/

/-- **The calls find** these data, one after another, and then nothing. -/
def Finds (file key : Bytes) (c : Cdb) : List Bytes → Prop
  | [] => (cdbFindnext file key c).1 = 0
  | data :: rest =>
    (cdbFindnext file key c).1 = 1 ∧
      cdbRead file (cdbFindnext file key c).2.dlen (cdbFindnext file key c).2.dpos = some data ∧
      Finds file key (cdbFindnext file key c).2 rest

/-- The data under a key, in the order they were added. -/
def dataOf (records : List (Bytes × Bytes)) (key : Bytes) : List Bytes :=
  (records.filter fun e => e.1 = key).map Prod.snd

/-! ### Reading -/

theorem cdbRead_at {file bytes : Bytes} {pos : ℕ} (h : At file pos bytes) :
    cdbRead file bytes.length pos = some bytes := by
  rw [cdbRead, h.take_eq, if_neg (Nat.lt_irrefl _)]

theorem matchLoop_at {file k : Bytes} {fuel pos : ℕ} {key : Bytes} (hat : At file pos k)
    (hlength : k.length = key.length) (hfuel : key.length ≤ fuel)
    (hsmall : pos + key.length < 2 ^ 32) :
    matchLoop file fuel key pos = some (decide (k = key)) := by
  induction fuel generalizing k key pos with
  | zero =>
    rw [Nat.le_zero, List.length_eq_zero_iff] at hfuel
    subst hfuel
    rw [List.length_nil, List.length_eq_zero_iff] at hlength
    rw [matchLoop, hlength]
    rfl
  | succ fuel ih =>
    rw [matchLoop]
    by_cases hkey : key = []
    · rw [if_pos hkey]
      subst hkey
      rw [List.length_nil, List.length_eq_zero_iff] at hlength
      rw [hlength]
      rfl
    rw [if_neg hkey]
    have hpos : 0 < key.length := List.length_pos_iff.2 hkey
    generalize hn : min 32 key.length = n
    have hnk : n ≤ key.length := hn ▸ Nat.min_le_right _ _
    have hn0 : 0 < n := hn ▸ Nat.lt_min.2 ⟨by decide, hpos⟩
    rw [← List.take_append_drop n k, at_append, List.length_take,
      Nat.min_eq_left (hlength ▸ hnk)] at hat
    have hread := cdbRead_at hat.1
    rw [List.length_take, Nat.min_eq_left (hlength ▸ hnk)] at hread
    dsimp only
    rw [hread]
    dsimp only
    by_cases htake : k.take n = key.take n
    · have hmod : (pos + n) % 2 ^ 32 = pos + n := Nat.mod_eq_of_lt (by omega)
      rw [if_neg (not_not.2 htake), hmod, ih hat.2 (by simp [hlength])
        (by rw [List.length_drop]; omega) (by rw [List.length_drop]; omega)]
      refine congrArg some (decide_eq_decide.2 ⟨fun hdrop => ?_, fun h => by rw [h]⟩)
      rw [← List.take_append_drop n k, htake, hdrop, List.take_append_drop]
    · rw [if_pos htake, decide_eq_false fun h => htake (by rw [h])]

/-- **Comparing the key** of a record. -/
theorem cdbMatch_at {file k key : Bytes} {pos : ℕ} (hat : At file pos k)
    (hlength : k.length = key.length) (hsmall : pos + key.length < 2 ^ 32) :
    cdbMatch file key pos = some (decide (k = key)) :=
  matchLoop_at hat hlength (Nat.le_refl _) hsmall

/-! ### Records and their entries -/

/-- The records with their entries, the first of them at `pos`. -/
def located (pos : ℕ) : List (Bytes × Bytes) → List (CdbHp × Bytes × Bytes)
  | [] => []
  | e :: records => (⟨cdbHash e.1, pos⟩, e) :: located (pos + (recordBytes e).length) records

theorem located_map_fst (pos : ℕ) (records : List (Bytes × Bytes)) :
    (located pos records).map Prod.fst = entriesAt pos records := by
  induction records generalizing pos with
  | nil => rfl
  | cons e records ih => rw [located, List.map_cons, ih, entriesAt]

theorem located_map_snd (pos : ℕ) (records : List (Bytes × Bytes)) :
    (located pos records).map Prod.snd = records := by
  induction records generalizing pos with
  | nil => rfl
  | cons e records ih => rw [located, List.map_cons, ih]

/-- A record is where its entry says. -/
structure Placed (file : Bytes) (x : CdbHp × Bytes × Bytes) : Prop where
  hash : x.1.h = cdbHash x.2.1
  record : At file x.1.p (recordBytes x.2)
  pos : 0 < x.1.p
  small : x.1.p + (recordBytes x.2).length < 2 ^ 32

theorem placed_of_mem {file : Bytes} {records : List (Bytes × Bytes)} {pos : ℕ}
    (hpos : 0 < pos) (hbody : At file pos (recordsBytes records))
    (hsmall : pos + (recordsBytes records).length < 2 ^ 32) :
    ∀ x ∈ located pos records, Placed file x := by
  induction records generalizing pos with
  | nil => exact nofun
  | cons e records ih =>
    rw [recordsBytes_cons, at_append] at hbody
    rw [recordsBytes_cons, List.length_append] at hsmall
    rw [located, List.forall_mem_cons]
    exact ⟨⟨rfl, hbody.1, hpos, by dsimp only; omega⟩, ih (by omega) hbody.2 (by omega)⟩

/-! ### The slots of a key -/

section Search

variable {file : Bytes} {records : List (Bytes × Bytes)} {key : Bytes}
  {met : List (CdbHp × Bytes × Bytes)} {c : Cdb} {k : ℕ}

/-- The bucket of a key. -/
def keyBucket (key : Bytes) : ℕ := (cdbHash key).toNat % 256

/-- The number of slots of the key's table. -/
def keySlots (records : List (Bytes × Bytes)) (key : Bytes) : ℕ := tableLen records (keyBucket key)

/-- The slot where the search for the key starts. -/
def keyStart (records : List (Bytes × Bytes)) (key : Bytes) : ℕ :=
  (cdbHash key).toNat / 256 % keySlots records key

/-- The slot `d` slots further on. -/
def keySlot (records : List (Bytes × Bytes)) (key : Bytes) (d : ℕ) : ℕ :=
  (keyStart records key + d) % keySlots records key

/-- **What a search for the key meets**, up to the first free slot. -/
structure Met (file : Bytes) (records : List (Bytes × Bytes)) (key : Bytes)
    (met : List (CdbHp × Bytes × Bytes)) : Prop where
  lt : met.length < keySlots records key
  slot : ∀ d (hd : d < met.length),
    table records (keyBucket key) (keySlot records key d) = some (met[d]).1
  free : table records (keyBucket key) (keySlot records key met.length) = none
  placed : ∀ x ∈ met, Placed file x
  /-- Those of them that have the key, have its data. -/
  data : (met.filter fun x => x.2.1 = key).map (fun x => x.2.2) = dataOf records key

/-- The records of the key's bucket. -/
def bucketRecords (records : List (Bytes × Bytes)) (key : Bytes) :
    List (CdbHp × Bytes × Bytes) :=
  (located 2048 records).filter fun x => x.1.bucket = keyBucket key

theorem bucketRecords_map_fst (records : List (Bytes × Bytes)) (key : Bytes) :
    (bucketRecords records key).map Prod.fst = bucketEntries records (keyBucket key) := by
  rw [bucketEntries, ← located_map_fst, List.filter_map]
  rfl

/-- The data of the key are in its bucket. -/
theorem filter_bucketRecords (key : Bytes) (hplaced : ∀ x ∈ located 2048 records, Placed file x) :
    ((bucketRecords records key).filter fun x => x.2.1 = key).map (fun x => x.2.2) =
      dataOf records key := by
  have hbucket : (bucketRecords records key).filter (fun x => x.2.1 = key) =
      (located 2048 records).filter fun x => x.2.1 = key := by
    rw [bucketRecords, List.filter_filter]
    refine List.filter_congr fun x hx => ?_
    by_cases hkey : x.2.1 = key
    · have hx : x.1.bucket = keyBucket key := by
        rw [CdbHp.bucket, (hplaced x hx).hash, hkey, keyBucket]
      simp [hkey, hx]
    · simp [hkey]
  have hrecords := located_map_snd 2048 records
  rw [hbucket, dataOf]
  conv_rhs => rw [← hrecords]
  rw [List.filter_map, List.map_map]
  rfl

theorem exists_met (hplaced : ∀ x ∈ located 2048 records, Placed file x)
    (hslots : 0 < keySlots records key) : ∃ met, Met file records key met := by
  have hlength : keySlots records key =
      (bucketRecords records key).length + (bucketRecords records key).length := by
    rw [keySlots, tableLen, ← bucketRecords_map_fst, List.length_map]
  -- The table of entries is a table of records, seen from its entries.
  have htable : ∀ j, table records (keyBucket key) j =
      (Probing.fill (keySlots records key) (CdbHp.where (keySlots records key) ∘ Prod.fst)
        (fun _ => none) (bucketRecords records key) j).map Prod.fst := fun j => by
    rw [Probing.fill_map, bucketRecords_map_fst]
    rfl
  have hchained : Probing.Chained (keySlots records key)
      (CdbHp.where (keySlots records key) ∘ Prod.fst)
      (Probing.fill (keySlots records key) (CdbHp.where (keySlots records key) ∘ Prod.fst)
        (fun _ => none) (bucketRecords records key)) (bucketRecords records key) :=
    Probing.chained_fill _ (Probing.chained_empty hslots)
      (by rw [List.length_nil, hlength]; omega) fun x _ => Nat.mod_lt _ hslots
  obtain ⟨met, rest, hchain⟩ := hchained (keyStart records key) (Nat.mod_lt _ hslots)
  have hmem : ∀ x ∈ met, x ∈ bucketRecords records key := fun x hx => by
    obtain ⟨d, hd, rfl⟩ := List.getElem_of_mem hx
    rcases Probing.mem_fill (hchain.met_eq hd) with hnone | hmem
    · cases hnone
    · exact hmem
  refine ⟨met, hchain.lt, fun d hd => ?_, ?_, fun x hx => ?_, ?_⟩
  · rw [htable, keySlot, hchain.met_eq hd]
    rfl
  · rw [htable, keySlot, hchain.free]
    rfl
  · exact hplaced x (List.mem_of_mem_filter (hmem x hx))
  · -- What has the key, starts where the search does.
    have hkeyed : ∀ l : List (CdbHp × Bytes × Bytes), (∀ x ∈ l, x ∈ bucketRecords records key) →
        l.filter (fun x => x.2.1 = key) = (l.filter fun x =>
          (CdbHp.where (keySlots records key) ∘ Prod.fst) x = keyStart records key).filter
            fun x => x.2.1 = key := fun l hl => by
      rw [List.filter_filter]
      refine List.filter_congr fun x hx => ?_
      by_cases hkey : x.2.1 = key
      · have hhash := (hplaced x (List.mem_of_mem_filter (hl x hx))).hash
        rw [hkey] at hhash
        simp [hkey, CdbHp.where, keyStart, hhash]
      · simp [hkey]
    rw [hkeyed met hmem, hchain.filter, ← hkeyed _ fun _ hx => hx, filter_bucketRecords key hplaced]

/-! ### The search -/

/-- The search has looked at `k` slots. -/
structure Among (records : List (Bytes × Bytes)) (key : Bytes) (c : Cdb) (k : ℕ) : Prop where
  loop : c.loop = k
  khash : c.khash = cdbHash key
  hpos : c.hpos = tablePos records (keyBucket key)
  hslots : c.hslots = keySlots records key
  kpos : c.kpos = tablePos records (keyBucket key) + 8 * keySlot records key k

/-- The tables are inside the file. -/
theorem tablePos_add_le (h : Layout file records) {i : ℕ} (hi : i < 256) :
    tablePos records i + 8 * tableLen records i ≤ file.length := by
  have hle := sum_range_le (fun j => 8 * tableLen records j) (Nat.succ_le_of_lt hi)
  rw [sum_range_succ, sum_tableLen] at hle
  rw [h.length, tablePos]
  omega

theorem keySlot_lt (key : Bytes) (hslots : 0 < keySlots records key) (d : ℕ) :
    keySlot records key d < keySlots records key := Nat.mod_lt _ hslots

/-- One slot further. -/
theorem Among.next (h : Layout file records) (hamong : Among records key c k)
    (hslots : 0 < keySlots records key) :
    Among records key c.pass (k + 1) where
  loop := congrArg (· + 1) hamong.loop
  khash := hamong.khash
  hpos := hamong.hpos
  hslots := hamong.hslots
  kpos := by
    have hinside := tablePos_add_le h (i := keyBucket key) (Nat.mod_lt _ (by decide))
    rw [← keySlots] at hinside
    have hsmall := h.small
    have hlt := keySlot_lt key hslots k
    have hnext := Probing.next_mod hslots (keyStart records key + k)
    rw [← keySlot, Nat.add_assoc, ← keySlot] at hnext
    have hkpos : (c.kpos + 8) % 2 ^ 32 =
        tablePos records (keyBucket key) + 8 * (keySlot records key k + 1) := by
      rw [Nat.mod_eq_of_lt (by rw [hamong.kpos]; omega), hamong.kpos]
      omega
    have hend : (c.hpos + c.hslots * 8 % 2 ^ 32) % 2 ^ 32 =
        tablePos records (keyBucket key) + 8 * keySlots records key := by
      rw [hamong.hpos, hamong.hslots, Nat.mod_eq_of_lt (by omega), Nat.mod_eq_of_lt (by omega)]
      omega
    rw [Cdb.pass]
    dsimp only
    rw [hkpos, hend, hamong.hpos, ← hnext, Probing.next]
    split_ifs <;> omega

/-- What the loop reads of a slot. -/
theorem slot_read (h : Layout file records) (hamong : Among records key c k)
    (hslots : 0 < keySlots records key) :
    cdbRead file 8 c.kpos =
      some (slotBytes (table records (keyBucket key) (keySlot records key k))) := by
  have hat := h.slots (keyBucket key) (Nat.mod_lt _ (by decide)) _ (keySlot_lt key hslots k)
  rw [← hamong.kpos] at hat
  have hread := cdbRead_at hat
  rwa [length_slotBytes] at hread

theorem uint32Unpack_slot (hp : CdbHp) (hp32 : hp.p < 2 ^ 32) :
    uint32Unpack (slotBytes (some hp)) = hp.h.toNat ∧
      uint32Unpack ((slotBytes (some hp)).drop 4) = hp.p := by
  refine ⟨uint32Unpack_pack hp.h.toNat_lt _, ?_⟩
  have hdrop : (slotBytes (some hp)).drop 4 = uint32Pack hp.p ++ [] := rfl
  rw [hdrop, uint32Unpack_pack hp32]

/-- What the loop reads of a record. -/
theorem Placed.read {x : CdbHp × Bytes × Bytes} (h : Placed file x) :
    ∃ buf, cdbRead file 8 x.1.p = some buf ∧ uint32Unpack buf = x.2.1.length ∧
      uint32Unpack (buf.drop 4) = x.2.2.length ∧ At file (x.1.p + 8) x.2.1 ∧
        At file (x.1.p + 8 + x.2.1.length) x.2.2 := by
  have hsmall := h.small
  have hlength := length_recordBytes x.2
  have hrecord := h.record
  rw [recordBytes, List.append_assoc] at hrecord
  obtain ⟨hsizes, hbody⟩ := at_append.1 hrecord
  obtain ⟨hkey, hdata⟩ := at_append.1 hbody
  have hread := cdbRead_at hsizes
  have hdrop : (uint32Pack x.2.1.length ++ uint32Pack x.2.2.length).drop 4 =
      uint32Pack x.2.2.length ++ [] := rfl
  refine ⟨_, hread, uint32Unpack_pack (by omega) _, ?_, hkey, hdata⟩
  rw [hdrop, uint32Unpack_pack (by omega)]

/-- The search ends at a free slot. -/
theorem searchSlots_free (h : Layout file records) (hamong : Among records key c k)
    (hslots : 0 < keySlots records key)
    (hfree : table records (keyBucket key) (keySlot records key k) = none) (fuel : ℕ) :
    searchSlots file key (fuel + 1) c = (0, c) := by
  have hread := slot_read h hamong hslots
  have hpos : uint32Unpack ((slotBytes none).drop 4) = 0 := rfl
  rw [hfree] at hread
  rw [searchSlots, hread]
  dsimp only
  rw [hpos, if_pos rfl]

/-- **A slot that is taken**: the search ends if the record has the key, and goes on else. -/
theorem searchSlots_taken (h : Layout file records) (hamong : Among records key c k)
    (hslots : 0 < keySlots records key) {x : CdbHp × Bytes × Bytes}
    (htaken : table records (keyBucket key) (keySlot records key k) = some x.1)
    (hx : Placed file x) (fuel : ℕ) :
    searchSlots file key (fuel + 1) c =
      if x.2.1 = key then
        (1, { c.pass with dlen := x.2.2.length, dpos := x.1.p + 8 + x.2.1.length })
      else searchSlots file key fuel c.pass := by
  have hread := slot_read h hamong hslots
  have hsmall := hx.small
  have hsize := length_recordBytes x.2
  obtain ⟨hhash, hpos⟩ := uint32Unpack_slot x.1 (by omega)
  obtain ⟨buf, hbuf, hklen, hdlen, hkey, -⟩ := hx.read
  rw [htaken] at hread
  rw [searchSlots, hread]
  dsimp only
  rw [hhash, hpos, if_neg (Nat.ne_of_gt hx.pos), (hamong.next h hslots).khash, hx.hash, hbuf]
  dsimp only
  rw [hklen, hdlen]
  by_cases hlen : x.2.1.length = key.length
  · have hkpos : (x.1.p + 8) % 2 ^ 32 = x.1.p + 8 := Nat.mod_eq_of_lt (by omega)
    have hdpos : (x.1.p + 8 + key.length) % 2 ^ 32 = x.1.p + 8 + key.length :=
      Nat.mod_eq_of_lt (by omega)
    rw [if_neg (not_not.2 hlen), hkpos, cdbMatch_at hkey hlen (by omega), hdpos, ← hlen]
    by_cases heq : x.2.1 = key
    · rw [decide_eq_true heq, if_pos heq, heq, if_neg (not_not.2 rfl)]
    · rw [decide_eq_false heq, if_neg heq, ite_self]
  · have hne : x.2.1 ≠ key := fun heq => hlen (congrArg _ heq)
    rw [if_pos hlen, if_neg hne, ite_self]

/-- **The answer of a search** when these are the records of the key that it has before it. -/
structure Found (file : Bytes) (records : List (Bytes × Bytes)) (key : Bytes)
    (met : List (CdbHp × Bytes × Bytes)) (r : Int × Cdb) (todo : List (CdbHp × Bytes × Bytes)) :
    Prop where
  none : todo = [] → r.1 = 0
  some : ∀ x rest, todo = x :: rest → r.1 = 1 ∧ cdbRead file r.2.dlen r.2.dpos = some x.2.2 ∧
    ∃ k, 0 < k ∧ k ≤ met.length ∧ Among records key r.2 k ∧
      (met.drop k).filter (fun x => x.2.1 = key) = rest

/-- **The loop**, by induction on what is still to be met. -/
theorem search (h : Layout file records) (hmet : Met file records key met) {n : ℕ}
    (hn : k + n = met.length) (hamong : Among records key c k) :
    Found file records key met (searchSlots file key (keySlots records key - k) c)
      ((met.drop k).filter fun x => x.2.1 = key) := by
  have hlt := hmet.lt
  have hslots : 0 < keySlots records key := Nat.zero_lt_of_lt hlt
  have hfuel : keySlots records key - k = (keySlots records key - (k + 1)) + 1 := by omega
  rw [hfuel]
  induction n generalizing k c with
  | zero =>
    obtain rfl : k = met.length := hn
    rw [searchSlots_free h hamong hslots hmet.free, List.drop_length]
    exact ⟨fun _ => rfl, nofun⟩
  | succ n ih =>
    have hk : k < met.length := by omega
    have hplaced := hmet.placed _ (List.getElem_mem hk)
    have hnext := hamong.next h hslots
    rw [searchSlots_taken h hamong hslots (hmet.slot k hk) hplaced, List.drop_eq_getElem_cons hk]
    by_cases heq : (met[k]).2.1 = key
    · obtain ⟨-, -, -, -, -, hdata⟩ := hplaced.read
      rw [if_pos heq, List.filter_cons_of_pos (by simpa using heq)]
      refine ⟨nofun, fun x rest hcons => ?_⟩
      obtain ⟨rfl, rfl⟩ := List.cons.inj hcons
      exact ⟨rfl, cdbRead_at hdata, k + 1, Nat.succ_pos k, hk,
        ⟨hnext.loop, hnext.khash, hnext.hpos, hnext.hslots, hnext.kpos⟩, rfl⟩
    · rw [if_neg heq, List.filter_cons_of_neg (by simpa using heq)]
      have hfuel : keySlots records key - (k + 1) =
          (keySlots records key - (k + 1 + 1)) + 1 := by omega
      rw [hfuel]
      exact ih (by omega) hnext hfuel

/-- The calls after a search find what it has before it. -/
theorem Found.finds (h : Layout file records) (hmet : Met file records key met)
    {todo : List (CdbHp × Bytes × Bytes)}
    (hfound : Found file records key met (cdbFindnext file key c) todo) :
    Finds file key c (todo.map fun x => x.2.2) := by
  induction todo generalizing c with
  | nil => exact hfound.none rfl
  | cons x rest ih =>
    obtain ⟨hone, hread, k, hpos, hk, hamong, hrest⟩ := hfound.some x rest rfl
    refine ⟨hone, hread, ih ?_⟩
    have hloop : (cdbFindnext file key c).2.loop ≠ 0 := by
      rw [hamong.loop]
      exact Nat.ne_of_gt hpos
    rw [cdbFindnext, if_neg hloop, hamong.hslots, hamong.loop, ← hrest]
    exact search h hmet (Nat.add_sub_cancel' hk) hamong

/-- What the first call reads of the header. -/
theorem header_read (h : Layout file records) (key : Bytes) :
    ∃ buf, cdbRead file 8 ((cdbHash key).toNat * 8 % 2048) = some buf ∧
      uint32Unpack buf = tablePos records (keyBucket key) ∧
        uint32Unpack (buf.drop 4) = keySlots records key := by
  have hbucket : keyBucket key < 256 := Nat.mod_lt _ (by decide)
  have hinside := tablePos_add_le h hbucket
  have hsmall := h.small
  rw [← keySlots] at hinside
  have hpos : (cdbHash key).toNat * 8 % 2048 = 8 * keyBucket key := by
    rw [keyBucket]
    omega
  have hread := cdbRead_at (h.header (keyBucket key) hbucket)
  have hdrop : (uint32Pack (tablePos records (keyBucket key)) ++
      uint32Pack (tableLen records (keyBucket key))).drop 4 =
        uint32Pack (tableLen records (keyBucket key)) ++ [] := rfl
  refine ⟨_, hpos ▸ hread, uint32Unpack_pack (by omega) _, ?_⟩
  rw [hdrop, ← keySlots, uint32Unpack_pack (by omega)]

/-- The first call, where the key's table has no slots. -/
theorem cdbFindnext_empty (h : Layout file records) (c : Cdb) (hempty : keySlots records key = 0) :
    (cdbFindnext file key (cdbFindstart c)).1 = 0 := by
  obtain ⟨buf, hbuf, -, hlen⟩ := header_read h key
  have hloop : (cdbFindstart c).loop = 0 := rfl
  rw [cdbFindnext, if_pos hloop]
  dsimp only
  rw [hbuf]
  dsimp only
  rw [hlen, if_pos hempty]

/-- **The first call** starts the search. -/
theorem cdbFindnext_start (h : Layout file records) (c : Cdb)
    (hslots : 0 < keySlots records key) :
    ∃ c', Among records key c' 0 ∧
      cdbFindnext file key (cdbFindstart c) =
        searchSlots file key (keySlots records key - 0) c' := by
  obtain ⟨buf, hbuf, hpos, hlen⟩ := header_read h key
  have hloop : (cdbFindstart c).loop = 0 := rfl
  have hinside := tablePos_add_le h (i := keyBucket key) (Nat.mod_lt _ (by decide))
  have hsmall := h.small
  have hlt := keySlot_lt key hslots 0
  have hstart : keySlot records key 0 = (cdbHash key).toNat / 256 % keySlots records key := by
    rw [keySlot, keyStart, Nat.add_zero, Nat.mod_mod]
  have hkpos : (tablePos records (keyBucket key) + keySlot records key 0 * 8) % 2 ^ 32 =
      tablePos records (keyBucket key) + 8 * keySlot records key 0 := by
    rw [← keySlots] at hinside
    rw [Nat.mod_eq_of_lt (by omega), Nat.mul_comm]
  rw [cdbFindnext, if_pos hloop]
  dsimp only
  rw [hbuf]
  dsimp only
  rw [hlen, if_neg (Nat.ne_of_gt hslots), hpos, ← hstart, hkpos, hloop]
  exact ⟨_, ⟨rfl, rfl, rfl, rfl, rfl⟩, rfl⟩

end Search

/-- **Every record of a key is found**, in the order they were added, and nothing else is. -/
theorem finds_of_layout {file : Bytes} {records : List (Bytes × Bytes)} (h : Layout file records)
    (key : Bytes) (c : Cdb) : Finds file key (cdbFindstart c) (dataOf records key) := by
  have hlength := h.length
  have hsmall := h.small
  have hplaced := placed_of_mem (by decide) h.body (by omega)
  rcases Nat.eq_zero_or_pos (keySlots records key) with hempty | hslots
  · have hbucket : bucketRecords records key = [] := by
      rw [← List.length_eq_zero_iff, ← List.length_map Prod.fst, bucketRecords_map_fst]
      rw [keySlots, tableLen] at hempty
      omega
    have hdata := filter_bucketRecords key hplaced
    rw [hbucket] at hdata
    rw [← hdata]
    exact cdbFindnext_empty h c hempty
  · obtain ⟨met, hmet⟩ := exists_met hplaced hslots
    obtain ⟨c', hamong, hfirst⟩ := cdbFindnext_start h c hslots
    have hsearch := search h hmet (Nat.zero_add _) hamong
    rw [← hfirst, List.drop_zero] at hsearch
    have hfinds := hsearch.finds h hmet
    rwa [hmet.data] at hfinds

/-- **Looking up what was written**: the calls for a key find its data, in the order they were
added, and then nothing. -/
theorem findRight (records : List (Bytes × Bytes)) (key : Bytes) (c : Cdb) :
    ∀ file ∈ cdbMake records, Finds file key (cdbFindstart c) (dataOf records key) :=
  fun _ hfile => finds_of_layout (layout_of_mem hfile) key c

/-- A key that was added twice. -/
theorem findRight_twice : ∃ file, cdbMake [([97], [1]), ([98], [2]), ([97], [3])] = some file ∧
    Finds file [97] (cdbFindstart ⟨0, 0, 0, 0, 0, 0, 0⟩) [[1], [3]] := by
  have hfits : Fits [([97], [1]), ([98], [2]), ([97], [3])] := by decide
  obtain ⟨file, hfile⟩ :=
    Option.isSome_iff_exists.1 (isSome_createDatabase StreamOps.plain_works hfits)
  exact ⟨file, hfile, findRight _ [97] _ file hfile⟩

end PhpWasm.Dba
