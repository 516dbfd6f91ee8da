import PhpWasm.Dba.CdbFind

/-!
# The handler for constant databases

A constant database is written once, by inserting records, and read afterwards.

* `dbaOpenCdb`, `cdbHandler` and `dbaCloseCdb` are the handler.
* `Shelf` is what a reader has: records in a row, of which a key may have several.
* `databaseRight`: on a stream that works, whatever calls are made while the database is written, it
  takes the records that are inserted; and whatever calls are made on the file that is left, it
  answers what the shelf with these records answers.
-/

set_option autoImplicit false

namespace PhpWasm.Dba

open Extent (at_append)
open Machine (Along Simulates answers leaves run)

/-! ## `dba_cdb.c` -/

/-- `dba_cdb` -/
structure DbaCdb where
  c : Cdb
  m : CdbMake
  file : Bytes
  make : Bool
  eod : ℕ
  pos : ℕ

section

variable (P : StreamOps)

/-- `DBA_OPEN_FUNC(cdb)`; the file is empty where it is opened for writing.  What `cdb_make_start`
returns is not looked at. -/
def dbaOpenCdb (mode : DbaMode) (file : Bytes) : Except String DbaCdb :=
  let c : Cdb := ⟨0, 0, 0, 0, 0, 0, 0⟩
  match mode with
  | .reader => .ok ⟨cdbFindstart c, ⟨[], 0, 0, ⟨[], 0⟩⟩, file, false, 0, 0⟩
  | .trunc => .ok ⟨c, (cdbMakeStart P ⟨[], 0⟩).2, [], true, 0, 0⟩
  | .creat | .writer => .error "Update operations are not supported"

/-- `DBA_CLOSE_FUNC(cdb)`: the file that is left, whatever `cdb_make_finish` returns. -/
def dbaCloseCdb (cdb : DbaCdb) : Bytes :=
  if cdb.make then (cdbMakeFinish P cdb.m).2.fp.bytes else cdb.file

/-- `DBA_UPDATE_FUNC(cdb)` -/
def dbaUpdateCdb (cdb : DbaCdb) (key val : Bytes) (mode : ℕ) : Bool × DbaCdb :=
  if ¬ cdb.make then (false, cdb)
  else if mode = 0 then (false, cdb)
  else
    let r := cdbMakeAdd P cdb.m key val
    (r.1, { cdb with m := r.2 })

end

/-- `while(skip--)`: whether there are as many records. -/
def skipRecords (file key : Bytes) : ℕ → Cdb → Bool × Cdb
  | 0, c => (true, c)
  | skip + 1, c =>
    let r := cdbFindnext file key c
    if r.1 ≠ 1 then (false, r.2) else skipRecords file key skip r.2

/-- `DBA_FETCH_FUNC(cdb)` -/
def dbaFetchCdb (cdb : DbaCdb) (key : Bytes) (skip : ℕ) : Option Bytes × DbaCdb :=
  if cdb.make then (none, cdb)
  else
    let r := cdbFind cdb.file key cdb.c
    if r.1 = 1 then
      let s := skipRecords cdb.file key skip r.2
      (if s.1 then cdbRead cdb.file s.2.dlen s.2.dpos else none, { cdb with c := s.2 })
    else (none, { cdb with c := r.2 })

/-- `DBA_EXISTS_FUNC(cdb)` -/
def dbaExistsCdb (cdb : DbaCdb) (key : Bytes) : Bool × DbaCdb :=
  if cdb.make then (false, cdb)
  else
    let r := cdbFind cdb.file key cdb.c
    (r.1 = 1, { cdb with c := r.2 })

/-- `DBA_DELETE_FUNC(cdb)` -/
def dbaDeleteCdb (cdb : DbaCdb) (_key : Bytes) : Bool × DbaCdb := (false, cdb)

/-- `CSEEK(pos)` and `CREAD(n)` -/
def DbaCdb.cread (cdb : DbaCdb) (pos n : ℕ) : Option Bytes :=
  if cdb.eod ≤ pos then none else cdbRead cdb.file n pos

/-- The key whose sizes were read from `pos`, and what is left when `cdb->pos` is behind its
record. -/
def DbaCdb.readKey (cdb : DbaCdb) (pos : ℕ) (buf : Bytes) : Option Bytes × DbaCdb :=
  let klen := uint32Unpack buf
  let dlen := uint32Unpack (buf.drop 4)
  (cdbRead cdb.file klen (pos + 8), { cdb with pos := (pos + 8 + klen + dlen) % 2 ^ 32 })

/-- `DBA_FIRSTKEY_FUNC(cdb)` -/
def dbaFirstkeyCdb (cdb : DbaCdb) : Option Bytes × DbaCdb :=
  if cdb.make then (none, cdb)
  else
    let cdb := { cdb with eod := 2 ^ 32 - 1 }
    match cdb.cread 0 4 with
    | none => (none, cdb)
    | some buf =>
      let cdb := { cdb with eod := uint32Unpack buf }
      match cdb.cread 2048 8 with
      | none => (none, cdb)
      | some buf => cdb.readKey 2048 buf

/-- `DBA_NEXTKEY_FUNC(cdb)` -/
def dbaNextkeyCdb (cdb : DbaCdb) : Option Bytes × DbaCdb :=
  if cdb.make then (none, cdb)
  else
    match cdb.cread cdb.pos 8 with
    | none => (none, cdb)
    | some buf => cdb.readKey cdb.pos buf

/-- `DBA_OPTIMIZE_FUNC(cdb)` -/
def dbaOptimizeCdb (cdb : DbaCdb) : Bool × DbaCdb := (true, cdb)

/-- `DBA_SYNC_FUNC(cdb)` -/
def dbaSyncCdb (cdb : DbaCdb) : Bool × DbaCdb := (true, cdb)

/-- `DBA_HND(cdb, ..)` -/
def cdbHandler (P : StreamOps) : DbaHandler DbaCdb where
  name := "cdb"
  fetch := dbaFetchCdb
  update := dbaUpdateCdb P
  existsKey := dbaExistsCdb
  delete := dbaDeleteCdb
  firstkey := dbaFirstkeyCdb
  nextkey := dbaNextkeyCdb
  optimize := dbaOptimizeCdb
  sync := dbaSyncCdb

/-! ## What it is for -/

/-- Records in a row, and how many keys were given since the walk over them began. -/
structure Shelf where
  records : List (Bytes × Bytes)
  walk : Option ℕ

/-- The key of a record. -/
def Shelf.key? (s : Shelf) (i : ℕ) : Option Bytes := s.records[i]?.map Prod.fst

/-- What the shelf answers. -/
def Shelf.handle (s : Shelf) : Request → Answer × Shelf
  | .dbaFetch key skip =>
    if skip < -2 ^ 31 ∨ 2 ^ 31 ≤ skip then
      (.valueError "must be between -2147483648 and 2147483647", s)
    else (.ofOption (dataOf s.records key)[skip.toNat]?, s)
  | .dbaExists key => (.bool (key ∈ s.records.map Prod.fst), s)
  | .dbaFirstkey => (.ofOption (s.key? 0), { s with walk := some 1 })
  | .dbaNextkey =>
    match s.walk with
    | none => (.bool false, s)
    | some i => (.ofOption (s.key? i), { s with walk := some (i + 1) })
  | .dbaInsert _ _ | .dbaReplace _ _ | .dbaDelete _ | .dbaOptimize => (.bool false, s)
  | .dbaSync => (.bool true, s)

/-- What a database that is being written answers: it takes what is inserted. -/
def takeRecord (records : List (Bytes × Bytes)) : Request → Answer × List (Bytes × Bytes)
  | .dbaInsert key value => (.bool true, records ++ [(key, value)])
  | .dbaFetch _ skip =>
    if skip < -2 ^ 31 ∨ 2 ^ 31 ≤ skip then
      (.valueError "must be between -2147483648 and 2147483647", records)
    else (.bool false, records)
  | .dbaExists _ | .dbaFirstkey | .dbaNextkey | .dbaReplace _ _ | .dbaDelete _ =>
    (.bool false, records)
  | .dbaOptimize | .dbaSync => (.bool true, records)

/-- The records that are inserted. -/
def inserted : List Request → List (Bytes × Bytes)
  | [] => []
  | .dbaInsert key value :: requests => (key, value) :: inserted requests
  | _ :: requests => inserted requests

/-- A session: the answers to the calls, and the file that is left. -/
def session (P : StreamOps) (mode : DbaMode) (file : Bytes) (requests : List Request) :
    Except String (List Answer × Bytes) := do
  let cdb ← dbaOpenCdb P mode file
  let handle := dbaHandle (cdbHandler P) mode
  return (answers handle cdb requests, dbaCloseCdb P (run (leaves handle) cdb requests))

/-! ### Looking up -/

section Lookup

variable {file key data : Bytes} {found : List Bytes} {c : Cdb} {cdb : DbaCdb}

/-- Going on from one record of a key to another. -/
theorem skipRecords_finds (hread : cdbRead file c.dlen c.dpos = some data)
    (hfinds : Finds file key c found) (skip : ℕ) :
    (if (skipRecords file key skip c).1 then
      cdbRead file (skipRecords file key skip c).2.dlen (skipRecords file key skip c).2.dpos
    else none) = (data :: found)[skip]? := by
  induction skip generalizing c data found with
  | zero => exact hread
  | succ skip ih =>
    rw [skipRecords, List.getElem?_cons_succ]
    rcases found with _ | ⟨next, found⟩
    · have hzero : (cdbFindnext file key c).1 = 0 := hfinds
      have hne : (cdbFindnext file key c).1 ≠ 1 := by
        rw [hzero]
        decide
      rw [if_pos hne]
      rfl
    · obtain ⟨hone, hnext, hrest⟩ := hfinds
      rw [if_neg (not_not.2 hone)]
      exact ih hnext hrest

/-- **Fetching** one of the records of a key. -/
theorem dbaFetchCdb_eq (hmake : cdb.make = false)
    (hfinds : Finds cdb.file key (cdbFindstart cdb.c) found) (skip : ℕ) :
    (dbaFetchCdb cdb key skip).1 = found[skip]? ∧
      ∃ c, (dbaFetchCdb cdb key skip).2 = { cdb with c := c } := by
  have hnot : ¬ cdb.make = true := by simp [hmake]
  rw [dbaFetchCdb, if_neg hnot, cdbFind]
  dsimp only
  rcases found with _ | ⟨data, found⟩
  · have hzero : (cdbFindnext cdb.file key (cdbFindstart cdb.c)).1 = 0 := hfinds
    have hne : ¬ (cdbFindnext cdb.file key (cdbFindstart cdb.c)).1 = 1 := by
      rw [hzero]
      decide
    rw [if_neg hne]
    exact ⟨rfl, _, rfl⟩
  · obtain ⟨hone, hread, hrest⟩ := hfinds
    rw [if_pos hone]
    exact ⟨skipRecords_finds hread hrest skip, _, rfl⟩

/-- Whether there is a record of a key. -/
theorem dbaExistsCdb_eq (hmake : cdb.make = false)
    (hfinds : Finds cdb.file key (cdbFindstart cdb.c) found) :
    (dbaExistsCdb cdb key).1 = decide (found ≠ []) ∧
      ∃ c, (dbaExistsCdb cdb key).2 = { cdb with c := c } := by
  have hnot : ¬ cdb.make = true := by simp [hmake]
  rw [dbaExistsCdb, if_neg hnot, cdbFind]
  refine ⟨decide_eq_decide.2 ?_, _, rfl⟩
  rcases found with _ | ⟨data, found⟩
  · have hzero : (cdbFindnext cdb.file key (cdbFindstart cdb.c)).1 = 0 := hfinds
    rw [hzero]
    exact iff_of_false (by decide) fun h => h rfl
  · exact iff_of_true hfinds.1 (List.cons_ne_nil _ _)

end Lookup

theorem dataOf_ne_nil {records : List (Bytes × Bytes)} {key : Bytes} :
    dataOf records key ≠ [] ↔ key ∈ records.map Prod.fst := by
  rw [dataOf, ne_eq, List.map_eq_nil_iff, List.filter_eq_nil_iff]
  simp

/-! ### Walking over the records -/

section Walk

variable {file : Bytes} {records : List (Bytes × Bytes)} {cdb : DbaCdb} {i : ℕ}

/-- Where the record behind the first `i` ones is. -/
def recordPos (records : List (Bytes × Bytes)) (i : ℕ) : ℕ :=
  2048 + (recordsBytes (records.take i)).length

/-- The end of the records. -/
def recordsEnd (records : List (Bytes × Bytes)) : ℕ := 2048 + (recordsBytes records).length

theorem recordPos_succ (hi : i < records.length) :
    recordPos records (i + 1) = recordPos records i + (recordBytes records[i]).length := by
  rw [recordPos, recordPos, List.take_succ_eq_append_getElem hi, recordsBytes_concat,
    List.length_append, Nat.add_assoc]

theorem recordPos_of_le (hi : records.length ≤ i) : recordPos records i = recordsEnd records := by
  rw [recordPos, List.take_of_length_le hi, recordsEnd]

theorem recordPos_lt (hi : i < records.length) : recordPos records i < recordsEnd records := by
  have hsplit := List.take_append_drop i records
  have hdrop := List.drop_eq_getElem_cons hi
  have hlength := length_recordBytes records[i]
  rw [recordPos, recordsEnd]
  conv_rhs => rw [← hsplit, recordsBytes_append, hdrop, recordsBytes_cons, List.length_append,
    List.length_append]
  omega

/-- A record is where the walk comes to it. -/
theorem placed_record (h : Layout file records) (hi : i < records.length) :
    Placed file (⟨cdbHash records[i].1, recordPos records i⟩, records[i]) := by
  have hbody := h.body
  have hend := h.length
  have hsmall := h.small
  have hsplit := List.take_append_drop i records
  have hnext := recordPos_succ hi
  have hle : recordPos records (i + 1) ≤ recordsEnd records := by
    rcases Nat.lt_or_ge (i + 1) records.length with hlt | hge
    · exact Nat.le_of_lt (recordPos_lt hlt)
    · exact Nat.le_of_eq (recordPos_of_le hge)
  rw [← hsplit, recordsBytes_append, at_append, ← recordPos, List.drop_eq_getElem_cons hi,
    recordsBytes_cons, at_append] at hbody
  refine ⟨rfl, hbody.2.1, ?_, ?_⟩
  · dsimp only
    rw [recordPos]
    omega
  · dsimp only
    rw [recordsEnd] at hle
    omega

/-- **The key of a record** is read, and the walk comes to the next one. -/
theorem cread_record (cdb : DbaCdb) (h : Layout file records) (hfile : cdb.file = file)
    (heod : cdb.eod = recordsEnd records) (hi : i < records.length) :
    ∃ buf, cdb.cread (recordPos records i) 8 = some buf ∧
      cdb.readKey (recordPos records i) buf =
        (some records[i].1, { cdb with pos := recordPos records (i + 1) }) := by
  have hplaced := placed_record h hi
  have hsmall := hplaced.small
  have hnot : ¬ cdb.eod ≤ recordPos records i := by
    rw [heod]
    exact Nat.not_le.2 (recordPos_lt hi)
  obtain ⟨buf, hbuf, hklen, hdlen, hkey, -⟩ := hplaced.read
  have hnext : recordPos records (i + 1) =
      recordPos records i + 8 + records[i].1.length + records[i].2.length := by
    rw [recordPos_succ hi, length_recordBytes]
    omega
  have hmod : (recordPos records i + 8 + records[i].1.length + records[i].2.length) % 2 ^ 32 =
      recordPos records (i + 1) := by
    rw [hnext, Nat.mod_eq_of_lt]
    rw [length_recordBytes] at hsmall
    dsimp only at hsmall
    omega
  refine ⟨buf, ?_, ?_⟩
  · rw [DbaCdb.cread, if_neg hnot, hfile]
    exact hbuf
  · rw [DbaCdb.readKey, hklen, hdlen]
    dsimp only
    rw [hfile, cdbRead_at hkey, hmod]

/-- The walk is in front of the record behind the first `i` ones.  Where there are no records, the
header is taken for one. -/
def Walks (records : List (Bytes × Bytes)) (eod pos : ℕ) : Option ℕ → Prop
  | none => eod = 0 ∧ pos = 0
  | some i => eod = recordsEnd records ∧
      if records = [] then pos = 0 ∨ pos = 2056 else pos = recordPos records i

/-- A reader has the file, and is where its walk is. -/
structure Reads (file : Bytes) (records : List (Bytes × Bytes)) (cdb : DbaCdb) (s : Shelf) :
    Prop where
  make : cdb.make = false
  file : cdb.file = file
  shelf : s.records = records
  walk : Walks records cdb.eod cdb.pos s.walk

variable {s : Shelf}

/-- Looking up does not disturb the walk. -/
theorem Reads.lookup (h : Reads file records cdb s) (c : Cdb) :
    Reads file records { cdb with c := c } s := ⟨h.make, h.file, h.shelf, h.walk⟩

/-- The end of the records is what the header begins with. -/
theorem header_eod (h : Layout file records) :
    ∃ buf, cdbRead file 4 0 = some buf ∧ uint32Unpack buf = recordsEnd records := by
  have hlength := h.length
  have hsmall := h.small
  have hhead := cdbRead_at (at_append.1 (h.header 0 (by decide))).1
  have hpos : tablePos records 0 = recordsEnd records := rfl
  have hunpack : uint32Unpack (uint32Pack (recordsEnd records) ++ []) = recordsEnd records :=
    uint32Unpack_pack (by rw [recordsEnd]; omega) _
  rw [hpos, length_uint32Pack] at hhead
  rw [List.append_nil] at hunpack
  exact ⟨_, hhead, hunpack⟩

/-- Where there are no records, the header is not a record. -/
theorem readKey_empty (h : Layout file []) (hfile : cdb.file = file) :
    ∃ buf, cdbRead file 8 0 = some buf ∧ cdb.readKey 0 buf = (none, { cdb with pos := 2056 }) := by
  have hheader := cdbRead_at (h.header 0 (by decide))
  have hlength : file.length = 2048 := h.length
  have hkey : cdbRead file 2048 8 = none := by
    have hshort : ((file.drop 8).take 2048).length < 2048 := by
      rw [List.length_take, List.length_drop, hlength]
      decide
    rw [cdbRead, if_pos hshort]
  refine ⟨_, hheader, ?_⟩
  have hklen : uint32Unpack (uint32Pack (tablePos [] 0) ++ uint32Pack (tableLen [] 0)) = 2048 := rfl
  have hdlen :
      uint32Unpack ((uint32Pack (tablePos [] 0) ++ uint32Pack (tableLen [] 0)).drop 4) = 0 := rfl
  subst hfile
  rw [DbaCdb.readKey, hklen, hdlen, hkey]
  rfl

/-- **The first key.** -/
theorem Reads.firstkey (h : Layout file records) (hr : Reads file records cdb s) :
    (dbaFirstkeyCdb cdb).1 = s.key? 0 ∧
      Reads file records (dbaFirstkeyCdb cdb).2 { s with walk := some 1 } := by
  have hnot : ¬ cdb.make = true := by simp [hr.make]
  obtain ⟨buf, hbuf, heod⟩ := header_eod h
  have hcread : DbaCdb.cread { cdb with eod := 2 ^ 32 - 1 } 0 4 = some buf := by
    have hlt : ¬ 2 ^ 32 - 1 ≤ 0 := by decide
    rw [DbaCdb.cread, if_neg hlt, hr.file]
    exact hbuf
  rw [dbaFirstkeyCdb, if_neg hnot]
  dsimp only
  rw [hcread]
  dsimp only
  rw [heod, Shelf.key?, hr.shelf]
  rcases records with _ | ⟨e, rest⟩
  · have hend : DbaCdb.cread { cdb with eod := recordsEnd [] } 2048 8 = none :=
      if_pos (Nat.le_refl _)
    rw [hend]
    refine ⟨rfl, hr.make, hr.file, rfl, rfl, ?_⟩
    rw [if_pos rfl]
    have hwalk := hr.walk
    generalize s.walk = w at hwalk
    rcases w with _ | i
    · exact .inl hwalk.2
    · exact (if_pos rfl).mp hwalk.2
  · obtain ⟨buf', hread, hkey⟩ := cread_record { cdb with eod := recordsEnd (e :: rest) }
      (i := 0) h hr.file rfl (Nat.succ_pos _)
    have hpos : recordPos (e :: rest) 0 = 2048 := rfl
    rw [hpos] at hread hkey
    rw [hread]
    dsimp only
    rw [hkey]
    exact ⟨rfl, hr.make, hr.file, rfl, rfl, (if_neg (List.cons_ne_nil _ _)).mpr rfl⟩

/-- **The next key.** -/
theorem Reads.nextkey (h : Layout file records) (hr : Reads file records cdb s) {i : ℕ}
    (hi : s.walk = some i) :
    (dbaNextkeyCdb cdb).1 = s.key? i ∧
      Reads file records (dbaNextkeyCdb cdb).2 { s with walk := some (i + 1) } := by
  have hnot : ¬ cdb.make = true := by simp [hr.make]
  have hwalk := hr.walk
  rw [hi] at hwalk
  obtain ⟨heod, hpos⟩ := hwalk
  rw [dbaNextkeyCdb, if_neg hnot, Shelf.key?, hr.shelf]
  rcases Nat.lt_or_ge i records.length with hlt | hge
  · have hne : ¬ records = [] := fun hnil => by
      rw [hnil] at hlt
      cases hlt
    obtain ⟨buf, hread, hkey⟩ := cread_record cdb h hr.file heod hlt
    rw [if_neg hne] at hpos
    rw [hpos, hread]
    dsimp only
    rw [hkey, List.getElem?_eq_getElem hlt]
    exact ⟨rfl, hr.make, hr.file, rfl, heod, (if_neg hne).mpr rfl⟩
  · rw [List.getElem?_eq_none hge]
    rcases records with _ | ⟨e, rest⟩
    · rw [if_pos rfl] at hpos
      rcases hpos with hpos | hpos
      · obtain ⟨buf, hread, hkey⟩ := readKey_empty h hr.file
        have hcread : cdb.cread 0 8 = some buf := by
          have hlt : ¬ cdb.eod ≤ 0 := by
            rw [heod]
            decide
          rw [DbaCdb.cread, if_neg hlt, hr.file]
          exact hread
        rw [hpos, hcread]
        dsimp only
        rw [hkey]
        exact ⟨rfl, hr.make, hr.file, rfl, heod, (if_pos rfl).mpr (.inr rfl)⟩
      · have hcread : cdb.cread cdb.pos 8 = none := by
          have hle : cdb.eod ≤ cdb.pos := by
            rw [heod, hpos]
            decide
          rw [DbaCdb.cread, if_pos hle]
        rw [hcread]
        exact ⟨rfl, hr.make, hr.file, rfl, heod, (if_pos rfl).mpr (.inr hpos)⟩
    · rw [if_neg (List.cons_ne_nil _ _), recordPos_of_le hge] at hpos
      have hcread : cdb.cread cdb.pos 8 = none := by
        rw [DbaCdb.cread, if_pos (Nat.le_of_eq (heod.trans hpos.symm))]
      rw [hcread]
      refine ⟨rfl, hr.make, hr.file, rfl, heod, (if_neg (List.cons_ne_nil _ _)).mpr ?_⟩
      exact hpos.trans (recordPos_of_le (Nat.le_succ_of_le hge)).symm

/-- Before the first key, there is no next one. -/
theorem Reads.nextkey_none (hr : Reads file records cdb s) (hw : s.walk = none) :
    dbaNextkeyCdb cdb = (none, cdb) := by
  have hnot : ¬ cdb.make = true := by simp [hr.make]
  have hwalk := hr.walk
  rw [hw] at hwalk
  have hcread : cdb.cread cdb.pos 8 = none := by
    rw [DbaCdb.cread, hwalk.1, if_pos (Nat.zero_le _)]
  rw [dbaNextkeyCdb, if_neg hnot, hcread]

/-- **A reader answers** what the shelf answers. -/
theorem reads_simulates (P : StreamOps) (h : Layout file records) :
    Simulates (dbaHandle (cdbHandler P) .reader) Shelf.handle (fun _ _ => True)
      (Reads file records) := by
  intro cdb s request hr _
  have hfinds : ∀ key, Finds cdb.file key (cdbFindstart cdb.c) (dataOf s.records key) := by
    intro key
    rw [hr.file, hr.shelf]
    exact finds_of_layout h key cdb.c
  match request with
  | .dbaFetch key skip =>
    rw [dbaHandle, Shelf.handle]
    split_ifs with hskip
    · exact ⟨rfl, hr⟩
    · obtain ⟨hdata, c, hc⟩ := dbaFetchCdb_eq hr.make (hfinds key) skip.toNat
      have hnorm : normalizedSkip (cdbHandler P).name skip = skip.toNat := rfl
      rw [hnorm]
      exact ⟨congrArg Answer.ofOption hdata, hc ▸ hr.lookup c⟩
  | .dbaExists key =>
    obtain ⟨hsome, c, hc⟩ := dbaExistsCdb_eq hr.make (hfinds key)
    rw [decide_eq_decide.2 dataOf_ne_nil] at hsome
    exact ⟨congrArg Answer.bool hsome, hc ▸ hr.lookup c⟩
  | .dbaFirstkey =>
    obtain ⟨hkey, hnext⟩ := hr.firstkey h
    exact ⟨congrArg Answer.ofOption hkey, hnext⟩
  | .dbaNextkey =>
    rw [Shelf.handle]
    rcases hw : s.walk with _ | i
    · have hnone := hr.nextkey_none hw
      rw [dbaHandle, cdbHandler]
      dsimp only
      rw [hnone]
      exact ⟨rfl, hr⟩
    · obtain ⟨hkey, hnext⟩ := hr.nextkey h hw
      exact ⟨congrArg Answer.ofOption hkey, hnext⟩
  | .dbaInsert _ _ | .dbaReplace _ _ | .dbaDelete _ | .dbaOptimize | .dbaSync => exact ⟨rfl, hr⟩

/-- A reader that was just opened. -/
theorem reads_open (P : StreamOps) (file : Bytes) (records : List (Bytes × Bytes)) :
    ∃ cdb, dbaOpenCdb P .reader file = .ok cdb ∧ Reads file records cdb ⟨records, none⟩ :=
  ⟨_, rfl, rfl, rfl, rfl, rfl, rfl⟩

end Walk

/-! ### Writing -/

/-- A writer has taken the records. -/
structure Takes (cdb : DbaCdb) (records : List (Bytes × Bytes)) : Prop where
  make : cdb.make = true
  added : Added cdb.m records

/-- A writer has room for what it is to take. -/
def HasRoom (records : List (Bytes × Bytes)) (request : Request) : Prop :=
  Fits (takeRecord records request).2

/-- **A writer takes** what is inserted, as long as it fits. -/
theorem takes_simulates {P : StreamOps} (hP : P.Works) :
    Simulates (dbaHandle (cdbHandler P) .trunc) takeRecord HasRoom Takes := by
  intro cdb records request ht hroom
  have hmake := ht.make
  match request with
  | .dbaFetch key skip =>
    rw [dbaHandle, takeRecord, cdbHandler]
    dsimp only
    rw [dbaFetchCdb, if_pos hmake]
    split_ifs
    · exact ⟨rfl, ht⟩
    · exact ⟨rfl, ht⟩
  | .dbaExists key =>
    rw [dbaHandle, takeRecord, cdbHandler]
    dsimp only
    rw [dbaExistsCdb, if_pos hmake]
    exact ⟨rfl, ht⟩
  | .dbaFirstkey =>
    rw [dbaHandle, takeRecord, cdbHandler]
    dsimp only
    rw [dbaFirstkeyCdb, if_pos hmake]
    exact ⟨rfl, ht⟩
  | .dbaNextkey =>
    rw [dbaHandle, takeRecord, cdbHandler]
    dsimp only
    rw [dbaNextkeyCdb, if_pos hmake]
    exact ⟨rfl, ht⟩
  | .dbaInsert key value =>
    obtain ⟨hadded, hworks⟩ := ht.added.add hP.sound (key, value)
    have hok : (cdbMakeAdd P cdb.m key value).1 = true :=
      hworks hP (Nat.lt_of_le_of_lt (Nat.le_add_right _ _) hroom)
    have hnot : ¬ ¬ cdb.make = true := not_not.2 hmake
    rw [dbaHandle, takeRecord, phpDbaUpdate, if_neg (by decide), cdbHandler]
    dsimp only
    rw [dbaUpdateCdb, if_neg hnot, if_neg (by decide)]
    exact ⟨congrArg Answer.bool hok, hmake, (hadded hok).2⟩
  | .dbaReplace key value =>
    have hnot : ¬ ¬ cdb.make = true := not_not.2 hmake
    rw [dbaHandle, takeRecord, phpDbaUpdate, if_neg (by decide), cdbHandler]
    dsimp only
    rw [dbaUpdateCdb, if_neg hnot, if_pos rfl]
    exact ⟨rfl, ht⟩
  | .dbaDelete _ | .dbaOptimize | .dbaSync => exact ⟨rfl, ht⟩

/-- A writer that was just opened. -/
theorem takes_open {P : StreamOps} (hP : P.Works) (file : Bytes) :
    ∃ cdb, dbaOpenCdb P .trunc file = .ok cdb ∧ Takes cdb [] := by
  have hstart : (cdbMakeStart P ⟨[], 0⟩).1 ≠ -1 := by
    rw [cdbMakeStart_of_works hP]
    decide
  exact ⟨_, rfl, rfl, added_start hP.sound hstart⟩

/-- **The file that a writer leaves** has the layout. -/
theorem Takes.close {P : StreamOps} (hP : P.Works) {cdb : DbaCdb} {records : List (Bytes × Bytes)}
    (h : Takes cdb records) (hfits : Fits records) : Layout (dbaCloseCdb P cdb) records := by
  obtain ⟨hbytes, hworks⟩ := h.added.finish hP.sound
  rw [h.added.pos] at hworks
  rw [dbaCloseCdb, if_pos h.make]
  exact layout_of_bytes hfits h.added.pos (hbytes (hworks hP hfits)).2

theorem Fits.left {before after : List (Bytes × Bytes)} (h : Fits (before ++ after)) :
    Fits before := by
  rw [Fits, recordsBytes_append, List.length_append, List.length_append] at h
  rw [Fits]
  omega

/-- What a writer has taken in the end. -/
theorem run_takeRecord (records : List (Bytes × Bytes)) (requests : List Request) :
    run (leaves takeRecord) records requests = records ++ inserted requests := by
  induction requests generalizing records with
  | nil => exact (List.append_nil _).symm
  | cons request requests ih =>
    rw [Machine.run_cons, ih]
    match request with
    | .dbaInsert key value => exact (List.append_cons records (key, value) _).symm
    | .dbaFetch key skip =>
      rw [leaves, takeRecord]
      split_ifs
      · rfl
      · rfl
    | .dbaExists _ | .dbaFirstkey | .dbaNextkey | .dbaReplace _ _ | .dbaDelete _ | .dbaOptimize
    | .dbaSync => rfl

/-- Where all of the records fit, there is always room. -/
theorem along_hasRoom {records : List (Bytes × Bytes)} {requests : List Request}
    (hfits : Fits (records ++ inserted requests)) :
    Along (leaves takeRecord) HasRoom records requests := by
  refine Machine.along_iff_split.2 fun pre request post hsplit => ?_
  have hall := run_takeRecord records requests
  rw [hsplit, Machine.run_append, Machine.run_cons, run_takeRecord _ post, ← hsplit] at hall
  rw [← hall] at hfits
  exact hfits.left

/-- **A database that is written and then read**, where nothing fails.  Whatever is called in
between, the writer takes what is inserted, and a reader of the file that it leaves answers what the
shelf does. -/
theorem databaseRight {P : StreamOps} (hP : P.Works) (writes reads : List Request)
    (hfits : Fits (inserted writes)) (file : Bytes) :
    ∃ file', session P .trunc file writes = .ok (answers takeRecord [] writes, file') ∧
      session P .reader file' reads =
        .ok (answers Shelf.handle ⟨inserted writes, none⟩ reads, file') := by
  obtain ⟨writer, hwriter, htakes⟩ := takes_open hP file
  obtain ⟨hwritten, hend⟩ := (takes_simulates hP).session htakes (along_hasRoom hfits)
  rw [run_takeRecord, List.nil_append] at hend
  have hlayout := hend.close hP hfits
  generalize hfile : dbaCloseCdb P _ = file' at hlayout
  obtain ⟨reader, hreader, hreads⟩ := reads_open P file' (inserted writes)
  have hgood : Along (leaves Shelf.handle) (fun _ _ => True) ⟨inserted writes, none⟩ reads :=
    Machine.along_iff_split.2 fun _ _ _ _ => trivial
  obtain ⟨hread, hleft⟩ := (reads_simulates P hlayout).session hreads hgood
  refine ⟨file', ?_, ?_⟩
  · rw [session, hwriter, ← hwritten, ← hfile]
    rfl
  · have hclose :
        dbaCloseCdb P (run (leaves (dbaHandle (cdbHandler P) .reader)) reader reads) = file' := by
      have hnot :
          ¬ (run (leaves (dbaHandle (cdbHandler P) .reader)) reader reads).make = true := by
        simp [hleft.make]
      rw [dbaCloseCdb, if_neg hnot, hleft.file]
    rw [session, hreader, ← hread]
    exact congrArg (fun left => Except.ok (_, left)) hclose

/-- Two records of one key and one of another, and what a reader sees of them. -/
theorem databaseRight_twice :
    ∃ file', session .plain .trunc [0] [.dbaInsert [97] [1], .dbaReplace [97] [2],
        .dbaInsert [98] [3], .dbaInsert [97] [4], .dbaOptimize] =
          .ok ([.bool true, .bool false, .bool true, .bool true, .bool true], file') ∧
      session .plain .reader file' [.dbaNextkey, .dbaFirstkey, .dbaFetch [97] 1, .dbaNextkey,
        .dbaExists [99], .dbaOptimize, .dbaNextkey, .dbaNextkey] = .ok ([.bool false, .str [97],
          .str [4], .str [98], .bool false, .bool false, .str [97], .bool false], file') :=
  databaseRight StreamOps.plain_works [.dbaInsert [97] [1], .dbaReplace [97] [2],
    .dbaInsert [98] [3], .dbaInsert [97] [4], .dbaOptimize] _ (by decide) [0]

end PhpWasm.Dba
