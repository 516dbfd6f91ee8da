import PhpWasm.Base.Distribution
import PhpWasm.Base.Extent
import PhpWasm.Base.Probing
import PhpWasm.Dba.Requests

/-!
# Writing a constant database

`cdb_make` writes a file that is looked up later: a header with the place and the size of 256 hash
tables, the records in the order they were added, and the tables, each with twice as many slots as
there are records for it.

* `cdbMakeStart`, `cdbMakeAdd` and `cdbMakeFinish` write the file, and fail where the stream does.
* `Layout` says what is where in it.
* `cdbMakeRight`: where no call fails, all of the file fits into 32 bits and it has the layout; and a
  file that fits is written if the stream works.
-/

set_option autoImplicit false

namespace PhpWasm.Dba

open Distribution (distribute size)
open Extent

/-! ## `uint32.c` -/

/-- `uint32_pack` -/
def uint32Pack (n : ℕ) : Bytes :=
  [UInt8.ofNat n, UInt8.ofNat (n / 256), UInt8.ofNat (n / 256 / 256),
    UInt8.ofNat (n / 256 / 256 / 256)]

/-- `uint32_unpack` -/
def uint32Unpack : Bytes → ℕ
  | b₀ :: b₁ :: b₂ :: b₃ :: _ =>
    b₃.toNat * 256 ^ 3 + b₂.toNat * 256 ^ 2 + b₁.toNat * 256 + b₀.toNat
  | _ => 0

/-! ## `cdb_make.c` -/

/-- `cdb_hash` -/
def cdbHash (buf : Bytes) : UInt32 := buf.foldl (fun h b => (h + h <<< 5) ^^^ b.toUInt32) 5381

/-- `struct cdb_hp` -/
structure CdbHp where
  h : UInt32
  p : ℕ
  deriving DecidableEq

/-- `struct cdb_make`, without what only `cdb_make_finish` uses. -/
structure CdbMake where
  /-- The chunks of `struct cdb_hplist`, the newest one first. -/
  head : List (List CdbHp)
  numentries : ℕ
  pos : ℕ
  fp : PhpStream

/-- A function that returns `0` or `-1`, and what it leaves. -/
abbrev Result := Bool × CdbMake

/-- The next function, unless this one has returned `-1`. -/
def Result.andThen (r : Result) (f : CdbMake → Result) : Result := if r.1 then f r.2 else r

/-- `cdb_posplus` -/
def cdbPosplus (c : CdbMake) (len : ℕ) : Result :=
  let newpos := (c.pos + len) % 2 ^ 32
  if newpos < len then (false, c) else (true, { c with pos := newpos })

/-- `CDB_HPLIST` -/
def cdbHplist : ℕ := 1000

/-- The list with one more entry. -/
def pushHp (hp : CdbHp) : List (List CdbHp) → List (List CdbHp)
  | [] => [[hp]]
  | chunk :: rest => if cdbHplist ≤ chunk.length then [hp] :: chunk :: rest
    else (chunk ++ [hp]) :: rest

/-- `cdb_make_addend` -/
def cdbMakeAddend (c : CdbMake) (keylen datalen : ℕ) (h : UInt32) : Result :=
  let c := { c with head := pushHp ⟨h, c.pos⟩ c.head, numentries := c.numentries + 1 }
  ((cdbPosplus c 8).andThen fun c => cdbPosplus c keylen).andThen fun c => cdbPosplus c datalen

/-- `255 & h` -/
def CdbHp.bucket (hp : CdbHp) : ℕ := hp.h.toNat % 256

/-- The entries, in the order `cdb_make_finish` walks over them. -/
def CdbMake.walk (c : CdbMake) : List CdbHp := c.head.flatMap List.reverse

/-- `c->count[i]` -/
def CdbMake.count (c : CdbMake) (i : ℕ) : ℕ := c.walk.countP fun hp => hp.bucket = i

/-- `memsize`, before the space for the entries is added. -/
def CdbMake.memsize (c : CdbMake) : ℕ :=
  (List.range 256).foldl (fun memsize i => max memsize (c.count i * 2)) 1

/-- `c->start[i]`, before the entries are split. -/
def CdbMake.start (c : CdbMake) (i : ℕ) : ℕ := ((List.range (i + 1)).map c.count).sum

/-- `c->split` and `c->start`, when the entries are split. -/
def CdbMake.split (c : CdbMake) : Distribution.State CdbHp :=
  c.walk.foldl (Distribution.State.put CdbHp.bucket) ⟨c.start, fun _ => ⟨0, 0⟩⟩

/-- `(hp->h >> 8) % len` -/
def CdbHp.where (len : ℕ) (hp : CdbHp) : ℕ := hp.h.toNat / 256 % len

/-- `c->hash` for the bucket `i`, where a slot with no position is free. -/
def hashTable (split : Distribution.State CdbHp) (count i : ℕ) : Probing.Slots CdbHp :=
  Probing.fill (count + count) (CdbHp.where (count + count)) (fun _ => none) (split.slice i count)

/-- A slot, as it is written. -/
def slotBytes : Option CdbHp → Bytes
  | none => uint32Pack 0 ++ uint32Pack 0
  | some hp => uint32Pack hp.h.toNat ++ uint32Pack hp.p

section

variable (P : StreamOps)

/-- `cdb_make_write` -/
def CdbMake.write (c : CdbMake) (buf : Bytes) : Result :=
  let r := P.write c.fp buf
  (r.1 = buf.length, { c with fp := r.2 })

/-- `php_stream_flush(c->fp)` -/
def CdbMake.flush (c : CdbMake) : Result :=
  let r := P.flush c.fp
  (r.1, { c with fp := r.2 })

/-- `php_stream_rewind(c->fp)`, and whether the stream is at its start then. -/
def CdbMake.rewind (c : CdbMake) : Result :=
  let r := P.seek c.fp 0
  (r.2.pos = 0, { c with fp := r.2 })

/-- `cdb_make_start` -/
def cdbMakeStart (f : PhpStream) : ℤ × CdbMake :=
  let r := P.seek f 2048
  (if r.1 then (r.2.pos : ℤ) else -1, ⟨[], 0, 2048, r.2⟩)

/-- `cdb_make_addbegin` -/
def cdbMakeAddbegin (c : CdbMake) (keylen datalen : ℕ) : Result :=
  c.write P (uint32Pack keylen ++ uint32Pack datalen)

/-- `cdb_make_add` -/
def cdbMakeAdd (c : CdbMake) (key data : Bytes) : Result :=
  (cdbMakeAddbegin P c key.length data.length).andThen fun c =>
    (c.write P key).andThen fun c =>
      (c.write P data).andThen fun c =>
        cdbMakeAddend c key.length data.length (cdbHash key)

/-- The loop that writes the slots. -/
def writeSlots (c : CdbMake) : List (Option CdbHp) → Result
  | [] => (true, c)
  | slot :: slots =>
    (c.write P (slotBytes slot)).andThen fun c =>
      (cdbPosplus c 8).andThen fun c => writeSlots c slots

/-- The loop over the buckets, with `c->final`. -/
def writeTables (split : Distribution.State CdbHp) (count : ℕ → ℕ) (c : CdbMake) (final : Bytes) :
    List ℕ → Result × Bytes
  | [] => ((true, c), final)
  | i :: is =>
    let len := count i + count i
    let final := final ++ uint32Pack c.pos ++ uint32Pack len
    let r := writeSlots P c ((List.range len).map (hashTable split (count i) i))
    if r.1 then writeTables split count r.2 final is else (r, final)

/-- The end of `cdb_make_finish`: the header is written. -/
def CdbMake.writeHeader (c : CdbMake) (final : Bytes) : Result :=
  (CdbMake.flush P { c with head := [] }).andThen fun c =>
    (c.rewind P).andThen fun c =>
      (c.write P final).andThen fun c => c.flush P

/-- `cdb_make_finish` -/
def cdbMakeFinish (c : CdbMake) : Result :=
  if c.memsize + c.numentries > (2 ^ 32 - 1) / 8 then (false, c)
  else
    let (r, final) := writeTables P c.split c.count c [] (List.range 256)
    r.andThen fun c => c.writeHeader P final

/-- `cdb_make_add` for one record after another, until one fails. -/
def addAll (c : CdbMake) : List (Bytes × Bytes) → Result
  | [] => (true, c)
  | e :: records => (cdbMakeAdd P c e.1 e.2).andThen fun c => addAll c records

/-- A database of the records in a new file: no call may return `-1`. -/
def createDatabase (records : List (Bytes × Bytes)) : Option Bytes :=
  let start := cdbMakeStart P ⟨[], 0⟩
  if start.1 = -1 then none
  else
    let r := (addAll P start.2 records).andThen (cdbMakeFinish P)
    if r.1 then some r.2.fp.bytes else none

end

/-- A database of the records, in a file that nothing fails on. -/
def cdbMake (records : List (Bytes × Bytes)) : Option Bytes :=
  createDatabase StreamOps.plain records

/-! ## What is in the file -/

/-- A record, as it is written. -/
def recordBytes (e : Bytes × Bytes) : Bytes :=
  uint32Pack e.1.length ++ uint32Pack e.2.length ++ e.1 ++ e.2

/-- The records, one behind the other. -/
def recordsBytes (records : List (Bytes × Bytes)) : Bytes := records.flatMap recordBytes

/-- The entries for records, the first of them at `pos`. -/
def entriesAt (pos : ℕ) : List (Bytes × Bytes) → List CdbHp
  | [] => []
  | e :: records => ⟨cdbHash e.1, pos⟩ :: entriesAt (pos + (recordBytes e).length) records

/-- The entries of a bucket. -/
def bucketEntries (records : List (Bytes × Bytes)) (i : ℕ) : List CdbHp :=
  (entriesAt 2048 records).filter fun hp => hp.bucket = i

/-- The number of slots of a table. -/
def tableLen (records : List (Bytes × Bytes)) (i : ℕ) : ℕ :=
  (bucketEntries records i).length + (bucketEntries records i).length

/-- The slots of a table. -/
def table (records : List (Bytes × Bytes)) (i : ℕ) : Probing.Slots CdbHp :=
  Probing.fill (tableLen records i) (CdbHp.where (tableLen records i)) (fun _ => none)
    (bucketEntries records i)

/-- Where a table is. -/
def tablePos (records : List (Bytes × Bytes)) (i : ℕ) : ℕ :=
  2048 + (recordsBytes records).length + ((List.range i).map fun j => 8 * tableLen records j).sum

/-- **What is where in the file.** -/
structure Layout (file : Bytes) (records : List (Bytes × Bytes)) : Prop where
  header : ∀ i < 256,
    At file (8 * i) (uint32Pack (tablePos records i) ++ uint32Pack (tableLen records i))
  body : At file 2048 (recordsBytes records)
  slots : ∀ i < 256, ∀ u < tableLen records i,
    At file (tablePos records i + 8 * u) (slotBytes (table records i u))
  length : file.length = 2048 + (recordsBytes records).length + 16 * records.length
  /-- All positions fit into 32 bits. -/
  small : file.length < 2 ^ 32

/-! ### Numbers and records -/

@[simp] theorem length_uint32Pack (n : ℕ) : (uint32Pack n).length = 4 := rfl

@[simp] theorem length_slotBytes (slot : Option CdbHp) : (slotBytes slot).length = 8 := by
  cases slot <;> rfl

theorem length_recordBytes (e : Bytes × Bytes) :
    (recordBytes e).length = 8 + e.1.length + e.2.length := by
  simp [recordBytes]
  omega

/-- A number is read back. -/
theorem uint32Unpack_pack {n : ℕ} (h : n < 2 ^ 32) (rest : Bytes) :
    uint32Unpack (uint32Pack n ++ rest) = n := by
  simp only [uint32Pack, List.cons_append, List.nil_append, uint32Unpack, UInt8.toNat_ofNat']
  omega

/-! ### The stream -/

/-- What stands in the place of the header until it is written. -/
def noHeader : Bytes := List.replicate 2048 0

theorem length_noHeader : noHeader.length = 2048 := List.length_replicate

/-- Behind the header, which is still empty, the body was written. -/
def PhpStream.Holds (s : PhpStream) (body : Bytes) : Prop :=
  s.pos = 2048 + body.length ∧ (s.bytes = noHeader ++ body ∨ body = [] ∧ s.bytes = [])

theorem PhpStream.Holds.write {s : PhpStream} {body : Bytes} (h : s.Holds body) (buf : Bytes) :
    (s.write buf).Holds (body ++ buf) := by
  obtain ⟨hpos, hbytes⟩ := h
  rw [PhpStream.write]
  by_cases hbuf : buf = []
  · rw [if_pos hbuf, hbuf, List.append_nil]
    exact ⟨hpos, hbytes⟩
  rw [if_neg hbuf]
  have hfilled : s.bytes ++ List.replicate (s.pos - s.bytes.length) 0 = noHeader ++ body := by
    rcases hbytes with hbytes | ⟨rfl, hbytes⟩
    · rw [hbytes, hpos, List.length_append, length_noHeader, Nat.sub_self, List.replicate_zero,
        List.append_nil]
    · rw [hbytes, hpos, List.nil_append, List.append_nil]
      rfl
  have hlength : (noHeader ++ body).length = s.pos := by
    rw [List.length_append, length_noHeader, hpos]
  refine ⟨?_, .inl ?_⟩
  · rw [List.length_append, hpos, Nat.add_assoc]
  · dsimp only
    rw [hfilled, ← hlength, List.take_length, List.drop_eq_nil_of_le (Nat.le_add_right _ _),
      List.append_nil, List.append_assoc]

/-- The header is written last. -/
theorem PhpStream.Holds.header {s : PhpStream} {body : Bytes} (h : s.Holds body) {final : Bytes}
    (hfinal : final.length = 2048) : ((s.seek 0).write final).bytes = final ++ body := by
  have hne : final ≠ [] := fun hnil => by rw [hnil] at hfinal; cases hfinal
  rw [PhpStream.write, if_neg hne]
  have hdrop : (s.seek 0).bytes.drop final.length = body := by
    rw [hfinal, ← length_noHeader]
    rcases h.2 with hbytes | ⟨rfl, hbytes⟩
    · exact (congrArg _ hbytes).trans List.drop_left
    · exact (congrArg _ hbytes).trans List.drop_nil
  have hfilled : (s.seek 0).bytes ++ List.replicate ((s.seek 0).pos - (s.seek 0).bytes.length) 0 =
      (s.seek 0).bytes := by
    rw [PhpStream.seek, Nat.zero_sub, List.replicate_zero, List.append_nil]
  dsimp only
  rw [hfilled, show (s.seek 0).pos = 0 from rfl, List.take_zero, List.nil_append, Nat.zero_add,
    hdrop]

/-! ### The records -/

section Posplus

variable {c : CdbMake} {len : ℕ}

theorem cdbPosplus_fits (h : c.pos + len < 2 ^ 32) :
    cdbPosplus c len = (true, { c with pos := c.pos + len }) := by
  rw [cdbPosplus, Nat.mod_eq_of_lt h, if_neg (Nat.not_lt.2 (Nat.le_add_left _ _))]

theorem cdbPosplus_fails (hpos : c.pos < 2 ^ 32) (h : 2 ^ 32 ≤ c.pos + len) :
    (cdbPosplus c len).1 = false := by
  have hlt : (c.pos + len) % 2 ^ 32 < len := by omega
  rw [cdbPosplus, if_pos hlt]

theorem andThen_false {r : Result} (h : r.1 = false) (f : CdbMake → Result) :
    (r.andThen f).1 = false := by
  rw [Result.andThen, h, if_neg Bool.false_ne_true, h]

/-- Where nothing has failed, the function before it has not. -/
theorem of_andThen {r : Result} {f : CdbMake → Result} (h : (r.andThen f).1 = true) :
    r.1 = true := by
  by_contra hr
  rw [andThen_false (Bool.eq_false_iff.2 hr)] at h
  cases h

@[simp] theorem andThen_true (c : CdbMake) (f : CdbMake → Result) :
    Result.andThen (true, c) f = f c := rfl

theorem cdbMakeAddend_fits {keylen datalen : ℕ} (h : UInt32)
    (hfits : c.pos + 8 + keylen + datalen < 2 ^ 32) :
    cdbMakeAddend c keylen datalen h =
      (true, ⟨pushHp ⟨h, c.pos⟩ c.head, c.numentries + 1, c.pos + 8 + keylen + datalen, c.fp⟩) := by
  have hhead : c.pos + 8 < 2 ^ 32 := by omega
  have hkey : c.pos + 8 + keylen < 2 ^ 32 := by omega
  rw [cdbMakeAddend, cdbPosplus_fits (by exact hhead), andThen_true,
    cdbPosplus_fits (by exact hkey), andThen_true, cdbPosplus_fits (by exact hfits)]

theorem cdbMakeAddend_fails {keylen datalen : ℕ} (h : UInt32) (hpos : c.pos < 2 ^ 32)
    (hfails : 2 ^ 32 ≤ c.pos + 8 + keylen + datalen) :
    (cdbMakeAddend c keylen datalen h).1 = false := by
  rw [cdbMakeAddend]
  by_cases hhead : c.pos + 8 < 2 ^ 32
  · rw [cdbPosplus_fits (by exact hhead), andThen_true]
    by_cases hkey : c.pos + 8 + keylen < 2 ^ 32
    · rw [cdbPosplus_fits (by exact hkey), andThen_true]
      exact cdbPosplus_fails hkey hfails
    · exact andThen_false (cdbPosplus_fails hhead (Nat.le_of_not_lt hkey)) _
  · exact andThen_false (andThen_false (cdbPosplus_fails (by exact hpos)
      (by exact Nat.le_of_not_lt hhead)) _) _

end Posplus

/-! ### Operations that may fail -/

section Ops

variable {P : StreamOps} {c : CdbMake} {buf key data final : Bytes} {f : CdbMake → Result}

theorem andThen_of_true {r : Result} (h : r.1 = true) (f : CdbMake → Result) :
    r.andThen f = f r.2 := if_pos h

/-- A write that has not failed has written. -/
theorem write_andThen (hP : P.Sound) (h : ((c.write P buf).andThen f).1 = true) :
    (c.write P buf).andThen f = f { c with fp := c.fp.write buf } := by
  have hok := of_andThen h
  have hlength : (P.write c.fp buf).1 = buf.length := of_decide_eq_true hok
  rw [andThen_of_true hok, CdbMake.write]
  dsimp only
  rw [hP.write _ _ hlength]

theorem flush_andThen (hP : P.Sound) (h : ((c.flush P).andThen f).1 = true) :
    (c.flush P).andThen f = f c := by
  have hok := of_andThen h
  have hflush : (P.flush c.fp).2 = c.fp := hP.flush _ hok
  rw [andThen_of_true hok, CdbMake.flush]
  dsimp only
  rw [hflush]

/-- At the start of the stream, it has been rewound, if it was not there. -/
theorem rewind_andThen (hP : P.Sound) (hpos : c.fp.pos ≠ 0)
    (h : ((c.rewind P).andThen f).1 = true) :
    (c.rewind P).andThen f = f { c with fp := c.fp.seek 0 } := by
  have hok := of_andThen h
  have hstart : (P.seek c.fp 0).2.pos = 0 := of_decide_eq_true hok
  rw [andThen_of_true hok, CdbMake.rewind]
  rcases hP.seek c.fp 0 with hseek | hseek
  · rw [hseek]
  · rw [hseek] at hstart
    exact absurd hstart hpos

theorem write_of_works (hP : P.Works) (c : CdbMake) (buf : Bytes) :
    c.write P buf = (true, { c with fp := c.fp.write buf }) := by
  rw [CdbMake.write, hP.write]
  simp

theorem writeHeader_sound (hP : P.Sound) (hpos : c.fp.pos ≠ 0)
    (h : (c.writeHeader P final).1 = true) :
    (c.writeHeader P final).2.fp = (c.fp.seek 0).write final := by
  rw [CdbMake.writeHeader] at h ⊢
  have hflush := flush_andThen hP h
  rw [hflush] at h ⊢
  have hrewind := rewind_andThen (c := { c with head := [] }) hP hpos h
  rw [hrewind] at h ⊢
  have hwrite := write_andThen hP h
  rw [hwrite] at h ⊢
  exact hP.flush _ h

theorem writeHeader_of_works (hP : P.Works) (c : CdbMake) (final : Bytes) :
    (c.writeHeader P final).1 = true := by
  have hflush : ∀ c : CdbMake, c.flush P = (true, c) := fun c => by rw [CdbMake.flush, hP.flush]
  rw [CdbMake.writeHeader, hflush, andThen_true, CdbMake.rewind, hP.seek]
  simp only [PhpStream.seek, decide_true, andThen_true]
  rw [write_of_works hP, andThen_true, hflush]

/-- A record that was added was written. -/
theorem cdbMakeAdd_sound (hP : P.Sound) (h : (cdbMakeAdd P c key data).1 = true) :
    cdbMakeAdd P c key data = cdbMakeAddend
      { c with fp :=
        ((c.fp.write (uint32Pack key.length ++ uint32Pack data.length)).write key).write data }
      key.length data.length (cdbHash key) := by
  rw [cdbMakeAdd, cdbMakeAddbegin] at h ⊢
  have hhead := write_andThen hP h
  rw [hhead] at h ⊢
  have hkey := write_andThen hP h
  rw [hkey] at h ⊢
  exact write_andThen hP h

theorem cdbMakeAdd_of_works (hP : P.Works) (c : CdbMake) (key data : Bytes) :
    cdbMakeAdd P c key data = cdbMakeAddend
      { c with fp :=
        ((c.fp.write (uint32Pack key.length ++ uint32Pack data.length)).write key).write data }
      key.length data.length (cdbHash key) := by
  rw [cdbMakeAdd, cdbMakeAddbegin, write_of_works hP, andThen_true, write_of_works hP,
    andThen_true, write_of_works hP, andThen_true]

end Ops

/-- The body of the file so far. -/
structure Written (c : CdbMake) (body : Bytes) : Prop where
  holds : c.fp.Holds body
  pos : c.pos = 2048 + body.length
  lt : c.pos < 2 ^ 32

/-- **What was added so far.** -/
structure Added (c : CdbMake) (records : List (Bytes × Bytes)) : Prop extends
    Written c (recordsBytes records) where
  walk : c.walk = (entriesAt 2048 records).reverse
  numentries : c.numentries = records.length

@[simp] theorem recordsBytes_cons (e : Bytes × Bytes) (records : List (Bytes × Bytes)) :
    recordsBytes (e :: records) = recordBytes e ++ recordsBytes records := List.flatMap_cons

theorem recordsBytes_append (before after : List (Bytes × Bytes)) :
    recordsBytes (before ++ after) = recordsBytes before ++ recordsBytes after :=
  List.flatMap_append

theorem recordsBytes_concat (records : List (Bytes × Bytes)) (e : Bytes × Bytes) :
    recordsBytes (records ++ [e]) = recordsBytes records ++ recordBytes e := by
  rw [recordsBytes_append, recordsBytes_cons]
  exact congrArg _ (List.append_nil _)

theorem entriesAt_append (pos : ℕ) (records : List (Bytes × Bytes)) (e : Bytes × Bytes) :
    entriesAt pos (records ++ [e]) =
      entriesAt pos records ++ [⟨cdbHash e.1, pos + (recordsBytes records).length⟩] := by
  induction records generalizing pos with
  | nil => rfl
  | cons r records ih =>
    rw [List.cons_append, entriesAt, ih, entriesAt, List.cons_append, recordsBytes_cons,
      List.length_append, Nat.add_assoc]

theorem length_entriesAt (pos : ℕ) (records : List (Bytes × Bytes)) :
    (entriesAt pos records).length = records.length := by
  induction records generalizing pos with
  | nil => rfl
  | cons r records ih => rw [entriesAt, List.length_cons, ih, List.length_cons]

/-- The walk begins with what came last. -/
theorem walk_pushHp (hp : CdbHp) (head : List (List CdbHp)) :
    (pushHp hp head).flatMap List.reverse = hp :: head.flatMap List.reverse := by
  rcases head with _ | ⟨chunk, rest⟩
  · rfl
  · rw [pushHp]
    split
    · rfl
    · simp

/-- **One more record.** -/
theorem Added.add {P : StreamOps} (hP : P.Sound) {c : CdbMake} {records : List (Bytes × Bytes)}
    (h : Added c records) (e : Bytes × Bytes) :
    ((cdbMakeAdd P c e.1 e.2).1 = true → 2048 + (recordsBytes (records ++ [e])).length < 2 ^ 32 ∧
        Added (cdbMakeAdd P c e.1 e.2).2 (records ++ [e])) ∧
      (P.Works → 2048 + (recordsBytes (records ++ [e])).length < 2 ^ 32 →
        (cdbMakeAdd P c e.1 e.2).1 = true) := by
  have hpos := h.pos
  have hsize : 2048 + (recordsBytes (records ++ [e])).length =
      c.pos + 8 + e.1.length + e.2.length := by
    rw [recordsBytes_concat, List.length_append, length_recordBytes]
    omega
  rw [hsize]
  constructor
  · intro hok
    have hadd := cdbMakeAdd_sound hP hok
    rw [hadd] at hok ⊢
    have hfits : c.pos + 8 + e.1.length + e.2.length < 2 ^ 32 := by
      by_contra hnot
      rw [cdbMakeAddend_fails _ (by exact h.lt) (by exact Nat.le_of_not_lt hnot)] at hok
      cases hok
    rw [cdbMakeAddend_fits _ (by exact hfits)]
    refine ⟨hfits, ⟨?_, hsize.symm, hfits⟩, ?_, ?_⟩
    · have hwrite := ((h.holds.write (uint32Pack e.1.length ++ uint32Pack e.2.length)).write
        e.1).write e.2
      rw [recordsBytes_concat, recordBytes]
      simpa only [List.append_assoc] using hwrite
    · rw [CdbMake.walk, walk_pushHp, entriesAt_append, List.reverse_append, ← h.pos]
      exact congrArg _ h.walk
    · rw [List.length_append]
      exact congrArg (· + 1) h.numentries
  · intro hw hfits
    rw [cdbMakeAdd_of_works hw, cdbMakeAddend_fits _ (by exact hfits)]

/-- The file is started. -/
theorem added_start {P : StreamOps} (hP : P.Sound) (h : (cdbMakeStart P ⟨[], 0⟩).1 ≠ -1) :
    Added (cdbMakeStart P ⟨[], 0⟩).2 [] := by
  have hseek : P.seek ⟨[], 0⟩ 2048 = (true, PhpStream.seek ⟨[], 0⟩ 2048) := by
    refine (hP.seek _ _).resolve_right fun hfails => h ?_
    rw [cdbMakeStart, hfails]
    rfl
  rw [cdbMakeStart, hseek]
  exact ⟨⟨⟨rfl, .inr ⟨rfl, rfl⟩⟩, rfl, by decide⟩, rfl, rfl⟩

theorem cdbMakeStart_of_works {P : StreamOps} (hP : P.Works) :
    (cdbMakeStart P ⟨[], 0⟩).1 = 2048 := by
  rw [cdbMakeStart, hP.seek]
  rfl

/-- **All of the records.** -/
theorem Added.addAll {P : StreamOps} (hP : P.Sound) {c : CdbMake} {before : List (Bytes × Bytes)}
    (h : Added c before) (records : List (Bytes × Bytes)) :
    ((addAll P c records).1 = true → Added (addAll P c records).2 (before ++ records)) ∧
      (P.Works → 2048 + (recordsBytes (before ++ records)).length < 2 ^ 32 →
        (addAll P c records).1 = true) := by
  induction records generalizing c before with
  | nil =>
    rw [List.append_nil]
    exact ⟨fun _ => h, fun _ _ => rfl⟩
  | cons e records ih =>
    obtain ⟨hadded, hworks⟩ := h.add hP e
    rw [Dba.addAll, List.append_cons]
    constructor
    · intro hok
      have hfirst := of_andThen hok
      rw [andThen_of_true hfirst] at hok ⊢
      exact (ih (hadded hfirst).2).1 hok
    · intro hw hfits
      have hlength : (recordsBytes (before ++ [e])).length ≤
          (recordsBytes (before ++ [e] ++ records)).length := by
        rw [recordsBytes_append _ records, List.length_append]
        exact Nat.le_add_right _ _
      have hfirst := hworks hw (Nat.lt_of_le_of_lt (Nat.add_le_add_left hlength _) hfits)
      rw [andThen_of_true hfirst]
      exact (ih (hadded hfirst).2).2 hw hfits

/-! ### The tables -/

section Finish

variable {c : CdbMake} {records : List (Bytes × Bytes)} {body : Bytes}

theorem Added.count (h : Added c records) (i : ℕ) :
    c.count i = (bucketEntries records i).length := by
  rw [CdbMake.count, h.walk, List.countP_reverse, List.countP_eq_length_filter, bucketEntries]

theorem sum_range_succ (f : ℕ → ℕ) (i : ℕ) :
    ((List.range (i + 1)).map f).sum = ((List.range i).map f).sum + f i := by
  rw [List.range_succ, List.map_append, List.sum_append]
  simp

theorem sum_range_le (f : ℕ → ℕ) {i j : ℕ} (h : i ≤ j) :
    ((List.range i).map f).sum ≤ ((List.range j).map f).sum := by
  induction j, h using Nat.le_induction with
  | base => exact Nat.le_refl _
  | succ j _ ih =>
    rw [sum_range_succ]
    exact Nat.le_add_right_of_le ih

/-- **The entries are split** into the buckets. -/
theorem Added.slice (h : Added c records) (i : ℕ) :
    c.split.slice i (c.count i) = bucketEntries records i := by
  have hsize : size CdbHp.bucket (entriesAt 2048 records) = c.count := by
    funext i
    rw [h.count, size, List.countP_eq_length_filter, bucketEntries]
  have hsplit : c.split = distribute CdbHp.bucket ⟨c.start, fun _ => ⟨0, 0⟩⟩
      (entriesAt 2048 records) := by
    rw [CdbMake.split, h.walk, distribute]
  have hapart : Distribution.Apart CdbHp.bucket (entriesAt 2048 records) c.start := by
    refine ⟨fun b => ?_, fun b b' hlt => ?_⟩
    · rw [hsize, CdbMake.start, sum_range_succ]
      exact Nat.le_add_left _ _
    · rw [hsize, CdbMake.start, CdbMake.start, sum_range_succ _ b']
      exact Nat.add_le_add_right (sum_range_le _ hlt) _
  rw [hsplit, ← congrFun hsize i, Distribution.slice_distribute hapart, bucketEntries]

theorem Added.hashTable (h : Added c records) (i : ℕ) :
    hashTable c.split (c.count i) i = table records i := by
  rw [Dba.hashTable, h.slice, h.count, table, tableLen]

theorem Written.write (h : Written c body) (buf : Bytes) (hfits : c.pos + buf.length < 2 ^ 32) :
    Written { c with fp := c.fp.write buf, pos := c.pos + buf.length } (body ++ buf) where
  holds := h.holds.write buf
  pos := by
    rw [List.length_append, ← Nat.add_assoc, ← h.pos]
  lt := hfits

theorem length_flatMap_slotBytes (slots : List (Option CdbHp)) :
    (slots.flatMap slotBytes).length = 8 * slots.length := by
  induction slots with
  | nil => rfl
  | cons slot slots ih =>
    rw [List.flatMap_cons, List.length_append, ih, length_slotBytes, List.length_cons]
    omega

/-- **The slots of a table** are written. -/
theorem Written.writeSlots {P : StreamOps} (hP : P.Sound) (h : Written c body)
    (slots : List (Option CdbHp)) :
    ((writeSlots P c slots).1 = true →
        Written (writeSlots P c slots).2 (body ++ slots.flatMap slotBytes)) ∧
      (P.Works → c.pos + 8 * slots.length < 2 ^ 32 → (writeSlots P c slots).1 = true) := by
  induction slots generalizing c body with
  | nil =>
    rw [List.flatMap_nil, List.append_nil]
    exact ⟨fun _ => h, fun _ _ => rfl⟩
  | cons slot slots ih =>
    rw [Dba.writeSlots, List.length_cons, List.flatMap_cons, ← List.append_assoc]
    constructor
    · intro hok
      have hwrite := write_andThen hP hok
      rw [hwrite] at hok ⊢
      have hfits : c.pos + 8 < 2 ^ 32 := by
        by_contra hnot
        have hfails := cdbPosplus_fails (c := { c with fp := c.fp.write (slotBytes slot) }) h.lt
          (Nat.le_of_not_lt hnot)
        rw [of_andThen hok] at hfails
        cases hfails
      rw [cdbPosplus_fits (by exact hfits), andThen_true] at hok ⊢
      have hnext := h.write (slotBytes slot) (by simpa using hfits)
      rw [length_slotBytes] at hnext
      exact (ih hnext).1 hok
    · intro hw hfits
      have hfirst : c.pos + 8 < 2 ^ 32 := by omega
      rw [write_of_works hw, andThen_true, cdbPosplus_fits (by exact hfirst), andThen_true]
      have hnext := h.write (slotBytes slot) (by simpa using hfirst)
      rw [length_slotBytes] at hnext
      refine (ih hnext).2 hw ?_
      dsimp only
      omega

/-- The slots of a table, as they are written. -/
def tableBytes (records : List (Bytes × Bytes)) (i : ℕ) : Bytes :=
  ((List.range (tableLen records i)).map (table records i)).flatMap slotBytes

/-- The header for the tables of the buckets `is`, the first of them at `pos`. -/
def headerAt (records : List (Bytes × Bytes)) (pos : ℕ) : List ℕ → Bytes
  | [] => []
  | i :: is => uint32Pack pos ++ uint32Pack (tableLen records i) ++
      headerAt records (pos + 8 * tableLen records i) is

/-- **The tables** are written. -/
theorem Written.writeTables {P : StreamOps} (hP : P.Sound) (split : Distribution.State CdbHp)
    (count : ℕ → ℕ) (hcount : ∀ i, count i + count i = tableLen records i)
    (htable : ∀ i, Dba.hashTable split (count i) i = table records i) (h : Written c body)
    (final : Bytes) (is : List ℕ) :
    ((writeTables P split count c final is).1.1 = true →
        Written (writeTables P split count c final is).1.2
            (body ++ is.flatMap (tableBytes records)) ∧
          (writeTables P split count c final is).2 = final ++ headerAt records c.pos is) ∧
      (P.Works → c.pos + (is.map fun i => 8 * tableLen records i).sum < 2 ^ 32 →
        (writeTables P split count c final is).1.1 = true) := by
  induction is generalizing c body final with
  | nil =>
    rw [List.flatMap_nil, List.append_nil, headerAt, List.append_nil]
    exact ⟨fun _ => ⟨h, rfl⟩, fun _ _ => rfl⟩
  | cons i is ih =>
    obtain ⟨hwritten, hworks⟩ :=
      h.writeSlots hP ((List.range (tableLen records i)).map (table records i))
    rw [List.length_map, List.length_range] at hworks
    rw [Dba.writeTables, hcount, htable, List.map_cons, List.sum_cons, List.flatMap_cons,
      ← List.append_assoc, ← Nat.add_assoc]
    generalize Dba.writeSlots P c ((List.range (tableLen records i)).map (table records i)) = r
      at hwritten hworks
    have hlater : r.1 = true → r.2.pos = c.pos + 8 * tableLen records i := by
      intro hok
      rw [(hwritten hok).pos, List.length_append, length_flatMap_slotBytes, List.length_map,
        List.length_range, ← Nat.add_assoc, ← h.pos]
    by_cases hok : r.1 = true
    · rw [if_pos hok]
      obtain ⟨hdone, hrest⟩ :=
        ih (hwritten hok) (final ++ uint32Pack c.pos ++ uint32Pack (tableLen records i))
      rw [hlater hok] at hdone hrest
      refine ⟨fun hall => ⟨(hdone hall).1, ?_⟩, hrest⟩
      rw [(hdone hall).2, headerAt]
      simp only [List.append_assoc]
    · rw [if_neg hok]
      exact ⟨fun hr => absurd hr hok, fun hw hfits => absurd (hworks hw (by omega)) hok⟩

theorem length_headerAt (records : List (Bytes × Bytes)) (pos : ℕ) (is : List ℕ) :
    (headerAt records pos is).length = 8 * is.length := by
  induction is generalizing pos with
  | nil => rfl
  | cons i is ih =>
    rw [headerAt, List.length_append, ih, List.length_append, length_uint32Pack,
      length_uint32Pack, List.length_cons]
    omega

theorem countP_lt_succ (l : List CdbHp) (n : ℕ) :
    (l.countP fun hp => hp.bucket < n + 1) =
      (l.countP fun hp => hp.bucket < n) + l.countP fun hp => hp.bucket = n := by
  induction l with
  | nil => rfl
  | cons hp l ih =>
    simp only [List.countP_cons, decide_eq_true_eq]
    split_ifs <;> omega

theorem sum_countP (l : List CdbHp) (n : ℕ) :
    ((List.range n).map fun i => l.countP fun hp => hp.bucket = i).sum =
      l.countP fun hp => hp.bucket < n := by
  induction n with
  | zero => simp
  | succ n ih => rw [sum_range_succ, ih, countP_lt_succ]

/-- The tables have two slots for each record. -/
theorem sum_tableLen (records : List (Bytes × Bytes)) :
    ((List.range 256).map fun i => 8 * tableLen records i).sum = 16 * records.length := by
  have hall : (entriesAt 2048 records).countP (fun hp => hp.bucket < 256) = records.length := by
    have hlt : ∀ hp : CdbHp, hp.bucket < 256 := fun hp => Nat.mod_lt _ (by decide)
    rw [List.countP_eq_length.2 fun hp _ => decide_eq_true (hlt hp), length_entriesAt]
  have hlen : (fun i => 8 * tableLen records i) =
      fun i => 16 * (entriesAt 2048 records).countP fun hp => hp.bucket = i := by
    funext i
    rw [tableLen, bucketEntries, ← List.countP_eq_length_filter]
    omega
  rw [hlen, List.sum_map_mul_left, sum_countP, hall]

theorem length_flatMap_tableBytes (records : List (Bytes × Bytes)) (is : List ℕ) :
    (is.flatMap (tableBytes records)).length = (is.map fun i => 8 * tableLen records i).sum := by
  rw [List.length_flatMap]
  refine congrArg List.sum (List.map_congr_left fun i _ => ?_)
  rw [tableBytes, length_flatMap_slotBytes, List.length_map, List.length_range]

theorem foldl_max_le {f : ℕ → ℕ} {bound : ℕ} (hf : ∀ i, f i ≤ bound) (is : List ℕ) {m : ℕ}
    (hm : m ≤ bound) : is.foldl (fun m i => max m (f i)) m ≤ bound := by
  induction is generalizing m with
  | nil => exact hm
  | cons i is ih => exact ih (Nat.max_le.2 ⟨hm, hf i⟩)

/-- The space for the tables can be allocated if the file fits. -/
theorem Added.memsize_le (h : Added c records) (hfits : c.pos + 16 * records.length < 2 ^ 32) :
    ¬ c.memsize + c.numentries > (2 ^ 32 - 1) / 8 := by
  have hcount : ∀ i, c.count i * 2 ≤ max 1 (2 * records.length) := fun i => by
    have hle := List.length_filter_le (fun hp : CdbHp => hp.bucket = i) (entriesAt 2048 records)
    rw [length_entriesAt, ← bucketEntries, ← h.count] at hle
    omega
  have hmemsize : c.memsize ≤ max 1 (2 * records.length) :=
    foldl_max_le hcount _ (Nat.le_max_left _ _)
  have hrecords : 8 * records.length ≤ (recordsBytes records).length := by
    rw [recordsBytes, List.length_flatMap]
    clear h hcount hmemsize hfits
    induction records with
    | nil => exact Nat.le_refl _
    | cons e records ih =>
      rw [List.map_cons, List.sum_cons, length_recordBytes, List.length_cons]
      omega
  have hpos := h.pos
  have hentries := h.numentries
  omega

/-- **The end of the file** is written. -/
theorem Added.finish {P : StreamOps} (hP : P.Sound) (h : Added c records) :
    ((cdbMakeFinish P c).1 = true → c.pos + 16 * records.length < 2 ^ 32 ∧
        (cdbMakeFinish P c).2.fp.bytes = headerAt records c.pos (List.range 256) ++
          (recordsBytes records ++ (List.range 256).flatMap (tableBytes records))) ∧
      (P.Works → c.pos + 16 * records.length < 2 ^ 32 → (cdbMakeFinish P c).1 = true) := by
  obtain ⟨hwritten, hworks⟩ := h.toWritten.writeTables hP c.split c.count
    (fun i => by rw [h.count, tableLen]) h.hashTable [] (List.range 256)
  rw [sum_tableLen] at hworks
  rw [cdbMakeFinish]
  by_cases hroom : c.memsize + c.numentries > (2 ^ 32 - 1) / 8
  · rw [if_pos hroom]
    exact ⟨nofun, fun _ hfits => absurd hroom (h.memsize_le hfits)⟩
  rw [if_neg hroom]
  generalize writeTables P c.split c.count c [] (List.range 256) = r at hwritten hworks
  obtain ⟨r, final⟩ := r
  dsimp only at hwritten hworks ⊢
  constructor
  · intro hok
    have hfirst := of_andThen hok
    rw [andThen_of_true hfirst] at hok ⊢
    obtain ⟨hbody, rfl⟩ := hwritten hfirst
    have hlt := hbody.lt
    have hpos := hbody.pos
    rw [List.length_append, length_flatMap_tableBytes, sum_tableLen, ← Nat.add_assoc, ← h.pos]
      at hpos
    have hne : r.2.fp.pos ≠ 0 := by
      rw [hbody.holds.1]
      omega
    refine ⟨hpos ▸ hlt, ?_⟩
    rw [writeHeader_sound hP hne hok, List.nil_append]
    exact hbody.holds.header (by rw [length_headerAt, List.length_range])
  · intro hw hfits
    rw [andThen_of_true (hworks hw hfits)]
    exact writeHeader_of_works hw _ _

theorem range_split {i n : ℕ} (h : i < n) :
    ∃ rest, List.range n = List.range i ++ i :: rest := by
  refine ⟨(List.range n).drop (i + 1), ?_⟩
  have hlt : i < (List.range n).length := by rwa [List.length_range]
  have htake : (List.range n).take i = List.range i := by
    rw [List.take_range, Nat.min_eq_left (Nat.le_of_lt h)]
  have hdrop := List.drop_eq_getElem_cons hlt
  rw [List.getElem_range] at hdrop
  rw [← hdrop, ← htake, List.take_append_drop]

theorem headerAt_append (records : List (Bytes × Bytes)) (pos : ℕ) (before after : List ℕ) :
    headerAt records pos (before ++ after) = headerAt records pos before ++
      headerAt records (pos + (before.map fun j => 8 * tableLen records j).sum) after := by
  induction before generalizing pos with
  | nil => simp [headerAt]
  | cons i before ih =>
    rw [List.cons_append, headerAt, ih, headerAt, List.map_cons, List.sum_cons, ← Nat.add_assoc]
    simp only [List.append_assoc]

/-- **The file** that is written. -/
theorem layout_of_bytes
    (hsmall : 2048 + (recordsBytes records).length + 16 * records.length < 2 ^ 32)
    (hpos : c.pos = 2048 + (recordsBytes records).length) {file : Bytes}
    (hfile : file = headerAt records c.pos (List.range 256) ++
      (recordsBytes records ++ (List.range 256).flatMap (tableBytes records))) :
    Layout file records := by
  have hheader : (headerAt records c.pos (List.range 256)).length = 2048 := by
    rw [length_headerAt, List.length_range]
  have hbody := at_append_right (headerAt records c.pos (List.range 256))
    (recordsBytes records ++ (List.range 256).flatMap (tableBytes records))
  rw [← hfile, hheader, at_append, ← hpos] at hbody
  have hlength : file.length = 2048 + (recordsBytes records).length + 16 * records.length := by
    rw [hfile, List.length_append, List.length_append, hheader, length_flatMap_tableBytes,
      sum_tableLen, Nat.add_assoc]
  refine ⟨fun i hi => ?_, hbody.1, fun i hi u hu => ?_, hlength, hlength ▸ hsmall⟩
  · obtain ⟨rest, hrange⟩ := range_split hi
    rw [hfile, hrange, headerAt_append]
    have hat := (at_append_right (headerAt records c.pos (List.range i))
      (headerAt records (tablePos records i) (i :: rest))).left
        (recordsBytes records ++ (List.range i ++ i :: rest).flatMap (tableBytes records))
    rw [length_headerAt, List.length_range] at hat
    rw [tablePos, hpos] at hat ⊢
    exact hat.first (by rw [headerAt]; exact List.prefix_append _ _)
  · have htable : At ((List.range 256).flatMap (tableBytes records))
        ((List.range i).map fun j => 8 * tableLen records j).sum (tableBytes records i) := by
      obtain ⟨rest, hrange⟩ := range_split hi
      rw [hrange, ← length_flatMap_tableBytes]
      exact at_flatMap _ _ _ _
    have hslot : At (tableBytes records i) (8 * u) (slotBytes (table records i u)) := by
      obtain ⟨rest, hrange⟩ := range_split hu
      have hat := at_flatMap slotBytes ((List.range u).map (table records i)) (table records i u)
        (rest.map (table records i))
      rwa [length_flatMap_slotBytes, List.length_map, List.length_range, ← List.map_cons,
        ← List.map_append, ← hrange] at hat
    have hat := (hbody.2.trans htable).trans hslot
    rwa [hpos] at hat

end Finish

/-- All of the file fits into 32 bits. -/
def Fits (records : List (Bytes × Bytes)) : Prop :=
  2048 + (recordsBytes records).length + 16 * records.length < 2 ^ 32

instance (records : List (Bytes × Bytes)) : Decidable (Fits records) :=
  inferInstanceAs (Decidable (_ < _))

section Database

variable {P : StreamOps} {records : List (Bytes × Bytes)} {file : Bytes}

/-- **A file that was written** fits and has the layout. -/
theorem layout_of_created (hP : P.Sound) (h : file ∈ createDatabase P records) :
    Fits records ∧ Layout file records := by
  rw [createDatabase] at h
  dsimp only at h
  split at h
  · cases h
  rename_i hstart
  split at h
  · rename_i hok
    obtain ⟨hadded, -⟩ := (added_start hP hstart).addAll hP records
    have hall := of_andThen hok
    rw [andThen_of_true hall] at h hok
    have hlast := hadded hall
    rw [List.nil_append] at hlast
    obtain ⟨hroom, hbytes⟩ := (hlast.finish hP).1 hok
    rw [hlast.pos] at hroom
    rw [← Option.some.inj h]
    exact ⟨hroom, layout_of_bytes hroom hlast.pos hbytes⟩
  · cases h

/-- A file that fits is written, where the stream works. -/
theorem isSome_createDatabase (hP : P.Works) (hfits : Fits records) :
    (createDatabase P records).isSome = true := by
  have hstart : (cdbMakeStart P ⟨[], 0⟩).1 ≠ -1 := by
    rw [cdbMakeStart_of_works hP]
    decide
  obtain ⟨hadded, hworks⟩ := (added_start hP.sound hstart).addAll hP.sound records
  rw [List.nil_append] at hadded hworks
  have hall := hworks hP (Nat.lt_of_le_of_lt (Nat.le_add_right _ _) hfits)
  have hlast := hadded hall
  have hok : (cdbMakeFinish P (addAll P (cdbMakeStart P ⟨[], 0⟩).2 records).2).1 = true := by
    refine (hlast.finish hP.sound).2 hP ?_
    rw [hlast.pos]
    exact hfits
  rw [createDatabase]
  dsimp only
  rw [if_neg hstart, andThen_of_true hall, if_pos hok]
  rfl

theorem layout_of_mem (h : file ∈ cdbMake records) : Layout file records :=
  (layout_of_created StreamOps.plain_works.sound h).2

/-- **Writing a database**, on a stream whose operations may fail: where no call returns -1, all of
the file fits into 32 bits and it has the layout; and a file that fits is written if nothing
fails. -/
theorem cdbMakeRight (hP : P.Sound) (records : List (Bytes × Bytes)) :
    (∀ file ∈ createDatabase P records, Fits records ∧ Layout file records) ∧
      (P.Works → Fits records → (createDatabase P records).isSome = true) :=
  ⟨fun _ => layout_of_created hP, isSome_createDatabase⟩

end Database

/-- On a full disk there is nothing to be right about, and otherwise there is a file. -/
theorem cdbMakeRight_quota :
    (∀ file ∈ createDatabase (.quota 5000) [([97], [1])],
        Fits [([97], [1])] ∧ Layout file [([97], [1])]) ∧
      createDatabase (.quota 2050) [([97], [1])] = none :=
  ⟨(cdbMakeRight (StreamOps.quota_sound 5000) [([97], [1])]).1, by decide⟩

end PhpWasm.Dba
