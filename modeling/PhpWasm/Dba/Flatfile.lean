import PhpWasm.Base.Extent
import PhpWasm.Dba.Requests

/-!
# Flat files

A flat file has keys and values in turn, each behind a line with its length.  What is deleted stays
in the file: the first byte of its key is overwritten with a zero.

* `findEntry` is the loop that looks for a key, and `flatfileFindkey`, `flatfileDelete`,
  `flatfileFirstkey` and `flatfileNextkey` are what is made of it.
* `flatfileHandler` is the handler.
* `findEntry_found` and `findEntry_none` say what the loop does on a file with some entries.
-/

set_option autoImplicit false

namespace PhpWasm.Dba

open Extent (At at_append)

/-! ## The stream -/

/-- `php_stream_gets`: up to the end of a line, or of the buffer. -/
def PhpStream.gets (s : PhpStream) (maxlen : ℕ) : Option (Bytes × PhpStream) :=
  let rest := (s.bytes.drop s.pos).take (maxlen - 1)
  if rest = [] then none
  else
    let line := rest.take ((rest.takeWhile (· ≠ 10)).length + 1)
    some (line, { s with pos := s.pos + line.length })

/-- `php_stream_read` -/
def PhpStream.read (s : PhpStream) (num : ℕ) : Bytes × PhpStream :=
  let buf := (s.bytes.drop s.pos).take num
  (buf, { s with pos := s.pos + buf.length })

/-- `php_stream_seek` with `SEEK_END` -/
def PhpStream.seekEnd (s : PhpStream) : PhpStream := { s with pos := s.bytes.length }

/-! ## Lengths -/

def isSpace (b : UInt8) : Bool := b = 32 ∨ 9 ≤ b ∧ b ≤ 13

def isDigit (b : UInt8) : Bool := 48 ≤ b ∧ b ≤ 57

/-- The value of the digits in front. -/
def digitsValue (text : Bytes) : ℕ :=
  (text.takeWhile isDigit).foldl (fun n b => 10 * n + (b.toNat - 48)) 0

/-- `atoi`, before the value is cut down to an `int`. -/
def atoi (text : Bytes) : ℤ :=
  match text.dropWhile isSpace with
  | 45 :: digits => -(digitsValue digits)
  | 43 :: digits => digitsValue digits
  | digits => digitsValue digits

/-- `num = atoi(buf)`, for a `size_t`. -/
def sizeOfLine (line : Bytes) : ℕ := (atoi line % 2 ^ 32).toNat

/-- `"%zu\n"` -/
def sizeLine (n : ℕ) : Bytes := (Nat.toDigits 10 n).map (fun c => UInt8.ofNat c.toNat) ++ [10]

/-- A line with a length, with the stream behind it.  There is none at the end of the file, and
where `FLATFILE_GROW_BUF` gives up. -/
def PhpStream.getSize (s : PhpStream) : Option (Bytes × ℕ) × PhpStream :=
  match s.gets 15 with
  | none => (none, s)
  | some (line, s) =>
    let num := sizeOfLine line
    if 2 ^ 32 - 1 - 1024 < num then (none, s) else (some (line, num), s)

/-! ## `flatfile.c` -/

/-- `flatfile` -/
structure Flatfile where
  fp : PhpStream
  currentFlatFilePos : ℕ
  nextkey : Option Bytes

/-- The loop over the entries, up to a key that is wanted; it may look at the line before the key,
too.  What is found is the key, and where it begins.  The fuel is for the entries. -/
def findEntry (wanted : Bytes → Bytes → Bool) : ℕ → PhpStream → Option (ℕ × Bytes) × PhpStream
  | 0, s => (none, s)
  | fuel + 1, s =>
    match s.getSize with
    | (none, s) => (none, s)
    | (some (line, num), s) =>
      let (buf, next) := s.read num
      if wanted line buf then (some (s.pos, buf), next)
      else
        match next.getSize with
        | (none, s) => (none, s)
        | (some (_, num), s) => findEntry wanted fuel (s.read num).2

/-- The loop, with enough fuel for the file. -/
def PhpStream.find (s : PhpStream) (wanted : Bytes → Bytes → Bool) :
    Option (ℕ × Bytes) × PhpStream :=
  findEntry wanted (s.bytes.length + 1) s

/-- `size == num && !memcmp(buf, key, size)` -/
def isKey (key : Bytes) (_line buf : Bytes) : Bool := buf = key

/-- `*(buf) != 0`: where the key is empty, the line is still in the buffer. -/
def isNotDeleted (line buf : Bytes) : Bool := (buf ++ line).headD 0 ≠ 0

/-- `flatfile_findkey` -/
def flatfileFindkey (fp : PhpStream) (key : Bytes) : Bool × PhpStream :=
  let r := (fp.seek 0).find (isKey key)
  (r.1.isSome, r.2)

/-- `flatfile_fetch` -/
def flatfileFetch (fp : PhpStream) (key : Bytes) : Option Bytes × PhpStream :=
  let r := flatfileFindkey fp key
  if r.1 then
    match r.2.gets 16 with
    | none => (none, r.2)
    | some (line, fp) =>
      let (value, fp) := fp.read (sizeOfLine line)
      (some value, fp)
  else (none, r.2)

section

variable (P : StreamOps)

/-- `flatfile_delete`; what becomes of the byte is not looked at. -/
def flatfileDelete (fp : PhpStream) (key : Bytes) : Bool × PhpStream :=
  match (fp.seek 0).find (isKey key) with
  | (none, fp) => (false, fp)
  | (some (pos, _), fp) => (true, (P.write (fp.seek (pos % 2 ^ 32)) [0]).2.seekEnd)

/-- A key or a value is written, and what is written of it has to be all.  What becomes of the line
with its length is not looked at. -/
def writeField (fp : PhpStream) (field : Bytes) : Bool × PhpStream :=
  let r := P.write (P.write fp (sizeLine field.length)).2 field
  (¬ r.1 < field.length, r.2)

/-- An entry is written. -/
def writeEntry (fp : PhpStream) (key value : Bytes) : ℤ × PhpStream :=
  let r := writeField P fp key
  if r.1 then
    let r := writeField P r.2 value
    (if r.1 then 0 else -1, r.2)
  else (-1, r.2)

/-- `flatfile_store`; `mode` is `FLATFILE_INSERT` or `FLATFILE_REPLACE`. -/
def flatfileStore (fp : PhpStream) (key value : Bytes) (mode : ℕ) : ℤ × PhpStream :=
  if mode = 1 then
    let r := flatfileFindkey fp key
    if r.1 then (1, r.2) else writeEntry P r.2.seekEnd key value
  else writeEntry P (flatfileDelete P fp key).2 key value

end

/-- What `flatfile_firstkey` and `flatfile_nextkey` make of a key that was found. -/
def Flatfile.current (dba : Flatfile) : Option (ℕ × Bytes) × PhpStream → Option Bytes × Flatfile
  | (none, fp) => (none, { dba with fp := fp })
  | (some (_, key), fp) => (some key, { dba with fp := fp, currentFlatFilePos := fp.pos % 2 ^ 32 })

/-- `flatfile_firstkey` -/
def flatfileFirstkey (dba : Flatfile) : Option Bytes × Flatfile :=
  dba.current ((dba.fp.seek 0).find isNotDeleted)

/-- `flatfile_nextkey`: its loop reads the value of the current entry before it comes to a key. -/
def flatfileNextkey (dba : Flatfile) : Option Bytes × Flatfile :=
  match (dba.fp.seek dba.currentFlatFilePos).getSize with
  | (none, fp) => (none, { dba with fp := fp })
  | (some (_, num), fp) => dba.current ((fp.read num).2.find isNotDeleted)

/-! ## `dba_flatfile.c` -/

/-- `DBA_OPEN_FUNC(flatfile)` -/
def dbaOpenFlatfile (fp : PhpStream) : Flatfile := ⟨fp, 0, none⟩

/-- `DBA_FETCH_FUNC(flatfile)` -/
def dbaFetchFlatfile (dba : Flatfile) (key : Bytes) (_skip : ℕ) : Option Bytes × Flatfile :=
  let r := flatfileFetch dba.fp key
  (r.1, { dba with fp := r.2 })

/-- `DBA_UPDATE_FUNC(flatfile)` -/
def dbaUpdateFlatfile (P : StreamOps) (dba : Flatfile) (key val : Bytes) (mode : ℕ) :
    Bool × Flatfile :=
  let r := flatfileStore P dba.fp key val (if mode = 1 then 1 else 0)
  (r.1 = 0, { dba with fp := r.2 })

/-- `DBA_EXISTS_FUNC(flatfile)` -/
def dbaExistsFlatfile (dba : Flatfile) (key : Bytes) : Bool × Flatfile :=
  let r := flatfileFetch dba.fp key
  (r.1.isSome, { dba with fp := r.2 })

/-- `DBA_DELETE_FUNC(flatfile)` -/
def dbaDeleteFlatfile (P : StreamOps) (dba : Flatfile) (key : Bytes) : Bool × Flatfile :=
  let r := flatfileDelete P dba.fp key
  (r.1, { dba with fp := r.2 })

/-- `DBA_FIRSTKEY_FUNC(flatfile)` -/
def dbaFirstkeyFlatfile (dba : Flatfile) : Option Bytes × Flatfile :=
  let r := flatfileFirstkey dba
  (r.1, { r.2 with nextkey := r.1 })

/-- `DBA_NEXTKEY_FUNC(flatfile)` -/
def dbaNextkeyFlatfile (dba : Flatfile) : Option Bytes × Flatfile :=
  if dba.nextkey = none then (none, dba)
  else
    let r := flatfileNextkey dba
    (r.1, { r.2 with nextkey := r.1 })

/-- `DBA_OPTIMIZE_FUNC(flatfile)` -/
def dbaOptimizeFlatfile (dba : Flatfile) : Bool × Flatfile := (true, dba)

/-- `DBA_SYNC_FUNC(flatfile)` -/
def dbaSyncFlatfile (dba : Flatfile) : Bool × Flatfile := (true, dba)

/-- `DBA_HND(flatfile, ..)` -/
def flatfileHandler (P : StreamOps) : DbaHandler Flatfile where
  name := "flatfile"
  fetch := dbaFetchFlatfile
  update := dbaUpdateFlatfile P
  existsKey := dbaExistsFlatfile
  delete := dbaDeleteFlatfile P
  firstkey := dbaFirstkeyFlatfile
  nextkey := dbaNextkeyFlatfile
  optimize := dbaOptimizeFlatfile
  sync := dbaSyncFlatfile

/-! ## Entries -/

/-- A key or a value, as it is written. -/
def fieldBytes (field : Bytes) : Bytes := sizeLine field.length ++ field

/-- An entry, as it is written. -/
def entryBytes (e : Bytes × Bytes) : Bytes := fieldBytes e.1 ++ fieldBytes e.2

/-- The entries, one behind the other. -/
def entriesBytes (entries : List (Bytes × Bytes)) : Bytes := entries.flatMap entryBytes

/-- An `int` can have the lengths. -/
def Short (e : Bytes × Bytes) : Prop := e.1.length < 2 ^ 31 ∧ e.2.length < 2 ^ 31

/-! ### Lines with a length -/

/-- The digits of a number, as bytes. -/
def digitBytes (n : ℕ) : Bytes := (Nat.toDigits 10 n).map fun c => UInt8.ofNat c.toNat

theorem sizeLine_eq (n : ℕ) : sizeLine n = digitBytes n ++ [10] := rfl

theorem toNat_digit {c : Char} (h : c.isDigit = true) :
    (UInt8.ofNat c.toNat).toNat = c.toNat ∧ 48 ≤ c.toNat ∧ c.toNat ≤ 57 := by
  have hrange : 48 ≤ c.toNat ∧ c.toNat ≤ 57 := Char.isDigit_iff_toNat.1 h
  refine ⟨?_, hrange⟩
  rw [UInt8.toNat_ofNat', Nat.mod_eq_of_lt (by omega)]

theorem isDigit_of_mem {n : ℕ} : ∀ b ∈ digitBytes n, isDigit b = true := by
  intro b hb
  obtain ⟨c, hc, rfl⟩ := List.mem_map.1 hb
  obtain ⟨htoNat, hrange⟩ := toNat_digit (Nat.isDigit_of_mem_toDigits (by decide) (by decide) hc)
  rw [isDigit, decide_eq_true_iff, UInt8.le_iff_toNat_le, UInt8.le_iff_toNat_le, htoNat]
  exact hrange

/-- The digits have the value. -/
theorem foldl_digitBytes (n : ℕ) :
    (digitBytes n).foldl (fun n b => 10 * n + (b.toNat - 48)) 0 = n := by
  have hfold : ∀ (digits : List Char) (m : ℕ), (∀ c ∈ digits, c.isDigit = true) →
      (digits.map fun c => UInt8.ofNat c.toNat).foldl (fun n b => 10 * n + (b.toNat - 48)) m =
        Nat.ofDigitChars 10 digits m := by
    intro digits
    induction digits with
    | nil => exact fun _ _ => rfl
    | cons c digits ih =>
      intro m hdigits
      rw [List.forall_mem_cons] at hdigits
      rw [List.map_cons, List.foldl_cons, ih _ hdigits.2, (toNat_digit hdigits.1).1,
        Nat.ofDigitChars_cons]
      rfl
  rw [digitBytes, hfold _ _ fun c => Nat.isDigit_of_mem_toDigits (by decide) (by decide),
    Nat.ofDigitChars_ten_toDigits]

theorem not_isDigit_newline : isDigit 10 = false := by decide

theorem digitsValue_sizeLine (n : ℕ) : digitsValue (sizeLine n) = n := by
  rw [digitsValue, sizeLine_eq, List.takeWhile_append_of_pos isDigit_of_mem,
    List.takeWhile_cons_of_neg (by simp [not_isDigit_newline]), List.append_nil, foldl_digitBytes]

/-- The line of a length begins with a digit. -/
theorem exists_head (n : ℕ) : ∃ b rest, sizeLine n = b :: rest ∧ isDigit b = true := by
  have hne : digitBytes n ≠ [] := List.map_eq_nil_iff.not.2 Nat.toDigits_ne_nil
  obtain ⟨b, rest, hdigits⟩ := List.exists_cons_of_ne_nil hne
  refine ⟨b, rest ++ [10], by rw [sizeLine_eq, hdigits, List.cons_append], ?_⟩
  exact isDigit_of_mem b (hdigits ▸ List.mem_cons_self)

/-- **A length is read back.** -/
theorem sizeOfLine_sizeLine {n : ℕ} (h : n < 2 ^ 32) : sizeOfLine (sizeLine n) = n := by
  have hvalue := digitsValue_sizeLine n
  obtain ⟨b, rest, hline, hdigit⟩ := exists_head n
  rw [isDigit, decide_eq_true_iff, UInt8.le_iff_toNat_le] at hdigit
  have hspace : ¬ isSpace b = true := by
    rw [isSpace, decide_eq_true_iff, ← UInt8.toNat_inj, UInt8.le_iff_toNat_le,
      UInt8.le_iff_toNat_le]
    rintro (heq | ⟨-, hle⟩)
    · rw [heq] at hdigit
      exact absurd hdigit.1 (by decide)
    · exact absurd (Nat.le_trans hdigit.1 hle) (by decide)
  have hatoi : atoi (sizeLine n) = n := by
    rw [hline] at hvalue
    rw [atoi, hline, List.dropWhile_cons_of_neg hspace]
    split
    · rename_i heq
      rw [(List.cons.inj heq).1] at hdigit
      exact absurd hdigit.1 (by decide)
    · rename_i heq
      rw [(List.cons.inj heq).1] at hdigit
      exact absurd hdigit.1 (by decide)
    · rw [hvalue]
  rw [sizeOfLine, hatoi]
  omega

theorem length_sizeLine {n : ℕ} (h : n < 2 ^ 32) : (sizeLine n).length ≤ 11 := by
  have hdigits : (Nat.toDigits 10 n).length ≤ 10 :=
    (Nat.length_toDigits_le_iff (by decide) (by decide)).2 (Nat.lt_trans h (by decide))
  rw [sizeLine, List.length_append, List.length_map]
  exact Nat.succ_le_succ hdigits

/-! ### Reading entries -/

section Reading

variable {file : Bytes} {pos n maxlen : ℕ} {field : Bytes}

/-- A line with a length is read whole. -/
theorem gets_sizeLine (hat : At file pos (sizeLine n)) (hn : n < 2 ^ 32) (hmax : 12 ≤ maxlen) :
    PhpStream.gets ⟨file, pos⟩ maxlen = some (sizeLine n, ⟨file, pos + (sizeLine n).length⟩) := by
  obtain ⟨rest, hrest⟩ := hat
  have hlength := length_sizeLine hn
  have hsplit : (file.drop pos).take (maxlen - 1) =
      digitBytes n ++ 10 :: rest.take (maxlen - 1 - (sizeLine n).length) := by
    rw [← hrest, List.take_append, List.take_of_length_le (by omega), sizeLine_eq,
      List.append_assoc]
    rfl
  have hdigits : ∀ b ∈ digitBytes n, decide (b ≠ 10) = true := fun b hb => by
    rw [decide_eq_true_iff]
    rintro rfl
    have := isDigit_of_mem _ hb
    rw [not_isDigit_newline] at this
    cases this
  have hnil : ¬ digitBytes n ++ 10 :: rest.take (maxlen - 1 - (sizeLine n).length) = [] := by simp
  have hline : (digitBytes n ++ 10 :: rest.take (maxlen - 1 - (sizeLine n).length)).take
      ((digitBytes n).length + 1) = sizeLine n := by
    rw [List.take_length_add_append]
    rfl
  rw [PhpStream.gets]
  dsimp only
  rw [hsplit, if_neg hnil, List.takeWhile_append_of_pos hdigits,
    List.takeWhile_cons_of_neg (by simp), List.append_nil, hline]

theorem getSize_sizeLine (hat : At file pos (sizeLine n)) (hn : n < 2 ^ 31) :
    PhpStream.getSize ⟨file, pos⟩ =
      (some (sizeLine n, n), ⟨file, pos + (sizeLine n).length⟩) := by
  have hsize := sizeOfLine_sizeLine (n := n) (by omega)
  have hnot : ¬ 2 ^ 32 - 1 - 1024 < n := by omega
  rw [PhpStream.getSize, gets_sizeLine hat (by omega) (by decide)]
  dsimp only
  rw [hsize, if_neg hnot]

/-- There is no length at the end of the file. -/
theorem getSize_end (hpos : file.length ≤ pos) :
    PhpStream.getSize ⟨file, pos⟩ = (none, ⟨file, pos⟩) := by
  rw [PhpStream.getSize, PhpStream.gets]
  dsimp only
  rw [List.drop_eq_nil_of_le hpos, List.take_nil, if_pos rfl]

theorem read_field (hat : At file pos field) :
    PhpStream.read ⟨file, pos⟩ field.length = (field, ⟨file, pos + field.length⟩) := by
  rw [PhpStream.read]
  dsimp only
  rw [hat.take_eq]

variable {wanted : Bytes → Bytes → Bool} {e : Bytes × Bytes}
  {entries before after : List (Bytes × Bytes)}

/-- **One entry** in the loop. -/
theorem findEntry_cons (hat : At file pos (entryBytes e)) (hshort : Short e) (fuel : ℕ) :
    findEntry wanted (fuel + 1) ⟨file, pos⟩ =
      if wanted (sizeLine e.1.length) e.1 then
        (some (pos + (sizeLine e.1.length).length, e.1), ⟨file, pos + (fieldBytes e.1).length⟩)
      else findEntry wanted fuel ⟨file, pos + (entryBytes e).length⟩ := by
  rw [entryBytes, fieldBytes, fieldBytes, at_append, at_append, at_append] at hat
  obtain ⟨⟨hksize, hkey⟩, hvsize, hvalue⟩ := hat
  rw [List.length_append] at hvsize hvalue
  rw [← Nat.add_assoc] at hvsize hvalue
  have hkend : pos + (fieldBytes e.1).length = pos + (sizeLine e.1.length).length + e.1.length := by
    rw [fieldBytes, List.length_append, Nat.add_assoc]
  have hend : pos + (entryBytes e).length = pos + (sizeLine e.1.length).length + e.1.length +
      (sizeLine e.2.length).length + e.2.length := by
    rw [entryBytes, fieldBytes, fieldBytes, List.length_append, List.length_append,
      List.length_append]
    omega
  rw [findEntry, getSize_sizeLine hksize hshort.1]
  dsimp only
  rw [read_field hkey, hkend, hend]
  dsimp only
  split
  · rfl
  · rw [getSize_sizeLine hvsize hshort.2]
    dsimp only
    rw [read_field hvalue]

/-- The loop at the end of the file. -/
theorem findEntry_end (fuel : ℕ) :
    findEntry wanted fuel ⟨file, file.length⟩ = (none, ⟨file, file.length⟩) := by
  rcases fuel with _ | fuel
  · rfl
  · rw [findEntry, getSize_end (Nat.le_refl _)]

@[simp] theorem entriesBytes_nil : entriesBytes [] = [] := rfl

@[simp] theorem entriesBytes_cons (e : Bytes × Bytes) (entries : List (Bytes × Bytes)) :
    entriesBytes (e :: entries) = entryBytes e ++ entriesBytes entries := List.flatMap_cons

theorem entriesBytes_append (before after : List (Bytes × Bytes)) :
    entriesBytes (before ++ after) = entriesBytes before ++ entriesBytes after :=
  List.flatMap_append

/-- **A key that is wanted** is found behind entries that are not. -/
theorem findEntry_found (wanted : Bytes → Bytes → Bool) (hat : At file pos (entriesBytes (before ++ e :: after)))
    (hshort : ∀ x ∈ before ++ e :: after, Short x)
    (hbefore : ∀ x ∈ before, wanted (sizeLine x.1.length) x.1 = false)
    (he : wanted (sizeLine e.1.length) e.1 = true) {fuel : ℕ} (hfuel : before.length < fuel) :
    findEntry wanted fuel ⟨file, pos⟩ =
      (some (pos + (entriesBytes before).length + (sizeLine e.1.length).length, e.1),
        ⟨file, pos + (entriesBytes before).length + (fieldBytes e.1).length⟩) := by
  induction before generalizing pos fuel with
  | nil =>
    obtain ⟨fuel, rfl⟩ := Nat.exists_eq_succ_of_ne_zero (Nat.ne_of_gt hfuel)
    rw [List.nil_append, entriesBytes_cons, at_append] at hat
    rw [findEntry_cons hat.1 (hshort e List.mem_cons_self), if_pos he]
    rfl
  | cons x before ih =>
    obtain ⟨fuel, rfl⟩ := Nat.exists_eq_succ_of_ne_zero (Nat.ne_of_gt (Nat.zero_lt_of_lt hfuel))
    rw [List.forall_mem_cons] at hbefore
    rw [List.cons_append, entriesBytes_cons, at_append] at hat
    rw [List.cons_append, List.forall_mem_cons] at hshort
    have hx : ¬ wanted (sizeLine x.1.length) x.1 = true := by simp [hbefore.1]
    rw [findEntry_cons hat.1 hshort.1, if_neg hx,
      ih hat.2 hshort.2 hbefore.2 (Nat.lt_of_succ_lt_succ hfuel), entriesBytes_cons,
      List.length_append, Nat.add_assoc pos]

/-- **Where no key is wanted**, the loop comes to the end of the file. -/
theorem findEntry_none (wanted : Bytes → Bytes → Bool) (hat : At file pos (entriesBytes entries))
    (hend : pos + (entriesBytes entries).length = file.length)
    (hshort : ∀ x ∈ entries, Short x)
    (hnone : ∀ x ∈ entries, wanted (sizeLine x.1.length) x.1 = false) {fuel : ℕ}
    (hfuel : entries.length ≤ fuel) :
    findEntry wanted fuel ⟨file, pos⟩ = (none, ⟨file, file.length⟩) := by
  induction entries generalizing pos fuel with
  | nil =>
    obtain rfl : pos = file.length := hend
    exact findEntry_end fuel
  | cons x entries ih =>
    obtain ⟨fuel, rfl⟩ := Nat.exists_eq_succ_of_ne_zero (Nat.ne_of_gt (Nat.zero_lt_of_lt hfuel))
    rw [List.forall_mem_cons] at hnone hshort
    rw [entriesBytes_cons, at_append] at hat
    rw [entriesBytes_cons, List.length_append, ← Nat.add_assoc] at hend
    have hx : ¬ wanted (sizeLine x.1.length) x.1 = true := by simp [hnone.1]
    rw [findEntry_cons hat.1 hshort.1, if_neg hx]
    exact ih hat.2 hend hshort.2 hnone.2 (Nat.le_of_succ_le_succ hfuel)

end Reading

/-! ### Writing an entry -/

/-- Writing at the end. -/
theorem write_end (file buf : Bytes) :
    PhpStream.write ⟨file, file.length⟩ buf = ⟨file ++ buf, (file ++ buf).length⟩ := by
  rw [PhpStream.write]
  by_cases hbuf : buf = []
  · rw [if_pos hbuf, hbuf, List.append_nil]
  · rw [if_neg hbuf]
    dsimp only
    rw [Nat.sub_self, List.replicate_zero, List.append_nil, List.take_length,
      List.drop_eq_nil_of_le (Nat.le_add_right _ _), List.append_nil, List.length_append]

theorem writeEntry_end {P : StreamOps} (hP : P.Works) (file key value : Bytes) :
    writeEntry P ⟨file, file.length⟩ key value =
      (0, ⟨file ++ entryBytes (key, value), (file ++ entryBytes (key, value)).length⟩) := by
  have hfield : ∀ file field : Bytes, writeField P ⟨file, file.length⟩ field =
      (true, ⟨file ++ fieldBytes field, (file ++ fieldBytes field).length⟩) := by
    intro file field
    rw [writeField, hP.write, hP.write, write_end, write_end, fieldBytes]
    simp only [Nat.lt_irrefl, not_false_eq_true, decide_true, List.append_assoc]
  rw [writeEntry, hfield]
  dsimp only
  rw [if_pos rfl, hfield, if_pos rfl, entryBytes]
  simp only [List.append_assoc]

/-- Writing one byte. -/
theorem write_byte (before after : Bytes) (old new : UInt8) :
    (PhpStream.write ⟨before ++ old :: after, before.length⟩ [new]).bytes =
      before ++ new :: after := by
  rw [PhpStream.write, if_neg (List.cons_ne_nil _ _)]
  dsimp only
  rw [show before.length - (before ++ old :: after).length = 0 by simp, List.replicate_zero,
    List.append_nil, List.take_left, List.drop_append]
  simp

end PhpWasm.Dba
