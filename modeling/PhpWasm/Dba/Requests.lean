import PhpWasm.Base.Run
import Mathlib.Algebra.BigOperators.Ring.List

/-!
# The functions of the dba extension

`dba.c` has the functions a script calls, and hands them on to a handler, which has the file.

* `PhpStream` is the stream of a handler on its file, and `StreamOps` how the operations on it end.
* `Request` is a call, and `Answer` what it returns.
* `dbaHandle` is what the functions do with a handler.
-/

set_option autoImplicit false

namespace PhpWasm.Dba

abbrev Bytes := List UInt8

instance decidableMemBytes (x : Bytes) (l : List Bytes) : Decidable (x ∈ l) :=
  List.instDecidableMemOfLawfulBEq x l

/-! ## The stream -/

/-- A `php_stream` on a file. -/
structure PhpStream where
  bytes : Bytes
  pos : ℕ

/-- `php_stream_write`: what is skipped is filled with zeros. -/
def PhpStream.write (s : PhpStream) (buf : Bytes) : PhpStream :=
  if buf = [] then s
  else
    let bytes := s.bytes ++ List.replicate (s.pos - s.bytes.length) 0
    ⟨bytes.take s.pos ++ buf ++ bytes.drop (s.pos + buf.length), s.pos + buf.length⟩

/-- `php_stream_seek`, from the start. -/
def PhpStream.seek (s : PhpStream) (pos : ℕ) : PhpStream := { s with pos := pos }

/-- How the operations on a stream end, and what they leave. -/
structure StreamOps where
  /-- `php_stream_write`: the number of bytes that were written. -/
  write : PhpStream → Bytes → ℕ × PhpStream
  /-- `php_stream_seek`: whether it has worked. -/
  seek : PhpStream → ℕ → Bool × PhpStream
  /-- `php_stream_flush`: whether it has worked. -/
  flush : PhpStream → Bool × PhpStream

namespace StreamOps

/-- What is reported as done was done, and a stream that could not seek is where it was. -/
structure Sound (P : StreamOps) : Prop where
  write : ∀ s buf, (P.write s buf).1 = buf.length → (P.write s buf).2 = s.write buf
  seek : ∀ s pos, P.seek s pos = (true, s.seek pos) ∨ P.seek s pos = (false, s)
  flush : ∀ s, (P.flush s).1 = true → (P.flush s).2 = s

/-- Every operation works. -/
structure Works (P : StreamOps) : Prop where
  write : ∀ s buf, P.write s buf = (buf.length, s.write buf)
  seek : ∀ s pos, P.seek s pos = (true, s.seek pos)
  flush : ∀ s, P.flush s = (true, s)

theorem Works.sound {P : StreamOps} (h : P.Works) : P.Sound where
  write s buf _ := by rw [h.write]
  seek s pos := .inl (h.seek s pos)
  flush s _ := by rw [h.flush]

/-- A file that nothing fails on. -/
def plain : StreamOps where
  write s buf := (buf.length, s.write buf)
  seek s pos := (true, s.seek pos)
  flush s := (true, s)

theorem plain_works : plain.Works := ⟨fun _ _ => rfl, fun _ _ => rfl, fun _ => rfl⟩

/-- A file on a disk with room for `n` bytes: what goes beyond them is not written. -/
def quota (n : ℕ) : StreamOps where
  write s buf := (min buf.length (n - s.pos), s.write (buf.take (n - s.pos)))
  seek s pos := (true, s.seek pos)
  flush s := (true, s)

theorem quota_sound (n : ℕ) : (quota n).Sound where
  write s buf h := by
    have hle : buf.length ≤ n - s.pos := by
      rw [← h]
      exact Nat.min_le_right _ _
    exact congrArg s.write (List.take_of_length_le hle)
  seek _ _ := .inl rfl
  flush _ _ := rfl

end StreamOps

/-! ## Requests -/

/-- `dba_mode_t` -/
inductive DbaMode
  | reader
  | writer
  | trunc
  | creat
  deriving DecidableEq

/-- What a script calls. -/
inductive Request
  | dbaFetch (key : Bytes) (skip : ℤ)
  | dbaExists (key : Bytes)
  | dbaFirstkey
  | dbaNextkey
  | dbaInsert (key value : Bytes)
  | dbaReplace (key value : Bytes)
  | dbaDelete (key : Bytes)
  | dbaOptimize
  | dbaSync
  deriving DecidableEq

/-- What it gets. -/
inductive Answer
  | bool (b : Bool)
  | str (s : Bytes)
  | valueError (message : String)
  deriving DecidableEq

/-- `RETURN_STR`, or `RETURN_FALSE` where there is nothing. -/
def Answer.ofOption : Option Bytes → Answer
  | none => .bool false
  | some s => .str s

/-- `dba_handler`; a state is what is behind `info->dbf`. -/
structure DbaHandler (σ : Type*) where
  name : String
  fetch : σ → Bytes → ℕ → Option Bytes × σ
  update : σ → Bytes → Bytes → ℕ → Bool × σ
  existsKey : σ → Bytes → Bool × σ
  delete : σ → Bytes → Bool × σ
  firstkey : σ → Option Bytes × σ
  nextkey : σ → Option Bytes × σ
  optimize : σ → Bool × σ
  sync : σ → Bool × σ

/-- What `dba_fetch` makes of `skip`, where the handler is not the one for ini files. -/
def normalizedSkip (name : String) (skip : ℤ) : ℕ := if name = "cdb" then skip.toNat else 0

section

variable {σ : Type*} (hnd : DbaHandler σ) (mode : DbaMode)

/-- `php_dba_update` -/
def phpDbaUpdate (s : σ) (key value : Bytes) (replaces : ℕ) : Answer × σ :=
  if mode = .reader then (.bool false, s)
  else
    let r := hnd.update s key value replaces
    (.bool r.1, r.2)

/-- The functions a script calls, for a handler in a mode. -/
def dbaHandle (s : σ) : Request → Answer × σ
  | .dbaFetch key skip =>
    if skip < -2 ^ 31 ∨ 2 ^ 31 ≤ skip then
      (.valueError "must be between -2147483648 and 2147483647", s)
    else
      let r := hnd.fetch s key (normalizedSkip hnd.name skip)
      (.ofOption r.1, r.2)
  | .dbaExists key =>
    let r := hnd.existsKey s key
    (.bool r.1, r.2)
  | .dbaFirstkey =>
    let r := hnd.firstkey s
    (.ofOption r.1, r.2)
  | .dbaNextkey =>
    let r := hnd.nextkey s
    (.ofOption r.1, r.2)
  | .dbaInsert key value => phpDbaUpdate hnd mode s key value 1
  | .dbaReplace key value => phpDbaUpdate hnd mode s key value 0
  | .dbaDelete key =>
    if mode = .reader then (.bool false, s)
    else
      let r := hnd.delete s key
      (.bool r.1, r.2)
  | .dbaOptimize =>
    if mode = .reader then (.bool false, s)
    else
      let r := hnd.optimize s
      (.bool r.1, r.2)
  | .dbaSync =>
    let r := hnd.sync s
    (.bool r.1, r.2)

end

end PhpWasm.Dba
