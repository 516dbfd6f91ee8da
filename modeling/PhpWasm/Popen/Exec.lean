import PhpWasm.Base.Lines
import PhpWasm.Popen.PopenToFile
import PhpWasm.Sapi.Context

/-!
# The lines of a command's output

`wasm_php_exec` reads what a command wrote with `php_stream_get_line`, which hands out a line, or a
part of one that is longer than the buffer or has not arrived completely.  The loop collects the
parts in a buffer that grows, gives whole lines to `handle_line`, and at the end deals with what is
left in the buffer.

* `Delivery` is the output of a command, in the parts in which it is handed out.
* `ExecLoop.turn` is one turn of the loop, `ExecLoop.finish` what comes behind it.
* `execRight_iff`: every line is handled once and whole, unless the end of the output shows up only
  after a last line without a newline that has arrived in several parts, and the buffer had been
  made large enough for it by an earlier line.
-/

set_option autoImplicit false

namespace PhpWasm.Popen

open Text

/-- `EXEC_INPUT_BUF` -/
def execInputBuf : Nat := 4096

/-- `'\n'` -/
def newline : UInt8 := 10

/-! ## What is delivered -/

/-- A command's output, in the parts in which `php_stream_get_line` hands it out. -/
structure Delivery where
  chunks : List CString
  /-- `php_stream_eof` becomes true with the empty read behind the last part, and not with that
  part already. -/
  lateEof : Bool
  nonempty : ∀ c ∈ chunks, c ≠ []
  fits : ∀ c ∈ chunks, c.length ≤ execInputBuf - 1
  stops : ∀ c ∈ chunks, newline ∉ c.dropLast

/-- The output. -/
def Delivery.output (d : Delivery) : CString := d.chunks.flatten

/-- The parameter `type`, but for 3, where there are no lines. -/
inductive ExecType
  /-- 0: only the last line is returned. -/
  | last
  /-- 1: all lines are printed. -/
  | print
  /-- 2: all lines are put into an array. -/
  | collect
  deriving DecidableEq

/-! ## The utility functions -/

/-- `isspace` -/
def isspace (c : UInt8) : Bool := c == 32 || (9 ≤ c && c ≤ 13)

/-- A line without the white space at its end. -/
def rtrim (line : CString) : CString := line.rdropWhile isspace

/-- The loop of `strip_trailing_whitespace`: the length that is left of `bufl` bytes. -/
def stripped (buf : CString) : Nat → Nat
  | 0 => 0
  | l + 1 => if (buf[l]?).any isspace then stripped buf l else l + 1

/-- `strip_trailing_whitespace`: the buffer, and what it returns. -/
def stripTrailingWhitespace (buf : CString) (bufl : Nat) : CString × Nat :=
  let l := stripped buf bufl
  if l ≠ bufl then (buf.set l 0, l) else (buf, bufl)

/-! ## The loop -/

/-- The variables of `wasm_php_exec`, and what it has done so far. -/
structure ExecLoop where
  /-- What was written to the buffer. -/
  buf : CString
  buflen : Nat
  /-- `b - buf` -/
  b : Nat
  bufl : Nat
  /-- `b - buf` and `buflen` at the calls of `php_stream_get_line`. -/
  calls : List (Nat × Nat)
  /-- What `handle_line` was called with. -/
  handled : List CString
  printed : CString
  array : List CString
  deriving DecidableEq

namespace ExecLoop

/-- Before the loop. -/
def start : ExecLoop := ⟨[], execInputBuf, 0, 0, [], [], [], []⟩

/-- `handle_line`, of the first `bufl` bytes of the buffer; what it returns goes to `bufl`. -/
def handleLine (type : ExecType) (bufl : Nat) (s : ExecLoop) : ExecLoop :=
  let s := { s with handled := s.handled ++ [s.buf.take bufl], bufl := bufl }
  match type with
  | .last => s
  | .print => { s with printed := s.printed ++ s.buf.take bufl }
  | .collect =>
    let (buf, bufl) := stripTrailingWhitespace s.buf bufl
    { s with buf := buf, bufl := bufl, array := s.array ++ [buf.take bufl] }

/-- `php_stream_get_line` puts a part of the output at `b`, and a zero byte behind it. -/
def getLine (chunk : CString) (s : ExecLoop) : ExecLoop :=
  { s with
    buf := s.buf.take s.b ++ chunk ++ 0 :: s.buf.drop (s.b + chunk.length + 1)
    bufl := chunk.length
    calls := s.calls ++ [(s.b, s.buflen)] }

/-- The body of the loop, when `php_stream_eof` answers `eof`. -/
def turn (type : ExecType) (chunk : CString) (eof : Bool) (s : ExecLoop) : ExecLoop :=
  let s := s.getLine chunk
  if s.buf[s.b + s.bufl - 1]? ≠ some newline ∧ eof = false then
    if s.buflen < s.bufl + s.b + execInputBuf then
      let bufl := s.bufl + s.b
      { s with bufl := bufl, buflen := bufl + execInputBuf, b := bufl }
    else { s with b := s.b + s.bufl }
  else
    let bufl := if s.b ≠ 0 then s.bufl + s.b else s.bufl
    { s.handleLine type bufl with b := 0 }

/-- The loop. -/
def loop (type : ExecType) (lateEof : Bool) : List CString → ExecLoop → ExecLoop
  | [], s => s
  | chunk :: chunks, s =>
    loop type lateEof chunks (s.turn type chunk (chunks.isEmpty && !lateEof))

/-- The call of `php_stream_get_line` that ends the loop, which leaves `bufl` alone, and what comes
behind the loop.  The second component is the return value. -/
def finish (type : ExecType) (s : ExecLoop) : ExecLoop × CString :=
  let s := { s with calls := s.calls ++ [(s.b, s.buflen)] }
  if s.bufl ≠ 0 then
    let s := if s.b ≠ 0 then s.handleLine type s.bufl else s
    let (buf, bufl) := stripTrailingWhitespace s.buf s.bufl
    ({ s with buf := buf, bufl := bufl }, buf.take bufl)
  else (s, [])

end ExecLoop

/-- What `wasm_php_exec` does with the output of the command. -/
def wasmPhpExec (type : ExecType) (d : Delivery) : ExecLoop × CString :=
  (ExecLoop.start.loop type d.lateEof d.chunks).finish type

/-! ## What is asked of it -/

/-- **The output is handled right.** -/
structure ExecRight (type : ExecType) (d : Delivery) : Prop where
  /-- The buffer has room for every part that may be read. -/
  inside : ∀ call ∈ (wasmPhpExec type d).1.calls, call.1 + execInputBuf ≤ call.2
  /-- Every line is handled once, whole and in order. -/
  handled : (wasmPhpExec type d).1.handled = linesOf newline d.output
  printed : type = .print → (wasmPhpExec type d).1.printed = d.output
  array : type = .collect → (wasmPhpExec type d).1.array = (linesOf newline d.output).map rtrim
  /-- The return value is the last line. -/
  returned : (wasmPhpExec type d).2 = rtrim ((linesOf newline d.output).getLastD [])

/-! ## The utility functions do their work -/

/-- What is left is the line without the white space at its end. -/
theorem take_stripped {buf : CString} {bufl : Nat} (h : bufl ≤ buf.length) :
    buf.take (stripped buf bufl) = rtrim (buf.take bufl) := by
  induction bufl with
  | zero => rfl
  | succ l ih =>
    have hl : l < buf.length := h
    rw [stripped, List.getElem?_eq_getElem hl, Option.any_some, List.take_succ_eq_append_getElem hl,
      rtrim]
    split
    · rename_i hspace
      rw [List.rdropWhile_concat_pos _ _ _ hspace, ih hl.le, rtrim]
    · rename_i hspace
      rw [List.rdropWhile_concat_neg _ _ _ hspace, List.take_succ_eq_append_getElem hl]

theorem stripped_le (buf : CString) (bufl : Nat) : stripped buf bufl ≤ bufl := by
  induction bufl with
  | zero => exact Nat.le_refl 0
  | succ l ih =>
    rw [stripped]
    split
    · exact Nat.le_succ_of_le ih
    · exact Nat.le_refl _

/-- What `strip_trailing_whitespace` leaves in the buffer, up to the length that it returns. -/
theorem take_stripTrailingWhitespace {buf : CString} {bufl : Nat} (h : bufl ≤ buf.length) :
    (stripTrailingWhitespace buf bufl).1.take (stripTrailingWhitespace buf bufl).2 =
      rtrim (buf.take bufl) := by
  rw [← take_stripped h, stripTrailingWhitespace]
  split
  · rw [List.take_set_of_le (Nat.le_refl _)]
  · rename_i hsame
    rw [not_not.1 hsame]

theorem length_stripTrailingWhitespace {buf : CString} {bufl : Nat} (h : bufl ≤ buf.length) :
    (stripTrailingWhitespace buf bufl).2 ≤ (stripTrailingWhitespace buf bufl).1.length := by
  rw [stripTrailingWhitespace]
  split
  · rw [List.length_set]
    exact Nat.le_trans (stripped_le _ _) h
  · exact h

namespace ExecLoop

/-- The lines `ls` were handled, and nothing else was. -/
structure Outputs (type : ExecType) (ls : List CString) (s : ExecLoop) : Prop where
  handled : s.handled = ls
  printed : type = .print → s.printed = ls.flatten
  array : type = .collect → s.array = ls.map rtrim

/-- `handle_line` handles one line. -/
theorem Outputs.handleLine {type : ExecType} {ls : List CString} {s : ExecLoop} {bufl : Nat}
    (h : s.Outputs type ls) (hbufl : bufl ≤ s.buf.length) :
    (s.handleLine type bufl).Outputs type (ls ++ [s.buf.take bufl]) := by
  cases type with
  | last =>
    exact ⟨congrArg (· ++ _) h.handled, nofun, nofun⟩
  | print =>
    refine ⟨congrArg (· ++ _) h.handled, fun _ => ?_, nofun⟩
    show s.printed ++ _ = _
    rw [h.printed rfl, List.flatten_append, List.flatten_singleton]
  | collect =>
    refine ⟨congrArg (· ++ _) h.handled, nofun, fun _ => ?_⟩
    show s.array ++ [(stripTrailingWhitespace s.buf bufl).1.take
      (stripTrailingWhitespace s.buf bufl).2] = _
    rw [h.array rfl, take_stripTrailingWhitespace hbufl, List.map_append, List.map_singleton]

/-- After `handle_line`, the buffer starts with the line, but perhaps for white space. -/
theorem rtrim_take_handleLine (type : ExecType) (s : ExecLoop) {bufl : Nat}
    (h : bufl ≤ s.buf.length) :
    rtrim ((s.handleLine type bufl).buf.take (s.handleLine type bufl).bufl) =
      rtrim (s.buf.take bufl) ∧
    (s.handleLine type bufl).bufl ≤ (s.handleLine type bufl).buf.length := by
  cases type with
  | last => exact ⟨rfl, h⟩
  | print => exact ⟨rfl, h⟩
  | collect =>
    refine ⟨?_, length_stripTrailingWhitespace h⟩
    show rtrim ((stripTrailingWhitespace s.buf bufl).1.take (stripTrailingWhitespace s.buf bufl).2)
      = _
    rw [take_stripTrailingWhitespace h]
    exact List.rdropWhile_idempotent _ _

/-- `handle_line` leaves the other variables alone. -/
theorem handleLine_frame (type : ExecType) (s : ExecLoop) (bufl : Nat) :
    (s.handleLine type bufl).calls = s.calls ∧ (s.handleLine type bufl).buflen = s.buflen ∧
      (s.handleLine type bufl).b = s.b := by
  cases type <;> exact ⟨rfl, rfl, rfl⟩

/-! ## One turn -/

/-- The state when no line is being collected: the lines `ls` are handled. -/
structure Between (type : ExecType) (ls : List CString) (s : ExecLoop) : Prop where
  outputs : s.Outputs type ls
  b_eq : s.b = 0
  /-- The buffer still holds the last line, if white space at its end does not count. -/
  lastLine : rtrim (s.buf.take s.bufl) = rtrim (ls.getLastD [])
  bufl_le : s.bufl ≤ s.buf.length
  inside : ∀ call ∈ s.calls, call.1 + execInputBuf ≤ call.2
  room : execInputBuf ≤ s.buflen

/-- The state while the line that starts with `rest` is being collected.  The buffer was made
large enough for what every earlier part left unfinished. -/
structure Collecting (type : ExecType) (chunks : List CString) (s : ExecLoop) : Prop where
  outputs : s.Outputs type (lines newline chunks.flatten).ended
  rest_eq : s.buf.take s.b = (lines newline chunks.flatten).rest
  b_eq : s.b = (lines newline chunks.flatten).rest.length
  inside : ∀ call ∈ s.calls, call.1 + execInputBuf ≤ call.2
  buflen_lt : ∀ n, s.buflen < n + execInputBuf ↔
    ∀ cs, cs <+: chunks → (lines newline cs.flatten).rest.length < n
  between : (lines newline chunks.flatten).rest = [] →
    s.Between type (lines newline chunks.flatten).ended

theorem collecting_start (type : ExecType) : start.Collecting type [] := by
  refine ⟨⟨rfl, fun _ => rfl, fun _ => rfl⟩, rfl, rfl, by simp [start], fun n => ?_, fun _ => ?_⟩
  · simp only [List.prefix_nil, forall_eq]
    show execInputBuf < n + execInputBuf ↔ 0 < n
    omega
  · exact ⟨⟨rfl, fun _ => rfl, fun _ => rfl⟩, rfl, rfl, Nat.le_refl 0, by simp [start],
      Nat.le_refl _⟩

variable {type : ExecType} {chunks : List CString} {c : CString} {s : ExecLoop}

/-- There is room for one more part. -/
theorem Collecting.room (h : s.Collecting type chunks) : s.b + execInputBuf ≤ s.buflen := by
  have hnot := (h.buflen_lt s.b).not.2 fun hall => by
    have hself := hall chunks List.prefix_rfl
    rw [h.b_eq] at hself
    exact Nat.lt_irrefl _ hself
  exact Nat.le_of_not_lt hnot

/-- What `php_stream_get_line` leaves in the buffer. -/
theorem Collecting.take_getLine (h : s.Collecting type chunks) (c : CString) :
    (s.getLine c).buf.take (c.length + s.b) = (lines newline chunks.flatten).rest ++ c ∧
      c.length + s.b ≤ (s.getLine c).buf.length := by
  have hlength : (s.buf.take s.b ++ c).length = c.length + s.b := by
    rw [h.rest_eq, List.length_append, h.b_eq, Nat.add_comm]
  have hbuf : (s.getLine c).buf = s.buf.take s.b ++ c ++ 0 :: s.buf.drop (s.b + c.length + 1) := rfl
  rw [hbuf, ← hlength]
  refine ⟨by rw [List.take_left, h.rest_eq], ?_⟩
  exact (List.sublist_append_left _ _).length_le

/-- The byte that `b[bufl - 1]` is. -/
theorem Collecting.last_getLine (h : s.Collecting type chunks) (hc : c ≠ []) :
    (s.getLine c).buf[s.b + c.length - 1]? = c.getLast? := by
  have hpos := List.length_pos_of_ne_nil hc
  obtain ⟨htake, -⟩ := h.take_getLine c
  have hlt : s.b + c.length - 1 < c.length + s.b := by omega
  have hle : (lines newline chunks.flatten).rest.length ≤ s.b + c.length - 1 := by
    rw [← h.b_eq]
    omega
  rw [← List.getElem?_take_of_lt hlt, htake, List.getElem?_append_right hle, ← h.b_eq,
    List.getLast?_eq_getElem?]
  congr 1
  omega

theorem Collecting.inside_getLine (h : s.Collecting type chunks) :
    ∀ call ∈ (s.getLine c).calls, call.1 + execInputBuf ≤ call.2 := by
  intro call hcall
  rcases List.mem_append.1 hcall with hcall | hcall
  · exact h.inside call hcall
  · rw [List.mem_singleton.1 hcall]
    exact h.room

/-- A part that goes on with the line. -/
theorem Collecting.turn_open (h : s.Collecting type chunks) (hc : c ≠ []) (hopen : newline ∉ c) :
    s.turn type c false =
      if s.buflen < c.length + s.b + execInputBuf then
        { s.getLine c with
          bufl := c.length + s.b
          buflen := c.length + s.b + execInputBuf
          b := c.length + s.b }
      else { s.getLine c with b := s.b + c.length } := by
  have hlast : (s.getLine c).buf[s.b + c.length - 1]? ≠ some newline := by
    rw [h.last_getLine hc]
    exact fun hlast => hopen (List.mem_of_getLast? hlast)
  rw [turn]
  exact if_pos ⟨hlast, rfl⟩

/-- A part that ends the line, because it ends with a newline or the output ends there. -/
theorem Collecting.turn_end {eof : Bool} (h : s.Collecting type chunks) (hc : c ≠ [])
    (hend : c.getLast? = some newline ∨ eof = true) :
    s.turn type c eof =
      { (s.getLine c).handleLine type (c.length + s.b) with b := 0 } := by
  have hlast : ¬((s.getLine c).buf[s.b + c.length - 1]? ≠ some newline ∧ eof = false) := by
    rw [h.last_getLine hc]
    rintro ⟨hline, heof⟩
    rcases hend with hend | hend
    · exact hline hend
    · rw [heof] at hend
      cases hend
  have hbufl : (if s.b ≠ 0 then c.length + s.b else c.length) = c.length + s.b := by
    split
    · rfl
    · rename_i hzero
      rw [not_not.1 hzero, Nat.add_zero]
  rw [turn]
  refine (if_neg hlast).trans ?_
  show { (s.getLine c).handleLine type (if s.b ≠ 0 then c.length + s.b else c.length) with b := 0 }
    = _
  rw [hbufl]

/-- Such a part leaves nothing to be collected. -/
theorem Collecting.between_turn (h : s.Collecting type chunks) (hc : c ≠ []) {eof : Bool}
    (hend : c.getLast? = some newline ∨ eof = true) :
    (s.turn type c eof).Between type
        ((lines newline chunks.flatten).ended ++ [(lines newline chunks.flatten).rest ++ c]) ∧
      (s.turn type c eof).buflen = s.buflen := by
  obtain ⟨htake, hle⟩ := h.take_getLine c
  have houtputs : (s.getLine c).Outputs type (lines newline chunks.flatten).ended :=
    ⟨h.outputs.handled, h.outputs.printed, h.outputs.array⟩
  obtain ⟨hlast, hbufl⟩ := rtrim_take_handleLine type (s.getLine c) hle
  obtain ⟨hcalls, hbuflen, -⟩ := handleLine_frame type (s.getLine c) (c.length + s.b)
  have hline := houtputs.handleLine hle
  have hroom := h.room
  rw [h.turn_end hc hend]
  rw [htake] at hline hlast
  refine ⟨⟨⟨hline.handled, hline.printed, hline.array⟩, rfl, ?_, hbufl, ?_, ?_⟩, hbuflen⟩
  · rw [List.getLastD_concat]
    exact hlast
  · show ∀ call ∈ (handleLine type _ (s.getLine c)).calls, _
    rw [hcalls]
    exact h.inside_getLine
  · show execInputBuf ≤ (handleLine type _ (s.getLine c)).buflen
    rw [hbuflen]
    exact Nat.le_trans (Nat.le_add_left _ _) hroom

/-- Two ways of beginning with more parts. -/
theorem forall_prefix_concat {P : List CString → Prop} :
    (∀ cs, cs <+: chunks ++ [c] → P cs) ↔ (∀ cs, cs <+: chunks → P cs) ∧ P (chunks ++ [c]) := by
  constructor
  · intro h
    exact ⟨fun cs hcs => h cs (hcs.trans (List.prefix_append _ _)), h _ List.prefix_rfl⟩
  · rintro ⟨hbefore, hall⟩ cs hcs
    rcases List.prefix_concat_iff.1 hcs with rfl | hcs
    · exact hall
    · exact hbefore cs hcs

/-- The lines, with a part that goes on with the last one. -/
theorem lines_open (chunks : List CString) (hopen : newline ∉ c) :
    lines newline (chunks ++ [c]).flatten =
      ⟨(lines newline chunks.flatten).ended, (lines newline chunks.flatten).rest ++ c⟩ := by
  rw [List.flatten_append, List.flatten_singleton, lines_append, Lines.feed_of_notMem _ hopen]

/-- The lines, with a part that ends the last one. -/
theorem lines_closed (chunks : List CString) (hstops : newline ∉ c.dropLast)
    (hlast : c.getLast? = some newline) :
    lines newline (chunks ++ [c]).flatten =
      ⟨(lines newline chunks.flatten).ended ++ [(lines newline chunks.flatten).rest ++ c],
        []⟩ := by
  obtain ⟨line, rfl⟩ := List.getLast?_eq_some_iff.1 hlast
  rw [List.dropLast_concat] at hstops
  rw [List.flatten_append, List.flatten_singleton, lines_append, Lines.feed_ended _ hstops]

/-- A part that does not end with a newline holds none. -/
theorem notMem_of_getLast? (hstops : newline ∉ c.dropLast) (hlast : c.getLast? ≠ some newline) :
    newline ∉ c := by
  intro hmem
  have hne := List.ne_nil_of_mem hmem
  rw [← List.dropLast_concat_getLast hne] at hmem
  rcases List.mem_append.1 hmem with hmem | hmem
  · exact hstops hmem
  · rw [List.getLast?_eq_some_getLast hne, ← List.mem_singleton.1 hmem] at hlast
    exact hlast rfl

/-- **One turn of the loop**, of which there are more to come. -/
theorem Collecting.turn (h : s.Collecting type chunks) (hc : c ≠ [])
    (hstops : newline ∉ c.dropLast) : (s.turn type c false).Collecting type (chunks ++ [c]) := by
  by_cases hlast : c.getLast? = some newline
  · obtain ⟨hbetween, hbuflen⟩ := h.between_turn hc (.inl hlast : _ ∨ false = true)
    have hlines := lines_closed chunks hstops hlast
    refine ⟨?_, ?_, ?_, hbetween.inside, fun n => ?_, fun _ => ?_⟩
    · rw [hlines]
      exact hbetween.outputs
    · rw [hlines, hbetween.b_eq, List.take_zero]
    · rw [hlines, hbetween.b_eq]
      rfl
    · rw [hbuflen, h.buflen_lt, forall_prefix_concat, hlines]
      refine ⟨fun hall => ⟨hall, ?_⟩, fun hall => hall.1⟩
      exact Nat.lt_of_le_of_lt (Nat.zero_le _) (hall [] (List.nil_prefix))
    · rw [hlines]
      exact hbetween
  · have hopen := notMem_of_getLast? hstops hlast
    have hlines := lines_open chunks hopen
    obtain ⟨htake, -⟩ := h.take_getLine c
    have hlength : ((lines newline chunks.flatten).rest ++ c).length = c.length + s.b := by
      rw [List.length_append, h.b_eq, Nat.add_comm]
    have houtputs : s.Outputs type (lines newline (chunks ++ [c]).flatten).ended := by
      rw [hlines]
      exact h.outputs
    have hinside := h.inside_getLine (c := c)
    have hrest : (lines newline (chunks ++ [c]).flatten).rest ≠ [] := by
      rw [hlines]
      exact fun hnil => hc (List.append_eq_nil_iff.1 hnil).2
    rw [h.turn_open hc hopen]
    split
    · rename_i hgrow
      refine ⟨⟨houtputs.handled, houtputs.printed, houtputs.array⟩, ?_, ?_, hinside, fun n => ?_,
        fun hnil => absurd hnil hrest⟩
      · rw [hlines]
        exact htake
      · rw [hlines]
        exact hlength.symm
      · -- the buffer is made to fit this part
        rw [forall_prefix_concat, hlines, hlength, ← h.buflen_lt]
        show c.length + s.b + execInputBuf < n + execInputBuf ↔ _
        omega
    · rename_i hfits
      refine ⟨⟨houtputs.handled, houtputs.printed, houtputs.array⟩, ?_, ?_, hinside, fun n => ?_,
        fun hnil => absurd hnil hrest⟩
      · rw [hlines, Nat.add_comm]
        exact htake
      · rw [hlines, hlength, Nat.add_comm]
      · rw [forall_prefix_concat, hlines, hlength, ← h.buflen_lt]
        show s.buflen < n + execInputBuf ↔ _
        omega

/-! ## Behind the loop -/

/-- The loop ended with the lines `ls`, and `line` is returned. -/
structure Ends (type : ExecType) (ls : List CString) (line : CString) (r : ExecLoop × CString) :
    Prop where
  outputs : r.1.Outputs type ls
  inside : ∀ call ∈ r.1.calls, call.1 + execInputBuf ≤ call.2
  returned : r.2 = rtrim line

/-- The last call of `php_stream_get_line` has room too. -/
theorem inside_lastCall (hinside : ∀ call ∈ s.calls, call.1 + execInputBuf ≤ call.2)
    (hroom : s.b + execInputBuf ≤ s.buflen) :
    ∀ call ∈ s.calls ++ [(s.b, s.buflen)], call.1 + execInputBuf ≤ call.2 := by
  intro call hcall
  rcases List.mem_append.1 hcall with hcall | hcall
  · exact hinside call hcall
  · rw [List.mem_singleton.1 hcall]
    exact hroom

/-- Nothing is being collected. -/
theorem Between.finish {ls : List CString} (h : s.Between type ls) :
    Ends type ls (ls.getLastD []) (s.finish type) := by
  have hroom : s.b + execInputBuf ≤ s.buflen := by
    rw [h.b_eq, Nat.zero_add]
    exact h.room
  have hinside := inside_lastCall h.inside hroom
  have houtputs := h.outputs
  have hlast := h.lastLine
  rw [ExecLoop.finish, if_neg (not_not.2 h.b_eq)]
  split
  · refine ⟨⟨houtputs.handled, houtputs.printed, houtputs.array⟩, hinside, ?_⟩
    exact (take_stripTrailingWhitespace h.bufl_le).trans hlast
  · rename_i hzero
    have hnone : s.bufl = 0 := not_not.1 hzero
    rw [hnone, List.take_zero] at hlast
    exact ⟨⟨houtputs.handled, houtputs.printed, houtputs.array⟩, hinside, hlast⟩

/-- Something is being collected. -/
theorem finish_of_pos {ls : List CString} (houtputs : s.Outputs type ls)
    (hinside : ∀ call ∈ s.calls, call.1 + execInputBuf ≤ call.2)
    (hroom : s.b + execInputBuf ≤ s.buflen) (hb : s.b ≠ 0) (hbufl : s.bufl ≠ 0)
    (hle : s.bufl ≤ s.buf.length) :
    Ends type (ls ++ [s.buf.take s.bufl]) (s.buf.take s.bufl) (s.finish type) := by
  let t : ExecLoop := { s with calls := s.calls ++ [(s.b, s.buflen)] }
  have ht : t.Outputs type ls := ⟨houtputs.handled, houtputs.printed, houtputs.array⟩
  have hline := ht.handleLine hle
  obtain ⟨hlast, hlength⟩ := rtrim_take_handleLine type t hle
  obtain ⟨hcalls, -, -⟩ := handleLine_frame type t s.bufl
  have hfinish : s.finish type =
      ({ t.handleLine type s.bufl with
          buf := (stripTrailingWhitespace (t.handleLine type s.bufl).buf
            (t.handleLine type s.bufl).bufl).1
          bufl := (stripTrailingWhitespace (t.handleLine type s.bufl).buf
            (t.handleLine type s.bufl).bufl).2 },
        (stripTrailingWhitespace (t.handleLine type s.bufl).buf
          (t.handleLine type s.bufl).bufl).1.take
            (stripTrailingWhitespace (t.handleLine type s.bufl).buf
              (t.handleLine type s.bufl).bufl).2) := by
    rw [ExecLoop.finish]
    refine (if_pos hbufl).trans ?_
    rw [if_pos hb]
  rw [hfinish]
  refine ⟨⟨hline.handled, hline.printed, hline.array⟩, ?_, ?_⟩
  · show ∀ call ∈ (t.handleLine type s.bufl).calls, _
    rw [hcalls]
    exact inside_lastCall hinside hroom
  · exact (take_stripTrailingWhitespace hlength).trans hlast

/-! ## All turns -/

/-- All parts but the last one. -/
theorem collecting_foldl
    (h : ∀ c ∈ chunks, c ≠ [] ∧ newline ∉ c.dropLast) :
    (chunks.foldl (fun s c => s.turn type c false) start).Collecting type chunks := by
  induction chunks using List.reverseRecOn with
  | nil => exact collecting_start type
  | append_singleton chunks c ih =>
    obtain ⟨hc, hstops⟩ := h c (List.mem_append_right _ (List.mem_singleton_self c))
    rw [List.foldl_append]
    exact (ih fun c hc => h c (List.mem_append_left _ hc)).turn hc hstops

theorem loop_concat (lateEof : Bool) (s : ExecLoop) :
    s.loop type lateEof (chunks ++ [c]) =
      (chunks.foldl (fun s c => s.turn type c false) s).turn type c (!lateEof) := by
  induction chunks generalizing s with
  | nil => rfl
  | cons c' chunks ih =>
    rw [List.cons_append, loop, List.foldl_cons, ← ih]
    have hmore : (chunks ++ [c]).isEmpty = false := by simp
    rw [hmore, Bool.false_and]

/-- The end of the output shows up behind a last line without a newline. -/
theorem Collecting.finish_turn (h : s.Collecting type chunks) (hc : c ≠ [])
    (hopen : newline ∉ c) :
    let line := ((lines newline chunks.flatten).rest ++ c).take
      (if s.buflen < c.length + s.b + execInputBuf then c.length + s.b else c.length)
    Ends type ((lines newline chunks.flatten).ended ++ [line]) line
      ((s.turn type c false).finish type) := by
  have hpos : c.length ≠ 0 := fun hzero => hc (List.length_eq_zero_iff.1 hzero)
  obtain ⟨htake, hle⟩ := h.take_getLine c
  have hturn := h.turn hc fun hmem => hopen (List.mem_of_mem_dropLast hmem)
  have houtputs := hturn.outputs
  have hroom := hturn.room
  have hinside := hturn.inside
  rw [lines_open chunks hopen] at houtputs
  rw [h.turn_open hc hopen] at houtputs hroom hinside ⊢
  split
  · rename_i hgrow
    rw [if_pos hgrow] at houtputs hroom hinside
    have hends := finish_of_pos houtputs hinside hroom (by dsimp only; omega) (by dsimp only; omega)
      hle
    rw [← htake, List.take_take, Nat.min_self]
    exact hends
  · rename_i hfits
    rw [if_neg hfits] at houtputs hroom hinside
    have hends := finish_of_pos houtputs hinside hroom (by dsimp only; omega) hpos
      (Nat.le_trans (Nat.le_add_right _ _) hle)
    rw [← htake, List.take_take, Nat.min_eq_left (Nat.le_add_right _ _)]
    exact hends

end ExecLoop

/-- When what is handled behind the loop is the whole last line. -/
theorem ExecLoop.Collecting.take_eq_iff {type : ExecType} {chunks : List CString} {s : ExecLoop}
    (h : s.Collecting type chunks) (c : CString) :
    ((lines newline chunks.flatten).rest ++ c).take
        (if s.buflen < c.length + s.b + execInputBuf then c.length + s.b else c.length) =
      (lines newline chunks.flatten).rest ++ c ↔
      (lines newline chunks.flatten).rest = [] ∨
        ∀ cs, cs <+: chunks → (lines newline cs.flatten).rest.length <
          ((lines newline chunks.flatten).rest ++ c).length := by
  have hlength : ((lines newline chunks.flatten).rest ++ c).length = c.length + s.b := by
    rw [List.length_append, h.b_eq, Nat.add_comm]
  rw [List.take_eq_self_iff, hlength, ← h.buflen_lt, ← List.length_eq_zero_iff, ← h.b_eq]
  split <;> omega

section

variable {d : Delivery} {before : List CString} {c : CString}

/-- What the end of the loop is for the whole call. -/
theorem execRight_of_ends {type : ExecType}
    (h : ExecLoop.Ends type (linesOf newline d.output) ((linesOf newline d.output).getLastD [])
      (wasmPhpExec type d)) : ExecRight type d := by
  refine ⟨h.inside, h.outputs.handled, fun htype => ?_, h.outputs.array, h.returned⟩
  rw [h.outputs.printed htype, flatten_linesOf]

/-- All parts but the last one, and that one. -/
theorem Delivery.collecting (type : ExecType) (hchunks : d.chunks = before ++ [c]) :
    (before.foldl (fun s c => s.turn type c false) ExecLoop.start).Collecting type before ∧
      c ≠ [] ∧ newline ∉ c.dropLast ∧
      wasmPhpExec type d =
        ((before.foldl (fun s c => s.turn type c false) ExecLoop.start).turn type c
          (!d.lateEof)).finish type := by
  have hparts : ∀ c' ∈ before ++ [c], c' ≠ [] ∧ newline ∉ c'.dropLast := fun c' hc' =>
    ⟨d.nonempty c' (hchunks ▸ hc'), d.stops c' (hchunks ▸ hc')⟩
  obtain ⟨hc, hstops⟩ := hparts c (List.mem_append_right _ (List.mem_singleton_self c))
  refine ⟨ExecLoop.collecting_foldl fun c' hc' => hparts c' (List.mem_append_left _ hc'), hc,
    hstops, ?_⟩
  rw [wasmPhpExec, hchunks, ExecLoop.loop_concat]

/-- The lines of the output, when the last one has no newline. -/
theorem Delivery.linesOf_output (hchunks : d.chunks = before ++ [c]) (hc : c ≠ [])
    (hopen : newline ∉ c) :
    linesOf newline d.output =
      (lines newline before.flatten).ended ++ [(lines newline before.flatten).rest ++ c] := by
  rw [linesOf, Delivery.output, hchunks, ExecLoop.lines_open before hopen]
  exact if_neg fun hnil => hc (List.append_eq_nil_iff.1 hnil).2

/-- **The end of the output shows up behind a last line without a newline**: then that line is cut
to `n` bytes. -/
theorem wasmPhpExec_late (type : ExecType) (hlate : d.lateEof = true)
    (hchunks : d.chunks = before ++ [c]) (hopen : newline ∉ c) :
    let line := (lines newline before.flatten).rest ++ c
    ∃ n, ExecLoop.Ends type ((lines newline before.flatten).ended ++ [line.take n]) (line.take n)
        (wasmPhpExec type d) ∧
      (line.take n = line ∨ n = c.length) ∧
      (line.take n = line ↔ (lines newline before.flatten).rest = [] ∨
        ∀ cs, cs <+: before → (lines newline cs.flatten).rest.length < line.length) := by
  obtain ⟨hbefore, hc, -, hrun⟩ := Delivery.collecting type hchunks
  rw [hlate, Bool.not_true] at hrun
  rw [hrun]
  refine ⟨_, hbefore.finish_turn hc hopen, ?_, hbefore.take_eq_iff c⟩
  split
  · refine .inl (List.take_of_length_le ?_)
    rw [List.length_append, hbefore.b_eq, Nat.add_comm]
  · exact .inr rfl

end

/-- **When the output is handled right.** -/
theorem execRight_iff (type : ExecType) (d : Delivery) :
    ExecRight type d ↔
      ∀ before c, d.lateEof = true → d.chunks = before ++ [c] → newline ∉ c →
        (lines newline before.flatten).rest = [] ∨
          ∀ cs, cs <+: before → (lines newline cs.flatten).rest.length <
            (lines newline d.output).rest.length := by
  rcases List.eq_nil_or_concat d.chunks with hnil | ⟨before, c, hchunks⟩
  · have hends := (ExecLoop.collecting_start type).between rfl |>.finish
    refine iff_of_true (execRight_of_ends ?_) fun before c _ hconcat => ?_
    · rw [wasmPhpExec, Delivery.output, hnil]
      exact hends
    · rw [hnil] at hconcat
      simp at hconcat
  rw [List.concat_eq_append] at hchunks
  obtain ⟨hbefore, hc, hstops, hrun⟩ := Delivery.collecting type hchunks
  by_cases hend : c.getLast? = some newline ∨ (!d.lateEof) = true
  · -- the last part is taken for the end of its line
    refine iff_of_true (execRight_of_ends ?_) fun before' c' hlate hconcat hopen => ?_
    · have hends := (hbefore.between_turn hc hend).1.finish
      have hlines : linesOf newline d.output = (lines newline before.flatten).ended ++
          [(lines newline before.flatten).rest ++ c] := by
        by_cases hlast : c.getLast? = some newline
        · rw [linesOf, Delivery.output, hchunks, ExecLoop.lines_closed before hstops hlast]
          rfl
        · exact Delivery.linesOf_output hchunks hc (ExecLoop.notMem_of_getLast? hstops hlast)
      rw [hrun, hlines]
      exact hends
    · obtain ⟨rfl, hcc⟩ := List.append_inj' (hchunks.symm.trans hconcat) rfl
      obtain rfl := List.singleton_inj.1 hcc
      rw [hlate] at hend
      exact absurd (List.mem_of_getLast? (hend.resolve_right (by decide))) hopen
  · -- the loop goes on, and finds nothing more to read
    rw [not_or, Bool.not_eq_true, Bool.not_eq_false'] at hend
    obtain ⟨hlast, hlate⟩ := hend
    have hopen := ExecLoop.notMem_of_getLast? hstops hlast
    obtain ⟨n, hends, -, hwhole⟩ := wasmPhpExec_late type hlate hchunks hopen
    have hlines := Delivery.linesOf_output hchunks hc hopen
    have hrest : (lines newline d.output).rest = (lines newline before.flatten).rest ++ c := by
      rw [Delivery.output, hchunks, ExecLoop.lines_open before hopen]
    rw [hrest]
    constructor
    · intro hright before' c' _ hconcat _
      obtain ⟨rfl, hcc⟩ := List.append_inj' (hchunks.symm.trans hconcat) rfl
      have hhandled := hright.handled
      rw [hends.outputs.handled, hlines] at hhandled
      exact hwhole.1 (List.singleton_inj.1 (List.append_cancel_left hhandled))
    · intro hcondition
      rw [hwhole.2 (hcondition before c hlate hchunks hopen)] at hends
      refine execRight_of_ends ?_
      rw [hlines, List.getLastD_concat]
      exact hends

/-- Two lines of 8190 bytes, the second one without a newline: the first one has made the buffer
large enough for the second one, of which only the first 4095 bytes are handled. -/
theorem second_line_not_right : ∃ d : Delivery,
    d.output = List.replicate 8190 97 ++ newline :: List.replicate 8190 97 ∧
      (wasmPhpExec .last d).1.handled =
        [List.replicate 8190 97 ++ [newline], List.replicate 4095 97] ∧
      ¬ ExecRight .last d := by
  obtain ⟨part, hpart⟩ : ∃ part : CString, part = List.replicate 4095 97 := ⟨_, rfl⟩
  have hlength : part.length = 4095 := by rw [hpart, List.length_replicate]
  have hopen : newline ∉ part := by
    rw [hpart, List.mem_replicate]
    exact fun h => absurd h.2 (by decide)
  have hdouble : List.replicate 8190 97 = part ++ part := by
    rw [hpart, List.replicate_append_replicate]
  have hne : part ≠ [] := fun hnil => by
    rw [hnil] at hlength
    cases hlength
  have hmem : ∀ c ∈ [part, part, [newline], part, part], c = part ∨ c = [newline] := by simp
  let d : Delivery := ⟨[part, part, [newline], part, part], true,
    fun c hc => by rcases hmem c hc with rfl | rfl <;> simp [hne],
    fun c hc => by rcases hmem c hc with rfl | rfl <;> simp [hlength, execInputBuf],
    fun c hc => by
      rcases hmem c hc with rfl | rfl
      · exact fun h => hopen (List.mem_of_mem_dropLast h)
      · simp⟩
  have hone : lines newline [part].flatten = ⟨[], part⟩ := ExecLoop.lines_open [] hopen
  have hfirst : lines newline [part, part].flatten = ⟨[], part ++ part⟩ := by
    have h := ExecLoop.lines_open [part] hopen
    rw [hone] at h
    exact h
  have hended : lines newline [part, part, [newline]].flatten =
      ⟨[part ++ part ++ [newline]], []⟩ := by
    have h := ExecLoop.lines_closed [part, part] (c := [newline]) (by simp) rfl
    rw [hfirst] at h
    exact h
  have hlines : lines newline [part, part, [newline], part].flatten =
      ⟨[part ++ part ++ [newline]], part⟩ := by
    have h := ExecLoop.lines_open [part, part, [newline]] hopen
    rw [hended] at h
    exact h
  have hchunks : d.chunks = [part, part, [newline], part] ++ [part] := rfl
  obtain ⟨n, hends, hn, hwhole⟩ := wasmPhpExec_late .last rfl hchunks hopen
  rw [hlines] at hends hn hwhole
  have hcut : (part ++ part).take n ≠ part ++ part := fun hall => by
    rcases hwhole.1 hall with hnil | hshorter
    · exact hne hnil
    · have hlt := hshorter [part, part] ⟨[[newline], part], rfl⟩
      rw [hfirst] at hlt
      exact Nat.lt_irrefl _ hlt
  obtain rfl := hn.resolve_left hcut
  have houtput : d.output = part ++ part ++ newline :: (part ++ part) := by
    simp [d, Delivery.output]
  refine ⟨d, ?_, ?_, fun hright => hcut ?_⟩
  · rw [houtput, hdouble]
  · rw [hends.outputs.handled, List.take_left, hdouble, ← hpart]
    rfl
  · have hhandled := hright.handled
    rw [hends.outputs.handled, Delivery.linesOf_output hchunks hne hopen, hlines] at hhandled
    exact List.singleton_inj.1 (List.append_cancel_left hhandled)

end PhpWasm.Popen
