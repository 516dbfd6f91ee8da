import PhpWasm.Base.Json
import PhpWasm.Sapi.Context

/-!
# The file of response headers

At the end of a request PHP hands the status code and the header lines to
`wasm_sapi_send_headers`, which leaves them in `/request/headers` for JavaScript, as a JSON object
written piece by piece.  `wasm_sapi_send_header` writes one header line as a string of it, and
once more, for no header, the string that ends the list.

A line is written with a backslash before each quotation mark and each backslash, and with nothing
else escaped.  `readBack_iff` says which lists of header lines survive that: those without control
characters.  Different lists are never confused, whether they do or not (`sent_injective`).
-/

set_option autoImplicit false

namespace PhpWasm

open scoped Json

/-- A header line that `header()` accepts: text in UTF-8 on a single line, without a zero byte. -/
structure HeaderLine where
  /-- The characters of the line. -/
  text : List Char
  /-- It is one line, and a C string. -/
  oneLine : ∀ c ∈ text, c ≠ '\x00' ∧ c ≠ '\r' ∧ c ≠ '\n'

/-- The bytes of the line, as PHP has them. -/
def HeaderLine.header (h : HeaderLine) : CString := Json.utf8 h.text

/-- The loop of `wasm_sapi_send_header`, which writes a header one byte at a time. -/
def escapeHeader (header : CString) : CString :=
  header.flatMap fun b =>
    if b = '"'.toNat.toUInt8 ∨ b = '\\'.toNat.toUInt8 then ['\\'.toNat.toUInt8, b] else [b]

/-- What `wasm_sapi_send_header` writes. -/
def wasmSapiSendHeader : Option CString → CString
  | none => bytes "\"__terminator__\""
  | some header => bytes "\"" ++ escapeHeader header ++ bytes "\",\n"

/-- What `wasm_sapi_send_headers` writes once its file is open.  `defaultContentType` is the header
`sapi_get_default_content_type_header` makes, when `send_default_content_type` is set. -/
def wasmSapiSendHeaders (httpResponseCode : Int) (headers : List CString)
    (defaultContentType : Option CString) : CString :=
  bytes "\x7b \"status\": " ++ bytes (toString httpResponseCode) ++ bytes ", \"headers\": [" ++
    (headers.flatMap fun h => wasmSapiSendHeader (some h)) ++
    (defaultContentType.toList.flatMap fun h => wasmSapiSendHeader (some h)) ++
    wasmSapiSendHeader none ++ bytes "]\x7d"

/-- A response: what the file of headers is made of. -/
structure Response where
  /-- `SG(sapi_headers).http_response_code` -/
  httpResponseCode : Int
  /-- `SG(sapi_headers).headers` -/
  headers : List HeaderLine
  /-- The default content type header, if it is to be sent. -/
  defaultContentType : Option HeaderLine

namespace Response

/-- Every header line of the response, in order. -/
def lines (r : Response) : List HeaderLine := r.headers ++ r.defaultContentType.toList

/-- The bytes of `/request/headers`. -/
def sent (r : Response) : CString :=
  wasmSapiSendHeaders r.httpResponseCode (r.headers.map HeaderLine.header)
    (r.defaultContentType.map HeaderLine.header)

/-- The object the bytes should be read as. -/
def object (r : Response) : Json :=
  .object [("status".toList, .number r.httpResponseCode 0),
    ("headers".toList,
      .array (r.lines.map (fun h => .string h.text) ++ [.string "__terminator__".toList]))]

end Response

/-! ## The text behind the bytes -/

/-- The text of the header list. -/
def linesText (lines : List (List Char)) : List Char :=
  lines.flatMap fun t => '"' :: (Json.quoted t ++ "\",\n".toList)

/-- The text of the file. -/
def sentText (httpResponseCode : Int) (lines : List (List Char)) : List Char :=
  "\x7b \"status\": ".toList ++ (toString httpResponseCode).toList ++ ", \"headers\": [".toList ++
    linesText lines ++ "\"__terminator__\"]\x7d".toList

theorem bytes_eq_utf8 {s : String} (h : ∀ c ∈ s.toList, c.toNat < 0x80) :
    bytes s = Json.utf8 s.toList := by
  rw [bytes, Json.utf8]
  generalize s.toList = l at h
  induction l with
  | nil => rfl
  | cons c l ih =>
    rw [List.map_cons, List.flatMap_cons, Json.utf8EncodeChar_ascii (h c List.mem_cons_self),
      ih fun d hd => h d (List.mem_cons_of_mem _ hd)]
    rfl

/-- A byte of a character that needs no escape needs none either. -/
theorem byte_needs_no_escape {c : Char} (hc : ¬ (c = '"' ∨ c = '\\')) {b : UInt8}
    (hb : b ∈ String.utf8EncodeChar c) :
    ¬ (b = '"'.toNat.toUInt8 ∨ b = '\\'.toNat.toUInt8) := by
  by_cases hascii : c.toNat < 0x80
  · rw [Json.utf8EncodeChar_ascii hascii, List.mem_singleton] at hb
    subst hb
    have hinj : ∀ d : Char, d.toNat < 0x80 → c.toNat.toUInt8 = d.toNat.toUInt8 → c = d := by
      intro d hd h
      have hnat := congrArg UInt8.toNat h
      simp only [Nat.toUInt8, UInt8.toNat_ofNat'] at hnat
      exact Char.toNat_inj.1 (by omega)
    rintro (h | h)
    · exact hc (.inl (hinj '"' (by decide) h))
    · exact hc (.inr (hinj '\\' (by decide) h))
  · have hge := Json.le_of_mem_utf8EncodeChar (Nat.le_of_not_lt hascii) hb
    rintro (rfl | rfl)
    · exact absurd hge (by decide)
    · exact absurd hge (by decide)

theorem flatMap_eq_self {α : Type*} {f : α → List α} {l : List α} (h : ∀ a ∈ l, f a = [a]) :
    l.flatMap f = l := by
  induction l with
  | nil => rfl
  | cons a l ih =>
    rw [List.flatMap_cons, h a List.mem_cons_self, ih fun b hb => h b (List.mem_cons_of_mem _ hb)]
    rfl

/-- The byte loop escapes what the characters call for. -/
theorem escapeHeader_utf8 (t : List Char) :
    escapeHeader (Json.utf8 t) = Json.utf8 (Json.quoted t) := by
  induction t with
  | nil => rfl
  | cons c t ih =>
    rw [Json.utf8_cons, escapeHeader, List.flatMap_append, ← escapeHeader, ← escapeHeader, ih,
      Json.quoted_cons, Json.utf8_append]
    congr 1
    by_cases hc : c = '"' ∨ c = '\\'
    · rw [if_pos hc]
      rcases hc with rfl | rfl <;> decide
    · rw [if_neg hc]
      refine (flatMap_eq_self fun b hb => ?_).trans (List.append_nil _).symm
      rw [if_neg (byte_needs_no_escape hc hb)]

/-- What is written for a header line. -/
theorem wasmSapiSendHeader_header (h : HeaderLine) :
    wasmSapiSendHeader (some h.header) =
      Json.utf8 ('"' :: (Json.quoted h.text ++ "\",\n".toList)) := by
  rw [wasmSapiSendHeader, HeaderLine.header, escapeHeader_utf8, bytes_eq_utf8 (by decide),
    bytes_eq_utf8 (by decide), ← Json.utf8_append, ← Json.utf8_append]
  rfl

theorem utf8_linesText (lines : List HeaderLine) :
    Json.utf8 (linesText (lines.map HeaderLine.text)) =
      lines.flatMap fun h => wasmSapiSendHeader (some h.header) := by
  induction lines with
  | nil => rfl
  | cons h lines ih =>
    rw [List.map_cons, linesText, List.flatMap_cons, ← linesText, Json.utf8_append, ih,
      List.flatMap_cons, wasmSapiSendHeader_header]

/-- Decimal digits are ASCII, and so is the sign. -/
theorem toString_ascii (i : Int) : ∀ c ∈ (toString i).toList, c.toNat < 0x80 := by
  have hdigit : ∀ n : Nat, ∀ c ∈ Nat.toDigits 10 n, c.toNat < 0x80 := by
    intro n c hc
    have hd := Nat.isDigit_of_mem_toDigits (by decide) (by decide) hc
    have hle := (Char.isDigit_iff_toNat.1 hd).2
    have h9 : ('9' : Char).toNat = 57 := rfl
    omega
  rw [Int.toString_eq_repr, Int.repr_eq_if]
  split
  · rw [Nat.toList_repr]
    exact hdigit _
  · intro c hc
    rw [String.toList_append, Nat.toList_repr, List.mem_append] at hc
    rcases hc with hc | hc
    · rw [List.mem_singleton.1 hc]
      decide
    · exact hdigit _ c hc

theorem sent_eq_utf8 (r : Response) :
    r.sent = Json.utf8 (sentText r.httpResponseCode (r.lines.map HeaderLine.text)) := by
  have hdefault : (r.defaultContentType.map HeaderLine.header).toList =
      r.defaultContentType.toList.map HeaderLine.header := by
    cases r.defaultContentType <;> rfl
  have hstatus : bytes "\x7b \"status\": " = Json.utf8 "\x7b \"status\": ".toList :=
    bytes_eq_utf8 (by decide)
  have hheaders : bytes ", \"headers\": [" = Json.utf8 ", \"headers\": [".toList :=
    bytes_eq_utf8 (by decide)
  have hend : wasmSapiSendHeader none ++ bytes "]\x7d" =
      Json.utf8 "\"__terminator__\"]\x7d".toList := by
    have hbytes : wasmSapiSendHeader none ++ bytes "]\x7d" =
        bytes "\"__terminator__\"]\x7d" := by decide
    exact hbytes.trans (bytes_eq_utf8 (by decide))
  rw [Response.sent, wasmSapiSendHeaders, hdefault, List.flatMap_map, List.flatMap_map,
    bytes_eq_utf8 (toString_ascii _), hstatus, hheaders,
    List.append_assoc _ _ (bytes "]\x7d"), hend, Response.lines]
  unfold sentText
  simp only [Json.utf8_append, utf8_linesText, List.flatMap_append, List.append_assoc]

/-! ## Reading the file -/

/-- The lines need no other escapes than those they get. -/
def Plain (lines : List (List Char)) : Prop := ∀ t ∈ lines, ∀ c ∈ t, ¬ Json.Control c

/-- The text from the header list on. -/
def listText (lines : List (List Char)) : List Char :=
  linesText lines ++ "\"__terminator__\"]\x7d".toList

theorem listText_cons (t : List Char) (lines : List (List Char)) :
    listText (t :: lines) = '"' :: (Json.quoted t ++ '"' :: ',' :: '\n' :: listText lines) := by
  simp [listText, linesText]

theorem listText_nil : listText [] =
    '"' :: (Json.quoted "__terminator__".toList ++ '"' :: "]\x7d".toList) := by decide

theorem skipWs_newline_listText (lines : List (List Char)) :
    Json.skipWs ('\n' :: listText lines) = listText lines := by
  have hws : Json.skipWs ('\n' :: listText lines) = Json.skipWs (listText lines) := rfl
  rw [hws]
  cases lines with
  | nil => rw [listText_nil, Json.skipWs_cons (by decide)]
  | cons t lines => rw [listText_cons, Json.skipWs_cons (by decide)]

/-- Reading the first line of a list. -/
theorem readElements_cons (n : Nat) {s t : List Char} {lines : List (List Char)}
    (hs : Json.skipWs s = listText (t :: lines)) :
    Json.readElements (n + 2) s =
      if ∀ c ∈ t, ¬ Json.Control c then
        (Json.readElements (n + 1) ('\n' :: listText lines)).map fun q => (.string t :: q.1, q.2)
      else none := by
  rw [Json.readElements, hs, listText_cons, Json.readValue_quoted]
  split
  · rw [Option.bind_some, Json.moreItems_comma]
  · rfl

/-- The list is read when its lines are plain, -/
theorem readElements_plain {lines : List (List Char)} (h : Plain lines) (n : Nat) {s : List Char}
    (hs : Json.skipWs s = listText lines) :
    Json.readElements (lines.length + 2 + n) s =
      some (lines.map .string ++ [.string "__terminator__".toList], ['}']) := by
  induction lines generalizing s with
  | nil =>
    rw [List.length_nil, Nat.zero_add, Nat.add_comm, Json.readElements, hs, listText_nil,
      Json.readValue_quoted, if_pos (by decide)]
    rfl
  | cons t lines ih =>
    have hlen : (t :: lines).length + 2 + n = (lines.length + 1 + n) + 2 := by
      rw [List.length_cons]; omega
    have hih := ih (fun u hu => h u (List.mem_cons_of_mem _ hu)) (skipWs_newline_listText lines)
    rw [show lines.length + 2 + n = lines.length + 1 + n + 1 by omega] at hih
    rw [hlen, readElements_cons _ hs, if_pos (h t List.mem_cons_self), hih]
    rfl

/-- and otherwise it is not, with any amount of fuel. -/
theorem readElements_not_plain {lines : List (List Char)} (h : ¬ Plain lines) (n : Nat)
    {s : List Char} (hs : Json.skipWs s = listText lines) : Json.readElements n s = none := by
  induction lines generalizing n s with
  | nil => exact absurd (fun t ht => absurd ht List.not_mem_nil) h
  | cons t lines ih =>
    match n with
    | 0 => rw [Json.readElements]
    | 1 => rw [Json.readElements, Json.readValue]; rfl
    | n + 2 =>
      rw [readElements_cons n hs]
      split
      · rename_i ht
        have hrest : ¬ Plain lines := fun hl => h (List.forall_mem_cons.2 ⟨ht, hl⟩)
        rw [ih hrest (n + 1) (skipWs_newline_listText lines)]
        rfl
      · rfl

/-- The text from the second member of the object on. -/
def headersText (lines : List (List Char)) : List Char :=
  ' ' :: '"' :: (Json.quoted "headers".toList ++ '"' :: ':' :: ' ' :: '[' :: listText lines)

theorem sentText_eq (httpResponseCode : Int) (lines : List (List Char)) :
    sentText httpResponseCode lines =
      '{' :: ' ' :: '"' :: (Json.quoted "status".toList ++ '"' :: ':' :: ' ' ::
        ((toString httpResponseCode).toList ++ ',' :: headersText lines)) := by
  have hstatus : "\x7b \"status\": ".toList =
      '{' :: ' ' :: '"' :: (Json.quoted "status".toList ++ ['"', ':', ' ']) := by decide
  have hheaders : ", \"headers\": [".toList =
      ',' :: ' ' :: '"' :: (Json.quoted "headers".toList ++ ['"', ':', ' ', '[']) := by decide
  unfold sentText
  rw [hstatus, hheaders]
  simp [headersText, listText]

/-- What the reader makes of the second member, given what it makes of the list in it. -/
theorem readMembers_headersText (n : Nat) (lines : List (List Char)) :
    Json.readMembers (n + 2) (headersText lines) =
      (Json.readElements n (listText lines)).bind fun q =>
        Json.moreItems '}' ("headers".toList, .array q.1) (fun r => Json.readMembers (n + 1) r)
          q.2 := by
  have hopen : ∀ l, Json.skipWs (' ' :: l) = Json.skipWs l := fun l => rfl
  have hlist : (Json.skipWs (listText lines)).head? ≠ some ']' := by
    cases lines with
    | nil => rw [listText_nil, Json.skipWs_cons (by decide)]; decide
    | cons t lines => rw [listText_cons, Json.skipWs_cons (by decide)]; simp
  rw [Json.readMembers, headersText, hopen, Json.skipWs_cons (by decide),
    Json.readKey_quoted (by decide), Option.bind_some, hopen, Json.skipWs_cons (by decide),
    Json.readValue, if_neg (by decide), if_pos rfl, if_neg hlist]
  cases Json.readElements n (listText lines) <;> rfl

/-- What the reader makes of the whole file, given what it makes of the list in it. -/
theorem readText_sentText (n : Nat) (httpResponseCode : Int) (lines : List (List Char)) :
    Json.readText (n + 4) (sentText httpResponseCode lines) =
      ((Json.readMembers (n + 2) (headersText lines)).map fun q =>
        (.object (("status".toList, .number httpResponseCode 0) :: q.1), q.2)).bind fun p =>
          if Json.skipWs p.2 = [] then some p.1 else none := by
  have hopen : ∀ l, Json.skipWs (' ' :: l) = Json.skipWs l := fun l => rfl
  have hquote : ∀ l : List Char, ¬ ('"' :: l).head? = some '}' := fun l h =>
    absurd (Option.some_inj.1 h) (by decide)
  rw [Json.readText, sentText_eq, Json.skipWs_cons (by decide), Json.readValue,
    if_neg (by decide), if_neg (by decide), if_pos rfl, hopen, Json.skipWs_cons (by decide),
    if_neg (hquote _), Json.readMembers, hopen, Json.skipWs_cons (by decide),
    Json.readKey_quoted (by decide), Option.bind_some, hopen,
    Json.readValue_toString _ _ ⟨by decide, by decide, by decide, by decide⟩, Option.bind_some,
    Json.moreItems_comma, Option.map_map]
  rfl

theorem readText_plain {lines : List (List Char)} (h : Plain lines) (httpResponseCode : Int) :
    Json.readText (lines.length + 2 + 4) (sentText httpResponseCode lines) =
      some (.object [("status".toList, .number httpResponseCode 0),
        ("headers".toList, .array (lines.map .string ++ [.string "__terminator__".toList]))]) := by
  have hskip : Json.skipWs (listText lines) = listText lines := skipWs_newline_listText lines
  have hlist := readElements_plain h 0 hskip
  rw [Nat.add_zero] at hlist
  rw [readText_sentText, readMembers_headersText, hlist, Option.bind_some,
    Json.moreItems_close ⟨by decide, by decide⟩]
  rfl

theorem readText_not_plain {lines : List (List Char)} (h : ¬ Plain lines)
    (httpResponseCode : Int) (n : Nat) :
    Json.readText n (sentText httpResponseCode lines) = none := by
  have hskip : Json.skipWs (listText lines) = listText lines := skipWs_newline_listText lines
  have hnone : Json.readText (n + 4) (sentText httpResponseCode lines) = none := by
    rw [readText_sentText, readMembers_headersText, readElements_not_plain h n hskip]
    rfl
  cases hn : Json.readText n (sentText httpResponseCode lines) with
  | none => rfl
  | some v =>
    have := Json.readText_below (Nat.le_add_right n 4) _ v hn
    rw [hnone] at this
    cases this

/-! ## Different responses, different files -/

theorem listText_injective : Function.Injective listText := by
  intro lines lines' h
  induction lines generalizing lines' with
  | nil =>
    cases lines' with
    | nil => rfl
    | cons t' lines' =>
      rw [listText_nil, listText_cons] at h
      have hrest := (Json.quoted_append_quote_inj (List.cons.inj h).2).2
      exact absurd (List.cons.inj hrest).1 (by decide)
  | cons t lines ih =>
    cases lines' with
    | nil =>
      rw [listText_nil, listText_cons] at h
      have hrest := (Json.quoted_append_quote_inj (List.cons.inj h).2).2
      exact absurd (List.cons.inj hrest).1 (by decide)
    | cons t' lines' =>
      rw [listText_cons, listText_cons] at h
      obtain ⟨rfl, hrest⟩ := Json.quoted_append_quote_inj (List.cons.inj h).2
      rw [ih (List.cons.inj (List.cons.inj hrest).2).2]

theorem sentText_inj {i i' : Int} {lines lines' : List (List Char)}
    (h : sentText i lines = sentText i' lines') : i = i' ∧ lines = lines' := by
  rw [sentText_eq, sentText_eq] at h
  have htail := (Json.quoted_append_quote_inj
    (List.cons.inj (List.cons.inj (List.cons.inj h).2).2).2).2
  have hnumber := (List.cons.inj (List.cons.inj htail).2).2
  -- reading the number takes the two texts apart at the comma
  have hread := congrArg Json.readNumber hnumber
  rw [Json.readNumber_toString _ (by decide), Json.readNumber_toString _ (by decide)] at hread
  have hpair := Prod.mk.inj (Option.some_inj.1 hread)
  have hlist := Json.quoted_append_quote_inj
    (List.cons.inj (List.cons.inj (List.cons.inj hpair.2).2).2).2
  refine ⟨(Json.number.inj hpair.1).1, listText_injective ?_⟩
  exact (List.cons.inj (List.cons.inj (List.cons.inj hlist.2).2).2).2

/-- **Different header lists never yield the same bytes.** -/
theorem sent_injective {r r' : Response} (h : r.sent = r'.sent) :
    r.httpResponseCode = r'.httpResponseCode ∧ r.lines = r'.lines := by
  rw [sent_eq_utf8, sent_eq_utf8] at h
  obtain ⟨hcode, hlines⟩ := sentText_inj (Json.utf8_injective h)
  refine ⟨hcode, List.map_injective_iff.2 (fun a b hab => ?_) hlines⟩
  cases a; cases b; cases hab; rfl

/-! ## When the file serves its purpose -/

/-- **The response can be read back from its file**: the bytes are a JSON document for the status
and the header lines, and for nothing else, and no other header list has the same bytes. -/
def Response.ReadBack (r : Response) : Prop :=
  (∀ v, Json.Document r.sent v ↔ v = r.object) ∧
    ∀ r' : Response, r'.sent = r.sent → r'.lines = r.lines

/-- **When the response can be read back**: exactly when no header line contains a control
character. -/
theorem readBack_iff (r : Response) :
    r.ReadBack ↔ ∀ h ∈ r.lines, ∀ c ∈ h.text, ¬ Json.Control c := by
  have hplain : (∀ h ∈ r.lines, ∀ c ∈ h.text, ¬ Json.Control c) ↔
      Plain (r.lines.map HeaderLine.text) := by
    rw [Plain, List.forall_mem_map]
  rw [hplain]
  constructor
  · intro h
    by_contra hnot
    obtain ⟨t, ht, n, hn⟩ := (h.1 r.object).2 rfl
    rw [sent_eq_utf8] at ht
    rw [← Json.utf8_injective ht, readText_not_plain hnot] at hn
    cases hn
  · intro h
    have hobject : Json.Document r.sent r.object := by
      have hread := readText_plain h r.httpResponseCode
      rw [List.map_map] at hread
      exact ⟨_, sent_eq_utf8 r, _, hread⟩
    exact ⟨fun v => ⟨fun hv => hv.unique hobject, fun hv => hv ▸ hobject⟩,
      fun r' h' => (sent_injective h').2⟩

/-- A header line with a tab in it. -/
def tabbedHeader : HeaderLine := ⟨"X-A: a\tb".toList, by decide⟩

/-- A tab is enough to make the file no JSON document at all. -/
theorem tab_not_readBack :
    (∀ v, ¬ Json.Document (Response.sent ⟨200, [tabbedHeader], none⟩) v) ∧
      ¬ Response.ReadBack ⟨200, [tabbedHeader], none⟩ := by
  have hnot : ¬ Plain ([tabbedHeader].map HeaderLine.text) := fun h =>
    h tabbedHeader.text List.mem_cons_self '\t' (by decide) (by decide)
  have hnone : ∀ v, ¬ Json.Document (Response.sent ⟨200, [tabbedHeader], none⟩) v := by
    rintro v ⟨t, ht, n, hn⟩
    rw [sent_eq_utf8] at ht
    rw [← Json.utf8_injective ht] at hn
    exact Option.some_ne_none v (hn.symm.trans (readText_not_plain hnot 200 n))
  exact ⟨hnone, fun h => hnone _ ((h.1 _).2 rfl)⟩

end PhpWasm
