import PhpWasm.Base.Matcher
import PhpWasm.Base.Scan
import PhpWasm.Build.Review
import PhpWasm.Build.Vendored

/-!
# Stripping the aliases of the ABI

The loader that Emscripten generates assigns every export of the wasm module to a variable and
declares the variable at the top.  `strip-unused-abi-export-aliases.mjs` cuts out the assignments
of the names on a list, and then these names out of the declarations, all with regular expressions.

A loader is taken as the pieces it consists of: alias statements, declarations of names without
values, and other code, of which the identifiers are known.  What reads like an alias statement or
a declaration is a piece of its own, too, where it is none.
-/

set_option autoImplicit false

namespace PhpWasm.Build.StripAliases

open Vendored (Text)
open Matching (Matcher Quiet before test replaceFirst replaceAll)
open Scan (strip)

/-! ## The regular expressions -/

/-- `[\w$]` -/
def isWord (c : Char) : Bool := c.isAlphanum || c == '_' || c == '$'

/-- `[ \t]` -/
def isBlank (c : Char) : Bool := c == ' ' || c == '\t'

/-- `\s*` -/
def skipSpace (s : Text) : Text := s.dropWhile isJsSpace

/-- `\s+` -/
def someSpace (s : Text) : Option Text :=
  if s.takeWhile isJsSpace = [] then none else some (skipSpace s)

/-- `['"]` -/
def quote : Text → Option Text
  | [] => none
  | c :: s => if c == '\'' || c == '"' then some s else none

/-- `(?<![\w$])x\(` -/
def calledMatcher (x : Text) : Matcher Char := fun p s =>
  if p.any isWord then none else (strip (x ++ ['(']) s).map (Prod.mk [])

/-- The part of `aliasStmt` behind the look-behind. -/
def aliasStatement (x s : Text) : Option Text := do
  let s ← strip x s
  let s ← strip "=".toList (skipSpace s)
  let s ← strip "Module[".toList (skipSpace s)
  let s ← quote s
  let s ← strip x s
  let s ← quote s
  let s ← strip "]".toList s
  let s ← strip "=".toList (skipSpace s)
  let s ← strip "wasmExports[".toList (skipSpace s)
  let s ← quote s
  let s ← strip (x.drop 1) s
  let s ← quote s
  let s ← strip "]".toList s
  strip ";".toList (skipSpace s)

/-- `aliasStmt`, from its look-behind to the semicolon. -/
def aliasAt (x : Text) : Matcher Char := fun p s =>
  if p.any isWord then none else (aliasStatement x s).map (Prod.mk [])

/-- `\n?` -/
def skipNewline : Text → Text
  | '\n' :: s => s
  | s => s

/-- `aliasStmt`, with nothing in its place. -/
def aliasMatcher (x : Text) : Matcher Char := fun p s =>
  (aliasAt x (before p (s.takeWhile isBlank)) (s.dropWhile isBlank)).map fun m =>
    (m.1, skipNewline m.2)

/-- `[\w$]+` -/
def wordRun (s : Text) : Option (Text × Text) :=
  if s.takeWhile isWord = [] then none else some (s.takeWhile isWord, s.dropWhile isWord)

/-- `(?:\s*,\s*[\w$]+)*`: the names, and what comes after them. -/
def moreNames : Nat → Text → List Text × Text
  | 0, s => ([], s)
  | n + 1, s =>
    match skipSpace s with
    | ',' :: r =>
      match wordRun (skipSpace r) with
      | some (name, r) => (name :: (moreNames n r).1, (moreNames n r).2)
      | none => ([], s)
    | _ => ([], s)

/-- A declaration of these names. -/
def declaration (names : List Text) : Text :=
  if names = [] then []
  else "var ".toList ++ List.intercalate ", ".toList names ++ ";".toList

/-- `\bvar\s+([\w$]+(?:\s*,\s*[\w$]+)*)\s*;`, with the declaration of the names that stay in its
place. -/
def varMatcher (stripped : List Text) : Matcher Char := fun p s =>
  if p.any fun c => c.isAlphanum || c == '_' then none
  else do
    let s ← strip "var".toList s
    let s ← someSpace s
    let first ← wordRun s
    let more := moreNames first.2.length first.2
    let s ← strip ";".toList (skipSpace more.2)
    some (declaration ((first.1 :: more.1).filter (· ∉ stripped)), s)

/-! ## The script -/

/-- The names on the strip list, one on each line. -/
def stripNames (file : Text) : List Text :=
  ((file.splitOn '\n').map jsTrim).filter fun line => !line.isEmpty

/-- The variables of the script. -/
structure State where
  js : Text
  /-- `stripped` -/
  stripped : List Text
  removedAliases : Nat

/-- The loop over the strip list. -/
def stripAlias (st : State) (jsName : Text) : State :=
  if test (calledMatcher jsName) none st.js then st
  else
    match replaceFirst (aliasMatcher jsName) none st.js with
    | some js => ⟨js, jsName :: st.stripped, st.removedAliases + 1⟩
    | none => st

/-- The script: the loader it leaves, or what it throws. -/
def stripUnusedAliases (js file : Text) : Except Text Text :=
  let names := stripNames file
  if names = [] then .ok js
  else
    let st := names.foldl stripAlias ⟨js, [], 0⟩
    let js := if st.stripped = [] then st.js else replaceAll (varMatcher st.stripped) 0 none st.js
    if st.removedAliases = 0 then
      .error ("strip-unused-abi-export-aliases: ".toList ++ Nat.toDigits 10 names.length ++
        " candidates but removed 0 aliases. Emscripten loader format may have changed; ".toList ++
        "update the alias/declaration patterns.".toList)
    else .ok js

/-! ## Loaders -/

/-- Any white space. -/
structure Gap where
  text : Text
  isSpace : ∀ c ∈ text, isJsSpace c = true

/-- An identifier. -/
structure Word where
  text : Text
  ne_nil : text ≠ []
  isWord : ∀ c ∈ text, StripAliases.isWord c = true

/-- A quotation mark. -/
structure Quote where
  char : Char
  isQuote : (char == '\'' || char == '"') = true

/-- An alias statement, `_x = Module['_x'] = wasmExports['x'];`, with its indentation, and with the
line break behind it, if there is one. -/
structure Alias where
  indent : Text
  isBlank : ∀ c ∈ indent, StripAliases.isBlank c = true
  /-- What the name of the variable has in front of that of the export: Emscripten adds `_`. -/
  first : Char
  first_isWord : StripAliases.isWord first = true
  /-- The name of the export. -/
  wasmName : Text
  isWord : ∀ c ∈ wasmName, StripAliases.isWord c = true
  gaps : Fin 5 → Gap
  quotes : Fin 4 → Quote
  newline : Bool

/-- The name of the variable. -/
def Alias.jsName (a : Alias) : Text := a.first :: a.wasmName

/-- The statement behind the name of the variable. -/
def Alias.value (a : Alias) : Text :=
  (a.gaps 0).text ++ ("=".toList ++ ((a.gaps 1).text ++ ("Module".toList ++ ("[".toList ++
    ([(a.quotes 0).char] ++ (a.jsName ++ ([(a.quotes 1).char] ++ ("]".toList ++ ((a.gaps 2).text ++
      ("=".toList ++ ((a.gaps 3).text ++ ("wasmExports".toList ++ ("[".toList ++
        ([(a.quotes 2).char] ++ (a.wasmName ++ ([(a.quotes 3).char] ++ ("]".toList ++
          ((a.gaps 4).text ++ ";".toList))))))))))))))))))

def Alias.lineEnd (a : Alias) : Text := if a.newline then ['\n'] else []

def Alias.text (a : Alias) : Text := a.indent ++ (a.jsName ++ (a.value ++ a.lineEnd))

/-- A declaration of names only. -/
structure Decl where
  /-- The space behind `var`. -/
  lead : Gap
  lead_ne : lead.text ≠ []
  first : Word
  /-- The other names, with the space in front of the comma and behind it. -/
  more : List ((Gap × Gap) × Word)
  trail : Gap

def Decl.names (d : Decl) : List Text := d.first.text :: d.more.map fun e => e.2.text

/-- The declaration behind its first name. -/
def Decl.tail (more : List ((Gap × Gap) × Word)) (trail : Gap) : Text :=
  more.flatMap (fun e => e.1.1.text ++ (",".toList ++ (e.1.2.text ++ e.2.text))) ++
    (trail.text ++ ";".toList)

def Decl.text (d : Decl) : Text :=
  ("var".toList ++ (d.lead.text ++ d.first.text)) ++ Decl.tail d.more d.trail

/-- The declaration without some names.  A name goes with the comma in front of it, or with the one
behind it if it is the first. -/
def Decl.cut (removed : Text → Bool) (d : Decl) : Option Decl :=
  let more := d.more.filter fun e => !removed e.2.text
  if removed d.first.text then
    match more with
    | [] => none
    | e :: more => some { d with first := e.2, more := more }
  else some { d with more := more }

/-- A token of other code: an identifier, or anything else. -/
inductive Token
  | ident (x : Text)
  | other (t : Text)

def Token.text : Token → Text
  | ident x => x
  | other t => t

/-- Where a declaration stands. -/
inductive Place
  | top
  /-- In a function. -/
  | inner
  /-- In a string or a comment: it reads like a declaration and is none. -/
  | quoted
deriving DecidableEq

/-- What the text of an alias statement is. -/
inductive Reading
  | statement
  /-- The end of a longer statement, such as `y = _x = Module['_x'] = wasmExports['x'];`. -/
  | part
  /-- It stands in a string or a comment. -/
  | quoted
deriving DecidableEq

/-- A piece of a loader. -/
inductive Piece
  | aliasStmt (reading : Reading) (a : Alias)
  | decl (place : Place) (d : Decl)
  | code (tokens : List Token)

def Piece.text : Piece → Text
  | aliasStmt _ a => a.text
  | decl _ d => d.text
  | code tokens => tokens.flatMap Token.text

def textOf (pieces : List Piece) : Text := pieces.flatMap Piece.text

/-- The identifiers of a piece. -/
def Piece.identifiers : Piece → List Text
  | aliasStmt .quoted _ => []
  | aliasStmt _ a => [a.jsName, "Module".toList, "wasmExports".toList]
  | decl .quoted _ => []
  | decl _ d => d.names
  | code tokens => tokens.filterMap fun t => match t with
    | .ident x => some x
    | .other _ => none

/-- The identifiers of a piece, but for the name that an alias statement assigns and for those that
a declaration at the top declares. -/
def Piece.elsewhere : Piece → List Text
  | aliasStmt .statement _ => ["Module".toList, "wasmExports".toList]
  | aliasStmt reading a => (aliasStmt reading a).identifiers
  | decl .inner d => d.names
  | decl _ _ => []
  | code tokens => (code tokens).identifiers

/-- The names of a declaration at the top. -/
def Piece.topNames : Piece → List Text
  | decl .top d => d.names
  | _ => []

/-- What reads like an alias statement. -/
def Piece.isAlias : Piece → Bool
  | aliasStmt _ _ => true
  | _ => false

/-- What reads like an alias statement for `x`. -/
def Piece.isAliasOf (x : Text) : Piece → Bool
  | aliasStmt _ a => a.jsName == x
  | _ => false

/-- An alias statement. -/
def Piece.isStatement : Piece → Bool
  | aliasStmt .statement _ => true
  | _ => false

/-- An alias statement for `x`. -/
def Piece.isStatementOf (x : Text) (q : Piece) : Bool := q.isAliasOf x && q.isStatement

/-- A piece without the alias statements of some names, and without these names in a declaration at
the top. -/
def Piece.remove (removed : Text → Bool) : Piece → Option Piece
  | aliasStmt .statement a => if removed a.jsName then none else some (aliasStmt .statement a)
  | decl .top d => (d.cut removed).map (decl .top)
  | q => some q

/-- What may be left of a piece when pieces of some kind are taken out or, if they are declarations,
replaced by others.  Line breaks at the beginning of other code may go, too. -/
def Piece.Leaves (mayGo : Piece → Bool) : Piece → Text → Prop
  | code tokens, t => ∃ u, (∀ c ∈ u, c = '\n') ∧ (code tokens).text = u ++ t
  | aliasStmt reading a, t => t = a.text ∨ mayGo (aliasStmt reading a) = true ∧ t = []
  | decl place d, t =>
    t = d.text ∨ mayGo (decl place d) = true ∧ (t = [] ∨ ∃ d' : Decl, t = d'.text)

/-- What may be left of some pieces. -/
def Follows (mayGo : Piece → Bool) : List Piece → Text → Prop
  | [], s => s = []
  | q :: pieces, s => ∃ t u, q.Leaves mayGo t ∧ Follows mayGo pieces u ∧ s = t ++ u

/-- Other code: whatever may follow, a word in it ends in it, and neither an alias statement nor a
declaration of names begins in it. -/
structure IsCode (follows : Text → Prop) (t : Text) : Prop where
  word_ends : ∀ s, follows s → t.getLast?.any isWord = true → s.head?.all isJsSpace = true
  alias_quiet : ∀ (x : Word) p s, p.any isWord = false → follows s → Quiet (aliasAt x.text) p t s
  var_quiet : ∀ names p s, p.any isWord = false → follows s → Quiet (varMatcher names) p t s

/-- All other code among some pieces is as it has to be, also when pieces of some kind are taken
out. -/
def Sound (mayGo : Piece → Bool) : List Piece → Prop
  | [] => True
  | .code tokens :: pieces =>
    IsCode (Follows mayGo pieces) (Piece.code tokens).text ∧ Sound mayGo pieces
  | _ :: pieces => Sound mayGo pieces

/-- An alias statement comes next. -/
def aliasNext : List Piece → Bool
  | .aliasStmt _ _ :: _ => true
  | .code tokens :: pieces => (Piece.code tokens).text.isEmpty && aliasNext pieces
  | _ => false

/-- The blanks in front of an alias statement belong to it. -/
def Separated : List Piece → Prop
  | [] => True
  | .code tokens :: pieces =>
    (aliasNext pieces = true → (Piece.code tokens).text.getLast?.any isBlank = false) ∧
      Separated pieces
  | _ :: pieces => Separated pieces

/-- A loader. -/
structure Loader where
  pieces : List Piece
  sound : Sound Piece.isStatement pieces
  separated : Separated pieces
  /-- The line break behind an alias statement belongs to it. -/
  broken : ∀ u reading a v, pieces = u ++ .aliasStmt reading a :: v → a.newline = false →
    (textOf v).head? ≠ some '\n'

/-! ## What the script is for -/

/-- What the script may leave of a loader: the alias statements of some names are gone, and the
names with them. -/
structure Stripped (pieces : List Piece) (removed : Text → Bool) (js : Text) : Prop where
  /-- Nothing else is changed. -/
  text : js = textOf (pieces.filterMap (Piece.remove removed))
  aliased : ∀ x, removed x → pieces.any (Piece.isStatementOf x)
  /-- A name whose alias statement is gone does not occur. -/
  gone : ∀ x, removed x → ∀ q ∈ pieces.filterMap (Piece.remove removed), x ∉ q.identifiers
  /-- A name that occurs elsewhere keeps its alias statement. -/
  alias_kept : ∀ q ∈ pieces, ∀ x ∈ q.elsewhere, ∀ a ∈ pieces, a.isStatementOf x →
    a ∈ pieces.filterMap (Piece.remove removed)
  /-- And it keeps its declaration. -/
  decl_kept : ∀ q ∈ pieces, ∀ x ∈ q.elsewhere, ∀ d ∈ pieces, x ∈ d.topNames →
    ∃ d' ∈ pieces.filterMap (Piece.remove removed), x ∈ d'.topNames

/-- **What is asked of the script**: the loader it leaves is the given one without some names, and
none of them is used. -/
def StripRight (loader : Loader) (file : Text) : Prop :=
  ∀ js, stripUnusedAliases (textOf loader.pieces) file = .ok js →
    ∃ removed, Stripped loader.pieces removed js

/-- A name is called. -/
def isCalled (pieces : List Piece) (x : Text) : Bool :=
  test (calledMatcher x) none (textOf pieces)

/-- The names that are stripped: those on the list for which something reads like an alias
statement, and which are not called. -/
def isStripped (pieces : List Piece) (names : List Text) (x : Text) : Bool :=
  decide (x ∈ names) && pieces.any (Piece.isAliasOf x) && !isCalled pieces x

/-- A declaration is laid out as the script does it. -/
def LaidOut (d : Decl) : Prop := d.text = declaration d.names

instance (d : Decl) : Decidable (LaidOut d) :=
  inferInstanceAs (Decidable (d.text = declaration d.names))

/-- The first alias statement for `x` ends its line, or no empty line comes behind it. -/
def LineKept (x : Text) : List Piece → Prop
  | [] => True
  | .aliasStmt _ a :: pieces =>
    if a.jsName = x then a.newline = false → (textOf pieces).head? ≠ some '\n'
    else LineKept x pieces
  | _ :: pieces => LineKept x pieces

/-- When the first alias statements for some names are taken out, one after the other, no line
break behind them is one of other code. -/
def LinesKept (called : Text → Bool) : List Text → List Piece → Prop
  | [], _ => True
  | x :: names, pieces =>
    if called x then LinesKept called names pieces
    else LineKept x pieces ∧ LinesKept called names (pieces.eraseP (Piece.isAliasOf x))

/-- A name that is stripped does not occur elsewhere, nor in what only reads like a declaration.  As
often as it is on the list, it has alias statements in front of anything else that reads like one,
and it has no more.  If there is such a name, what stays of each declaration is laid out as the
script does it. -/
structure PiecesFit (pieces : List Piece) (names : List Text) : Prop where
  unused : ∀ x, isStripped pieces names x → ∀ q ∈ pieces, x ∉ q.elsewhere
  unquoted : ∀ x, isStripped pieces names x → ∀ d, .decl .quoted d ∈ pieces → x ∉ d.names
  statements : ∀ x, isStripped pieces names x →
    (pieces.filter (Piece.isAliasOf x)).take (names.count x) =
      pieces.filter (Piece.isStatementOf x)
  laidOut : ∀ x, isStripped pieces names x → ∀ place d, .decl place d ∈ pieces →
    ∀ d' ∈ if place = .top then d.cut (isStripped pieces names) else some d, LaidOut d'

/-- **The loaders that are stripped rightly.**  The pieces fit, and no line break is lost. -/
structure StripFits (pieces : List Piece) (names : List Text) : Prop extends
    PiecesFit pieces names where
  lines : LinesKept (isCalled pieces) names pieces

/-- The pieces can be told from the text, also when any of them are taken out.  Between an alias
statement and what only reads like one for the same name there is some other code. -/
structure Apart (pieces : List Piece) : Prop where
  sound : Sound (fun _ => true) pieces
  solid : ∀ x u q v r w, pieces = u ++ q :: (v ++ r :: w) → q.isAliasOf x = true →
    r.isAliasOf x = true → q.isStatement ≠ r.isStatement →
      ∃ tokens, .code tokens ∈ v ∧ ∃ c ∈ (Piece.code tokens).text, isJsSpace c = false

end PhpWasm.Build.StripAliases
