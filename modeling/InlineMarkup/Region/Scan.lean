import InlineMarkup.Text.Blank
import InlineMarkup.Text.Alphanumeric
import InlineMarkup.Markup.Region
import InlineMarkup.Diagnostic.Basic
import InlineMarkup.Region.Table
import InlineMarkup.Region.Placeholder

/-!
Finding the markup regions of a host source.

The source is read character by character and divided into pieces: text that is kept and regions.
Regions are not looked for in comments, strings and character literals. In code, since `<` also
compares and brackets generics, a region begins only where an expression may: after certain
characters and keywords, with a tag that is not a primitive type of the host language.
-/

set_option autoImplicit false

namespace InlineMarkup

open InlineMarkup.Text InlineMarkup.Markup

namespace Scan

inductive Place where
  | code
  | lineComment
  /-- Block comments nest. -/
  | blockComment (depth : Nat)
  | quoted (quote : Char) (openedAt : Nat)
  | raw (hashes openedAt : Nat)
  deriving DecidableEq, Repr

def isWordChar (c : Char) : Bool :=
  c == '_' || isAlphanumeric c

/-- The last characters of code, blanks left out. -/
structure Context where
  last : Option Char := none
  beforeLast : Option Char := none
  word : List Char := []
  gap : Bool := false
  deriving DecidableEq, Repr

namespace Context

def endsInWord (c : Context) : Bool :=
  !c.gap && c.last.any isWordChar

def record (context : Context) (c : Char) : Context :=
  if isBlank c || c == byteOrderMark then { context with gap := true }
  else
    { last := some c
      beforeLast := context.last
      word :=
        if isWordChar c then (if context.endsInWord then context.word else []) ++ [c] else []
      gap := false }

def openers : List Char := "=([\x7b,;|&!*-+%^/~".toList

def leaders : List (List Char) := ["return".toList, "break".toList, "mut".toList]

def allowsMarkup (context : Context) : Bool :=
  match context.last with
  | none => true
  | some c =>
    if openers.contains c then true
    else if c = ':' then context.beforeLast != some ':'
    else if c = '>' then context.beforeLast == some '='
    else leaders.contains context.word

end Context

inductive Piece where
  | kept (text : List Char)
  | region (r : Region)
  deriving DecidableEq, Repr

def Piece.text : Piece → List Char
  | .kept text => text
  | .region r => r.text

structure State where
  /-- What was read, last first. -/
  behind : List Char := []
  rest : List Char
  place : Place := .code
  context : Context := {}

namespace State

def keep (s : State) (n : Nat) : Piece × State :=
  (.kept (s.rest.take n),
    { s with behind := (s.rest.take n).reverse ++ s.behind, rest := s.rest.drop n })

def offset (s : State) : Nat :=
  byteLength s.behind

end State

def primitiveTypes : List (List Char) :=
  ["bool", "char", "str", "f32", "f64", "i8", "i16", "i32", "i64", "i128", "isize", "u8", "u16",
    "u32", "u64", "u128", "usize"].map String.toList

def namesPrimitive (s : List Char) : Bool :=
  primitiveTypes.contains ((s.drop 1).takeWhile isWordChar)

def leadsToPath (s : List Char) : Bool :=
  match s.dropWhile (· != '>') with
  | _ :: ':' :: ':' :: _ => true
  | _ => false

/-- An element that is not closed, before a double colon, is likely meant as a path. -/
def withPathHint (s : List Char) (e : Markup.Error) : Markup.Error :=
  if e.fault = .unexpectedEof ∧ leadsToPath s then
    { e with
      help := some ("`<` starts markup here; call the item through its type or trait " ++
        "(`Type::item`, `Trait::item(value)`) instead of `<Type>::item`") }
  else e

/-- The number of hash signs of the raw string that begins here, if one does. It begins with the
letter `r`, alone or after one of `b` and `c`. -/
def rawHashes? (behind rest : List Char) : Option Nat :=
  match rest with
  | 'r' :: s =>
    let standsAlone := match behind with
      | 'b' :: before => !before.head?.any isWordChar
      | 'c' :: before => !before.head?.any isWordChar
      | before => !before.head?.any isWordChar
    let hashes := (s.takeWhile (· == '#')).length
    if standsAlone && (s.drop hashes).head? == some '"' then some hashes else none
  | _ => none

def code (s : State) (n : Nat) (c : Char) : Piece × State :=
  let (piece, next) := s.keep n
  (piece, { next with context := s.context.record c })

def enter (s : State) (n : Nat) (place : Place) : Piece × State :=
  let (piece, next) := s.keep n
  (piece, { next with place })

/-- An apostrophe: a character literal, or a lifetime. -/
def apostrophe (s : State) (after : List Char) : Piece × State :=
  let (piece, next) := match after with
    | '\\' :: _ => enter s 1 (.quoted '\'' s.offset)
    | _ :: '\'' :: _ => s.keep 3
    | _ => s.keep 1
  (piece, { next with context := s.context.record '\'' })

def angle (s : State) : Except Error (Piece × State) := do
  let found ←
    if namesPrimitive s.rest then pure none
    else (capture s.rest).mapError fun e => .markup ((withPathHint s.rest e).shift s.offset)
  match found with
  | none => return code s 1 '<'
  | some captured =>
    let (_, next) := code s captured.text.length ')'
    return (.region ⟨s.offset, captured.text, captured.root⟩, next)

def inCode (s : State) (c : Char) (after : List Char) : Except Error (Piece × State) :=
  if c = '"' then
    let (piece, next) := enter s 1 (.quoted '"' s.offset)
    .ok (piece, { next with context := s.context.record '"' })
  else if c = '\'' then .ok (apostrophe s after)
  else if c = '/' ∧ after.head? = some '/' then .ok (enter s 2 .lineComment)
  else if c = '/' ∧ after.head? = some '*' then .ok (enter s 2 (.blockComment 1))
  else if c = '<' ∧ s.context.allowsMarkup then angle s
  else
    match rawHashes? s.behind s.rest with
    | some hashes =>
      let (piece, next) := enter s (hashes + 2) (.raw hashes s.offset)
      .ok (piece, { next with context := s.context.record '"' })
    | none => .ok (code s 1 c)

def inBlockComment (s : State) (depth : Nat) (c : Char) (after : List Char) : Piece × State :=
  if c = '*' ∧ after.head? = some '/' then
    enter s 2 (if depth ≤ 1 then .code else .blockComment (depth - 1))
  else if c = '/' ∧ after.head? = some '*' then enter s 2 (.blockComment (depth + 1))
  else s.keep 1

def inRaw (s : State) (hashes : Nat) (c : Char) (after : List Char) : Piece × State :=
  if c = '"' ∧ hashes ≤ (after.takeWhile (· == '#')).length then enter s (hashes + 1) .code
  else s.keep 1

def step (s : State) (c : Char) (after : List Char) : Except Error (Piece × State) :=
  match s.place with
  | .code => inCode s c after
  | .lineComment => .ok (if c = '\n' then enter s 1 .code else s.keep 1)
  | .blockComment depth => .ok (inBlockComment s depth c after)
  | .quoted quote _ =>
    .ok (if c = '\\' then s.keep 2 else if c = quote then enter s 1 .code else s.keep 1)
  | .raw hashes _ => .ok (inRaw s hashes c after)

def finish (source : List Char) : Place → Except Error (List Piece)
  | .quoted quote openedAt =>
    .error (.lexical { LexicalError.unterminatedString (byteLength source) openedAt quote with
      snippet := String.ofList (dropBytes openedAt source) })
  | .raw hashes openedAt =>
    .error (.lexical { LexicalError.unterminatedRawString (byteLength source) openedAt hashes with
      snippet := String.ofList (dropBytes openedAt source) })
  | _ => .ok []

def readFrom (source : List Char) : Nat → State → Except Error (List Piece)
  | 0, s => finish source s.place
  | fuel + 1, s =>
    match s.rest with
    | [] => finish source s.place
    | c :: after => do
      let (piece, next) ← step s c after
      return piece :: (← readFrom source fuel next)

def pieces (source : List Char) : Except Error (List Piece) :=
  readFrom source (source.length + 1) { rest := source }

end Scan

structure Scanned where
  source : List Char
  table : RegionTable
  deriving DecidableEq, Repr

def regionsOf : List Scan.Piece → List Region
  | [] => []
  | .kept _ :: ps => regionsOf ps
  | .region r :: ps => r :: regionsOf ps

/-- The text of pieces with calls for the regions, whose ids are counted on from `id`. -/
def annotateFrom (placeholder : Host.Path) (id : Nat) : List Scan.Piece → List Char
  | [] => []
  | .kept text :: ps => text ++ annotateFrom placeholder id ps
  | .region r :: ps =>
    placeholderCall placeholder id r.text ++ annotateFrom placeholder (id + 1) ps

/-- The source with its regions, each replaced by a call of the placeholder function. -/
def scan (placeholder : Host.Path) (source : List Char) : Except Error Scanned := do
  let pieces ← Scan.pieces source
  return ⟨annotateFrom placeholder 1 pieces, ⟨regionsOf pieces⟩⟩

def Scanned.outline (s : Scanned) : List Char :=
  s.source ++ "\n---\n".toList ++ s.table.outline

end InlineMarkup
