import InlineMarkup.Text.Blank
import InlineMarkup.Diagnostic.Lexical

/-!
Segments: the text of an element or the value of an attribute, split into literal text and
embedded code in braces.

Literal text is cut at line breaks and trimmed, and what is blank is dropped. Embedded code is
kept as written, save for a modifier `s:` in front, which asks for the value as text. Braces do
not nest, and embedded code stays on one line.
-/

set_option autoImplicit false

namespace InlineMarkup

open InlineMarkup.Text

inductive Modifier where
  | text
  deriving DecidableEq, Repr

def Modifier.letter : Modifier → Char
  | .text => 's'

def Modifier.ofLetter? (c : Char) : Option Modifier :=
  if c = 's' then some .text else none

inductive Segment where
  | literal (text : List Char)
  | embedded (code : List Char) (modifier : Option Modifier)
  deriving DecidableEq, Repr

namespace Segment

def source : Segment → List Char
  | .literal text => text
  | .embedded code (some m) => '\x7b' :: m.letter :: ':' :: code ++ ['\x7d']
  | .embedded code none => '\x7b' :: code ++ ['\x7d']

def ofLiteral (run : List Char) : List Segment :=
  if trim run = [] then [] else [.literal (trim run)]

/-- The segment of a block with the given code, which starts at `position`. A double colon is part
of a path and no modifier. -/
def ofCode (position : Nat) (code : List Char) : Except LexicalError (List Segment) :=
  match code with
  | [] => .ok []
  | letter :: ':' :: c :: rest =>
    if letter.isLower && c != ':' then
      match Modifier.ofLetter? letter with
      | some m => .ok [.embedded (c :: rest) (some m)]
      | none => .error (LexicalError.invalidModifier position letter (String.ofList code))
    else .ok [.embedded code none]
  | _ => .ok [.embedded code none]

inductive Place where
  | literal
  | embedded (openedAt : Nat)
  deriving DecidableEq, Repr

/-- Reads on at offset `position` of `input`; `run` is what was read of the present run. -/
def readFrom (input : List Char) (place : Place) (run : List Char) (position : Nat) :
    List Char → Except LexicalError (List Segment)
  | [] =>
    match place with
    | .literal => .ok (ofLiteral run)
    | .embedded openedAt =>
      .error (LexicalError.unterminatedEmbedded position openedAt (String.ofList input))
  | c :: s =>
    match place with
    | .literal =>
      if c = '\x7b' then
        (readFrom input (.embedded position) [] (position + c.utf8Size) s).map (ofLiteral run ++ ·)
      else if c = '\x7d' then
        .error { fault := .unexpectedCloseBrace, position, snippet := String.ofList input }
      else if c = '\n' then
        (readFrom input .literal [] (position + c.utf8Size) s).map (ofLiteral run ++ ·)
      else readFrom input .literal (run ++ [c]) (position + c.utf8Size) s
    | .embedded openedAt =>
      if c = '\x7b' then
        .error { fault := .nestedEmbeddedCode, position, snippet := String.ofList input,
                 openedAt := some openedAt }
      else if c = '\x7d' then do
        let block ← ofCode (openedAt + 1) run
        let rest ← readFrom input .literal [] (position + c.utf8Size) s
        .ok (block ++ rest)
      else if c = '\n' then
        .error { fault := .newlineInEmbeddedCode, position, snippet := String.ofList input,
                 openedAt := some openedAt }
      else readFrom input (.embedded openedAt) (run ++ [c]) (position + c.utf8Size) s

/-- The segments of a text. A text without content has one empty literal. -/
def split (input : List Char) : Except LexicalError (List Segment) :=
  (readFrom input .literal [] 0 input).map fun segments =>
    if segments = [] then [.literal []] else segments

end Segment

end InlineMarkup
