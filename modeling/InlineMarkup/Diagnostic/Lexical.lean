/-!
Errors on the level of characters, shared by the scanner of host sources and the splitting of
values into segments. Positions are byte offsets into the text that was read.
-/

set_option autoImplicit false

namespace InlineMarkup

inductive LexicalFault where
  | unterminatedString
  | unterminatedRawString
  | unterminatedEmbeddedCode
  | newlineInEmbeddedCode
  | nestedEmbeddedCode
  | unexpectedCloseBrace
  | invalidModifier
  deriving DecidableEq, Repr

def LexicalFault.description : LexicalFault → String
  | .unterminatedString => "unterminated string literal"
  | .unterminatedRawString => "unterminated raw string literal"
  | .unterminatedEmbeddedCode => "missing closing '\x7d' for embedded code"
  | .newlineInEmbeddedCode => "illegal character '\\n' in embedded code block"
  | .nestedEmbeddedCode => "cannot nest expressions in embedded code"
  | .unexpectedCloseBrace => "unexpected '\x7d'"
  | .invalidModifier => "invalid expression modifier"

def LexicalFault.suggestion : LexicalFault → String
  | .unterminatedString => "add the closing quote"
  | .unterminatedRawString => "close the raw string with \" followed by the same number of #"
  | .unterminatedEmbeddedCode => "add \x7d to close the embedded code"
  | .newlineInEmbeddedCode => "keep embedded code on a single line"
  | .nestedEmbeddedCode => "move the inner expression into a variable before the markup"
  | .unexpectedCloseBrace => "remove the \x7d or open the block with \x7b"
  | .invalidModifier => "the only supported modifier is `s:` (render as text)"

structure LexicalError where
  fault : LexicalFault
  position : Nat
  context : String := ""
  snippet : String := ""
  found : Option String := none
  help : Option String := none
  /-- Where an unfinished construct began. -/
  openedAt : Option Nat := none
  deriving DecidableEq, Repr

namespace LexicalError

def unterminatedString (position openedAt : Nat) (quote : Char) : LexicalError :=
  { fault := .unterminatedString, position, openedAt := some openedAt,
    context := s!"literal starting with {quote}", found := some "end of input" }

def unterminatedRawString (position openedAt hashes : Nat) : LexicalError :=
  { fault := .unterminatedRawString, position, openedAt := some openedAt,
    context := s!"raw string with {hashes} '#'", found := some "end of input" }

def unterminatedEmbedded (position openedAt : Nat) (input : String) : LexicalError :=
  { fault := .unterminatedEmbeddedCode, position, openedAt := some openedAt,
    context := "embedded code", snippet := input, found := some "end of input" }

def invalidModifier (position : Nat) (letter : Char) (code : String) : LexicalError :=
  { fault := .invalidModifier, position, context := "embedded code", snippet := code,
    found := some s!"'{letter}'" }

/-- The error of a part, seen from the whole in which the part starts at `base`. -/
def shift (base : Nat) (e : LexicalError) : LexicalError :=
  { e with position := e.position + base, openedAt := e.openedAt.map (· + base) }

def advice (e : LexicalError) : String :=
  e.help.getD e.fault.suggestion

def message (e : LexicalError) : String :=
  let found := match e.found with
    | some found => s!", found {found}"
    | none => ""
  let context := if e.context.isEmpty then "" else s!" while lexing {e.context}"
  let openedAt := match e.openedAt with
    | some openedAt => s!" (opened at position {openedAt})"
    | none => ""
  let snippet := if e.snippet.isEmpty then "" else s!"\n  --> '{e.snippet}'"
  s!"Lex error at position {e.position}: {e.fault.description}{found}{context}{openedAt}" ++
    s!"{snippet}\n  help: {e.advice}"

end LexicalError

end InlineMarkup
