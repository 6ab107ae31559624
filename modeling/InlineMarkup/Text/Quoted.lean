import InlineMarkup.Text.Printable

/-!
Texts in double quotes. Tab, line breaks, quote and backslash have letters of their own; a
character without a glyph or one that extends its neighbour is written as its number in braces.
-/

set_option autoImplicit false

namespace InlineMarkup.Text

def hex (n : Nat) : List Char :=
  Nat.toDigits 16 n

def escapeChar (c : Char) : List Char :=
  if c = '\t' then ['\\', 't']
  else if c = '\r' then ['\\', 'r']
  else if c = '\n' then ['\\', 'n']
  else if c = '"' then ['\\', '"']
  else if c = '\\' then ['\\', '\\']
  else if c = '\x00' then ['\\', '0']
  else if isExtender c || isGlyphless c then ['\\', 'u', '\x7b'] ++ hex c.toNat ++ ['\x7d']
  else [c]

def quoted (s : List Char) : List Char :=
  '"' :: s.flatMap escapeChar ++ ['"']

/-- The body of a string literal. NUL is written in two hexadecimal digits where an octal digit
follows, so that the two cannot be read together. -/
def literalBody : List Char → List Char
  | [] => []
  | '\x00' :: s =>
    match s with
    | d :: _ => if '0' ≤ d ∧ d ≤ '7' then ['\\', 'x', '0', '0'] ++ literalBody s
                else ['\\', '0'] ++ literalBody s
    | [] => ['\\', '0']
  | c :: s => escapeChar c ++ literalBody s

def stringLiteral (s : List Char) : List Char :=
  '"' :: literalBody s ++ ['"']

end InlineMarkup.Text
