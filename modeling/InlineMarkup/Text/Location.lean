import InlineMarkup.Text.Basic

/-!
Places in a text by line and column, and their byte offsets.

A `Location` counts lines and columns from one, for people. A `Mark` counts columns from zero and
does not count a byte order mark at the front, which the host reader never sees. Columns are
characters, and lines end at line feeds only.
-/

set_option autoImplicit false

namespace InlineMarkup.Text

structure Location where
  line : Nat
  column : Nat
  deriving DecidableEq, Repr

def lastLine (s : List Char) : List Char :=
  (s.reverse.takeWhile (· != '\n')).reverse

/-- An offset past the end means the end, one inside a character that character. -/
def Location.ofOffset (source : List Char) (offset : Nat) : Location :=
  let before := takeBytes offset source
  ⟨before.count '\n' + 1, (lastLine before).length + 1⟩

structure Mark where
  line : Nat
  column : Nat
  deriving DecidableEq, Repr

def Mark.first : Mark := ⟨1, 0⟩

def Mark.after (m : Mark) (c : Char) : Mark :=
  if c = '\n' then ⟨m.line + 1, 0⟩ else ⟨m.line, m.column + 1⟩

def byteOrderMark : Char := '\ufeff'

def dropByteOrderMark : List Char → List Char
  | [] => []
  | c :: s => if c = byteOrderMark then s else c :: s

def afterLines : Nat → List Char → Option (List Char)
  | 0, s => some s
  | n + 1, s =>
    match s.dropWhile (· != '\n') with
    | [] => none
    | _ :: rest => afterLines n rest

def fromLine (source : List Char) : Nat → Option (List Char)
  | 0 => none
  | n + 1 => afterLines n (dropByteOrderMark source)

/-- Byte offset of a mark; the end of the text where there is no such line or column. -/
def Mark.offset (source : List Char) (m : Mark) : Nat :=
  match fromLine source m.line with
  | none => byteLength source
  | some tail => offsetOf source (tail.drop m.column)

end InlineMarkup.Text
