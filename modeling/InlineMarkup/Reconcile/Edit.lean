import InlineMarkup.Text.Blank
import InlineMarkup.Text.Location

/-!
Edits: ranges of bytes of a text, each with the text that takes its place.
-/

set_option autoImplicit false

namespace InlineMarkup

open InlineMarkup.Text

structure Edit where
  start : Nat
  stop : Nat
  text : List Char
  deriving DecidableEq, Repr

namespace Edit

/-- Copies a text from an offset on, with the edits made that stand there in order. -/
def applyFrom (source : List Char) (offset : Nat) : List Edit → List Char
  | [] => dropBytes offset source
  | e :: es =>
    takeBytes (e.start - offset) (dropBytes offset source) ++ e.text ++
      applyFrom source e.stop es

def apply (source : List Char) (edits : List Edit) : List Char :=
  applyFrom source 0 (edits.mergeSort fun a b => a.start ≤ b.start)

end Edit

/-- The blanks that the line of an offset begins with, as far as the offset. -/
def lineIndent (source : List Char) (offset : Nat) : List Char :=
  (lastLine (takeBytes offset source)).takeWhile isBlank

def lineBreak (source : List Char) : List Char :=
  if (cut ['\r', '\n'] source).isSome then ['\r', '\n'] else ['\n']

end InlineMarkup
