import InlineMarkup.Text.Blank
import InlineMarkup.Text.Location

/-!
Reports: a message with the line of source it is about and a caret under the offending column.

A tab takes four columns. A line of more than a hundred columns is cut to forty on either side of
the caret, with dots where something was left out.
-/

set_option autoImplicit false

namespace InlineMarkup

open InlineMarkup.Text

structure Report where
  message : String
  source : List Char
  position : Nat
  filename : String := "input"
  note : Option String := none
  help : Option String := none

namespace Report

def tabWidth : Nat := 4

def longestLine : Nat := 100

def reach : Nat := 40

def dots : List Char := ['.', '.', '.']

def expandTab (c : Char) : List Char :=
  if c = '\t' then List.replicate tabWidth ' ' else [c]

def expandTabs (line : List Char) : List Char :=
  line.flatMap expandTab

def shownColumn (line : List Char) (index : Nat) : Nat :=
  (expandTabs (line.take index)).length

/-- The part of a line to show, and the column of the caret in it. -/
def window (line : List Char) (column : Nat) : List Char × Nat :=
  if line.length ≤ longestLine then (line, column)
  else
    let start := min (column - reach) line.length
    let stop := min (column + reach) line.length
    let left := if 0 < start then dots else []
    let right := if stop < line.length then dots else []
    (left ++ (line.take stop).drop start ++ right, column - start + left.length)

def excerpt (number : Nat) (line : List Char) (column : Nat) (note : String) : String :=
  let (shown, caret) := window (expandTabs line) (shownColumn line (column - 1))
  let number := toString number
  let gutter := String.ofList (List.replicate number.length ' ')
  let under := gutter.toList ++ " | ".toList ++ List.replicate caret ' ' ++ "^ ".toList ++
    note.toList
  s!"{gutter} |\n{number} | {String.ofList shown}\n{String.ofList (trimEnd under)}\n"

def render (r : Report) : String :=
  let place := Location.ofOffset r.source r.position
  let excerpt := match (lines r.source)[place.line - 1]? with
    | some line => excerpt place.line line place.column (r.note.getD "")
    | none => ""
  let help := match r.help with
    | some help => s!"help: {help}\n"
    | none => ""
  s!"error: {r.message}\n --> {r.filename}:{place.line}:{place.column}\n{excerpt}{help}"

end Report

end InlineMarkup
