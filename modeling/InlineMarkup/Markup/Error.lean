/-!
What can be wrong with markup. An error names its fault and carries the texts that its wording
needs; positions are byte offsets into the text that was read.
-/

set_option autoImplicit false

namespace InlineMarkup.Markup

inductive Fault where
  | tagMismatch
  | unexpectedEof
  /-- A semicolon stands where an element was still open. -/
  | trailingContent
  | strayClosingTag
  | unterminatedTag
  | unterminatedComment
  | unterminatedAttributeValue
  deriving DecidableEq, Repr

def Fault.description : Fault → String
  | .tagMismatch => "mismatched closing tag"
  | .unexpectedEof => "unexpected end of input"
  | .trailingContent => "trailing content before closing tag"
  | .strayClosingTag => "closing tag with no open element"
  | .unterminatedTag => "unterminated tag"
  | .unterminatedComment => "unterminated markup comment"
  | .unterminatedAttributeValue => "unterminated attribute value"

def Fault.suggestion : Fault → String
  | .tagMismatch | .unexpectedEof | .trailingContent =>
    "close every element before the end of the expression"
  | .strayClosingTag => "remove the closing tag or add its opening tag"
  | .unterminatedTag => "add > to close the tag"
  | .unterminatedComment => "add --> to close the comment"
  | .unterminatedAttributeValue => "add the closing quote to the attribute value"

structure Error where
  fault : Fault
  position : Nat
  expected : Option String := none
  found : Option String := none
  snippet : String := ""
  help : Option String := none
  deriving DecidableEq, Repr

namespace Error

def tagMismatch (position : Nat) (expected found : String) : Error :=
  { fault := .tagMismatch, position, expected := some expected, found := some found }

def unexpectedEof (position : Nat) (expected : String) : Error :=
  { fault := .unexpectedEof, position, expected := some expected }

def trailingContent (position : Nat) (expected content : String) : Error :=
  { fault := .trailingContent, position, expected := some expected, snippet := content }

def strayClosingTag (position : Nat) (found : String) : Error :=
  { fault := .strayClosingTag, position, found := some found }

def shift (base : Nat) (e : Error) : Error :=
  { e with position := e.position + base }

def advice (e : Error) : String :=
  e.help.getD e.fault.suggestion

def headline (e : Error) : String :=
  let expected := e.expected.getD ""
  let found := e.found.getD ""
  match e.fault with
  | .tagMismatch => s!"expected closing tag '{expected}' but was '{found}'"
  | .unexpectedEof => s!"unexpected end of input, expected closing tag '{expected}'"
  | .trailingContent => s!"expected closing tag '{expected}', found trailing content"
  | .strayClosingTag => s!"unexpected closing tag '{found}' with no open element"
  | f => f.description

def message (e : Error) : String :=
  let snippet := if e.snippet.isEmpty then "" else s!"\n  --> '{e.snippet}'"
  let help := match e.help with
    | some help => s!"\n  help: {help}"
    | none => ""
  s!"{e.headline} at position {e.position}{snippet}{help}"

end Error

end InlineMarkup.Markup
