import InlineMarkup.Diagnostic.Lexical
import InlineMarkup.Diagnostic.Generation
import InlineMarkup.Diagnostic.Placement
import InlineMarkup.Diagnostic.Host
import InlineMarkup.Diagnostic.Report
import InlineMarkup.Markup.Error

/-!
All that can stop a compilation, and how it is shown.

An error that knows its place in the source is shown with the line it is about, any other by its
message.
-/

set_option autoImplicit false

namespace InlineMarkup

inductive Error where
  | lexical (e : LexicalError)
  | markup (e : Markup.Error)
  | generation (e : GenerationError)
  | placement (e : PlacementError)
  | host (e : HostError)
  /-- Bytes that are no UTF-8, and the offset of the first that is wrong. -/
  | encoding (position : Nat)
  deriving DecidableEq, Repr

namespace Error

def message : Error → String
  | .lexical e => e.message
  | .markup e => e.message
  | .generation e => e.message
  | .placement e => e.message
  | .host e => e.display
  | .encoding position => s!"source is not valid UTF-8 (first invalid byte at {position})"

def position? : Error → Option Nat
  | .lexical e => some e.position
  | .markup e => some e.position
  | .generation e => e.position
  | .placement e => e.position
  | .host _ => none
  | .encoding position => some position

def summary : Error → String
  | .lexical e => e.fault.description
  | .markup e => e.headline
  | .generation e => e.summary
  | .placement e => e.summary
  | .host e => e.message
  | .encoding _ => "source is not valid UTF-8"

def advice? : Error → Option String
  | .lexical e => some e.advice
  | .markup e => some e.advice
  | .generation e => e.advice?
  | .placement e => some e.fault.suggestion
  | .host _ => none
  | .encoding _ => none

def note? : Error → Option String
  | .lexical e => e.found.map fun found => s!"found: {found}"
  | .markup e => e.found.map fun found => s!"found: {found}"
  | _ => none

def hasCause : Error → Bool
  | .encoding _ => false
  | _ => true

def render (e : Error) (source : List Char) (filename : String) : String :=
  match e.position? with
  | none => s!"error: {e.message}\n"
  | some position =>
    Report.render
      { message := e.summary, source, position, filename, note := e.note?,
        help := e.advice? }

end Error

end InlineMarkup
