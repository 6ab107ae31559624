import InlineMarkup.Text.Blank
import InlineMarkup.Host.Complaint

/-!
Errors of the host language's grammar about an annotated source.
-/

set_option autoImplicit false

namespace InlineMarkup

open InlineMarkup.Text

structure HostError where
  message : String
  /-- Line of the annotated source, counted from one. -/
  line : Nat
  column : Nat
  snippet : List Char := []
  deriving DecidableEq, Repr

namespace HostError

def ofRefusal (annotated : List Char) (r : Host.Refusal) : HostError where
  message := r.complaint.message
  line := r.mark.line
  column := r.mark.column
  snippet := ((lines annotated)[r.mark.line - 1]?).getD []

def display (e : HostError) : String :=
  let shown := String.ofList (trim e.snippet)
  let snippet := if e.snippet.isEmpty then "" else s!"\n  --> '{shown}'"
  s!"failed to parse annotated source at {e.line}:{e.column}: {e.message}{snippet}"

end HostError

end InlineMarkup
