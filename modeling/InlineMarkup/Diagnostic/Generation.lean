/-!
Errors of code generation. The tree was read; a value in it cannot become an argument.
-/

set_option autoImplicit false

namespace InlineMarkup

inductive GenerationFault where
  /-- One argument was asked for and the value makes none or several. -/
  | tooManySegments
  | spreadNotEmbedded
  | invalidExpression
  deriving DecidableEq, Repr

def GenerationFault.description : GenerationFault → String
  | .tooManySegments => "only a single expression is allowed"
  | .spreadNotEmbedded => "spread attribute must be a single embedded expression"
  | .invalidExpression => "embedded code is not a valid expression"

def GenerationFault.suggestion? : GenerationFault → Option String
  | .tooManySegments =>
    some "build the value with format!() and embed it as one \x7bexpression\x7d"
  | .spreadNotEmbedded => some "write the value as \x7bexpression\x7d"
  | .invalidExpression => none

structure GenerationError where
  fault : GenerationFault
  found : String
  context : String := ""
  detail : Option String := none
  /-- Advice in place of the fault's own suggestion. -/
  help : Option String := none
  position : Option Nat := none
  deriving DecidableEq, Repr

namespace GenerationError

def tooManySegments (context value : String) : GenerationError :=
  { fault := .tooManySegments, found := value, context }

def spreadNotEmbedded (context value : String) : GenerationError :=
  { fault := .spreadNotEmbedded, found := value, context }

def invalidExpression (code detail : String) : GenerationError :=
  { fault := .invalidExpression, found := code, detail := some detail }

/-- Names the region, unless one is named. -/
def locatedAt (position : Nat) (e : GenerationError) : GenerationError :=
  { e with position := e.position.or (some position) }

def advice? (e : GenerationError) : Option String :=
  e.help.or e.fault.suggestion?

def summary (e : GenerationError) : String :=
  let context := if e.context.isEmpty then "" else s!" in {e.context}"
  let detail := match e.detail with
    | some detail => s!" ({detail})"
    | none => ""
  s!"{e.fault.description}{context}: '{e.found}'{detail}"

def message (e : GenerationError) : String :=
  let position := match e.position with
    | some position => s!" (region at position {position})"
    | none => ""
  let help := match e.advice? with
    | some help => s!"\n  help: {help}"
    | none => ""
  s!"Codegen error: {e.summary}{position}{help}"

end GenerationError

end InlineMarkup
