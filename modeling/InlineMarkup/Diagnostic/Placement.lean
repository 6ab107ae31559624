/-!
Errors in putting generated code in place of placeholder calls.
-/

set_option autoImplicit false

namespace InlineMarkup

inductive PlacementFault where
  | unknownId
  | malformedPlaceholder
  /-- A placeholder call has another text than its region, or is the second of its id. -/
  | foreignPlaceholder
  /-- A region stands where no expression does. -/
  | unplacedRegion
  deriving DecidableEq, Repr

def PlacementFault.description : PlacementFault → String
  | .unknownId => "referenced html id not found"
  | .malformedPlaceholder => "invalid placeholder call, must have an integer id and a string"
  | .foreignPlaceholder => "placeholder call does not belong to a captured region"
  | .unplacedRegion => "markup region is not in an expression position"

def PlacementFault.suggestion : PlacementFault → String
  | .unknownId | .malformedPlaceholder | .foreignPlaceholder =>
    "placeholder calls are generated; do not write them by hand"
  | .unplacedRegion => "move the markup into a let binding, return value, argument or block tail"

structure PlacementError where
  fault : PlacementFault
  id : Option Nat := none
  position : Option Nat := none
  snippet : String := ""
  deriving DecidableEq, Repr

namespace PlacementError

def unknownId (id : Nat) (snippet : String) : PlacementError :=
  { fault := .unknownId, id := some id, snippet }

def foreign (id : Nat) (snippet : String) : PlacementError :=
  { fault := .foreignPlaceholder, id := some id, snippet }

def malformed (snippet : String) : PlacementError :=
  { fault := .malformedPlaceholder, snippet }

def unplaced (id position : Nat) (text : String) : PlacementError :=
  { fault := .unplacedRegion, id := some id, position := some position, snippet := text }

def summary (e : PlacementError) : String :=
  match e.id with
  | some id => s!"{e.fault.description} (id {id})"
  | none => e.fault.description

def message (e : PlacementError) : String :=
  let position := match e.position with
    | some position => s!" at position {position}"
    | none => ""
  let snippet := if e.snippet.isEmpty then "" else s!"\n  --> '{e.snippet}'"
  s!"Reconcile error: {e.summary}{position}{snippet}\n  help: {e.fault.suggestion}"

end PlacementError

end InlineMarkup
