import InlineMarkup.Diagnostic.Basic
import InlineMarkup.Generated.OfElement
import InlineMarkup.Region.Scan
import InlineMarkup.Reconcile.Edit
import InlineMarkup.Reconcile.Substitute
import InlineMarkup.Pretty.File

/-!
Putting generated code in place of placeholder calls.

Every region must be placed exactly once: a call for an id without region, with another text than
its region's, or for an id that was placed before, is an error, and so is a region that no call
stands for.
-/

set_option autoImplicit false

namespace InlineMarkup

open InlineMarkup.Text InlineMarkup.Host

structure Reconciled where
  source : List Char
  items : Nat
  file : Host.Tree

/-- The error of a value, at the place of the region that holds it. -/
def Error.locatedAt (offset : Nat) : Error → Error
  | .lexical e => .lexical { e with position := offset, openedAt := none }
  | .generation e => .generation (e.locatedAt offset)
  | e => e

def generateAll (config : Config) : List Region → Except Error (List Generated)
  | [] => return []
  | r :: rs => do
    let g ← (Generated.ofElement config r.root).mapError (·.locatedAt r.offset)
    return g :: (← generateAll config rs)

def checkCall (table : RegionTable) (placed : List Nat) (call : PlaceholderCall) :
    Except PlacementError Unit :=
  match table.get? call.id with
  | none => .error (.unknownId call.id call.snippet)
  | some r =>
    if r.text ≠ call.text ∨ call.id ∈ placed then .error (.foreign call.id call.snippet)
    else .ok ()

/-- Reads and checks calls in order; `placed` holds the ids of earlier ones. -/
def placeCalls (table : RegionTable) (placed : List Nat) :
    List Host.Tree → Except PlacementError (List PlaceholderCall)
  | [] => return []
  | t :: ts => do
    let call ← PlaceholderCall.ofTree t
    checkCall table placed call
    return call :: (← placeCalls table (call.id :: placed) ts)

def unplaced? (table : RegionTable) (calls : List PlaceholderCall) : Option (Nat × Region) :=
  table.numbered.find? fun (id, _) => !calls.any (·.id == id)

def editFor (source : List Char) (generated : List Generated) (call : PlaceholderCall) :
    Option Edit :=
  match generated[call.id - 1]? with
  | none => none
  | some g =>
    let start := call.start.offset source
    some ⟨start, call.stop.offset source, g.render ⟨lineIndent source start, lineBreak source⟩⟩

def replacement (generated : List Generated) (call : Host.Tree) : Host.Tree :=
  match PlaceholderCall.ofTree call with
  | .error _ => call
  | .ok c =>
    match generated[c.id - 1]? with
    | some g => g.toTree
    | none => call

def spliced (source : List Char) (generated : List Generated) (calls : List PlaceholderCall) :
    List Char :=
  Edit.apply source (calls.filterMap (editFor source generated))

def replaced (config : Config) (generated : List Generated) (file : Host.Tree) : Host.Tree :=
  substitute config.placeholder (replacement generated) file

def printed (config : Config) (source : List Char) (generated : List Generated) (file : Host.Tree) :
    List Char :=
  Pretty.file (interpreterLine? (dropByteOrderMark source)) (replaced config generated file)

def itemCount (file : Host.Tree) : Nat :=
  file.parts.length

def reconcile (config : Config) (scanned : Scanned) : Except Error Reconciled := do
  let source := scanned.source
  let file ← (parseFile source).mapError fun r => .host (.ofRefusal source r)
  let generated ← generateAll config scanned.table.regions
  let calls ← (placeCalls scanned.table [] (callsOf config.placeholder file)).mapError .placement
  match unplaced? scanned.table calls with
  | some (id, r) => throw (.placement (.unplaced id r.offset (String.ofList r.text)))
  | none =>
    let tree := replaced config generated file
    match config.emit with
    | .splice => return ⟨spliced source generated calls, itemCount file, tree⟩
    | .pretty => return ⟨printed config source generated file, itemCount file, tree⟩

end InlineMarkup
