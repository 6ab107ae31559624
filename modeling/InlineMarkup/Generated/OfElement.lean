import InlineMarkup.Segment
import InlineMarkup.Markup.Tree
import InlineMarkup.Config.Basic
import InlineMarkup.Diagnostic.Basic
import InlineMarkup.Generated.Basic

/-!
From elements to calls: one call per element, first the call that takes its attributes, if it has
any, then its children in order.

Attributes are of four kinds. The words of the class attribute are the arguments of one call; the
spread attribute is one block of embedded code, passed on as it is; the value of a handler, in
braces or not, is one expression; every other attribute has one value, a string or one block.
-/

set_option autoImplicit false

namespace InlineMarkup

open InlineMarkup.Text InlineMarkup.Markup

namespace Generated

def ofCode (code : List Char) : Except Error Generated :=
  let source := trim code
  match Host.parseExpr source with
  | .ok expr => .ok (.host expr source)
  | .error refusal =>
    .error (.generation
      (.invalidExpression (String.ofList code) refusal.complaint.message))

/-- A segment as an argument; as a child, a literal is made a text node. -/
def ofSegment (config : Config) (child : Bool) : Segment → Except Error Generated
  | .literal text =>
    .ok (if child then .call config.api.text [.str text] else .str text)
  | .embedded code modifier => do
    let value ← ofCode code
    match modifier with
    | some .text => return .call config.api.text [value]
    | none => return value

def segmentsOf (value : List Char) : Except Error (List Segment) :=
  (Segment.split value).mapError .lexical

def ofValue (config : Config) (context : String) (value : List Char) :
    Except Error Generated := do
  match ← segmentsOf value with
  | [segment] => ofSegment config false segment
  | _ => throw (.generation (.tooManySegments context (String.ofList value)))

/-- Handlers may be written in braces. -/
def stripBraces (value : List Char) : List Char :=
  match trim value with
  | '\x7b' :: inner =>
    if inner.getLast? = some '\x7d' then inner.dropLast else '\x7b' :: inner
  | bare => bare

def ofAttribute (config : Config) (tag : List Char) (a : Attribute) :
    Except Error Generated := do
  let name := String.ofList a.name
  let element := String.ofList tag
  let context := s!"attribute '{name}' of <{element}>"
  if a.name = config.classAttribute then
    return .call config.api.classes (← (words a.value).mapM (ofValue config context))
  else if a.name = config.spreadAttribute then
    match ← segmentsOf a.value with
    | [.embedded code modifier] => ofSegment config false (.embedded code modifier)
    | _ => throw (.generation (.spreadNotEmbedded context (String.ofList a.value)))
  else
    match config.handlers.get? a.name with
    | some handler => return .call handler [← ofCode (stripBraces a.value)]
    | none => return .call config.api.named [.str a.name, ← ofValue config context a.value]

def ofAttributes (config : Config) (tag : List Char) (attributes : List Attribute) :
    Except Error (List Generated) := do
  match attributes with
  | [] => return []
  | _ => return [.call config.api.markup (← attributes.mapM (ofAttribute config tag))]

/-- The function that builds an element, and the arguments it takes before all others. -/
def builder (config : Config) (tag : List Char) : Host.Path × List Generated :=
  match config.tags.get? tag with
  | some function => (function, [])
  | none => (config.api.rawTag, [.str tag])

mutual

def ofNode (config : Config) : Node → Except Error (List Generated)
  | .text content => do
    (← segmentsOf content).mapM (ofSegment config true)
  | .element tag attributes children => do
    let (function, first) := builder config tag
    let group ← ofAttributes config tag attributes
    let rest ← ofNodes config children
    return [.call function (first ++ group ++ rest)]

def ofNodes (config : Config) : List Node → Except Error (List Generated)
  | [] => return []
  | n :: ns => do
    let first ← ofNode config n
    return first ++ (← ofNodes config ns)

end

def ofElement (config : Config) (e : Element) : Except Error Generated := do
  let (function, first) := builder config e.name
  let group ← ofAttributes config e.name e.attributes
  let rest ← ofNodes config e.children
  return .call function (first ++ group ++ rest)

end Generated

end InlineMarkup
