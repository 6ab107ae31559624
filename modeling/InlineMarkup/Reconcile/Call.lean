import InlineMarkup.Host.Literal
import InlineMarkup.Host.Path
import InlineMarkup.Diagnostic.Placement

/-!
Placeholder calls in a host syntax tree.

They are found in the order in which the parts of the language are visited: attributes, those
inside of a body included, then generic parameters with their where clause, then all else as it
stands. A placeholder call is not searched for others.
-/

set_option autoImplicit false

namespace InlineMarkup

open InlineMarkup.Text InlineMarkup.Host

def Host.Path.isNamedBy (function : Host.Path) (source : Host.Path) : Bool :=
  function.rooted == source.rooted &&
    function.segments.map (·.name) == source.segments.map (·.name) &&
    source.segments.all (·.arguments.isNone)

/-- The callee's path and the arguments of a call of a plain path. -/
def pathCall? (t : Host.Tree) : Option (Host.Tree × Host.Tree) :=
  match t with
  | .node .call _ =>
    match t.parts with
    | [callee, group] =>
      if callee.is .pathExpr then
        match callee.parts with
        | [path] => some (path, group)
        | _ => none
      else none
    | _ => none
  | _ => none

def isCallOf (function : Host.Path) (t : Host.Tree) : Bool :=
  match pathCall? t with
  | some (path, _) => function.isNamedBy (Host.Path.ofTree path)
  | none => false

/-- When a part is visited, relative to the other parts of its parent. -/
def rank (t : Host.Tree) : Nat :=
  if t.is .outerAttribute then 0
  else if t.is .innerAttribute then 1
  else if t.is .generics then 2
  else if t.is .whereClause then 3
  else 4

def inOrder (found : List (Nat × Host.Tree)) : List Host.Tree :=
  (List.range 5).flatMap fun r => (found.filter (·.1 == r)).map (·.2)

mutual

/-- The calls of a function in a part, each with the rank it has among the other parts of its
parent. Attributes inside of a body come next to those outside. -/
def rankedCalls (function : Host.Path) : Host.Tree → List (Nat × Host.Tree)
  | .token _ => []
  | .raw _ => []
  | .body _ arguments => (rankedCallsOf function arguments).map fun (_, c) => (4, c)
  | .group _ _ _ children =>
    -- inner attributes keep their rank on the way out of a group, all else is body
    (rankedCallsOf function children).map fun (r, c) => (if r = 1 then 1 else 4, c)
  | .node kind children =>
    let t := Host.Tree.node kind children
    let found :=
      if isCallOf function t then [t] else inOrder (rankedCallsOf function children)
    found.map fun c => (rank t, c)

def rankedCallsOf (function : Host.Path) : List Host.Tree → List (Nat × Host.Tree)
  | [] => []
  | t :: ts => rankedCalls function t ++ rankedCallsOf function ts

end

def callsOf (function : Host.Path) (t : Host.Tree) : List Host.Tree :=
  (rankedCalls function t).map (·.2)

structure PlaceholderCall where
  id : Nat
  text : List Char
  start : Mark
  stop : Mark
  snippet : String

def idLimit : Nat := Nat.pow 2 64

def literalText? (t : Host.Tree) : Option (List Char) :=
  if t.is .literal then
    match t.parts with
    | [.token [.literal s _]] => some s
    | _ => none
  else none

def idOf? (t : Host.Tree) : Option Nat := do
  let s ← literalText? t
  let (n, _) ← Literal.integer? s
  if n < idLimit then some n else none

def textOf? (t : Host.Tree) : Option (List Char) :=
  (literalText? t).bind Literal.string?

def argumentsOf (group : Host.Tree) : List Host.Tree :=
  group.children.filter (·.kind?.isSome)

def PlaceholderCall.ofTree (call : Host.Tree) : Except PlacementError PlaceholderCall :=
  let snippet := String.ofList call.text
  match pathCall? call with
  | some (path, .group _ _ closing children) =>
    match argumentsOf (.group .parenthesis closing closing children) with
    | [first, second] =>
      match idOf? first, textOf? second with
      | some id, some text => .ok ⟨id, text, path.start, closing.stop, snippet⟩
      | _, _ => .error (.malformed snippet)
    | _ => .error (.malformed snippet)
  | _ => .error (.malformed snippet)

end InlineMarkup
