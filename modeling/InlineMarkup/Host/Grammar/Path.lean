import InlineMarkup.Host.Grammar.Basic

/-!
Paths with generic arguments, and paths that begin with a type in angle brackets.
-/

set_option autoImplicit false

namespace InlineMarkup.Host

def constArgument (g : Grammar) : Parser Tree := do
  let ts ← ahead
  if Look.atLiteral ts then return .node .literal [← literalToken]
  else if Look.atIdentifier ts then
    return .node .pathExpr [.node .path [segmentOf (← identifier)]]
  else if Look.atGroup .brace ts then return .node .block [← body g]
  else if ts.isEmpty then refuse (.refused "unexpected end of input") (← here)
  else refuse (.leftover none) (← here)

def atConstArgument (ts : List TokenTree) : Bool :=
  Look.atLiteral ts || Look.atGroup .brace ts

def isNameType (t : Tree) : Bool :=
  match t with
  | .node .pathType [.node .path [.node .segment [_]]] => true
  | .node .pathType [.node .path [.node .segment [_, arguments]]] => arguments.is .arguments
  | _ => false

def atConstraintEnd (ts : List TokenTree) : Bool :=
  Look.atPunct "," ts || Look.atPunct ">" ts

def nameOf : Tree → List Tree
  | .node .pathType [.node .path [segment]] => [segment]
  | t => [t]

def genericArgument (g : Grammar) : Parser Tree := do
  let ts ← ahead
  if Look.atLifetime ts && !Look.second (Look.atPunct "+") ts then lifetime
  else if atConstArgument ts then constArgument g
  else
    let type ← g.type true
    if isNameType type then
      if ← look (Look.atPunct "=") then
        let equals ← punct "="
        let value ← if ← look atConstArgument then constArgument g else g.type true
        return .node .equation (nameOf type ++ [equals, value])
      else if ← look (Look.atPunct ":") then
        let colon ← punct ":"
        let bounds ← plusList atConstraintEnd g.bound
        return .node .constraint (nameOf type ++ [colon, .node .bounds bounds])
      else return type
    else return type

def genericArgumentsAfter (g : Grammar) (colons : List Tree) : Parser Tree := do
  let less ← punct "<"
  let arguments ← separated (Look.atPunct ">") (genericArgument g) ","
  let greater ← punct ">"
  return .node .arguments (colons ++ less :: arguments ++ [greater])

def genericArguments (g : Grammar) : Parser Tree := do
  genericArgumentsAfter g (← optionalPunct "::")

/-- Whether arguments in angle brackets follow a segment. In expressions they need a double
colon, since there `<` compares. -/
def atGenericArguments (inExpr : Bool) (ts : List TokenTree) : Bool :=
  !inExpr && Look.atPunct "<" ts && !Look.atPunct "<=" ts && !Look.atPunct "<<=" ts ||
    Look.atPunct "::" ts && Look.third (Look.atPunct "<") ts

def pathSegment (g : Grammar) (inExpr : Bool) : Parser Tree := do
  let ts ← ahead
  if Look.atWord "super" ts || Look.atWord "self" ts || Look.atWord "crate" ts ||
      Look.atWord "try" ts then
    return segmentOf (← anyWord)
  else
    let name ← if Look.atWord "Self" ts then anyWord else identifier
    if ← look (atGenericArguments inExpr) then
      return .node .segment [name, ← genericArguments g]
    else return segmentOf name

def atMorePath (ts : List TokenTree) : Bool :=
  Look.atPunct "::" ts && !Look.third (Look.atGroup .parenthesis) ts

def moreSegments (g : Grammar) (inExpr : Bool) : Parser (List Tree) :=
  repeatStep do
    if ← look atMorePath then
      let colons ← punct "::"
      return ([colons, ← pathSegment g inExpr], true)
    else return ([], false)

def pathWith (g : Grammar) (inExpr : Bool) : Parser Tree := do
  let root ← optionalPunct "::"
  let first ← pathSegment g inExpr
  return .node .path (root ++ first :: (← moreSegments g inExpr))

def qualifiedSegments (g : Grammar) (inExpr : Bool) : Parser (List Tree) :=
  repeatStep do
    let segment ← pathSegment g inExpr
    if ← look (Look.atPunct "::") then return ([segment, ← punct "::"], true)
    else return ([segment], false)

/-- A path, or one that begins with a type in angle brackets; whether it is of the second kind is
in the tree. -/
def qualifiedPath (g : Grammar) (inExpr : Bool) : Parser (List Tree) := do
  if ← look (Look.atPunct "<") then
    let less ← punct "<"
    let type ← g.type true
    let trait ←
      if ← look (Look.atWord "as") then
        let as ← word "as"
        pure [as, ← pathWith g false]
      else pure []
    let greater ← punct ">"
    let colons ← punct "::"
    let segments ← qualifiedSegments g inExpr
    return [.node .qualifiedSelf (less :: type :: trait ++ [greater]),
      .node .path (colons :: segments)]
  else return [← pathWith g inExpr]

end InlineMarkup.Host
