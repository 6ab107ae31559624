import InlineMarkup.Host.Parser

/-!
The grammar of the host language is recursive all over: expressions hold blocks, which hold items,
which hold types, which hold expressions. Each construct is therefore written against a `Grammar`,
the parsers for what may stand inside of it. The knot is tied once, by levels of nesting.
-/

set_option autoImplicit false

namespace InlineMarkup.Host

/-- The parsers that constructs call for their parts. -/
structure Grammar where
  /-- An expression; whether a struct literal may stand where a brace follows a path. -/
  expr : Bool → Parser Tree
  unary : Bool → Parser Tree
  /-- An expression that may end at its closing brace, as a statement does. -/
  bounded : Parser Tree
  /-- A type; whether bounds may be joined to it by a plus sign. -/
  type : Bool → Parser Tree
  bound : Parser Tree
  pattern : Parser Tree
  statements : Parser (List Tree)
  item : Parser Tree

namespace Grammar

def exhausted : Grammar where
  expr _ := expected ["an expression"]
  unary _ := expected ["an expression"]
  bounded := expected ["an expression"]
  type _ := expected ["a type"]
  bound := expected ["a bound"]
  pattern := expected ["a pattern"]
  statements := expected ["a statement"]
  item := expected ["an item"]

end Grammar

def atPathWord (ts : List TokenTree) : Bool :=
  Look.atIdentifier ts || Look.atWord "super" ts || Look.atWord "self" ts ||
    Look.atWord "Self" ts || Look.atWord "crate" ts

def segmentOf (w : Tree) : Tree :=
  .node .segment [w]

def modulePath : Parser Tree := do
  let root ← optionalPunct "::"
  let segments ← repeatStep do
    if ← look atPathWord then
      let segment := segmentOf (← anyWord)
      if ← look (Look.atPunct "::") then return ([segment, ← punct "::"], true)
      else return ([segment], false)
    else return ([], false)
  match segments.getLast? with
  | none => identifier
  | some last =>
    if last.isToken "::" then forbid "expected path segment after `::`"
    else return .node .path (root ++ segments)

def isModulePath (path : Tree) : Bool :=
  path.children.all fun c => !c.is .segment || c.children.length == 1

def parenthesised (t : Tree) : Tree :=
  .group .parenthesis Span.nowhere Span.nowhere [t]

def macroArguments (g : Grammar) (contents : List TokenTree) : List Tree :=
  match (commaList (g.expr true)).run ⟨contents, Text.Mark.first, none⟩ with
  | .ok (arguments, input) =>
    if input.rest.isEmpty && input.leftover.isNone then arguments else []
  | .error _ => []

def macroGroup (g : Grammar) : Parser Tree := do
  match ← anyGroup with
  | .group delimiter contents opening closing =>
    return .group delimiter opening closing [.body contents (macroArguments g contents)]
  | t => return .raw [t]

def isBraceGroup : Tree → Bool
  | .group .brace _ _ _ => true
  | _ => false

def atBang (ts : List TokenTree) : Bool :=
  Look.atPunct "!" ts && !Look.atPunct "!=" ts

def attributeArgument (g : Grammar) : Parser (List Tree) := do
  let ts ← ahead
  match ts with
  | .group delimiter contents opening closing :: _ =>
    let _ ← anyGroup
    return [.group delimiter opening closing [.raw contents]]
  | _ =>
    if Look.atPunct "=" ts && !Look.atPunct "==" ts && !Look.atPunct "=>" ts then
      let equals ← punct "="
      let literal ← tentatively do
        let literal ← literalToken
        if ← isEmpty then return literal else expected ["literal"]
      match literal with
      | some literal => return [equals, .node .literal [literal]]
      | none =>
        if ← look fun ts => Look.atPunct "#" ts && Look.second (Look.atGroup .bracket) ts then
          forbid "unexpected attribute inside of attribute"
        else return [equals, ← g.expr true]
    else return []

def attributeContents (g : Grammar) : Parser (List Tree) := do
  let path ←
    if ← look (Look.atWord "unsafe") then
      pure (.node .path [segmentOf (← word "unsafe")])
    else modulePath
  return path :: (← attributeArgument g)

def outerAttribute (g : Grammar) : Parser Tree := do
  let pound ← punct "#"
  return .node .outerAttribute [pound, ← inGroup .bracket (attributeContents g)]

def innerAttribute (g : Grammar) : Parser Tree := do
  let pound ← punct "#"
  let bang ← punct "!"
  return .node .innerAttribute [pound, bang, ← inGroup .bracket (attributeContents g)]

def outerAttributes (g : Grammar) : Parser (List Tree) :=
  whileSeen (Look.atPunct "#") (outerAttribute g)

def innerAttributes (g : Grammar) : Parser (List Tree) :=
  whileSeen (fun ts => Look.atPunct "#" ts && Look.second (Look.atPunct "!") ts) (innerAttribute g)

def atBuiltin (ts : List TokenTree) : Bool :=
  Look.atWord "builtin" ts && Look.second (Look.atPunct "#") ts

def anything : Parser (List Tree) := do
  let ts ← ahead
  modify fun input => { input with rest := [] }
  return [.raw ts]

/-- A form that only the compiler knows; it is kept as written. -/
def builtinForm : Parser Tree := do
  let start ← ahead
  let _ ← word "builtin"
  let _ ← punct "#"
  let _ ← identifier
  let _ ← inGroup .parenthesis anything
  verbatimSince start

def body (g : Grammar) : Parser Tree :=
  inGroup .brace do
    let attributes ← innerAttributes g
    return attributes ++ (← g.statements)

def block (g : Grammar) : Parser Tree :=
  inGroup .brace g.statements

end InlineMarkup.Host
