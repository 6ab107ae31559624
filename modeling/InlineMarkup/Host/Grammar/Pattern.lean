import InlineMarkup.Host.Literal
import InlineMarkup.Host.Grammar.Type

/-!
Patterns.
-/

set_option autoImplicit false

namespace InlineMarkup.Host

def atBar (ts : List TokenTree) : Bool :=
  Look.atPunct "|" ts && !Look.atPunct "||" ts && !Look.atPunct "|=" ts

def patternWithBars (g : Grammar) : Parser Tree := do
  let bar ← optionalPunct "|"
  let first ← g.pattern
  if !bar.isEmpty || (← look atBar) then
    let more ← repeatStep do
      if ← look atBar then
        let bar ← punct "|"
        return ([bar, ← g.pattern], true)
      else return ([], false)
    return .node .orPattern (bar ++ first :: more)
  else return first

/-- Three dots, which are an old sign of the closed range, as the present one. -/
def closedRange (dots : Tree) : Tree :=
  match dots with
  | .token [first, second, .punct _ joint span] => .token [first, second, .punct '=' joint span]
  | t => t

def rangeLimits (obsolete : Bool) : Parser Tree := do
  let ts ← ahead
  if Look.atPunct "..=" ts then punct "..="
  else if Look.atPunct "..." ts then
    if obsolete then return closedRange (← punct "...") else expected ["`..=`"]
  else if Look.atPunct ".." ts then punct ".."
  else expected ["`..`"]

def atRangeEnd (ts : List TokenTree) : Bool :=
  ts.isEmpty || Look.atPunct "|" ts || Look.atPunct "=" ts ||
    Look.atPunct ":" ts && !Look.atPunct "::" ts || Look.atPunct "," ts || Look.atPunct ";" ts ||
    Look.atWord "if" ts

def constBlock (g : Grammar) : Parser Tree := do
  let keyword ← word "const"
  return .node .constBlock [keyword, ← body g]

def rangeBound (g : Grammar) : Parser (List Tree) := do
  let ts ← ahead
  if atRangeEnd ts then return []
  else if Look.atLiteral ts then return [.node .literal [← literalToken]]
  else if atPathType ts then return [.node .pathExpr (← qualifiedPath g true)]
  else if Look.atWord "const" ts then return [← constBlock g]
  else
    expected ["literal", "identifier", "`::`", "`<`", "`self`", "`Self`", "`super`", "`crate`",
      "`const`"]

def rangePattern (g : Grammar) (lower : List Tree) : Parser Tree := do
  let sign ← rangeLimits true
  let upper ← rangeBound g
  if upper.isEmpty && !sign.isToken ".." then forbid "expected range upper bound"
  return .node .rangePattern (lower ++ sign :: upper)

def openRangePattern (g : Grammar) : Parser Tree := do
  let sign ← rangeLimits false
  let upper ← rangeBound g
  if !upper.isEmpty then return .node .rangePattern (sign :: upper)
  else if sign.isToken ".." then return .node .restPattern [sign]
  else forbid "expected range upper bound"

def literalOrRangePattern (g : Grammar) : Parser Tree := do
  let lower ← rangeBound g
  if ← look (Look.atPunct "..") then rangePattern g lower
  else
    match lower with
    | [.node .literal parts] => return .node .literalPattern parts
    | [.node .pathExpr parts] => return .node .pathPattern parts
    | [.node .constBlock parts] => return .node .constPattern parts
    | parts => return .node .literalPattern parts

def identifierPattern (g : Grammar) : Parser Tree := do
  let reference ← optionalWord "ref"
  let mutability ← optionalWord "mut"
  let name ← if ← look (Look.atWord "self") then anyWord else identifier
  let sub ←
    if ← look (Look.atPunct "@") then
      let sign ← punct "@"
      pure [sign, ← g.pattern]
    else pure []
  return .node .identifierPattern (reference ++ mutability ++ name :: sub)

/-- The number of a field, written without underscores or leading zeros. -/
def fieldNumber (s : List Char) (span : Span) : Parser Tree :=
  match Literal.fieldNumber s with
  | .ok n => return .token [.literal (toString n).toList span]
  | .error fault => refuse (.refused fault) span.start

def member : Parser Tree := do
  let ts ← ahead
  if Look.atIdentifier ts then identifier
  else
    match takeLiteral ts with
    | some (s, span, rest) =>
      if Literal.isInteger s then
        let number ← fieldNumber s span
        modify fun input => { input with rest }
        return number
      else forbid "expected identifier or integer"
    | none => forbid "expected identifier or integer"

def isNamed : Tree → Bool
  | .token [.word _ _] => true
  | _ => false

def fieldPattern (g : Grammar) (attributes : List Tree) : Parser Tree := do
  let start ← ahead
  let boxed ← optionalWord "box"
  let reference ← optionalWord "ref"
  let mutability ← optionalWord "mut"
  let modifiers := boxed ++ reference ++ mutability
  let name ← if modifiers.isEmpty then member else identifier
  if modifiers.isEmpty && (← look (Look.atPunct ":")) || !isNamed name then
    let colon ← punct ":"
    return .node .fieldPattern (attributes ++ [name, colon, ← patternWithBars g])
  else if boxed.isEmpty then
    return .node .fieldPattern
      (attributes ++ [.node .identifierPattern (reference ++ mutability ++ [name])])
  else return .node .fieldPattern (attributes ++ [← verbatimSince start])

def structPattern (g : Grammar) (path : List Tree) : Parser Tree := do
  let fields ← inGroup .brace do
    repeatStep do
      if ← isEmpty then return ([], false)
      let attributes ← outerAttributes g
      if ← look (Look.atPunct "..") then
        return ([.node .restPattern (attributes ++ [← punct ".."])], false)
      let field ← fieldPattern g attributes
      if ← isEmpty then return ([field], false)
      return ([field, ← punct ","], true)
  return .node .structPattern (path ++ [fields])

def pathPattern (g : Grammar) : Parser Tree := do
  let path ← qualifiedPath g true
  let ts ← ahead
  match path with
  | [one] =>
    if atBang ts && isModulePath one then
      let bang ← punct "!"
      return .node .macroPattern [one, bang, ← macroGroup g]
  | _ => pure ()
  if Look.atGroup .brace ts then structPattern g path
  else if Look.atGroup .parenthesis ts then
    let elements ← inGroup .parenthesis (commaList (patternWithBars g))
    return .node .tupleStructPattern (path ++ [elements])
  else if Look.atPunct ".." ts then rangePattern g [.node .pathExpr path]
  else return .node .pathPattern path

def parenPattern (g : Grammar) : Parser Tree := do
  let group ← inGroup .parenthesis (commaList (patternWithBars g))
  match group.children with
  | [one] =>
    if one.is .restPattern then return .node .tuplePattern [group]
    else return .node .parenPattern [group]
  | _ => return .node .tuplePattern [group]

def halfRangeSign? (t : Tree) : Option Tree :=
  match t with
  | .node .rangePattern [.token sign, _] => some (.token sign)
  | .node .rangePattern [_, .token sign] => some (.token sign)
  | _ => none

def slicePattern (g : Grammar) : Parser Tree := do
  let element : Parser Tree := do
    let pattern ← patternWithBars g
    match halfRangeSign? pattern with
    | some sign =>
      refuse (.refused "range pattern is not allowed unparenthesized inside slice pattern")
        sign.start
    | none => return pattern
  return .node .slicePattern [← inGroup .bracket (commaList element)]

def referencePattern (g : Grammar) : Parser Tree := do
  let ampersand ← punct "&"
  let mutability ← optionalWord "mut"
  return .node .referencePattern (ampersand :: mutability ++ [← g.pattern])

def boxPattern (g : Grammar) : Parser Tree := do
  let start ← ahead
  let _ ← word "box"
  let _ ← g.pattern
  verbatimSince start

def atPathPattern (ts : List TokenTree) : Bool :=
  Look.atIdentifier ts &&
      (Look.second (Look.atPunct "::") ts || Look.second (Look.atPunct "!") ts ||
        Look.second (Look.atGroup .brace) ts || Look.second (Look.atGroup .parenthesis) ts ||
        Look.second (Look.atPunct "..") ts) ||
    Look.atWord "self" ts && Look.second (Look.atPunct "::") ts ||
    Look.atPunct "::" ts || Look.atPunct "<" ts || Look.atWord "Self" ts ||
    Look.atWord "super" ts || Look.atWord "crate" ts

def patternOne (g : Grammar) : Parser Tree := do
  let ts ← ahead
  if atPathPattern ts then pathPattern g
  else if Look.atWord "_" ts then return .node .wildPattern [← word "_"]
  else if Look.atWord "box" ts then boxPattern g
  else if Look.atPunct "-" ts || Look.atLiteral ts || Look.atWord "const" ts then
    literalOrRangePattern g
  else if Look.atWord "ref" ts || Look.atWord "mut" ts || Look.atWord "self" ts ||
      Look.atIdentifier ts then
    identifierPattern g
  else if Look.atPunct "&" ts then referencePattern g
  else if Look.atGroup .parenthesis ts then parenPattern g
  else if Look.atGroup .bracket ts then slicePattern g
  else if Look.atPunct ".." ts && !Look.atPunct "..." ts then openRangePattern g
  else
    expected (["identifier", "`::`", "`<`", "`_`", "literal", "`const`", "`ref`", "`mut`", "`&`",
      "parentheses", "square brackets"] ++ nameUnless (Look.atPunct ".." ts) "`..`" ++ ["`const`"])

end InlineMarkup.Host
