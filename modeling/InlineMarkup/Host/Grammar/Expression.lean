import InlineMarkup.Host.Grammar.Pattern

/-!
Expressions. Binary operators are read by climbing their precedences.
-/

set_option autoImplicit false

namespace InlineMarkup.Host

namespace Precedence

def jump : Nat := 0
def assign : Nat := 1
def range : Nat := 2
def or : Nat := 3
def and : Nat := 4
def condition : Nat := 5
def compare : Nat := 6
def bitOr : Nat := 7
def bitXor : Nat := 8
def bitAnd : Nat := 9
def shift : Nat := 10
def sum : Nat := 11
def product : Nat := 12
def cast : Nat := 13
def unary : Nat := 14
def atom : Nat := 15

end Precedence

/-- The binary operators with their precedences, longer ones first where one begins another. -/
def operators : List (String × Nat) :=
  [("+=", Precedence.assign), ("-=", Precedence.assign), ("*=", Precedence.assign),
    ("/=", Precedence.assign), ("%=", Precedence.assign), ("^=", Precedence.assign),
    ("&=", Precedence.assign), ("|=", Precedence.assign), ("<<=", Precedence.assign),
    (">>=", Precedence.assign), ("&&", Precedence.and), ("||", Precedence.or),
    ("<<", Precedence.shift), (">>", Precedence.shift), ("==", Precedence.compare),
    ("<=", Precedence.compare), ("!=", Precedence.compare), (">=", Precedence.compare),
    ("+", Precedence.sum), ("-", Precedence.sum), ("*", Precedence.product),
    ("/", Precedence.product), ("%", Precedence.product), ("^", Precedence.bitXor),
    ("&", Precedence.bitAnd), ("|", Precedence.bitOr), ("<", Precedence.compare),
    (">", Precedence.compare)]

def operatorAt? (ts : List TokenTree) : Option (String × Nat) :=
  operators.find? fun (op, _) => Look.atPunct op ts

def atAssign (ts : List TokenTree) : Bool :=
  Look.atPunct "=" ts && !Look.atPunct "=>" ts

def precedenceAt (ts : List TokenTree) : Nat :=
  match operatorAt? ts with
  | some (_, precedence) => precedence
  | none =>
    if atAssign ts then Precedence.assign
    else if Look.atPunct ".." ts then Precedence.range
    else if Look.atWord "as" ts then Precedence.cast
    else Precedence.jump

def isComparison (t : Tree) : Bool :=
  match t with
  | .node .binary [_, op, _] =>
    ["==", "!=", "<", ">", "<=", ">="].any fun s => op.isToken s
  | _ => false

def atRangeStop (struct : Bool) (ts : List TokenTree) : Bool :=
  ts.isEmpty || Look.atPunct "," ts || Look.atPunct ";" ts ||
    Look.atPunct "." ts && !Look.atPunct ".." ts || Look.atPunct "?" ts || Look.atPunct "=>" ts ||
    !struct && Look.atGroup .brace ts || Look.atPunct "=" ts || Look.atPunct "+" ts ||
    Look.atPunct "/" ts || Look.atPunct "%" ts || Look.atPunct "^" ts || Look.atPunct ">" ts ||
    Look.atPunct "<=" ts || Look.atPunct "!=" ts || Look.atPunct "-=" ts || Look.atPunct "*=" ts ||
    Look.atPunct "&=" ts || Look.atPunct "|=" ts || Look.atPunct "<<=" ts || Look.atWord "as" ts

/-- After a cast, nothing that binds tighter may follow. -/
def checkCast : Parser Unit := do
  let ts ← ahead
  let follower : Option String :=
    if Look.atPunct "." ts && !Look.atPunct ".." ts then
      if Look.second (Look.atWord "await") ts then some "`.await`"
      else if Look.second Look.atIdentifier ts &&
          (Look.third (Look.atGroup .parenthesis) ts || Look.third (Look.atPunct "::") ts) then
        some "a method call"
      else some "a field access"
    else if Look.atPunct "?" ts then some "`?`"
    else if Look.atGroup .bracket ts then some "indexing"
    else if Look.atGroup .parenthesis ts then some "a function call"
    else none
  match follower with
  | some follower => forbid s!"casts cannot be followed by {follower}"
  | none => return ()

def beginsWithOperand (k : Kind) : Bool :=
  [Kind.binary, .assign, .cast, .range, .call, .methodCall, .field, .index, .await,
    .tryPostfix].contains k

mutual

/-- Puts parentheses around a plain block that an expression begins with. In a condition it could
be taken for the body that follows. -/
def guardBlock : Tree → Tree
  | .node k children =>
    match k, children with
    | .block, [group] => .node .paren [parenthesised (.node .block [group])]
    | k, children => if beginsWithOperand k then .node k (guardFirst children) else .node k children
  | t => t

def guardFirst : List Tree → List Tree
  | [] => []
  | t :: ts => if t.is .outerAttribute then t :: guardFirst ts else guardBlock t :: ts

end

mutual

def climb (g : Grammar) (struct : Bool) (least : Nat) : Nat → Tree → Parser Tree
  | 0, left => return left
  | fuel + 1, left => do
    let ts ← ahead
    -- a range is not continued by operators
    if left.is .range then return left
    match operatorAt? ts with
    | some (op, precedence) =>
      if precedence < least then return left
      if precedence == Precedence.compare && isComparison left then
        forbid "comparison operators cannot be chained"
      let sign ← punct op
      let right ← operand g struct precedence fuel
      climb g struct least fuel (.node .binary [left, sign, right])
    | none =>
      if Precedence.assign ≥ least && atAssign ts then
        let sign ← punct "="
        let right ← operand g struct Precedence.assign fuel
        climb g struct least fuel (.node .assign [left, sign, right])
      else if Precedence.range ≥ least && Look.atPunct ".." ts then
        let sign ← rangeLimits false
        let upper ← rangeUpper g struct sign fuel
        climb g struct least fuel (.node .range (left :: sign :: upper))
      else if Precedence.cast ≥ least && Look.atWord "as" ts then
        let as ← word "as"
        let type ← g.type false
        checkCast
        climb g struct least fuel (.node .cast [left, as, type])
      else return left

def operand (g : Grammar) (struct : Bool) (precedence : Nat) : Nat → Parser Tree
  | 0 => g.unary struct
  | fuel + 1 => do
    let first ← g.unary struct
    extend g struct precedence fuel first

/-- Lets operators that bind tighter take a right side as their left. -/
def extend (g : Grammar) (struct : Bool) (precedence : Nat) : Nat → Tree → Parser Tree
  | 0, right => return right
  | fuel + 1, right => do
    let ts ← ahead
    let next := precedenceAt ts
    if next > precedence || next == precedence && precedence == Precedence.assign then
      let longer ← climb g struct next fuel right
      if (← ahead).length == ts.length then return longer
      else extend g struct precedence fuel longer
    else return right

def rangeUpper (g : Grammar) (struct : Bool) (sign : Tree) : Nat → Parser (List Tree)
  | 0 => return []
  | fuel + 1 => do
    if sign.isToken ".." && (← look (atRangeStop struct)) then return []
    else
      let upper ← operand g struct Precedence.range fuel
      return [if struct then upper else guardBlock upper]

end

def climbFuel : Parser Nat :=
  return 4 * (← ahead).length + 4

def continueExpr (g : Grammar) (struct : Bool) (left : Tree) : Parser Tree := do
  climb g struct Precedence.jump (← climbFuel) left

def exprList (g : Grammar) : Parser (List Tree) :=
  commaList (g.expr true)

def parenExpr (g : Grammar) : Parser Tree := do
  let group ← inGroup .parenthesis do
    if ← isEmpty then return []
    let first ← g.expr true
    let more ← repeatStep do
      if ← isEmpty then return ([], false)
      let comma ← punct ","
      if ← isEmpty then return ([comma], false)
      return ([comma, ← g.expr true], true)
    return first :: more
  match group.children with
  | [_] => return .node .paren [group]
  | _ => return .node .tuple [group]

def arrayExpr (g : Grammar) : Parser Tree := do
  let group ← inGroup .bracket do
    if ← isEmpty then return []
    let first ← g.expr true
    let ts ← ahead
    if ts.isEmpty || Look.atPunct "," ts then
      let more ← repeatStep do
        if ← isEmpty then return ([], false)
        let comma ← punct ","
        if ← isEmpty then return ([comma], false)
        return ([comma, ← g.expr true], true)
      return first :: more
    else if Look.atPunct ";" ts then
      let semicolon ← punct ";"
      return [first, semicolon, ← g.expr true]
    else forbid "expected `,` or `;`"
  match group.children with
  | [_, sign, _] =>
    if sign.isToken ";" then return .node .repeatArray [group] else return .node .array [group]
  | _ => return .node .array [group]

def fieldValue (g : Grammar) : Parser Tree := do
  let attributes ← outerAttributes g
  let name ← member
  if (← look (Look.atPunct ":")) || !isNamed name then
    let colon ← punct ":"
    return .node .fieldValue (attributes ++ [name, colon, ← g.expr true])
  else return .node .fieldValue (attributes ++ [name])

def structExpr (g : Grammar) (path : List Tree) : Parser Tree := do
  let fields ← inGroup .brace do
    repeatStep do
      if ← isEmpty then return ([], false)
      if ← look (Look.atPunct "..") then
        let dots ← punct ".."
        if ← isEmpty then return ([dots], false)
        return ([dots, ← g.expr true], false)
      let field ← fieldValue g
      if ← isEmpty then return ([field], false)
      return ([field, ← punct ","], true)
  return .node .structExpr (path ++ [fields])

def pathExpr (g : Grammar) (struct : Bool) : Parser Tree := do
  let path ← qualifiedPath g true
  let ts ← ahead
  match path with
  | [one] =>
    if atBang ts && isModulePath one then
      let bang ← punct "!"
      return .node .macroCall [one, bang, ← macroGroup g]
  | _ => pure ()
  if struct && Look.atGroup .brace ts then structExpr g path
  else return .node .pathExpr path

def ifFuel (g : Grammar) : Nat → Parser Tree
  | 0 => expected ["`if`"]
  | fuel + 1 => do
    let keyword ← word "if"
    let condition ← g.expr false
    let branch ← block g
    if ← look (Look.atWord "else") then
      let otherwise ← word "else"
      let ts ← ahead
      if Look.atWord "if" ts then
        return .node .ifExpr [keyword, condition, branch, otherwise, ← ifFuel g fuel]
      else if Look.atGroup .brace ts then
        return .node .ifExpr [keyword, condition, branch, otherwise, .node .block [← block g]]
      else expected ["`if`", "curly braces"]
    else return .node .ifExpr [keyword, condition, branch]

def ifExpr (g : Grammar) : Parser Tree := do
  ifFuel g ((← ahead).length + 1)

def whileLoop (g : Grammar) : Parser Tree := do
  let keyword ← word "while"
  let condition ← g.expr false
  return .node .whileLoop [keyword, condition, ← body g]

def forLoop (g : Grammar) : Parser Tree := do
  let keyword ← word "for"
  let pattern ← patternWithBars g
  let in' ← word "in"
  let source ← g.expr false
  return .node .forLoop [keyword, pattern, in', source, ← body g]

def loop (g : Grammar) : Parser Tree := do
  let keyword ← word "loop"
  return .node .loop [keyword, ← body g]

/-- Expressions that end at their closing brace, and so need no separator behind them. -/
def endsAtBrace (t : Tree) : Bool :=
  match t with
  | .node k _ =>
    [Kind.ifExpr, .matchExpr, .block, .unsafeBlock, .whileLoop, .loop, .forLoop, .tryBlock,
      .constBlock].contains k
  | _ => false

def arm (g : Grammar) : Parser Tree := do
  let attributes ← outerAttributes g
  let pattern ← patternWithBars g
  let guard ←
    if ← look (Look.atWord "if") then
      let keyword ← word "if"
      pure [keyword, ← g.expr true]
    else pure []
  let arrow ← punct "=>"
  let value ← g.bounded
  let comma ←
    if !endsAtBrace value && !(← isEmpty) then pure [← punct ","] else optionalPunct ","
  return .node .arm (attributes ++ pattern :: guard ++ arrow :: value :: comma)

def matchExpr (g : Grammar) : Parser Tree := do
  let keyword ← word "match"
  let subject ← g.expr false
  let arms ← inGroup .brace do
    let attributes ← innerAttributes g
    return attributes ++ (← untilEmpty (arm g))
  return .node .matchExpr [keyword, subject, arms]

def unsafeBlock (g : Grammar) : Parser Tree := do
  let keyword ← word "unsafe"
  return .node .unsafeBlock [keyword, ← body g]

def asyncBlock (g : Grammar) : Parser Tree := do
  let keyword ← word "async"
  let move ← optionalWord "move"
  return .node .asyncBlock (keyword :: move ++ [← block g])

def tryBlock (g : Grammar) : Parser Tree := do
  let keyword ← word "try"
  return .node .tryBlock [keyword, ← block g]

def blockExpr (g : Grammar) : Parser Tree :=
  return .node .block [← body g]

def labeled (g : Grammar) : Parser Tree := do
  let name ← lifetime
  let colon ← punct ":"
  let label := Tree.node .label [name, colon]
  let ts ← ahead
  let named ←
    if Look.atWord "while" ts then whileLoop g
    else if Look.atWord "for" ts then forLoop g
    else if Look.atWord "loop" ts then loop g
    else if Look.atGroup .brace ts then blockExpr g
    else forbid "expected loop or block expression"
  return named.withAttributes [label]

def closureArgument (g : Grammar) : Parser Tree := do
  let attributes ← outerAttributes g
  let pattern ← g.pattern
  if ← look (Look.atPunct ":") then
    let colon ← punct ":"
    return .node .typedPattern (attributes ++ [pattern, colon, ← g.type true])
  else
    match pattern with
    | .node .verbatim _ => return pattern
    | .node .rangePattern _ =>
      if attributes.isEmpty then return pattern
      else return .node .parenPattern (attributes ++ [parenthesised pattern])
    | _ => return pattern.withAttributes attributes

def closure (g : Grammar) (struct : Bool) : Parser Tree := do
  let lifetimes ← boundLifetimes g
  let constness ← optionalWord "const"
  let movability ← optionalWord "static"
  let asyncness ← optionalWord "async"
  let capture ← optionalWord "move"
  let left ← punct "|"
  let inputs ← separated (Look.atPunct "|") (closureArgument g) ","
  let right ← punct "|"
  let head := lifetimes ++ constness ++ movability ++ asyncness ++ capture ++
    left :: inputs ++ [right]
  if ← look (Look.atPunct "->") then
    let arrow ← punct "->"
    let type ← g.type true
    return .node .closure (head ++ [.node .returnType [arrow, type], .node .block [← block g]])
  else return .node .closure (head ++ [← g.expr struct])

def canBeginExpr (ts : List TokenTree) : Bool :=
  Look.atAnyWord ts && !Look.atWord "as" ts || Look.atGroup .parenthesis ts ||
    Look.atGroup .bracket ts || Look.atGroup .brace ts || Look.atLiteral ts ||
    Look.atPunct "!" ts && !Look.atPunct "!=" ts ||
    Look.atPunct "-" ts && !Look.atPunct "-=" ts && !Look.atPunct "->" ts ||
    Look.atPunct "*" ts && !Look.atPunct "*=" ts || Look.atPunct "|" ts && !Look.atPunct "|=" ts ||
    Look.atPunct "&" ts && !Look.atPunct "&=" ts ||
    Look.atPunct ".." ts && !Look.atPunct "..." ts ||
    Look.atPunct "<" ts && !Look.atPunct "<=" ts && !Look.atPunct "<<=" ts ||
    Look.atPunct "::" ts || Look.atLifetime ts || Look.atPunct "#" ts

def breakExpr (g : Grammar) (struct : Bool) : Parser Tree := do
  let keyword ← word "break"
  let mark ← here
  if ← look fun ts => Look.atLifetime ts && Look.second (Look.atPunct ":") ts then
    let _ ← g.expr true
    refuse (.refused "parentheses required") mark
  let label ← optional Look.atLifetime lifetime
  let ts ← ahead
  let value ←
    if canBeginExpr ts && (struct || !Look.atGroup .brace ts) then pure [← g.expr true]
    else pure []
  return .node .breakExpr (keyword :: label ++ value)

def continueStatement : Parser Tree := do
  let keyword ← word "continue"
  return .node .continueExpr (keyword :: (← optional Look.atLifetime lifetime))

def returnExpr (g : Grammar) : Parser Tree := do
  let keyword ← word "return"
  let value ← if ← look canBeginExpr then pure [← g.expr true] else pure []
  return .node .returnExpr (keyword :: value)

def yieldExpr (g : Grammar) : Parser Tree := do
  let keyword ← word "yield"
  let value ← if ← look canBeginExpr then pure [← g.expr true] else pure []
  return .node .yieldExpr (keyword :: value)

def letCondition (g : Grammar) (struct : Bool) : Parser Tree := do
  let keyword ← word "let"
  let pattern ← patternWithBars g
  let equals ← punct "="
  let first ← g.unary struct
  let value ← climb g struct Precedence.compare (← climbFuel) first
  return .node .letCondition [keyword, pattern, equals, value]

def rangeExpr (g : Grammar) (struct : Bool) : Parser Tree := do
  let sign ← rangeLimits false
  return .node .range (sign :: (← rangeUpper g struct sign (← climbFuel)))

def atClosure (ts : List TokenTree) : Bool :=
  Look.atPunct "|" ts || Look.atWord "move" ts ||
    Look.atWord "for" ts && atGenericsRatherThanPath (ts.drop 1) ||
    Look.atWord "const" ts && !Look.second (Look.atGroup .brace) ts ||
    Look.atWord "static" ts ||
    Look.atWord "async" ts &&
      (Look.second (Look.atPunct "|") ts || Look.second (Look.atWord "move") ts)

def becomeExpr (g : Grammar) : Parser Tree := do
  let start ← ahead
  let _ ← word "become"
  let _ ← g.expr true
  verbatimSince start

def atPathExpr (ts : List TokenTree) : Bool :=
  atPathType ts ||
    Look.atWord "try" ts &&
      (Look.second (Look.atPunct "!") ts || Look.second (Look.atPunct "::") ts)

def atom (g : Grammar) (struct : Bool) : Parser Tree := do
  let ts ← ahead
  if Look.atLiteral ts then return .node .literal [← literalToken]
  else if Look.atWord "async" ts &&
      (Look.second (Look.atGroup .brace) ts ||
        Look.second (Look.atWord "move") ts && Look.third (Look.atGroup .brace) ts) then
    asyncBlock g
  else if Look.atWord "try" ts && Look.second (Look.atGroup .brace) ts then tryBlock g
  else if atClosure ts then closure g struct
  else if atBuiltin ts then builtinForm
  else if atPathExpr ts then pathExpr g struct
  else if Look.atGroup .parenthesis ts then parenExpr g
  else if Look.atWord "break" ts then breakExpr g struct
  else if Look.atWord "continue" ts then continueStatement
  else if Look.atWord "return" ts then returnExpr g
  else if Look.atWord "become" ts then becomeExpr g
  else if Look.atGroup .bracket ts then arrayExpr g
  else if Look.atWord "let" ts then letCondition g struct
  else if Look.atWord "if" ts then ifExpr g
  else if Look.atWord "while" ts then whileLoop g
  else if Look.atWord "for" ts then forLoop g
  else if Look.atWord "loop" ts then loop g
  else if Look.atWord "match" ts then matchExpr g
  else if Look.atWord "yield" ts then yieldExpr g
  else if Look.atWord "unsafe" ts then unsafeBlock g
  else if Look.atWord "const" ts then constBlock g
  else if Look.atGroup .brace ts then blockExpr g
  else if Look.atPunct ".." ts then rangeExpr g struct
  else if Look.atWord "_" ts then return .node .underscore [← word "_"]
  else if Look.atLifetime ts then labeled g
  else expected ["an expression"]

def splitPoints (s : List Char) : List (List Char) :=
  match s with
  | [] => [[]]
  | c :: r =>
    if c = '.' then [] :: splitPoints r
    else
      match splitPoints r with
      | [] => [[c]]
      | p :: ps => (c :: p) :: ps

def fieldsAt (span : Span) (base dot : Tree) : List (List Char) → Parser Tree
  | [] => return base
  | p :: ps => do
    let number ← fieldNumber p span
    fieldsAt span (.node .field [base, dot, number]) (.token [.punct '.' false span]) ps

/-- Field accesses by number that were read as one number with points, as in `a.0.1`; a point at
the end is the next access's own. -/
def numberFields (base dot : Tree) (s : List Char) (span : Span) : Parser Tree :=
  fieldsAt span base dot ((splitPoints s).filter (!·.isEmpty))

def methodCall (g : Grammar) (receiver dot name : Tree) (arguments : List Tree) :
    Parser Tree := do
  let group ← inGroup .parenthesis (exprList g)
  return .node .methodCall (receiver :: dot :: name :: arguments ++ [group])

def afterPoint (g : Grammar) (base dot : Tree) : Parser Tree := do
  if ← look (Look.atWord "await") then return .node .await [base, dot, ← word "await"]
  let name ← member
  let arguments ←
    if isNamed name && (← look (Look.atPunct "::")) then
      let colons ← punct "::"
      pure [← genericArgumentsAfter g [colons]]
    else pure []
  if isNamed name && (!arguments.isEmpty || (← look (Look.atGroup .parenthesis))) then
    methodCall g base dot name arguments
  else return .node .field [base, dot, name]

def pointAccess (g : Grammar) (base : Tree) : Parser Tree := do
  let dot ← punct "."
  match takeLiteral (← ahead) with
  | some (s, span, rest) =>
    if Literal.isFloat s then
      modify fun input => { input with rest }
      let fields ← numberFields base dot s span
      if s.getLast? = some '.' then afterPoint g fields (.token [.punct '.' false span])
      else return fields
    else afterPoint g base dot
  | none => afterPoint g base dot

def postfixFuel (g : Grammar) : Nat → Tree → Parser Tree
  | 0, base => return base
  | fuel + 1, base => do
    let ts ← ahead
    if Look.atGroup .parenthesis ts then
      let group ← inGroup .parenthesis (exprList g)
      postfixFuel g fuel (.node .call [base, group])
    else if base.is .range then return base
    else if Look.atPunct "." ts && !Look.atPunct ".." ts then
      postfixFuel g fuel (← pointAccess g base)
    else if Look.atGroup .bracket ts then
      let group ← inGroup .bracket (return [← g.expr true])
      postfixFuel g fuel (.node .index [base, group])
    else if Look.atPunct "?" ts then
      let mark ← punct "?"
      postfixFuel g fuel (.node .tryPostfix [base, mark])
    else return base

def withPostfix (g : Grammar) (base : Tree) : Parser Tree := do
  postfixFuel g ((← ahead).length + 1) base

def referenceExpr (g : Grammar) (struct : Bool) (attributes : List Tree) : Parser Tree := do
  let ampersand ← punct "&"
  let ts ← ahead
  if Look.atWord "raw" ts &&
      (Look.second (Look.atWord "mut") ts || Look.second (Look.atWord "const") ts) then
    let raw ← word "raw"
    let mutability ← anyWord
    return .node .rawAddress (attributes ++ [ampersand, raw, mutability, ← g.unary struct])
  else
    let mutability ← optionalWord "mut"
    return .node .reference (attributes ++ ampersand :: mutability ++ [← g.unary struct])

def unaryExpr (g : Grammar) (struct : Bool) : Parser Tree := do
  let attributes ← outerAttributes g
  let mark ← here
  let ts ← ahead
  if Look.atPunct "&" ts then referenceExpr g struct attributes
  else if Look.atPunct "*" ts || Look.atPunct "!" ts || Look.atPunct "-" ts then
    let sign ← if Look.atPunct "*" ts then punct "*" else if Look.atPunct "!" ts then punct "!"
      else punct "-"
    return .node .unary (attributes ++ [sign, ← g.unary struct])
  else
    let value ← withPostfix g (← atom g struct)
    if !attributes.isEmpty && value.is .range then
      refuse (.refused
        "attributes are not allowed on range expressions starting with `..`") mark
    else return value.withAttributes attributes

def exprWith (g : Grammar) (struct : Bool) : Parser Tree := do
  let first ← g.unary struct
  continueExpr g struct first

/-- Puts attributes onto an expression. What is kept as written takes none, and a range takes them
only in parentheses. -/
def attributed (attributes : List Tree) (t : Tree) : Tree :=
  match t with
  | .node .verbatim _ => t
  | .node .range _ =>
    if attributes.isEmpty then t else .node .paren (attributes ++ [parenthesised t])
  | t => t.withAttributes attributes

/-- An expression at the start of a statement or in a match arm: one that ends at its closing
brace is over there, unless a point or a question mark follows. -/
def boundedExpr (g : Grammar) : Parser Tree := do
  let attributes ← outerAttributes g
  let ts ← ahead
  let first ←
    if Look.atWord "if" ts then ifExpr g
    else if Look.atWord "while" ts then whileLoop g
    else if Look.atWord "for" ts && !atGenericsRatherThanPath (ts.drop 1) then forLoop g
    else if Look.atWord "loop" ts then loop g
    else if Look.atWord "match" ts then matchExpr g
    else if Look.atWord "try" ts && Look.second (Look.atGroup .brace) ts then tryBlock g
    else if Look.atWord "unsafe" ts then unsafeBlock g
    else if Look.atWord "const" ts && Look.second (Look.atGroup .brace) ts then constBlock g
    else if Look.atGroup .brace ts then blockExpr g
    else if Look.atLifetime ts then labeled g
    else g.unary true
  if first.is .range then return attributed attributes first
  else if !endsAtBrace first then continueExpr g true (attributed attributes first)
  else if ← look fun ts =>
      Look.atPunct "." ts && !Look.atPunct ".." ts || Look.atPunct "?" ts then
    let longer ← withPostfix g first
    continueExpr g true (attributed attributes longer)
  else return attributed attributes first

end InlineMarkup.Host
