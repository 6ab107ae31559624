import InlineMarkup.Host.Grammar.Statement
import InlineMarkup.Pretty.Pattern

/-!
Setting expressions.

Calls and accesses that are applied to each other make a chain, which breaks before every point if
it does not fit. A body of one expression may stand on the line of its braces. An operand that does
not bind as tightly as its operator is put in parentheses.
-/

set_option autoImplicit false

namespace InlineMarkup.Pretty

open InlineMarkup.Host (Kind)
open Doc

def hasOuterAttributes (t : Host.Tree) : Bool :=
  t.children.any (·.is .outerAttribute)

/-- Expressions that are set like a block, their delimiters on the line of what holds them. -/
def isBlocklike (t : Host.Tree) : Bool :=
  (t.kind?.any fun k =>
    [Kind.array, .asyncBlock, .block, .closure, .constBlock, .structExpr, .tryBlock, .tuple,
      .unsafeBlock].contains k) && !hasOuterAttributes t

def compoundAssigns : List String :=
  ["+=", "-=", "*=", "/=", "%=", "^=", "&=", "|=", "<<=", ">>="]

def takesSemicolon (t : Host.Tree) : Bool :=
  match t with
  | .node .binary _ =>
    match t.parts with
    | [_, op, _] => compoundAssigns.any fun s => op.isToken s
    | _ => false
  | .node k _ =>
    [Kind.assign, .breakExpr, .continueExpr, .returnExpr, .yieldExpr].contains k
  | _ => false

/-- Whether an expression at the start of a statement is over at its closing brace. -/
def isStatement (t : Host.Tree) : Bool :=
  if t.is .macroCall then Host.isBraceMacro t else Host.endsAtBrace t

/-- Whether an expression means the same as a statement: none is over on its left. -/
def canBeginStatement : Nat → Host.Tree → Bool
  | 0, _ => true
  | fuel + 1, t =>
    match t, t.parts with
    | .node k _, left :: _ =>
      if [Kind.assign, .binary, .cast, .call, .index, .range].contains k then
        !isStatement left && canBeginStatement fuel left
      else if [Kind.field, .methodCall, .await, .tryPostfix].contains k then
        canBeginStatement fuel left
      else k != .letCondition
    | _, _ => true

/-- Whether the brace after a condition moves to a new line if the condition takes several. -/
def movesBrace : Nat → Host.Tree → Bool
  | 0, _ => false
  | fuel + 1, t =>
    match t with
    | .node k _ =>
      if [Kind.assign, .await, .binary, .cast, .field, .index, .methodCall].contains k then true
      else if k = .call || k = .tryPostfix then
        match t.parts with
        | base :: _ => movesBrace fuel base
        | [] => false
      else if k = .paren then
        match groupOf t.parts with
        | e :: _ => movesBrace fuel e
        | [] => false
      else if [Kind.breakExpr, .letCondition, .range, .rawAddress, .reference, .returnExpr, .unary,
          .yieldExpr].contains k then
        match t.parts.getLast? with
        | some e => movesBrace fuel e
        | none => false
      else false
    | _ => false

/-- A name no longer than the indentation, to which an access on a new line would bring nothing. -/
def isShortName (t : Host.Tree) : Bool :=
  match t with
  | .node .pathExpr [.node .path [.node .segment [name]]] =>
    Text.byteLength name.text ≤ 4
  | _ => false

def operatorPrecedence (op : Host.Tree) : Nat :=
  match Host.operators.find? fun (s, _) => op.isToken s with
  | some (_, precedence) => precedence
  | none => Host.Precedence.assign

/-- Whether an expression takes all that follows it for its own: its last part is a whole
expression, or may be missing. -/
def isOpenEnded (t : Host.Tree) : Bool :=
  match t, t.parts with
  | .node .range _, first :: _ => first.kind?.isNone
  | .node k _, _ =>
    [Kind.breakExpr, .closure, .letCondition, .returnExpr, .yieldExpr].contains k
  | _, _ => false

/-- How tightly an expression binds, where an operator follows it or none does. -/
def precedence (continued : Bool) (t : Host.Tree) : Nat :=
  let atom := if hasOuterAttributes t then Host.Precedence.unary else Host.Precedence.atom
  if !continued && isOpenEnded t then Host.Precedence.unary
  else
    match t, t.parts with
    | .node .closure _, parts => if parts.any (·.is .returnType) then atom else Host.Precedence.jump
    | .node .breakExpr _, parts => ofJump parts
    | .node .returnExpr _, parts => ofJump parts
    | .node .yieldExpr _, parts => ofJump parts
    | .node .assign _, _ => Host.Precedence.assign
    | .node .range _, _ => Host.Precedence.range
    | .node .binary _, [_, op, _] => operatorPrecedence op
    | .node .letCondition _, _ => Host.Precedence.condition
    | .node .cast _, _ => Host.Precedence.cast
    | .node .rawAddress _, _ => Host.Precedence.unary
    | .node .reference _, _ => Host.Precedence.unary
    | .node .unary _, _ => Host.Precedence.unary
    | _, _ => atom
where
  ofJump (parts : List Host.Tree) : Nat :=
    if parts.any (·.kind?.isSome) then Host.Precedence.jump else Host.Precedence.atom

def atLeast (p : Painter) (least : Nat) (place : Place) (t : Host.Tree) : Doc :=
  if precedence place.continued t < least then word "(" ++ p.expr .alone t ++ word ")"
  else p.expr place t

/-- What keeps a number that ends in a point apart from a point that follows. -/
def afterNumber (t : Host.Tree) : Doc :=
  match t.parts with
  | [.token [.literal s _]] => if t.is .literal && s.getLast? = some '.' then word " " else []
  | _ => []

def labelDoc (ts : List Host.Tree) : Doc :=
  (ts.filter (·.is .label)).flatMap fun t =>
    match t.children with
    | name :: _ => token name ++ word ": "
    | [] => []

def statements (p : Painter) (ts : List Host.Tree) : Doc :=
  eachLast p.statement ts

def smallBlock (p : Painter) (contents : List Host.Tree) : Doc :=
  let inside :=
    if contents.isEmpty then []
    else
      space ++ innerAttributes p contents ++
        (match bodyParts contents with
          | [.node .expressionStatement [e]] => ibox 0 (p.expr .lineStart e) ++ space
          | ts => statements p ts) ++ dedent
  word "\x7b" ++ inside ++ word "\x7d"

def fullBlock (p : Painter) (contents : List Host.Tree) : Doc :=
  word "\x7b" ++ never ++
    cbox indent (hardIfNonempty ++ innerAttributes p contents ++
      statements p (bodyParts contents) ++ dedent) ++
    word "\x7d"

def condition (p : Painter) (t : Host.Tree) : Doc :=
  cbox 0 (p.expr .alone t ++
    if movesBrace (t.tokens.length + 1) t then space else word " ")

/-- The arguments of a call. One that is set like a block takes no line of its own. -/
def callArgumentsDoc (p : Painter) (ts : List Host.Tree) : Doc :=
  match elements ts with
  | [one] => if isBlocklike one then p.expr .alone one else commaBox indent (p.expr .alone) [one]
  | all => commaBox indent (p.expr .alone) all

def parenthesised (p : Painter) (group : Host.Tree) : Doc :=
  word "(" ++ callArgumentsDoc p group.children ++ word ")"

def operand (p : Painter) (place : Place) (t : Host.Tree) : Doc :=
  if precedence true t < Host.Precedence.atom then
    word "(" ++ cbox (-indent) (p.expr .alone t) ++ word ")"
  else p.operand place.base t

def beforePoint (p : Painter) (place : Place) (t : Host.Tree) : Doc :=
  operand p place t ++ afterNumber t ++ if place.begins && isShortName t then [] else zero

def methodCallDoc (p : Painter) (place : Place) (unindent : Bool) (parts : List Host.Tree) : Doc :=
  match parts with
  | receiver :: _ :: name :: rest =>
    beforePoint p place receiver ++ word "." ++ token name ++
      (rest.flatMap fun t =>
        match t with
        | .node .arguments _ => genericArguments p (2 * t.tokens.length + 4) .expr t
        | t => cbox (if unindent then -indent else 0) (parenthesised p t))
  | _ => []

def indexDoc (p : Painter) (group : Host.Tree) : Doc :=
  word "[" ++ group.children.flatMap (p.expr .alone) ++ word "]"

def operandDoc (p : Painter) (place : Place) (t : Host.Tree) : Doc :=
  match t, t.parts with
  | .node .await _, base :: _ => beforePoint p place base ++ word ".await"
  | .node .call _, [callee, group] => operand p .left callee ++ parenthesised p group
  | .node .field _, [base, _, name] => beforePoint p place base ++ word "." ++ token name
  | .node .index _, [base, group] => operand p place base ++ indexDoc p group
  | .node .methodCall _, parts => methodCallDoc p place false parts
  | .node .tryPostfix _, base :: _ => operand p place base ++ word "?"
  | _, _ => cbox (-indent) (p.expr place.right t)

def isSmallLiteral (t : Host.Tree) : Bool :=
  match t, t.parts with
  | .node .literal _, [.token [.word _ _]] => true
  | .node .literal _, [.token [.literal s _]] =>
    (Host.Literal.integer? s).isSome || s.head? == some '\'' || "b'".toList.isPrefixOf s
  | _, _ => false

def arrayDoc (p : Painter) (ts : List Host.Tree) : Doc :=
  match ts with
  | [] => word "[]"
  | _ =>
    if ts.all isSmallLiteral then
      cbox indent (word "[" ++ zero ++
        ibox 0 (eachLast (fun last t =>
          p.expr .alone t ++ if last then [] else word "," ++ space) ts) ++
        trailingComma true ++ dedent ++ word "]")
    else word "[" ++ commaBox indent (p.expr .alone) ts ++ word "]"

def leastLeft (op : Nat) : Nat :=
  if op = Host.Precedence.assign then Host.Precedence.range + 1
  else if op = Host.Precedence.compare then op + 1
  else op

def leastRight (op : Nat) : Nat :=
  if op = Host.Precedence.assign then Host.Precedence.jump else op + 1

def binaryDoc (p : Painter) (place : Place) (left op right : Host.Tree) : Doc :=
  let level := operatorPrecedence op
  ibox indent (ibox (-indent) (atLeast p (leastLeft level) .left left) ++ space ++ token op ++
    word " " ++ atLeast p (leastRight level) place.right right)

def bracedBody (p : Painter) (place : Place) (close : List Char) (unbroken : List Char)
    (body : Host.Tree) : Doc :=
  let plain := canBeginStatement (body.tokens.length + 1) body
  cbox indent (
    [.gap { before := if plain then ['\x7b'] else ['('] }] ++ p.expr place body ++
    [.gap
      { offset := -indent
        before := if plain && takesSemicolon body then [';'] else []
        after := if plain then ['\x7d'] else close
        unbroken }])

def closureWords (ts : List Host.Tree) : Doc :=
  ts.flatMap fun t =>
    match t with
    | .token _ => token t ++ word " "
    | _ => []

def closureDoc (p : Painter) (place : Place) (parts : List Host.Tree) : Doc :=
  let isBar := fun (t : Host.Tree) => t.isToken "|"
  let head := parts.takeWhile (!isBar ·)
  let after := (parts.dropWhile (!isBar ·)).drop 1
  let inputs := elements (after.takeWhile (!isBar ·))
  let rest := (after.dropWhile (!isBar ·)).drop 1
  let start := boundLifetimes p genericParameter head ++ closureWords head
  let bars := word "|" ++ each (fun first last t =>
    (if first then zero else []) ++ p.pattern t ++ if last then [] else word "," ++ space) inputs
  match rest with
  | [.node .returnType [_, type], body] =>
    let comma := if inputs.isEmpty then [] else trailingComma true ++ dedent
    ibox 0 (start ++ cbox indent (bars ++ comma ++ word "|") ++ word " -> " ++ p.type type ++
      word " " ++ never ++ p.expr place.right body)
  | [body] =>
    let wraps :=
      if body.is .matchExpr || body.is .call then hasOuterAttributes body else !isBlocklike body
    ibox 0 (start ++ cbox indent (bars ++ word "|" ++ space ++ dedent) ++ never ++
      if wraps then bracedBody p place.right [')'] [] body else p.expr place.right body)
  | _ => []

def elseDoc (p : Painter) : Nat → Host.Tree → Doc
  | 0, t => word " else " ++ token t
  | fuel + 1, t =>
    word " else " ++
    match t, t.parts with
    | .node .ifExpr _, _ :: test :: .group _ _ _ contents :: rest =>
      word "if " ++ cbox (-indent) (condition p test) ++ smallBlock p contents ++
        match rest with
        | [_, otherwise] => elseDoc p fuel otherwise
        | _ => []
    | _, parts => smallBlock p (groupOf parts)

def ifDoc (p : Painter) (parts : List Host.Tree) : Doc :=
  match parts with
  | _ :: test :: .group _ _ _ contents :: rest =>
    cbox indent (word "if " ++ cbox (-indent) (condition p test) ++
      match rest with
      | [_, otherwise] =>
        smallBlock p contents ++ elseDoc p (otherwise.tokens.length + 1) otherwise
      | _ =>
        if contents.isEmpty then word "\x7b\x7d"
        else word "\x7b" ++ hard ++ statements p contents ++ dedent ++ word "\x7d")
  | _ => []

/-- The body of a match arm, out of blocks that hold nothing else. -/
def unwrapBody : Nat → Host.Tree → Host.Tree
  | 0, t => t
  | fuel + 1, t =>
    match t with
    | .node .block [.group _ _ _ [.node .expressionStatement [e]]] => unwrapBody fuel e
    | t => t

def isUnit (t : Host.Tree) : Bool :=
  match t with
  | .node .tuple [.group _ _ _ []] => true
  | _ => false

def armDoc (p : Painter) (t : Host.Tree) : Doc :=
  let parts := t.parts
  let isArrow := fun (c : Host.Tree) => c.isToken "=>"
  let guard := match parts.takeWhile (!isArrow ·) with
    | [_, _, test] => word " if " ++ p.expr .alone test
    | _ => []
  let pattern := match parts with
    | first :: _ => p.pattern first
    | [] => []
  let body := match (parts.dropWhile (!isArrow ·)).drop 1 with
    | value :: _ => unwrapBody (value.tokens.length + 2) value
    | [] => .token []
  let value :=
    if isUnit body then word "\x7b\x7d"
    else if body.is .block then
      labelDoc body.parts ++ fullBlock p (groupOf body.parts)
    else
      never ++ bracedBody p .lineStart [')', ','] (if Host.endsAtBrace body then [] else [',']) body
  outerAttributes p t.children ++ ibox 0 (pattern ++ guard ++ word " => " ++ value)

def matchDoc (p : Painter) (parts : List Host.Tree) : Doc :=
  match parts with
  | [_, subject, .group _ _ _ contents] =>
    ibox 0 (word "match " ++ condition p subject ++ word "\x7b" ++ never ++
      cbox indent (hardIfNonempty ++ innerAttributes p contents ++
        (bodyParts contents).flatMap (fun t => armDoc p t ++ hard) ++ dedent) ++
      word "\x7d")
  | _ => []

def fieldValueDoc (p : Painter) (t : Host.Tree) : Doc :=
  outerAttributes p t.children ++
  match t.parts with
  | [name, _, value] => token name ++ word ": " ++ ibox 0 (p.expr .alone value)
  | ts => ts.flatMap token

def widestStruct : Nat := 34

def structDoc (p : Painter) (parts : List Host.Tree) : Doc :=
  let contents := elements (groupOf parts)
  let fields := contents.filter (·.is .fieldValue)
  let base := contents.filter fun t => !t.is .fieldValue && !t.isToken ".."
  narrowBox indent widestStruct (
    ibox (-indent) (qualifiedPath p .expr (parts.filter (!isGroup ·))) ++
    word " \x7b" ++ spaceIfNonempty ++
    eachLast (fun last t => fieldValueDoc p t ++ trailingCommaOrSpace (last && base.isEmpty))
      fields ++
    (base.flatMap fun t => word ".." ++ p.expr .alone t ++ space) ++ dedent) ++
    word "\x7d"

def isLabel (t : Host.Tree) : Bool := t.is .label

def keywordValue (p : Painter) (place : Place) (parts : List Host.Tree) : Doc :=
  eachFirst (fun first t =>
    (if first then [] else word " ") ++
      match t with
      | .token _ => token t
      | t => p.expr place.right t) parts

def rangeDoc (p : Painter) (place : Place) (parts : List Host.Tree) : Doc :=
  eachFirst (fun first t =>
    match t with
    | .token _ => token t
    | t =>
      if first then atLeast p (Host.Precedence.range + 1) .left t ++ afterNumber t
      else atLeast p (Host.Precedence.range + 1) place.right t) parts

def exprBody (p : Painter) (place : Place) (t : Host.Tree) : Doc :=
  let labels := labelDoc t.parts
  let parts := t.parts.filter (!isLabel ·)
  match t, parts with
  | .node .literal _, _ => text (parts.flatMap fun c => c.tokens.flatMap (·.text))
  | .node .pathExpr _, _ => qualifiedPath p .expr parts
  | .node .array _, [group] => arrayDoc p (elements group.children)
  | .node .repeatArray _, [.group _ _ _ [value, _, length]] =>
    word "[" ++ p.expr .alone value ++ word "; " ++ p.expr .alone length ++ word "]"
  | .node .tuple _, [group] => tupleDoc (p.expr .alone) (elements group.children)
  | .node .paren _, [group] =>
    word "(" ++ group.children.flatMap (p.expr .alone) ++ word ")"
  | .node .call _, [callee, group] =>
    atLeast p Host.Precedence.atom .left callee ++ parenthesised p group
  | .node .methodCall _, receiver :: _ =>
    cbox indent (methodCallDoc p place (place.begins && isShortName receiver) parts)
  | .node .field _, _ => cbox indent (operandDoc p place (.node .field parts))
  | .node .index _, [base, group] =>
    atLeast p Host.Precedence.atom place.base base ++ indexDoc p group
  | .node .await _, _ => cbox indent (operandDoc p place (.node .await parts))
  | .node .tryPostfix _, base :: _ => atLeast p Host.Precedence.atom place.base base ++ word "?"
  | .node .unary _, [op, value] => token op ++ atLeast p Host.Precedence.unary place.right value
  | .node .binary _, [left, op, right] => binaryDoc p place left op right
  | .node .assign _, [left, _, right] =>
    ibox 0 (atLeast p (leastLeft Host.Precedence.assign) .left left ++ word " = " ++ never ++
      p.expr place.right right)
  | .node .cast _, [value, _, type] =>
    ibox indent (ibox (-indent) (atLeast p Host.Precedence.cast .left value) ++ space ++
      word "as " ++ p.type type)
  | .node .range _, _ => rangeDoc p place parts
  | .node .reference _, _ =>
    parts.flatMap fun c =>
      if c.isToken "&" then word "&" else if c.isToken "mut" then word "mut "
      else atLeast p Host.Precedence.unary place.right c
  | .node .rawAddress _, [_, _, mutability, value] =>
    word "&raw " ++ token mutability ++ word " " ++
      atLeast p Host.Precedence.unary place.right value
  | .node .closure _, _ => closureDoc p place parts
  | .node .block _, _ => labels ++ cbox indent (smallBlock p (groupOf parts))
  | .node .unsafeBlock _, _ => word "unsafe " ++ cbox indent (smallBlock p (groupOf parts))
  | .node .constBlock _, _ => word "const " ++ cbox indent (smallBlock p (groupOf parts))
  | .node .tryBlock _, _ => word "try " ++ cbox indent (smallBlock p (groupOf parts))
  | .node .asyncBlock _, _ =>
    closureWords (parts.filter (!isGroup ·)) ++ cbox indent (smallBlock p (groupOf parts))
  | .node .ifExpr _, _ => ifDoc p parts
  | .node .whileLoop _, [_, test, .group _ _ _ contents] =>
    labels ++ word "while " ++ condition p test ++ fullBlock p contents
  | .node .forLoop _, [_, pattern, _, source, .group _ _ _ contents] =>
    ibox 0 (labels ++ word "for " ++ p.pattern pattern ++ word " in " ++ never ++
      condition p source ++ fullBlock p contents)
  | .node .loop _, [_, .group _ _ _ contents] =>
    labels ++ word "loop \x7b" ++
      cbox indent (hardIfNonempty ++ innerAttributes p contents ++
        statements p (bodyParts contents) ++ dedent) ++ word "\x7d"
  | .node .matchExpr _, _ => matchDoc p parts
  | .node .letCondition _, [_, pattern, _, value] =>
    ibox 0 (word "let " ++ ibox 0 (p.pattern pattern) ++ word " = " ++ never ++
      ibox 0 (atLeast p Host.Precedence.condition place.right value))
  | .node .returnExpr _, _ => keywordValue p place parts
  | .node .breakExpr _, _ => keywordValue p place parts
  | .node .continueExpr _, _ => keywordValue p place parts
  | .node .yieldExpr _, _ => keywordValue p place parts
  | .node .structExpr _, _ => structDoc p parts
  | .node .macroCall _, _ => macroCall parts false
  | .node .underscore _, _ => word "_"
  | _, _ => token t

def exprDoc (p : Painter) (place : Place) (t : Host.Tree) : Doc :=
  outerAttributes p t.children ++ exprBody p place t

end InlineMarkup.Pretty
