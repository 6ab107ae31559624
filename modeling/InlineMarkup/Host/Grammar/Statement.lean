import InlineMarkup.Host.Grammar.Expression

/-!
Statements. What begins as an item is left to the parser for items.
-/

set_option autoImplicit false

namespace InlineMarkup.Host

/-- Whether a function's signature follows, after what may qualify it; whether the word `safe` may
do so. -/
def atSignature (safe : Bool) (ts : List TokenTree) : Bool :=
  let pass := fun (s : String) (ts : List TokenTree) => if Look.atWord s ts then ts.drop 1 else ts
  let ts := pass "async" (pass "const" ts)
  let ts := if safe && Look.atWord "safe" ts then ts.drop 1 else pass "unsafe" ts
  let ts :=
    if Look.atWord "extern" ts then
      let ts := ts.drop 1
      if Look.atString ts then ts.drop 1 else ts
    else ts
  Look.atWord "fn" ts

def atItem (ts : List TokenTree) : Bool :=
  Look.atWord "pub" ts || Look.atWord "crate" ts && !Look.second (Look.atPunct "::") ts ||
    Look.atWord "extern" ts || Look.atWord "use" ts ||
    Look.atWord "static" ts &&
      (Look.second (Look.atWord "mut") ts || Look.second Look.atIdentifier ts) ||
    Look.atWord "const" ts &&
      !(Look.second (Look.atGroup .brace) ts || Look.second (Look.atWord "static") ts ||
        Look.second (Look.atWord "async") ts &&
          !(Look.third (Look.atWord "unsafe") ts || Look.third (Look.atWord "extern") ts ||
            Look.third (Look.atWord "fn") ts) ||
        Look.second (Look.atWord "move") ts || Look.second (Look.atPunct "|") ts) ||
    Look.atWord "unsafe" ts && !Look.second (Look.atGroup .brace) ts ||
    Look.atWord "async" ts &&
      (Look.second (Look.atWord "unsafe") ts || Look.second (Look.atWord "extern") ts ||
        Look.second (Look.atWord "fn") ts) ||
    Look.atWord "fn" ts || Look.atWord "mod" ts || Look.atWord "type" ts ||
    Look.atWord "struct" ts || Look.atWord "enum" ts ||
    Look.atWord "union" ts && Look.second Look.atIdentifier ts ||
    Look.atWord "auto" ts && Look.second (Look.atWord "trait") ts || Look.atWord "trait" ts ||
    Look.atWord "default" ts &&
      (Look.second (Look.atWord "unsafe") ts || Look.second (Look.atWord "impl") ts) ||
    Look.atWord "impl" ts || Look.atWord "macro" ts

def endsWithBraces (ts : List TokenTree) : Bool :=
  match ts.getLast? with
  | some (.group .brace _ _ _) => true
  | _ => false

def localBinding (g : Grammar) (attributes : List Tree) : Parser Tree := do
  let keyword ← word "let"
  let pattern ← g.pattern
  let pattern ←
    if ← look (Look.atPunct ":") then
      let colon ← punct ":"
      pure (.node .typedPattern [pattern, colon, ← g.type true])
    else pure pattern
  let value ←
    if ← look (Look.atPunct "=") then
      let equals ← punct "="
      let value ← g.expr true
      if !endsWithBraces value.tokens && (← look (Look.atWord "else")) then
        let otherwise ← word "else"
        pure [equals, value, otherwise, .node .block [← block g]]
      else pure [equals, value]
    else pure []
  let semicolon ← punct ";"
  return .node .localBinding (attributes ++ keyword :: pattern :: value ++ [semicolon])

/-- Puts attributes onto the leftmost operand, the one they stand before. -/
def attachLeft (attributes : List Tree) : Tree → Tree
  | .node .assign (left :: rest) => .node .assign (attachLeft attributes left :: rest)
  | .node .binary (left :: rest) => .node .binary (attachLeft attributes left :: rest)
  | .node .cast (left :: rest) => .node .cast (attachLeft attributes left :: rest)
  | t => attributed attributes t

def isBraceMacro (t : Tree) : Bool :=
  match t.children.getLast? with
  | some group => isBraceGroup group
  | none => false

def expressionStatement (g : Grammar) (attributes : List Tree) : Parser Tree := do
  let value := attachLeft attributes (← g.bounded)
  let semicolon ← optionalPunct ";"
  match value with
  | .node .macroCall parts =>
    if !semicolon.isEmpty || isBraceMacro value then
      return .node .macroStatement (parts ++ semicolon)
    else return .node .expressionStatement [value]
  | _ => return .node .expressionStatement (value :: semicolon)

/-- How a statement that begins with a path and an exclamation mark goes on. -/
inductive AfterBang where
  | item
  | braces
  | expression

def afterBang : Parser AfterBang := do
  let input ← get
  match ← tentatively modulePath with
  | none => return .expression
  | some _ =>
    let ts ← ahead
    set input
    if !Look.atPunct "!" ts then return .expression
    else if Look.second Look.atIdentifier ts || Look.second (Look.atWord "try") ts then
      return .item
    else if Look.second (Look.atGroup .brace) ts &&
        !(Look.third (Look.atPunct ".") ts && !Look.third (Look.atPunct "..") ts ||
          Look.third (Look.atPunct "?") ts) then
      return .braces
    else return .expression

def macroStatement (g : Grammar) (attributes : List Tree) : Parser Tree := do
  let path ← modulePath
  let bang ← punct "!"
  let group ← macroGroup g
  return .node .macroStatement (attributes ++ path :: bang :: group :: (← optionalPunct ";"))

/-- One statement; `item` reads an item after its attributes, given the tokens it began with. -/
def statement (g : Grammar) (item : List TokenTree → List Tree → Parser Tree) : Parser Tree := do
  let start ← ahead
  let attributes ← outerAttributes g
  let ts ← ahead
  match ← afterBang with
  | .braces => macroStatement g attributes
  | .item => item start attributes
  | .expression =>
    if Look.atWord "let" ts then localBinding g attributes
    else if atItem ts then item start attributes
    else expressionStatement g attributes

def needsSemicolon (statement : Tree) : Bool :=
  match statement with
  | .node .expressionStatement [value] =>
    if value.is .macroCall then !isBraceMacro value else !endsAtBrace value
  | _ => false

def statementsWith (g : Grammar) (item : List TokenTree → List Tree → Parser Tree) :
    Parser (List Tree) :=
  repeatStep do
    if ← isEmpty then return ([], false)
    if ← look (Look.atPunct ";") then return ([.node .emptyStatement [← punct ";"]], true)
    let next ← statement g item
    if ← isEmpty then return ([next], false)
    if needsSemicolon next then refuse .missingSemicolon (← here)
    return ([next], true)

end InlineMarkup.Host
