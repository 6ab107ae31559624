import InlineMarkup.Host.Token

/-!
Syntax trees of the host language. What a node is, its kind says; its children are its tokens and
parts as they stand, attributes first.

The tokens of a tree (`Tree.tokens`) are those of its source, but for what is written in one way
only. Lifetimes are written before all else in angle brackets, though the tree keeps the order of
the source. A field's number is in plain decimal digits, and a minus sign and its number are one
literal. An item has no empty parameters, bounds or where clause. The sign of a closed range is
`..=`, and an argument without a name has the name `_`. A range with attributes is in parentheses,
and so is a block that a condition could not hold without them.
-/

set_option autoImplicit false

namespace InlineMarkup.Host

inductive Kind where
  -- attributes, paths, generics
  | outerAttribute | innerAttribute | path | segment | arguments | callArguments | qualifiedSelf
  | equation | constraint | lifetimeParameter | typeParameter | constParameter | generics
  | whereClause | wherePredicate | bound | bounds | boundLifetimes | precise | visibility | abi
  | returnType | label
  -- types
  | pathType | tupleType | parenType | arrayType | sliceType | pointerType | referenceType
  | neverType | inferredType | functionType | functionTypeArgument | implType | objectType
  | macroType
  -- patterns
  | identifierPattern | wildPattern | pathPattern | tuplePattern | parenPattern | slicePattern
  | structPattern | tupleStructPattern | referencePattern | literalPattern | rangePattern
  | restPattern | orPattern | typedPattern | macroPattern | constPattern | fieldPattern
  -- expressions
  | literal | pathExpr | array | repeatArray | tuple | paren | call | methodCall | field | index
  | await | tryPostfix | unary | binary | assign | cast | range | reference | rawAddress | closure
  | block | unsafeBlock | constBlock | asyncBlock | tryBlock | ifExpr | whileLoop | forLoop | loop
  | matchExpr | arm | letCondition | returnExpr | breakExpr | continueExpr | yieldExpr | structExpr
  | fieldValue | macroCall | underscore
  -- statements
  | localBinding | expressionStatement | macroStatement | emptyStatement
  -- items
  | function | signature | receiver | typedArgument | variadic | constItem | staticItem
  | externCrate | foreignModule | useItem | useTree | moduleItem | typeItem | structItem
  | enumItem | unionItem | variant | namedFields | tupleFields | fieldDefinition | traitItem
  | traitAlias | implItem | macroItem
  -- what is kept as written
  | verbatim
  | file
  deriving DecidableEq, Repr

inductive Tree where
  /-- One token of the grammar: a word, a literal, a lifetime, or an operator, of which all
  characters but the last are joint. -/
  | token (tokens : List TokenTree)
  | node (kind : Kind) (children : List Tree)
  | group (delimiter : Delimiter) (opening closing : Span) (children : List Tree)
  | raw (tokens : List TokenTree)
  /-- The body of a macro call: its tokens as written and, where these make a list of expressions
  separated by commas, that list with its commas. -/
  | body (written : List TokenTree) (arguments : List Tree)
  deriving Repr

@[simp] def Kind.isAngled : Kind → Bool
  | .generics => true
  | .arguments => true
  | .precise => true
  | _ => false

abbrev Written := Tree × List TokenTree

namespace Tree

def isToken (s : String) : Tree → Bool
  | .token ts => TokenTree.textOf ts == s.toList
  | _ => false

/-- A lifetime, or a parameter that is one. -/
def isLifetime : Tree → Bool
  | .token (.punct '\'' _ _ :: _) => true
  | .node .lifetimeParameter _ => true
  | _ => false

def withCommas : List Written → List (Written × Option Written)
  | [] => []
  | [t] => [(t, none)]
  | t :: u :: ts =>
    if u.1.isToken "," then (t, some u) :: withCommas ts else (t, none) :: withCommas (u :: ts)

def addedComma : Written :=
  let comma := [.punct ',' false Span.nowhere]
  (.token comma, comma)

/-- Parts with their commas as a list again. A comma is added after a part that has none, unless
it is the last. -/
def joined : List (Written × Option Written) → List Written
  | [] => []
  | [(t, comma)] => t :: comma.toList
  | (t, comma) :: parts => t :: comma.getD addedComma :: joined parts

def lifetimesFirst (list : List Written) : List Written :=
  let parts := withCommas list
  joined (parts.filter (·.1.1.isLifetime) ++ parts.filter (!·.1.1.isLifetime))

def angled (children : List Written) : List Written :=
  -- the opening bracket and what may stand before it, a keyword or a double colon
  let front := (children.takeWhile fun c => !c.1.isToken "<").length + 1
  let list := children.drop front
  children.take front ++ lifetimesFirst list.dropLast ++ list.getLast?.toList

mutual

def tokens : Tree → List TokenTree
  | .token ts => ts
  | .node kind children =>
    if kind.isAngled then (angled (written children)).flatMap (·.2) else tokensOf children
  | .group delimiter opening closing children =>
    [.group delimiter (tokensOf children) opening closing]
  | .raw ts => ts
  | .body written _ => written

def tokensOf : List Tree → List TokenTree
  | [] => []
  | t :: ts => tokens t ++ tokensOf ts

def written : List Tree → List Written
  | [] => []
  | t :: ts => (t, tokens t) :: written ts

end

def text (t : Tree) : List Char :=
  TokenTree.textOf t.tokens

def start (t : Tree) : Text.Mark :=
  match t.tokens with
  | first :: _ => first.start
  | [] => Text.Mark.first

def kind? : Tree → Option Kind
  | .node kind _ => some kind
  | _ => none

def children : Tree → List Tree
  | .node _ children => children
  | .group _ _ _ children => children
  | _ => []

def is (k : Kind) (t : Tree) : Bool :=
  t.kind? == some k

def withAttributes (attributes : List Tree) : Tree → Tree
  | .node kind children => .node kind (attributes ++ children)
  | t => t

def parts (t : Tree) : List Tree :=
  t.children.filter fun c => !c.is .outerAttribute && !c.is .innerAttribute

def attributes (t : Tree) : List Tree :=
  t.children.filter (·.is .outerAttribute)

end Tree

end InlineMarkup.Host
