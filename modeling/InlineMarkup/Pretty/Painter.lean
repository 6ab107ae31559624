import InlineMarkup.Host.Literal
import InlineMarkup.Host.Tree
import InlineMarkup.Pretty.Tokens

/-!
What setting a syntax tree is made of: the setters for its parts, attributes, and macro calls.
-/

set_option autoImplicit false

namespace InlineMarkup.Pretty

open InlineMarkup.Host (TokenTree Delimiter)
open Doc

structure Place where
  begins : Bool := false
  /-- Whether an operator follows that could be taken for a part of it. -/
  continued : Bool := false

namespace Place

def alone : Place := {}

def lineStart : Place := { begins := true }

def left : Place := { continued := true }

def right (place : Place) : Place := { continued := place.continued }

/-- The place at the start of what stands at `place`, before a point or a postfix operator. -/
def base (place : Place) : Place := { place with continued := true }

end Place

structure Painter where
  expr : Place → Host.Tree → Doc
  operand : Place → Host.Tree → Doc
  type : Host.Tree → Doc
  pattern : Host.Tree → Doc
  statement : Bool → Host.Tree → Doc
  item : Host.Tree → Doc

def Painter.plain : Painter where
  expr _ t := text t.text
  operand _ t := text t.text
  type t := text t.text
  pattern t := text t.text
  statement _ t := text t.text
  item t := text t.text

def elements (ts : List Host.Tree) : List Host.Tree :=
  ts.filter fun t => !t.isToken ","

def token (t : Host.Tree) : Doc := text t.text

def groupOf : List Host.Tree → List Host.Tree
  | [] => []
  | .group _ _ _ children :: _ => children
  | _ :: ts => groupOf ts

def isGroup : Host.Tree → Bool
  | .group _ _ _ _ => true
  | _ => false

def simplePath (path : Host.Tree) : Doc :=
  text (path.children.flatMap fun
    | .node .segment (name :: _) => name.text
    | t => t.text)

def trimSpaces (s : List Char) : List Char :=
  (s.reverse.dropWhile (· == ' ')).reverse

def trimInnerSpaces (n : Nat) : List Char → List Char
  | [] => List.replicate n ' '
  | c :: s =>
    if c = ' ' then trimInnerSpaces (n + 1) s
    else if c = '\n' then '\n' :: trimInnerSpaces 0 s
    else List.replicate n ' ' ++ c :: trimInnerSpaces 0 s

/-- Whether comment marks in a text are balanced, so that the text can be a block comment. -/
def isBalanced (depth : Nat) : List Char → Bool
  | '/' :: '*' :: s => isBalanced (depth + 1) s
  | '*' :: '/' :: s =>
    match depth with
    | 0 => false
    | depth + 1 => isBalanced depth s
  | _ :: s => isBalanced depth s
  | [] => depth == 0

def namedString? (contents : List Host.Tree) : Option (List Char × List Char) :=
  match contents with
  | [.node .path [.node .segment [name]], _, .node .literal [.token [.literal s _]]] =>
    (Host.Literal.string? s).map fun value => (name.text, value)
  | _ => none

def comment? (inner : Bool) (contents : List Host.Tree) : Option Doc :=
  match namedString? contents with
  | none => none
  | some (name, value) =>
    let first := value.head?
    let line := !value.contains '\n'
    let block := isBalanced 0 value && value.getLast? != some '/'
    if name = "doc".toList then
      if line && (inner || first != some '/') then
        some (word (if inner then "//!" else "///") ++ text (trimSpaces value))
      else if block && (inner || first != some '*' && first != some '/') then
        some (word (if inner then "/*!" else "/**") ++ text (trimInnerSpaces 0 value) ++ word "*/")
      else none
    else if name = "comment".toList then
      if line then some (word "//" ++ text (trimSpaces value))
      else if block && first != some '*' && first != some '!' then
        some (word "/*" ++ text (trimInnerSpaces 0 value) ++ word "*/")
      else none
    else none

def attributeContents (p : Painter) (contents : List Host.Tree) : Doc :=
  match contents with
  | path :: .group d opening closing [.raw ts] :: _ =>
    simplePath path ++ (attributeToken false true .punct (.group d ts opening closing)).1
  | [path, _, value] => simplePath path ++ word " = " ++ p.expr .alone value
  | path :: _ => simplePath path
  | [] => []

def attributeDoc (p : Painter) (inner : Bool) (t : Host.Tree) : Doc :=
  let contents := groupOf t.children
  match comment? inner contents with
  | some d => d ++ hard
  | none =>
    word (if inner then "#![" else "#[") ++ attributeContents p contents ++ word "]" ++ space

def outerAttributes (p : Painter) (ts : List Host.Tree) : Doc :=
  (ts.filter (·.is .outerAttribute)).flatMap (attributeDoc p false)

def innerAttributes (p : Painter) (ts : List Host.Tree) : Doc :=
  (ts.filter (·.is .innerAttribute)).flatMap (attributeDoc p true)

def bodyParts (ts : List Host.Tree) : List Host.Tree :=
  ts.filter fun t => !t.is .innerAttribute

def isName (s : String) (path : Host.Tree) : Bool :=
  match path with
  | .node .path [.node .segment [name]] => name.isToken s
  | _ => false

inductive RulePart where
  | matcher
  | equals
  | greater
  | expansion
  | semicolon

def boxedBody (matcher : Bool) (gap : Doc) (ts : List TokenTree) : Doc :=
  if ts.isEmpty then [] else cbox indent (gap ++ ibox 0 (macroBody matcher ts) ++ gap ++ dedent)

/-- The rules of a macro definition from the given part of one on, each rule on lines of its own.
The last one is set as far as it goes. -/
def macroRules (part : RulePart) : List TokenTree → Doc
  | [] =>
    match part with
    | .matcher => []
    | .semicolon => word ";" ++ hard
    | _ => hard
  | t :: ts =>
    match part, t with
    | .matcher, .group d contents _ _ =>
      openingWord d ++ boxedBody true zero contents ++ closingWord d ++ macroRules .equals ts
    | .equals, .punct '=' _ _ => word " =" ++ macroRules .greater ts
    | .greater, .punct '>' _ _ => word ">" ++ macroRules .expansion ts
    | .expansion, .group _ contents _ _ =>
      word " \x7b" ++ never ++ boxedBody false hard contents ++ word "\x7d" ++
        macroRules .semicolon ts
    | .semicolon, .punct ';' _ _ => word ";" ++ hard ++ macroRules .matcher ts
    | _, _ => []

def macroTokensOf : List Host.Tree → List TokenTree
  | [] => []
  | .group _ _ _ [.body written _] :: _ => written
  | _ :: ts => macroTokensOf ts

def delimiterOf : List Host.Tree → Delimiter
  | [] => .parenthesis
  | .group d _ _ _ :: _ => d
  | _ :: ts => delimiterOf ts

def macroName? : List Host.Tree → Option Host.Tree
  | [_, _, .token ts, _] => some (.token ts)
  | _ => none

def macroCall (parts : List Host.Tree) (semicolon : Bool) : Doc :=
  match parts with
  | [] => []
  | path :: _ =>
    let parts := parts.filter fun t => !t.isToken ";"
    let ts := macroTokensOf parts
    match macroName? parts with
    | some name =>
      if isName "macro_rules" path then
        word "macro_rules! " ++ token name ++ word " \x7b" ++
          cbox indent (hardIfNonempty ++ macroRules .matcher ts ++ dedent) ++ word "\x7d"
      else macroWith path (word " " ++ token name) parts ts
    | none => macroWith path [] parts ts
where
  macroWith (path : Host.Tree) (name : Doc) (parts : List Host.Tree) (ts : List TokenTree) : Doc :=
    let d := delimiterOf parts
    let contents := boxedBody false (if d = .brace then hard else zero) ts
    simplePath path ++ word "!" ++ name ++ (if d = .brace then word " " else []) ++
      openingWord d ++ contents ++ closingWord d ++ (if semicolon then word ";" else [])

end InlineMarkup.Pretty
