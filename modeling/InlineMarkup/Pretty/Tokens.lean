import InlineMarkup.Host.Token
import InlineMarkup.Pretty.Doc

/-!
Setting token trees that are not parsed: the bodies of macro calls and the lists of attributes.
Where blanks stand between tokens is guessed from what the tokens look like.
-/

set_option autoImplicit false

namespace InlineMarkup.Pretty

open InlineMarkup.Host (TokenTree Delimiter)
open Doc

def openingWord (d : Delimiter) : Doc := text [d.opening]

def closingWord (d : Delimiter) : Doc := text [d.closing]

/-- What stands before a token, as far as spacing goes. -/
inductive Before where
  | start
  | dollar
  | dollarName
  | dollarNameColon
  | dollarGroup
  | dollarGroupSeparator
  | pound
  | poundBang
  | dot
  | colon
  | colons
  | name
  | nameBang
  | delimited
  | other
  deriving DecidableEq

def settingApart : List (List Char) :=
  ["as", "async", "await", "box", "break", "const", "continue", "crate", "dyn", "else", "enum",
    "extern", "fn", "for", "if", "impl", "in", "let", "loop", "macro", "match", "mod", "move",
    "mut", "pub", "ref", "return", "static", "struct", "trait", "type", "unsafe", "use", "where",
    "while", "yield"].map String.toList

def isRepetition (c : Char) : Bool :=
  c == '+' || c == '*' || c == '?'

/-- Whether a blank separates a token from what stands before it, and what then stands before the
next. In a matcher a word after a dollar sign is a variable, and points are not accesses. A number
that ends in a point is kept apart from a point that follows. -/
def spacing (matcher : Bool) (before : Before) (t : TokenTree) : Bool × Before :=
  match before, t with
  | .dollar, .word _ _ => (false, if matcher then .dollarName else .name)
  | .dollarName, .punct ':' false _ => (false, .dollarNameColon)
  | .dollarNameColon, .word _ _ => (false, .other)
  | .dollarGroup, .word _ _ => (false, .dollarGroupSeparator)
  | .dollarGroup, .literal _ _ => (false, .dollarGroupSeparator)
  | .dollarGroup, .punct c joint _ =>
    if joint then (false, .dollarGroup)
    else if isRepetition c then (false, .other)
    else (false, .dollarGroupSeparator)
  | .pound, .punct '!' _ _ => (false, .poundBang)
  | .dollar, .group .parenthesis _ _ _ => (false, .dollarGroup)
  | .pound, .group .bracket _ _ _ => (false, .other)
  | .poundBang, .group .bracket _ _ _ => (false, .other)
  | .name, .group .parenthesis _ _ _ => (false, .delimited)
  | .name, .group .bracket _ _ _ => (false, .delimited)
  | .name, .punct '!' false _ => (false, .nameBang)
  | .nameBang, .group .parenthesis _ _ _ => (false, .other)
  | .nameBang, .group .bracket _ _ _ => (false, .other)
  | .colon, .punct ':' _ _ => (false, .colons)
  | _, .group .brace _ _ _ => (true, .other)
  | _, .group _ _ _ _ => (true, .delimited)
  | _, .word w _ =>
    if settingApart.contains w then (true, .other)
    else (before != .dot && before != .colons, .name)
  | _, .literal s _ => (before != .dot, if s.getLast? = some '.' then .other else .name)
  | _, .punct c joint _ =>
    if before == .dollarGroupSeparator && (c == '+' || c == '*') then (false, .other)
    else if c == ',' || c == ';' then (false, .other)
    else if c == '.' && !matcher then (before != .name && before != .delimited, .dot)
    else if c == ':' && joint then (before != .name, .colon)
    else if c == '$' then (true, .dollar)
    else if c == '#' then (true, .pound)
    else (true, .other)

def isPoint : TokenTree → Bool
  | .punct '.' _ _ => true
  | _ => false

def bindsNext : TokenTree → Bool
  | .punct c joint _ => joint || c == '$'
  | _ => false

mutual

def macroToken (matcher : Bool) : TokenTree → Doc
  | .word w _ => text w
  | .punct c _ _ => text [c]
  | .literal s _ => text s
  | .group d [] _ _ => openingWord d ++ closingWord d
  | .group d (t :: ts) _ _ =>
    let contents := macroToken matcher t ++
      macroTokens matcher (spacing matcher .start t).2 (bindsNext t) ts
    let blank := if d = .brace then space else []
    openingWord d ++ blank ++ contents ++ blank ++ closingWord d

def macroTokens (matcher : Bool) (before : Before) (bound : Bool) : List TokenTree → Doc
  | [] => []
  | t :: ts =>
    let (apart, next) := spacing matcher before t
    (if bound then [] else if apart then space else if isPoint t then zero else []) ++
      macroToken matcher t ++ macroTokens matcher next (bindsNext t) ts

end

def macroBody (matcher : Bool) (ts : List TokenTree) : Doc :=
  macroTokens matcher .start true ts

inductive AttributeState where
  | word
  | punct
  | trailingComma
  deriving DecidableEq

def blankIn (inner : Bool) : Doc :=
  if inner then space else word " "

mutual

/-- One token of an attribute's list; `inner` says whether it stands in a group, `last` whether it
is the last there. -/
def attributeToken (inner last : Bool) (state : AttributeState) :
    TokenTree → Doc × AttributeState
  | .word w _ => ((if state = .word then blankIn inner else []) ++ text w, .word)
  | .literal s _ => ((if state = .word then blankIn inner else []) ++ text s, .word)
  | .punct c _ _ =>
    if c = ',' ∧ last then (trailingComma true, .trailingComma)
    else
      ((if state = .word ∧ c = '=' then word " " else []) ++ text [c] ++
        (if c = '=' then word " " else if c = ',' then blankIn inner else []), .punct)
  | .group d contents _ _ =>
    let (inside, final) := attributeTokens .punct contents
    let inside :=
      if d = .parenthesis then
        cbox indent (zero ++ inside ++ (if final = .trailingComma then [] else zero) ++ dedent)
      else inside
    (openingWord d ++ inside ++ closingWord d, .punct)

def attributeTokens (state : AttributeState) : List TokenTree → Doc × AttributeState
  | [] => ([], state)
  | t :: ts =>
    let (first, next) := attributeToken true ts.isEmpty state t
    let (rest, final) := attributeTokens next ts
    (first ++ rest, final)

end

end InlineMarkup.Pretty
