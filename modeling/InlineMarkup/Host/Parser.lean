import InlineMarkup.Host.Tree
import InlineMarkup.Host.Complaint
import InlineMarkup.Host.Lexeme

/-!
Parsers over token trees, and what they can look at and take.

An input is the rest of the tokens between two delimiters. Tokens that a parser leaves in a group
are no failure at once: the first of them is remembered, and refused when all else was accepted.
A failure is final; looking ahead is done on the tokens, or by trying a parser and going back.
-/

set_option autoImplicit false

namespace InlineMarkup.Host

open InlineMarkup.Text

structure Leftover where
  mark : Mark
  inside : Delimiter
  deriving DecidableEq, Repr

structure Input where
  rest : List TokenTree
  finish : Mark
  leftover : Option Leftover := none

abbrev Parser := StateT Input (Except Refusal)

namespace Look

def atWord (s : String) : List TokenTree → Bool
  | .word w _ :: _ => w == s.toList
  | _ => false

def atChars : List Char → List TokenTree → Bool
  | [], _ => true
  | [c], .punct d _ _ :: _ => c == d
  | c :: cs, .punct d joint _ :: ts => c == d && joint && atChars cs ts
  | _ :: _, _ => false

def atPunct (s : String) (ts : List TokenTree) : Bool :=
  atChars s.toList ts

def atGroup (d : Delimiter) : List TokenTree → Bool
  | .group e _ _ _ :: _ => d == e
  | _ => false

def keywords : List (List Char) :=
  ["_", "abstract", "as", "async", "await", "become", "box", "break", "const", "continue", "crate",
    "do", "dyn", "else", "enum", "extern", "false", "final", "fn", "for", "if", "impl", "in", "let",
    "loop", "macro", "match", "mod", "move", "mut", "override", "priv", "pub", "ref", "return",
    "Self", "self", "static", "struct", "super", "trait", "true", "try", "type", "typeof",
    "unsafe", "unsized", "use", "virtual", "where", "while", "yield"].map String.toList

def isKeyword (w : List Char) : Bool :=
  keywords.contains w

def atAnyWord : List TokenTree → Bool
  | .word _ _ :: _ => true
  | _ => false

def atIdentifier : List TokenTree → Bool
  | .word w _ :: _ => !isKeyword w
  | _ => false

def atLifetime : List TokenTree → Bool
  | .punct '\'' _ _ :: .word _ _ :: _ => true
  | _ => false

def isNumber (s : List Char) : Bool :=
  match s with
  | c :: _ => c.isDigit
  | [] => false

def atLiteral : List TokenTree → Bool
  | .literal _ _ :: _ => true
  | .word w _ :: _ => w == "true".toList || w == "false".toList
  | .punct '-' _ _ :: .literal s _ :: _ => isNumber s
  | _ => false

def isStringLiteral : List Char → Bool
  | '"' :: _ => true
  | 'r' :: _ => true
  | _ => false

def atString : List TokenTree → Bool
  | .literal s _ :: _ => isStringLiteral s
  | _ => false

/-- The tokens after the first one; a lifetime counts as one. -/
def skip : List TokenTree → Option (List TokenTree)
  | [] => none
  | .punct '\'' _ _ :: .word _ _ :: ts => some ts
  | _ :: ts => some ts

def second (look : List TokenTree → Bool) (ts : List TokenTree) : Bool :=
  match skip ts with
  | some ts => look ts
  | none => false

def third (look : List TokenTree → Bool) (ts : List TokenTree) : Bool :=
  match skip ts with
  | some ts => second look ts
  | none => false

end Look

def ahead : Parser (List TokenTree) :=
  return (← get).rest

def isEmpty : Parser Bool :=
  return (← ahead).isEmpty

def look (p : List TokenTree → Bool) : Parser Bool :=
  return p (← ahead)

def here : Parser Mark := do
  let input ← get
  match input.rest with
  | t :: _ => return t.start
  | [] => return input.finish

def refuse {α : Type} (complaint : Complaint) (mark : Mark) : Parser α :=
  throw ⟨complaint, mark⟩

def expected {α : Type} (what : List String) : Parser α := do
  refuse (.expected what (← isEmpty)) (← here)

/-- A name for lists of what is expected. What stands here, but cannot be taken for another
reason, is not said to be expected. -/
def nameUnless (seen : Bool) (name : String) : List String :=
  if seen then [] else [name]

def forbid {α : Type} (rule : String) : Parser α := do
  if ← isEmpty then refuse (.refused s!"unexpected end of input, {rule}") (← here)
  else refuse (.refused rule) (← here)

def name (s : String) : String := s!"`{s}`"

def takeChars : List Char → List TokenTree → Option (List TokenTree × List TokenTree)
  | [], ts => some ([], ts)
  | [c], .punct d _ span :: ts => if c == d then some ([.punct d false span], ts) else none
  | c :: cs, .punct d joint span :: ts =>
    if c == d && joint then
      (takeChars cs ts).map fun (op, rest) => (.punct d true span :: op, rest)
    else none
  | _ :: _, _ => none

/-- An operator. That the input ended is not said when it is missing. -/
def punct (s : String) : Parser Tree := do
  match takeChars s.toList (← ahead) with
  | some (op, rest) =>
    modify fun input => { input with rest }
    return .token op
  | none => refuse (.expected [name s] false) (← here)

def word (s : String) : Parser Tree := do
  match ← ahead with
  | .word w span :: rest =>
    if w == s.toList then
      modify fun input => { input with rest }
      return .token [.word w span]
    else expected [name s]
  | _ => expected [name s]

def anyWord : Parser Tree := do
  match ← ahead with
  | .word w span :: rest =>
    modify fun input => { input with rest }
    return .token [.word w span]
  | _ => expected ["ident"]

def identifier : Parser Tree := do
  match ← ahead with
  | .word w span :: rest =>
    if Look.isKeyword w then refuse (.keywordAsIdentifier (String.ofList w)) (← here)
    else
      modify fun input => { input with rest }
      return .token [.word w span]
  | _ => expected ["identifier"]

def lifetime : Parser Tree := do
  match ← ahead with
  | .punct '\'' joint span :: .word w span' :: rest =>
    modify fun input => { input with rest }
    return .token [.punct '\'' joint span, .word w span']
  | _ => expected ["lifetime"]

/-- The text and the place of a literal, and the tokens after it; a number takes its minus sign
with it. -/
def takeLiteral : List TokenTree → Option (List Char × Span × List TokenTree)
  | .literal s span :: rest => some (s, span, rest)
  | .punct '-' _ span :: .literal s span' :: rest =>
    if Look.isNumber s then some ('-' :: s, ⟨span.start, span'.stop⟩, rest) else none
  | _ => none

def literalToken : Parser Tree := do
  let ts ← ahead
  match takeLiteral ts with
  | some (s, span, rest) =>
    modify fun input => { input with rest }
    return .token [.literal s span]
  | none =>
    if Look.atWord "true" ts || Look.atWord "false" ts then anyWord else expected ["literal"]

def anyGroup : Parser TokenTree := do
  match ← ahead with
  | t@(.group _ _ _ _) :: rest =>
    modify fun input => { input with rest }
    return t
  | _ => expected ["delimiter"]

def delimiterName : Delimiter → String
  | .parenthesis => "parentheses"
  | .bracket => "square brackets"
  | .brace => "curly braces"

def inGroup (d : Delimiter) (p : Parser (List Tree)) : Parser Tree := do
  let input ← get
  match input.rest with
  | .group e contents opening closing :: rest =>
    if d == e then
      let (children, inner) ← p.run ⟨contents, closing.start, input.leftover⟩
      -- an earlier leftover stays; else it is the first token left in this group
      let leftover := match inner.leftover, inner.rest with
        | none, t :: _ => some ⟨t.start, d⟩
        | leftover, _ => leftover
      set { input with rest, leftover }
      return .group d opening closing children
    else expected [delimiterName d]
  | _ => expected [delimiterName d]

def tentatively {α : Type} (p : Parser α) : Parser (Option α) := fun input =>
  match p { input with leftover := none } with
  | .ok (a, next) => .ok (some a, { next with leftover := input.leftover.or next.leftover })
  | .error _ => .ok (none, input)

def optional (see : List TokenTree → Bool) (p : Parser Tree) : Parser (List Tree) := do
  if ← look see then return [← p] else return []

def optionalWord (s : String) : Parser (List Tree) :=
  optional (Look.atWord s) (word s)

def optionalPunct (s : String) : Parser (List Tree) :=
  optional (Look.atPunct s) (punct s)

def repeatFuel (step : Parser (List Tree × Bool)) : Nat → Parser (List Tree)
  | 0 => return []
  | fuel + 1 => do
    let (trees, more) ← step
    if more then return trees ++ (← repeatFuel step fuel) else return trees

/-- Repeats a step that takes a token whenever it asks to go on. -/
def repeatStep (step : Parser (List Tree × Bool)) : Parser (List Tree) := do
  repeatFuel step ((← ahead).length + 1)

def whileSeen (see : List TokenTree → Bool) (p : Parser Tree) : Parser (List Tree) :=
  repeatStep do
    if ← look see then return ([← p], true) else return ([], false)

def untilEmpty (p : Parser Tree) : Parser (List Tree) :=
  whileSeen (fun ts => !ts.isEmpty) p

/-- Parts with a separator between them, up to where `stop` holds; the last part may have its
separator too. -/
def separated (stop : List TokenTree → Bool) (p : Parser Tree) (separator : String) :
    Parser (List Tree) :=
  repeatStep do
    if ← look stop then return ([], false)
    let value ← p
    if ← look stop then return ([value], false)
    let mark ← punct separator
    return ([value, mark], true)

def commaList (p : Parser Tree) : Parser (List Tree) :=
  separated List.isEmpty p ","

/-- Parts joined by a plus sign: after a part, only a plus sign goes on, and after a plus sign
`stop` may end the list. -/
def plusList (stop : List TokenTree → Bool) (p : Parser Tree) : Parser (List Tree) :=
  repeatStep do
    if ← look stop then return ([], false)
    let value ← p
    if ← look (Look.atPunct "+") then return ([value, ← punct "+"], true)
    else return ([value], false)

def verbatimSince (start : List TokenTree) : Parser Tree := do
  let rest ← ahead
  return .node .verbatim [.raw (start.take (start.length - rest.length))]

end InlineMarkup.Host
