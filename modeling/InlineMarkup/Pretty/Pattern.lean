import InlineMarkup.Pretty.Type

/-!
Setting patterns.
-/

set_option autoImplicit false

namespace InlineMarkup.Pretty

open InlineMarkup.Host (TokenTree Delimiter)
open Doc

def orPattern (p : Painter) (parts : List Host.Tree) : Doc :=
  let cases := parts.filter fun t => !t.isToken "|"
  let simple := cases.all fun t => t.is .literalPattern || t.is .wildPattern
  let inside := eachFirst (fun first t =>
    (if first then [] else space ++ word "| ") ++ p.pattern t) cases
  if simple then ibox 0 inside else cbox 0 inside

/-- The path of a pattern that has fields. A type in angle brackets before it is left out, but the
trait that the path is looked up in is not. -/
def patternPath (p : Painter) (ts : List Host.Tree) : Doc :=
  match ts with
  | [.node .qualifiedSelf [_, _, _, trait, _], t] => path p .expr trait ++ path p .expr t
  | [.node .qualifiedSelf _, t] => path p .expr t
  | ts => qualifiedPath p .expr ts

def fieldPattern (p : Painter) (t : Host.Tree) : Doc :=
  outerAttributes p t.children ++
  match t.parts with
  | [name, _, sub] => token name ++ word ": " ++ p.pattern sub
  | ts => ts.flatMap p.pattern

def structPattern (p : Painter) (parts : List Host.Tree) : Doc :=
  let fields := elements (groupOf parts)
  let named := fields.filter fun t => !t.is .restPattern
  let rest := fields.filter (·.is .restPattern)
  cbox indent (patternPath p (parts.filter (!isGroup ·)) ++ word " \x7b" ++
    spaceIfNonempty ++
    eachLast (fun last t =>
      fieldPattern p t ++ trailingCommaOrSpace (last && rest.isEmpty)) named ++
    (rest.flatMap fun t => outerAttributes p t.children ++ word ".." ++ space) ++ dedent) ++
    word "\x7d"

def tuplePattern (p : Painter) (contents : List Host.Tree) : Doc :=
  let ts := elements contents
  let trailing := contents.getLast?.any (·.isToken ",")
  word "(" ++
    cbox indent (zero ++ eachLast (fun last t =>
      p.pattern t ++
        if ts.length = 1 then (if trailing then word "," else []) ++ zero
        else trailingComma last) ts ++ dedent) ++
    word ")"

def patternDoc (p : Painter) (t : Host.Tree) : Doc :=
  outerAttributes p t.children ++
  match t with
  | .node .identifierPattern _ =>
    t.parts.flatMap fun c =>
      match c with
      | .token _ =>
        if c.isToken "ref" || c.isToken "mut" then token c ++ word " "
        else if c.isToken "@" then word " @ "
        else token c
      | c => p.pattern c
  | .node .pathPattern _ => qualifiedPath p .expr t.parts
  | .node .tuplePattern _ => tuplePattern p (groupOf t.parts)
  | .node .parenPattern _ => word "(" ++ (groupOf t.parts).flatMap p.pattern ++ word ")"
  | .node .slicePattern _ =>
    word "[" ++ eachLast (fun last c => p.pattern c ++ trailingComma last)
      (elements (groupOf t.parts)) ++ word "]"
  | .node .structPattern _ => structPattern p t.parts
  | .node .tupleStructPattern _ =>
    patternPath p (t.parts.filter (!isGroup ·)) ++ word "(" ++
      commaBox indent p.pattern (elements (groupOf t.parts)) ++ word ")"
  | .node .referencePattern _ =>
    t.parts.flatMap fun c =>
      if c.isToken "&" then word "&" else if c.isToken "mut" then word "mut " else p.pattern c
  | .node .rangePattern parts => p.expr .alone (.node .range parts)
  | .node .orPattern _ => orPattern p t.parts
  | .node .typedPattern _ =>
    match t.parts with
    | [sub, _, type] => p.pattern sub ++ word ": " ++ p.type type
    | _ => token t
  | .node .macroPattern _ => macroCall t.parts false
  | .node .constPattern parts => p.expr .alone (.node .constBlock parts)
  | .node .literalPattern _ => text (t.parts.flatMap fun c => (c.tokens.flatMap (·.text)))
  | .node .restPattern _ => word ".."
  | .node .wildPattern _ => word "_"
  | t => token t

end InlineMarkup.Pretty
