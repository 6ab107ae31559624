import InlineMarkup.Text.Quoted
import InlineMarkup.Host.Path

/-!
Generated expressions: calls whose arguments are calls, strings, or code of the host language kept
as written.

Their text puts a call on one line if no argument is a call and the arguments take at most a
hundred bytes; otherwise each argument stands on a line of its own, with a comma behind it.
-/

set_option autoImplicit false

namespace InlineMarkup

open InlineMarkup.Text InlineMarkup.Host

inductive Generated where
  | call (function : Host.Path) (arguments : List Generated)
  | str (value : List Char)
  | host (expr : Host.Tree) (source : List Char)
  deriving Repr

structure Layout where
  /-- What every line but the first begins with. -/
  base : List Char := []
  newline : List Char := ['\n']

def Layout.step : List Char := "    ".toList

def Layout.indent (l : Layout) (level : Nat) : List Char :=
  l.base ++ times level Layout.step

/-- The bytes that the arguments of a call on one line may take. -/
def widestInline : Nat := 100

namespace Generated

def leaf? : Generated → Option (List Char)
  | .call _ _ => none
  | .str value => some (stringLiteral value)
  | .host _ source => some source

def leaves? : List Generated → Option (List (List Char))
  | [] => some []
  | g :: gs =>
    match g.leaf?, leaves? gs with
    | some s, some ss => some (s :: ss)
    | _, _ => none

def inline? (arguments : List Generated) : Option (List Char) :=
  match leaves? arguments with
  | none => none
  | some texts =>
    let line := join [',', ' '] texts
    if byteLength line ≤ widestInline then some line else none

mutual

/-- The text of an expression whose call stands at some level of nesting. -/
def renderAt (l : Layout) (level : Nat) : Generated → List Char
  | .str value => stringLiteral value
  | .host _ source => source
  | .call function arguments =>
    function.text ++
      match inline? arguments with
      | some line => '(' :: line ++ [')']
      | none =>
        '(' :: l.newline ++ renderLines l (level + 1) arguments ++ l.indent level ++ [')']

def renderLines (l : Layout) (level : Nat) : List Generated → List Char
  | [] => []
  | g :: gs => l.indent level ++ renderAt l level g ++ ',' :: l.newline ++ renderLines l level gs

end

def render (g : Generated) (l : Layout) : List Char :=
  renderAt l 0 g

def comma : Host.Tree :=
  .token [.punct ',' false Span.nowhere]

def stringTree (value : List Char) : Host.Tree :=
  .node .literal [.token [.literal (stringLiteral value) Span.nowhere]]

mutual

def toTree : Generated → Host.Tree
  | .str value => stringTree value
  | .host expr _ => expr
  | .call function arguments =>
    .node .call [.node .pathExpr [function.toTree true],
      .group .parenthesis Span.nowhere Span.nowhere (argumentTrees arguments)]

def argumentTrees : List Generated → List Host.Tree
  | [] => []
  | g :: gs =>
    match gs with
    | [] => [toTree g]
    | _ :: _ => toTree g :: comma :: argumentTrees gs

end

end Generated

end InlineMarkup
