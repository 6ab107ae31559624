import InlineMarkup.Pretty.Layout
import InlineMarkup.Pretty.Item

/-!
Setting whole files. The levels of nesting are bounded by the number of tokens.
-/

set_option autoImplicit false

namespace InlineMarkup.Pretty

open Doc

def Painter.next (p : Painter) : Painter where
  expr place t := exprDoc p place t
  operand place t := operandDoc p place t
  type t := typeDoc p t
  pattern t := patternDoc p t
  statement last t := statementDoc p last t
  item t := itemDoc p t

def Painter.ofLevel (n : Nat) : Painter :=
  Nat.repeat Painter.next n Painter.plain

mutual

def depth : Host.Tree → Nat
  | .node _ children => depthOf children + 1
  | .group _ _ _ children => depthOf children + 1
  | .body _ arguments => depthOf arguments + 1
  | _ => 1

def depthOf : List Host.Tree → Nat
  | [] => 0
  | t :: ts => max (depth t) (depthOf ts)

end

def file (interpreter : Option (List Char)) (t : Host.Tree) : List Char :=
  let p := Painter.ofLevel (2 * depth t + 2)
  let first := match interpreter with
    | some line => text line ++ hard
    | none => []
  Doc.render (cbox 0 (first ++ innerAttributes p t.children ++ t.parts.flatMap p.item))

end InlineMarkup.Pretty
