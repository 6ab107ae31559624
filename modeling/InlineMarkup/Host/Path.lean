import InlineMarkup.Host.File

/-!
Paths of the host language as values: the functions that generated code calls, and the one that
placeholder calls name.
-/

set_option autoImplicit false

namespace InlineMarkup.Host

open InlineMarkup.Text

structure PathSegment where
  name : List Char
  arguments : Option Tree := none
  deriving Repr

structure Path where
  rooted : Bool
  segments : List PathSegment
  deriving Repr

namespace Path

def doubleColon : Tree :=
  .token [.punct ':' true Span.nowhere, .punct ':' false Span.nowhere]

def ofNames (names : List String) : Path :=
  ⟨false, names.map fun s => ⟨s.toList, none⟩⟩

def push (p : Path) (name : List Char) : Path :=
  { p with segments := p.segments ++ [⟨name, none⟩] }

/-- The path as it is written in calls: names and colons, without generic arguments. -/
def text (p : Path) : List Char :=
  (if p.rooted then [':', ':'] else []) ++ join [':', ':'] (p.segments.map (·.name))

def segmentOfTree? : Tree → Option PathSegment
  | .node .segment [name] => some ⟨name.text, none⟩
  | .node .segment [name, arguments] => some ⟨name.text, some arguments⟩
  | _ => none

def ofTree (path : Tree) : Path :=
  ⟨match path.children with
    | first :: _ => first.isToken "::"
    | [] => false,
    path.children.filterMap segmentOfTree?⟩

def ofText (source : List Char) : Except Refusal Path :=
  (parsePath source).map ofTree

/-- Generic arguments with the double colon that calls need before them. -/
def withTurbofish (arguments : Tree) : Tree :=
  match arguments with
  | .node .arguments (first :: rest) =>
    if first.isToken "::" then arguments else .node .arguments (doubleColon :: first :: rest)
  | t => t

def segmentTree (turbofish : Bool) (s : PathSegment) : Tree :=
  .node .segment (.token [.word s.name Span.nowhere] ::
    match s.arguments with
    | none => []
    | some arguments => [if turbofish then withTurbofish arguments else arguments])

def segmentTrees (turbofish : Bool) : List PathSegment → List Tree
  | [] => []
  | [s] => [segmentTree turbofish s]
  | s :: ss => segmentTree turbofish s :: doubleColon :: segmentTrees turbofish ss

def toTree (p : Path) (inExpr : Bool) : Tree :=
  .node .path ((if p.rooted then [doubleColon] else []) ++ segmentTrees inExpr p.segments)

def spelling (p : Path) : List Char :=
  (p.toTree false).text.filter (· != ' ')

end Path

end InlineMarkup.Host
