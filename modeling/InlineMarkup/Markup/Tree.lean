import InlineMarkup.Text.Blank
import InlineMarkup.Text.Quoted
import InlineMarkup.Markup.Reference

/-!
Element trees and their two printed forms: an outline with one node a line, for people, and
markup, for the parser.
-/

set_option autoImplicit false

namespace InlineMarkup.Markup

open InlineMarkup.Text

/-- An attribute written without a value has the empty one. -/
structure Attribute where
  name : List Char
  value : List Char
  deriving DecidableEq, Repr

inductive Node where
  | element : List Char → List Attribute → List Node → Node
  | text : List Char → Node
  deriving Repr

structure Element where
  name : List Char
  attributes : List Attribute
  children : List Node
  deriving Repr

def Element.toNode (e : Element) : Node :=
  .element e.name e.attributes e.children

mutual

def Node.decideEq : (a b : Node) → Decidable (a = b)
  | .element n as cs, .element m bs ds =>
    match decEq n m, decEq as bs, Node.decideEqList cs ds with
    | .isTrue h₁, .isTrue h₂, .isTrue h₃ => .isTrue (by rw [h₁, h₂, h₃])
    | .isFalse h, _, _ => .isFalse (fun e => by injection e; contradiction)
    | _, .isFalse h, _ => .isFalse (fun e => by injection e; contradiction)
    | _, _, .isFalse h => .isFalse (fun e => by injection e; contradiction)
  | .text s, .text t =>
    match decEq s t with
    | .isTrue h => .isTrue (by rw [h])
    | .isFalse h => .isFalse (fun e => by injection e; contradiction)
  | .element _ _ _, .text _ => .isFalse (fun e => by injection e)
  | .text _, .element _ _ _ => .isFalse (fun e => by injection e)

def Node.decideEqList : (as bs : List Node) → Decidable (as = bs)
  | [], [] => .isTrue rfl
  | a :: as, b :: bs =>
    match Node.decideEq a b, Node.decideEqList as bs with
    | .isTrue h₁, .isTrue h₂ => .isTrue (by rw [h₁, h₂])
    | .isFalse h, _ => .isFalse (fun e => by injection e; contradiction)
    | _, .isFalse h => .isFalse (fun e => by injection e; contradiction)
  | [], _ :: _ => .isFalse (fun e => by injection e)
  | _ :: _, [] => .isFalse (fun e => by injection e)

end

instance : DecidableEq Node := Node.decideEq

deriving instance DecidableEq for Element

def Element.attribute? (e : Element) (name : List Char) : Option (List Char) :=
  (e.attributes.find? (·.name == name)).map (·.value)

def isEmbeddedCode (content : List Char) : Bool :=
  match trim content with
  | '\x7b' :: s =>
    match s.getLast? with
    | some '\x7d' => s.dropLast.all fun c => c != '\x7b' && c != '\x7d'
    | _ => false
  | _ => false

def Attribute.outline (a : Attribute) : List Char :=
  ' ' :: a.name ++ '=' :: quoted a.value

def textOutline (content : List Char) : List Char :=
  if isEmbeddedCode content then "embed:".toList ++ content else content

mutual

/-- One line a node, children two columns further in. -/
def Node.outlineAt (depth : Nat) : Node → List Char
  | .element name attributes children =>
    times depth [' ', ' '] ++ name ++ attributes.flatMap Attribute.outline ++
      '\n' :: Node.outlineListAt (depth + 1) children
  | .text content => times depth [' ', ' '] ++ textOutline content ++ ['\n']

def Node.outlineListAt (depth : Nat) : List Node → List Char
  | [] => []
  | n :: ns => Node.outlineAt depth n ++ Node.outlineListAt depth ns

end

def Node.outline (n : Node) : List Char :=
  n.outlineAt 0

def Attribute.markup (a : Attribute) : List Char :=
  ' ' :: a.name ++ '=' :: '"' :: escapeValue a.value ++ ['"']

mutual

/-- Elements without children are written self-closing. -/
def Node.markup : Node → List Char
  | .element name attributes [] =>
    '<' :: name ++ attributes.flatMap Attribute.markup ++ ['/', '>']
  | .element name attributes (c :: cs) =>
    '<' :: name ++ attributes.flatMap Attribute.markup ++
      '>' :: Node.markup c ++ Node.markupList cs ++ '<' :: '/' :: name ++ ['>']
  | .text content => escapeText content

def Node.markupList : List Node → List Char
  | [] => []
  | n :: ns => Node.markup n ++ Node.markupList ns

end

end InlineMarkup.Markup
