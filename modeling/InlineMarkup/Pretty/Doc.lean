import InlineMarkup.Text.Basic

/-!
Documents: texts, the places where a line may break, and boxes around them.

A box whose contents fit on the line is set without breaks. In one that does not fit, a consistent
box breaks at all of its places, any other only where the next part would not fit.
-/

set_option autoImplicit false

namespace InlineMarkup.Pretty

def indent : Int := 4

def endless : Nat := 0xffff

/-- A place where a line may break. -/
structure Gap where
  blank : Nat := 0
  offset : Int := 0
  before : List Char := []
  after : List Char := []
  unbroken : List Char := []
  /-- Whether it is left out at the end of a box. -/
  ifNonempty : Bool := false
  never : Bool := false
  deriving Repr

inductive Part where
  | text (s : List Char)
  | gap (g : Gap)
  | opening (offset : Int) (consistent : Bool)
  /-- The end of a box, which is broken if it is wider than the bound given. -/
  | closing (widest : Option Nat)
  | shift (columns : Int)
  /-- Takes no place, but keeps the boxes around it from fitting. -/
  | force
  deriving Repr

abbrev Doc := List Part

namespace Doc

def text (s : List Char) : Doc := [.text s]

def word (s : String) : Doc := [.text s.toList]

def ibox (offset : Int) (d : Doc) : Doc :=
  .opening offset false :: d ++ [.closing none]

def cbox (offset : Int) (d : Doc) : Doc :=
  .opening offset true :: d ++ [.closing none]

def narrowBox (offset : Int) (widest : Nat) (d : Doc) : Doc :=
  .opening offset true :: d ++ [.closing (some widest)]

def zero : Doc := [.gap {}]

def space : Doc := [.gap { blank := 1 }]

def hard : Doc := [.gap { blank := endless }]

def hardIfNonempty : Doc := [.gap { blank := endless, ifNonempty := true }]

def spaceIfNonempty : Doc := [.gap { blank := 1, ifNonempty := true }]

def never : Doc := [.gap { never := true }]

def dedent : Doc := [.shift (-indent)]

/-- A comma after an element; after the last one only where the line breaks. -/
def trailingComma (last : Bool) : Doc :=
  if last then [.gap { before := [','] }] else word "," ++ space

def trailingCommaOrSpace (last : Bool) : Doc :=
  if last then [.gap { blank := 1, before := [','] }] else word "," ++ space

def eachFrom {α : Type} (first : Bool) (f : Bool → Bool → α → Doc) : List α → Doc
  | [] => []
  | [a] => f first true a
  | a :: as => f first false a ++ eachFrom false f as

def each {α : Type} (f : Bool → Bool → α → Doc) (as : List α) : Doc :=
  eachFrom true f as

def eachLast {α : Type} (f : Bool → α → Doc) (as : List α) : Doc :=
  each (fun _ last a => f last a) as

def eachFirst {α : Type} (f : Bool → α → Doc) (as : List α) : Doc :=
  each (fun first _ a => f first a) as

def commaBox {α : Type} (offset : Int) (f : α → Doc) (as : List α) : Doc :=
  cbox offset (zero ++ eachLast (fun last a => f a ++ trailingComma last) as ++ dedent)

end Doc

end InlineMarkup.Pretty
