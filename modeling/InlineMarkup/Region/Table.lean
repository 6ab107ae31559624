import InlineMarkup.Text.Basic
import InlineMarkup.Markup.Tree

/-!
The markup regions of a source, numbered from one in the order in which they stand.
-/

set_option autoImplicit false

namespace InlineMarkup

open InlineMarkup.Text

structure Region where
  offset : Nat
  text : List Char
  root : Markup.Element
  deriving DecidableEq, Repr

structure RegionTable where
  regions : List Region := []
  deriving DecidableEq, Repr

namespace RegionTable

def size (t : RegionTable) : Nat :=
  t.regions.length

def isEmpty (t : RegionTable) : Bool :=
  t.regions.isEmpty

/-- A table with one more region, whose id is the new table's size. -/
def push (t : RegionTable) (r : Region) : RegionTable :=
  ⟨t.regions ++ [r]⟩

def get? (t : RegionTable) : Nat → Option Region
  | 0 => none
  | n + 1 => t.regions[n]?

def numberFrom (id : Nat) : List Region → List (Nat × Region)
  | [] => []
  | r :: rs => (id, r) :: numberFrom (id + 1) rs

def numbered (t : RegionTable) : List (Nat × Region) :=
  numberFrom 1 t.regions

def regionOutline (id : Nat) (r : Region) : List Char :=
  '#' :: (toString id).toList ++ " @ ".toList ++ (toString r.offset).toList ++ '\n' ::
    (lines r.root.toNode.outline).flatMap fun line => ' ' :: ' ' :: line ++ ['\n']

def outline (t : RegionTable) : List Char :=
  t.numbered.flatMap fun (id, r) => regionOutline id r

end RegionTable

end InlineMarkup
