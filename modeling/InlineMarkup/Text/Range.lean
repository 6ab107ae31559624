/-!
Sets of code points written as the increasing list of the points where membership changes.
-/

set_option autoImplicit false

namespace InlineMarkup.Text

/-- Whether `n` lies in the set: the number of changes at or below it is odd. -/
def inSet : List Nat → Nat → Bool
  | [], _ => false
  | b :: bs, n => if n < b then false else !inSet bs n

end InlineMarkup.Text
