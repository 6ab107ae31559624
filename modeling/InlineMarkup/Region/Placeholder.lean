import InlineMarkup.Host.Path

/-!
Placeholder calls. The call that stands for a region carries the region's id and, as a raw string,
its text.
-/

set_option autoImplicit false

namespace InlineMarkup

/-- The greatest number of hash signs directly after a quote. -/
def longestRun : List Char → Nat
  | [] => 0
  | c :: s =>
    if c = '"' then max (s.takeWhile (· == '#')).length (longestRun s) else longestRun s

/-- A raw string literal with one hash sign more than it takes not to end early. -/
def rawStringLiteral (text : List Char) : List Char :=
  let hashes := List.replicate (longestRun text + 1) '#'
  'r' :: hashes ++ '"' :: text ++ '"' :: hashes

def placeholderCall (function : Host.Path) (id : Nat) (text : List Char) : List Char :=
  function.text ++ '(' :: (toString id).toList ++ ", ".toList ++ rawStringLiteral text ++ [')']

end InlineMarkup
