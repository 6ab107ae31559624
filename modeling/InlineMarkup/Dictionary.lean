/-!
Dictionaries from names to values. What is stored under a name is the last value put there.
-/

set_option autoImplicit false

namespace InlineMarkup

structure Dictionary (α : Type) where
  entries : List (List Char × α) := []
  deriving Repr

namespace Dictionary

def get? {α : Type} (d : Dictionary α) (name : List Char) : Option α :=
  (d.entries.find? (·.1 == name)).map (·.2)

def erase {α : Type} (d : Dictionary α) (name : List Char) : Dictionary α :=
  ⟨d.entries.filter (·.1 != name)⟩

/-- A value put under a name takes the place of the earlier one. -/
def insert {α : Type} (d : Dictionary α) (name : List Char) (value : α) : Dictionary α :=
  ⟨(d.erase name).entries ++ [(name, value)]⟩

def size {α : Type} (d : Dictionary α) : Nat :=
  d.entries.length

def isEmpty {α : Type} (d : Dictionary α) : Bool :=
  d.entries.isEmpty

end Dictionary

end InlineMarkup
