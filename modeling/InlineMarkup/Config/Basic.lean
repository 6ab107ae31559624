import InlineMarkup.Config.TagTable

/-!
What generated code depends on: the paths it calls, the tag table, and the attributes that are
treated specially.
-/

set_option autoImplicit false

namespace InlineMarkup

inductive Emit where
  | splice
  | pretty
  deriving DecidableEq, Repr

/-- The functions that generated code calls besides those for elements. -/
structure ApiPaths where
  text : Host.Path := .ofNames ["vecty", "text"]
  markup : Host.Path := .ofNames ["vecty", "markup"]
  classes : Host.Path := .ofNames ["vecty", "class"]
  named : Host.Path := .ofNames ["vecty", "attribute"]
  rawTag : Host.Path := .ofNames ["vecty", "tag"]
  deriving Repr

structure Config where
  placeholder : Host.Path := .ofNames ["tagsplice", "html"]
  api : ApiPaths := {}
  tags : TagTable := .html (.ofNames ["elem"])
  classAttribute : List Char := "class".toList
  /-- The attribute whose one embedded expression stands for any number of attributes. -/
  spreadAttribute : List Char := "markup".toList
  /-- Attributes whose value is a handler, and the function that takes it. -/
  handlers : Dictionary Host.Path := ⟨[("click".toList, .ofNames ["event", "click"])]⟩
  emit : Emit := .splice
  deriving Repr

namespace Config

def withClassAttribute (c : Config) (name : List Char) : Config :=
  { c with classAttribute := Text.lower name }

def withSpreadAttribute (c : Config) (name : List Char) : Config :=
  { c with spreadAttribute := Text.lower name }

def withHandler (c : Config) (name : List Char) (function : Host.Path) : Config :=
  { c with handlers := c.handlers.insert (Text.lower name) function }

end Config

end InlineMarkup
