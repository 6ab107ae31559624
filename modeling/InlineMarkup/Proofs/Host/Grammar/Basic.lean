import InlineMarkup.Proofs.Host.Keeping

/-!
A grammar keeps to its source if each of its parsers does. Then so do the attributes, macro calls
and bodies that are written against it.
-/

set_option autoImplicit false
set_option synthInstance.maxSize 10000000
set_option synthInstance.maxHeartbeats 400000

namespace InlineMarkup.Host

class Grammar.Keeps (source : List TokenTree) (g : Grammar) : Prop where
  level : ∃ n, g = Grammar.ofLevel n
  expr (struct : Bool) : Host.Keeps source (g.expr struct)
  unary (struct : Bool) : Host.Keeps source (g.unary struct)
  bounded : Host.Keeps source g.bounded
  type (plus : Bool) : Host.Keeps source (g.type plus)
  bound : Host.Keeps source g.bound
  pattern : Host.Keeps source g.pattern
  statements : Host.Keeps source g.statements
  item : Host.Keeps source g.item

attribute [instance] Grammar.Keeps.expr Grammar.Keeps.unary Grammar.Keeps.bounded
  Grammar.Keeps.type Grammar.Keeps.bound Grammar.Keeps.pattern Grammar.Keeps.statements
  Grammar.Keeps.item

section

variable {source : List TokenTree} {g : Grammar} [hg : Grammar.Keeps source g]

instance : Keeps source modulePath := by
  unfold modulePath
  refine Keeps.of_bind fun root hroot => ?_
  refine Keeps.of_bind fun segments hsegments => ?_
  have : Good source root := ⟨hroot⟩
  have : Good source segments := ⟨hsegments⟩
  split <;> infer_instance

theorem groundedAll_macroArguments {contents : List TokenTree} (h : Within source contents) :
    GroundedAll source (macroArguments g contents) := by
  unfold macroArguments
  split
  · rename_i arguments input hrun
    split
    · have hk : Keeps source (commaList (g.expr true)) := inferInstance
      exact groundedAll_iff.2 (hk.keeps ⟨contents, Text.Mark.first, none⟩ h _ _ hrun).2
    · trivial
  · trivial

instance : Keeps source (macroGroup g) := by
  unfold macroGroup
  refine Keeps.of_bind fun t ht => ?_
  split
  · rename_i d contents opening closing
    have : Good source (Tree.body contents (macroArguments g contents)) :=
      ⟨groundedAll_macroArguments (ht d contents opening closing rfl)⟩
    infer_instance
  · infer_instance

instance : Keeps source (attributeArgument g) := by
  unfold attributeArgument
  refine Keeps.of_bind fun ts _ => ?_
  split
  · infer_instance
  · split
    · refine Keeps.of_bind fun equals hequals => ?_
      refine Keeps.of_bind fun literal hliteral => ?_
      have : Good source equals := ⟨hequals⟩
      split
      · rename_i literal
        have : Good source literal := ⟨hliteral literal rfl⟩
        infer_instance
      · infer_instance
    · infer_instance

instance : Keeps source (attributeContents g) := by
  unfold attributeContents
  infer_instance

instance : Keeps source (outerAttribute g) := by
  unfold outerAttribute
  infer_instance

instance : Keeps source (innerAttribute g) := by
  unfold innerAttribute
  infer_instance

instance : Keeps source (outerAttributes g) := by
  unfold outerAttributes
  infer_instance

instance : Keeps source (innerAttributes g) := by
  unfold innerAttributes
  infer_instance

instance : Keeps source anything := by
  unfold anything
  refine Keeps.of_bind fun ts hts => ?_
  have : Good source ([] : List TokenTree) := ⟨Within.of_append ts ((List.append_nil ts).symm ▸ hts)⟩
  infer_instance

instance : Keeps source builtinForm := by
  unfold builtinForm
  infer_instance

instance : Keeps source (body g) := by
  unfold body
  infer_instance

instance : Keeps source (block g) := by
  unfold block
  infer_instance

end

end InlineMarkup.Host
