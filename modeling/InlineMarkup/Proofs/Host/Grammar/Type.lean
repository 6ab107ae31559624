import InlineMarkup.Proofs.Host.Grammar.Basic

/-!
Paths, types and patterns keep to their source.
-/

set_option autoImplicit false
set_option synthInstance.maxSize 10000000
set_option synthInstance.maxHeartbeats 400000

namespace InlineMarkup.Host

section

variable {source : List TokenTree} {g : Grammar} [hg : Grammar.Keeps source g]
variable {struct plus inExpr allowed const precise first obsolete : Bool}
variable {attributes colons lifetimes lower path : List Tree} [Good source attributes]
  [Good source colons] [Good source lifetimes] [Good source lower] [Good source path]

instance : Keeps source (constArgument g) := by
  unfold constArgument
  infer_instance

instance : Keeps source (genericArgument g) := by
  unfold genericArgument
  infer_instance

instance : Keeps source (genericArgumentsAfter g colons) := by
  unfold genericArgumentsAfter
  infer_instance

instance : Keeps source (genericArguments g) := by
  unfold genericArguments
  infer_instance

instance : Keeps source (pathSegment g inExpr) := by
  unfold pathSegment
  infer_instance

instance : Keeps source (moreSegments g inExpr) := by
  unfold moreSegments
  infer_instance

instance : Keeps source (pathWith g inExpr) := by
  unfold pathWith
  infer_instance

instance : Keeps source (qualifiedSegments g inExpr) := by
  unfold qualifiedSegments
  infer_instance

instance : Keeps source (qualifiedPath g inExpr) := by
  unfold qualifiedPath
  infer_instance

instance : Keeps source lifetimeParameter := by
  unfold lifetimeParameter
  infer_instance

instance : Keeps source (typeParameter g) := by
  unfold typeParameter
  infer_instance

instance : Keeps source (constParameter g) := by
  unfold constParameter
  infer_instance

instance {otherwise : List Tree → Parser Tree}
    [h : ∀ attributes : {ts : List Tree // Result.IsGood source ts},
      Keeps source (otherwise attributes.val)] : Keeps source (parameterOr g otherwise) := by
  unfold parameterOr
  infer_instance

instance : Keeps source (genericParameter g) := by
  unfold genericParameter
  infer_instance

instance : Keeps source (generics g) := by
  unfold generics
  infer_instance

instance : Keeps source (boundParameter g) := by
  unfold boundParameter
  infer_instance

instance : Keeps source (boundLifetimes g) := by
  unfold boundLifetimes
  infer_instance

instance : Keeps source (returnType g plus) := by
  unfold returnType
  infer_instance

instance : Keeps source (callArguments g) := by
  unfold callArguments
  infer_instance

instance : Keeps source (constness allowed) := by
  unfold constness
  infer_instance

instance : Keeps source (traitBound g const) := by
  unfold traitBound
  infer_instance

instance : Keeps source capturedParameter := by
  unfold capturedParameter
  infer_instance

instance : Keeps source preciseCapture := by
  unfold preciseCapture
  infer_instance

instance : Keeps source (typeBound g precise const) := by
  unfold typeBound
  infer_instance

instance : Keeps source (typeBounds g plus precise const) := by
  unfold typeBounds
  infer_instance

instance : Keeps source (wherePredicate g) := by
  unfold wherePredicate
  infer_instance

instance : Keeps source (whereClause g) := by
  unfold whereClause
  infer_instance

instance : Keeps source convention := by
  unfold convention
  infer_instance

instance : Keeps source abi := by
  unfold abi
  infer_instance

instance : Keeps source (variadicArgument attributes) := by
  unfold variadicArgument
  infer_instance

instance : Keeps source (functionTypeArgument g first attributes) := by
  unfold functionTypeArgument
  infer_instance

instance {fuel : Nat} : Keeps source (functionTypeArguments g fuel first) := by
  induction fuel generalizing first with
  | zero =>
    unfold functionTypeArguments
    infer_instance
  | succ fuel ih =>
    unfold functionTypeArguments
    infer_instance

instance : Keeps source (functionType g lifetimes) := by
  unfold functionType
  infer_instance

instance : Keeps source (pathType g plus lifetimes) := by
  unfold pathType
  refine Keeps.of_bind fun path hpath => ?_
  split
  · rename_i path
    have : Good source path := ⟨hpath path List.mem_cons_self⟩
    infer_instance
  · have : Good source path := ⟨hpath⟩
    infer_instance

instance : Keeps source (pointerType g) := by
  unfold pointerType
  infer_instance

instance : Keeps source (referenceType g) := by
  unfold referenceType
  infer_instance

instance : Keeps source (bracketType g) := by
  unfold bracketType
  refine Keeps.of_bind fun group hgroup => ?_
  have : Good source group := ⟨hgroup⟩
  split <;> infer_instance

instance : Keeps source (objectType g plus) := by
  unfold objectType
  infer_instance

instance : Keeps source (implType g plus) := by
  unfold implType
  infer_instance

instance : Keeps source (lifetimeObjectType g) := by
  unfold lifetimeObjectType
  infer_instance

instance : Keeps source (moreBounds g) := by
  unfold moreBounds
  infer_instance

instance : Keeps source (parenType g plus) := by
  unfold parenType
  refine Keeps.of_bind fun group hgroup => ?_
  have : Good source group := ⟨hgroup⟩
  split <;> infer_instance

instance : Keeps source (typeWith g plus) := by
  unfold typeWith
  infer_instance

instance : Keeps source (patternWithBars g) := by
  unfold patternWithBars
  infer_instance

instance : Keeps source (rangeLimits obsolete) := by
  unfold rangeLimits
  infer_instance

instance : Keeps source (constBlock g) := by
  unfold constBlock
  infer_instance

instance : Keeps source (rangeBound g) := by
  unfold rangeBound
  infer_instance

instance : Keeps source (rangePattern g lower) := by
  unfold rangePattern
  infer_instance

instance : Keeps source (openRangePattern g) := by
  unfold openRangePattern
  infer_instance

instance : Keeps source (literalOrRangePattern g) := by
  unfold literalOrRangePattern
  refine Keeps.of_bind fun lower hlower => ?_
  have : Good source lower := ⟨hlower⟩
  -- a bound that is no range is turned into a pattern with the same parts
  have hparts : ∀ k parts, lower = [Tree.node k parts] → Good source parts := by
    rintro k parts rfl
    exact ⟨(hlower _ List.mem_cons_self).children⟩
  refine Keeps.of_bind fun seen _ => ?_
  split
  · infer_instance
  · split
    · have := hparts _ _ rfl
      infer_instance
    · have := hparts _ _ rfl
      infer_instance
    · have := hparts _ _ rfl
      infer_instance
    · infer_instance

instance : Keeps source (identifierPattern g) := by
  unfold identifierPattern
  infer_instance

instance {s : List Char} {span : Span} : Keeps source (fieldNumber s span) := by
  unfold fieldNumber
  split <;> infer_instance

instance : Keeps source member := by
  unfold member
  refine Keeps.of_bind fun ts hts => ?_
  split
  · infer_instance
  · split
    · rename_i s span rest h
      have : Good source rest := ⟨Within.takeLiteral hts h⟩
      infer_instance
    · infer_instance

instance : Keeps source (fieldPattern g attributes) := by
  unfold fieldPattern
  infer_instance

instance : Keeps source (structPattern g path) := by
  unfold structPattern
  infer_instance

instance : Keeps source (pathPattern g) := by
  unfold pathPattern
  refine Keeps.of_bind fun path hpath => ?_
  have : Good source path := ⟨hpath⟩
  refine Keeps.of_bind fun ts _ => ?_
  extract_lets rest
  have hrest : ∀ u, Keeps source (rest u) := fun _ => by
    unfold rest
    infer_instance
  split
  · rename_i one
    have : Good source one := ⟨hpath one List.mem_cons_self⟩
    infer_instance
  · infer_instance

instance : Keeps source (parenPattern g) := by
  unfold parenPattern
  refine Keeps.of_bind fun group hgroup => ?_
  have : Good source group := ⟨hgroup⟩
  split <;> infer_instance

instance : Keeps source (slicePattern g) := by
  have helement : Keeps source (do
      let pattern ← patternWithBars g
      match halfRangeSign? pattern with
      | some sign =>
        refuse (.refused "range pattern is not allowed unparenthesized inside slice pattern")
          sign.start
      | none => return pattern) := by
    refine Keeps.of_bind fun pattern hpattern => ?_
    have : Good source pattern := ⟨hpattern⟩
    split <;> infer_instance
  unfold slicePattern
  infer_instance

instance : Keeps source (referencePattern g) := by
  unfold referencePattern
  infer_instance

instance : Keeps source (boxPattern g) := by
  unfold boxPattern
  infer_instance

instance : Keeps source (patternOne g) := by
  unfold patternOne
  infer_instance

end

end InlineMarkup.Host
