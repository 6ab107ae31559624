import InlineMarkup.Proofs.Host.Grammar.Type

/-!
Operators and atoms keep to their source.
-/

set_option autoImplicit false
set_option synthInstance.maxSize 10000000
set_option synthInstance.maxHeartbeats 400000

namespace InlineMarkup.Host

section

variable {source : List TokenTree} {g : Grammar} [hg : Grammar.Keeps source g]
variable {struct : Bool} {left : Tree} {path : List Tree} [Good source left] [Good source path]

instance : Keeps source checkCast := by
  unfold checkCast
  refine Keeps.of_bind fun ts _ => ?_
  extract_lets follower
  clear_value follower
  cases follower <;> infer_instance

theorem keeps_climb {fuel : Nat} :
    (∀ least left [Good source left], Keeps source (climb g struct least fuel left)) ∧
    (∀ precedence, Keeps source (operand g struct precedence fuel)) ∧
    (∀ precedence right [Good source right], Keeps source (extend g struct precedence fuel right)) ∧
    (∀ sign, Keeps source (rangeUpper g struct sign fuel)) := by
  induction fuel with
  | zero =>
    refine ⟨fun least left _ => ?_, fun precedence => ?_, fun precedence right _ => ?_, fun sign => ?_⟩
    · unfold climb
      infer_instance
    · unfold operand
      infer_instance
    · unfold extend
      infer_instance
    · unfold rangeUpper
      infer_instance
  | succ fuel ih =>
    obtain ⟨hclimb, hoperand, hextend, hrange⟩ := ih
    refine ⟨fun least left _ => ?_, fun precedence => ?_, fun precedence right _ => ?_, fun sign => ?_⟩
    · unfold climb
      refine Keeps.of_bind fun ts _ => ?_
      split
      · infer_instance
      · split <;> infer_instance
    · unfold operand
      infer_instance
    · unfold extend
      infer_instance
    · unfold rangeUpper
      infer_instance

instance {least fuel : Nat} : Keeps source (climb g struct least fuel left) :=
  keeps_climb.1 least left

instance {fuel : Nat} {sign : Tree} : Keeps source (rangeUpper g struct sign fuel) :=
  keeps_climb.2.2.2 sign

instance : Keeps source climbFuel := by
  unfold climbFuel
  infer_instance

instance : Keeps source (continueExpr g struct left) := by
  unfold continueExpr
  infer_instance

instance : Keeps source (exprList g) := by
  unfold exprList
  infer_instance

instance : Keeps source (parenExpr g) := by
  unfold parenExpr
  refine Keeps.of_bind fun group hgroup => ?_
  have : Good source group := ⟨hgroup⟩
  split <;> infer_instance

instance : Keeps source (arrayExpr g) := by
  unfold arrayExpr
  refine Keeps.of_bind fun group hgroup => ?_
  have : Good source group := ⟨hgroup⟩
  split <;> infer_instance

instance : Keeps source (fieldValue g) := by
  unfold fieldValue
  infer_instance

instance : Keeps source (structExpr g path) := by
  unfold structExpr
  infer_instance

instance : Keeps source (pathExpr g struct) := by
  unfold pathExpr
  refine Keeps.of_bind fun path hpath => ?_
  have : Good source path := ⟨hpath⟩
  refine Keeps.of_bind fun ts _ => ?_
  extract_lets rest
  have hrest : ∀ u, Keeps source (rest u) := fun _ => by
    unfold rest
    infer_instance
  split
  · rename_i one
    have : Good source one := ⟨hpath one List.mem_cons_self⟩
    infer_instance
  · infer_instance

instance {fuel : Nat} : Keeps source (ifFuel g fuel) := by
  induction fuel with
  | zero =>
    unfold ifFuel
    infer_instance
  | succ fuel ih =>
    unfold ifFuel
    infer_instance

instance : Keeps source (ifExpr g) := by
  unfold ifExpr
  infer_instance

instance : Keeps source (whileLoop g) := by
  unfold whileLoop
  infer_instance

instance : Keeps source (forLoop g) := by
  unfold forLoop
  infer_instance

instance : Keeps source (loop g) := by
  unfold loop
  infer_instance

instance : Keeps source (arm g) := by
  unfold arm
  infer_instance

instance : Keeps source (matchExpr g) := by
  unfold matchExpr
  infer_instance

instance : Keeps source (unsafeBlock g) := by
  unfold unsafeBlock
  infer_instance

instance : Keeps source (asyncBlock g) := by
  unfold asyncBlock
  infer_instance

instance : Keeps source (tryBlock g) := by
  unfold tryBlock
  infer_instance

instance : Keeps source (blockExpr g) := by
  unfold blockExpr
  infer_instance

instance : Keeps source (labeled g) := by
  unfold labeled
  infer_instance

instance : Keeps source (closureArgument g) := by
  unfold closureArgument
  refine Keeps.of_bind fun attributes hattributes => ?_
  refine Keeps.of_bind fun pattern hpattern => ?_
  have : Good source attributes := ⟨hattributes⟩
  have : Good source pattern := ⟨hpattern⟩
  refine Keeps.of_bind fun seen _ => ?_
  split
  · infer_instance
  · split <;> infer_instance

instance : Keeps source (closure g struct) := by
  unfold closure
  infer_instance

instance : Keeps source (breakExpr g struct) := by
  unfold breakExpr
  infer_instance

instance : Keeps source continueStatement := by
  unfold continueStatement
  infer_instance

instance : Keeps source (returnExpr g) := by
  unfold returnExpr
  infer_instance

instance : Keeps source (yieldExpr g) := by
  unfold yieldExpr
  infer_instance

instance : Keeps source (letCondition g struct) := by
  unfold letCondition
  infer_instance

instance : Keeps source (rangeExpr g struct) := by
  unfold rangeExpr
  infer_instance

instance : Keeps source (becomeExpr g) := by
  unfold becomeExpr
  infer_instance

end

end InlineMarkup.Host
