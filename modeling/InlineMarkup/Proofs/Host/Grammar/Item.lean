import InlineMarkup.Proofs.Host.Grammar.Call

/-!
Statements, items and files keep to their source, and with them every level of the grammar.
-/

set_option autoImplicit false
set_option synthInstance.maxSize 10000000
set_option synthInstance.maxHeartbeats 400000

namespace InlineMarkup.Host

section

variable {source : List TokenTree} {g : Grammar} [hg : Grammar.Keeps source g]
variable {safe valued named plain : Bool} {start ts : List TokenTree} {place : ClausePlace}
  {stop : List TokenTree → Bool} {attributes earlier visible : List Tree}
  [Good source attributes] [Good source earlier] [Good source visible]

instance : Keeps source (localBinding g attributes) := by
  unfold localBinding
  infer_instance

instance : Keeps source (expressionStatement g attributes) := by
  unfold expressionStatement
  refine Keeps.of_bind fun first hfirst => ?_
  have : Good source first := ⟨hfirst⟩
  have hvalue : Good source (attachLeft attributes first) := inferInstance
  extract_lets value
  refine Keeps.of_bind fun semicolon hsemicolon => ?_
  have : Good source semicolon := ⟨hsemicolon⟩
  have : Good source value := hvalue
  clear_value value
  split
  · rename_i parts
    have : Good source parts := ⟨Grounded.children this.good⟩
    infer_instance
  · infer_instance

instance : Keeps source afterBang := by
  unfold afterBang
  refine Keeps.of_bind fun input hinput => Keeps.of_bind fun path _ => ?_
  have : Good source input := ⟨hinput⟩
  split <;> infer_instance

instance : Keeps source (macroStatement g attributes) := by
  unfold macroStatement
  infer_instance

instance : Keeps source restriction := by
  unfold restriction
  refine Keeps.of_bind fun ts _ => ?_
  split <;> infer_instance

instance : Keeps source visibility := by
  unfold visibility
  infer_instance

instance : Keeps source (receiver g) := by
  unfold receiver
  infer_instance

instance : Keeps source (functionArgument g earlier) := by
  unfold functionArgument
  refine Keeps.of_bind fun attributes hattributes => ?_
  have : Good source attributes := ⟨hattributes⟩
  refine Keeps.of_bind fun seen _ => ?_
  split
  · infer_instance
  · refine Keeps.of_bind fun self hself => ?_
    split
    · rename_i self
      have : Good source self := ⟨hself self rfl⟩
      infer_instance
    · infer_instance

instance {fuel : Nat} : Keeps source (functionArguments g fuel earlier) := by
  induction fuel generalizing earlier with
  | zero =>
    unfold functionArguments
    infer_instance
  | succ fuel ih =>
    unfold functionArguments
    infer_instance

instance : Keeps source (signature g safe) := by
  unfold signature
  infer_instance

instance : Keeps source (function g start attributes) := by
  unfold function
  infer_instance

instance {underscore : Parser Tree} [Keeps source underscore] :
    Keeps source (newName underscore) := by
  unfold newName
  infer_instance

instance : Keeps source (externCrate attributes) := by
  unfold externCrate
  infer_instance

instance {rooted : Bool} {fuel : Nat} : Keeps source (useTree rooted fuel) := by
  induction fuel generalizing rooted with
  | zero =>
    unfold useTree
    infer_instance
  | succ fuel ih =>
    unfold useTree
    infer_instance

instance : Keeps source (useItem attributes) := by
  unfold useItem
  infer_instance

instance : Keeps source (constItem g start attributes valued) := by
  unfold constItem
  infer_instance

instance : Keeps source (staticItem g start attributes) := by
  unfold staticItem
  infer_instance

instance : Keeps source (bounds g stop) := by
  unfold bounds
  infer_instance

instance : Keeps source (limits g stop) := by
  unfold limits
  infer_instance

instance : Keeps source (typeAlias g place) := by
  unfold typeAlias
  refine Keeps.of_bind fun keyword hkeyword => Keeps.of_bind fun name hname => ?_
  refine Keeps.of_bind fun parameters hparameters => Keeps.of_bind fun ⟨bounded, limits⟩ hlimits => ?_
  have : Good source keyword := ⟨hkeyword⟩
  have : Good source name := ⟨hname⟩
  have : Good source parameters := ⟨hparameters⟩
  have : Good source limits := ⟨hlimits.2⟩
  infer_instance

instance : Keeps source (typeItem g start attributes) := by
  unfold typeItem
  infer_instance

instance {fuel : Nat} : Keeps source (namedFieldsFuel g fuel) := by
  induction fuel with
  | zero =>
    unfold namedFieldsFuel
    infer_instance
  | succ fuel ih =>
    unfold namedFieldsFuel
    infer_instance

instance : Keeps source (namedFields g) := by
  unfold namedFields
  infer_instance

instance : Keeps source (tupleField g) := by
  unfold tupleField
  infer_instance

instance : Keeps source (tupleFields g) := by
  unfold tupleFields
  infer_instance

instance : Keeps source (structBody g) := by
  unfold structBody
  infer_instance

instance : Keeps source (structItem g attributes) := by
  unfold structItem
  infer_instance

instance : Keeps source (variant g) := by
  unfold variant
  infer_instance

instance : Keeps source (enumItem g attributes) := by
  unfold enumItem
  infer_instance

instance : Keeps source (unionItem g attributes) := by
  unfold unionItem
  infer_instance

instance : Keeps source (macroItem g attributes named) := by
  unfold macroItem
  infer_instance

instance : Keeps source (macroDefinition start) := by
  unfold macroDefinition
  infer_instance

instance : Keeps source (traitFunction g attributes) := by
  unfold traitFunction
  infer_instance

instance : Keeps source (traitItemRest g start attributes plain) := by
  unfold traitItemRest
  infer_instance

instance : Keeps source (traitMember g) := by
  unfold traitMember
  infer_instance

instance {one : Parser Tree} [Keeps source one] : Keeps source (members g one) := by
  unfold members
  infer_instance

instance : Keeps source (traitRest g) := by
  unfold traitRest
  refine Keeps.of_bind fun ⟨_, supers⟩ hlimits => ?_
  have : Good source supers := ⟨hlimits.2⟩
  infer_instance

instance : Keeps source (traitItem g attributes) := by
  unfold traitItem
  infer_instance

instance : Keeps source (traitOrAlias g attributes) := by
  unfold traitOrAlias
  infer_instance

instance : Keeps source (implFunction g start attributes) := by
  unfold implFunction
  infer_instance

instance : Keeps source (implConst g start attributes) := by
  unfold implConst
  infer_instance

instance : Keeps source (implAlias g start attributes) := by
  unfold implAlias
  infer_instance

instance : Keeps source (implMember g) := by
  unfold implMember
  infer_instance

instance : Keeps source (implItem g start attributes) := by
  unfold implItem
  infer_instance

instance : Keeps source (moduleItem g attributes) := by
  unfold moduleItem
  infer_instance

instance : Keeps source (foreignFunction g start attributes visible) := by
  unfold foreignFunction
  infer_instance

instance : Keeps source (foreignStatic g start attributes visible) := by
  unfold foreignStatic
  infer_instance

instance : Keeps source (foreignMember g) := by
  unfold foreignMember
  infer_instance

instance : Keeps source (foreignModule g attributes) := by
  unfold foreignModule
  infer_instance

instance : Keeps source (externItem g attributes ts) := by
  unfold externItem
  infer_instance

instance : Keeps source (unsafeItem g start attributes ts) := by
  unfold unsafeItem
  infer_instance

instance : Keeps source (itemAfter g start attributes) := by
  unfold itemAfter
  infer_instance

instance : Keeps source (statement g (itemAfter g)) := by
  unfold statement
  refine Keeps.of_bind fun start _ => Keeps.of_bind fun attributes hattributes => ?_
  have : Good source attributes := ⟨hattributes⟩
  refine Keeps.of_bind fun ts _ => Keeps.of_bind fun after _ => ?_
  split <;> infer_instance

instance : Keeps source (statementsWith g (itemAfter g)) := by
  unfold statementsWith
  infer_instance

instance : Keeps source (itemWith g) := by
  unfold itemWith
  infer_instance

instance : Keeps source (file g) := by
  unfold file
  infer_instance

end

theorem Grammar.keeps_ofLevel (source : List TokenTree) (n : Nat) :
    Grammar.Keeps source (Grammar.ofLevel n) := by
  induction n with
  | zero =>
    refine ⟨⟨0, rfl⟩, fun _ => ?_, fun _ => ?_, ?_, fun _ => ?_, ?_, ?_, ?_, ?_⟩ <;>
      exact ⟨fun _ _ => .expected⟩
  | succ n ih =>
    exact {
      level := ⟨n + 1, rfl⟩
      expr := fun struct => (inferInstance : Host.Keeps source (exprWith (Grammar.ofLevel n) struct))
      unary := fun struct => (inferInstance : Host.Keeps source (unaryExpr (Grammar.ofLevel n) struct))
      bounded := (inferInstance : Host.Keeps source (boundedExpr (Grammar.ofLevel n)))
      type := fun plus => (inferInstance : Host.Keeps source (typeWith (Grammar.ofLevel n) plus))
      bound := (inferInstance : Host.Keeps source (typeBound (Grammar.ofLevel n) false true))
      pattern := (inferInstance : Host.Keeps source (patternOne (Grammar.ofLevel n)))
      statements :=
        (inferInstance : Host.Keeps source
          (statementsWith (Grammar.ofLevel n) (itemAfter (Grammar.ofLevel n))))
      item := (inferInstance : Host.Keeps source (itemWith (Grammar.ofLevel n))) }

/-- The tree of a file is grounded in the tokens of the file. -/
theorem grounded_parseFile {source : List Char} {t : Tree} (h : parseFile source = .ok t) :
    ∃ ts, tokens (dropInterpreterLine (Text.dropByteOrderMark source)) = .ok ts ∧
      Grounded ts t := by
  unfold parseFile parseText at h
  split at h
  · cases h
  · rename_i ts hts
    refine ⟨ts, hts, ?_⟩
    have := Grammar.keeps_ofLevel ts (4 * TokenTree.sizeOf ts + 16)
    obtain ⟨⟨tree, input⟩, hrun, h⟩ := InlineMarkup.bind_eq_ok.1 h
    have hkeeps : Keeps ts (file (grammarFor ts)) := by
      unfold grammarFor
      infer_instance
    have hgood := (hkeeps.keeps _ .whole tree input hrun).2
    dsimp only at h
    split at h
    · cases h
    · split at h <;> cases h
      exact hgood

end InlineMarkup.Host
