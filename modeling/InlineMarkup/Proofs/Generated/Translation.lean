import InlineMarkup.Generated.OfElement
import InlineMarkup.Proofs.Basic
import InlineMarkup.Proofs.Blank
import Mathlib.Data.List.Forall2

/-!
The translation of elements into calls, said by rules: which call an element becomes (`Translates`),
and which values it is made from, in the order of the document (`Holds`). An element has a call if
all of its values are accepted, and otherwise the fault of the first that is not.

What splits a text into segments and what parses host code is taken as given.
-/

set_option autoImplicit false

namespace InlineMarkup.Generated

open InlineMarkup.Text InlineMarkup.Markup

/-- Code that the host language has as an expression, blanks around it left out. -/
def Parses (code : List Char) : Prop :=
  ∃ expr, Host.parseExpr (trim code) = .ok expr

def AllParse (segments : List Segment) : Prop :=
  ∀ code modifier, .embedded code modifier ∈ segments → Parses code

/-- A value of an element, and what it is there for. -/
inductive Value where
  | text (content : List Char)
  | single (context : String) (value : List Char)
  | spread (context : String) (value : List Char)
  | handler (value : List Char)

def Value.Accepted : Value → Prop
  | .text content => ∃ segments, Segment.split content = .ok segments ∧ AllParse segments
  | .single _ value => ∃ segment, Segment.split value = .ok [segment] ∧ AllParse [segment]
  | .spread _ value =>
    ∃ code modifier, Segment.split value = .ok [.embedded code modifier] ∧ Parses code
  | .handler value => Parses (stripBraces value)

def codeFault? (code : List Char) : Option Error :=
  match Host.parseExpr (trim code) with
  | .ok _ => none
  | .error refusal =>
    some (.generation (.invalidExpression (String.ofList code) refusal.complaint.message))

def segmentFault? : Segment → Option Error
  | .literal _ => none
  | .embedded code _ => codeFault? code

def Value.fault? : Value → Option Error
  | .text content =>
    match Segment.split content with
    | .error e => some (.lexical e)
    | .ok segments => segments.findSome? segmentFault?
  | .single context value =>
    match Segment.split value with
    | .error e => some (.lexical e)
    | .ok [segment] => segmentFault? segment
    | .ok _ => some (.generation (.tooManySegments context (String.ofList value)))
  | .spread context value =>
    match Segment.split value with
    | .error e => some (.lexical e)
    | .ok [.embedded code _] => codeFault? code
    | .ok _ => some (.generation (.spreadNotEmbedded context (String.ofList value)))
  | .handler value => codeFault? (stripBraces value)

def attributeContext (tag : List Char) (a : Attribute) : String :=
  let name := String.ofList a.name
  let element := String.ofList tag
  s!"attribute '{name}' of <{element}>"

/-- The values of an attribute. Those of the class attribute are its words. -/
inductive AttributeHolds (config : Config) (tag : List Char) (a : Attribute) :
    List Value → Prop where
  | classes {ws : List (List Char)} : a.name = config.classAttribute → Words a.value ws →
    AttributeHolds config tag a (ws.map (.single (attributeContext tag a)))
  | spread : a.name ≠ config.classAttribute → a.name = config.spreadAttribute →
    AttributeHolds config tag a [.spread (attributeContext tag a) a.value]
  | handler {function : Host.Path} : a.name ≠ config.classAttribute →
    a.name ≠ config.spreadAttribute → config.handlers.get? a.name = some function →
    AttributeHolds config tag a [.handler a.value]
  | named : a.name ≠ config.classAttribute → a.name ≠ config.spreadAttribute →
    config.handlers.get? a.name = none →
    AttributeHolds config tag a [.single (attributeContext tag a) a.value]

mutual

/-- The values of a node in the order of the document. -/
inductive Holds (config : Config) : Node → List Value → Prop where
  | text {content : List Char} : Holds config (.text content) [.text content]
  | element {tag : List Char} {attributes : List Attribute} {children : List Node}
      {lists : List (List Value)} {rest : List Value} :
    List.Forall₂ (AttributeHolds config tag) attributes lists → HoldsAll config children rest →
    Holds config (.element tag attributes children) (lists.flatten ++ rest)

inductive HoldsAll (config : Config) : List Node → List Value → Prop where
  | nil : HoldsAll config [] []
  | cons {n : Node} {ns : List Node} {vs ws : List Value} :
    Holds config n vs → HoldsAll config ns ws → HoldsAll config (n :: ns) (vs ++ ws)

end

def attributeValues (config : Config) (tag : List Char) (a : Attribute) : List Value :=
  if a.name = config.classAttribute then
    (words a.value).map (.single (attributeContext tag a))
  else if a.name = config.spreadAttribute then [.spread (attributeContext tag a) a.value]
  else if (config.handlers.get? a.name).isSome then [.handler a.value]
  else [.single (attributeContext tag a) a.value]

mutual

def nodeValues (config : Config) : Node → List Value
  | .text content => [.text content]
  | .element tag attributes children =>
    attributes.flatMap (attributeValues config tag) ++ nodesValues config children

def nodesValues (config : Config) : List Node → List Value
  | [] => []
  | n :: ns => nodeValues config n ++ nodesValues config ns

end

def valuesOf (config : Config) (e : Element) : List Value :=
  nodeValues config e.toNode

/-- A segment becomes an argument, as a child of an element or in an attribute. -/
inductive Becomes (config : Config) : Bool → Segment → Generated → Prop where
  | child {text : List Char} :
    Becomes config true (.literal text) (.call config.api.text [.str text])
  | value {text : List Char} : Becomes config false (.literal text) (.str text)
  | code {child : Bool} {code : List Char} {expr : Host.Tree} :
    Host.parseExpr (trim code) = .ok expr →
    Becomes config child (.embedded code none) (.host expr (trim code))
  | shown {child : Bool} {code : List Char} {expr : Host.Tree} :
    Host.parseExpr (trim code) = .ok expr →
    Becomes config child (.embedded code (some .text))
      (.call config.api.text [.host expr (trim code)])

def ValueBecomes (config : Config) (value : List Char) (g : Generated) : Prop :=
  ∃ segment, Segment.split value = .ok [segment] ∧ Becomes config false segment g

inductive AttributeBecomes (config : Config) (a : Attribute) : Generated → Prop where
  | classes {ws : List (List Char)} {gs : List Generated} : a.name = config.classAttribute →
    Words a.value ws → List.Forall₂ (ValueBecomes config) ws gs →
    AttributeBecomes config a (.call config.api.classes gs)
  | spread {code : List Char} {modifier : Option Modifier} {g : Generated} :
    a.name ≠ config.classAttribute → a.name = config.spreadAttribute →
    Segment.split a.value = .ok [.embedded code modifier] →
    Becomes config false (.embedded code modifier) g → AttributeBecomes config a g
  | handler {function : Host.Path} {expr : Host.Tree} :
    a.name ≠ config.classAttribute → a.name ≠ config.spreadAttribute →
    config.handlers.get? a.name = some function →
    Host.parseExpr (trim (stripBraces a.value)) = .ok expr →
    AttributeBecomes config a (.call function [.host expr (trim (stripBraces a.value))])
  | named {g : Generated} :
    a.name ≠ config.classAttribute → a.name ≠ config.spreadAttribute →
    config.handlers.get? a.name = none → ValueBecomes config a.value g →
    AttributeBecomes config a (.call config.api.named [.str a.name, g])

inductive AttributesBecome (config : Config) : List Attribute → List Generated → Prop where
  | none : AttributesBecome config [] []
  | some {attributes : List Attribute} {gs : List Generated} : attributes ≠ [] →
    List.Forall₂ (AttributeBecomes config) attributes gs →
    AttributesBecome config attributes [.call config.api.markup gs]

/-- The function that builds an element, and its first arguments. -/
inductive BuiltBy (config : Config) (tag : List Char) : Host.Path → List Generated → Prop where
  | mapped {function : Host.Path} : config.tags.get? tag = some function →
    BuiltBy config tag function []
  | raw : config.tags.get? tag = none → BuiltBy config tag config.api.rawTag [.str tag]

mutual

/-- A node becomes arguments of its parent's call: an element one, a text one for each segment. -/
inductive Translates (config : Config) : Node → List Generated → Prop where
  | text {content : List Char} {segments : List Segment} {gs : List Generated} :
    Segment.split content = .ok segments → List.Forall₂ (Becomes config true) segments gs →
    Translates config (.text content) gs
  | element {tag : List Char} {attributes : List Attribute} {children : List Node}
      {function : Host.Path} {first group rest : List Generated} :
    BuiltBy config tag function first → AttributesBecome config attributes group →
    TranslatesAll config children rest →
    Translates config (.element tag attributes children) [.call function (first ++ group ++ rest)]

inductive TranslatesAll (config : Config) : List Node → List Generated → Prop where
  | nil : TranslatesAll config [] []
  | cons {n : Node} {ns : List Node} {gs hs : List Generated} :
    Translates config n gs → TranslatesAll config ns hs → TranslatesAll config (n :: ns) (gs ++ hs)

end

section Values

variable {config : Config}

theorem attributeHolds_iff {tag : List Char} {a : Attribute} {vs : List Value} :
    AttributeHolds config tag a vs ↔ vs = attributeValues config tag a := by
  unfold attributeValues
  constructor
  · intro h
    cases h with
    | classes hclass hwords => rw [if_pos hclass, words_iff.1 hwords]
    | spread hclass hspread => rw [if_neg hclass, if_pos hspread]
    | handler hclass hspread hhandler => rw [if_neg hclass, if_neg hspread, hhandler]; rfl
    | named hclass hspread hhandler => rw [if_neg hclass, if_neg hspread, hhandler]; rfl
  · rintro rfl
    split
    · rename_i hclass
      exact .classes hclass (words_spec a.value)
    · rename_i hclass
      split
      · rename_i hspread
        exact .spread hclass hspread
      · rename_i hspread
        cases hhandler : config.handlers.get? a.name with
        | some function => exact .handler hclass hspread hhandler
        | none => exact .named hclass hspread hhandler

theorem forall₂_attributeHolds_iff {tag : List Char} {attributes : List Attribute}
    {lists : List (List Value)} :
    List.Forall₂ (AttributeHolds config tag) attributes lists ↔
      lists = attributes.map (attributeValues config tag) := by
  induction attributes generalizing lists with
  | nil => simp
  | cons a attributes ih => simp [List.forall₂_cons_left_iff, attributeHolds_iff, ih]

mutual

theorem holds_iff (n : Node) {vs : List Value} :
    Holds config n vs ↔ vs = nodeValues config n := by
  cases n with
  | text content =>
    constructor
    · intro h
      cases h
      rfl
    · rintro rfl
      exact .text
  | element tag attributes children =>
    rw [nodeValues, List.flatMap_def]
    constructor
    · intro h
      cases h with
      | element hattributes hchildren =>
        rw [forall₂_attributeHolds_iff.1 hattributes, (holdsAll_iff children).1 hchildren]
    · rintro rfl
      exact .element (forall₂_attributeHolds_iff.2 rfl) ((holdsAll_iff children).2 rfl)

theorem holdsAll_iff (ns : List Node) {vs : List Value} :
    HoldsAll config ns vs ↔ vs = nodesValues config ns := by
  cases ns with
  | nil =>
    constructor
    · intro h
      cases h
      rfl
    · rintro rfl
      exact .nil
  | cons n ns =>
    rw [nodesValues]
    constructor
    · intro h
      cases h with
      | cons hn hns => rw [(holds_iff n).1 hn, (holdsAll_iff ns).1 hns]
    · rintro rfl
      exact .cons ((holds_iff n).2 rfl) ((holdsAll_iff ns).2 rfl)

end

end Values

theorem mapM_eq_ok_iff {ε α β : Type} {f : α → Except ε β} {R : α → β → Prop}
    (hf : ∀ {a b}, f a = .ok b ↔ R a b) {as : List α} {bs : List β} :
    as.mapM f = .ok bs ↔ List.Forall₂ R as bs := by
  induction as generalizing bs with
  | nil => cases bs <;> simp [pure, Except.pure]
  | cons a as ih =>
    rw [List.mapM_cons, bind_eq_ok]
    constructor
    · intro h
      obtain ⟨b, hb, h⟩ := h
      obtain ⟨cs, hcs, h⟩ := bind_eq_ok.1 h
      cases h
      exact .cons (hf.1 hb) (ih.1 hcs)
    · intro h
      cases h with
      | cons hb hbs => exact ⟨_, hf.2 hb, bind_eq_ok.2 ⟨_, ih.2 hbs, rfl⟩⟩

section Calls

variable {config : Config}

theorem ofCode_eq_ok_iff {code : List Char} {g : Generated} : ofCode code = .ok g ↔
    ∃ expr, Host.parseExpr (trim code) = .ok expr ∧ g = .host expr (trim code) := by
  unfold ofCode
  cases h : Host.parseExpr (trim code) with
  | error refusal => simp [h]
  | ok expr => simp [h, eq_comm]

theorem ofSegment_eq_ok_iff {child : Bool} {segment : Segment} {g : Generated} :
    ofSegment config child segment = .ok g ↔ Becomes config child segment g := by
  cases segment with
  | literal text =>
    constructor
    · intro h
      cases h
      cases child
      · exact .value
      · exact .child
    · intro h
      cases h <;> rfl
  | embedded code modifier =>
    constructor
    · intro h
      obtain ⟨value, hvalue, h⟩ := bind_eq_ok.1 h
      obtain ⟨expr, hexpr, rfl⟩ := ofCode_eq_ok_iff.1 hvalue
      rcases modifier with _ | ⟨⟨⟩⟩
      · cases h
        exact .code hexpr
      · cases h
        exact .shown hexpr
    · intro h
      cases h with
      | code hexpr => exact bind_eq_ok.2 ⟨_, ofCode_eq_ok_iff.2 ⟨_, hexpr, rfl⟩, rfl⟩
      | shown hexpr => exact bind_eq_ok.2 ⟨_, ofCode_eq_ok_iff.2 ⟨_, hexpr, rfl⟩, rfl⟩

theorem segmentsOf_eq_ok_iff {value : List Char} {segments : List Segment} :
    segmentsOf value = .ok segments ↔ Segment.split value = .ok segments := by
  unfold segmentsOf
  cases Segment.split value <;> simp [Except.mapError]

theorem ofValue_eq_ok_iff {context : String} {value : List Char} {g : Generated} :
    ofValue config context value = .ok g ↔ ValueBecomes config value g := by
  constructor
  · intro h
    obtain ⟨segments, hsegments, h⟩ := bind_eq_ok.1 h
    split at h
    · exact ⟨_, segmentsOf_eq_ok_iff.1 hsegments, ofSegment_eq_ok_iff.1 h⟩
    · cases h
  · intro h
    obtain ⟨segment, hsegment, h⟩ := h
    exact bind_eq_ok.2 ⟨_, segmentsOf_eq_ok_iff.2 hsegment, ofSegment_eq_ok_iff.2 h⟩

theorem ofAttribute_eq_ok_iff {tag : List Char} {a : Attribute} {g : Generated} :
    ofAttribute config tag a = .ok g ↔ AttributeBecomes config a g := by
  unfold ofAttribute
  constructor
  · intro h
    split at h
    · rename_i hclass
      obtain ⟨gs, hgs, h⟩ := bind_eq_ok.1 h
      cases h
      exact .classes hclass (words_spec a.value) ((mapM_eq_ok_iff ofValue_eq_ok_iff).1 hgs)
    · rename_i hclass
      split at h
      · rename_i hspread
        obtain ⟨segments, hsegments, h⟩ := bind_eq_ok.1 h
        split at h
        · exact .spread hclass hspread (segmentsOf_eq_ok_iff.1 hsegments) (ofSegment_eq_ok_iff.1 h)
        · cases h
      · rename_i hspread
        split at h
        · rename_i function hhandler
          obtain ⟨value, hvalue, h⟩ := bind_eq_ok.1 h
          cases h
          obtain ⟨expr, hexpr, rfl⟩ := ofCode_eq_ok_iff.1 hvalue
          exact .handler hclass hspread hhandler hexpr
        · rename_i hhandler
          obtain ⟨value, hvalue, h⟩ := bind_eq_ok.1 h
          cases h
          exact .named hclass hspread hhandler (ofValue_eq_ok_iff.1 hvalue)
  · intro h
    cases h with
    | classes hclass hwords hgs =>
      rw [if_pos hclass, words_iff.1 hwords]
      exact bind_eq_ok.2 ⟨_, (mapM_eq_ok_iff ofValue_eq_ok_iff).2 hgs, rfl⟩
    | spread hclass hspread hsegments hsegment =>
      rw [if_neg hclass, if_pos hspread]
      exact bind_eq_ok.2 ⟨_, segmentsOf_eq_ok_iff.2 hsegments, ofSegment_eq_ok_iff.2 hsegment⟩
    | handler hclass hspread hhandler hexpr =>
      rw [if_neg hclass, if_neg hspread, hhandler]
      exact bind_eq_ok.2 ⟨_, ofCode_eq_ok_iff.2 ⟨_, hexpr, rfl⟩, rfl⟩
    | named hclass hspread hhandler hvalue =>
      rw [if_neg hclass, if_neg hspread, hhandler]
      exact bind_eq_ok.2 ⟨_, ofValue_eq_ok_iff.2 hvalue, rfl⟩

theorem ofAttributes_eq_ok_iff {tag : List Char} {attributes : List Attribute}
    {gs : List Generated} :
    ofAttributes config tag attributes = .ok gs ↔ AttributesBecome config attributes gs := by
  cases attributes with
  | nil =>
    constructor
    · intro h
      cases h
      exact .none
    · intro h
      cases h with
      | none => rfl
      | some hne => exact absurd rfl hne
  | cons a as =>
    constructor
    · intro h
      obtain ⟨hs, hhs, h⟩ := bind_eq_ok.1 h
      cases h
      exact .some (by simp) ((mapM_eq_ok_iff ofAttribute_eq_ok_iff).1 hhs)
    · intro h
      cases h with
      | some _ hgs =>
        exact bind_eq_ok.2 ⟨_, (mapM_eq_ok_iff ofAttribute_eq_ok_iff).2 hgs, rfl⟩

theorem builtBy_iff {tag : List Char} {function : Host.Path} {first : List Generated} :
    BuiltBy config tag function first ↔ builder config tag = (function, first) := by
  unfold builder
  constructor
  · intro h
    cases h with
    | mapped h => rw [h]
    | raw h => rw [h]
  · intro h
    split at h
    · cases h
      exact .mapped (by assumption)
    · cases h
      exact .raw (by assumption)

mutual

theorem ofNode_eq_ok_iff (n : Node) {gs : List Generated} :
    ofNode config n = .ok gs ↔ Translates config n gs := by
  cases n with
  | text content =>
    rw [ofNode, bind_eq_ok]
    constructor
    · intro h
      obtain ⟨segments, hsegments, h⟩ := h
      exact .text (segmentsOf_eq_ok_iff.1 hsegments) ((mapM_eq_ok_iff ofSegment_eq_ok_iff).1 h)
    · intro h
      cases h with
      | text hsegments h =>
        exact ⟨_, segmentsOf_eq_ok_iff.2 hsegments, (mapM_eq_ok_iff ofSegment_eq_ok_iff).2 h⟩
  | element tag attributes children =>
    rw [ofNode, bind_eq_ok]
    constructor
    · intro h
      obtain ⟨group, hgroup, h⟩ := h
      obtain ⟨rest, hrest, h⟩ := bind_eq_ok.1 h
      cases h
      exact .element (builtBy_iff.2 rfl) (ofAttributes_eq_ok_iff.1 hgroup)
        ((ofNodes_eq_ok_iff children).1 hrest)
    · intro h
      cases h with
      | element hbuilt hgroup hrest =>
        rw [builtBy_iff.1 hbuilt]
        exact ⟨_, ofAttributes_eq_ok_iff.2 hgroup,
          bind_eq_ok.2 ⟨_, (ofNodes_eq_ok_iff children).2 hrest, rfl⟩⟩

theorem ofNodes_eq_ok_iff (ns : List Node) {gs : List Generated} :
    ofNodes config ns = .ok gs ↔ TranslatesAll config ns gs := by
  cases ns with
  | nil =>
    constructor
    · intro h
      cases h
      exact .nil
    · intro h
      cases h
      rfl
  | cons n ns =>
    rw [ofNodes, bind_eq_ok]
    constructor
    · intro h
      obtain ⟨first, hfirst, h⟩ := h
      obtain ⟨rest, hrest, h⟩ := bind_eq_ok.1 h
      cases h
      exact .cons ((ofNode_eq_ok_iff n).1 hfirst) ((ofNodes_eq_ok_iff ns).1 hrest)
    · intro h
      cases h with
      | cons hfirst hrest =>
        exact ⟨_, (ofNode_eq_ok_iff n).2 hfirst,
          bind_eq_ok.2 ⟨_, (ofNodes_eq_ok_iff ns).2 hrest, rfl⟩⟩

end

theorem ofNode_toNode (config : Config) (e : Element) :
    ofNode config e.toNode = (ofElement config e).map ([·]) := by
  rw [Element.toNode, ofNode, ofElement]
  cases ofAttributes config e.name e.attributes with
  | error err => rfl
  | ok group => cases ofNodes config e.children <;> rfl

end Calls

def failure? {α : Type} : Except Error α → Option Error
  | .ok _ => none
  | .error e => some e

theorem failure?_eq_some_iff {α : Type} {x : Except Error α} {e : Error} :
    failure? x = some e ↔ x = .error e := by
  cases x <;> simp [failure?]

theorem failure?_bind {α β : Type} {x : Except Error α} {f : α → Except Error β}
    {first second : Option Error} (hx : failure? x = first)
    (hf : ∀ a, x = .ok a → failure? (f a) = second) :
    failure? (x >>= f) = first.or second := by
  subst hx
  cases x with
  | error e => rfl
  | ok a => exact hf a rfl

theorem failure?_bind_pure {α β : Type} (x : Except Error α) (f : α → β) :
    failure? (x >>= fun a => pure (f a)) = failure? x := by
  cases x <;> rfl

theorem failure?_mapM {α β : Type} (f : α → Except Error β) (as : List α) :
    failure? (as.mapM f) = as.findSome? fun a => failure? (f a) := by
  induction as with
  | nil => rfl
  | cons a as ih =>
    rw [List.mapM_cons, failure?_bind rfl fun b _ => (failure?_bind_pure _ _).trans ih]
    cases h : failure? (f a) <;> simp [h]

theorem findSome?_flatMap {α β γ : Type} (f : α → List β) (g : β → Option γ) (as : List α) :
    (as.flatMap f).findSome? g = as.findSome? fun a => (f a).findSome? g := by
  induction as with
  | nil => rfl
  | cons a as ih =>
    rw [List.flatMap_cons, List.findSome?_append, ih]
    cases h : (f a).findSome? g <;> simp [h]

theorem failure?_ofCode (code : List Char) : failure? (ofCode code) = codeFault? code := by
  unfold ofCode codeFault?
  cases h : Host.parseExpr (trim code) <;> simp [h, failure?]

section Faults

variable (config : Config)

theorem failure?_ofSegment (child : Bool) (segment : Segment) :
    failure? (ofSegment config child segment) = segmentFault? segment := by
  cases segment with
  | literal text => rfl
  | embedded code modifier =>
    rcases modifier with _ | ⟨⟨⟩⟩
    · exact (failure?_bind_pure (ofCode code) id).trans (failure?_ofCode code)
    · exact (failure?_bind_pure _ _).trans (failure?_ofCode code)

theorem failure?_ofText (content : List Char) :
    failure? (segmentsOf content >>= fun segments => segments.mapM (ofSegment config true)) =
      (Value.text content).fault? := by
  simp only [Value.fault?, segmentsOf]
  cases Segment.split content with
  | error e => rfl
  | ok segments =>
    have hmapM := failure?_mapM (ofSegment config true) segments
    simp only [failure?_ofSegment] at hmapM
    exact hmapM

theorem failure?_ofValue (context : String) (value : List Char) :
    failure? (ofValue config context value) = (Value.single context value).fault? := by
  simp only [Value.fault?, ofValue, segmentsOf]
  cases Segment.split value with
  | error e => rfl
  | ok segments =>
    rcases segments with _ | ⟨segment, _ | ⟨other, segments⟩⟩
    · rfl
    · exact failure?_ofSegment config false segment
    · rfl

theorem failure?_ofAttribute (tag : List Char) (a : Attribute) :
    failure? (ofAttribute config tag a) =
      (attributeValues config tag a).findSome? Value.fault? := by
  unfold ofAttribute attributeValues
  split
  · rw [failure?_bind_pure, failure?_mapM, List.findSome?_map]
    simp only [failure?_ofValue]
    rfl
  · split
    · rw [List.findSome?_singleton]
      simp only [Value.fault?, segmentsOf]
      cases Segment.split a.value with
      | error e => rfl
      | ok segments =>
        rcases segments with _ | ⟨_ | ⟨code, modifier⟩, _ | ⟨other, segments⟩⟩
        · rfl
        · rfl
        · rfl
        · exact failure?_ofSegment config false (.embedded code modifier)
        · rfl
    · cases hhandler : config.handlers.get? a.name with
      | some function =>
        rw [Option.isSome_some, if_pos rfl, List.findSome?_singleton]
        exact (failure?_bind_pure _ _).trans (failure?_ofCode (stripBraces a.value))
      | none =>
        rw [Option.isSome_none, if_neg Bool.false_ne_true, List.findSome?_singleton]
        exact (failure?_bind_pure _ _).trans
          (failure?_ofValue config (attributeContext tag a) a.value)

theorem failure?_ofAttributes (tag : List Char) (attributes : List Attribute) :
    failure? (ofAttributes config tag attributes) =
      (attributes.flatMap (attributeValues config tag)).findSome? Value.fault? := by
  have hmapM : failure? (attributes.mapM (ofAttribute config tag)) =
      (attributes.flatMap (attributeValues config tag)).findSome? Value.fault? := by
    rw [failure?_mapM, findSome?_flatMap]
    simp only [failure?_ofAttribute]
  cases attributes with
  | nil => rfl
  | cons a as => exact (failure?_bind_pure _ _).trans hmapM

mutual

theorem failure?_ofNode (n : Node) :
    failure? (ofNode config n) = (nodeValues config n).findSome? Value.fault? := by
  cases n with
  | text content =>
    rw [ofNode, nodeValues, List.findSome?_singleton]
    exact failure?_ofText config content
  | element tag attributes children =>
    rw [ofNode, nodeValues, List.findSome?_append]
    exact failure?_bind (failure?_ofAttributes config tag attributes) fun group _ =>
      (failure?_bind_pure _ _).trans (failure?_ofNodes children)

theorem failure?_ofNodes (ns : List Node) :
    failure? (ofNodes config ns) = (nodesValues config ns).findSome? Value.fault? := by
  cases ns with
  | nil => rfl
  | cons n ns =>
    rw [ofNodes, nodesValues, List.findSome?_append]
    exact failure?_bind (failure?_ofNode n) fun first _ =>
      (failure?_bind_pure _ _).trans (failure?_ofNodes ns)

end

theorem failure?_ofElement (e : Element) :
    failure? (ofElement config e) = (valuesOf config e).findSome? Value.fault? := by
  rw [valuesOf, ← failure?_ofNode, ofNode_toNode]
  cases ofElement config e <;> rfl

end Faults

theorem parses_iff {code : List Char} : Parses code ↔ codeFault? code = none := by
  unfold Parses codeFault?
  cases Host.parseExpr (trim code) <;> simp

theorem allParse_iff {segments : List Segment} :
    AllParse segments ↔ ∀ segment ∈ segments, segmentFault? segment = none := by
  constructor
  · intro h segment hmem
    cases segment with
    | literal text => rfl
    | embedded code modifier => exact parses_iff.1 (h code modifier hmem)
  · intro h code modifier hmem
    exact parses_iff.2 (h _ hmem)

theorem Value.accepted_iff (v : Value) : v.Accepted ↔ v.fault? = none := by
  cases v with
  | text content =>
    simp only [Accepted, fault?]
    cases h : Segment.split content with
    | error e => simp
    | ok segments => simp [allParse_iff]
  | single context value =>
    simp only [Accepted, fault?]
    cases h : Segment.split value with
    | error e => simp
    | ok segments =>
      rcases segments with _ | ⟨segment, _ | ⟨other, segments⟩⟩ <;> simp [allParse_iff]
  | spread context value =>
    simp only [Accepted, fault?]
    cases h : Segment.split value with
    | error e => simp
    | ok segments =>
      rcases segments with _ | ⟨_ | ⟨code, modifier⟩, _ | ⟨other, segments⟩⟩ <;> simp [parses_iff]
  | handler value => exact parses_iff

/-- An element has just the values that the rules give, among them one for every word of a class
attribute. It has a call exactly if all of its values are accepted, and the call is then the one that
the rules give. Otherwise the error is the fault of the first value, in the order of the document,
that is not accepted. -/
theorem ofElement_document_order (config : Config) (e : Element) :
    (∀ vs, Holds config e.toNode vs ↔ vs = valuesOf config e) ∧
    ((∃ g, ofElement config e = .ok g) ↔ ∀ v ∈ valuesOf config e, v.Accepted) ∧
    (∀ g, ofElement config e = .ok g ↔ Translates config e.toNode [g]) ∧
    (∀ err, ofElement config e = .error err ↔ ∃ before v after,
      valuesOf config e = before ++ v :: after ∧ (∀ w ∈ before, w.Accepted) ∧
        v.fault? = some err) := by
  have hfailure := failure?_ofElement config e
  refine ⟨fun vs => holds_iff e.toNode, ?_, ?_, ?_⟩
  · simp only [Value.accepted_iff, ← List.findSome?_eq_none_iff, ← hfailure]
    cases ofElement config e <;> simp [failure?]
  · intro g
    rw [← ofNode_eq_ok_iff, ofNode_toNode, map_eq_ok]
    simp
  · intro err
    rw [← failure?_eq_some_iff, hfailure, List.findSome?_eq_some_iff]
    simp only [Value.accepted_iff]
    constructor
    · intro h
      obtain ⟨before, v, after, heq, hfault, hbefore⟩ := h
      exact ⟨before, v, after, heq, hbefore, hfault⟩
    · intro h
      obtain ⟨before, v, after, heq, hbefore, hfault⟩ := h
      exact ⟨before, v, after, heq, hfault, hbefore⟩

end InlineMarkup.Generated
