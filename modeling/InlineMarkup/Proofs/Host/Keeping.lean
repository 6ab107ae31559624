import InlineMarkup.Proofs.Basic
import InlineMarkup.Proofs.Host.Grounded

/-!
Parsers keep to their source: what they leave stands in it, and the trees they give are grounded
in it. Each parser is shown to do so from the parsers it calls, by instances that follow the way
it is written.
-/

set_option autoImplicit false
set_option synthInstance.maxSize 10000000
set_option synthInstance.maxHeartbeats 400000

namespace InlineMarkup.Host

/-- What is asked of the results of parsers. -/
class Result (α : Type) where
  IsGood : List TokenTree → α → Prop

instance : Result Tree := ⟨Grounded⟩
instance : Result (List Tree) := ⟨fun source ts => ∀ t ∈ ts, Grounded source t⟩
instance : Result (Option Tree) := ⟨fun source t => ∀ a ∈ t, Grounded source a⟩
instance : Result (List TokenTree) := ⟨Within⟩
instance : Result Input := ⟨fun source input => Within source input.rest⟩
instance : Result Alias := ⟨fun source a => ∀ t ∈ a.parts, Grounded source t⟩
instance : Result Bool := ⟨fun _ _ => True⟩
instance : Result Nat := ⟨fun _ _ => True⟩
instance : Result Unit := ⟨fun _ _ => True⟩
instance : Result Text.Mark := ⟨fun _ _ => True⟩
instance : Result AfterBang := ⟨fun _ _ => True⟩

instance : Result TokenTree :=
  ⟨fun source t => ∀ d contents opening closing,
    t = .group d contents opening closing → Within source contents⟩

instance {α β : Type} [Result α] [Result β] : Result (α × β) :=
  ⟨fun source p => Result.IsGood source p.1 ∧ Result.IsGood source p.2⟩

class Good {α : Type} [Result α] (source : List TokenTree) (a : α) : Prop where
  good : Result.IsGood source a

/-- What a parser gives and leaves, if it accepts. -/
def Ensures {α : Type} (p : Parser α) (input : Input) (after : α → Input → Prop) : Prop :=
  ∀ a next, p input = .ok (a, next) → after a next

class Keeps {α : Type} [Result α] (source : List TokenTree) (p : Parser α) : Prop where
  keeps : ∀ input, Within source input.rest →
    Ensures p input fun a next => Within source next.rest ∧ Result.IsGood source a

section

variable {source : List TokenTree} {α β : Type}

namespace Ensures

variable {input : Input} {after : α → Input → Prop}

theorem mono {p : Parser α} {before : α → Input → Prop} (h : Ensures p input before)
    (hi : ∀ a next, before a next → after a next) : Ensures p input after :=
  fun a next hp => hi a next (h a next hp)

theorem pure {a : α} (h : after a input) : Ensures (Pure.pure a) input after := by
  rintro _ _ ⟨⟩
  exact h

theorem bind {p : Parser β} {f : β → Parser α}
    (h : Ensures p input fun b mid => Ensures (f b) mid after) : Ensures (p >>= f) input after := by
  intro a next hr
  obtain ⟨⟨b, mid⟩, hb, ha⟩ := InlineMarkup.bind_eq_ok.1 (hr : (p input >>= fun x => f x.1 x.2) = _)
  exact h b mid hb a next ha

theorem refuse {complaint : Complaint} {mark : Text.Mark} :
    Ensures (Host.refuse complaint mark) input after := by
  rintro _ _ ⟨⟩

theorem get {after : Input → Input → Prop} (h : after input input) :
    Ensures (MonadState.get : Parser Input) input after := by
  rintro _ _ ⟨⟩
  exact h

theorem set {inner : Input} {after : PUnit → Input → Prop} (h : after ⟨⟩ inner) :
    Ensures (MonadState.set inner : Parser PUnit) input after := by
  rintro _ _ ⟨⟩
  exact h

theorem modify {f : Input → Input} {after : PUnit → Input → Prop} (h : after ⟨⟩ (f input)) :
    Ensures (modify f : Parser PUnit) input after := by
  rintro _ _ ⟨⟩
  exact h

theorem ahead {after : List TokenTree → Input → Prop} (h : after input.rest input) :
    Ensures Host.ahead input after :=
  bind (get (pure h))

theorem look {see : List TokenTree → Bool} {after : Bool → Input → Prop}
    (h : after (see input.rest) input) : Ensures (Host.look see) input after :=
  bind (ahead (pure h))

theorem here {after : Text.Mark → Input → Prop} (h : ∀ mark, after mark input) :
    Ensures Host.here input after := by
  refine bind (get ?_)
  split <;> exact pure (h _)

theorem runOn {p : Parser α} {inner : Input} {after : α × Input → Input → Prop}
    (h : Ensures p inner fun a mid => after (a, mid) input) :
    Ensures (liftM (StateT.run p inner) : Parser (α × Input)) input after := by
  intro _ _ hr
  obtain ⟨⟨a, mid⟩, ha, hr⟩ := InlineMarkup.bind_eq_ok.1 hr
  cases hr
  exact h a mid ha

theorem expected {what : List String} : Ensures (Host.expected what) input after :=
  bind (bind (ahead (pure (bind (here fun _ => refuse)))))

theorem forbid {rule : String} : Ensures (Host.forbid rule) input after := by
  refine bind (bind (ahead (pure ?_)))
  split <;> exact bind (here fun _ => refuse)

end Ensures

instance [Result α] (a : {a : α // Result.IsGood source a}) : Good source a.val := ⟨a.property⟩

instance : Good source ([] : List Tree) := ⟨by simp [Result.IsGood]⟩

instance {t : Tree} {ts : List Tree} [ht : Good source t] [hts : Good source ts] :
    Good source (t :: ts) :=
  ⟨List.forall_mem_cons.2 ⟨ht.good, hts.good⟩⟩

instance {ts us : List Tree} [hts : Good source ts] [hus : Good source us] :
    Good source (ts ++ us) :=
  ⟨List.forall_mem_append.2 ⟨hts.good, hus.good⟩⟩

instance [Result α] [Result β] {a : α} {b : β} [ha : Good source a] [hb : Good source b] :
    Good source (a, b) :=
  ⟨ha.good, hb.good⟩

instance {parts : List Tree} {bounded defined : Bool} [h : Good source parts] :
    Good source (Alias.mk parts bounded defined) :=
  ⟨h.good⟩

instance {a : Alias} [h : Good source a] : Good source a.parts :=
  ⟨h.good⟩

instance [Result α] {c : Prop} [Decidable c] {a b : α} [ha : Good source a] [hb : Good source b] :
    Good source (if c then a else b) := by
  split
  · exact ha
  · exact hb

instance {b : Bool} : Good source b := ⟨trivial⟩

instance {n : Nat} : Good source n := ⟨trivial⟩

instance {u : Unit} : Good source u := ⟨trivial⟩

instance {a : AfterBang} : Good source a := ⟨trivial⟩

instance {ts : List TokenTree} : Good source (Tree.token ts) := ⟨trivial⟩

instance {ts : List TokenTree} : Good source (Tree.raw ts) := ⟨trivial⟩

/-- Whether a node is a call; instances see through it, as the kind is written where a node is. -/
@[reducible] def Kind.isCall : Kind → Bool
  | .call => true
  | _ => false

class IsFalse (b : Bool) : Prop where
  eq : b = false

instance : IsFalse false := ⟨rfl⟩

instance {k : Kind} {ts : List Tree} [hk : IsFalse k.isCall] [hts : Good source ts] :
    Good source (Tree.node k ts) :=
  ⟨grounded_node (by rintro rfl; exact absurd hk.eq (by decide)) hts.good⟩

instance {d : Delimiter} {opening closing : Span} {ts : List Tree} [hts : Good source ts] :
    Good source (Tree.group d opening closing ts) :=
  ⟨grounded_group hts.good⟩

instance {attributes : List Tree} {t : Tree} [ha : Good source attributes] [ht : Good source t] :
    Good source (t.withAttributes attributes) :=
  ⟨grounded_withAttributes ha.good ht.good⟩

instance {attributes : List Tree} {t : Tree} [ha : Good source attributes] [ht : Good source t] :
    Good source (attributed attributes t) :=
  ⟨grounded_attributed ha.good ht.good⟩

instance {attributes : List Tree} {t : Tree} [ha : Good source attributes] [ht : Good source t] :
    Good source (attachLeft attributes t) :=
  ⟨grounded_attachLeft ha.good t ht.good⟩

instance {t : Tree} [ht : Good source t] : Good source (parenthesised t) :=
  ⟨grounded_parenthesised ht.good⟩

instance {t : Tree} [ht : Good source t] : Good source (guardBlock t) :=
  ⟨grounded_guardBlock t ht.good⟩

instance {path : Tree} {arguments : List Tree} [hp : Good source path]
    [ha : Good source arguments] : Good source (withLastArguments path arguments) :=
  ⟨grounded_withLastArguments hp.good ha.good⟩

instance {ts : List Tree} [hts : Good source ts] : Good source (filled ts) :=
  ⟨fun t ht => hts.good t (List.mem_filter.1 ht).1⟩

instance {w : Tree} [hw : Good source w] : Good source (segmentOf w) := by
  unfold segmentOf
  infer_instance

instance {colon : Tree} {bounds : List Tree} [Good source colon] [Good source bounds] :
    Good source (colonBounds colon bounds) := by
  unfold colonBounds
  split <;> infer_instance

instance : Good source unnamed := by
  unfold unnamed
  infer_instance

instance {t : Tree} [ht : Good source t] : Good source (nameOf t) := by
  unfold nameOf
  split
  · exact ⟨fun c hc => (ht.good.children _ List.mem_cons_self).children c hc⟩
  · infer_instance

instance {t : Tree} [ht : Good source t] : Good source (closedRange t) := by
  unfold closedRange
  split <;> infer_instance

instance Keeps.pure [Result α] {a : α} [ha : Good source a] :
    Keeps source (Pure.pure a : Parser α) where
  keeps _ hin := .pure ⟨hin, ha.good⟩

instance Keeps.bind [Result α] [Result β] {p : Parser α} {f : α → Parser β} [hp : Keeps source p]
    [hf : ∀ a : {a : α // Result.IsGood source a}, Keeps source (f a.val)] :
    Keeps source (p >>= f) where
  keeps input hin := .bind ((hp.keeps input hin).mono fun a mid ⟨hmid, ha⟩ =>
    (hf ⟨a, ha⟩).keeps mid hmid)

theorem Keeps.of_bind [Result α] [Result β] {p : Parser α} {f : α → Parser β} [Keeps source p]
    (hf : ∀ a, Result.IsGood source a → Keeps source (f a)) : Keeps source (p >>= f) :=
  have : ∀ a : {a : α // Result.IsGood source a}, Keeps source (f a.val) :=
    fun a => hf a.val a.property
  inferInstance

instance Keeps.ite [Result α] {c : Prop} [Decidable c] {p q : Parser α} [hp : Keeps source p]
    [hq : Keeps source q] : Keeps source (if c then p else q) := by
  split
  · exact hp
  · exact hq

instance [Result α] {complaint : Complaint} {mark : Text.Mark} :
    Keeps source (refuse complaint mark : Parser α) where
  keeps _ _ := .refuse

instance : Keeps source (get : Parser Input) where
  keeps _ hin := .get ⟨hin, hin⟩

instance {input : Input} [hi : Good source input] : Keeps source (set input : Parser PUnit) where
  keeps _ _ := .set ⟨hi.good, trivial⟩

instance {rest : List TokenTree} [hr : Good source rest] :
    Keeps source (modify fun input => { input with rest } : Parser PUnit) where
  keeps _ _ := .modify ⟨hr.good, trivial⟩

instance : Keeps source ahead where
  keeps _ hin := .ahead ⟨hin, hin⟩

instance : Keeps source isEmpty := by
  unfold isEmpty
  infer_instance

instance {p : List TokenTree → Bool} : Keeps source (look p) := by
  unfold look
  infer_instance

instance : Keeps source here where
  keeps _ hin := .here fun _ => ⟨hin, trivial⟩

instance [Result α] {what : List String} : Keeps source (expected what : Parser α) := by
  unfold expected
  infer_instance

instance [Result α] {rule : String} : Keeps source (forbid rule : Parser α) := by
  unfold forbid
  infer_instance

theorem Within.takeChars {cs : List Char} {ts op rest : List TokenTree} (hw : Within source ts)
    (h : Host.takeChars cs ts = some (op, rest)) : Within source rest := by
  fun_induction Host.takeChars cs ts generalizing op rest with
  | case1 ts => cases h; exact hw
  | case2 c d joint span ts hc => cases h; exact hw.tail
  | case4 c cs d joint span ts _ hc ih =>
    obtain ⟨⟨op', rest'⟩, hr, h⟩ := Option.map_eq_some_iff.1 h
    cases h
    exact ih hw.tail hr
  | _ => cases h

theorem Within.takeLiteral {ts rest : List TokenTree} {s : List Char} {span : Span}
    (hw : Within source ts) (h : Host.takeLiteral ts = some (s, span, rest)) :
    Within source rest := by
  unfold Host.takeLiteral at h
  split at h
  · cases h; exact hw.tail
  · split at h <;> cases h
    exact hw.tail.tail
  · cases h

instance {s : String} : Keeps source (punct s) := by
  unfold punct
  refine Keeps.of_bind fun ts hts => ?_
  split
  · rename_i op rest h
    have : Good source rest := ⟨Within.takeChars hts h⟩
    infer_instance
  · infer_instance

instance {s : String} : Keeps source (word s) := by
  unfold word
  refine Keeps.of_bind fun ts hts => ?_
  split
  · rename_i w span rest
    have : Good source rest := ⟨Within.tail hts⟩
    infer_instance
  · infer_instance

instance : Keeps source anyWord := by
  unfold anyWord
  refine Keeps.of_bind fun ts hts => ?_
  split
  · rename_i w span rest
    have : Good source rest := ⟨Within.tail hts⟩
    infer_instance
  · infer_instance

instance : Keeps source identifier := by
  unfold identifier
  refine Keeps.of_bind fun ts hts => ?_
  split
  · rename_i w span rest
    have : Good source rest := ⟨Within.tail hts⟩
    infer_instance
  · infer_instance

instance : Keeps source lifetime := by
  unfold lifetime
  refine Keeps.of_bind fun ts hts => ?_
  split
  · rename_i joint span w span' rest
    have : Good source rest := ⟨Within.tail (Within.tail hts)⟩
    infer_instance
  · infer_instance

instance : Keeps source literalToken := by
  unfold literalToken
  refine Keeps.of_bind fun ts hts => ?_
  split
  · rename_i s span rest h
    have : Good source rest := ⟨Within.takeLiteral hts h⟩
    infer_instance
  · infer_instance

instance : Keeps source anyGroup := by
  unfold anyGroup
  refine Keeps.of_bind fun ts hts => ?_
  split
  · rename_i d contents opening closing rest
    have : Good source rest := ⟨Within.tail hts⟩
    have : Good source (TokenTree.group d contents opening closing) :=
      ⟨by rintro _ _ _ _ ⟨⟩; exact Within.inside hts⟩
    infer_instance
  · infer_instance

instance [Result α] {p : Parser α} {inner : Input} [hp : Keeps source p] [hi : Good source inner] :
    Keeps source (liftM (StateT.run p inner) : Parser (α × Input)) where
  keeps _ hin := .runOn ((hp.keeps inner hi.good).mono fun _ _ ⟨hmid, ha⟩ => ⟨hin, ha, hmid⟩)

instance {d : Delimiter} {p : Parser (List Tree)} [hp : Keeps source p] :
    Keeps source (inGroup d p) := by
  unfold inGroup
  refine Keeps.of_bind fun input hin => ?_
  split
  · rename_i e contents opening closing rest hrest
    have hin : Within source (.group e contents opening closing :: rest) := hrest ▸ hin
    have : Good source (Input.mk contents closing.start input.leftover) := ⟨hin.inside⟩
    have hset : ∀ leftover, Good source { input with rest, leftover } := fun _ => ⟨hin.tail⟩
    split
    · refine Keeps.of_bind fun ⟨children, inner⟩ h => ?_
      have : Good source children := ⟨h.1⟩
      infer_instance
    · infer_instance
  · infer_instance

instance {p : Parser Tree} [hp : Keeps source p] : Keeps source (tentatively p) where
  keeps input hin a next h := by
    unfold tentatively at h
    split at h
    · rename_i b mid hb
      cases h
      obtain ⟨hmid, hgood⟩ := hp.keeps { input with leftover := none } hin b mid hb
      exact ⟨hmid, by rintro _ ⟨⟩; exact hgood⟩
    · cases h
      exact ⟨hin, by rintro _ ⟨⟩⟩

instance {see : List TokenTree → Bool} {p : Parser Tree} [Keeps source p] :
    Keeps source (optional see p) := by
  unfold optional
  infer_instance

instance {s : String} : Keeps source (optionalWord s) := by
  unfold optionalWord
  infer_instance

instance {s : String} : Keeps source (optionalPunct s) := by
  unfold optionalPunct
  infer_instance

instance {step : Parser (List Tree × Bool)} {fuel : Nat} [Keeps source step] :
    Keeps source (repeatFuel step fuel) := by
  induction fuel with
  | zero =>
    unfold repeatFuel
    infer_instance
  | succ fuel ih =>
    unfold repeatFuel
    refine Keeps.of_bind fun ⟨trees, more⟩ h => ?_
    have : Good source trees := ⟨h.1⟩
    infer_instance

instance {step : Parser (List Tree × Bool)} [Keeps source step] :
    Keeps source (repeatStep step) := by
  unfold repeatStep
  infer_instance

instance {see : List TokenTree → Bool} {p : Parser Tree} [Keeps source p] :
    Keeps source (whileSeen see p) := by
  unfold whileSeen
  infer_instance

instance {p : Parser Tree} [Keeps source p] : Keeps source (untilEmpty p) := by
  unfold untilEmpty
  infer_instance

instance {stop : List TokenTree → Bool} {p : Parser Tree} {separator : String} [Keeps source p] :
    Keeps source (separated stop p separator) := by
  unfold separated
  infer_instance

instance {p : Parser Tree} [Keeps source p] : Keeps source (commaList p) := by
  unfold commaList
  infer_instance

instance {stop : List TokenTree → Bool} {p : Parser Tree} [Keeps source p] :
    Keeps source (plusList stop p) := by
  unfold plusList
  infer_instance

instance {start : List TokenTree} : Keeps source (verbatimSince start) := by
  unfold verbatimSince
  infer_instance

end

end InlineMarkup.Host
