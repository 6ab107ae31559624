import InlineMarkup.Proofs.Host.Grammar.Path
import InlineMarkup.Proofs.Host.Grammar.Expression

/-!
Whole expressions keep to their source. The calls of paths are made here, where a group in
parentheses follows an operand: an operand that is a path was read from the tokens right before the
group.
-/

set_option autoImplicit false
set_option synthInstance.maxSize 10000000
set_option synthInstance.maxHeartbeats 400000

namespace InlineMarkup.Host

/-- Kinds that what a group in parentheses follows may be of only in one way: as a path in its
place, or not at all. -/
@[reducible] def Kind.isNaming : Kind → Bool
  | .pathExpr => true
  | .outerAttribute => true
  | .innerAttribute => true
  | _ => false

def Tree.isNaming (t : Tree) : Bool :=
  t.kind?.any Kind.isNaming

/-- A parser gives neither paths nor attributes. -/
class Anonymous (p : Parser Tree) : Prop where
  anonymous : ∀ input, Ensures p input fun t _ => t.isNaming = false

section

variable {α : Type}

instance {k : Kind} {ts : List Tree} [hk : IsFalse k.isNaming] :
    Anonymous (pure (Tree.node k ts)) where
  anonymous _ := .pure hk.eq

instance Anonymous.bind {p : Parser α} {f : α → Parser Tree} [hf : ∀ a, Anonymous (f a)] :
    Anonymous (p >>= f) where
  anonymous _ := .bind fun a next _ => (hf a).anonymous next

theorem Anonymous.of_bind {p : Parser α} {f : α → Parser Tree} (hf : ∀ a, Anonymous (f a)) :
    Anonymous (p >>= f) :=
  inferInstance

instance {c : Prop} [Decidable c] {p q : Parser Tree} [hp : Anonymous p] [hq : Anonymous q] :
    Anonymous (if c then p else q) := by
  split
  · exact hp
  · exact hq

instance {what : List String} : Anonymous (expected what) where
  anonymous _ := .expected

instance {rule : String} : Anonymous (forbid rule) where
  anonymous _ := .forbid

instance {start : List TokenTree} : Anonymous (verbatimSince start) := by
  unfold verbatimSince
  infer_instance

variable {g : Grammar} {struct : Bool} {path : List Tree}

instance : Anonymous (asyncBlock g) := by
  unfold asyncBlock
  infer_instance

instance : Anonymous (tryBlock g) := by
  unfold tryBlock
  infer_instance

instance : Anonymous (closure g struct) := by
  unfold closure
  infer_instance

instance : Anonymous builtinForm := by
  unfold builtinForm
  infer_instance

instance : Anonymous (structExpr g path) := by
  unfold structExpr
  infer_instance

instance : Anonymous (parenExpr g) := by
  unfold parenExpr
  refine Anonymous.of_bind fun group => ?_
  split <;> infer_instance

instance : Anonymous (breakExpr g struct) := by
  unfold breakExpr
  infer_instance

instance : Anonymous continueStatement := by
  unfold continueStatement
  infer_instance

instance : Anonymous (returnExpr g) := by
  unfold returnExpr
  infer_instance

instance : Anonymous (becomeExpr g) := by
  unfold becomeExpr
  infer_instance

instance : Anonymous (arrayExpr g) := by
  unfold arrayExpr
  refine Anonymous.of_bind fun group => ?_
  split <;> infer_instance

instance : Anonymous (letCondition g struct) := by
  unfold letCondition
  infer_instance

instance {fuel : Nat} : Anonymous (ifFuel g fuel) := by
  cases fuel <;> unfold ifFuel <;> infer_instance

instance : Anonymous (ifExpr g) := by
  unfold ifExpr
  infer_instance

instance : Anonymous (whileLoop g) := by
  unfold whileLoop
  infer_instance

instance : Anonymous (forLoop g) := by
  unfold forLoop
  infer_instance

instance : Anonymous (loop g) := by
  unfold loop
  infer_instance

instance : Anonymous (matchExpr g) := by
  unfold matchExpr
  infer_instance

instance : Anonymous (yieldExpr g) := by
  unfold yieldExpr
  infer_instance

instance : Anonymous (unsafeBlock g) := by
  unfold unsafeBlock
  infer_instance

instance : Anonymous (constBlock g) := by
  unfold constBlock
  infer_instance

instance : Anonymous (blockExpr g) := by
  unfold blockExpr
  infer_instance

instance : Anonymous (rangeExpr g struct) := by
  unfold rangeExpr
  infer_instance

theorem isNaming_withAttributes (attributes : List Tree) (t : Tree) :
    (t.withAttributes attributes).isNaming = t.isNaming := by
  cases t <;> rfl

instance : Anonymous (labeled g) := by
  unfold labeled
  refine Anonymous.of_bind fun name => Anonymous.of_bind fun colon => ?_
  refine Anonymous.of_bind fun ts => ?_
  extract_lets rest
  have hrest : ∀ (p : Parser Tree) [Anonymous p], Anonymous (p >>= rest) := fun p hp =>
    ⟨fun input => .bind ((hp.anonymous input).mono fun t _ ht =>
      .pure ((isNaming_withAttributes _ t).trans ht))⟩
  infer_instance

end

/-- What stands before the tokens `rest` is a path only if it was read right there. -/
def Precedes (source : List TokenTree) (t : Tree) (rest : List TokenTree) : Prop :=
  t.isAttribute = false ∧ ∀ path, t.is .pathExpr → t.parts = [path] → IsPlain path →
    ∃ tokens, Names tokens path ∧ Within source (tokens ++ rest)

section

variable {source : List TokenTree}

theorem precedes_of_isNaming {t : Tree} (h : t.isNaming = false) (rest : List TokenTree) :
    Precedes source t rest := by
  have hk : ∀ k : Kind, k.isNaming → t.is k = false := by
    intro k hk
    cases t with
    | node l cs =>
      have hl : l.isNaming = false := h
      simp only [Tree.is, Tree.kind?, beq_eq_false_iff_ne, ne_eq, Option.some.injEq]
      rintro rfl
      simp [hk] at hl
    | _ => rfl
  refine ⟨by simp [Tree.isAttribute, hk], fun path hn => ?_⟩
  simp [hk] at hn

/-- A parser gives operands in their place. -/
class Places (source : List TokenTree) (p : Parser Tree) : Prop where
  places : ∀ input, Within source input.rest →
    Ensures p input fun t next => Precedes source t next.rest

instance {p : Parser Tree} [hp : Anonymous p] : Places source p where
  places input _ := (hp.anonymous input).mono fun _ _ ht => precedes_of_isNaming ht _

instance {α : Type} [Result α] {p : Parser α} {f : α → Parser Tree} [hp : Keeps source p]
    [hf : ∀ a, Places source (f a)] : Places source (p >>= f) where
  places input hin := .bind ((hp.keeps input hin).mono fun a mid ⟨hmid, _⟩ => (hf a).places mid hmid)

instance {c : Prop} [Decidable c] {p q : Parser Tree} [hp : Places source p]
    [hq : Places source q] : Places source (if c then p else q) := by
  split
  · exact hp
  · exact hq

variable {g : Grammar} [hg : Grammar.Keeps source g] {struct : Bool}

omit hg in
theorem ensures_qualifiedPath {inExpr : Bool} {input : Input} :
    Ensures (qualifiedPath g inExpr) input fun path next =>
      (∃ self segments, path = [.node .qualifiedSelf self, .node .path segments]) ∨
        ∃ one, path = [one] ∧ (IsPlain one → ∃ tokens, input.rest = tokens ++ next.rest ∧
          Names tokens one) := by
  refine .bind (.look ?_)
  split
  · refine .bind fun less _ _ => .bind fun type _ _ => .bind (.look ?_)
    extract_lets rest
    have hrest : ∀ trait input, Ensures (rest trait) input fun path next =>
        ∃ self segments, path = [.node .qualifiedSelf self, .node .path segments] := by
      refine fun trait input => .bind fun greater _ _ => .bind fun colons _ _ => ?_
      exact .bind fun segments _ _ => .pure ⟨_, _, rfl⟩
    split
    · exact .bind fun as _ _ => .bind fun path _ _ => .bind (.pure ((hrest _ _).mono fun _ _ => .inl))
    · exact .bind (.pure ((hrest _ _).mono fun _ _ => .inl))
  · exact .bind (ensures_pathWith.mono fun one next hone => .pure (.inr ⟨one, rfl, hone⟩))

instance : Places source (pathExpr g struct) where
  places input hin := by
    unfold pathExpr
    refine .bind (ensures_qualifiedPath.mono fun path mid hpath => ?_)
    have hprecedes : Precedes source (.node .pathExpr path) mid.rest := by
      refine ⟨rfl, fun one _ hparts hplain => ?_⟩
      rcases hpath with ⟨self, segments, rfl⟩ | ⟨one', rfl, hone⟩
      · cases hparts
      · rw [Tree.parts_eq] at hparts
        have hmem : one ∈ [one'] :=
          (List.mem_filter.1 (hparts.symm ▸ List.mem_singleton_self one)).1
        obtain rfl := List.mem_singleton.1 hmem
        obtain ⟨tokens, htokens, hnames⟩ := hone hplain
        exact ⟨tokens, hnames, htokens ▸ hin⟩
    refine .bind (.ahead ?_)
    extract_lets rest
    have hrest : ∀ u, Ensures (rest u) mid fun t next => Precedes source t next.rest := by
      intro u
      unfold rest
      split
      · exact (Anonymous.anonymous mid).mono fun _ _ ht => precedes_of_isNaming ht _
      · exact .pure hprecedes
    split
    · split
      · exact (Anonymous.anonymous mid).mono fun _ _ ht => precedes_of_isNaming ht _
      · exact hrest ()
    · exact hrest ()

instance : Places source (atom g struct) := by
  unfold atom
  infer_instance

omit hg in
theorem ensures_inGroup {d : Delimiter} {p : Parser (List Tree)} {input : Input} :
    Ensures (inGroup d p) input fun t next => ∃ inner opening closing children last,
      input.rest = .group d inner.rest opening closing :: next.rest ∧
        p inner = .ok (children, last) ∧ t = .group d opening closing children := by
  refine .bind (.get ?_)
  split
  · rename_i e contents opening closing rest hrest
    split
    · rename_i hd
      obtain rfl := eq_of_beq hd
      refine .bind (.runOn fun children inner hinner => ?_)
      refine .bind (.set (.pure ⟨_, opening, closing, children, inner, ?_, hinner, rfl⟩))
      exact hrest
    · exact .expected
  · exact .expected

theorem grounded_call {base t : Tree} {input next : Input} (hb : Grounded source base)
    (hp : Precedes source base input.rest) (hin : Within source input.rest)
    (h : inGroup .parenthesis (exprList g) input = .ok (t, next)) :
    Grounded source (.node .call [base, t]) := by
  have hk : Keeps source (inGroup .parenthesis (exprList g)) := inferInstance
  obtain ⟨inner, opening, closing, children, last, hrest, hread, rfl⟩ := ensures_inGroup t next h
  obtain ⟨n, rfl⟩ := hg.level
  have hgroup : Grounded source (.group .parenthesis opening closing children) :=
    (hk.keeps input hin _ _ h).2
  refine ⟨fun _ => ⟨[], base, _, rfl, hp.1, rfl, fun path hn hpath hplain => ?_⟩, hb, hgroup, trivial⟩
  obtain ⟨tokens, hnames, hwithin⟩ := hp.2 path hn hpath hplain
  exact .intro hnames (hrest ▸ hwithin) hread

instance : Keeps source (atom g struct) := by
  unfold atom
  infer_instance

variable {base dot name : Tree} {arguments attributes : List Tree}

theorem exists_mem_splitPoints {s : List Char} (hs : s ≠ []) (hlast : s.getLast? ≠ some '.') :
    ∃ p ∈ splitPoints s, p ≠ [] := by
  induction s with
  | nil => exact absurd rfl hs
  | cons c r ih =>
    cases r with
    | nil =>
      have hc : c ≠ '.' := by simpa using hlast
      exact ⟨[c], by simp [splitPoints, hc], by simp⟩
    | cons d r =>
      obtain ⟨p, hp, hne⟩ := ih (by simp) (by simpa using hlast)
      rw [splitPoints]
      split
      · exact ⟨p, List.mem_cons_of_mem _ hp, hne⟩
      · split
        · exact ⟨[c], by simp, by simp⟩
        · rename_i p' ps hps
          exact ⟨c :: p', List.mem_cons_self, by simp⟩

theorem anonymous_fieldsAt {span : Span} {ps : List (List Char)}
    (h : base.isNaming = false ∨ ps ≠ []) : Anonymous (fieldsAt span base dot ps) := by
  induction ps generalizing base dot with
  | nil => exact ⟨fun _ => .pure (by simpa using h)⟩
  | cons p ps ih => exact Anonymous.of_bind fun number => ih (.inl rfl)

instance : Anonymous (methodCall g base dot name arguments) := by
  unfold methodCall
  infer_instance

instance : Anonymous (afterPoint g base dot) := by
  unfold afterPoint
  infer_instance

instance : Anonymous (pointAccess g base) := by
  unfold pointAccess
  refine Anonymous.of_bind fun dot => Anonymous.of_bind fun ts => ?_
  split
  · rename_i s span rest h
    split
    · rename_i hfloat
      refine Anonymous.of_bind fun _ => ⟨fun input => ?_⟩
      by_cases hlast : s.getLast? = some '.'
      · simp only [hlast, if_true]
        exact Anonymous.anonymous input
      · have hs : s ≠ [] := by rintro rfl; cases hfloat
        obtain ⟨p, hp, hne⟩ := exists_mem_splitPoints hs hlast
        have hparts : (splitPoints s).filter (!·.isEmpty) ≠ [] :=
          List.ne_nil_of_mem (List.mem_filter.2 ⟨hp, by simpa using hne⟩)
        simp only [hlast, if_false]
        exact .bind (((anonymous_fieldsAt (.inr hparts)).anonymous input).mono
          fun _ _ ht => .pure ht)
    · infer_instance
  · infer_instance

variable [Good source base] [Good source dot] [Good source name] [Good source arguments]
  [Good source attributes]

instance {span : Span} {ps : List (List Char)} : Keeps source (fieldsAt span base dot ps) := by
  induction ps generalizing base dot with
  | nil =>
    unfold fieldsAt
    infer_instance
  | cons p ps ih =>
    unfold fieldsAt
    infer_instance

instance {s : List Char} {span : Span} : Keeps source (numberFields base dot s span) := by
  unfold numberFields
  infer_instance

instance : Keeps source (methodCall g base dot name arguments) := by
  unfold methodCall
  infer_instance

instance : Keeps source (afterPoint g base dot) := by
  unfold afterPoint
  infer_instance

instance : Keeps source (pointAccess g base) := by
  unfold pointAccess
  refine Keeps.of_bind fun dot hdot => Keeps.of_bind fun ts hts => ?_
  have : Good source dot := ⟨hdot⟩
  split
  · rename_i s span rest h
    have : Good source rest := ⟨Within.takeLiteral hts h⟩
    infer_instance
  · infer_instance

omit [Good source base] in
/-- A run of postfix operators. A call takes its name from before the group only where the run
begins: what an operator gives is no path. -/
theorem ensures_postfixFuel {fuel : Nat} {input : Input} (hb : Grounded source base)
    (hp : Precedes source base input.rest) (hin : Within source input.rest) :
    Ensures (postfixFuel g fuel base) input
      fun t next => Within source next.rest ∧ Grounded source t := by
  induction fuel generalizing base input with
  | zero => exact .pure ⟨hin, hb⟩
  | succ fuel ih =>
    have : Good source base := ⟨hb⟩
    -- what an operator makes of the operand is no path, so nothing is asked of its place
    have hgo : ∀ (p : Parser Tree) (k : Tree → Tree) [Keeps source p],
        (∀ t next, p input = .ok (t, next) → Grounded source (k t) ∧ (k t).isNaming = false) →
        Ensures (p >>= fun t => postfixFuel g fuel (k t)) input
          fun t next => Within source next.rest ∧ Grounded source t := fun p k hk h =>
      .bind fun t next ht =>
        ih (h t next ht).1 (precedes_of_isNaming (h t next ht).2 _) (hk.keeps input hin t next ht).1
    have hnode : ∀ (p : Parser Tree) (k : Kind) [Keeps source p], k ≠ .call →
        ∀ t next, p input = .ok (t, next) → Grounded source (.node k [base, t]) :=
      fun p k hk hcall t next ht =>
        grounded_node hcall (by simpa using ⟨hb, (hk.keeps input hin t next ht).2⟩)
    refine .bind (.ahead ?_)
    split
    · exact hgo _ (fun group => .node .call [base, group]) fun t next ht =>
        ⟨grounded_call hb hp hin ht, rfl⟩
    · split
      · exact .pure ⟨hin, hb⟩
      · split
        · exact hgo (pointAccess g base) id fun t next ht =>
            ⟨(Keeps.keeps input hin t next ht).2, Anonymous.anonymous input t next ht⟩
        · split
          · exact hgo _ (fun group => .node .index [base, group]) fun t next ht =>
              ⟨hnode _ .index (by decide) t next ht, rfl⟩
          · split
            · exact hgo _ (fun mark => .node .tryPostfix [base, mark]) fun t next ht =>
                ⟨hnode _ .tryPostfix (by decide) t next ht, rfl⟩
            · exact .pure ⟨hin, hb⟩

omit [Good source base] in
theorem ensures_withPostfix {input : Input} (hb : Grounded source base)
    (hp : Precedes source base input.rest) (hin : Within source input.rest) :
    Ensures (withPostfix g base) input
      fun t next => Within source next.rest ∧ Grounded source t :=
  .bind (.ahead (ensures_postfixFuel hb hp hin))

instance : Keeps source (referenceExpr g struct attributes) := by
  unfold referenceExpr
  infer_instance

theorem keeps_postfixed {f : Tree → Parser Tree} (hf : ∀ t, Good source t → Keeps source (f t)) :
    Keeps source (atom g struct >>= fun base => withPostfix g base >>= f) where
  keeps input hin := .bind fun base mid hbase => by
    have hmid := (inferInstance : Keeps source (atom g struct)).keeps input hin base mid hbase
    have hplace := (inferInstance : Places source (atom g struct)).places input hin base mid hbase
    refine .bind ((ensures_withPostfix hmid.2 hplace hmid.1).mono fun t next ⟨hnext, ht⟩ => ?_)
    exact (hf t ⟨ht⟩).keeps next hnext

instance : Keeps source (unaryExpr g struct) := by
  unfold unaryExpr
  refine Keeps.of_bind fun attributes hattributes => ?_
  have : Good source attributes := ⟨hattributes⟩
  refine Keeps.of_bind fun mark _ => Keeps.of_bind fun ts _ => ?_
  split
  · infer_instance
  · split
    · infer_instance
    · exact keeps_postfixed fun t _ => inferInstance

instance : Keeps source (exprWith g struct) := by
  unfold exprWith
  infer_instance

theorem isNaming_of_endsAtBrace {t : Tree} (h : endsAtBrace t) : t.isNaming = false := by
  cases t with
  | node k cs =>
    revert h
    cases k <;> simp [endsAtBrace, Tree.isNaming, Tree.kind?]
  | _ => rfl

instance : Keeps source (boundedExpr g) := by
  unfold boundedExpr
  refine Keeps.of_bind fun attributes hattributes => ?_
  have : Good source attributes := ⟨hattributes⟩
  refine Keeps.of_bind fun ts _ => ?_
  extract_lets rest
  have hrest : ∀ first [Good source first], Keeps source (rest first) := by
    intro first hfirst
    unfold rest
    split
    · infer_instance
    · split
      · infer_instance
      · rename_i hbrace
        have hpostfix : Keeps source (withPostfix g first) := ⟨fun input hin =>
          ensures_withPostfix hfirst.good
            (precedes_of_isNaming (isNaming_of_endsAtBrace (by simpa using hbrace)) _) hin⟩
        infer_instance
  infer_instance

end

end InlineMarkup.Host
