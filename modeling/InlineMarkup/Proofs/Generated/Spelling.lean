import InlineMarkup.Generated.Basic
import InlineMarkup.Proofs.Host.Comment
import InlineMarkup.Proofs.Host.Matching

/-!
How the tokens of a text can spell a generated expression, and where the code in it may stand: a
line comment at the end of code takes what follows it on its line.
-/

set_option autoImplicit false

namespace InlineMarkup

open InlineMarkup.Text InlineMarkup.Host
open Host.TokenTree (atomsOf)

namespace Generated

mutual

def All (P : Host.Path → List Generated → Prop) (Q : Host.Tree → List Char → Prop) :
    Generated → Prop
  | .call function arguments => P function arguments ∧ AllOf P Q arguments
  | .str _ => True
  | .host expr source => Q expr source

def AllOf (P : Host.Path → List Generated → Prop) (Q : Host.Tree → List Char → Prop) :
    List Generated → Prop
  | [] => True
  | g :: gs => All P Q g ∧ AllOf P Q gs

end

section

variable {P : Host.Path → List Generated → Prop} {Q : Host.Tree → List Char → Prop}

theorem allOf_iff {gs : List Generated} : AllOf P Q gs ↔ ∀ g ∈ gs, All P Q g := by
  induction gs with
  | nil => simp [AllOf]
  | cons g gs ih => simp [AllOf, ih]

variable {P' P'' : Host.Path → List Generated → Prop} {Q' Q'' : Host.Tree → List Char → Prop}

mutual

theorem All.imp (hP : ∀ function arguments, P function arguments → P' function arguments →
      P'' function arguments)
    (hQ : ∀ expr source, Q expr source → Q' expr source → Q'' expr source) {g : Generated}
    (h : All P Q g) (h' : All P' Q' g) : All P'' Q'' g := by
  cases g with
  | str value => exact trivial
  | host expr source => exact hQ expr source h h'
  | call function arguments => exact ⟨hP function arguments h.1 h'.1, AllOf.imp hP hQ h.2 h'.2⟩

theorem AllOf.imp (hP : ∀ function arguments, P function arguments → P' function arguments →
      P'' function arguments)
    (hQ : ∀ expr source, Q expr source → Q' expr source → Q'' expr source) {gs : List Generated}
    (h : AllOf P Q gs) (h' : AllOf P' Q' gs) : AllOf P'' Q'' gs := by
  cases gs with
  | nil => exact trivial
  | cons g gs => exact ⟨All.imp hP hQ h.1 h'.1, AllOf.imp hP hQ h.2 h'.2⟩

end

end

section

variable {P : Host.Path → List Generated → Prop} {Q : Host.Tree → List Char → Prop}
  [∀ function arguments, Decidable (P function arguments)]
  [∀ expr source, Decidable (Q expr source)]

mutual

def All.decide : (g : Generated) → Decidable (All P Q g)
  | .call function arguments =>
    @instDecidableAnd (P function arguments) (AllOf P Q arguments) _ (AllOf.decide arguments)
  | .str _ => .isTrue trivial
  | .host expr source => inferInstanceAs (Decidable (Q expr source))

def AllOf.decide : (gs : List Generated) → Decidable (AllOf P Q gs)
  | [] => .isTrue trivial
  | g :: gs => @instDecidableAnd (All P Q g) (AllOf P Q gs) (All.decide g) (AllOf.decide gs)

end

end

/-- The tokens of code as it is written. -/
def written (_ : Host.Tree) (source : List Char) : List TokenTree :=
  (tokens source).toOption.getD []

/-- The tokens of code as it was parsed. -/
def parsed (expr : Host.Tree) (_ : List Char) : List TokenTree :=
  expr.tokens

mutual

/-- Tokens that spell an expression: those of its syntax tree with the given tokens for the code in
it, but for a comma that may stand behind the last argument of a call. -/
inductive Spells (code : Host.Tree → List Char → List TokenTree) :
    Generated → List TokenTree → Prop where
  | str {value : List Char} {ts : List TokenTree} :
    SameTokens (stringTree value).tokens ts → Spells code (.str value) ts
  | host {expr : Host.Tree} {source : List Char} {ts : List TokenTree} :
    SameTokens (code expr source) ts → Spells code (.host expr source) ts
  | call {function : Host.Path} {arguments : List Generated} {front inner : List TokenTree}
    {opening closing : Span} :
    SameTokens (function.toTree true).tokens front → SpellsAll code arguments inner →
    Spells code (.call function arguments) (front ++ [.group .parenthesis inner opening closing])

inductive SpellsAll (code : Host.Tree → List Char → List TokenTree) :
    List Generated → List TokenTree → Prop where
  | nil : SpellsAll code [] []
  | last {g : Generated} {ts : List TokenTree} : Spells code g ts → SpellsAll code [g] ts
  | comma {g : Generated} {ts : List TokenTree} {joint : Bool} {span : Span} : Spells code g ts →
    SpellsAll code [g] (ts ++ [.punct ',' joint span])
  | cons {g h : Generated} {gs : List Generated} {ts us : List TokenTree} {joint : Bool}
    {span : Span} : Spells code g ts → SpellsAll code (h :: gs) us →
    SpellsAll code (g :: h :: gs) (ts ++ .punct ',' joint span :: us)

end

mutual

theorem spells_toTree (g : Generated) : Spells parsed g g.toTree.tokens := by
  cases g with
  | str value => exact .str (.refl _)
  | host expr source => exact .host (.refl _)
  | call function arguments =>
    have h := @Spells.call _ _ _ _ _ Span.nowhere Span.nowhere
      (.refl (function.toTree true).tokens) (spellsAll_argumentTrees arguments)
    simpa [toTree, Host.Tree.tokens, Host.Tree.tokensOf] using h

theorem spellsAll_argumentTrees (gs : List Generated) :
    SpellsAll parsed gs (Host.Tree.tokensOf (argumentTrees gs)) := by
  cases gs with
  | nil => exact .nil
  | cons g gs =>
    cases gs with
    | nil => simpa [argumentTrees, Host.Tree.tokensOf] using SpellsAll.last (spells_toTree g)
    | cons h gs =>
      have := @SpellsAll.cons _ _ _ _ _ _ false Span.nowhere (spells_toTree g)
        (spellsAll_argumentTrees (h :: gs))
      simpa [argumentTrees, Host.Tree.tokensOf, comma, Host.Tree.tokens] using this

end

def width (code : Host.Tree → List Char → List TokenTree) : Generated → Nat
  | .call function _ => (function.toTree true).tokens.length + 1
  | .str _ => 1
  | .host expr source => (code expr source).length

theorem Spells.length_eq {code : Host.Tree → List Char → List TokenTree} {g : Generated}
    {ts : List TokenTree} (h : Spells code g ts) : ts.length = width code g := by
  cases h with
  | str h => simpa [stringTree, Host.Tree.tokens, Host.Tree.tokensOf, width] using h.length_eq.symm
  | host h => exact h.length_eq.symm
  | call h _ => simp [width, h.length_eq]

def OnLine (g : Generated) : Prop :=
  ∀ s, g.leaf? = some s → '\n' ∉ s

def endsInComment : Generated → Bool
  | .host _ source => (openComment? source).isSome
  | _ => false

/-- The arguments of a call that are followed, on their line, by more than the comma that may stand
behind the last argument. -/
def exposed (arguments : List Generated) : List Generated :=
  if (inline? arguments).isSome then arguments else arguments.dropLast

/-- No comment at the end of code takes anything that is needed: no exposed argument ends in one,
and none is a documentation comment, which would take the comma into its text. Nor does code begin
with a byte order mark, which is skipped only at the start of a text. -/
def Fits : Generated → Prop :=
  All (fun _ arguments => ∀ g ∈ exposed arguments, g.endsInComment = false)
    (fun _ source => source.head? ≠ some byteOrderMark ∧
      (openComment? source).all fun w => (Lexeme.plainComment? w).isSome)

instance : DecidablePred Fits := fun g => All.decide g

theorem fits_call_iff {function : Host.Path} {arguments : List Generated} :
    Fits (.call function arguments) ↔
      (∀ g ∈ exposed arguments, g.endsInComment = false) ∧ ∀ g ∈ arguments, Fits g :=
  and_congr_right fun _ => allOf_iff

def Kept : Generated → Prop :=
  All (fun _ _ => True) (fun expr source => SameTokens expr.tokens (written expr source))

instance : DecidablePred Kept := fun g => All.decide g

/-- Tokens in the place of an expression, which spell it just if it fits. -/
structure Stands (code : Host.Tree → List Char → List TokenTree) (g : Generated)
    (ts : List TokenTree) : Prop where
  length_eq : ts.length = width code g
  begins : BeginsArgument ts
  spells_iff : Spells code g ts ↔ Fits g

/-- What is read for the arguments of a call: a comma behind each, but for one that a comment takes
and for the last, which need not have one. -/
inductive Row (code : Host.Tree → List Char → List TokenTree) :
    List Generated → List TokenTree → Prop where
  | nil : Row code [] []
  | last {g : Generated} {ts : List TokenTree} : Stands code g ts → Row code [g] ts
  | closed {g : Generated} {gs : List Generated} {ts us : List TokenTree} {joint : Bool}
    {span : Span} : Stands code g ts → g.endsInComment = false → Row code gs us →
    Row code (g :: gs) (ts ++ .punct ',' joint span :: us)
  | commented {g h : Generated} {gs : List Generated} {ts us : List TokenTree} :
    Stands code g ts → g.endsInComment = true → Row code (h :: gs) us →
    Row code (g :: h :: gs) (ts ++ us)

section

variable {code : Host.Tree → List Char → List TokenTree}

theorem Row.begins {g : Generated} {gs : List Generated} {us : List TokenTree}
    (h : Row code (g :: gs) us) : BeginsArgument us := by
  cases h with
  | last h => exact h.begins
  | closed h _ _ => exact h.begins.append _
  | commented h _ _ => exact h.begins.append _

theorem spellsAll_single_iff {g : Generated} {ts : List TokenTree} (h : Stands code g ts) :
    SpellsAll code [g] ts ↔ Fits g := by
  rw [← h.spells_iff]
  constructor
  · intro hts
    cases hts with
    | last hg => exact hg
    | comma hg =>
      have := hg.length_eq.trans h.length_eq.symm
      simp at this
  · exact .last

theorem spellsAll_comma_iff {g : Generated} {ts : List TokenTree} {joint : Bool} {span : Span}
    (h : Stands code g ts) :
    SpellsAll code [g] (ts ++ [.punct ',' joint span]) ↔ Fits g := by
  rw [← h.spells_iff]
  constructor
  · intro hts
    generalize hus : ts ++ [.punct ',' joint span] = us at hts
    cases hts with
    | last hg =>
      have := hg.length_eq.trans h.length_eq.symm
      simp [← hus] at this
    | comma hg =>
      obtain ⟨rfl, -⟩ := List.append_inj hus (h.length_eq.trans hg.length_eq.symm)
      exact hg
  · exact .comma

theorem spellsAll_cons_iff {g h : Generated} {gs : List Generated} {ts us : List TokenTree}
    (hg : Stands code g ts) :
    SpellsAll code (g :: h :: gs) (ts ++ us) ↔
      Fits g ∧ ∃ joint span vs, us = .punct ',' joint span :: vs ∧ SpellsAll code (h :: gs) vs := by
  rw [← hg.spells_iff]
  constructor
  · intro hts
    generalize hws : ts ++ us = ws at hts
    cases hts with
    | cons hg' hgs =>
      obtain ⟨rfl, rfl⟩ := List.append_inj hws (hg.length_eq.trans hg'.length_eq.symm)
      exact ⟨hg', _, _, _, rfl, hgs⟩
  · rintro ⟨hg', joint, span, vs, rfl, hgs⟩
    exact .cons hg' hgs

theorem Row.spells_iff {gs : List Generated} {us : List TokenTree} (h : Row code gs us) :
    SpellsAll code gs us ↔
      (∀ g ∈ gs.dropLast, g.endsInComment = false) ∧ ∀ g ∈ gs, Fits g := by
  induction h with
  | nil => simpa using SpellsAll.nil
  | last hg => simpa using spellsAll_single_iff hg
  | @closed g gs ts us joint span hg hclosed hgs ih =>
    cases hgs with
    | nil => simpa using spellsAll_comma_iff hg
    | _ =>
      rw [spellsAll_cons_iff hg]
      simp [ih, hclosed, and_left_comm]
  | @commented g h gs ts us hg hopen hgs ih =>
    -- The comma is gone, and the next argument begins with none.
    have hcomma : ¬∃ joint span vs, us = .punct ',' joint span :: vs ∧
        SpellsAll code (h :: gs) vs := by
      rintro ⟨joint, span, vs, rfl, -⟩
      obtain ⟨t, ts, heq, ht⟩ := hgs.begins
      exact ht joint span (List.cons.inj heq).1.symm
    rw [spellsAll_cons_iff hg]
    simp [hcomma, hopen]

end

end Generated

end InlineMarkup
