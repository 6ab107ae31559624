import InlineMarkup.Host.File
import InlineMarkup.Proofs.Generated.Origin
import InlineMarkup.Proofs.Generated.Rendering

/-!
The text of an element's expression against its syntax tree. The two are the same tokens, but for a
comma behind the last argument of a call, just if no comment at the end of code takes anything that
is needed.
-/

set_option autoImplicit false

namespace InlineMarkup.Host

open InlineMarkup.Text

theorem unaryExpr_eq_error {input : Input} (h : ¬BeginsArgument input.rest) (g : Grammar)
    (struct : Bool) : ∃ refusal, unaryExpr g struct input = .error refusal := by
  obtain ⟨rest, finish, leftover⟩ := input
  cases rest with
  | nil => exact ⟨_, rfl⟩
  | cons t ts =>
    have hcomma : ∃ joint span, t = .punct ',' joint span := by
      by_contra hne
      exact h ⟨t, ts, rfl, fun joint span heq => hne ⟨joint, span, heq⟩⟩
    obtain ⟨joint, span, rfl⟩ := hcomma
    exact ⟨_, rfl⟩

theorem exists_tokens_of_parseExpr {source : List Char} {tree : Tree}
    (h : parseExpr source = .ok tree) : ∃ ts, tokens source = .ok ts ∧ BeginsArgument ts := by
  unfold parseExpr parseText at h
  cases hts : tokens source with
  | error mark =>
    rw [hts] at h
    cases h
  | ok ts =>
    refine ⟨ts, rfl, ?_⟩
    by_contra hnot
    obtain ⟨n, hn⟩ : ∃ n, grammarFor ts = (Grammar.ofLevel n).next.next :=
      ⟨4 * TokenTree.sizeOf ts + 14, rfl⟩
    obtain ⟨refusal, hunary⟩ :=
      @unaryExpr_eq_error ⟨ts, Mark.first, none⟩ hnot (Grammar.ofLevel n) true
    have hexpr : (grammarFor ts).expr true ⟨ts, Mark.first, none⟩ = .error refusal := by
      rw [hn]
      change (unaryExpr (Grammar.ofLevel n) true ⟨ts, Mark.first, none⟩ >>= _) = _
      rw [hunary]
      rfl
    rw [hts] at h
    change ((grammarFor ts).expr true ⟨ts, Mark.first, none⟩ >>= _) = _ at h
    rw [hexpr] at h
    cases h

end InlineMarkup.Host

namespace InlineMarkup

open InlineMarkup.Text InlineMarkup.Host
open Host.TokenTree (atomsOf)

/-- The functions of a configuration are written as paths without generic arguments. -/
def Config.IsPlain (config : Config) : Prop :=
  ∀ p, config.Calls p → p.IsWritten ∧ ∀ s ∈ p.segments, s.arguments = none

namespace Generated

variable {config : Config} {g : Generated}

instance (p : Host.Path) : Decidable p.IsWritten :=
  decidable_of_iff (p.segments ≠ [] ∧ ∀ s ∈ p.segments, IsWord s.name)
    ⟨fun h => ⟨h.1, h.2⟩, fun h => ⟨h.nonempty, h.words⟩⟩

theorem isPlain_default : ({} : Config).IsPlain := by
  have h : ∀ p ∈ functionsOf {}, p.IsWritten ∧ ∀ s ∈ p.segments, s.arguments = none := by
    decide +kernel
  exact fun p hp => h p (mem_functionsOf hp)

theorem written_eq {expr : Host.Tree} {source : List Char} {us : List TokenTree}
    (h : tokens source = .ok us) : written expr source = us := by
  simp [written, h, Except.toOption]

theorem readable_written (hconfig : config.IsPlain) (hmade : Made config g) :
    Readable written g := by
  refine All.imp (fun function arguments h _ => ?_) (fun expr source h _ => ?_) hmade hmade
  · obtain ⟨hp, hplain⟩ := hconfig function h.1
    exact ⟨hp, hplain, h.2⟩
  · obtain ⟨us, hus, hbegins⟩ := exists_tokens_of_parseExpr h
    exact ⟨us, hus, by rw [written_eq hus]; exact .refl us, hbegins⟩

theorem readable_parsed (hread : Readable written g) (hkept : Kept g) : Readable parsed g := by
  refine All.imp (fun function arguments h _ => h) (fun expr source h hkept => ?_) hread hkept
  obtain ⟨us, hus, -, hbegins⟩ := h
  rw [written_eq hus] at hkept
  exact ⟨us, hus, hkept, hbegins⟩

theorem head?_render_ne {code : Host.Tree → List Char → List TokenTree}
    (hread : Readable code g) (hcall : g.leaf? = none) (l : Layout) :
    (g.render l).head? ≠ some byteOrderMark := by
  cases g with
  | str value => cases hcall
  | host expr source => cases hcall
  | call function arguments =>
    obtain ⟨c, s, htext, hc⟩ := hread.1.1.text_eq_cons
    have hmark : Lexeme.beginsLeaf byteOrderMark = false := by decide +kernel
    rw [render, renderAt, htext]
    rintro ⟨⟩
    simp [hmark] at hc

/-- The text of a call is read as tokens that spell it just if it fits. -/
theorem exists_spells_iff {code : Host.Tree → List Char → List TokenTree}
    (hread : Readable code g) (hcall : g.leaf? = none) {l : Layout} (hl : l.IsPlain) :
    (∃ ts, tokens (g.render l) = .ok ts ∧ Spells code g ts) ↔ Fits g := by
  have htokens : ∀ ts, tokens (g.render l) = .ok ts ↔
      ∃ e, Reads ⟨g.render l, Mark.first⟩ (atomsOf ts) ⟨[], e⟩ :=
    fun ts => tokens_eq_ok_iff (head?_render_ne hread hcall l)
  have houtcome := @outcome_renderAt code l hl g hread 0 [] (.inr hcall) Mark.first
  rw [List.append_nil] at houtcome
  rcases houtcome with ⟨-, hreads, hstands⟩ | ⟨hopen, -, -⟩ | ⟨hfits, hstuck⟩ |
    ⟨-, hfits, hrest, hopens⟩
  · have hts := (htokens _).2 ⟨_, hreads⟩
    rw [← hstands.spells_iff, hts]
    simp
  · cases g with
    | host expr source => cases hcall
    | _ => cases hopen
  · refine iff_of_false ?_ hfits
    rintro ⟨ts, hts, -⟩
    obtain ⟨e, hreads⟩ := (htokens ts).1 hts
    exact hstuck _ e hreads
  · refine iff_of_false ?_ hfits
    rintro ⟨ts, hts, -⟩
    obtain ⟨e, hreads⟩ := (htokens ts).1 hts
    obtain rfl : _ = [] := hrest.elim id id
    exact hopens.not_reads (by decide) ts e hreads

/-- Text and syntax tree agree: the text of an element's expression is read as the tokens that spell
the expression, with its code as written, just if all code in it fits. They are then the tokens of
the syntax tree too, if the code was parsed into trees that have its tokens. -/
theorem tokens_render_iff (hconfig : config.IsPlain) {e : Markup.Element}
    (h : ofElement config e = .ok g) {l : Layout} (hl : l.IsPlain) :
    ((∃ ts, tokens (g.render l) = .ok ts ∧ Spells written g ts) ↔ g.Fits) ∧
    (g.Kept → ((∃ ts, tokens (g.render l) = .ok ts ∧ Spells parsed g ts) ↔ g.Fits)) ∧
    Spells parsed g g.toTree.tokens := by
  obtain ⟨hmade, hcall⟩ := made_ofElement h
  have hread := readable_written hconfig hmade
  exact ⟨exists_spells_iff hread hcall hl,
    fun hkept => exists_spells_iff (readable_parsed hread hkept) hcall hl, spells_toTree g⟩

/-- A comment takes the parenthesis of a call on one line, but only the last comma of a call on
several. -/
theorem tokens_render_iff_comment :
    (∃ g, ofElement {} ⟨"p".toList, [], [.text "\x7bx // c\x7d".toList]⟩ = .ok g ∧
      ¬∃ ts, tokens (g.render {}) = .ok ts ∧ Spells written g ts) ∧
    ∃ g, ofElement {} ⟨"p".toList, [],
        [.element "b".toList [] [], .text "\x7bx // c\x7d".toList]⟩ = .ok g ∧
      ∃ ts, tokens (g.render ⟨['\t'], ['\r', '\n']⟩) = .ok ts ∧ Spells parsed g ts := by
  constructor
  · have h : (ofElement {} ⟨"p".toList, [], [.text "\x7bx // c\x7d".toList]⟩).toOption.map
        (fun g => decide g.Fits) = some false := by
      decide +kernel
    obtain ⟨g, hg, hfits⟩ := Option.map_eq_some_iff.1 h
    have hg := eq_ok_of_toOption hg
    refine ⟨g, hg, mt (tokens_render_iff isPlain_default hg ⟨by simp, .inl rfl⟩).1.1 ?_⟩
    exact of_decide_eq_false hfits
  · have h : (ofElement {} ⟨"p".toList, [],
        [.element "b".toList [] [], .text "\x7bx // c\x7d".toList]⟩).toOption.map
        (fun g => decide (g.Fits ∧ g.Kept)) = some true := by
      decide +kernel
    obtain ⟨g, hg, hfits⟩ := Option.map_eq_some_iff.1 h
    have hg := eq_ok_of_toOption hg
    obtain ⟨hfits, hkept⟩ := of_decide_eq_true hfits
    have hl : (Layout.mk ['\t'] ['\r', '\n']).IsPlain :=
      ⟨List.forall_mem_singleton.2 rfl, .inr rfl⟩
    exact ⟨g, hg, ((tokens_render_iff isPlain_default hg hl).2.1 hkept).2 hfits⟩

end Generated

end InlineMarkup
