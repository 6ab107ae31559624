import InlineMarkup.Proofs.Host.Comment
import InlineMarkup.Proofs.Host.Matching
import InlineMarkup.Proofs.Host.Grammar.Call
import InlineMarkup.Proofs.Reconcile.Arguments

/-!
Texts in braces. A text that begins with a brace and ends with one need not be one group: in
`{a} + {b}` the two braces do not match each other. They do if what is between them can be read by
itself, and the text is then a block.
-/

set_option autoImplicit false

namespace InlineMarkup.Host

open InlineMarkup.Text
open TokenTree (atomsOf)

namespace Lexeme

theorem lineEnd_cons {c : Char} (h : c ≠ '\n') (s : List Char) :
    (lineEnd (c :: s)).2 = (lineEnd s).2 :=
  lineEnd_append_of_not_mem (s := [c]) (by simpa using h.symm) s

theorem rest_of_plainComment? {r rest : List Char}
    (h : plainComment? ('/' :: '/' :: r) = some rest) : rest = (lineEnd r).2 := by
  have hend : (lineEnd ('/' :: '/' :: r)).2 = (lineEnd r).2 :=
    lineEnd_append_of_not_mem (s := ['/', '/']) (by decide) r
  unfold plainComment? at h
  split at h <;> simp_all

theorem rest_of_docCommentText? {r : List Char} {doc : DocComment}
    (h : docCommentText? ('/' :: '/' :: r) = some doc) : doc.rest = (lineEnd r).2 := by
  unfold docCommentText? at h
  split at h
  · rename_i heq
    cases heq
    cases h
    exact (lineEnd_cons (by decide) _).symm
  · rename_i heq
    cases heq
  · cases h
  · rename_i heq
    cases heq
    cases h
    exact (lineEnd_cons (by decide) _).symm
  · cases h
  · rename_i heq
    cases heq
  · cases h

end Lexeme

theorem Cursor.advance?_lineComment {c next : Cursor} {as : List Atom} {r : List Char}
    (hrest : c.rest = '/' :: '/' :: r) (h : c.advance? = some (as, next)) :
    next.rest = (Lexeme.lineEnd r).2 ∧ ∃ ts, as = atomsOf ts := by
  cases hplain : Lexeme.plainComment? c.rest with
  | some rest =>
    rw [advance?_plain hplain] at h
    cases h
    rw [hrest] at hplain
    exact ⟨Lexeme.rest_of_plainComment? hplain, [], by simp⟩
  | none =>
    cases hdoc : Lexeme.docComment? c.rest with
    | none =>
      rw [advance?_slashes hrest hplain hdoc] at h
      cases h
    | some doc =>
      rw [advance?_doc hplain hdoc] at h
      cases h
      obtain ⟨doc', htext, hdoc⟩ := Option.bind_eq_some_iff.1 hdoc
      split at hdoc <;> cases hdoc
      rw [hrest] at htext
      exact ⟨Lexeme.rest_of_docCommentText? htext, _, rfl⟩

theorem Reads.of_lineComment {r : List Char} {m e : Mark} {cs : List Atom}
    (h : Reads ⟨'/' :: '/' :: r, m⟩ cs ⟨[], e⟩) :
    ∃ ts ds m', cs = atomsOf ts ++ ds ∧ Reads ⟨(Lexeme.lineEnd r).2, m'⟩ ds ⟨[], e⟩ := by
  cases h with
  | @step _ next _ as ds ha hds =>
    obtain ⟨hnext, ts, rfl⟩ := Cursor.advance?_lineComment rfl ha
    exact ⟨ts, ds, next.mark, rfl, hnext ▸ hds⟩

theorem isHostBlank_of_isBlank {s : List Char} (h : ∀ c ∈ s, isBlank c = true) :
    ∀ c ∈ s, Lexeme.isHostBlank c = true := by
  intro c hc
  simp [Lexeme.isHostBlank, h c hc]

theorem eq_closing_of_reads {blanks : List Char} (hblanks : ∀ c ∈ blanks, isBlank c = true)
    {m e : Mark} {cs : List Atom} (h : Reads ⟨blanks ++ ['\x7d'], m⟩ cs ⟨[], e⟩) :
    ∃ span, cs = [.closing .brace span] := by
  obtain ⟨m', hreads⟩ := reads_blanks (isHostBlank_of_isBlank hblanks) ['\x7d'] m
  obtain ⟨ds, rfl, hds⟩ := (hreads.trans (reads_closing .brace [] m')).of_end h
  exact ⟨_, by rw [hds.eq_nil_of_end]; rfl⟩

theorem stops_closing {blanks : List Char} (hblanks : ∀ c ∈ blanks, isBlank c = true) :
    Lexeme.Stops (blanks ++ ['\x7d']) := by
  cases blanks with
  | nil => exact Lexeme.stops_closing_brace []
  | cons c blanks => exact Lexeme.stops_blank (hblanks c List.mem_cons_self) _

/-- Behind a text that can be read by itself a closing brace is a bracket of its own, unless the text
ends in a comment that takes it. -/
theorem Reads.of_closing {core blanks : List Char} {us : List TokenTree} {cs : List Atom}
    {m e : Mark} (hcore : tokens core = .ok us) (hblanks : ∀ c ∈ blanks, isBlank c = true)
    (h : Reads ⟨core ++ (blanks ++ ['\x7d']), m⟩ cs ⟨[], e⟩) :
    ∃ vs, cs = atomsOf vs ∨ ∃ span, cs = atomsOf vs ++ [.closing .brace span] := by
  have hmark : core.head? ≠ some byteOrderMark := fun hmark =>
    stuck_of_byteOrderMark hmark _ m cs e h
  rcases tokens_append_stop hcore hmark (stops_closing hblanks) m with
    ⟨-, bs, m', hfront, hbs⟩ | ⟨w, us', ws, d, _, bs, m', -, hopen, hus, hcomment, hfront, hbs⟩
  · obtain ⟨vs, rfl, -⟩ := exists_sameTokens hbs
    obtain ⟨ds, rfl, hds⟩ := hfront.of_end h
    obtain ⟨span, rfl⟩ := eq_closing_of_reads hblanks hds
    exact ⟨vs, .inr ⟨span, rfl⟩⟩
  · obtain ⟨r, rfl, hr⟩ := Lexeme.of_isOpenComment hopen
    -- the text by itself is over where the comment is
    obtain ⟨xs, ds, _, rfl, hds⟩ := hcomment.of_lineComment
    rw [Lexeme.lineEnd_of_not_mem hr] at hds
    rw [hds.eq_nil_of_end, List.append_nil] at hus
    obtain ⟨us'', rfl, -⟩ := exists_of_atomsOf_eq_append hus
    obtain ⟨vs, rfl, -⟩ := exists_sameTokens hbs
    -- with the brace behind it the comment goes on to the end of the line
    obtain ⟨cs', rfl, hrest⟩ := hfront.of_end h
    rw [List.cons_append, List.cons_append] at hrest
    obtain ⟨ys, ds', m'', rfl, hds'⟩ := hrest.of_lineComment
    rw [Lexeme.lineEnd_append_of_not_mem hr] at hds'
    refine ⟨vs ++ ys, ?_⟩
    by_cases hfeed : '\n' ∈ blanks
    · rw [Lexeme.lineEnd_append_of_mem hfeed] at hds'
      have hsub := (Lexeme.lineEnd_suffix blanks).subset
      obtain ⟨span, rfl⟩ := eq_closing_of_reads (fun c hc => hblanks c (hsub hc)) hds'
      exact .inr ⟨span, by simp⟩
    · have hline : '\n' ∉ blanks ++ ['\x7d'] := by simpa using hfeed
      rw [Lexeme.lineEnd_of_not_mem hline] at hds'
      rw [hds'.eq_nil_of_end]
      exact .inl (by simp)

/-- Braces around a text that can be read by itself match each other, if anything is read. -/
theorem exists_group_of_tokens {inner : List Char} {us ts : List TokenTree}
    (hinner : tokens (trim inner) = .ok us)
    (h : tokens ('\x7b' :: (inner ++ ['\x7d'])) = .ok ts) :
    ∃ contents opening closing, ts = [.group .brace contents opening closing] := by
  obtain ⟨lead, trail, hsplit, hlead, htrail⟩ := exists_eq_trim inner
  obtain ⟨e, hreads⟩ := (tokens_eq_ok_iff (by simp [byteOrderMark])).1 h
  rw [hsplit, List.append_assoc, List.append_assoc] at hreads
  obtain ⟨m, hblanks⟩ := reads_blanks (isHostBlank_of_isBlank hlead)
    (trim inner ++ (trail ++ ['\x7d'])) (Mark.first.after '\x7b')
  have hfront := (reads_opening (d := .brace) (by simp [Lexeme.errorMark, Delimiter.opening])
    Mark.first).trans hblanks
  obtain ⟨cs, hcs, hrest⟩ := hfront.of_end hreads
  obtain ⟨vs, rfl | ⟨span, rfl⟩⟩ := hrest.of_closing hinner htrail
  · -- the opening brace would never be closed
    have hdepth := depth_atomsOf ts
    rw [hcs] at hdepth
    simp [depth_atomsOf, Atom.depth] at hdepth
  · have hgroup : atomsOf ts = atomsOf [.group .brace vs
        ⟨Mark.first, Mark.first.after Delimiter.brace.opening⟩ span] := by
      simp [hcs, TokenTree.atoms]
    exact ⟨vs, _, span, atomsOf_injective hgroup⟩

theorem Tree.is_withAttributes (k : Kind) (attributes : List Tree) (t : Tree) :
    (t.withAttributes attributes).is k = t.is k := by
  cases t <;> rfl

theorem run_of_parseTokens {p : Grammar → Parser Tree} {ts : List TokenTree} {t : Tree}
    (h : parseTokens p ts = .ok t) :
    ∃ next, p (grammarFor ts) ⟨ts, Mark.first, none⟩ = .ok (t, next) := by
  obtain ⟨⟨tree, next⟩, hrun, h⟩ := bind_eq_ok.1 h
  refine ⟨next, ?_⟩
  simp only at h
  split at h
  · cases h
  · split at h <;> cases h
    exact hrun

section

variable {g : Grammar} {input : Input} {contents : List TokenTree} {opening closing : Span}
  (hin : input.rest = [.group .brace contents opening closing])
include hin

theorem run_atom_block {struct : Bool} : atom g struct input = blockExpr g input := by
  unfold atom
  rw [run_ahead, hin]
  rfl

theorem ensures_blockExpr :
    Ensures (blockExpr g) input fun t next => t.is .block = true ∧ next.rest = [] := by
  refine .bind (ensures_inGroup.mono fun t next h => .pure ⟨rfl, ?_⟩)
  obtain ⟨_, _, _, _, _, hrest, -⟩ := h
  rw [hin] at hrest
  exact (List.cons.inj hrest).2.symm

theorem ensures_expr_block {n : Nat} {struct : Bool} :
    Ensures ((Grammar.ofLevel (n + 2)).expr struct) input fun t _ => t.is .block = true := by
  have hno : ∀ c joint span us, input.rest = .punct c joint span :: us → c = ':' := by
    intro c joint span us hrest
    rw [hin] at hrest
    cases hrest
  intro t next h
  cases hatom : blockExpr (Grammar.ofLevel n) input with
  | error e =>
    have hunary : (Grammar.ofLevel (n + 1)).unary struct input = .error e := by
      refine (run_unaryExpr (g := Grammar.ofLevel n) hno).trans (run_bind_error ?_)
      rw [run_atom_block hin, hatom]
    have hnone : (Grammar.ofLevel (n + 2)).expr struct input = .error e := run_bind_error hunary
    rw [hnone] at h
    cases h
  | ok p =>
    obtain ⟨hblock, hrest⟩ := ensures_blockExpr hin p.1 p.2 hatom
    have hend : EndsArgument p.2.rest := .inl hrest
    rw [run_expr_atom hno ((run_atom_block hin).trans hatom) (run_postfixFuel_none hend _) hend] at h
    cases h
    rwa [Tree.is_withAttributes]

end

/-- An expression in braces is a block, or else what is between the braces cannot be read by
itself. -/
theorem parseExpr_enclosed {inner : List Char} {expr : Tree}
    (h : parseExpr ('\x7b' :: (inner ++ ['\x7d'])) = .ok expr) :
    expr.is .block = true ∨ ∃ mark, parseExpr (trim inner) = .error ⟨.unreadable, mark⟩ := by
  unfold parseExpr parseText at h ⊢
  split at h
  · cases h
  · rename_i ts hts
    cases hinner : tokens (trim inner) with
    | error mark => exact .inr ⟨mark, rfl⟩
    | ok us =>
      obtain ⟨contents, opening, closing, rfl⟩ := exists_group_of_tokens hinner hts
      obtain ⟨next, hrun⟩ := run_of_parseTokens h
      exact .inl (ensures_expr_block rfl expr next hrun)

end InlineMarkup.Host
