import InlineMarkup.Proofs.Generated.Spelling
import InlineMarkup.Proofs.Host.Quoted

/-!
Reading the text of a generated expression. Where everything fits, the text is read as tokens that
spell the expression; where a comment takes a parenthesis, a bracket stays open to the end; and
where a byte order mark stands inside, nothing is read at all.
-/

set_option autoImplicit false

namespace InlineMarkup.Host

open InlineMarkup.Text
open TokenTree (atomsOf)

/-- Whenever reading gets from `c` to the end of the text, it passes by `rest` with `n` brackets or
more still open. -/
def Opens (n : Int) (c : Cursor) (rest : List Char) : Prop :=
  ∀ bs e, Reads c bs ⟨[], e⟩ →
    ∃ as cs m, bs = as ++ cs ∧ n ≤ depth as ∧ Reads ⟨rest, m⟩ cs ⟨[], e⟩

theorem Reads.opens {c : Cursor} {as : List Atom} {rest : List Char} {m : Mark}
    (h : Reads c as ⟨rest, m⟩) : Opens (depth as) c rest := by
  intro bs e hbs
  obtain ⟨cs, rfl, hcs⟩ := h.of_end hbs
  exact ⟨as, cs, m, rfl, Int.le_refl _, hcs⟩

theorem Opens.of_reads {n : Int} {c d : Cursor} {as : List Atom} {rest : List Char}
    (h : Opens n d rest) (hreads : Reads c as d) : Opens (depth as + n) c rest := by
  intro bs e hbs
  obtain ⟨cs, rfl, hcs⟩ := hreads.of_end hbs
  obtain ⟨as', cs', m, rfl, hn, hcs'⟩ := h cs e hcs
  refine ⟨as ++ as', cs', m, by simp, ?_, hcs'⟩
  rw [depth_append]
  omega

theorem Stuck.opens {c : Cursor} (h : Stuck c) (n : Int) (rest : List Char) : Opens n c rest :=
  fun bs e hbs => absurd hbs (h bs e)

theorem Opens.trans {n k : Int} {c : Cursor} {rest rest' : List Char} (h : Opens n c rest)
    (h' : ∀ m, Opens k ⟨rest, m⟩ rest') : Opens (n + k) c rest' := by
  intro bs e hbs
  obtain ⟨as, cs, m, rfl, hn, hcs⟩ := h bs e hbs
  obtain ⟨as', cs', m', rfl, hk, hcs'⟩ := h' m cs e hcs
  refine ⟨as ++ as', cs', m', by simp, ?_, hcs'⟩
  rw [depth_append]
  omega

theorem Opens.mono {n k : Int} {c : Cursor} {rest : List Char} (h : Opens n c rest) (hk : k ≤ n) :
    Opens k c rest := by
  intro bs e hbs
  obtain ⟨as, cs, m, rfl, hn, hcs⟩ := h bs e hbs
  exact ⟨as, cs, m, rfl, Int.le_trans hk hn, hcs⟩

theorem Opens.not_reads {n : Int} {c : Cursor} (h : Opens n c []) (hn : 0 < n)
    (ts : List TokenTree) (e : Mark) : ¬Reads c (atomsOf ts) ⟨[], e⟩ := by
  intro hts
  obtain ⟨as, cs, m, hsplit, hdepth, hcs⟩ := h _ e hts
  obtain rfl := hcs.eq_nil_of_end
  have hbalanced := depth_atomsOf ts
  rw [hsplit, List.append_nil] at hbalanced
  omega

theorem reads_comma (s : List Char) (h : ∀ c ∈ s, Lexeme.isHostBlank c = true) (r : List Char)
    (m : Mark) :
    ∃ joint span m', Reads ⟨',' :: s ++ r, m⟩ [.punct ',' joint span] ⟨r, m'⟩ := by
  obtain ⟨m', hs⟩ := reads_blanks h r (m.after ',')
  exact ⟨_, _, m', (reads_punct ',' (s ++ r) (by decide) rfl m).trans hs⟩

end InlineMarkup.Host

namespace InlineMarkup

open InlineMarkup.Text InlineMarkup.Host
open Host.TokenTree (atomsOf)

/-- The indentation of a layout is blank and its lines end in one of the two usual ways. -/
structure Layout.IsPlain (l : Layout) : Prop where
  base : ∀ c ∈ l.base, isBlank c = true
  newline : l.newline = ['\n'] ∨ l.newline = ['\r', '\n']

namespace Generated

variable {code : Host.Tree → List Char → List TokenTree}

/-- The functions of an expression can be written, its code can be read, and no line ends inside an
argument that others stand beside. -/
def Readable (code : Host.Tree → List Char → List TokenTree) : Generated → Prop :=
  All
    (fun function arguments => function.IsWritten ∧ (∀ s ∈ function.segments, s.arguments = none) ∧
      (2 ≤ arguments.length → ∀ g ∈ arguments, g.OnLine))
    (fun expr source => ∃ us, tokens source = .ok us ∧ SameTokens (code expr source) us ∧
      BeginsArgument us)

/-- How far reading the text of an expression gets, with `tail` behind it. -/
inductive Outcome (code : Host.Tree → List Char → List TokenTree) (g : Generated) (c : Cursor)
    (tail : List Char) : Prop where
  | through {ts : List TokenTree} {m : Mark} : g.endsInComment = false →
    Reads c (atomsOf ts) ⟨tail, m⟩ → Stands code g ts → Outcome code g c tail
  | commented {ts : List TokenTree} {m : Mark} : g.endsInComment = true →
    Reads c (atomsOf ts) ⟨(Lexeme.lineEnd tail).2, m⟩ → Stands code g ts → Outcome code g c tail
  | stuck : ¬Fits g → Stuck c → Outcome code g c tail
  | unclosed {rest : List Char} : g.leaf? = none → ¬Fits g →
    rest = tail ∨ rest = (Lexeme.lineEnd tail).2 → Opens 1 c rest → Outcome code g c tail

theorem stands_str (value : List Char) (span : Span) :
    Stands code (.str value) [.literal (stringLiteral value) span] where
  length_eq := rfl
  begins := ⟨_, _, rfl, by simp⟩
  spells_iff := by
    refine iff_of_true (.str ?_) trivial
    simp [SameTokens, stringTree, Host.Tree.tokens, Host.Tree.tokensOf, TokenTree.atoms,
      Atom.Matches]

section

variable {expr : Host.Tree} {source : List Char} {us : List TokenTree}
  (hcode : SameTokens (code expr source) us) (hbegins : BeginsArgument us)
include hcode hbegins

theorem stands_host {ts : List TokenTree} (hts : SameTokens us ts)
    (hfits : Fits (.host expr source)) : Stands code (.host expr source) ts where
  length_eq := hts.length_eq.symm.trans hcode.length_eq.symm
  begins := hbegins.of_sameTokens hts
  spells_iff := iff_of_true (.host (hcode.trans hts)) hfits

theorem stands_documented {vs ts : List TokenTree} {content more rest : List Char} {inner : Bool}
    {span span' : Span} (hus : us = vs ++ docTokens ⟨content, inner, []⟩ span)
    (hvs : SameTokens vs ts) (hmore : more ≠ []) (hfits : ¬Fits (.host expr source)) :
    Stands code (.host expr source) (ts ++ docTokens ⟨content ++ more, inner, rest⟩ span') where
  length_eq := by
    simp only [width, hcode.length_eq, hus, List.length_append, hvs.length_eq]
    cases inner <;> simp [docTokens]
  begins := by
    cases vs with
    | nil =>
      obtain rfl : ts = [] := List.eq_nil_of_length_eq_zero hvs.length_eq.symm
      exact ⟨_, _, rfl, by simp⟩
    | cons v vs =>
      obtain ⟨t, ws, heq, ht⟩ := hbegins
      obtain ⟨rfl, -⟩ := List.cons.inj (hus.symm.trans heq)
      have hv : BeginsArgument (v :: vs) := ⟨v, vs, rfl, ht⟩
      exact (hv.of_sameTokens hvs).append _
  spells_iff := by
    refine iff_of_false (fun hspells => ?_) hfits
    cases hspells with
    | host hsame =>
      have hliterals := hcode.literals_eq.symm.trans hsame.literals_eq
      have hdoc : ∀ content rest span,
          literals (atomsOf (docTokens ⟨content, inner, rest⟩ span)) = [stringLiteral content] := by
        intro content rest span
        cases inner <;> simp [docTokens, TokenTree.atoms, literals]
      rw [hus, atomsOf_append, atomsOf_append, literals_append, literals_append, hdoc, hdoc,
        hvs.literals_eq] at hliterals
      have hsame := List.append_cancel_left hliterals
      exact Lexeme.stringLiteral_append_ne content hmore (List.cons.inj hsame).1.symm

end

theorem lineEnd_ne_nil {tail : List Char} (hb : Lexeme.Breaks tail) :
    (Lexeme.lineEnd tail).1 ≠ [] := by
  obtain ⟨c, t, rfl, hc⟩ := hb
  rw [Lexeme.lineEnd]
  · simp
  · rintro rfl
    simp at hc
  · rintro s rfl
    simp at hc

theorem outcome_host {expr : Host.Tree} {source tail : List Char}
    (hread : Readable code (.host expr source)) (hb : Lexeme.Breaks tail) (m : Mark) :
    Outcome code (.host expr source) ⟨source ++ tail, m⟩ tail := by
  obtain ⟨us, hus, hcode, hbegins⟩ := hread
  by_cases hmark : source.head? = some byteOrderMark
  · exact .stuck (fun hfits => hfits.1 hmark) (stuck_of_byteOrderMark hmark tail m)
  cases hopen : openComment? source with
  | none =>
    obtain ⟨bs, m', hreads, hbs⟩ := reads_closed hus hmark hb hopen m
    obtain ⟨ts, rfl, hts⟩ := exists_sameTokens hbs
    have hfits : Fits (.host expr source) := ⟨hmark, by simp [hopen]⟩
    exact .through (by simp [endsInComment, hopen]) hreads (stands_host hcode hbegins hts hfits)
  | some w =>
    have hcommented : (Generated.host expr source).endsInComment = true := by
      simp [endsInComment, hopen]
    cases hplain : Lexeme.plainComment? w with
    | some rest =>
      obtain ⟨bs, m', hreads, hbs⟩ := reads_commented hus hmark hb hopen (by simp [hplain]) m
      obtain ⟨ts, rfl, hts⟩ := exists_sameTokens hbs
      have hfits : Fits (.host expr source) := ⟨hmark, by simp [hopen, hplain]⟩
      exact .commented hcommented hreads (stands_host hcode hbegins hts hfits)
    | none =>
      have hfits : ¬Fits (.host expr source) := by
        rintro ⟨-, hdoc⟩
        simp [hopen, hplain] at hdoc
      rcases reads_documented hus hmark hb hopen hplain m with
        ⟨as, bs, content, inner, rest, span, span', m', hatoms, hbs, hreads⟩ | hstuck
      · obtain ⟨vs, rfl, hvs⟩ := exists_of_atomsOf_eq_append hatoms
        obtain ⟨ts, rfl, hts⟩ := exists_sameTokens hbs
        rw [← atomsOf_append] at hreads
        exact .commented hcommented hreads
          (stands_documented hcode hbegins hvs hts (lineEnd_ne_nil hb) hfits)
      · exact .stuck hfits hstuck

theorem outcome_leaf {g : Generated} {s tail : List Char} (hleaf : g.leaf? = some s)
    (hread : Readable code g) (hb : Lexeme.Breaks tail) (m : Mark) :
    Outcome code g ⟨s ++ tail, m⟩ tail := by
  cases g with
  | call function arguments => cases hleaf
  | str value =>
    cases hleaf
    obtain ⟨span, m', hreads⟩ := reads_stringLiteral hb value m
    exact .through rfl (by simpa [TokenTree.atoms] using hreads) (stands_str value span)
  | host expr source =>
    cases hleaf
    exact outcome_host hread hb m

theorem leaves?_cons_eq_some {g : Generated} {gs : List Generated} {ss : List (List Char)}
    (h : leaves? (g :: gs) = some ss) :
    ∃ t ts, ss = t :: ts ∧ g.leaf? = some t ∧ leaves? gs = some ts := by
  rw [leaves?] at h
  split at h
  · rename_i t ts hg hgs
    exact ⟨t, ts, (Option.some.inj h).symm, hg, hgs⟩
  · cases h

theorem inline?_eq_some {gs : List Generated} {line : List Char} (h : inline? gs = some line) :
    ∃ ss, leaves? gs = some ss ∧ join [',', ' '] ss = line := by
  unfold inline? at h
  split at h
  · cases h
  · rename_i ss hss
    obtain ⟨-, hline⟩ := Option.ite_none_right_eq_some.1 h
    exact ⟨ss, hss, Option.some.inj hline⟩

theorem exists_leaf_of_mem {gs : List Generated} {ss : List (List Char)}
    (h : leaves? gs = some ss) {s : List Char} (hs : s ∈ ss) : ∃ g ∈ gs, g.leaf? = some s := by
  induction gs generalizing ss with
  | nil =>
    cases h
    cases hs
  | cons g gs ih =>
    obtain ⟨t, ts, rfl, hg, hgs⟩ := leaves?_cons_eq_some h
    rcases List.mem_cons.1 hs with rfl | hs
    · exact ⟨g, List.mem_cons_self, hg⟩
    · obtain ⟨k, hk, hleaf⟩ := ih hgs hs
      exact ⟨k, List.mem_cons_of_mem g hk, hleaf⟩

/-- One argument with the rest of its line behind it: where it is no good, the line is lost with the
parenthesis at its end. -/
theorem leaf_on_line {g : Generated} {s r : List Char} (hleaf : g.leaf? = some s)
    (hread : Readable code g) (hr : '\n' ∉ r) {tail : List Char}
    (hb : Lexeme.Breaks (r ++ ')' :: tail)) (m : Mark) :
    (g.endsInComment = false ∧ ∃ ts m', Stands code g ts ∧
      Reads ⟨s ++ (r ++ ')' :: tail), m⟩ (atomsOf ts) ⟨r ++ ')' :: tail, m'⟩) ∨
    ((g.endsInComment = true ∨ ¬Fits g) ∧
      Opens 0 ⟨s ++ (r ++ ')' :: tail), m⟩ (Lexeme.lineEnd tail).2) := by
  rcases outcome_leaf hleaf hread hb m with
    ⟨hclosed, hreads, hstands⟩ | ⟨hopen, hreads, -⟩ | ⟨hfits, hstuck⟩ | ⟨hcall, -, -, -⟩
  · exact .inl ⟨hclosed, _, _, hstands, hreads⟩
  · have hline : (Lexeme.lineEnd (r ++ ')' :: tail)).2 = (Lexeme.lineEnd tail).2 := by
      rw [List.append_cons]
      exact Lexeme.lineEnd_append_of_not_mem (by simpa using hr) tail
    have hopens := hreads.opens
    rw [depth_atomsOf, hline] at hopens
    exact .inr ⟨.inl hopen, hopens⟩
  · exact .inr ⟨.inr hfits, hstuck.opens _ _⟩
  · simp [hcall] at hleaf

/-- Arguments on one line are all read, unless the line is lost behind one of them. -/
theorem row_inline {gs : List Generated} {ss : List (List Char)} (hleaves : leaves? gs = some ss)
    (hread : ∀ g ∈ gs, Readable code g)
    (hlines : 2 ≤ gs.length → ∀ s ∈ ss, '\n' ∉ s) (tail : List Char) (m : Mark) :
    ((∀ g ∈ gs, g.endsInComment = false) ∧ ∃ us m', Row code gs us ∧
      Reads ⟨join [',', ' '] ss ++ ')' :: tail, m⟩ (atomsOf us) ⟨')' :: tail, m'⟩) ∨
    ((∃ g ∈ gs, g.endsInComment = true ∨ ¬Fits g) ∧
      Opens 0 ⟨join [',', ' '] ss ++ ')' :: tail, m⟩ (Lexeme.lineEnd tail).2) := by
  induction gs generalizing ss m with
  | nil =>
    cases hleaves
    exact .inl ⟨by simp, [], m, .nil, by simpa [join] using Reads.done _⟩
  | cons g gs ih =>
    obtain ⟨s, ss, rfl, hleaf, hleaves⟩ := leaves?_cons_eq_some hleaves
    have hg := hread g List.mem_cons_self
    cases gs with
    | nil =>
      -- The only argument may have several lines: a comment at its end still stands on the last.
      cases hleaves
      have hb := Lexeme.breaks_cons ')' tail (by simp)
      rcases leaf_on_line hleaf hg List.not_mem_nil hb m with
        ⟨hclosed, ts, m', hstands, hreads⟩ | ⟨hlost, hopens⟩
      · exact .inl ⟨by simpa using hclosed, ts, m', .last hstands, hreads⟩
      · exact .inr ⟨⟨g, by simp, hlost⟩, hopens⟩
    | cons h gs =>
      obtain ⟨t, ts, rfl, -⟩ := leaves?_cons_eq_some hleaves
      have hfeeds : ∀ u ∈ t :: ts, '\n' ∉ u := fun u hu =>
        hlines (by simp) u (List.mem_cons_of_mem s hu)
      have htext : join [',', ' '] (s :: t :: ts) ++ ')' :: tail =
          s ++ (',' :: ' ' :: join [',', ' '] (t :: ts) ++ ')' :: tail) := by
        simp [join]
      rw [htext]
      have hjoin : '\n' ∉ join [',', ' '] (t :: ts) := not_mem_join (by decide) hfeeds
      have hline : '\n' ∉ ',' :: ' ' :: join [',', ' '] (t :: ts) := by simpa using hjoin
      have hb := Lexeme.breaks_cons ',' (' ' :: join [',', ' '] (t :: ts) ++ ')' :: tail) (by simp)
      rcases leaf_on_line hleaf hg hline hb m with
        ⟨hclosed, us, m', hstands, hreads⟩ | ⟨hlost, hopens⟩
      · obtain ⟨joint, span, m', hcomma⟩ := reads_comma [' '] (List.forall_mem_singleton.2 rfl)
          (join [',', ' '] (t :: ts) ++ ')' :: tail) m'
        have hread := fun h hh => hread h (List.mem_cons_of_mem g hh)
        rcases ih hleaves hread (fun _ => hfeeds) m' with
          ⟨hall, vs, m'', hrow, hreads'⟩ | ⟨⟨k, hk, hlost⟩, hopens⟩
        · refine .inl ⟨List.forall_mem_cons.2 ⟨hclosed, hall⟩,
            us ++ .punct ',' joint span :: vs, m'', .closed hstands hclosed hrow, ?_⟩
          simpa [TokenTree.atoms] using hreads.trans (hcomma.trans hreads')
        · refine .inr ⟨⟨k, List.mem_cons_of_mem g hk, hlost⟩, ?_⟩
          have := (hopens.of_reads hcomma).of_reads hreads
          simpa [depth_atomsOf, Atom.depth] using this
      · exact .inr ⟨⟨g, List.mem_cons_self, hlost⟩, hopens⟩

theorem not_errorMark_leaf {g : Generated} {s tail : List Char} (hleaf : g.leaf? = some s)
    (hread : Readable code g) (hb : Lexeme.Breaks tail) :
    ¬Lexeme.errorMark <+: '(' :: (s ++ tail) := by
  cases g with
  | call function arguments => cases hleaf
  | str value =>
    cases hleaf
    simp [Lexeme.errorMark, stringLiteral]
  | host expr source =>
    cases hleaf
    obtain ⟨us, hus, -, t, ts, rfl, -⟩ := hread
    exact not_errorMark_of_tokens hus (by simp) hb.stops

theorem not_errorMark_inline {gs : List Generated} {ss : List (List Char)}
    (hleaves : leaves? gs = some ss) (hread : ∀ g ∈ gs, Readable code g) (tail : List Char) :
    ¬Lexeme.errorMark <+: '(' :: (join [',', ' '] ss ++ ')' :: tail) := by
  cases gs with
  | nil =>
    cases hleaves
    simp [Lexeme.errorMark, join]
  | cons g gs =>
    obtain ⟨s, ss, rfl, hleaf, -⟩ := leaves?_cons_eq_some hleaves
    have hnot : ∀ tail, Lexeme.Breaks tail → ¬Lexeme.errorMark <+: '(' :: (s ++ tail) := fun _ =>
      not_errorMark_leaf hleaf (hread g List.mem_cons_self)
    cases ss with
    | nil => exact hnot _ (Lexeme.breaks_cons ')' tail)
    | cons t ss =>
      have hb := Lexeme.breaks_cons ',' (' ' :: join [',', ' '] (t :: ss) ++ ')' :: tail)
      simpa [join] using hnot _ hb

section

variable {l : Layout} (hl : l.IsPlain)
include hl

theorem isHostBlank_indent (level : Nat) : ∀ c ∈ l.indent level, Lexeme.isHostBlank c = true := by
  intro c hc
  rcases List.mem_append.1 hc with hbase | hstep
  · simp [Lexeme.isHostBlank, hl.base c hbase]
  · obtain ⟨step, hmem, hc⟩ := List.mem_flatten.1 hstep
    obtain rfl := List.eq_of_mem_replicate hmem
    have hspaces : Layout.step = List.replicate 4 ' ' := rfl
    rw [hspaces] at hc
    rw [List.eq_of_mem_replicate hc]
    rfl

theorem isHostBlank_newline : ∀ c ∈ l.newline, Lexeme.isHostBlank c = true := by
  rcases hl.newline with h | h
  · rw [h]
    exact List.forall_mem_singleton.2 rfl
  · rw [h]
    exact List.forall_mem_cons.2 ⟨rfl, List.forall_mem_singleton.2 rfl⟩

theorem lineEnd_newline (r : List Char) :
    (Lexeme.lineEnd (',' :: l.newline ++ r)).2 = '\n' :: r := by
  rcases hl.newline with h | h <;> simp [h, Lexeme.lineEnd]

theorem opens_next {n : Int} {c : Cursor} {rest r : List Char}
    (hrest : rest = ',' :: l.newline ++ r ∨ rest = (Lexeme.lineEnd (',' :: l.newline ++ r)).2)
    (h : Opens n c rest) : Opens n c r := by
  rcases hrest with rfl | rfl
  · have hnext : ∀ m, Opens 0 ⟨',' :: l.newline ++ r, m⟩ r := by
      intro m
      obtain ⟨joint, span, m', hcomma⟩ := reads_comma l.newline (isHostBlank_newline hl) r m
      exact hcomma.opens
    simpa using h.trans hnext
  · rw [lineEnd_newline hl] at h
    have hnext : ∀ m, Opens 0 ⟨'\n' :: r, m⟩ r := fun m =>
      (reads_blank (by decide) r m).opens
    simpa using h.trans hnext

/-- One argument on its line: a comment takes the comma, and what stays open in the argument stays
open behind it. -/
theorem argument_line {level : Nat} {g : Generated} {r : List Char} {m : Mark}
    (houtcome : ∀ m, Outcome code g ⟨renderAt l level g ++ (',' :: l.newline ++ r), m⟩
      (',' :: l.newline ++ r)) :
    (∃ ts joint span m', g.endsInComment = false ∧ Stands code g ts ∧
      Reads ⟨l.indent level ++ (renderAt l level g ++ (',' :: l.newline ++ r)), m⟩
        (atomsOf ts ++ [.punct ',' joint span]) ⟨r, m'⟩) ∨
    (∃ ts m', g.endsInComment = true ∧ Stands code g ts ∧
      Reads ⟨l.indent level ++ (renderAt l level g ++ (',' :: l.newline ++ r)), m⟩
        (atomsOf ts) ⟨r, m'⟩) ∨
    (¬Fits g ∧
      Opens 1 ⟨l.indent level ++ (renderAt l level g ++ (',' :: l.newline ++ r)), m⟩ r) := by
  obtain ⟨m₁, hindent⟩ := reads_blanks (isHostBlank_indent hl level)
    (renderAt l level g ++ (',' :: l.newline ++ r)) m
  rcases houtcome m₁ with
    ⟨hclosed, hreads, hstands⟩ | ⟨hopen, hreads, hstands⟩ | ⟨hfits, hstuck⟩ |
      ⟨-, hfits, hrest, hopens⟩
  · obtain ⟨joint, span, m', hcomma⟩ := reads_comma l.newline (isHostBlank_newline hl) r _
    exact .inl ⟨_, joint, span, m', hclosed, hstands, hindent.trans (hreads.trans hcomma)⟩
  · rw [lineEnd_newline hl] at hreads
    have hnext := hreads.trans (reads_blank (by decide) r _)
    exact .inr (.inl ⟨_, _, hopen, hstands, by simpa using hindent.trans hnext⟩)
  · exact .inr (.inr ⟨hfits, (hstuck.of_reads hindent).opens 1 r⟩)
  · exact .inr (.inr ⟨hfits, by simpa using (opens_next hl hrest hopens).of_reads hindent⟩)

/-- Arguments on lines of their own are all read, with the commas that no comment takes, unless a
bracket stays open in one of them. -/
theorem row_lines {level : Nat} {gs : List Generated}
    (houtcome : ∀ g ∈ gs, ∀ tail, Lexeme.Breaks tail → ∀ m,
      Outcome code g ⟨renderAt l level g ++ tail, m⟩ tail)
    (after : List Char) (m : Mark) :
    (∃ us m', Row code gs us ∧
      Reads ⟨renderLines l level gs ++ after, m⟩ (atomsOf us) ⟨after, m'⟩) ∨
    ((∃ g ∈ gs, ¬Fits g) ∧ Opens 1 ⟨renderLines l level gs ++ after, m⟩ after) := by
  induction gs generalizing m with
  | nil => exact .inl ⟨[], m, .nil, .done _⟩
  | cons g gs ih =>
    have htext : renderLines l level (g :: gs) ++ after = l.indent level ++
        (renderAt l level g ++ (',' :: l.newline ++ (renderLines l level gs ++ after))) := by
      simp [renderLines]
    rw [htext]
    have ih := ih fun h hh => houtcome h (List.mem_cons_of_mem g hh)
    have hb := Lexeme.breaks_cons ',' (l.newline ++ (renderLines l level gs ++ after)) (by simp)
    have hlater : (∃ h ∈ gs, ¬Fits h) → ∃ h ∈ g :: gs, ¬Fits h := by
      intro hfits
      obtain ⟨h, hh, hfits⟩ := hfits
      exact ⟨h, List.mem_cons_of_mem g hh, hfits⟩
    rcases argument_line hl (m := m) (houtcome g List.mem_cons_self _ hb) with
      ⟨ts, joint, span, m₁, hclosed, hstands, hreads⟩ | ⟨ts, m₁, hopen, hstands, hreads⟩ |
        ⟨hfits, hopens⟩
    · rcases ih m₁ with ⟨us, m₂, hrow, hreads'⟩ | ⟨hfits, hopens⟩
      · refine .inl ⟨ts ++ .punct ',' joint span :: us, m₂, .closed hstands hclosed hrow, ?_⟩
        simpa [TokenTree.atoms] using hreads.trans hreads'
      · have := hopens.of_reads hreads
        exact .inr ⟨hlater hfits, by simpa [depth_atomsOf, Atom.depth] using this⟩
    · rcases ih m₁ with ⟨us, m₂, hrow, hreads'⟩ | ⟨hfits, hopens⟩
      · refine .inl ⟨ts ++ us, m₂, ?_, by simpa using hreads.trans hreads'⟩
        cases gs with
        | nil =>
          cases hrow
          simpa using Row.last hstands
        | cons h gs => exact .commented hstands hopen hrow
      · have := hopens.of_reads hreads
        exact .inr ⟨hlater hfits, by simpa [depth_atomsOf] using this⟩
    · have hafter : ∀ m, Opens 0 ⟨renderLines l level gs ++ after, m⟩ after := by
        intro m
        rcases ih m with ⟨us, m', -, hreads⟩ | ⟨-, hopens⟩
        · simpa [depth_atomsOf] using hreads.opens
        · exact hopens.mono (by decide)
      exact .inr ⟨⟨g, List.mem_cons_self, hfits⟩, by simpa using hopens.trans hafter⟩

end

section

variable {function : Host.Path} {arguments : List Generated}

theorem stands_call {front us : List TokenTree} {opening closing : Span}
    (hp : function.IsWritten) (hfront : SameTokens (function.toTree true).tokens front)
    (hus : SpellsAll code arguments us ↔ Fits (.call function arguments)) :
    Stands code (.call function arguments)
      (front ++ [.group .parenthesis us opening closing]) where
  length_eq := by simp [width, hfront.length_eq]
  begins := ((Host.Path.beginsArgument hp).of_sameTokens hfront).append _
  spells_iff := by
    rw [← hus]
    constructor
    · intro h
      generalize hts : front ++ [TokenTree.group .parenthesis us opening closing] = ts at h
      cases h with
      | call _ hinner =>
        obtain ⟨-, hgroup⟩ := List.append_inj' hts rfl
        obtain ⟨-, rfl, -⟩ := TokenTree.group.inj (List.cons.inj hgroup).1
        exact hinner
    · exact .call hfront

theorem outcome_of_arguments (hread : Readable code (.call function arguments))
    {r tail : List Char} (hmark : ¬Lexeme.errorMark <+: '(' :: r)
    (h : ∀ m, (∃ us m', (SpellsAll code arguments us ↔ Fits (.call function arguments)) ∧
        Reads ⟨r, m⟩ (atomsOf us) ⟨')' :: tail, m'⟩) ∨
      ∃ rest, ¬Fits (.call function arguments) ∧
        (rest = tail ∨ rest = (Lexeme.lineEnd tail).2) ∧ Opens 0 ⟨r, m⟩ rest)
    (m : Mark) :
    Outcome code (.call function arguments) ⟨function.text ++ '(' :: r, m⟩ tail := by
  obtain ⟨⟨hp, hplain, -⟩, -⟩ := hread
  obtain ⟨front, m₁, hpath, hfront⟩ :=
    reads_path_tokens hp hplain (Lexeme.breaks_cons '(' r (by simp)) m
  have hopening := hpath.trans (reads_opening (d := .parenthesis) hmark m₁)
  rcases h _ with ⟨us, m₂, hus, hreads⟩ | ⟨rest, hfits, hrest, hopens⟩
  · have hall := (hopening.trans hreads).trans (reads_closing .parenthesis tail m₂)
    exact .through rfl (by simpa [TokenTree.atoms] using hall) (stands_call hp hfront hus)
  · -- The parenthesis is open, and no other closes it before `rest`.
    have := hopens.of_reads hopening
    exact .unclosed rfl hfits hrest (by simpa [depth_atomsOf, Atom.depth] using this)

theorem outcome_inline {line : List Char} (hline : inline? arguments = some line)
    (hread : Readable code (.call function arguments)) (tail : List Char) (m : Mark) :
    Outcome code (.call function arguments) ⟨function.text ++ '(' :: (line ++ ')' :: tail), m⟩
      tail := by
  have hexposed : exposed arguments = arguments := by simp [exposed, hline]
  obtain ⟨ss, hleaves, rfl⟩ := inline?_eq_some hline
  have hlines : 2 ≤ arguments.length → ∀ s ∈ ss, '\n' ∉ s := by
    intro htwo s hs
    obtain ⟨g, hg, hleaf⟩ := exists_leaf_of_mem hleaves hs
    exact hread.1.2.2 htwo g hg s hleaf
  have hmark := not_errorMark_inline hleaves (allOf_iff.1 hread.2) tail
  refine outcome_of_arguments hread hmark (fun m => ?_) m
  rcases row_inline hleaves (allOf_iff.1 hread.2) hlines tail m with
    ⟨hclosed, us, m', hrow, hreads⟩ | ⟨⟨g, hg, hlost⟩, hopens⟩
  · refine .inl ⟨us, m', ?_, hreads⟩
    rw [hrow.spells_iff, fits_call_iff, hexposed]
    exact and_congr_left fun _ => iff_of_true
      (fun g hg => hclosed g (List.dropLast_subset _ hg)) hclosed
  · refine .inr ⟨_, ?_, .inr rfl, hopens⟩
    rw [fits_call_iff, hexposed]
    rintro ⟨hclosed, hfits⟩
    rcases hlost with hopen | hnot
    · exact absurd (hclosed g hg) (by simp [hopen])
    · exact hnot (hfits g hg)

theorem outcome_broken {l : Layout} (hl : l.IsPlain) {level : Nat}
    (hbroken : inline? arguments = none) (hread : Readable code (.call function arguments))
    (houtcome : ∀ g ∈ arguments, ∀ tail, Lexeme.Breaks tail → ∀ m,
      Outcome code g ⟨renderAt l (level + 1) g ++ tail, m⟩ tail)
    (tail : List Char) (m : Mark) :
    Outcome code (.call function arguments) ⟨function.text ++ '(' :: (l.newline ++
      (renderLines l (level + 1) arguments ++ (l.indent level ++ ')' :: tail))), m⟩ tail := by
  have hexposed : exposed arguments = arguments.dropLast := by simp [exposed, hbroken]
  have hmark : ∀ r, ¬Lexeme.errorMark <+: '(' :: (l.newline ++ r) := by
    intro r
    rcases hl.newline with h | h <;> simp [h, Lexeme.errorMark]
  refine outcome_of_arguments hread (hmark _) (fun m => ?_) m
  obtain ⟨m₁, hnewline⟩ := reads_blanks (isHostBlank_newline hl)
    (renderLines l (level + 1) arguments ++ (l.indent level ++ ')' :: tail)) m
  have hindent := reads_blanks (isHostBlank_indent hl level) (')' :: tail)
  rcases row_lines hl houtcome (l.indent level ++ ')' :: tail) m₁ with
    ⟨us, m₂, hrow, hreads⟩ | ⟨⟨g, hg, hnot⟩, hopens⟩
  · obtain ⟨m₃, hindent⟩ := hindent m₂
    refine .inl ⟨us, m₃, ?_, by simpa using hnewline.trans (hreads.trans hindent)⟩
    rw [hrow.spells_iff, fits_call_iff, hexposed]
  · have hclosing : ∀ m, Opens (-1) ⟨l.indent level ++ ')' :: tail, m⟩ tail := by
      intro m
      obtain ⟨m', hindent⟩ := hindent m
      exact (hindent.trans (reads_closing .parenthesis tail m')).opens
    refine .inr ⟨tail, fun hfits => hnot ((fits_call_iff.1 hfits).2 g hg), .inl rfl, ?_⟩
    simpa using (hopens.trans hclosing).of_reads hnewline

end

mutual

theorem outcome_renderAt {l : Layout} (hl : l.IsPlain) {g : Generated}
    (hread : Readable code g) (level : Nat) {tail : List Char}
    (hb : Lexeme.Breaks tail ∨ g.leaf? = none) (m : Mark) :
    Outcome code g ⟨renderAt l level g ++ tail, m⟩ tail := by
  cases g with
  | str value => exact outcome_leaf rfl hread (hb.resolve_right (by simp [leaf?])) m
  | host expr source => exact outcome_leaf rfl hread (hb.resolve_right (by simp [leaf?])) m
  | call function arguments =>
    cases hline : inline? arguments with
    | some line => simpa [renderAt, hline] using outcome_inline hline hread tail m
    | none =>
      have houtcome := outcome_all hl (allOf_iff.1 hread.2) (level + 1)
      simpa [renderAt, hline] using outcome_broken hl hline hread houtcome tail m

theorem outcome_all {l : Layout} (hl : l.IsPlain) {gs : List Generated}
    (hread : ∀ g ∈ gs, Readable code g) (level : Nat) :
    ∀ g ∈ gs, ∀ tail, Lexeme.Breaks tail → ∀ m,
      Outcome code g ⟨renderAt l level g ++ tail, m⟩ tail := by
  cases gs with
  | nil => simp
  | cons g gs =>
    obtain ⟨hg, hgs⟩ := List.forall_mem_cons.1 hread
    exact List.forall_mem_cons.2
      ⟨fun tail hb m => outcome_renderAt hl hg level (.inl hb) m, outcome_all hl hgs level⟩

end

end Generated

end InlineMarkup
