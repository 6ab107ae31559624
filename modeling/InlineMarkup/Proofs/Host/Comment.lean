import InlineMarkup.Proofs.Host.Naming

/-!
Reading a text with more behind it. What is read from a text by itself is read from it again, unless
it ends in a line comment: then the comment goes on to the end of the line.
-/

set_option autoImplicit false

namespace InlineMarkup.Host.Lexeme

open InlineMarkup.Text

theorem lineEnd_append_of_mem {s : List Char} (h : '\n' ∈ s) (t : List Char) :
    lineEnd (s ++ t) = ((lineEnd s).1, (lineEnd s).2 ++ t) := by
  fun_induction lineEnd s with
  | case1 => simp at h
  | case2 s => simp [lineEnd]
  | case3 s => simp [lineEnd]
  | case4 c s hfeed hreturn ih =>
    have hs : '\n' ∈ s := by
      rcases List.mem_cons.1 h with rfl | hs
      · exact absurd rfl hfeed
      · exact hs
    have hnot : ∀ r, c = '\r' → s ++ t ≠ '\n' :: r := by
      rintro r rfl heq
      cases s with
      | nil => cases hs
      | cons d s =>
        obtain ⟨rfl, -⟩ := List.cons.inj heq
        exact hreturn s rfl rfl
    rw [List.cons_append, lineEnd, ih hs]
    · exact hfeed
    · exact fun r hc heq => hnot r hc heq

theorem lineEnd_append_of_not_mem {s : List Char} (h : '\n' ∉ s) (t : List Char) :
    (lineEnd (s ++ t)).2 = (lineEnd t).2 := by
  induction s with
  | nil => rfl
  | cons c s ih =>
    obtain ⟨hc, hs⟩ := not_or.1 (mt List.mem_cons.2 h)
    by_cases hreturn : c = '\r' ∧ ∃ r, s ++ t = '\n' :: r
    · obtain ⟨rfl, r, hr⟩ := hreturn
      rw [List.cons_append, hr, ← ih hs, hr]
      simp [lineEnd]
    · rw [List.cons_append, lineEnd, ih hs]
      · exact Ne.symm hc
      · exact fun r hret heq => hreturn ⟨hret, r, heq⟩

theorem lineEnd_append_break {s tail : List Char} (h : '\n' ∉ s) (hb : Breaks tail) :
    lineEnd (s ++ tail) = (s ++ (lineEnd tail).1, (lineEnd tail).2) := by
  induction s with
  | nil => rfl
  | cons c s ih =>
    obtain ⟨hc, hs⟩ := not_or.1 (mt List.mem_cons.2 h)
    have hnot : ∀ r, s ++ tail ≠ '\n' :: r := by
      intro r heq
      cases s with
      | nil =>
        have := hb.head (p := (· == '\n')) (List.all_iff_forall_prop.1 (by decide)) heq
        cases this
      | cons d s =>
        obtain ⟨rfl, -⟩ := List.cons.inj heq
        exact hs List.mem_cons_self
    rw [List.cons_append, lineEnd, ih hs]
    · rfl
    · exact Ne.symm hc
    · exact fun r _ heq => hnot r heq

theorem blockCommentFrom_append {depth : Nat} {s rest : List Char}
    (h : blockCommentFrom depth s = some rest) (t : List Char) :
    blockCommentFrom depth (s ++ t) = some (rest ++ t) := by
  fun_induction blockCommentFrom depth s with
  | case1 depth s ih => simpa [blockCommentFrom] using ih h
  | case2 depth s hdepth =>
    cases h
    simp [blockCommentFrom, hdepth]
  | case3 depth s hdepth ih => simpa [blockCommentFrom, hdepth] using ih h
  | case4 depth c s hopen hclose ih =>
    cases s with
    | nil => cases h
    | cons d s =>
      rw [List.cons_append, List.cons_append, blockCommentFrom]
      · exact ih h
      · rintro r rfl heq
        obtain ⟨rfl, -⟩ := List.cons.inj heq
        exact hopen _ rfl rfl
      · rintro r rfl heq
        obtain ⟨rfl, -⟩ := List.cons.inj heq
        exact hclose _ rfl rfl
  | case5 => cases h

theorem blockComment?_append {s rest : List Char} (h : blockComment? s = some rest)
    (t : List Char) : blockComment? (s ++ t) = some (rest ++ t) := by
  unfold blockComment? at h
  split at h
  · exact blockCommentFrom_append h t
  · cases h

def startsLineComment (s : List Char) : Bool :=
  ['/', '/'].isPrefixOf s

/-- Four characters tell what kind of comment begins. -/
theorem plainComment?_cons (a b c d : Char) (s : List Char) :
    plainComment? (a :: b :: c :: d :: s) =
      if a = '/' ∧ b = '/' then
        if c = '!' ∨ (c = '/' ∧ d ≠ '/') then none else some (lineEnd (a :: b :: c :: d :: s)).2
      else if a = '/' ∧ b = '*' then
        if c = '*' ∧ d = '/' then some s
        else if c = '!' ∨ (c = '*' ∧ d ≠ '*') then none
        else blockComment? (a :: b :: c :: d :: s)
      else none := by
  by_cases ha : a = '/'
  · by_cases hslash : b = '/'
    · by_cases hc : c = '!'
      · simp [plainComment?, ha, hslash, hc]
      · by_cases hc' : c = '/' <;> by_cases hd : d = '/' <;>
          simp [plainComment?, ha, hslash, hc, hc', hd]
    · by_cases hstar : b = '*'
      · by_cases hc : c = '!'
        · simp [plainComment?, ha, hstar, hc]
        · by_cases hc' : c = '*'
          · by_cases hd : d = '/' <;> by_cases hd' : d = '*' <;>
              simp [plainComment?, ha, hstar, hc', hd, hd']
          · simp [plainComment?, ha, hstar, hc, hc']
      · simp [plainComment?, ha, hslash, hstar]
  · simp [plainComment?, ha]

theorem docCommentText?_cons (a b c d : Char) (s : List Char) :
    docCommentText? (a :: b :: c :: d :: s) =
      if a = '/' ∧ b = '/' then
        if c = '!' then some ⟨(lineEnd (d :: s)).1, true, (lineEnd (d :: s)).2⟩
        else if c = '/' ∧ d ≠ '/' then some ⟨(lineEnd (d :: s)).1, false, (lineEnd (d :: s)).2⟩
        else none
      else if a = '/' ∧ b = '*' then
        if c = '!' ∨ (c = '*' ∧ d ≠ '*') then
          (blockComment? (a :: b :: c :: d :: s)).map fun rest =>
            ⟨blockContent (a :: b :: c :: d :: s) rest, c == '!', rest⟩
        else none
      else none := by
  by_cases ha : a = '/'
  · by_cases hslash : b = '/'
    · by_cases hc : c = '!'
      · simp [docCommentText?, ha, hslash, hc]
      · by_cases hc' : c = '/' <;> by_cases hd : d = '/' <;>
          simp [docCommentText?, ha, hslash, hc, hc', hd]
    · by_cases hstar : b = '*'
      · by_cases hc : c = '!'
        · simp [docCommentText?, ha, hstar, hc]
        · by_cases hc' : c = '*'
          · by_cases hd : d = '*' <;> simp [docCommentText?, ha, hstar, hc', hd]
          · simp [docCommentText?, ha, hstar, hc, hc']
      · simp [docCommentText?, ha, hslash, hstar]
  · simp [docCommentText?, ha]

theorem four_of_comment {s : List Char}
    (h : (plainComment? s).isSome = true ∨ (docCommentText? s).isSome = true)
    (hline : startsLineComment s = true → '\n' ∈ s) :
    s = ['/', '/', '\n'] ∨ ∃ a b c d r, s = a :: b :: c :: d :: r := by
  rcases s with _ | ⟨a, _ | ⟨b, _ | ⟨c, _ | ⟨d, r⟩⟩⟩⟩
  · simp [plainComment?, docCommentText?] at h
  · simp [plainComment?, docCommentText?] at h
  · by_cases ha : a = '/'
    · by_cases hb : b = '/'
      · have := hline (by simp [startsLineComment, ha, hb])
        simp [ha, hb] at this
      · by_cases hstar : b = '*' <;>
          simp [plainComment?, docCommentText?, ha, hb, hstar, blockComment?, blockCommentFrom] at h
    · simp [plainComment?, docCommentText?, ha] at h
  · by_cases ha : a = '/'
    · by_cases hb : b = '/'
      · have := hline (by simp [startsLineComment, ha, hb])
        simp only [ha, hb, List.mem_cons, List.not_mem_nil, or_false] at this
        rcases this with h | h | rfl
        · cases h
        · cases h
        · exact .inl (by rw [ha, hb])
      · by_cases hstar : b = '*'
        · by_cases hc : c = '!' <;> by_cases hc' : c = '*' <;>
            simp [plainComment?, docCommentText?, ha, hstar, hc, hc', blockComment?,
              blockCommentFrom] at h
        · simp [plainComment?, docCommentText?, ha, hb, hstar] at h
    · simp [plainComment?, docCommentText?, ha] at h
  · exact .inr ⟨a, b, c, d, r, rfl⟩

theorem plainComment?_append {s rest : List Char} (h : plainComment? s = some rest)
    (hline : startsLineComment s = true → '\n' ∈ s) (t : List Char) :
    plainComment? (s ++ t) = some (rest ++ t) := by
  rcases four_of_comment (.inl (by simp [h])) hline with rfl | ⟨a, b, c, d, r, rfl⟩
  · cases h
    rfl
  · rw [plainComment?_cons] at h
    simp only [List.cons_append]
    rw [plainComment?_cons]
    split at h
    · rename_i hslash
      rw [if_pos hslash]
      have hend := lineEnd_append_of_mem (hline (by simp [startsLineComment, hslash])) t
      simp only [List.cons_append] at hend
      split at h
      · cases h
      · rename_i hdoc
        cases h
        rw [if_neg hdoc, hend]
    · rename_i hslash
      rw [if_neg hslash]
      split at h
      · rename_i hstar
        rw [if_pos hstar]
        split at h
        · cases h
          rw [if_pos ‹_›]
        · rw [if_neg ‹_›]
          split at h
          · cases h
          · rw [if_neg ‹_›]
            exact blockComment?_append h t
      · cases h

theorem docCommentText?_append {s : List Char} {doc : DocComment}
    (h : docCommentText? s = some doc) (hline : startsLineComment s = true → '\n' ∈ s)
    (t : List Char) :
    docCommentText? (s ++ t) = some { doc with rest := doc.rest ++ t } := by
  rcases four_of_comment (.inr (by simp [h])) hline with rfl | ⟨a, b, c, d, r, rfl⟩
  · cases h
  · rw [docCommentText?_cons] at h
    simp only [List.cons_append]
    rw [docCommentText?_cons]
    split at h
    · rename_i hslash
      rw [if_pos hslash]
      have hmem := hline (by simp [startsLineComment, hslash])
      split at h
      · rename_i hc
        have hend := lineEnd_append_of_mem (s := d :: r) (by simpa [hslash, hc] using hmem) t
        cases h
        rw [if_pos hc, ← List.cons_append, hend]
      · rename_i hc
        rw [if_neg hc]
        split at h
        · rename_i hdoc
          have hend := lineEnd_append_of_mem (s := d :: r) (by simpa [hslash, hdoc] using hmem) t
          cases h
          rw [if_pos hdoc, ← List.cons_append, hend]
        · cases h
    · rename_i hslash
      rw [if_neg hslash]
      split at h
      · rename_i hstar
        rw [if_pos hstar]
        split at h
        · obtain ⟨rest, hrest, hdoc⟩ := Option.map_eq_some_iff.1 h
          cases hdoc
          have happend := blockComment?_append hrest t
          have hbefore := before_append_append (a :: b :: c :: d :: r) rest t
          simp only [List.cons_append] at happend hbefore
          rw [if_pos ‹_›, happend, Option.map_some, blockContent, blockContent, hbefore]
        · cases h
      · cases h

theorem docComment?_append {s : List Char} {doc : DocComment} (h : docComment? s = some doc)
    (hline : startsLineComment s = true → '\n' ∈ s) (t : List Char) :
    docComment? (s ++ t) = some { doc with rest := doc.rest ++ t } := by
  obtain ⟨doc', hdoc, h⟩ := Option.bind_eq_some_iff.1 h
  split at h
  · rename_i hfree
    cases h
    simp [docComment?, docCommentText?_append hdoc hline t, hfree]
  · cases h

theorem plainComment?_error (t : List Char) :
    plainComment? ("/*ERROR*/".toList ++ t) = some t := by
  have h : plainComment? "/*ERROR*/".toList = some [] := by decide
  exact plainComment?_append h (by decide) t

theorem plainComment?_append_eq_none {s : List Char} (h : plainComment? s = none)
    (hdoc : (docCommentText? s).isSome = true) (hline : startsLineComment s = true → '\n' ∈ s)
    (t : List Char) : plainComment? (s ++ t) = none := by
  rcases four_of_comment (.inr hdoc) hline with rfl | ⟨a, b, c, d, r, rfl⟩
  · cases hdoc
  · rw [plainComment?_cons] at h
    simp only [List.cons_append]
    rw [plainComment?_cons]
    split at h
    · rename_i hslash
      rw [if_pos hslash]
      split at h
      · rw [if_pos ‹_›]
      · cases h
    · rename_i hslash
      rw [if_neg hslash]
      split at h
      · rename_i hstar
        rw [if_pos hstar]
        split at h
        · cases h
        · rw [if_neg ‹_›]
          split at h
          · rw [if_pos ‹_›]
          · rename_i hkind
            rw [docCommentText?_cons, if_neg hslash, if_pos hstar, if_neg hkind] at hdoc
            cases hdoc
      · rw [if_neg ‹_›]

end InlineMarkup.Host.Lexeme

namespace InlineMarkup.Host

open InlineMarkup.Text
open TokenTree (atomsOf)

theorem Cursor.advance?_plain {c : Cursor} {rest : List Char}
    (h : Lexeme.plainComment? c.rest = some rest) : c.advance? = some ([], c.moveTo rest) := by
  simp only [advance?, h]

theorem Cursor.advance?_doc {c : Cursor} {doc : Lexeme.DocComment}
    (hplain : Lexeme.plainComment? c.rest = none) (h : Lexeme.docComment? c.rest = some doc) :
    c.advance? =
      some (atomsOf (docTokens doc ⟨c.mark, (c.moveTo doc.rest).mark⟩), c.moveTo doc.rest) := by
  cases hrest : c.rest with
  | nil =>
    rw [hrest] at h
    cases h
  | cons char r =>
    rw [hrest] at h hplain
    obtain rfl : char = '/' := by
      by_contra hne
      rw [(Lexeme.no_comment (.inl hne)).2] at h
      cases h
    have hblank : Lexeme.isHostBlank '/' = false := by decide
    simp only [advance?, hrest, hplain, h, hblank, Bool.false_eq_true, if_false]

theorem matches_docTokens (doc : Lexeme.DocComment) (rest : List Char) (span span' : Span) :
    List.Forall₂ Atom.Matches (atomsOf (docTokens doc span))
      (atomsOf (docTokens { doc with rest } span')) := by
  cases h : doc.inner <;> simp [docTokens, h, TokenTree.atoms, Atom.Matches]

section

variable {tail : List Char} (hb : Lexeme.Stops tail)
include hb

theorem leaf?_append {c next : Cursor} {t : TokenTree} (h : leaf? c = some (t, next)) (m : Mark) :
    ∃ t' m', leaf? ⟨c.rest ++ tail, m⟩ = some (t', ⟨next.rest ++ tail, m'⟩) ∧
      List.Forall₂ Atom.Matches t.atoms t'.atoms := by
  let d : Cursor := ⟨c.rest ++ tail, m⟩
  unfold leaf? at h
  split at h
  · rename_i rest hrest
    cases h
    have hleaf : leaf? d = some (.literal (Lexeme.before d.rest (rest ++ tail))
        ⟨m, (d.moveTo (rest ++ tail)).mark⟩, d.moveTo (rest ++ tail)) := by
      simp only [leaf?, d, Lexeme.literal?_append_stop hb hrest]
    refine ⟨_, _, hleaf, .cons ?_ .nil⟩
    exact (Lexeme.before_append_append c.rest rest tail).symm
  · split at h
    · rename_i char joint rest hrest
      cases h
      obtain ⟨joint', hjoint, hrest'⟩ := Lexeme.punct?_append_stop hb hrest
      have hleaf : leaf? d = some (.punct char joint' ⟨m, (d.moveTo (rest ++ tail)).mark⟩,
          d.moveTo (rest ++ tail)) := by
        simp only [leaf?, d, (Lexeme.of_punct? hrest').1, hrest']
      exact ⟨_, _, hleaf, .cons ⟨rfl, hjoint⟩ .nil⟩
    · split at h
      · rename_i rest hrest
        cases h
        have hrest' : Lexeme.word? (c.rest ++ tail) = some (rest ++ tail) := by
          rw [Lexeme.word?_append_stop hb, hrest]
          rfl
        obtain ⟨hliteral, hpunct⟩ := Lexeme.of_word? hrest'
        have hleaf : leaf? d = some (.word (Lexeme.before d.rest (rest ++ tail))
            ⟨m, (d.moveTo (rest ++ tail)).mark⟩, d.moveTo (rest ++ tail)) := by
          simp only [leaf?, d, hliteral, hpunct, hrest']
        refine ⟨_, _, hleaf, .cons ?_ .nil⟩
        exact (Lexeme.before_append_append c.rest rest tail).symm
      · split at h
        · rename_i hmark
          cases h
          obtain ⟨rest, hrest⟩ := List.isPrefixOf_iff_prefix.1 hmark
          have hdrop : c.rest.drop Lexeme.errorMark.length = rest := by rw [← hrest, List.drop_left]
          have hleaf := leaf?_errorMark (rest ++ tail) m
          rw [← List.append_assoc, hrest] at hleaf
          rw [hdrop]
          exact ⟨_, _, hleaf, .cons rfl .nil⟩
        · cases h

theorem opening?_append {s : List Char} {d : Delimiter} (h : opening? s = some d)
    (hmark : s ≠ '(' :: "/*ERROR*/".toList) : opening? (s ++ tail) = some d := by
  obtain ⟨⟨r, rfl⟩, hnot⟩ := opening?_eq_some_iff.1 h
  refine opening?_eq_some_iff.2 ⟨⟨r ++ tail, rfl⟩, fun hp => hnot ?_⟩
  exact Lexeme.errorMark_of_append_stop hb (by simp) hmark hp

/-- A step reads the same with more text behind, unless it reads an open line comment or a
parenthesis that becomes part of the mark of an error. -/
theorem Cursor.advance?_append {c next : Cursor} {as : List Atom}
    (h : c.advance? = some (as, next))
    (hline : Lexeme.startsLineComment c.rest = true → '\n' ∈ c.rest)
    (hmark : c.rest ≠ '(' :: "/*ERROR*/".toList) (m : Mark) :
    ∃ bs m', (Cursor.mk (c.rest ++ tail) m).advance? = some (bs, ⟨next.rest ++ tail, m'⟩) ∧
      List.Forall₂ Atom.Matches as bs := by
  unfold Cursor.advance? at h
  split at h
  · rename_i rest hrest
    cases h
    exact ⟨[], _, advance?_plain (Lexeme.plainComment?_append hrest hline tail), .nil⟩
  · rename_i hplain
    split at h
    · cases h
    · rename_i char rest hrest
      simp only at h
      split at h
      · rename_i hblank
        cases h
        exact ⟨[], _, advance?_blank (by rw [hrest]; rfl) hblank, .nil⟩
      · rename_i hblank
        split at h
        · rename_i doc hdoc
          cases h
          have htext : (Lexeme.docCommentText? c.rest).isSome = true := by
            obtain ⟨d, hd, -⟩ := Option.bind_eq_some_iff.1 hdoc
            simp [hd]
          have hplain' := Lexeme.plainComment?_append_eq_none hplain htext hline tail
          have hdoc' := Lexeme.docComment?_append hdoc hline tail
          exact ⟨_, _, advance?_doc hplain' hdoc', matches_docTokens doc (doc.rest ++ tail) _ _⟩
        · split at h
          · rename_i d hopen
            cases h
            rw [← hrest] at hopen
            exact ⟨_, _, advance?_opening (by rw [hrest]; rfl) (opening?_append hb hopen hmark),
              .cons rfl .nil⟩
          · split at h
            · rename_i d hclose
              cases h
              exact ⟨_, _, advance?_closing (by rw [hrest]; rfl) hclose, .cons rfl .nil⟩
            · obtain ⟨⟨t, n⟩, hleaf, h⟩ := Option.map_eq_some_iff.1 h
              cases h
              obtain ⟨t', m', hleaf', hmatches⟩ := leaf?_append hb hleaf m
              exact ⟨_, m', advance?_leaf hleaf', hmatches⟩

end

def Lexeme.isOpenComment (s : List Char) : Bool :=
  startsLineComment s && !s.contains '\n'

def Cursor.openComment? : Nat → Cursor → Option (List Char)
  | 0, _ => none
  | fuel + 1, c =>
    if Lexeme.isOpenComment c.rest then some c.rest
    else
      match c.advance? with
      | some (_, next) => openComment? fuel next
      | none => none

/-- The line comment that a text ends in, if no line feed ends it. -/
def openComment? (s : List Char) : Option (List Char) :=
  Cursor.openComment? s.length ⟨s, Mark.first⟩

theorem Lexeme.of_isOpenComment {s : List Char} (h : isOpenComment s = true) :
    ∃ r, s = '/' :: '/' :: r ∧ '\n' ∉ r := by
  simp only [isOpenComment, startsLineComment, Bool.and_eq_true, Bool.not_eq_true',
    List.isPrefixOf_iff_prefix] at h
  obtain ⟨⟨r, rfl⟩, hfeed⟩ := h
  refine ⟨r, rfl, fun hmem => ?_⟩
  simp [hmem] at hfeed

theorem Reads.eq_opening {c : Cursor} {as : List Atom} {e : Mark} (h : Reads c as ⟨[], e⟩)
    (hrest : c.rest = '(' :: "/*ERROR*/".toList) : ∃ span, as = [.opening .parenthesis span] := by
  have hopen : opening? c.rest = some .parenthesis := by
    rw [hrest]
    rfl
  have hcomment : Lexeme.plainComment? "/*ERROR*/".toList = some [] := by
    simpa using Lexeme.plainComment?_error []
  obtain ⟨bs, rfl, hbs⟩ := (Reads.single (Cursor.advance?_opening hrest hopen)).of_end h
  obtain ⟨cs, rfl, hcs⟩ := (Reads.single (Cursor.advance?_plain hcomment)).of_end hbs
  exact ⟨_, by rw [hcs.eq_nil_of_end]; rfl⟩

/-- What is read from a text by itself is read from it again, up to the comment it ends in. -/
theorem Reads.append_stop {tail : List Char} (hb : Lexeme.Stops tail) {fuel : Nat} {c : Cursor}
    {as : List Atom} {e : Mark} (hfuel : c.rest.length ≤ fuel) (h : Reads c as ⟨[], e⟩)
    (hclosed : ∀ front d span, as ≠ front ++ [.opening d span]) (m : Mark) :
    (c.openComment? fuel = none ∧ ∃ bs m', Reads ⟨c.rest ++ tail, m⟩ bs ⟨tail, m'⟩ ∧
      List.Forall₂ Atom.Matches as bs) ∨
    ∃ w us vs d bs m', c.openComment? fuel = some w ∧ Lexeme.isOpenComment w = true ∧
      as = us ++ vs ∧ Reads ⟨w, d⟩ vs ⟨[], e⟩ ∧ Reads ⟨c.rest ++ tail, m⟩ bs ⟨w ++ tail, m'⟩ ∧
      List.Forall₂ Atom.Matches us bs := by
  induction fuel generalizing c as m with
  | zero =>
    obtain ⟨rest, mark⟩ := c
    obtain rfl : rest = [] := List.eq_nil_of_length_eq_zero (by simpa using hfuel)
    obtain rfl := h.eq_nil_of_end
    exact .inl ⟨rfl, [], m, .done _, .nil⟩
  | succ fuel ih =>
    by_cases hopen : Lexeme.isOpenComment c.rest = true
    · exact .inr ⟨c.rest, [], as, c.mark, [], m, by simp [Cursor.openComment?, hopen], hopen, rfl, h,
        .done _, .nil⟩
    · cases h with
      | done => exact .inl ⟨rfl, [], m, .done _, .nil⟩
      | @step _ next _ as bs ha hrest =>
        have hline : Lexeme.startsLineComment c.rest = true → '\n' ∈ c.rest := by
          intro hstarts
          simpa [Lexeme.isOpenComment, hstarts] using hopen
        have hmark : c.rest ≠ '(' :: "/*ERROR*/".toList := by
          intro hmark
          obtain ⟨span, heq⟩ := (Reads.step ha hrest).eq_opening hmark
          exact hclosed [] .parenthesis span heq
        have hclosed' : ∀ front d span, bs ≠ front ++ [.opening d span] := by
          rintro front d span rfl
          exact hclosed (as ++ front) d span (by simp)
        obtain ⟨cs, m', hstep, hmatches⟩ := Cursor.advance?_append hb ha hline hmark m
        have hlength := (advance?_shortens ha).1.length_lt
        have hfind : c.openComment? (fuel + 1) = next.openComment? fuel := by
          simp [Cursor.openComment?, hopen, ha]
        rw [hfind]
        rcases ih (by omega) hrest hclosed' m' with ⟨hnone, ds, m'', hreads, hds⟩ |
          ⟨w, us, vs, d, ds, m'', hw, hwopen, rfl, hcomment, hreads, hds⟩
        · exact .inl ⟨hnone, cs ++ ds, m'', .step hstep hreads, List.rel_append hmatches hds⟩
        · exact .inr ⟨w, as ++ us, vs, d, cs ++ ds, m'', hw, hwopen, by simp, hcomment,
            .step hstep hreads, List.rel_append hmatches hds⟩

theorem Lexeme.lineEnd_of_not_mem {s : List Char} (h : '\n' ∉ s) : lineEnd s = (s, []) := by
  fun_induction lineEnd s with
  | case1 => rfl
  | case2 s => simp at h
  | case3 s => simp at h
  | case4 c s hfeed hreturn ih =>
    obtain ⟨-, hs⟩ := not_or.1 (mt List.mem_cons.2 h)
    rw [ih hs]

/-- An open comment documents nothing, with or without more text behind it, or its content goes on
to the end of the line. -/
theorem Lexeme.open_comment_cases {w tail : List Char} (h : isOpenComment w = true)
    (hb : Breaks tail) :
    (plainComment? w = some [] ∧ plainComment? (w ++ tail) = some (lineEnd tail).2) ∨
    (plainComment? w = none ∧ plainComment? (w ++ tail) = none ∧
      ∃ content inner, docCommentText? w = some ⟨content, inner, []⟩ ∧
        docCommentText? (w ++ tail) =
          some ⟨content ++ (lineEnd tail).1, inner, (lineEnd tail).2⟩) := by
  obtain ⟨r, rfl, hr⟩ := of_isOpenComment h
  have hplain : (lineEnd ('/' :: '/' :: r)).2 = [] := by
    rw [lineEnd_of_not_mem (by simpa using hr)]
  have hplain' : (lineEnd ('/' :: '/' :: (r ++ tail))).2 = (lineEnd tail).2 :=
    lineEnd_append_of_not_mem (s := '/' :: '/' :: r) (by simpa using hr) tail
  have hstop : ∀ c t, tail = c :: t → c ≠ '!' ∧ c ≠ '/' := by
    intro c t htail
    have := hb.head (p := fun c => c == '!' || c == '/') (List.all_iff_forall_prop.1 (by decide))
      htail
    simpa using this
  obtain ⟨c, t, htail, -⟩ := id hb
  obtain ⟨hbang, hslash⟩ := hstop c t htail
  -- the third and the fourth character tell the kind of comment, and the tail may bring them in
  rcases r with _ | ⟨a, r⟩
  · refine .inl ⟨rfl, ?_⟩
    simp only [htail, List.cons_append, List.nil_append] at hplain' ⊢
    simp [plainComment?, hbang, hslash, hplain']
  · simp only [List.cons_append] at hplain' ⊢
    obtain ⟨-, hr⟩ := not_or.1 (mt List.mem_cons.2 hr)
    by_cases ha : a = '!'
    · refine .inr ⟨by simp [plainComment?, ha], by simp [plainComment?, ha], r, true, ?_, ?_⟩
      · simp [docCommentText?, ha, lineEnd_of_not_mem hr]
      · simp [docCommentText?, ha, lineEnd_append_break hr hb]
    · by_cases ha' : a = '/'
      · rcases r with _ | ⟨b, r⟩
        · refine .inr ⟨by simp [plainComment?, ha'], ?_, [], false, ?_, ?_⟩
          · simp [plainComment?, ha', htail, hslash]
          · simp [docCommentText?, ha', lineEnd]
          · simp [docCommentText?, ha', htail, hslash]
        · by_cases hb' : b = '/'
          · refine .inl ⟨?_, ?_⟩
            · simp [plainComment?, ha', hb'] at hplain ⊢
              exact hplain
            · simp [plainComment?, ha', hb'] at hplain' ⊢
              exact hplain'
          · refine .inr ⟨by simp [plainComment?, ha', hb'], by simp [plainComment?, ha', hb'],
              b :: r, false, ?_, ?_⟩
            · simp [docCommentText?, ha', hb', lineEnd_of_not_mem hr]
            · have := lineEnd_append_break hr hb
              simp only [List.cons_append] at this
              simp [docCommentText?, ha', hb', this]
      · refine .inl ⟨?_, ?_⟩
        · simpa [plainComment?, ha, ha'] using hplain
        · simpa [plainComment?, ha, ha'] using hplain'

theorem Cursor.advance?_slashes {c : Cursor} {r : List Char} (hrest : c.rest = '/' :: '/' :: r)
    (hplain : Lexeme.plainComment? c.rest = none) (hdoc : Lexeme.docComment? c.rest = none) :
    c.advance? = none := by
  cases h : c.advance? with
  | none => rfl
  | some p =>
    have hblank : Lexeme.isHostBlank '/' = false := by decide
    have hopen : opening? ('/' :: '/' :: r) = none := rfl
    have hclose : closing? '/' = none := by decide
    rw [hrest] at hplain hdoc
    simp only [advance?, hrest, hplain, hdoc, hblank, hopen, hclose, Bool.false_eq_true,
      if_false] at h
    obtain ⟨⟨t, n⟩, hleaf, -⟩ := Option.map_eq_some_iff.1 h
    obtain ⟨d, s, hd, -, hslash⟩ := leaf?_eq_cons hleaf
    rw [hrest] at hd hslash
    obtain ⟨rfl, -⟩ := List.cons.inj hd
    rcases hslash with hne | hstarts
    · exact absurd rfl hne
    · cases hstarts

theorem Cursor.advance?_byteOrderMark (r : List Char) (m : Mark) :
    (Cursor.mk (byteOrderMark :: r) m).advance? = none := by
  cases h : (Cursor.mk (byteOrderMark :: r) m).advance? with
  | none => rfl
  | some p =>
    obtain ⟨hplain, hdoc⟩ := Lexeme.no_comment (c := byteOrderMark) (r := r) (.inl (by decide))
    have hblank : Lexeme.isHostBlank byteOrderMark = false := by decide
    have hopen : opening? (byteOrderMark :: r) = none := rfl
    have hclose : closing? byteOrderMark = none := by decide
    simp only [advance?, hplain, hdoc, hblank, hopen, hclose, Bool.false_eq_true, if_false] at h
    obtain ⟨⟨t, n⟩, hleaf, -⟩ := Option.map_eq_some_iff.1 h
    obtain ⟨d, s, hd, hbegins, -⟩ := leaf?_eq_cons hleaf
    obtain ⟨rfl, -⟩ := List.cons.inj hd
    have : Lexeme.beginsLeaf byteOrderMark = false := by decide +kernel
    rw [this] at hbegins
    rcases hbegins with hbegins | ⟨s, hs⟩
    · cases hbegins
    · exact absurd (List.cons.inj hs).1 (by decide)

/-- The end is not come to from here. -/
def Stuck (c : Cursor) : Prop :=
  ∀ bs e, ¬Reads c bs ⟨[], e⟩

theorem stuck_of_advance? {c : Cursor} (hrest : c.rest ≠ []) (h : c.advance? = none) : Stuck c := by
  intro bs e hreads
  cases hreads with
  | done => exact hrest rfl
  | step ha _ =>
    rw [h] at ha
    cases ha

theorem Stuck.of_reads {c d : Cursor} {as : List Atom} (h : Stuck d) (hreads : Reads c as d) :
    Stuck c := by
  intro bs e hend
  obtain ⟨cs, -, hrest⟩ := hreads.of_end hend
  exact h cs e hrest

theorem stuck_of_byteOrderMark {u : List Char} (h : u.head? = some byteOrderMark) (tail : List Char)
    (m : Mark) : Stuck ⟨u ++ tail, m⟩ := by
  cases u with
  | nil => cases h
  | cons c u =>
    cases h
    exact stuck_of_advance? (by simp) (Cursor.advance?_byteOrderMark (u ++ tail) m)

theorem Reads.docComment?_eq {c : Cursor} {bs : List Atom} {e : Mark} {r : List Char}
    {doc : Lexeme.DocComment} (h : Reads c bs ⟨[], e⟩) (hrest : c.rest = '/' :: '/' :: r)
    (hplain : Lexeme.plainComment? c.rest = none)
    (hdoc : Lexeme.docCommentText? c.rest = some doc) :
    Lexeme.docComment? c.rest = some doc := by
  by_cases hfree : Lexeme.isBareReturnFree doc.content = true
  · simp [Lexeme.docComment?, hdoc, hfree]
  · have hnone : Lexeme.docComment? c.rest = none := by simp [Lexeme.docComment?, hdoc, hfree]
    exact absurd h (stuck_of_advance? (by simp [hrest])
      (Cursor.advance?_slashes hrest hplain hnone) bs e)

theorem tokens_eq_ok_iff {u : List Char} {ts : List TokenTree}
    (hmark : u.head? ≠ some byteOrderMark) :
    tokens u = .ok ts ↔ ∃ e, Reads ⟨u, Mark.first⟩ (atomsOf ts) ⟨[], e⟩ := by
  have hdrop : dropByteOrderMark u = u := by
    unfold dropByteOrderMark
    split
    · rfl
    · split
      · rename_i hc
        simp [hc] at hmark
      · rfl
  rw [tokens, tokensFrom_eq_ok_iff, hdrop, Cursor.moveTo_self]

/-- A parenthesis opens a group before every text that holds a token when it is read by itself. -/
theorem not_errorMark_of_tokens {u tail : List Char} {ts : List TokenTree} (h : tokens u = .ok ts)
    (hne : ts ≠ []) (hb : Lexeme.Stops tail) : ¬Lexeme.errorMark <+: '(' :: (u ++ tail) := by
  intro hmark
  obtain ⟨t, rfl, ht⟩ : ∃ t, u = "/*ERROR*/".toList ++ t ∧ (t = [] ∨ ∃ v, t = ')' :: v) := by
    by_cases hu : u = "/*ERROR*/".toList
    · exact ⟨[], by simpa using hu, .inl rfl⟩
    · obtain ⟨v, hv⟩ := Lexeme.errorMark_of_append_stop hb (s := '(' :: u) (by simp)
        (by simpa using hu) hmark
      exact ⟨')' :: v, by simpa [Lexeme.errorMark] using hv.symm, .inr ⟨v, rfl⟩⟩
  have hfirst : ("/*ERROR*/".toList ++ t).head? ≠ some byteOrderMark :=
    show some '/' ≠ some byteOrderMark by decide
  obtain ⟨e, hreads⟩ := (tokens_eq_ok_iff hfirst).1 h
  have hcomment := Cursor.advance?_plain (c := ⟨"/*ERROR*/".toList ++ t, Mark.first⟩)
    (Lexeme.plainComment?_error t)
  obtain ⟨as, has, hrest⟩ := (Reads.single hcomment).of_end hreads
  have hfeed := feed_atomsOf [] [] ts
  rw [has] at hfeed
  -- the comment is the whole text, or it stands before a parenthesis that closes nothing
  rcases ht with rfl | ⟨v, rfl⟩
  · rw [hrest.eq_nil_of_end] at hfeed
    exact hne (by simpa [feed] using hfeed)
  · obtain ⟨bs, rfl, -⟩ := (reads_closing .parenthesis v _).of_end hrest
    cases hfeed

theorem tokens_append_stop {u tail : List Char} {ts : List TokenTree} (h : tokens u = .ok ts)
    (hmark : u.head? ≠ some byteOrderMark) (hb : Lexeme.Stops tail) (m : Mark) :
    (openComment? u = none ∧ ∃ bs m', Reads ⟨u ++ tail, m⟩ bs ⟨tail, m'⟩ ∧
      List.Forall₂ Atom.Matches (atomsOf ts) bs) ∨
    ∃ w us vs d e bs m', openComment? u = some w ∧ Lexeme.isOpenComment w = true ∧
      atomsOf ts = us ++ vs ∧ Reads ⟨w, d⟩ vs ⟨[], e⟩ ∧ Reads ⟨u ++ tail, m⟩ bs ⟨w ++ tail, m'⟩ ∧
      List.Forall₂ Atom.Matches us bs := by
  obtain ⟨e, hreads⟩ := (tokens_eq_ok_iff hmark).1 h
  rcases hreads.append_stop hb (Nat.le_refl _) (atomsOf_ne_append_opening ts) m with hclosed |
    ⟨w, us, vs, d, hopen⟩
  · exact .inl hclosed
  · exact .inr ⟨w, us, vs, d, e, hopen⟩

section

variable {u : List Char} {ts : List TokenTree} (h : tokens u = .ok ts)
  (hmark : u.head? ≠ some byteOrderMark) {tail : List Char} (hb : Lexeme.Breaks tail)
include h hmark hb

theorem reads_closed (hclosed : openComment? u = none) (m : Mark) :
    ∃ bs m', Reads ⟨u ++ tail, m⟩ bs ⟨tail, m'⟩ ∧
      List.Forall₂ Atom.Matches (atomsOf ts) bs := by
  rcases tokens_append_stop h hmark hb.stops m with ⟨-, hexists⟩ | ⟨w, _, _, _, _, _, _, hw, -⟩
  · exact hexists
  · rw [hclosed] at hw
    cases hw

/-- With a comment at its end, a text is read together with the rest of the line. -/
theorem reads_commented {w : List Char} (hopen : openComment? u = some w)
    (hplain : (Lexeme.plainComment? w).isSome = true) (m : Mark) :
    ∃ bs m', Reads ⟨u ++ tail, m⟩ bs ⟨(Lexeme.lineEnd tail).2, m'⟩ ∧
      List.Forall₂ Atom.Matches (atomsOf ts) bs := by
  rcases tokens_append_stop h hmark hb.stops m with ⟨hnone, -⟩ |
    ⟨w', us, vs, d, e, bs, m', hw, hwopen, hts, hcomment, hfront, hmatches⟩
  · rw [hopen] at hnone
    cases hnone
  · rw [hw, Option.some.injEq] at hopen
    subst hopen
    rcases Lexeme.open_comment_cases hwopen hb with ⟨hw, hw'⟩ | ⟨hw, -, -⟩
    · have hvs : vs = [] := by
        obtain ⟨cs, rfl, hcs⟩ := (Reads.single (Cursor.advance?_plain hw)).of_end hcomment
        exact hcs.eq_nil_of_end
      rw [hvs, List.append_nil] at hts
      have hstep := Reads.single (Cursor.advance?_plain (c := ⟨w' ++ tail, m'⟩) hw')
      have hall := hfront.trans hstep
      rw [List.append_nil] at hall
      exact ⟨bs, _, hall, hts ▸ hmatches⟩
    · rw [hw] at hplain
      cases hplain

/-- With a documentation comment at its end, a text is read with the rest of the line as part of the
documentation, if it can be read. -/
theorem reads_documented {w : List Char} (hopen : openComment? u = some w)
    (hplain : Lexeme.plainComment? w = none) (m : Mark) :
    (∃ us vs content inner rest span span' m',
      atomsOf ts = us ++ atomsOf (docTokens ⟨content, inner, []⟩ span) ∧
      List.Forall₂ Atom.Matches us vs ∧
      Reads ⟨u ++ tail, m⟩
        (vs ++ atomsOf (docTokens ⟨content ++ (Lexeme.lineEnd tail).1, inner, rest⟩ span'))
        ⟨(Lexeme.lineEnd tail).2, m'⟩) ∨
    Stuck ⟨u ++ tail, m⟩ := by
  rcases tokens_append_stop h hmark hb.stops m with ⟨hnone, -⟩ |
    ⟨w', us, vs, d, e, as, m', hw, hwopen, hts, hcomment, hfront, hmatches⟩
  · rw [hopen] at hnone
    cases hnone
  · rw [hw, Option.some.injEq] at hopen
    subst hopen
    obtain ⟨r, hr, -⟩ := Lexeme.of_isOpenComment hwopen
    have hr' : w' ++ tail = '/' :: '/' :: (r ++ tail) := by rw [hr]; rfl
    rcases Lexeme.open_comment_cases hwopen hb with ⟨hw, -⟩ | ⟨-, hw', content, inner, hdoc, hdoc'⟩
    · rw [hplain] at hw
      cases hw
    · have hread := hcomment.docComment?_eq hr hplain hdoc
      obtain ⟨vs', rfl, hvs⟩ := (Reads.single (Cursor.advance?_doc hplain hread)).of_end hcomment
      rw [hvs.eq_nil_of_end, List.append_nil] at hts
      -- the rest of the line may hold a bare carriage return, and then nothing is read
      cases hfree : Lexeme.isBareReturnFree (content ++ (Lexeme.lineEnd tail).1) with
      | true =>
        have hread' : Lexeme.docComment? (w' ++ tail) =
            some ⟨content ++ (Lexeme.lineEnd tail).1, inner, (Lexeme.lineEnd tail).2⟩ := by
          simp [Lexeme.docComment?, hdoc', hfree]
        have hstep := Reads.single (Cursor.advance?_doc (c := ⟨w' ++ tail, m'⟩) hw' hread')
        exact .inl ⟨us, as, content, inner, _, _, _, _, hts, hmatches, hfront.trans hstep⟩
      | false =>
        have hnone : Lexeme.docComment? (w' ++ tail) = none := by
          simp [Lexeme.docComment?, hdoc', hfree]
        have hstuck := stuck_of_advance? (c := ⟨w' ++ tail, m'⟩) (by simp [hr])
          (Cursor.advance?_slashes hr' hw' hnone)
        exact .inr (hstuck.of_reads hfront)

end

end InlineMarkup.Host
