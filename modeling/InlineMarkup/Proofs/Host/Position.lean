import InlineMarkup.Proofs.Location
import InlineMarkup.Proofs.Host.Naming
import InlineMarkup.Proofs.Host.Grounded

/-!
Where the tokens of a file stand in its text. A cursor that is placed has the mark that counting
lines and columns from the beginning gives; the tokens of a file are read from such a cursor, also
behind a byte order mark or a line for an interpreter. The path of a call begins at a cursor, too.
-/

set_option autoImplicit false

namespace InlineMarkup.Host

open InlineMarkup.Text
open TokenTree (atomsOf)

/-- A cursor's mark counts the lines and columns of the text before it. -/
def Cursor.Placed (source : List Char) (c : Cursor) : Prop :=
  ∃ u, dropByteOrderMark source = u ++ c.rest ∧ c.mark = u.foldl Mark.after Mark.first

theorem Cursor.Placed.of_reads {source : List Char} {c d : Cursor} {as : List Atom}
    (hc : c.Placed source) (h : Reads c as d) : d.Placed source := by
  obtain ⟨u, hu, hmark⟩ := hc
  obtain ⟨v, hv, hmark'⟩ := h.eq_append
  exact ⟨u ++ v, by rw [hu, hv, List.append_assoc], by rw [hmark', hmark, List.foldl_append]⟩

theorem Cursor.Placed.offset_eq {source : List Char} {c : Cursor} (h : c.Placed source) :
    c.mark.offset source = byteLength source - byteLength c.rest := by
  obtain ⟨u, hu, hmark⟩ := h
  rw [hmark, offset_foldl_after hu]

theorem Cursor.Placed.suffix {source : List Char} {c : Cursor} (h : c.Placed source) :
    c.rest <:+ source := by
  obtain ⟨u, hu, -⟩ := h
  exact (List.suffix_append u c.rest).trans (hu ▸ dropByteOrderMark_suffix source)

theorem Cursor.Placed.advance {source text rest : List Char} {m : Mark}
    (h : Cursor.Placed source ⟨text ++ rest, m⟩) :
    Cursor.Placed source ⟨rest, text.foldl Mark.after m⟩ := by
  obtain ⟨u, hu, hmark⟩ := h
  refine ⟨u ++ text, hu.trans (List.append_assoc ..).symm, ?_⟩
  rw [List.foldl_append, ← hmark]

theorem Cursor.Placed.rest_eq {source front rest : List Char} {c : Cursor} (h : c.Placed source)
    (hsource : source = front ++ rest) (hoffset : c.mark.offset source = byteLength front) :
    c.rest = rest := by
  refine eq_of_suffix_of_byteLength h.suffix ⟨front, hsource.symm⟩ ?_
  have hle := byteLength_le_of_suffix h.suffix
  have hlen := congrArg byteLength hsource
  rw [h.offset_eq] at hoffset
  rw [byteLength_append] at hlen
  omega

theorem interpreterLine?_eq {source line : List Char} (h : interpreterLine? source = some line) :
    line = source.takeWhile (· != '\n') := by
  unfold interpreterLine? at h
  split at h
  · split at h <;> cases h
    rfl
  · cases h

theorem dropInterpreterLine_cases (source : List Char) :
    dropInterpreterLine source = source ∨ dropInterpreterLine source = [] ∨
      ∃ line rest, '\n' ∉ line ∧ source = line ++ '\n' :: rest ∧
        dropInterpreterLine source = '\n' :: rest := by
  unfold dropInterpreterLine
  cases hline : interpreterLine? source with
  | none => exact .inl rfl
  | some line =>
    obtain rfl := interpreterLine?_eq hline
    have hsplit := List.takeWhile_append_dropWhile (p := (· != '\n')) (l := source)
    have hdrop : source.drop (source.takeWhile (· != '\n')).length =
        source.dropWhile (· != '\n') := by
      calc source.drop (source.takeWhile (· != '\n')).length
          = (source.takeWhile (· != '\n') ++ source.dropWhile (· != '\n')).drop
              (source.takeWhile (· != '\n')).length := by rw [hsplit]
        _ = source.dropWhile (· != '\n') := List.drop_left
    cases hd : source.dropWhile (· != '\n') with
    | nil => exact .inr (.inl (hdrop.trans hd))
    | cons c rest =>
      have hc : c = '\n' := by
        have := List.head?_dropWhile_not (p := (· != '\n')) source
        simpa [hd] using this
      subst hc
      refine .inr (.inr ⟨source.takeWhile (· != '\n'), rest, fun hmem => ?_, ?_, hdrop.trans hd⟩)
      · simpa using List.mem_takeWhile_imp hmem
      · rw [← hd, hsplit]

theorem foldl_after_line {line : List Char} (h : '\n' ∉ line) (m : Mark) :
    (line ++ ['\n']).foldl Mark.after m = ⟨m.line + 1, 0⟩ := by
  induction line generalizing m with
  | nil => rfl
  | cons c line ih =>
    have hc : c ≠ '\n' := fun hc => h (hc ▸ List.mem_cons_self)
    rw [List.cons_append, List.foldl_cons, ih fun hmem => h (List.mem_cons_of_mem _ hmem)]
    simp [Mark.after, hc]

theorem reads_file {source : List Char} {ts : List TokenTree}
    (h : tokens (dropInterpreterLine (dropByteOrderMark source)) = .ok ts) :
    ∃ c m, c.Placed source ∧ Reads c (atomsOf ts) ⟨[], m⟩ := by
  obtain ⟨m, h⟩ := tokensFrom_eq_ok_iff.1 h
  rcases dropInterpreterLine_cases (dropByteOrderMark source) with
    hsame | hnone | ⟨line, rest, hline, hsource, hdrop⟩
  · rw [hsame] at h
    obtain ⟨u, hu⟩ := dropByteOrderMark_suffix (dropByteOrderMark source)
    refine ⟨_, m, ⟨u, ?_, ?_⟩, h⟩
    · exact hu.symm
    · have := Cursor.moveTo_append u (dropByteOrderMark (dropByteOrderMark source)) Mark.first
      rw [hu] at this
      rw [this]
  · rw [hnone] at h
    have hnil : atomsOf ts = [] := h.eq_nil_of_end
    let c : Cursor := ⟨[], (dropByteOrderMark source).foldl Mark.after Mark.first⟩
    refine ⟨c, c.mark, ⟨_, (List.append_nil _).symm, rfl⟩, ?_⟩
    rw [hnil]
    exact .done c
  · rw [hdrop] at h
    have hmark : dropByteOrderMark ('\n' :: rest) = '\n' :: rest := rfl
    rw [hmark, Cursor.moveTo_self ⟨'\n' :: rest, Mark.first⟩] at h
    obtain ⟨bs, hbs, h⟩ := (reads_blank (c := '\n') (by decide) rest Mark.first).of_end h
    refine ⟨_, m, ⟨line ++ ['\n'], ?_, ?_⟩, by rw [hbs]; exact h⟩
    · simpa using hsource
    · rw [foldl_after_line hline]
      rfl

theorem Within.atomsOf_eq {source ts : List TokenTree} (h : Within source ts) :
    ∃ front back, atomsOf source = front ++ (atomsOf ts ++ back) := by
  induction h with
  | whole => exact ⟨[], [], by simp⟩
  | @tail t ts _ ih =>
    obtain ⟨front, back, h⟩ := ih
    exact ⟨front ++ t.atoms, back, by simp [h]⟩
  | @inside d contents ts opening closing _ ih =>
    obtain ⟨front, back, h⟩ := ih
    exact ⟨front ++ [.opening d opening], .closing d closing :: (atomsOf ts ++ back),
      by simp [h, TokenTree.atoms]⟩

def Atom.start : Atom → Mark
  | .word _ span => span.start
  | .punct _ _ span => span.start
  | .literal _ span => span.start
  | .opening _ span => span.start
  | .closing _ span => span.start

theorem atoms_of_isName {t : TokenTree} (h : t.isName) :
    ∃ a, t.atoms = [a] ∧ a.isName ∧ a.start = t.start := by
  cases t with
  | word w span => exact ⟨_, rfl, rfl, rfl⟩
  | punct c joint span => exact ⟨_, rfl, h, rfl⟩
  | literal s span => cases h
  | group d contents o c => cases h

theorem isName_of_mem_atomsOf {ts : List TokenTree} (h : ∀ t ∈ ts, t.isName) :
    ∀ a ∈ atomsOf ts, a.isName := by
  induction ts with
  | nil => simp
  | cons t ts ih =>
    obtain ⟨ht, hts⟩ := List.forall_mem_cons.1 h
    obtain ⟨a, ha, hname, -⟩ := atoms_of_isName ht
    rw [atomsOf_cons, ha]
    exact List.forall_mem_cons.2 ⟨hname, ih hts⟩

theorem leaf?_atoms {c next : Cursor} {t : TokenTree} (h : leaf? c = some (t, next)) :
    ∃ a, t.atoms = [a] ∧ a.start = c.mark ∧ ∀ w span, a = .word w span → IsWord w := by
  unfold leaf? at h
  split at h
  · cases h
    exact ⟨_, rfl, rfl, by rintro w span ⟨⟩⟩
  · split at h
    · cases h
      exact ⟨_, rfl, rfl, by rintro w span ⟨⟩⟩
    · split at h
      · rename_i rest hword
        cases h
        refine ⟨_, rfl, rfl, ?_⟩
        rintro w span ⟨⟩
        obtain ⟨u, -, hu⟩ := Lexeme.word?_shortens hword
        rw [hu] at hword ⊢
        rw [Lexeme.before_append]
        exact isWord_of_word? hword
      · split at h
        · cases h
          exact ⟨_, rfl, rfl, by rintro w span ⟨⟩⟩
        · cases h

theorem advance?_cases {c next : Cursor} {as : List Atom} (h : c.advance? = some (as, next)) :
    as = [] ∨
      (∃ a, as = [a] ∧ a.start = c.mark ∧ ∀ w span, a = .word w span → IsWord w) ∨
      ∃ doc span, as = atomsOf (docTokens doc span) := by
  unfold Cursor.advance? at h
  split at h
  · cases h
    exact .inl rfl
  · split at h
    · cases h
    · simp only at h
      split at h
      · cases h
        exact .inl rfl
      · split at h
        · cases h
          exact .inr (.inr ⟨_, _, rfl⟩)
        · split at h
          · cases h
            exact .inr (.inl ⟨_, rfl, rfl, by rintro w span ⟨⟩⟩)
          · split at h
            · cases h
              exact .inr (.inl ⟨_, rfl, rfl, by rintro w span ⟨⟩⟩)
            · obtain ⟨⟨t, n⟩, hleaf, h⟩ := Option.map_eq_some_iff.1 h
              cases h
              exact .inr (.inl (leaf?_atoms hleaf))

theorem atomsOf_docTokens (doc : Lexeme.DocComment) (span : Span) :
    atomsOf (docTokens doc span) =
      .punct '#' false span :: (if doc.inner then [.punct '!' false span] else []) ++
        [.opening .bracket (firstColumn span), .word "doc".toList span, .punct '=' false span,
          .literal (stringLiteral doc.content) span] ++ [.closing .bracket (lastColumn span)] := by
  cases hinner : doc.inner <;> simp [docTokens, hinner, TokenTree.atoms]

theorem Reads.isWord {c d : Cursor} {as : List Atom} (h : Reads c as d) {w : List Char}
    {span : Span} (hw : Atom.word w span ∈ as) : IsWord w := by
  induction h with
  | done => cases hw
  | step hstep _ ih =>
    rcases List.mem_append.1 hw with hw | hw
    · rcases advance?_cases hstep with rfl | ⟨a, rfl, -, hword⟩ | ⟨doc, span', rfl⟩
      · cases hw
      · exact hword w span (List.mem_singleton.1 hw).symm
      · obtain ⟨rfl, -⟩ : w = "doc".toList ∧ span = span' := by
          rw [atomsOf_docTokens] at hw
          cases hinner : doc.inner <;> simpa [hinner] using hw
        decide
    · exact ih hw

def BeginsCall (as : List Atom) : Prop :=
  ∃ names span rest, as = names ++ .opening .parenthesis span :: rest ∧ names ≠ [] ∧
    ∀ a ∈ names, a.isName

theorem BeginsCall.mem_opening {as rest : List Atom} (h : BeginsCall (as ++ rest))
    (hn : ∃ a ∈ as, a.isName = false) : ∃ span, Atom.opening .parenthesis span ∈ as := by
  obtain ⟨names, span, rest', heq, -, hnames⟩ := h
  obtain ⟨a, ha, hname⟩ := hn
  rcases List.append_eq_append_iff.1 heq with ⟨more, rfl, -⟩ | ⟨more, rfl, hmore⟩
  · have := hnames a (List.mem_append_left _ ha)
    simp [hname] at this
  · cases more with
    | nil =>
      have := hnames a (by simpa using ha)
      simp [hname] at this
    | cons b more =>
      obtain ⟨rfl, -⟩ := List.cons.inj hmore
      exact ⟨span, by simp⟩

/-- No call begins in a documentation comment: it ends with a bracket, and there is no parenthesis
before. -/
theorem not_beginsCall_docTokens {doc : Lexeme.DocComment} {span : Span} {as : List Atom}
    (hne : as ≠ []) (h : as <:+ atomsOf (docTokens doc span)) (rest : List Atom) :
    ¬BeginsCall (as ++ rest) := by
  intro hcall
  have hends := atomsOf_docTokens doc span
  have hlast : Atom.closing .bracket (lastColumn span) ∈ as := by
    obtain ⟨t, ht⟩ := h
    rw [hends] at ht
    have := congrArg List.getLast? ht
    rw [List.getLast?_append_of_ne_nil _ hne, List.getLast?_concat] at this
    exact List.mem_of_getLast? this
  obtain ⟨s, hs⟩ := hcall.mem_opening ⟨_, hlast, rfl⟩
  have := h.subset hs
  rw [hends] at this
  cases hinner : doc.inner <;> simp [hinner] at this

/-- The atoms of a call are read from the place where its path begins. -/
theorem Reads.split_call {c : Cursor} {m : Mark} {front as : List Atom}
    (h : Reads c (front ++ as) ⟨[], m⟩) (hcall : BeginsCall as) :
    ∃ d a as', as = a :: as' ∧ a.start = d.mark ∧ Reads c front d ∧ Reads d as ⟨[], m⟩ := by
  generalize hall : front ++ as = all at h
  generalize hlast : Cursor.mk [] m = last at h
  induction h generalizing front with
  | done c =>
    obtain ⟨names, span, rest, rfl, -⟩ := hcall
    simp at hall
  | @step c next last bs cs hstep hrest ih =>
    subst hlast
    rcases List.append_eq_append_iff.1 hall with ⟨more, rfl, rfl⟩ | ⟨more, rfl, hcs⟩
    · by_cases hmore : more = []
      · subst hmore
        obtain ⟨d, a, as', hcons, hstart, hfront, has⟩ := ih (List.nil_append _) rfl
        exact ⟨d, a, as', hcons, hstart, by simpa using Reads.step hstep hfront, has⟩
      · rcases advance?_cases hstep with hnil | ⟨a, ha, hstart, -⟩ | ⟨doc, span, hdoc⟩
        · exact absurd (List.append_eq_nil_iff.1 hnil).2 hmore
        · obtain ⟨rfl, rfl⟩ : front = [] ∧ more = [a] := by
            rcases List.append_eq_singleton_iff.1 ha with h | h
            · exact h
            · exact absurd h.2 hmore
          exact ⟨c, a, cs, rfl, hstart, .done c, .step hstep hrest⟩
        · exact absurd hcall (not_beginsCall_docTokens hmore (hdoc ▸ List.suffix_append front more) cs)
    · obtain ⟨d, a, as', hcons, hstart, hfront, has⟩ := ih hcs.symm rfl
      exact ⟨d, a, as', hcons, hstart, .step hstep hfront, has⟩

end InlineMarkup.Host
