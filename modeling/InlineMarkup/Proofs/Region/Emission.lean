import InlineMarkup.Region.Placeholder
import InlineMarkup.Host.Literal
import InlineMarkup.Proofs.Host.Naming

/-!
How a placeholder call is read: as the words and colons of its path and, in parentheses, the
literals of its id and of its region's text. What follows the call makes no difference.
-/

set_option autoImplicit false

namespace InlineMarkup

open InlineMarkup.Text InlineMarkup.Host

theorem digits_of_id (id : Nat) : (toString id).toList = Nat.toDigits 10 id := by
  rw [Nat.toString_eq_ofList_toDigits, String.toList_ofList]

theorem isDigit_of_mem_id {id : Nat} {c : Char} (h : c ∈ (toString id).toList) : c.isDigit = true :=
  Nat.isDigit_of_mem_toDigits (by decide) (by decide) (digits_of_id id ▸ h)

theorem mantissa?_digits {ds : List Char} (h : ∀ c ∈ ds, c.isDigit = true) :
    Lexeme.mantissa? false ds = some (false, []) := by
  induction ds with
  | nil => rfl
  | cons c ds ih =>
    simp only [Lexeme.mantissa?, h c (by simp), Bool.true_or, if_true]
    exact ih fun d hd => h d (by simp [hd])

theorem hexDigit?_of_isDigit {c : Char} (h : c.isDigit = true) :
    Markup.hexDigit? c = some (c.toNat - 48) ∧ c.toNat - 48 < 10 := by
  obtain ⟨hlow, hhigh⟩ := toNat_of_isDigit h
  exact ⟨by simp only [Markup.hexDigit?, h, if_true]; rfl, by omega⟩

theorem ne_low_line_of_isDigit {c : Char} (h : c.isDigit = true) : c ≠ '_' := by
  rintro rfl
  cases h

theorem integerDigits?_digits {ds : List Char} {met : Bool} (h : ∀ c ∈ ds, c.isDigit = true)
    (hmet : met = true ∨ ds ≠ []) : Lexeme.integerDigits? 10 met ds = some [] := by
  induction ds generalizing met with
  | nil => simpa [Lexeme.integerDigits?] using hmet
  | cons c ds ih =>
    have hc := h c (by simp)
    obtain ⟨hhex, hlt⟩ := hexDigit?_of_isDigit hc
    rw [Lexeme.integerDigits?, if_neg (ne_low_line_of_isDigit hc), hhex]
    simp only [hlt, if_true]
    exact ih (fun d hd => h d (by simp [hd])) (.inl rfl)

theorem number?_digits {ds : List Char} (h : ∀ c ∈ ds, c.isDigit = true) (hne : ds ≠ []) :
    Lexeme.number? ds = some [] := by
  have hfloat : Lexeme.floatDigits? ds = none := by
    cases ds with
    | nil => rfl
    | cons d ds =>
      have hds : ∀ c ∈ ds, c.isDigit = true := fun c hc => h c (by simp [hc])
      simp [Lexeme.floatDigits?, mantissa?_digits hds]
  have hinteger : Lexeme.integer? ds = some [] := by
    unfold Lexeme.integer?
    split
    · exact absurd (h 'x' (by simp)) (by decide)
    · exact absurd (h 'o' (by simp)) (by decide)
    · exact absurd (h 'b' (by simp)) (by decide)
    · exact integerDigits?_digits h (.inr hne)
  simp [Lexeme.number?, hfloat, hinteger, Lexeme.numberEnd?, Lexeme.dropSuffix, Lexeme.plainWord?,
    Lexeme.endsWord]

theorem integerFrom_digits {ds : List Char} {met : Bool} (value : Nat)
    (h : ∀ c ∈ ds, c.isDigit = true) (hmet : met = true ∨ ds ≠ []) :
    Literal.integerFrom 10 met value ds = some (Nat.ofDigitChars 10 ds value, []) := by
  induction ds generalizing met value with
  | nil => simpa [Literal.integerFrom] using hmet
  | cons c ds ih =>
    have hc := h c (by simp)
    obtain ⟨hhex, hlt⟩ := hexDigit?_of_isDigit hc
    have hpoint : c ≠ '.' ∧ c ≠ 'e' ∧ c ≠ 'E' := by
      refine ⟨?_, ?_, ?_⟩ <;> rintro rfl <;> cases hc
    rw [Literal.integerFrom, if_neg (ne_low_line_of_isDigit hc), if_neg (by simp [hpoint]),
      if_neg (by simp [hpoint]), hhex]
    simp only [hc, Bool.true_or, if_true, hlt]
    rw [ih _ (fun d hd => h d (by simp [hd])) (.inl rfl), Nat.ofDigitChars_cons,
      Nat.mul_comm value 10]
    rfl

theorem integer?_id (id : Nat) : Literal.integer? (toString id).toList = some (id, []) := by
  have h : ∀ c ∈ (toString id).toList, c.isDigit = true := fun _ => isDigit_of_mem_id
  rw [digits_of_id] at h ⊢
  have hne : Nat.toDigits 10 id ≠ [] := Nat.toDigits_ne_nil
  have hvalue : Literal.integerFrom 10 false 0 (Nat.toDigits 10 id) = _ :=
    integerFrom_digits 0 h (.inr hne)
  rw [Nat.ofDigitChars_ten_toDigits] at hvalue
  unfold Literal.integer?
  split
  · simp_all
  · simp_all
  · simp_all
  · simp_all
  · simp_all

theorem le_takeWhile_of_prefix {n : Nat} {t x : List Char}
    (h : List.replicate n '#' <+: t ++ '"' :: x) : n ≤ (t.takeWhile (· == '#')).length := by
  induction n generalizing t with
  | zero => exact Nat.zero_le _
  | succ n ih =>
    cases t with
    | nil =>
      obtain ⟨u, hu⟩ := h
      cases (List.cons.inj hu).1
    | cons c t =>
      rw [List.replicate_succ, List.cons_append, List.cons_prefix_cons] at h
      rw [← h.1]
      simpa using ih h.2

/-- With more hashes than follow a quote anywhere in the text, only the closing quote ends it. -/
theorem rawFrom_rawString {hashes : Nat} {text : List Char} (h : longestRun text < hashes)
    (tail : List Char) :
    Lexeme.rawFrom .text hashes (text ++ '"' :: (List.replicate hashes '#' ++ tail)) =
      if Lexeme.isBareReturnFree text then some tail else none := by
  fun_induction Lexeme.isBareReturnFree text with
  | case1 s ih =>
    simp only [longestRun] at h
    simpa [Lexeme.rawFrom] using ih (by simpa using h)
  | case2 s hs =>
    cases s with
    | nil => rfl
    | cons c s =>
      have hc : c ≠ '\n' := by
        rintro rfl
        exact hs s rfl
      simp [Lexeme.rawFrom, hc]
  | case3 c s hr hr' ih =>
    have hc : c ≠ '\r' := by
      rintro rfl
      exact hr' rfl
    have hrun : longestRun s < hashes := by
      simp only [longestRun] at h
      split at h <;> omega
    -- a quote in the text has fewer hashes behind it, even with the closing quote in sight
    have hquote : ¬(c = '"' ∧ (List.replicate hashes '#').isPrefixOf
        (s ++ '"' :: (List.replicate hashes '#' ++ tail)) = true) := by
      rintro ⟨rfl, hp⟩
      have := le_takeWhile_of_prefix (List.isPrefixOf_iff_prefix.1 hp)
      simp only [longestRun, if_true] at h
      omega
    rw [List.cons_append, Lexeme.rawFrom]
    · rw [if_neg hquote, if_pos (show Lexeme.StringKind.text.admits c = true from rfl), ih hrun]
    · intro t ht
      exact absurd ht hc
    · exact hc
  | case4 => simp [Lexeme.rawFrom]

/-- A region's text can be read back if it has no bare carriage return and no long run of hashes
after a quote. -/
def isReadable (text : List Char) : Bool :=
  Lexeme.isBareReturnFree text && longestRun text < 255

theorem string?_rawStringLiteral (text tail : List Char) :
    Lexeme.string? (rawStringLiteral text ++ tail) =
      if isReadable text then some tail else none := by
  have hshape : rawStringLiteral text ++ tail = 'r' :: (List.replicate (longestRun text + 1) '#' ++
      '"' :: (text ++ '"' :: (List.replicate (longestRun text + 1) '#' ++ tail))) := by
    simp [rawStringLiteral]
  rw [hshape]
  simp only [Lexeme.string?, Lexeme.raw?_eq, rawFrom_rawString (Nat.lt_succ_self _), isReadable,
    Bool.and_eq_true, decide_eq_true_eq]
  by_cases hmany : longestRun text + 1 > 255
  · rw [if_pos hmany, if_neg (by omega)]
  · rw [if_neg hmany]
    simp [show longestRun text < 255 by omega]

theorem literal?_rawStringLiteral {text tail : List Char} (h : isReadable text = true)
    (hb : Lexeme.Breaks tail) : Lexeme.literal? (rawStringLiteral text ++ tail) = some tail := by
  have hsuffix : Lexeme.dropSuffix tail = tail := by
    have := Lexeme.dropSuffix_append_stop hb.stops []
    simpa [Lexeme.dropSuffix, Lexeme.plainWord?] using this
  simp only [Lexeme.literal?, string?_rawStringLiteral, h, if_true, hsuffix]

/-- A raw string that cannot be read is no other lexeme either. -/
theorem advance?_rawStringLiteral {text : List Char} (h : isReadable text = false)
    (tail : List Char) (m : Mark) :
    (Cursor.mk (rawStringLiteral text ++ tail) m).advance? = none := by
  have hstring := string?_rawStringLiteral text tail
  rw [h] at hstring
  obtain ⟨u, hu, hstart⟩ : ∃ u, rawStringLiteral text ++ tail = 'r' :: '#' :: u ∧
      Lexeme.word? ('r' :: '#' :: u) = none := by
    unfold rawStringLiteral
    cases longestRun text with
    | zero => exact ⟨_, rfl, rfl⟩
    | succ n => exact ⟨_, rfl, rfl⟩
  rw [hu] at hstring ⊢
  have hliteral : Lexeme.literal? ('r' :: '#' :: u) = none := by
    have hchar : Lexeme.character? ('r' :: '#' :: u) = none := rfl
    simp [Lexeme.literal?, hstring, hchar, Lexeme.number?_eq_none ('#' :: u) (c := 'r') rfl]
  have hpunct : Lexeme.punct? ('r' :: '#' :: u) = none := rfl
  have hplain : Lexeme.plainComment? ('r' :: '#' :: u) = none := rfl
  have hdoc : Lexeme.docComment? ('r' :: '#' :: u) = none := rfl
  have hblank : Lexeme.isHostBlank 'r' = false := by decide
  have hopen : opening? ('r' :: '#' :: u) = none := rfl
  have hclose : closing? 'r' = none := rfl
  have hmark : Lexeme.errorMark.isPrefixOf ('r' :: '#' :: u) = false := rfl
  simp [Cursor.advance?, hplain, hdoc, hblank, hopen, hclose, leaf?, hliteral, hpunct, hstart, hmark]

theorem not_errorMark_id (id : Nat) (tail : List Char) :
    ¬Lexeme.errorMark <+: '(' :: ((toString id).toList ++ tail) := by
  cases hid : (toString id).toList with
  | nil => exact absurd hid (digits_of_id id ▸ Nat.toDigits_ne_nil)
  | cons d ds =>
    have hd : '/' ≠ d := by
      rintro rfl
      cases isDigit_of_mem_id (hid ▸ List.mem_cons_self)
    simp [Lexeme.errorMark, hd]

theorem literal?_id (id : Nat) {tail : List Char} (hb : Lexeme.Breaks tail) :
    Lexeme.literal? ((toString id).toList ++ tail) = some tail := by
  have hdigits : ∀ c ∈ (toString id).toList, c.isDigit = true := fun _ => isDigit_of_mem_id
  have hne : (toString id).toList ≠ [] := digits_of_id id ▸ Nat.toDigits_ne_nil
  have halone : Lexeme.literal? (toString id).toList = some [] := by
    have hnumber := number?_digits hdigits hne
    cases hid : (toString id).toList with
    | nil => exact absurd hid hne
    | cons d ds =>
      obtain ⟨hs, hc⟩ := Lexeme.string?_of_digit ds (hdigits d (hid ▸ List.mem_cons_self))
      rw [hid] at hnumber
      simp only [Lexeme.literal?, hs, hc, hnumber]
  exact Lexeme.literal?_append_stop hb.stops halone

theorem placeholderCall_append (function : Host.Path) (id : Nat) (text rest : List Char) :
    placeholderCall function id text ++ rest =
      function.text ++ '(' :: ((toString id).toList ++
        (',' :: ' ' :: (rawStringLiteral text ++ ')' :: rest))) := by
  simp [placeholderCall]

theorem reads_arguments (id : Nat) (text rest : List Char) (m : Mark) :
    ∃ opening span joint span' m',
      Reads ⟨'(' :: ((toString id).toList ++
          (',' :: ' ' :: (rawStringLiteral text ++ ')' :: rest))), m⟩
        [.opening .parenthesis opening, .literal (toString id).toList span, .punct ',' joint span']
        ⟨rawStringLiteral text ++ ')' :: rest, m'⟩ := by
  have hopen := reads_opening (d := .parenthesis) (not_errorMark_id id
    (',' :: ' ' :: (rawStringLiteral text ++ ')' :: rest))) m
  have hid := reads_literal (literal?_id id (Lexeme.breaks_cons ','
    (' ' :: (rawStringLiteral text ++ ')' :: rest)))) (m.after '(')
  have hcomma := reads_punct ',' (' ' :: (rawStringLiteral text ++ ')' :: rest)) (by decide) rfl
    ((toString id).toList.foldl Mark.after (m.after '('))
  have hblank := reads_blank (c := ' ') (by decide) (rawStringLiteral text ++ ')' :: rest)
    (((toString id).toList.foldl Mark.after (m.after '(')).after ',')
  exact ⟨_, _, _, _, _, hopen.trans (hid.trans (hcomma.trans hblank))⟩

theorem reads_lastArgument {text : List Char} (h : isReadable text = true) (rest : List Char)
    (m : Mark) :
    ∃ span closing, Reads ⟨rawStringLiteral text ++ ')' :: rest, m⟩
      [.literal (rawStringLiteral text) span, .closing .parenthesis closing]
      ⟨rest, closing.stop⟩ := by
  have hliteral := reads_literal (literal?_rawStringLiteral h (Lexeme.breaks_cons ')' rest)) m
  have hclose := reads_closing .parenthesis rest ((rawStringLiteral text).foldl Mark.after m)
  exact ⟨_, ⟨_, _⟩, hliteral.trans hclose⟩

theorem reads_callHead {function : Host.Path} (hf : function.IsWritten) (id : Nat)
    (text rest : List Char) (m : Mark) :
    ∃ ns opening span joint span' m', (∀ n ∈ ns, n.isName) ∧
      Reads ⟨placeholderCall function id text ++ rest, m⟩
        (ns ++ [.opening .parenthesis opening, .literal (toString id).toList span,
          .punct ',' joint span'])
        ⟨rawStringLiteral text ++ ')' :: rest, m'⟩ := by
  rw [placeholderCall_append]
  obtain ⟨ns, m₁, hpath, hns⟩ := reads_path hf (Lexeme.breaks_cons '(' _) m
  obtain ⟨opening, span, joint, span', m', harguments⟩ := reads_arguments id text rest m₁
  exact ⟨ns, opening, span, joint, span', m', isName_of_matches hns function.isName_of_atoms,
    hpath.trans harguments⟩

theorem isReadable_of_reads {function : Host.Path} (hf : function.IsWritten) {id : Nat}
    {text rest : List Char} {m last : Mark} {bs : List Atom}
    (h : Reads ⟨placeholderCall function id text ++ rest, m⟩ bs ⟨[], last⟩) :
    isReadable text = true := by
  obtain ⟨ns, opening, span, joint, span', m₁, -, hhead⟩ := reads_callHead hf id text rest m
  obtain ⟨cs, -, hcs⟩ := hhead.of_end h
  by_contra hnot
  have hstuck := advance?_rawStringLiteral (by simpa using hnot) (')' :: rest) m₁
  cases hcs with
  | step ha _ =>
    rw [hstuck] at ha
    cases ha

/-- Where a source that can be read to its end holds a placeholder call, the call is read as such,
up to its own closing parenthesis. -/
theorem reads_placeholderCall {function : Host.Path} (hf : function.IsWritten) {id : Nat}
    {text rest : List Char} {m last : Mark} {bs : List Atom}
    (h : Reads ⟨placeholderCall function id text ++ rest, m⟩ bs ⟨[], last⟩) :
    ∃ ns opening span joint span' span'' closing cs,
      bs = ns ++ .opening .parenthesis opening :: .literal (toString id).toList span ::
        .punct ',' joint span' :: .literal (rawStringLiteral text) span'' ::
          .closing .parenthesis closing :: cs ∧
      (∀ n ∈ ns, n.isName) ∧
      closing.stop = (placeholderCall function id text).foldl Mark.after m := by
  have hreadable := isReadable_of_reads hf h
  obtain ⟨ns, opening, span, joint, span', m₁, hns, hhead⟩ := reads_callHead hf id text rest m
  obtain ⟨cs, rfl, hcs⟩ := hhead.of_end h
  obtain ⟨span'', closing, hlast⟩ := reads_lastArgument hreadable rest m₁
  obtain ⟨ds, rfl, -⟩ := hlast.of_end hcs
  obtain ⟨u, hu, hmark⟩ := (hhead.trans hlast).eq_append
  obtain rfl := List.append_cancel_right hu
  exact ⟨ns, opening, span, joint, span', span'', closing, ds, by simp, hns, hmark⟩

end InlineMarkup
