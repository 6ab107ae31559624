import InlineMarkup.Proofs.Host.Naming

/-!
String literals: the literal that is written for a text is read as one token and stands on one line,
and a longer text has a longer literal.
-/

set_option autoImplicit false

namespace InlineMarkup.Host.Lexeme

open InlineMarkup.Text

theorem hexDigit?_digitChar {n : Nat} (h : n < 16) : Markup.hexDigit? n.digitChar = some n := by
  have : ∀ n < 16, Markup.hexDigit? (Nat.digitChar n) = some n := by decide
  exact this n h

theorem cookedFrom_digit {n count value : Nat} (hn : n < 16) (hcount : count < 6)
    (rest : List Char) :
    cookedFrom .text (.unicodeDigits count value) (n.digitChar :: rest) =
      cookedFrom .text (.unicodeDigits (count + 1) (value * 16 + n)) rest := by
  have hne : count ≠ 6 := by omega
  simp [cookedFrom, afterUnicodeDigit, hexDigit?_digitChar hn, hne]

theorem cookedFrom_hex (n : Nat) (h : (hex n).length ≤ 6) (rest : List Char) :
    cookedFrom .text (.unicodeDigits 0 0) (hex n ++ rest) =
      cookedFrom .text (.unicodeDigits (hex n).length n) rest := by
  induction n using Nat.strongRecOn generalizing rest with
  | ind n ih =>
    unfold hex at *
    by_cases hn : n < 16
    · rw [Nat.toDigits_of_lt_base hn, List.singleton_append, cookedFrom_digit hn (by omega)]
      simp
    · have hdigits := Nat.toDigits_of_base_le (b := 16) (n := n) (by decide) (by omega)
      rw [hdigits, List.length_append, List.length_singleton] at h
      have hvalue : n / 16 * 16 + n % 16 = n := by omega
      rw [hdigits, List.append_assoc, ih (n / 16) (by omega) (by omega), List.singleton_append,
        cookedFrom_digit (by omega) (by omega), hvalue, List.length_append, List.length_singleton]

theorem cookedFrom_unicode (c : Char) (rest : List Char) :
    cookedFrom .text .body (['\\', 'u', '\x7b'] ++ hex c.toNat ++ ['\x7d'] ++ rest) =
      cookedFrom .text .body rest := by
  have hvalid : c.toNat.isValidChar := c.valid
  have hlength : (hex c.toNat).length ≤ 6 := by
    refine (Nat.length_toDigits_le_iff (by decide) (by decide)).2 ?_
    rcases hvalid with h | h <;> omega
  have hpos : (hex c.toNat).length ≠ 0 := by
    have := Nat.length_toDigits_pos (b := 16) (n := c.toNat)
    unfold hex
    omega
  have hopen : cookedFrom .text .body (['\\', 'u', '\x7b'] ++ hex c.toNat ++ ['\x7d'] ++ rest) =
      cookedFrom .text (.unicodeDigits 0 0) (hex c.toNat ++ '\x7d' :: rest) := by
    simp [cookedFrom, afterBody, afterBackslash]
  have hbrace : Markup.hexDigit? '\x7d' = none := by decide
  rw [hopen, cookedFrom_hex c.toNat (by omega)]
  simp [cookedFrom, afterUnicodeDigit, hbrace, hpos, hvalid]

/-- Every character of a literal's body is passed over as a whole. -/
theorem cookedFrom_escapeChar {c : Char} (hc : c ≠ '\x00') (rest : List Char) :
    cookedFrom .text .body (escapeChar c ++ rest) = cookedFrom .text .body rest := by
  unfold escapeChar
  split
  · rfl
  · split
    · rfl
    · split
      · rfl
      · split
        · rfl
        · split
          · rfl
          · rename_i htab hreturn hfeed hquote hbackslash
            split
            · exact cookedFrom_unicode c rest
            · simp [cookedFrom, afterBody, hreturn, hquote, hbackslash, StringKind.admits]

theorem cookedFrom_literalBody (v rest : List Char) :
    cookedFrom .text .body (literalBody v ++ rest) = cookedFrom .text .body rest := by
  fun_induction literalBody v with
  | case1 => rfl
  | case2 d s hd ih =>
    rw [List.append_assoc, ← ih]
    rfl
  | case3 d s hd ih =>
    rw [List.append_assoc, ← ih]
    rfl
  | case4 => rfl
  | case5 c s hc ih =>
    rw [List.append_assoc, cookedFrom_escapeChar hc, ih]

theorem literal?_stringLiteral (v : List Char) : literal? (stringLiteral v) = some [] := by
  have hstring : string? (stringLiteral v) = some [] := by
    have := cookedFrom_literalBody v ['"']
    simpa [string?, stringLiteral, cookedFrom, afterBody] using this
  simp [literal?, hstring, dropSuffix, plainWord?]

theorem escapeChar_ne_nil (c : Char) : escapeChar c ≠ [] := by
  unfold escapeChar
  repeat' split
  all_goals simp

theorem literalBody_ne_nil {v : List Char} (h : v ≠ []) : literalBody v ≠ [] := by
  unfold literalBody
  split
  · exact absurd rfl h
  · repeat' split
    all_goals simp
  · simp [escapeChar_ne_nil]

theorem length_literalBody_append (v : List Char) {x : List Char} (hx : x ≠ []) :
    (literalBody v).length < (literalBody (v ++ x)).length := by
  fun_induction literalBody v with
  | case1 => exact List.length_pos_iff.2 (literalBody_ne_nil hx)
  | case2 d s hd ih =>
    simp only [List.cons_append] at ih ⊢
    rw [literalBody.eq_def ('\x00' :: d :: (s ++ x))]
    simpa [hd] using ih
  | case3 d s hd ih =>
    simp only [List.cons_append] at ih ⊢
    rw [literalBody.eq_def ('\x00' :: d :: (s ++ x))]
    simpa [hd] using ih
  | case4 =>
    have := List.length_pos_iff.2 (literalBody_ne_nil hx)
    cases x with
    | nil => exact absurd rfl hx
    | cons d s =>
      simp only [List.cons_append, List.nil_append]
      rw [literalBody.eq_def ('\x00' :: d :: s)]
      simp only
      split <;> simp only [List.length_append, List.length_cons, List.length_nil] <;> omega
  | case5 c s hc ih =>
    simpa [literalBody, hc] using ih

theorem stringLiteral_append_ne (v : List Char) {x : List Char} (hx : x ≠ []) :
    stringLiteral (v ++ x) ≠ stringLiteral v := by
  intro h
  have := congrArg List.length h
  have := length_literalBody_append v hx
  simp only [stringLiteral, List.length_cons, List.length_append] at *
  omega

theorem lineFeed_not_mem_hex (n : Nat) : '\n' ∉ hex n := by
  induction n using Nat.strongRecOn with
  | ind n ih =>
    unfold hex at *
    by_cases hn : n < 16
    · rw [Nat.toDigits_of_lt_base hn]
      simp
    · rw [Nat.toDigits_of_base_le (b := 16) (n := n) (by decide) (by omega)]
      simpa using ih (n / 16) (by omega)

theorem lineFeed_not_mem_escapeChar (c : Char) : '\n' ∉ escapeChar c := by
  unfold escapeChar
  by_cases hc : c = '\n'
  · subst hc
    decide
  · repeat' split
    all_goals simp [lineFeed_not_mem_hex, Ne.symm hc]

theorem lineFeed_not_mem_stringLiteral (v : List Char) : '\n' ∉ stringLiteral v := by
  have hbody : '\n' ∉ literalBody v := by
    fun_induction literalBody v with
    | case1 => simp
    | case2 d s hd ih => simpa using ih
    | case3 d s hd ih => simpa using ih
    | case4 => simp
    | case5 c s hc ih => simpa using ⟨lineFeed_not_mem_escapeChar c, ih⟩
  simpa [stringLiteral] using hbody

end InlineMarkup.Host.Lexeme

namespace InlineMarkup.Host

open InlineMarkup.Text

/-- The literal of a text is read as one token. -/
theorem reads_stringLiteral {tail : List Char} (hb : Lexeme.Breaks tail) (v : List Char)
    (m : Mark) :
    ∃ span m', Reads ⟨stringLiteral v ++ tail, m⟩ [.literal (stringLiteral v) span] ⟨tail, m'⟩ := by
  have h := Lexeme.literal?_append_stop hb.stops (Lexeme.literal?_stringLiteral v)
  exact ⟨_, _, reads_literal h m⟩

end InlineMarkup.Host
