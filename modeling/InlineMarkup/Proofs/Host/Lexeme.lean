import InlineMarkup.Host.Lexeme
import InlineMarkup.Proofs.Basic

/-!
Lexemes are read from the front of a text. A recognizer takes one character at least, and what it
takes does not change when a bracket, a comma or a colon is put behind the text.
-/

set_option autoImplicit false

namespace InlineMarkup.Host.Lexeme

open InlineMarkup.Text

def Shortens (s rest : List Char) : Prop :=
  ∃ u, u ≠ [] ∧ s = u ++ rest

theorem Shortens.length_lt {s rest : List Char} (h : Shortens s rest) :
    rest.length < s.length := by
  obtain ⟨u, hu, rfl⟩ := h
  have := List.length_pos_iff.2 hu
  simp only [List.length_append]
  omega

theorem Shortens.suffix {s rest : List Char} (h : Shortens s rest) : rest <:+ s := by
  obtain ⟨u, -, rfl⟩ := h
  exact List.suffix_append u rest

theorem shortens_cons {s rest : List Char} (c : Char) (h : rest <:+ s) : Shortens (c :: s) rest := by
  obtain ⟨u, rfl⟩ := h
  exact ⟨c :: u, by simp, rfl⟩

theorem Shortens.trans_suffix {s t rest : List Char} (h : Shortens s t) (ht : rest <:+ t) :
    Shortens s rest := by
  obtain ⟨u, hu, rfl⟩ := h
  obtain ⟨v, rfl⟩ := ht
  exact ⟨u ++ v, by simp [hu], by simp⟩

theorem before_append (u rest : List Char) : before (u ++ rest) rest = u := by
  simp [before]

theorem plainWord?_shortens {s rest : List Char} (h : plainWord? s = some rest) :
    Shortens s rest := by
  cases s with
  | nil => cases h
  | cons c s =>
    simp only [plainWord?] at h
    split at h
    · cases h
      exact shortens_cons c (List.dropWhile_suffix _)
    · cases h

theorem dropSuffix_suffix (s : List Char) : dropSuffix s <:+ s := by
  unfold dropSuffix
  cases h : plainWord? s with
  | none => exact List.suffix_refl s
  | some rest => exact (plainWord?_shortens h).suffix

theorem anyWord?_shortens {s rest : List Char} (h : anyWord? s = some rest) : Shortens s rest := by
  unfold anyWord? at h
  split at h
  · rename_i s
    obtain ⟨r, hr, h⟩ := Option.bind_eq_some_iff.1 h
    split at h
    · cases h
    · cases h
      exact shortens_cons 'r' ((plainWord?_shortens hr).suffix.trans (List.suffix_cons '#' s))
  · exact plainWord?_shortens h

theorem word?_shortens {s rest : List Char} (h : word? s = some rest) : Shortens s rest := by
  unfold word? at h
  split at h
  · cases h
  · exact anyWord?_shortens h

theorem cookedFrom_suffix {kind : StringKind} {place : StringPlace} {s rest : List Char}
    (h : cookedFrom kind place s = some rest) : rest <:+ s := by
  fun_induction cookedFrom kind place s <;>
    first
    | (rename_i ih; exact (ih h).trans (List.suffix_cons _ _))
    | (cases h; exact List.suffix_cons _ _)
    | cases h

theorem rawFrom_suffix {kind : StringKind} {hashes : Nat} {s rest : List Char}
    (h : rawFrom kind hashes s = some rest) : rest <:+ s := by
  fun_induction rawFrom kind hashes s with
  | case1 => cases h
  | case2 s ih => exact (ih h).trans ((List.suffix_cons '\n' s).trans (List.suffix_cons '\r' _))
  | case3 => cases h
  | case4 c s =>
    cases h
    exact (List.drop_suffix _ s).trans (List.suffix_cons c s)
  | case5 c s _ _ _ _ ih => exact (ih h).trans (List.suffix_cons c s)
  | case6 => cases h

theorem raw?_suffix {kind : StringKind} {s rest : List Char} (h : raw? kind s = some rest) :
    rest <:+ s := by
  simp only [raw?] at h
  split at h
  · rename_i body hbody
    split at h
    · cases h
    · exact (rawFrom_suffix h).trans ((List.suffix_cons '"' body).trans
        (hbody ▸ List.drop_suffix _ s))
  · cases h

theorem string?_shortens {s rest : List Char} (h : string? s = some rest) : Shortens s rest := by
  unfold string? at h
  split at h
  · exact shortens_cons _ (cookedFrom_suffix h)
  · exact shortens_cons _ (raw?_suffix h)
  · exact shortens_cons _ ((cookedFrom_suffix h).trans (List.suffix_cons _ _))
  · exact shortens_cons _ ((raw?_suffix h).trans (List.suffix_cons _ _))
  · exact shortens_cons _ ((cookedFrom_suffix h).trans (List.suffix_cons _ _))
  · exact shortens_cons _ ((raw?_suffix h).trans (List.suffix_cons _ _))
  · cases h

theorem unicodeEscape?_suffix {count value : Nat} {s rest : List Char}
    (h : unicodeEscape? count value s = some rest) : rest <:+ s := by
  induction s generalizing count value with
  | nil => cases h
  | cons c s ih =>
    simp only [unicodeEscape?] at h
    split at h
    · exact (ih h).trans (List.suffix_cons c s)
    · cases h
      exact List.suffix_cons c _
    · cases h

theorem escape?_suffix {kind : StringKind} {s rest : List Char} (h : escape? kind s = some rest) :
    rest <:+ s := by
  unfold escape? at h
  split at h
  · split at h
    · split at h
      · cases h
        exact (List.suffix_cons _ _).trans ((List.suffix_cons _ _).trans (List.suffix_cons _ _))
      · cases h
    · cases h
  · rename_i s
    split at h
    · exact (unicodeEscape?_suffix h).trans
        ((List.suffix_cons '\x7b' s).trans (List.suffix_cons 'u' _))
    · cases h
  · split at h
    · cases h
      exact List.suffix_cons _ _
    · cases h
  · cases h

theorem characterBody?_suffix {kind : StringKind} {s rest : List Char}
    (h : characterBody? kind s = some rest) : rest <:+ s := by
  unfold characterBody? at h
  split at h
  · cases h
  · rename_i s
    exact (escape?_suffix h).trans (List.suffix_cons '\\' s)
  · split at h
    · cases h
      exact List.suffix_cons _ _
    · cases h

theorem eq_append_of_strip? {p s rest : List Char} (h : strip? p s = some rest) :
    s = p ++ rest := by
  induction p generalizing s with
  | nil => exact Option.some.inj h
  | cons c p ih =>
    cases s with
    | nil => cases h
    | cons d s =>
      simp only [strip?] at h
      split at h
      · rename_i hcd
        rw [hcd, ih h]
        rfl
      · cases h

theorem character?_shortens {s rest : List Char} (h : character? s = some rest) :
    Shortens s rest := by
  unfold character? at h
  split at h
  · obtain ⟨r, hr, h⟩ := Option.bind_eq_some_iff.1 h
    obtain rfl := eq_append_of_strip? h
    exact shortens_cons _ ((List.suffix_append _ rest).trans (characterBody?_suffix hr))
  · obtain ⟨r, hr, h⟩ := Option.bind_eq_some_iff.1 h
    obtain rfl := eq_append_of_strip? h
    exact shortens_cons _ (((List.suffix_append _ rest).trans (characterBody?_suffix hr)).trans
      (List.suffix_cons _ _))
  · cases h

theorem mantissa?_suffix {point point' : Bool} {s rest : List Char}
    (h : mantissa? point s = some (point', rest)) : rest <:+ s := by
  fun_induction mantissa? point s <;>
    first
    | (rename_i ih; exact (ih h).trans (List.suffix_cons _ _))
    | (cases h; exact List.suffix_refl _)
    | (cases h; exact List.nil_suffix)
    | cases h

theorem exponent?_suffix {signed valued : Bool} {s rest : List Char}
    (h : exponent? signed valued s = some rest) : rest <:+ s := by
  fun_induction exponent? signed valued s <;>
    first
    | (rename_i ih; exact (ih h).trans (List.suffix_cons _ _))
    | (cases h; exact List.suffix_refl _)
    | cases h

theorem floatDigits?_shortens {s rest : List Char} (h : floatDigits? s = some rest) :
    Shortens s rest := by
  unfold floatDigits? at h
  split at h
  · rename_i d digits
    split at h
    · obtain ⟨⟨point, r⟩, hm, h⟩ := Option.bind_eq_some_iff.1 h
      refine shortens_cons d ?_
      have hr := mantissa?_suffix hm
      simp only at h
      split at h
      · rename_i c exponent
        split at h
        · split at h
          · rename_i after hafter
            cases h
            exact (exponent?_suffix hafter).trans ((List.suffix_cons c _).trans hr)
          · split at h
            · cases h
              exact hr
            · cases h
        · split at h
          · cases h
            exact hr
          · cases h
      · split at h
        · cases h
          exact hr
        · cases h
    · cases h
  · cases h

theorem integerDigits?_suffix {base : Nat} {met : Bool} {s rest : List Char}
    (h : integerDigits? base met s = some rest) : rest <:+ s := by
  fun_induction integerDigits? base met s <;>
    first
    | (rename_i ih; exact (ih h).trans (List.suffix_cons _ _))
    | (cases h; exact List.suffix_refl _)
    | cases h

theorem integerDigits?_shortens {base : Nat} {s rest : List Char}
    (h : integerDigits? base false s = some rest) : Shortens s rest := by
  cases s with
  | nil => cases h
  | cons c s =>
    refine shortens_cons c ?_
    simp only [integerDigits?, Bool.false_eq_true, if_false] at h
    split at h
    · split at h
      · cases h
      · exact integerDigits?_suffix h
    · split at h
      · split at h
        · exact integerDigits?_suffix h
        · split at h <;> cases h
      · cases h

theorem integer?_shortens {s rest : List Char} (h : integer? s = some rest) : Shortens s rest := by
  unfold integer? at h
  split at h
  · exact shortens_cons _ ((integerDigits?_suffix h).trans (List.suffix_cons _ _))
  · exact shortens_cons _ ((integerDigits?_suffix h).trans (List.suffix_cons _ _))
  · exact shortens_cons _ ((integerDigits?_suffix h).trans (List.suffix_cons _ _))
  · exact integerDigits?_shortens h

theorem numberEnd?_suffix {s rest : List Char} (h : numberEnd? s = some rest) : rest <:+ s := by
  simp only [numberEnd?] at h
  split at h
  · cases h
    exact dropSuffix_suffix s
  · cases h

theorem number?_shortens {s rest : List Char} (h : number? s = some rest) : Shortens s rest := by
  unfold number? at h
  split at h
  · rename_i r hr
    cases h
    obtain ⟨t, ht, hend⟩ := Option.bind_eq_some_iff.1 hr
    exact (floatDigits?_shortens ht).trans_suffix (numberEnd?_suffix hend)
  · obtain ⟨t, ht, hend⟩ := Option.bind_eq_some_iff.1 h
    exact (integer?_shortens ht).trans_suffix (numberEnd?_suffix hend)

theorem literal?_shortens {s rest : List Char} (h : literal? s = some rest) : Shortens s rest := by
  unfold literal? at h
  split at h
  · rename_i r hr
    cases h
    exact (string?_shortens hr).trans_suffix (dropSuffix_suffix r)
  · split at h
    · rename_i r hr
      cases h
      exact (character?_shortens hr).trans_suffix (dropSuffix_suffix r)
    · exact number?_shortens h

theorem drop_errorMark_shortens {s : List Char} (h : errorMark.isPrefixOf s = true) :
    Shortens s (s.drop errorMark.length) := by
  obtain ⟨rest, rfl⟩ := List.isPrefixOf_iff_prefix.1 h
  exact ⟨errorMark, by decide, by rw [List.drop_left]⟩

theorem punct?_eq_cons {s rest : List Char} {c : Char} {joint : Bool}
    (h : punct? s = some (c, joint, rest)) : s = c :: rest := by
  unfold punct? at h
  split at h
  · obtain ⟨after, -, h⟩ := Option.bind_eq_some_iff.1 h
    split at h <;> cases h
    rfl
  · split at h <;> cases h
    rfl
  · cases h

theorem blockCommentFrom_suffix {depth : Nat} {s rest : List Char}
    (h : blockCommentFrom depth s = some rest) : rest <:+ s := by
  fun_induction blockCommentFrom depth s with
  | case1 depth s ih => exact (ih h).trans ((List.suffix_cons _ s).trans (List.suffix_cons _ _))
  | case2 depth s hd =>
    cases h
    exact (List.suffix_cons _ _).trans (List.suffix_cons _ _)
  | case3 depth s hd ih => exact (ih h).trans ((List.suffix_cons _ s).trans (List.suffix_cons _ _))
  | case4 depth c s _ _ ih => exact (ih h).trans (List.suffix_cons c s)
  | case5 => cases h

theorem blockComment?_shortens {s rest : List Char} (h : blockComment? s = some rest) :
    Shortens s rest := by
  unfold blockComment? at h
  split at h
  · exact shortens_cons _ ((blockCommentFrom_suffix h).trans (List.suffix_cons _ _))
  · cases h

theorem lineEnd_suffix (s : List Char) : (lineEnd s).2 <:+ s := by
  fun_induction lineEnd s with
  | case1 => exact List.suffix_refl _
  | case2 => exact List.suffix_refl _
  | case3 s => exact List.suffix_cons _ _
  | case4 c s _ _ ih => exact ih.trans (List.suffix_cons c s)

theorem lineEnd_slash_shortens (s : List Char) : Shortens ('/' :: s) (lineEnd ('/' :: s)).2 := by
  have h : (lineEnd ('/' :: s)).2 = (lineEnd s).2 := by simp [lineEnd]
  rw [h]
  exact shortens_cons '/' (lineEnd_suffix s)

theorem plainComment?_shortens {s rest : List Char} (h : plainComment? s = some rest) :
    Shortens s rest := by
  unfold plainComment? at h
  split at h
  · cases h
  · cases h
    exact lineEnd_slash_shortens _
  · cases h
  · cases h
    exact lineEnd_slash_shortens _
  · cases h
    exact shortens_cons _ ((List.suffix_cons _ _).trans ((List.suffix_cons _ _).trans
      (List.suffix_cons _ _)))
  · cases h
  · exact blockComment?_shortens h
  · cases h
  · exact blockComment?_shortens h
  · cases h

theorem docCommentText?_shortens {s : List Char} {doc : DocComment}
    (h : docCommentText? s = some doc) : Shortens s doc.rest := by
  unfold docCommentText? at h
  split at h
  · cases h
    exact shortens_cons _ ((lineEnd_suffix _).trans ((List.suffix_cons _ _).trans
      (List.suffix_cons _ _)))
  · obtain ⟨r, hr, rfl⟩ := Option.map_eq_some_iff.1 h
    exact blockComment?_shortens hr
  · cases h
  · cases h
    exact shortens_cons _ ((lineEnd_suffix _).trans ((List.suffix_cons _ _).trans
      (List.suffix_cons _ _)))
  · cases h
  · obtain ⟨r, hr, rfl⟩ := Option.map_eq_some_iff.1 h
    exact blockComment?_shortens hr
  · cases h

theorem docComment?_shortens {s : List Char} {doc : DocComment} (h : docComment? s = some doc) :
    Shortens s doc.rest := by
  obtain ⟨d, hd, h⟩ := Option.bind_eq_some_iff.1 h
  split at h <;> cases h
  exact docCommentText?_shortens hd

end InlineMarkup.Host.Lexeme
