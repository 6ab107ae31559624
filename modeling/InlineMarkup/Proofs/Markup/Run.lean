import InlineMarkup.Markup.Region
import InlineMarkup.Proofs.Basic

/-!
Reading markup token by token. What one token does to the open elements is said once, by the rules
`Advances` and `Refuses`.

From one token to the next, reading goes from some open elements and the text that is left to others
(`Reaches`), up to the place where it stops (`Stops`). Its result is that of this place
(`exists_stop`).
-/

set_option autoImplicit false

namespace InlineMarkup.Markup

open InlineMarkup.Text

theorem eq_nil_of_next {s : List Char} (h : next s = .ok none) : s = [] := by
  cases s with
  | nil => rfl
  | cons c s =>
    simp only [next] at h
    split at h
    · obtain ⟨_, -, h⟩ := map_eq_ok.1 h
      cases h
    · split at h
      · split at h <;> obtain ⟨_, -, h⟩ := map_eq_ok.1 h <;> cases h
      · cases h

theorem readFrom_of_fault {input start : List Char} {fault : TokenFault}
    (h : next start = .error fault) (opened : List Element) :
    readFrom input opened start = .error (fault.toError input) := by
  rw [readFrom]
  split <;> rename_i h' <;> rw [h] at h' <;> cases h'
  rfl

theorem readFrom_nil (input : List Char) (opened : List Element) :
    readFrom input opened [] = atEnd input opened := by
  rw [readFrom]
  split <;> rename_i h <;> cases h
  rfl

theorem readFrom_of_next {input start rest : List Char} {opened : List Element} {t : Token}
    (h : next start = .ok (some (t, rest))) :
    readFrom input opened start =
      match advance input start rest opened t with
      | .error e => .error e
      | .ok .notMarkup => .ok none
      | .ok (.root e) => .ok (some (e, rest))
      | .ok (.more opened) => readFrom input opened rest := by
  rw [readFrom]
  split <;> rename_i h' <;> rw [h] at h'
  · cases h'
  · cases h'
  · obtain ⟨rfl, rfl⟩ := Prod.mk.inj (Option.some.inj (Except.ok.inj h'))
    rfl

/-- What a token does that fits. -/
inductive Advances : List Element → Token → Progress → Prop
  | comment {opened : List Element} : Advances opened .comment (.more opened)
  | blank {opened : List Element} {raw : List Char} :
      trim (decode raw) = [] → Advances opened (.text raw) (.more opened)
  | content {e : Element} {es : List Element} {raw : List Char} :
      trim (decode raw) ≠ [] → (trim (decode raw)).head? ≠ some ';' →
      Advances (e :: es) (.text raw) (.more (e.push (.text (trim (decode raw))) :: es))
  | outside {raw : List Char} : trim (decode raw) ≠ [] → Advances [] (.text raw) .notMarkup
  | selfClosing {opened : List Element} {name : List Char} {attributes : List Attribute}
      {p : Progress} : finish ⟨name, attributes, []⟩ opened = p →
      Advances opened (.startTag name attributes true) p
  | opens {opened : List Element} {name : List Char} {attributes : List Attribute} :
      Advances opened (.startTag name attributes false) (.more (⟨name, attributes, []⟩ :: opened))
  | closes {e : Element} {es : List Element} {p : Progress} :
      finish e es = p → Advances (e :: es) (.endTag e.name) p

/-- The error of a token that does not fit. -/
inductive Refuses (input start rest : List Char) : List Element → Token → Error → Prop
  | trailing {e : Element} {es : List Element} {raw : List Char} :
      (trim (decode raw)).head? = some ';' →
      Refuses input start rest (e :: es) (.text raw)
        (Error.trailingContent (offsetOf input start) (String.ofList e.name)
          (String.ofList (trim (decode raw))))
  | stray {name : List Char} :
      Refuses input start rest [] (.endTag name)
        { Error.strayClosingTag (offsetOf input start) (String.ofList name) with
          snippet := String.ofList (start.take (start.length - rest.length)) }
  | mismatch {e : Element} {es : List Element} {name : List Char} : e.name ≠ name →
      Refuses input start rest (e :: es) (.endTag name)
        { Error.tagMismatch (offsetOf input start) (String.ofList e.name) (String.ofList name) with
          snippet := String.ofList (input.take (input.length - rest.length)) }

section Token

variable {input start rest : List Char} {opened : List Element} {t : Token}

theorem Advances.advance_eq {p : Progress} (h : Advances opened t p) :
    advance input start rest opened t = .ok p := by
  cases h with
  | comment => rfl
  | blank hblank => simp only [advance, addText, if_pos hblank]
  | content hne hsemi => simp only [advance, addText, if_neg hne, if_neg hsemi]
  | outside hne => simp only [advance, addText, if_neg hne]
  | selfClosing hfinish => simp only [advance, if_true, hfinish]
  | opens => rfl
  | closes hfinish => simp only [advance, closeTag, if_true, hfinish]

theorem Refuses.advance_eq {e : Error} (h : Refuses input start rest opened t e) :
    advance input start rest opened t = .error e := by
  cases h with
  | @trailing _ _ raw hsemi =>
    have hne : trim (decode raw) ≠ [] := fun hnil => by simp [hnil] at hsemi
    simp only [advance, addText, if_neg hne, if_pos hsemi]
  | stray => rfl
  | mismatch hne => simp only [advance, closeTag, if_neg hne]

theorem advances_or_refuses (input start rest : List Char) (opened : List Element) (t : Token) :
    (∃ p, Advances opened t p) ∨ ∃ e, Refuses input start rest opened t e := by
  cases t with
  | comment => exact .inl ⟨_, .comment⟩
  | text raw =>
    by_cases hne : trim (decode raw) = []
    · exact .inl ⟨_, .blank hne⟩
    · cases opened with
      | nil => exact .inl ⟨_, .outside hne⟩
      | cons e es =>
        by_cases hsemi : (trim (decode raw)).head? = some ';'
        · exact .inr ⟨_, .trailing hsemi⟩
        · exact .inl ⟨_, .content hne hsemi⟩
  | startTag name attributes selfClosing =>
    cases selfClosing with
    | true => exact .inl ⟨_, .selfClosing rfl⟩
    | false => exact .inl ⟨_, .opens⟩
  | endTag name =>
    cases opened with
    | nil => exact .inr ⟨_, .stray⟩
    | cons e es =>
      by_cases hname : e.name = name
      · subst hname
        exact .inl ⟨_, .closes rfl⟩
      · exact .inr ⟨_, .mismatch hname⟩

theorem advance_eq_ok_iff {p : Progress} :
    advance input start rest opened t = .ok p ↔ Advances opened t p := by
  refine ⟨fun h => ?_, Advances.advance_eq⟩
  rcases advances_or_refuses input start rest opened t with ⟨p', hp⟩ | ⟨e, he⟩
  · rw [hp.advance_eq] at h
    cases h
    exact hp
  · rw [he.advance_eq] at h
    cases h

theorem advance_eq_error_iff {e : Error} :
    advance input start rest opened t = .error e ↔ Refuses input start rest opened t e := by
  refine ⟨fun h => ?_, Refuses.advance_eq⟩
  rcases advances_or_refuses input start rest opened t with ⟨p, hp⟩ | ⟨e', he⟩
  · rw [hp.advance_eq] at h
    cases h
  · rw [he.advance_eq] at h
    cases h
    exact he

end Token

/-- Reading `input` goes from some open elements, with the text `start` left, to others. -/
inductive Reaches (input : List Char) :
    List Element → List Char → List Element → List Char → Prop
  | here {opened : List Element} {start : List Char} : Reaches input opened start opened start
  | step {opened opened' last : List Element} {start rest left : List Char} {t : Token} :
      next start = .ok (some (t, rest)) → advance input start rest opened t = .ok (.more opened') →
      Reaches input opened' rest last left → Reaches input opened start last left

/-- Reading `input` stops before the token at `start`, or with it. -/
inductive Stops (input : List Char) (opened : List Element) (start : List Char) :
    Except Error (Option (Element × List Char)) → Prop
  | illFormed {fault : TokenFault} :
      next start = .error fault → Stops input opened start (.error (fault.toError input))
  | ended : start = [] → Stops input opened start (atEnd input opened)
  | refused {t : Token} {rest : List Char} {e : Error} : next start = .ok (some (t, rest)) →
      advance input start rest opened t = .error e → Stops input opened start (.error e)
  | notMarkup {t : Token} {rest : List Char} : next start = .ok (some (t, rest)) →
      advance input start rest opened t = .ok .notMarkup → Stops input opened start (.ok none)
  | closed {t : Token} {rest : List Char} {root : Element} : next start = .ok (some (t, rest)) →
      advance input start rest opened t = .ok (.root root) →
      Stops input opened start (.ok (some (root, rest)))

theorem Reaches.readFrom_eq {input start left : List Char} {opened last : List Element}
    (h : Reaches input opened start last left) :
    readFrom input opened start = readFrom input last left := by
  induction h with
  | here => rfl
  | step ht ha _ ih => rw [readFrom_of_next ht, ha, ← ih]

/-- Every reading stops, and its result is that of the place where it stops. -/
theorem exists_stop (input : List Char) (opened : List Element) (start : List Char) :
    ∃ last left, Reaches input opened start last left ∧
      Stops input last left (readFrom input opened start) := by
  fun_induction readFrom input opened start with
  | case1 opened start fault hf => exact ⟨opened, start, .here, .illFormed hf⟩
  | case2 opened start hend => exact ⟨opened, start, .here, .ended (eq_nil_of_next hend)⟩
  | case3 opened start t rest ht hlt e ha => exact ⟨opened, start, .here, .refused ht ha⟩
  | case4 opened start t rest ht hlt ha => exact ⟨opened, start, .here, .notMarkup ht ha⟩
  | case5 opened start t rest ht hlt root ha => exact ⟨opened, start, .here, .closed ht ha⟩
  | case6 opened start t rest ht hlt opened' ha ih =>
    obtain ⟨last, left, hreach, hstop⟩ := ih
    exact ⟨last, left, .step ht ha hreach, hstop⟩

end InlineMarkup.Markup
