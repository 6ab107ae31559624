import InlineMarkup.Markup.Reference
import InlineMarkup.Proofs.Basic

/-!
Escapes are undone by reading the references they are written as. Escaped text has no `<` left in it,
and an escaped value no double quote, so neither can end early.
-/

set_option autoImplicit false

namespace InlineMarkup.Markup

open InlineMarkup.Text

theorem decode_cons {c : Char} (hc : c ≠ '&') (s : List Char) : decode (c :: s) = c :: decode s := by
  rw [decode, if_neg hc]

theorem decode_reference {c : Char} {s rest : List Char} (h : referenceAt? s = some (c, rest)) :
    decode ('&' :: s) = c :: decode rest := by
  rw [decode, if_pos rfl]
  split
  · rename_i d r hr
    rw [h] at hr
    cases hr
    rfl
  · rename_i hr
    rw [h] at hr
    cases hr

theorem referenceAt?_append {body : List Char} {c : Char} (hbody : reference? body = some c)
    (hend : ';' ∉ body) (hlength : body.length < referenceReach) (rest : List Char) :
    referenceAt? (body ++ ';' :: rest) = some (c, rest) := by
  have hplain : ∀ d ∈ body, (d != ';') = true := by
    intro d hd
    simpa using ne_of_mem_of_not_mem hd hend
  have htake : (body ++ ';' :: rest).take referenceReach =
      body ++ ';' :: rest.take (referenceReach - body.length - 1) := by
    obtain ⟨k, hk⟩ : ∃ k, referenceReach - body.length = k + 1 :=
      ⟨_, (Nat.sub_add_cancel (by omega)).symm⟩
    rw [List.take_append, List.take_of_length_le (by omega), hk]
    rfl
  have hfound : ((body ++ ';' :: rest).take referenceReach).takeWhile (· != ';') = body := by
    rw [htake]
    exact takeWhile_append_stop _ hplain (by simp)
  unfold referenceAt?
  simp only [hfound, if_pos hlength, List.drop_left, hbody, Option.map_some]

/-- What is written for a character is read as that character, whatever follows. -/
def Escapes (f : Char → List Char) : Prop :=
  ∀ c t, decode (f c ++ t) = c :: decode t

theorem Escapes.decode_flatMap {f : Char → List Char} (h : Escapes f) (s : List Char) :
    decode (s.flatMap f) = s := by
  induction s with
  | nil => simp [decode]
  | cons c s ih => rw [List.flatMap_cons, h, ih]

theorem decode_named (body : List Char) {c : Char} (hbody : reference? body = some c)
    (hend : ';' ∉ body) (hlength : body.length < referenceReach) (t : List Char) :
    decode ('&' :: body ++ [';'] ++ t) = c :: decode t := by
  rw [List.append_assoc]
  exact decode_reference (referenceAt?_append hbody hend hlength t)

theorem escapes_text : Escapes escapeTextChar := by
  intro c t
  unfold escapeTextChar
  split
  · rename_i hc
    rw [hc]
    exact decode_named "amp".toList rfl (by decide) (by decide) t
  · rename_i hamp
    split
    · rename_i hc
      rw [hc]
      exact decode_named "lt".toList rfl (by decide) (by decide) t
    · split
      · rename_i hc
        rw [hc]
        exact decode_named "gt".toList rfl (by decide) (by decide) t
      · exact decode_cons hamp t

theorem escapes_value : Escapes escapeValueChar := by
  intro c t
  unfold escapeValueChar
  split
  · rename_i hc
    rw [hc]
    exact decode_named "amp".toList rfl (by decide) (by decide) t
  · rename_i hamp
    split
    · rename_i hc
      rw [hc]
      exact decode_named "quot".toList rfl (by decide) (by decide) t
    · exact decode_cons hamp t

theorem decode_escapeText (s : List Char) : decode (escapeText s) = s :=
  escapes_text.decode_flatMap s

theorem decode_escapeValue (s : List Char) : decode (escapeValue s) = s :=
  escapes_value.decode_flatMap s

theorem escapeText_append (s t : List Char) : escapeText (s ++ t) = escapeText s ++ escapeText t :=
  List.flatMap_append

theorem escapeText_ne_nil {s : List Char} (h : s ≠ []) : escapeText s ≠ [] := by
  cases s with
  | nil => exact absurd rfl h
  | cons c s =>
    have : escapeTextChar c ≠ [] := by
      unfold escapeTextChar
      split_ifs <;> simp
    simp [escapeText, this]

theorem angle_not_mem_escapeText (s : List Char) : '<' ∉ escapeText s := by
  intro h
  obtain ⟨c, -, hc⟩ := List.mem_flatMap.1 h
  unfold escapeTextChar at hc
  split_ifs at hc
  · exact absurd hc (by decide)
  · exact absurd hc (by decide)
  · exact absurd hc (by decide)
  · rename_i hangle _
    exact hangle (List.mem_singleton.1 hc).symm

theorem quote_not_mem_escapeValue (s : List Char) : '"' ∉ escapeValue s := by
  intro h
  obtain ⟨c, -, hc⟩ := List.mem_flatMap.1 h
  unfold escapeValueChar at hc
  split_ifs at hc
  · exact absurd hc (by decide)
  · exact absurd hc (by decide)
  · rename_i hquote
    exact hquote (List.mem_singleton.1 hc).symm

end InlineMarkup.Markup
