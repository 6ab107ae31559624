import InlineMarkup.Proofs.Location
import InlineMarkup.Proofs.Markup.Balance

/-!
Where the errors of markup are. What a fault is about goes on to the end of the text that was read,
so an error is found where a suffix of this text begins, which is between two of its characters.
-/

set_option autoImplicit false

namespace InlineMarkup.Markup

open InlineMarkup.Text

def TokenFault.text : TokenFault → List Char
  | .unterminatedTag tag => tag
  | .unterminatedComment comment => comment
  | .unterminatedValue _ value _ => value

theorem TokenFault.position_toError (input : List Char) (fault : TokenFault) :
    (fault.toError input).position = offsetOf input fault.text := by
  cases fault <;> rfl

theorem attributeValue_fault {name s name' value : List Char}
    (h : attributeValue name s = .error (.openValue name' value)) : value <:+ s := by
  unfold attributeValue at h
  split at h
  · cases h
  · rename_i c r hc
    split at h
    · split at h
      · cases h
        rw [← hc]
        exact List.dropWhile_suffix _
      · cases h
    · cases h

theorem attributeName_suffix (s : List Char) : (attributeName s).2 <:+ s := by
  have happend := splitAt_append endsAttributeName s
  unfold attributeName
  split
  · rename_i c r hs
    rw [hs] at happend
    exact (List.suffix_cons c r).trans ⟨[], happend⟩
  · rename_i name r _ hs
    rw [hs] at happend
    exact ⟨name, happend⟩

theorem readAttribute_fault {s name value : List Char}
    (h : readAttribute s = .error (.openValue name value)) : value <:+ s := by
  simp only [readAttribute] at h
  split at h
  · rename_i v hv
    have hvalue := attributeValue_fault (map_eq_error.1 h)
    have hblank : '=' :: v <:+ (attributeName s).2 := hv ▸ List.dropWhile_suffix _
    exact ((hvalue.trans (List.suffix_cons '=' v)).trans hblank).trans (attributeName_suffix s)
  · cases h

theorem tagRest_fault {s name value : List Char}
    (h : tagRest s = .error (.openValue name value)) : value <:+ s := by
  fun_induction tagRest s with
  | case1 => cases h
  | case2 => cases h
  | case3 => cases h
  | case4 s r hr hb hl hc ih =>
    have hs : '/' :: r <:+ s := hb ▸ List.dropWhile_suffix _
    exact ((ih h).trans (List.suffix_cons '/' r)).trans hs
  | case5 s c r hb hl hc hs e ha =>
    cases h
    have hcr : c :: r <:+ s := hb ▸ List.dropWhile_suffix _
    exact (readAttribute_fault ha).trans hcr
  | case6 s c r hb hl hc hs a r' ha hlt ih =>
    obtain ⟨w, -, hw, -⟩ := readAttribute_local (by simp) ha
    have hcr : c :: r <:+ s := hb ▸ List.dropWhile_suffix _
    exact ((ih (map_eq_error.1 h)).trans ⟨w, hw.symm⟩).trans hcr

theorem startTag_fault {s : List Char} {fault : TokenFault} (h : startTag s = .error fault) :
    fault.text <:+ s := by
  simp only [startTag] at h
  split at h
  · cases h
  · cases h
    exact List.suffix_refl s
  · rename_i hrest
    cases h
    exact ((tagRest_fault hrest).trans (splitAt_suffix _ _)).trans (List.drop_suffix 1 s)

theorem next_fault {s : List Char} {fault : TokenFault} (h : next s = .error fault) :
    fault.text <:+ s := by
  cases s with
  | nil => cases h
  | cons c s =>
    simp only [next] at h
    split at h
    · have hc := map_eq_error.1 h
      unfold commentToken at hc
      split at hc
      · cases hc
      · cases hc
        exact List.suffix_refl _
    · split at h
      · split at h
        · have ht := map_eq_error.1 h
          simp only [endTag] at ht
          split at ht
          · cases ht
          · cases ht
            exact List.suffix_refl _
        · exact startTag_fault (map_eq_error.1 h)
      · cases h

theorem Refuses.position_eq {input start rest : List Char} {opened : List Element} {t : Token}
    {e : Error} (h : Refuses input start rest opened t e) : e.position = offsetOf input start := by
  cases h <;> rfl

theorem readFrom_fault {input start : List Char} {opened : List Element} {e : Error}
    (h : readFrom input opened start = .error e) (hs : start <:+ input) :
    IsBoundary input e.position := by
  fun_induction readFrom input opened start with
  | case1 opened start fault hn =>
    cases h
    rw [TokenFault.position_toError]
    exact isBoundary_offsetOf ((next_fault hn).trans hs)
  | case2 opened start hn =>
    cases opened with
    | nil => cases h
    | cons element opened =>
      cases h
      exact isBoundary_byteLength input
  | case3 opened start t rest hn hlt error ha =>
    cases h
    rw [(advance_eq_error_iff.1 ha).position_eq]
    exact isBoundary_offsetOf hs
  | case4 => cases h
  | case5 => cases h
  | case6 opened start t rest hn hlt opened' ha ih =>
    exact ih h (((List.suffix_append _ rest).trans (next_suffix hn)).trans hs)

/-- The error of a text that is no region lies within the text, between two characters. -/
theorem capture_fault {input : List Char} {e : Error} (h : capture input = .error e) :
    IsBoundary input e.position := by
  unfold capture at h
  split at h
  · exact readFrom_fault (map_eq_error.1 h) (List.suffix_refl input)
  · cases h

end InlineMarkup.Markup
