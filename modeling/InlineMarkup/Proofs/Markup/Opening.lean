import InlineMarkup.Proofs.Markup.Balance

/-!
How a text begins decides whether it is markup. From its first start tag on, an element is open until
reading stops (`Reaches.ne_nil`), so a text that begins with a start tag is a region or an error: it
is never found, halfway, to be no markup after all.
-/

set_option autoImplicit false

namespace InlineMarkup.Markup

open InlineMarkup.Text

def BeginsStartTag (input : List Char) : Prop :=
  ∃ c s, c.isLower = true ∧ input = '<' :: c :: s

def BeginsEndTag (input : List Char) : Prop :=
  ∃ c s, c.isLower = true ∧ input = '<' :: '/' :: c :: s

theorem opensTag_iff {input : List Char} :
    opensTag input = true ↔ BeginsStartTag input ∨ BeginsEndTag input := by
  constructor
  · intro h
    unfold opensTag at h
    split at h
    · exact .inr ⟨_, _, h, rfl⟩
    · exact .inl ⟨_, _, h, rfl⟩
    · cases h
  · rintro (⟨c, s, hc, rfl⟩ | ⟨c, s, hc, rfl⟩)
    · unfold opensTag
      split <;> simp_all
    · exact hc

/-- What reading comes to inside of an element: its region, or an error that is not that of an end
tag without an element. -/
def IsOfElement : Except Error (Option (Element × List Char)) → Prop
  | .ok none => False
  | .ok (some _) => True
  | .error e => e.fault ≠ .strayClosingTag

theorem finish_ne_nil {e : Element} {opened opened' : List Element}
    (h : finish e opened = .more opened') : opened' ≠ [] := by
  cases opened with
  | nil => cases h
  | cons parent opened =>
    cases h
    simp

theorem finish_ne_notMarkup (e : Element) (opened : List Element) :
    finish e opened ≠ .notMarkup := by
  cases opened <;> simp [finish]

theorem Advances.ne_nil {opened opened' : List Element} {t : Token}
    (h : Advances opened t (.more opened')) (hne : opened ≠ []) : opened' ≠ [] := by
  cases h with
  | comment => exact hne
  | blank => exact hne
  | content => simp
  | selfClosing hfinish => exact finish_ne_nil hfinish
  | opens => simp
  | closes hfinish => exact finish_ne_nil hfinish

theorem Advances.ne_notMarkup {opened : List Element} {t : Token} {p : Progress}
    (h : Advances opened t p) (hne : opened ≠ []) : p ≠ .notMarkup := by
  cases h with
  | outside => exact absurd rfl hne
  | selfClosing hfinish => exact hfinish ▸ finish_ne_notMarkup _ _
  | closes hfinish => exact hfinish ▸ finish_ne_notMarkup _ _
  | _ => simp

theorem Reaches.ne_nil {input start left : List Char} {opened last : List Element}
    (h : Reaches input opened start last left) (hne : opened ≠ []) : last ≠ [] := by
  induction h with
  | here => exact hne
  | step _ ha _ ih => exact ih ((advance_eq_ok_iff.1 ha).ne_nil hne)

theorem TokenFault.fault_ne_stray (input : List Char) (fault : TokenFault) :
    (fault.toError input).fault ≠ .strayClosingTag := by
  cases fault <;> simp [TokenFault.toError]

theorem Breaks.fault_ne_stray {input name start : List Char} {e : Error}
    (h : Breaks input name start e) : e.fault ≠ .strayClosingTag := by
  cases h with
  | mismatch => simp [Error.tagMismatch]
  | trailing => simp [Error.trailingContent]
  | ended => simp [Error.unexpectedEof]
  | illFormed => exact TokenFault.fault_ne_stray input _

theorem Stops.isOfElement {input start : List Char} {opened : List Element}
    {result : Except Error (Option (Element × List Char))} (h : Stops input opened start result)
    (hne : opened ≠ []) : IsOfElement result := by
  obtain ⟨e, es, rfl⟩ := List.exists_cons_of_ne_nil hne
  cases h with
  | illFormed => exact TokenFault.fault_ne_stray input _
  | ended => simp [atEnd, IsOfElement, Error.unexpectedEof]
  | refused ht ha => exact ((advance_eq_error_iff.1 ha).breaks ht).fault_ne_stray
  | notMarkup ht ha => exact absurd rfl ((advance_eq_ok_iff.1 ha).ne_notMarkup hne)
  | closed => trivial

theorem BeginsStartTag.isOfElement {input : List Char} (h : BeginsStartTag input) :
    IsOfElement (readFrom input [] input) := by
  obtain ⟨c, s, hc, rfl⟩ := h
  cases hn : next ('<' :: c :: s) with
  | error fault =>
    rw [readFrom_of_fault hn]
    exact TokenFault.fault_ne_stray _ _
  | ok found =>
    rcases found with _ | ⟨t, rest⟩
    · cases eq_nil_of_next hn
    · obtain ⟨name, attributes, selfClosing, rfl⟩ := startTag_of_next hc hn
      rw [readFrom_of_next hn]
      cases selfClosing with
      | true => trivial
      | false =>
        obtain ⟨last, left, hreach, hstop⟩ :=
          exists_stop ('<' :: c :: s) [⟨name, attributes, []⟩] rest
        exact hstop.isOfElement (hreach.ne_nil (by simp))

theorem next_endTag_eq {c : Char} (hc : c.isLower = true) (s : List Char) :
    next ('<' :: '/' :: c :: s) = (endTag ('<' :: '/' :: c :: s)).map some := by
  have hopens : opensMarkup ('<' :: '/' :: c :: s) = true := opensMarkup_of_opensTag hc
  have hcomment : ['<', '!', '-', '-'].isPrefixOf ('<' :: '/' :: c :: s) = false := rfl
  have hend : ['<', '/'].isPrefixOf ('<' :: '/' :: c :: s) = true := rfl
  simp only [next, hopens, hcomment, hend, Bool.false_eq_true, if_false, if_true]

theorem endTag_cases (s : List Char) :
    (∃ name rest, endTag ('<' :: '/' :: s) = .ok (.endTag name, rest) ∧ '>' ∈ s) ∨
      (endTag ('<' :: '/' :: s) = .error (.unterminatedTag ('<' :: '/' :: s)) ∧ '>' ∉ s) := by
  have hs := splitAt_append endsTagName s
  have hname : '>' ∉ (splitAt endsTagName s).1 := fun h => by
    simpa [endsTagName] using List.mem_takeWhile_imp h
  simp only [endTag, List.drop_succ_cons, List.drop_zero]
  cases hcut : cut ['>'] (splitAt endsTagName s).2 with
  | some parts =>
    have hr := eq_append_of_cut hcut
    refine .inl ⟨_, parts.2, rfl, ?_⟩
    rw [← hs, hr]
    simp
  | none =>
    refine .inr ⟨rfl, fun hmem => ?_⟩
    rw [← hs, List.mem_append, or_iff_right hname] at hmem
    obtain ⟨before, after, hr⟩ := List.append_of_mem hmem
    have hinfix : ['>'] <:+: (splitAt endsTagName s).2 := ⟨before, after, by simp [hr]⟩
    simpa [hcut] using isSome_cut_iff.2 hinfix

theorem capture_endTag {c : Char} (hc : c.isLower = true) (s : List Char) :
    ∃ e, capture ('<' :: '/' :: c :: s) = .error e ∧
      (e.fault = .strayClosingTag ∧ e.position = 0 ∧ '>' ∈ c :: s ∨
        e.fault = .unterminatedTag ∧ '>' ∉ c :: s) := by
  have hopen : opensTag ('<' :: '/' :: c :: s) = true := hc
  have hnext := next_endTag_eq hc s
  rw [capture, if_pos hopen]
  rcases endTag_cases (c :: s) with ⟨name, rest, hend, hmem⟩ | ⟨hend, hmem⟩ <;> rw [hend] at hnext
  · rw [readFrom_of_next hnext]
    exact ⟨_, rfl, .inl ⟨rfl, Nat.sub_self _, hmem⟩⟩
  · rw [readFrom_of_fault hnext]
    exact ⟨_, rfl, .inr ⟨rfl, hmem⟩⟩

theorem BeginsStartTag.capture_ne {input : List Char} (h : BeginsStartTag input) :
    capture input ≠ .ok none ∧
      ∀ e, capture input = .error e → e.fault ≠ .strayClosingTag := by
  have hresult := h.isOfElement
  rw [capture, if_pos (opensTag_iff.2 (.inl h))]
  constructor
  · intro hnone
    obtain ⟨found, hread, hfound⟩ := map_eq_ok.1 hnone
    rw [hread, Option.map_eq_none_iff.1 hfound] at hresult
    exact hresult
  · intro e herror
    rw [map_eq_error.1 herror] at hresult
    exact hresult

theorem capture_eq_none_iff {input : List Char} :
    capture input = .ok none ↔ opensTag input = false := by
  constructor
  · intro h
    by_contra hopen
    rcases opensTag_iff.1 (by simpa using hopen) with hstart | ⟨c, s, hc, rfl⟩
    · exact hstart.capture_ne.1 h
    · obtain ⟨e, he, -⟩ := capture_endTag hc s
      rw [he] at h
      cases h
  · intro hopen
    simp [capture, hopen]

theorem stray_of_capture {input : List Char} {e : Error} (h : capture input = .error e)
    (hfault : e.fault = .strayClosingTag) :
    BeginsEndTag input ∧ '>' ∈ input ∧ e.position = 0 := by
  have hopen : opensTag input = true := by
    by_contra hopen
    rw [capture_eq_none_iff.2 (by simpa using hopen)] at h
    cases h
  rcases opensTag_iff.1 hopen with hstart | ⟨c, s, hc, rfl⟩
  · exact absurd hfault (hstart.capture_ne.2 e h)
  · obtain ⟨e', he, hcases⟩ := capture_endTag hc s
    rw [h] at he
    cases he
    rcases hcases with ⟨-, hposition, hmem⟩ | ⟨hother, -⟩
    · exact ⟨⟨c, s, hc, rfl⟩, by simp_all, hposition⟩
    · rw [hfault] at hother
      cases hother

/-- Whether a text is markup is decided by how it begins. If it begins with an end tag that is
finished, this is an error at its front. If it begins with a start tag that is not self-closing, then
an element is open wherever reading goes, and reading stops with what an element comes to. -/
theorem capture_by_opening (input : List Char) :
    (capture input = .ok none ↔ ¬ BeginsStartTag input ∧ ¬ BeginsEndTag input) ∧
    ((∃ e, capture input = .error e ∧ e.fault = .strayClosingTag) ↔
      BeginsEndTag input ∧ '>' ∈ input) ∧
    (∀ e, capture input = .error e → e.fault = .strayClosingTag → e.position = 0) ∧
    (BeginsStartTag input → ∀ t rest, next input = .ok (some (t, rest)) →
      ∃ name attributes selfClosing, t = .startTag name attributes selfClosing ∧
        (selfClosing = false →
          (∃ opened start, Reaches input [⟨name, attributes, []⟩] rest opened start ∧
            Stops input opened start (readFrom input [] input)) ∧
          ∀ opened start, Reaches input [⟨name, attributes, []⟩] rest opened start →
            opened ≠ [] ∧ ∀ result, Stops input opened start result → IsOfElement result)) := by
  refine ⟨?_, ⟨?_, ?_⟩, fun e he hfault => (stray_of_capture he hfault).2.2, ?_⟩
  · rw [capture_eq_none_iff, ← not_or, ← opensTag_iff, Bool.not_eq_true]
  · rintro ⟨e, he, hfault⟩
    obtain ⟨hend, hmem, -⟩ := stray_of_capture he hfault
    exact ⟨hend, hmem⟩
  · rintro ⟨⟨c, s, hc, rfl⟩, hmem⟩
    obtain ⟨e, he, ⟨hfault, -⟩ | ⟨-, hnot⟩⟩ := capture_endTag hc s
    · exact ⟨e, he, hfault⟩
    · simp_all
  · rintro ⟨c, s, hc, rfl⟩ t rest hnext
    obtain ⟨name, attributes, selfClosing, rfl⟩ := startTag_of_next hc hnext
    refine ⟨name, attributes, selfClosing, rfl, ?_⟩
    rintro rfl
    refine ⟨?_, fun opened start hreach => ?_⟩
    · rw [readFrom_of_next hnext]
      exact exists_stop _ _ _
    · have hne := hreach.ne_nil (by simp)
      exact ⟨hne, fun result hstop => hstop.isOfElement hne⟩

theorem capture_by_opening_nested :
    capture "<P>".toList = .ok none ∧
      (∃ e, capture "</p x>".toList = .error e ∧ e.fault = .strayClosingTag) ∧
      next "<p>a<br/>".toList = .ok (some (.startTag ['p'] [] false, "a<br/>".toList)) ∧
      ∀ opened start, Reaches "<p>a<br/>".toList [⟨['p'], [], []⟩] "a<br/>".toList opened start →
        opened ≠ [] := by
  have hnext : next "<p>a<br/>".toList =
      .ok (some (.startTag ['p'] [] false, "a<br/>".toList)) := eq_ok_of_toOption (by decide +kernel)
  refine ⟨(capture_by_opening _).1.2 ⟨?_, ?_⟩, (capture_by_opening _).2.1.2 ⟨⟨'p', _, rfl, rfl⟩, ?_⟩,
    hnext, ?_⟩
  · rintro ⟨c, s, hc, heq⟩
    cases heq
    cases hc
  · rintro ⟨c, s, hc, heq⟩
    cases heq
  · decide
  · obtain ⟨name, attributes, selfClosing, ht, h⟩ :=
      (capture_by_opening _).2.2.2 ⟨'p', _, rfl, rfl⟩ _ _ hnext
    cases ht
    exact fun opened start hreach => ((h rfl).2 opened start hreach).1

end InlineMarkup.Markup
