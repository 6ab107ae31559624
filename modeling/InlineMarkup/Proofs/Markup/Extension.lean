import InlineMarkup.Proofs.Location
import InlineMarkup.Proofs.Markup.Balance

/-!
Texts with more behind them. A region is the same whatever follows it, and so is the error at an end
tag that does not fit: nothing behind the `>` of the last tag is read.
-/

set_option autoImplicit false

namespace InlineMarkup.Markup

open InlineMarkup.Text

/-- The errors at an end tag. -/
def Fault.IsOfEndTag (f : Fault) : Prop :=
  f = .tagMismatch ∨ f = .strayClosingTag

theorem offsetOf_append_append (whole rest y : List Char) :
    offsetOf (whole ++ y) (rest ++ y) = offsetOf whole rest := by
  simp [offsetOf, Nat.add_sub_add_right]

theorem take_append_append (whole rest y : List Char) :
    (whole ++ y).take ((whole ++ y).length - (rest ++ y).length) =
      whole.take (whole.length - rest.length) := by
  rw [List.length_append, List.length_append, Nat.add_sub_add_right,
    List.take_append_of_le_length (Nat.sub_le _ _)]

theorem closeTag_append (input start rest name : List Char) (opened : List Element)
    (y : List Char) :
    closeTag (input ++ y) (start ++ y) (rest ++ y) name opened =
      closeTag input start rest name opened := by
  cases opened with
  | nil => simp only [closeTag, offsetOf_append_append, take_append_append]
  | cons e opened => simp only [closeTag, offsetOf_append_append, take_append_append]

theorem Refuses.isEndTag {input start rest : List Char} {opened : List Element} {t : Token}
    {e : Error} (h : Refuses input start rest opened t e) (hfault : e.fault.IsOfEndTag) :
    ∃ name, t = .endTag name := by
  cases h with
  | trailing => rcases hfault with hfault | hfault <;> cases hfault
  | stray => exact ⟨_, rfl⟩
  | mismatch => exact ⟨_, rfl⟩

theorem exists_of_endTag_fault {input : List Char} {e : Error}
    (h : readFrom input [] input = .error e) (hfault : e.fault.IsOfEndTag) :
    ∃ opened start rest name, Reaches input [] input opened start ∧
      next start = .ok (some (.endTag name, rest)) ∧
      closeTag input start rest name opened = .error e := by
  obtain ⟨opened, start, hreach, hstop⟩ := exists_stop input [] input
  generalize readFrom input [] input = result at h hstop
  cases hstop with
  | @illFormed fault =>
    cases h
    cases fault <;> rcases hfault with hfault | hfault <;> cases hfault
  | ended =>
    cases opened with
    | nil => cases h
    | cons element opened =>
      cases h
      rcases hfault with hfault | hfault <;> cases hfault
  | refused ht ha =>
    cases h
    obtain ⟨name, rfl⟩ := (advance_eq_error_iff.1 ha).isEndTag hfault
    exact ⟨opened, start, _, name, hreach, ht, ha⟩
  | notMarkup => cases h
  | closed => cases h

theorem capture_error_append {input : List Char} {e : Error} (h : capture input = .error e)
    (hfault : e.fault.IsOfEndTag) (y : List Char) : capture (input ++ y) = .error e := by
  unfold capture at h
  split at h
  · rename_i hopen
    obtain ⟨opened, start, rest, name, hreach, ht, hclose⟩ :=
      exists_of_endTag_fault (map_eq_error.1 h) hfault
    have hmarkup : opensMarkup start = true := opensMarkup_of_next ht fun raw => by simp
    obtain ⟨v, rfl, hlen, hnext⟩ := next_local hmarkup ht
    obtain ⟨w, hw, -, hlocal⟩ := hreach.local hlen fun y => (hnext y).1
    have happend : input ++ y = w ++ (v ++ (rest ++ y)) := by simp [hw]
    have hopen' : opensTag (input ++ y) = true := by
      rw [hw, ← List.append_assoc] at hopen
      rw [happend, ← List.append_assoc, ← hopen]
      exact opensTag_append _ _ (by simp; omega)
    have hread : readFrom (input ++ y) [] (input ++ y) = .error e := by
      have hclose' := closeTag_append input (v ++ rest) rest name opened y
      rw [hclose, List.append_assoc] at hclose'
      have hlast := (hlocal (input ++ y) (rest ++ y)).readFrom_eq
      rw [← happend] at hlast
      rw [hlast, readFrom_of_next (hnext (rest ++ y)).2, advance, hclose']
    rw [capture, if_pos hopen', hread]
    rfl
  · cases h

/-- A region is a front of its text that begins with `<` and ends with `>`. Nothing behind it is read,
and nothing behind an end tag that does not fit. -/
theorem capture_extended (input : List Char) :
    (∀ captured, capture input = .ok (some captured) →
      byteLength captured.text ≤ byteLength input ∧
      IsBoundary input (byteLength captured.text) ∧
      takeBytes (byteLength captured.text) input = captured.text ∧
      captured.text.head? = some '<' ∧ captured.text.getLast? = some '>' ∧
      ∀ s, capture (captured.text ++ s) = .ok (some captured)) ∧
    ∀ e, capture input = .error e → e.fault = .tagMismatch ∨ e.fault = .strayClosingTag →
      ∀ s, capture (input ++ s) = .error e := by
  refine ⟨fun captured h => ?_, fun e h hfault => capture_error_append h hfault⟩
  obtain ⟨-, ⟨rest, hinput⟩, hlocal⟩ := capture_local h
  have hboundary : IsBoundary input (byteLength captured.text) := ⟨_, rest, hinput, rfl⟩
  obtain ⟨c, s, htext, -⟩ := eq_cons_of_opensTag (opensTag_of_capture (hlocal []))
  obtain ⟨front, hlast⟩ := capture_ends h
  refine ⟨hboundary.le, hboundary, ?_, ?_, ?_, hlocal⟩
  · rw [hinput, takeBytes_append]
  · rw [List.append_nil] at htext
    rw [htext, List.head?_cons]
  · rw [← hlast, List.getLast?_concat]

theorem capture_extended_list :
    (∃ captured, capture "<ul>a > b<br/></ul>; c".toList = .ok (some captured) ∧
      captured.text = "<ul>a > b<br/></ul>".toList ∧
      capture "<ul>a > b<br/></ul></p>".toList = .ok (some captured)) ∧
    ∃ e, capture "<ul><li>a</ul>".toList = .error e ∧ e.fault = .tagMismatch ∧
      capture "<ul><li>a</ul></li></ul>".toList = .error e := by
  constructor
  · have h : capture "<ul>a > b<br/></ul>; c".toList =
        .ok (some ⟨⟨['u', 'l'], [], [.text "a > b".toList, .element ['b', 'r'] [] []]⟩,
          "<ul>a > b<br/></ul>".toList⟩) := eq_ok_of_toOption (by decide +kernel)
    exact ⟨_, h, rfl, ((capture_extended _).1 _ h).2.2.2.2.2 "</p>".toList⟩
  · have h : capture "<ul><li>a</ul>".toList = .error { Error.tagMismatch 9 "li" "ul" with
        snippet := "<ul><li>a</ul>" } := by decide +kernel
    exact ⟨_, h, rfl, (capture_extended _).2 _ h (.inl rfl) "</li></ul>".toList⟩

end InlineMarkup.Markup
