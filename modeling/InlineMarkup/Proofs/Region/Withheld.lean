import InlineMarkup.Proofs.Region.Rescan
import InlineMarkup.Proofs.Region.Unfinished

/-!
Names that keep a `<` out of markup. Where markup may begin and a small letter follows, a `<` is
kept as code if the name behind it is a primitive type of the host language. The name is looked at
only as far as it is a word, so a longer name that begins with a type and, say, a hyphen is kept out
as well (`withheld_iff`). With any other name there is a region, or an error in the markup.
-/

set_option autoImplicit false

namespace InlineMarkup

open InlineMarkup.Text InlineMarkup.Markup

namespace Scan

def writtenName (s : List Char) : List Char :=
  (splitAt endsTagName (s.drop 1)).1

theorem name_of_next {c : Char} {s name rest : List Char} {attributes : List Attribute}
    {selfClosing : Bool} (hc : c.isLower = true)
    (h : next ('<' :: c :: s) = .ok (some (.startTag name attributes selfClosing, rest))) :
    name = lower (writtenName ('<' :: c :: s)) := by
  obtain ⟨hopen, hcomment, hend⟩ := opensMarkup_of_lower s hc
  simp only [next, hcomment, hopen, hend, Bool.false_eq_true, if_false, if_true] at h
  have htag := map_some_ok h
  simp only [startTag] at htag
  split at htag <;> cases htag
  rfl

/-- A name that is a primitive type, or a primitive type and more behind a character of no word. -/
def BeginsWithType (name : List Char) : Prop :=
  name ∈ primitiveTypes ∨
    ∃ type ∈ primitiveTypes, ∃ d more, isWordChar d = false ∧ name = type ++ d :: more

theorem isWordChar_of_primitive {type : List Char} (h : type ∈ primitiveTypes) :
    ∀ c ∈ type, isWordChar c = true := by
  have htypes : ∀ type ∈ primitiveTypes, type.all isWordChar = true := by decide +kernel
  exact List.all_eq_true.1 (htypes type h)

theorem not_endsTagName_of_word {c : Char} (h : isWordChar c = true) : endsTagName c = false := by
  have hne : ∀ d, isWordChar d = false → c ≠ d := by
    rintro d hd rfl
    rw [hd] at h
    cases h
  have hblank : isBlank c = false := by
    by_contra hblank
    rw [isWordChar_of_blank (by simp [hblank])] at h
    cases h
  simp [endsTagName, hblank, hne '/' (by decide), hne '>' (by decide)]

theorem takeWhile_writtenName (s : List Char) :
    (writtenName s).takeWhile isWordChar = (s.drop 1).takeWhile isWordChar := by
  rw [writtenName, splitAt, List.takeWhile_takeWhile]
  congr 1
  funext c
  cases hc : isWordChar c with
  | false => simp
  | true => simp [not_endsTagName_of_word hc]

theorem namesPrimitive_iff {s : List Char} :
    namesPrimitive s = true ↔ BeginsWithType (writtenName s) := by
  rw [namesPrimitive, ← takeWhile_writtenName, List.contains_iff_mem]
  constructor
  · intro hmem
    cases hstop : (writtenName s).dropWhile isWordChar with
    | nil =>
      have hname := List.takeWhile_append_dropWhile (p := isWordChar) (l := writtenName s)
      rw [hstop, List.append_nil] at hname
      rw [hname] at hmem
      exact .inl hmem
    | cons d more =>
      obtain ⟨hname, -, hd⟩ := eq_append_of_dropWhile hstop
      exact .inr ⟨_, hmem, d, more, hd, hname⟩
  · rintro (hmem | ⟨type, hmem, d, more, hd, hname⟩)
    · rwa [List.takeWhile_eq_self_iff.2 (isWordChar_of_primitive hmem)]
    · rwa [hname, takeWhile_append_stop more (isWordChar_of_primitive hmem) hd]

theorem opens_of_angle_kept {s next : State} {text : List Char}
    (h : angle s = .ok (.kept text, next)) :
    namesPrimitive s.rest = true ∨ opensTag s.rest = false := by
  by_cases htype : namesPrimitive s.rest = true
  · exact .inl htype
  cases hcapture : capture s.rest with
  | error e =>
    rw [angle_of_fault htype hcapture] at h
    cases h
  | ok found =>
    cases found with
    | none => exact .inr (capture_eq_none_iff.1 hcapture)
    | some captured =>
      rw [angle_of_capture htype hcapture] at h
      cases h

theorem angle_kept_of_opens {s : State}
    (h : namesPrimitive s.rest = true ∨ opensTag s.rest = false) :
    angle s = .ok (code s 1 '<') :=
  angle_of_not_markup (h.imp_right capture_eq_none_iff.2)

theorem angle_of_start {s : State} (hname : ¬ namesPrimitive s.rest = true)
    (hstart : BeginsStartTag s.rest) :
    (∃ captured, capture s.rest = .ok (some captured) ∧
      angle s = .ok (.region ⟨s.offset, captured.text, captured.root⟩,
        (code s captured.text.length ')').2)) ∨
    ∃ e, capture s.rest = .error e ∧
      angle s = .error (.markup ((withPathHint s.rest e).shift s.offset)) := by
  cases hcapture : capture s.rest with
  | error e => exact .inr ⟨e, rfl, angle_of_fault hname hcapture⟩
  | ok found =>
    cases found with
    | none => exact absurd hcapture hstart.capture_ne.1
    | some captured => exact .inl ⟨captured, rfl, angle_of_capture hname hcapture⟩

end Scan

open InlineMarkup.Scan

/-- Where markup may begin, a `<` before a small letter is kept as code exactly if the name behind
it is a primitive type, or such a type and more behind a character of no word. Else a region is
found there, or the scan fails with the error of the markup. The name is that of the tag as it is
read, but for capitals. -/
theorem withheld_iff {source : List Char} {ps : List Piece} {s : State} {c : Char}
    {after : List Char} (hs : Reaches source ps s) (hallows : s.context.allowsMarkup = true)
    (hrest : s.rest = '<' :: c :: after) (hc : c.isLower = true) :
    (step s '<' (c :: after) = .ok (code s 1 '<') ↔ BeginsWithType (writtenName s.rest)) ∧
    (¬ BeginsWithType (writtenName s.rest) →
      (∃ captured last, capture s.rest = .ok (some captured) ∧
        Runs (start source) (ps ++ [.region ⟨s.offset, captured.text, captured.root⟩]) last) ∨
      ∃ e, capture s.rest = .error e ∧ ∀ placeholder, scan placeholder source =
        .error (.markup ((withPathHint s.rest e).shift s.offset))) ∧
    ∀ name attributes selfClosing rest,
      next s.rest = .ok (some (.startTag name attributes selfClosing, rest)) →
        name = lower (writtenName s.rest) := by
  have hstart : BeginsStartTag s.rest := ⟨c, after, hc, hrest⟩
  have hangle := step_eq_angle hs.place_eq hallows (c :: after)
  refine ⟨⟨fun hkept => ?_, fun hname => ?_⟩, fun hname => ?_, ?_⟩
  · rcases opens_of_angle_kept (hangle.symm.trans hkept) with hname | hnot
    · exact namesPrimitive_iff.1 hname
    · rw [opensTag_iff.2 (.inl hstart)] at hnot
      cases hnot
  · exact hangle.trans (angle_kept_of_opens (.inl (namesPrimitive_iff.2 hname)))
  · rcases angle_of_start (mt namesPrimitive_iff.1 hname) hstart with
      ⟨captured, hcapture, hregion⟩ | ⟨e, hcapture, herror⟩
    · exact .inl ⟨captured, _, hcapture,
        hs.run.trans (.step hrest (hangle.trans hregion) (.done _))⟩
    · refine .inr ⟨e, hcapture, fun placeholder => ?_⟩
      rw [scan_eq_map, hs.run.readOn_eq, map_eq_error, map_eq_error]
      exact readFrom_step_error _ hrest (hangle.trans herror)
  · intro name attributes selfClosing rest htag
    rw [hrest] at htag ⊢
    exact name_of_next hc htag

/-- A name with a hyphen is none of the types, and an element of that name could be read, but the
`<` is kept as code. -/
theorem withheld_iff_hyphen : ∃ s,
    Reaches "=<u8-x/>".toList [.kept ['=']] s ∧ writtenName s.rest = "u8-x".toList ∧
      "u8-x".toList ∉ primitiveTypes ∧
      capture s.rest = .ok (some ⟨⟨"u8-x".toList, [], []⟩, "<u8-x/>".toList⟩) ∧
      step s '<' "u8-x/>".toList = .ok (code s 1 '<') := by
  let s : State :=
    { behind := ['='], rest := "<u8-x/>".toList, context := { last := some '=' } }
  have hs : Reaches "=<u8-x/>".toList [.kept ['=']] s := ⟨.step rfl rfl (.done s), rfl⟩
  have hname : writtenName s.rest = "u8-x".toList := by decide +kernel
  refine ⟨s, hs, hname, by decide, eq_ok_of_toOption (by decide +kernel), ?_⟩
  refine (withheld_iff hs rfl rfl rfl).1.2 (.inr ⟨"u8".toList, by decide, '-', ['x'], ?_, hname⟩)
  decide +kernel

end InlineMarkup
