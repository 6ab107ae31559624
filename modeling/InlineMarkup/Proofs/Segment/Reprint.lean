import InlineMarkup.Proofs.Blank
import InlineMarkup.Proofs.Segment.Template

/-!
Segments in source form. Written one to a line, the segments of a text are split into the same
segments again. Written side by side they are the text without its empty blocks, up to white space.
-/

set_option autoImplicit false

namespace InlineMarkup.Segment

open InlineMarkup.Text

def withoutEmptyBlocks : List Char → List Char
  | [] => []
  | [c] => [c]
  | c :: d :: s =>
    if c = '\x7b' ∧ d = '\x7d' then withoutEmptyBlocks s else c :: withoutEmptyBlocks (d :: s)

theorem source_blockParts (code : List Char) :
    (blockParts code).flatMap source = if code = [] then [] else '\x7b' :: code ++ ['\x7d'] := by
  unfold blockParts
  split
  · rfl
  · split <;> simp [source, Modifier.letter]
  · rename_i h _
    rw [if_neg h]
    simp [source]

theorem visible_intercalate (ls : List (List Char)) :
    visible (['\n'].intercalate ls) = ls.flatMap visible := by
  induction ls with
  | nil => rfl
  | cons l ls ih =>
    cases ls with
    | nil => simp
    | cons m ls =>
      have hline : visible ['\n'] = [] := rfl
      rw [List.intercalate_cons_cons, visible_append, visible_append, ih, hline, List.append_nil]
      simp only [List.flatMap_cons]

theorem source_literalParts (text : List Char) :
    (literalParts text).flatMap source = (text.splitOn '\n').flatMap trim := by
  rw [literalParts]
  induction text.splitOn '\n' with
  | nil => rfl
  | cons l ls ih =>
    by_cases h : trim l = []
    · simpa [h] using ih
    · simpa [h, source] using ih

theorem visible_literalParts (text : List Char) :
    visible ((literalParts text).flatMap source) = visible text := by
  have hlines : visible text = (text.splitOn '\n').flatMap visible := by
    rw [← visible_intercalate, List.intercalate_splitOn]
  rw [source_literalParts, hlines]
  induction text.splitOn '\n' with
  | nil => rfl
  | cons l ls ih => simp [ih]

theorem withoutEmptyBlocks_cons {c : Char} (h : c ≠ '\x7b') (s : List Char) :
    withoutEmptyBlocks (c :: s) = c :: withoutEmptyBlocks s := by
  cases s <;> simp [withoutEmptyBlocks, h]

theorem withoutEmptyBlocks_append {l : List Char} (h : '\x7b' ∉ l) (s : List Char) :
    withoutEmptyBlocks (l ++ s) = l ++ withoutEmptyBlocks s := by
  induction l with
  | nil => rfl
  | cons c l ih =>
    rw [List.mem_cons, not_or] at h
    rw [List.cons_append, withoutEmptyBlocks_cons (Ne.symm h.1), ih h.2, List.cons_append]

theorem withoutEmptyBlocks_block {code : List Char} (h : IsCode code) (s : List Char) :
    withoutEmptyBlocks ('\x7b' :: code ++ '\x7d' :: s) =
      (if code = [] then [] else '\x7b' :: code ++ ['\x7d']) ++ withoutEmptyBlocks s := by
  cases code with
  | nil => rfl
  | cons c code =>
    have hc : c ≠ '\x7d' := by
      rintro rfl
      exact h.2.1 List.mem_cons_self
    have hrest := withoutEmptyBlocks_append h.1 ('\x7d' :: s)
    rw [withoutEmptyBlocks_cons (by decide)] at hrest
    simp only [List.cons_append] at hrest ⊢
    simp [withoutEmptyBlocks, hc, hrest]

theorem visible_parts (t : Template) :
    visible (t.parts.flatMap source) = visible (withoutEmptyBlocks t.text) := by
  induction t using Template.induct with
  | ofText l hl =>
    have hplain := withoutEmptyBlocks_append hl.1 []
    rw [List.append_nil] at hplain
    rw [Template.parts_ofText, Template.text_ofText, hplain, visible_literalParts]
    simp [withoutEmptyBlocks]
  | cons l code hl hcode hknown t ih =>
    rw [Template.parts_cons, Template.text_cons, withoutEmptyBlocks_append hl.1,
      withoutEmptyBlocks_block hcode, List.flatMap_append, List.flatMap_append, source_blockParts]
    simp only [visible_append, visible_literalParts, ih]

/-- A segment whose source form is split into just this segment. -/
def StandsAlone (segment : Segment) : Prop :=
  ∃ t : Template, t.text = segment.source ∧ t.parts = [segment]

theorem mem_splitOn_lineFeed {text l : List Char} (h : l ∈ text.splitOn '\n') :
    '\n' ∉ l ∧ l ⊆ text := by
  induction text generalizing l with
  | nil => simp_all
  | cons c text ih =>
    rw [List.splitOn_cons_eq_if_modifyHead] at h
    split at h
    · rcases List.mem_cons.1 h with rfl | h
      · simp
      · exact ⟨(ih h).1, List.subset_cons_of_subset c (ih h).2⟩
    · rename_i hc
      have hc : '\n' ≠ c := fun heq => hc (beq_iff_eq.2 heq.symm)
      cases hlines : text.splitOn '\n' with
      | nil => exact absurd hlines (List.splitOn_ne_nil _ _)
      | cons m ms =>
        rw [hlines] at h ih
        rcases List.mem_cons.1 h with rfl | h
        · obtain ⟨hm, hsubset⟩ := ih List.mem_cons_self
          exact ⟨by simp [hc, hm], List.cons_subset_cons c hsubset⟩
        · obtain ⟨hl, hsubset⟩ := ih (List.mem_cons_of_mem m h)
          exact ⟨hl, List.subset_cons_of_subset c hsubset⟩

theorem standsAlone_of_literalParts {text : List Char} (h : IsLiteral text) {segment : Segment}
    (hmem : segment ∈ literalParts text) : StandsAlone segment := by
  obtain ⟨content, hcontent, rfl⟩ := List.mem_map.1 hmem
  obtain ⟨hlines, hne⟩ := List.mem_filter.1 hcontent
  obtain ⟨l, hl, rfl⟩ := List.mem_map.1 hlines
  obtain ⟨hline, hsubset⟩ := mem_splitOn_lineFeed hl
  have hliteral : IsLiteral (trim l) :=
    ⟨fun hc => h.1 (hsubset (mem_of_mem_trim hc)), fun hc => h.2 (hsubset (mem_of_mem_trim hc))⟩
  refine ⟨.ofText (trim l) hliteral, Template.text_ofText, ?_⟩
  have hne : trim (trim l) ≠ [] := by simpa [trim_trim] using hne
  rw [Template.parts_ofText, literalParts_of_lineFeed_not_mem fun hc => hline (mem_of_mem_trim hc),
    ofLiteral, if_neg hne, trim_trim]

theorem blockParts_eq_singleton {code : List Char} {segment : Segment}
    (h : segment ∈ blockParts code) : code ≠ [] ∧ blockParts code = [segment] := by
  unfold blockParts at h ⊢
  split at h
  · cases h
  · split at h <;> simp_all
  · simp_all

theorem standsAlone_of_blockParts {code : List Char} (hcode : IsCode code)
    (hknown : ¬ HasUnknownModifier code) {segment : Segment} (hmem : segment ∈ blockParts code) :
    StandsAlone segment := by
  obtain ⟨hne, hparts⟩ := blockParts_eq_singleton hmem
  have hnil : IsLiteral [] := by simp [IsLiteral]
  refine ⟨.cons [] code hnil hcode hknown (.ofText [] hnil), ?_, ?_⟩
  · have hsource := source_blockParts code
    rw [hparts, if_neg hne, List.flatMap_singleton] at hsource
    rw [Template.text_cons, Template.text_ofText, hsource, List.nil_append]
  · have hblank : literalParts [] = [] := rfl
    rw [Template.parts_cons, Template.parts_ofText, hparts, hblank, List.append_nil, List.nil_append]

theorem standsAlone_of_parts (t : Template) : ∀ segment ∈ t.parts, StandsAlone segment := by
  induction t using Template.induct with
  | ofText l hl =>
    rw [Template.parts_ofText]
    exact fun segment => standsAlone_of_literalParts hl
  | cons l code hl hcode hknown t ih =>
    intro segment hmem
    rw [Template.parts_cons, List.mem_append, List.mem_append] at hmem
    rcases hmem with hmem | hmem | hmem
    · exact standsAlone_of_literalParts hl hmem
    · exact standsAlone_of_blockParts hcode hknown hmem
    · exact ih segment hmem

theorem readFrom_join {segments : List Segment} (h : ∀ segment ∈ segments, StandsAlone segment)
    (input : List Char) (position : Nat) :
    readFrom input .literal [] position (join ['\n'] (segments.map source)) = .ok segments := by
  induction segments generalizing position with
  | nil => rfl
  | cons segment segments ih =>
    obtain ⟨⟨t, htext, hparts⟩, hrest⟩ := List.forall_mem_cons.1 h
    cases segments with
    | nil =>
      have hread := readFrom_template (s := []) (by simp [EndsRun]) t input position
      rw [htext, List.append_nil, hparts] at hread
      exact hread
    | cons next segments =>
      have hjoin : join ['\n'] ((segment :: next :: segments).map source) =
          t.text ++ '\n' :: join ['\n'] ((next :: segments).map source) := by
        simp [join, htext]
      rw [hjoin, readFrom_template (by simp [EndsRun]), readFrom_lineFeed, ih hrest, hparts]
      rfl

/-- The segments of a text, written one to a line, are split into the same segments. Written side by
side they are the text without its empty blocks, but for white space. -/
theorem split_reprinted {input : List Char} {segments : List Segment}
    (h : split input = .ok segments) :
    split (join ['\n'] (segments.map source)) = .ok segments ∧
      visible (segments.flatMap source) = visible (withoutEmptyBlocks input) := by
  obtain ⟨t, rfl, rfl⟩ := split_eq_ok_iff.1 h
  rw [← visible_parts, Template.segments]
  split
  · rename_i hparts
    rw [hparts]
    exact ⟨rfl, rfl⟩
  · rename_i hparts
    refine ⟨?_, rfl⟩
    rw [split, readFrom_join (standsAlone_of_parts t), Except.map, if_neg hparts]

theorem split_reprinted_blocks :
    ∃ segments, split " a \x7b\x7db\n\n\x7bs:x y\x7d\x7bs:\x7d\x7b \x7d\x7bs::f()\x7d c".toList =
        .ok segments ∧
      split "a\nb\n\x7bs:x y\x7d\n\x7bs:\x7d\n\x7b \x7d\n\x7bs::f()\x7d\nc".toList = .ok segments ∧
      visible "ab\x7bs:x y\x7d\x7bs:\x7d\x7b \x7d\x7bs::f()\x7dc".toList =
        visible (withoutEmptyBlocks
          " a \x7b\x7db\n\n\x7bs:x y\x7d\x7bs:\x7d\x7b \x7d\x7bs::f()\x7d c".toList) := by
  have h : split " a \x7b\x7db\n\n\x7bs:x y\x7d\x7bs:\x7d\x7b \x7d\x7bs::f()\x7d c".toList =
      .ok [.literal ['a'], .literal ['b'], .embedded "x y".toList (some .text),
        .embedded "s:".toList none, .embedded [' '] none, .embedded "s::f()".toList none,
        .literal ['c']] :=
    eq_ok_of_toOption (by decide +kernel)
  exact ⟨_, h, split_reprinted h⟩

end InlineMarkup.Segment
