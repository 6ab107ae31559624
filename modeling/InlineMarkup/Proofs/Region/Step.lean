import InlineMarkup.Region.Scan

/-!
What a step of a scan can do. It keeps some characters by one of the rules of `Rule`, which say where
the scan goes on and with which context; or what stands there is read as markup (`Offers`), and it
finds a region or fails. Whatever is shown of all steps is shown of the rules, case by case.
-/

set_option autoImplicit false

namespace InlineMarkup.Scan

open InlineMarkup.Text InlineMarkup.Markup

def State.past (s : State) (n : Nat) (place : Place) (context : Context) : State :=
  { behind := (s.rest.take n).reverse ++ s.behind, rest := s.rest.drop n, place, context }

def outside (depth : Nat) : Place :=
  if depth ≤ 1 then .code else .blockComment (depth - 1)

/-- What stands here is read as markup. -/
structure Offers (s : State) (c : Char) : Prop where
  place_eq : s.place = .code
  char_eq : c = '<'
  allows : s.context.allowsMarkup = true
  not_type : ¬namesPrimitive s.rest = true

/-- A character of code that begins nothing, unless it is the `r` of a raw string. -/
structure Inert (s : State) (c : Char) (after : List Char) : Prop where
  not_quote : c ≠ '"'
  not_apostrophe : c ≠ '\''
  not_lineComment : ¬(c = '/' ∧ after.head? = some '/')
  not_blockComment : ¬(c = '/' ∧ after.head? = some '*')
  not_markup : ¬(c = '<' ∧ s.context.allowsMarkup = true)

/-- The rules by which text is kept: how many characters, and the place and context behind them. -/
inductive Rule (s : State) (c : Char) (after : List Char) : Nat → Place → Context → Prop where
  | string : s.place = .code → c = '"' →
    Rule s c after 1 (.quoted '"' s.offset) (s.context.record '"')
  | escaped : s.place = .code → c = '\'' → after.head? = some '\\' →
    Rule s c after 1 (.quoted '\'' s.offset) (s.context.record '\'')
  | character : s.place = .code → c = '\'' → after.head? ≠ some '\\' →
    after.tail.head? = some '\'' → Rule s c after 3 .code (s.context.record '\'')
  | lifetime : s.place = .code → c = '\'' → after.head? ≠ some '\\' →
    after.tail.head? ≠ some '\'' → Rule s c after 1 .code (s.context.record '\'')
  | lineComment : s.place = .code → c = '/' → after.head? = some '/' →
    Rule s c after 2 .lineComment s.context
  | blockComment : s.place = .code → c = '/' → after.head? = some '*' →
    Rule s c after 2 (.blockComment 1) s.context
  | bracket : s.place = .code → c = '<' → s.context.allowsMarkup = true →
    namesPrimitive s.rest = true ∨ capture s.rest = .ok none →
    Rule s c after 1 .code (s.context.record '<')
  | rawString {hashes : Nat} : s.place = .code → Inert s c after →
    rawHashes? s.behind s.rest = some hashes →
    Rule s c after (hashes + 2) (.raw hashes s.offset) (s.context.record '"')
  | plain : s.place = .code → Inert s c after → rawHashes? s.behind s.rest = none →
    Rule s c after 1 .code (s.context.record c)
  | lineEnd : s.place = .lineComment → c = '\n' → Rule s c after 1 .code s.context
  | inLine : s.place = .lineComment → c ≠ '\n' → Rule s c after 1 .lineComment s.context
  | blockEnd {depth : Nat} : s.place = .blockComment depth → c = '*' → after.head? = some '/' →
    Rule s c after 2 (outside depth) s.context
  | nested {depth : Nat} : s.place = .blockComment depth → c = '/' → after.head? = some '*' →
    Rule s c after 2 (.blockComment (depth + 1)) s.context
  | inBlock {depth : Nat} : s.place = .blockComment depth → ¬(c = '*' ∧ after.head? = some '/') →
    ¬(c = '/' ∧ after.head? = some '*') → Rule s c after 1 (.blockComment depth) s.context
  | escape {quote : Char} {openedAt : Nat} : s.place = .quoted quote openedAt → c = '\\' →
    Rule s c after 2 (.quoted quote openedAt) s.context
  | quoteEnd {quote : Char} {openedAt : Nat} : s.place = .quoted quote openedAt → c ≠ '\\' →
    c = quote → Rule s c after 1 .code s.context
  | inQuoted {quote : Char} {openedAt : Nat} : s.place = .quoted quote openedAt → c ≠ '\\' →
    c ≠ quote → Rule s c after 1 (.quoted quote openedAt) s.context
  | rawStringEnd {hashes openedAt : Nat} : s.place = .raw hashes openedAt →
    c = '"' ∧ hashes ≤ (after.takeWhile (· == '#')).length →
    Rule s c after (hashes + 1) .code s.context
  | inRawString {hashes openedAt : Nat} : s.place = .raw hashes openedAt →
    ¬(c = '"' ∧ hashes ≤ (after.takeWhile (· == '#')).length) →
    Rule s c after 1 (.raw hashes openedAt) s.context

section

variable {s next : State} {piece : Piece} {c : Char} {after : List Char}

theorem inert_of_ne (hquote : c ≠ '"') (hapostrophe : c ≠ '\'') (hslash : c ≠ '/')
    (hangle : c ≠ '<') : Inert s c after :=
  ⟨hquote, hapostrophe, fun h => hslash h.1, fun h => hslash h.1, fun h => hangle h.1⟩

theorem code_eq_past (n : Nat) (c : Char) (hplace : s.place = .code) :
    code s n c = (.kept (s.rest.take n), s.past n .code (s.context.record c)) := by
  rw [← hplace]
  rfl

theorem keep_eq_past {place : Place} (n : Nat) (hplace : s.place = place) :
    s.keep n = (.kept (s.rest.take n), s.past n place s.context) := by
  rw [← hplace]
  rfl

theorem enter_eq_past (s : State) (n : Nat) (place : Place) :
    enter s n place = (.kept (s.rest.take n), s.past n place s.context) := rfl

theorem step_of_code (hplace : s.place = .code) : step s c after = inCode s c after := by
  rw [step, hplace]

theorem apostrophe_of_escape (h : after.head? = some '\\') : apostrophe s after =
    (.kept (s.rest.take 1), s.past 1 (.quoted '\'' s.offset) (s.context.record '\'')) := by
  obtain ⟨rest, rfl⟩ := List.head?_eq_some_iff.1 h
  rfl

theorem apostrophe_of_close (hescape : after.head? ≠ some '\\')
    (h : after.tail.head? = some '\'') : apostrophe s after = code s 3 '\'' := by
  rcases after with _ | ⟨d, _ | ⟨e, rest⟩⟩
  · cases h
  · cases h
  · cases h
    have hd : d ≠ '\\' := fun hd => hescape (congrArg some hd)
    simp [apostrophe, code]

theorem apostrophe_of_lifetime (hescape : after.head? ≠ some '\\')
    (h : after.tail.head? ≠ some '\'') : apostrophe s after = code s 1 '\'' := by
  rcases after with _ | ⟨d, _ | ⟨e, rest⟩⟩
  · rfl
  · have hd : d ≠ '\\' := fun hd => hescape (congrArg some hd)
    simp [apostrophe, code, hd]
  · have hd : d ≠ '\\' := fun hd => hescape (congrArg some hd)
    have he : e ≠ '\'' := fun he => h (congrArg some he)
    simp [apostrophe, code, hd, he]

theorem inCode_of_inert (h : Inert s c after) : inCode s c after =
    match rawHashes? s.behind s.rest with
    | some hashes => .ok (.kept (s.rest.take (hashes + 2)),
        s.past (hashes + 2) (.raw hashes s.offset) (s.context.record '"'))
    | none => .ok (code s 1 c) := by
  rw [inCode, if_neg h.not_quote, if_neg h.not_apostrophe, if_neg h.not_lineComment,
    if_neg h.not_blockComment, if_neg h.not_markup]
  rfl

theorem step_eq_angle (hplace : s.place = .code) (hallows : s.context.allowsMarkup = true)
    (after : List Char) : step s '<' after = angle s := by
  simp [step_of_code hplace, inCode, hallows]

theorem angle_of_not_markup (h : namesPrimitive s.rest = true ∨ capture s.rest = .ok none) :
    angle s = .ok (code s 1 '<') := by
  by_cases htype : namesPrimitive s.rest = true
  · rw [angle, if_pos htype]
    rfl
  · rw [angle, if_neg htype, h.resolve_left htype]
    rfl

theorem angle_of_capture {captured : Captured} (htype : ¬namesPrimitive s.rest = true)
    (h : capture s.rest = .ok (some captured)) :
    angle s = .ok (.region ⟨s.offset, captured.text, captured.root⟩,
      (code s captured.text.length ')').2) := by
  rw [angle, if_neg htype, h]
  rfl

theorem angle_of_fault {e : Markup.Error} (htype : ¬namesPrimitive s.rest = true)
    (h : capture s.rest = .error e) :
    angle s = .error (.markup ((withPathHint s.rest e).shift s.offset)) := by
  rw [angle, if_neg htype, h]
  rfl

theorem Rule.step_eq {n : Nat} {place : Place} {context : Context}
    (h : Rule s c after n place context) :
    step s c after = .ok (.kept (s.rest.take n), s.past n place context) := by
  cases h with
  | string hplace hc =>
    rw [step_of_code hplace, inCode, if_pos hc]
    rfl
  | escaped hplace hc hescape =>
    simp [step_of_code hplace, inCode, hc, apostrophe_of_escape hescape]
  | character hplace hc hescape hclose =>
    simp [step_of_code hplace, inCode, hc, apostrophe_of_close hescape hclose,
      code_eq_past _ _ hplace]
  | lifetime hplace hc hescape hclose =>
    simp [step_of_code hplace, inCode, hc, apostrophe_of_lifetime hescape hclose,
      code_eq_past _ _ hplace]
  | lineComment hplace hc hnext =>
    simp [step_of_code hplace, inCode, hc, hnext, enter_eq_past]
  | blockComment hplace hc hnext =>
    simp [step_of_code hplace, inCode, hc, hnext, enter_eq_past]
  | bracket hplace hc hallows hnot =>
    rw [hc, step_eq_angle hplace hallows, angle_of_not_markup hnot, code_eq_past _ _ hplace]
  | rawString hplace hinert hraw => rw [step_of_code hplace, inCode_of_inert hinert, hraw]
  | plain hplace hinert hraw =>
    rw [step_of_code hplace, inCode_of_inert hinert, hraw]
    exact congrArg _ (code_eq_past 1 c hplace)
  | lineEnd hplace hc => simp [step, hplace, hc, enter_eq_past]
  | inLine hplace hc => simp [step, hplace, hc, keep_eq_past 1 hplace]
  | blockEnd hplace hc hnext =>
    simp [step, hplace, inBlockComment, hc, hnext, enter_eq_past, outside]
  | nested hplace hc hnext =>
    simp [step, hplace, inBlockComment, hc, hnext, enter_eq_past]
  | inBlock hplace hend hopen =>
    simp only [step, hplace, inBlockComment, if_neg hend, if_neg hopen, keep_eq_past 1 hplace]
  | escape hplace hc => simp [step, hplace, hc, keep_eq_past 2 hplace]
  | quoteEnd hplace hc hquote =>
    simp only [step, hplace, if_neg hc, if_pos hquote, enter_eq_past]
  | inQuoted hplace hc hquote =>
    simp only [step, hplace, if_neg hc, if_neg hquote, keep_eq_past 1 hplace]
  | rawStringEnd hplace hend =>
    simp only [step, hplace, inRaw, if_pos hend, enter_eq_past]
  | inRawString hplace hend =>
    simp only [step, hplace, inRaw, if_neg hend, keep_eq_past 1 hplace]

theorem Offers.step_found (h : Offers s c) {captured : Captured}
    (hcapture : capture s.rest = .ok (some captured)) : step s c after =
      .ok (.region ⟨s.offset, captured.text, captured.root⟩,
        s.past captured.text.length .code (s.context.record ')')) := by
  rw [h.char_eq, step_eq_angle h.place_eq h.allows, angle_of_capture h.not_type hcapture,
    code_eq_past _ _ h.place_eq]

theorem Offers.step_fails (h : Offers s c) {e : Markup.Error} (hcapture : capture s.rest = .error e) :
    step s c after = .error (.markup ((withPathHint s.rest e).shift s.offset)) := by
  rw [h.char_eq, step_eq_angle h.place_eq h.allows, angle_of_fault h.not_type hcapture]

theorem step_cases (s : State) (c : Char) (after : List Char) :
    (∃ n place context, Rule s c after n place context) ∨
      (∃ captured, Offers s c ∧ capture s.rest = .ok (some captured)) ∨
      ∃ fault, Offers s c ∧ capture s.rest = .error fault := by
  cases hplace : s.place with
  | code =>
    -- in the order in which they are tried: `Inert` is what is left when none applies
    by_cases hquote : c = '"'
    · exact .inl ⟨_, _, _, .string hplace hquote⟩
    by_cases hapostrophe : c = '\''
    · by_cases hescape : after.head? = some '\\'
      · exact .inl ⟨_, _, _, .escaped hplace hapostrophe hescape⟩
      by_cases hclose : after.tail.head? = some '\''
      · exact .inl ⟨_, _, _, .character hplace hapostrophe hescape hclose⟩
      · exact .inl ⟨_, _, _, .lifetime hplace hapostrophe hescape hclose⟩
    by_cases hline : c = '/' ∧ after.head? = some '/'
    · exact .inl ⟨_, _, _, .lineComment hplace hline.1 hline.2⟩
    by_cases hblock : c = '/' ∧ after.head? = some '*'
    · exact .inl ⟨_, _, _, .blockComment hplace hblock.1 hblock.2⟩
    by_cases hangle : c = '<' ∧ s.context.allowsMarkup = true
    · by_cases htype : namesPrimitive s.rest = true
      · exact .inl ⟨_, _, _, .bracket hplace hangle.1 hangle.2 (.inl htype)⟩
      have hoffers : Offers s c := ⟨hplace, hangle.1, hangle.2, htype⟩
      cases hcapture : capture s.rest with
      | error fault => exact .inr (.inr ⟨fault, hoffers, rfl⟩)
      | ok found =>
        cases found with
        | none => exact .inl ⟨_, _, _, .bracket hplace hangle.1 hangle.2 (.inr hcapture)⟩
        | some captured => exact .inr (.inl ⟨captured, hoffers, rfl⟩)
    have hinert : Inert s c after := ⟨hquote, hapostrophe, hline, hblock, hangle⟩
    cases hraw : rawHashes? s.behind s.rest with
    | none => exact .inl ⟨_, _, _, .plain hplace hinert hraw⟩
    | some hashes => exact .inl ⟨_, _, _, .rawString hplace hinert hraw⟩
  | lineComment =>
    by_cases hc : c = '\n'
    · exact .inl ⟨_, _, _, .lineEnd hplace hc⟩
    · exact .inl ⟨_, _, _, .inLine hplace hc⟩
  | blockComment depth =>
    by_cases hend : c = '*' ∧ after.head? = some '/'
    · exact .inl ⟨_, _, _, .blockEnd hplace hend.1 hend.2⟩
    by_cases hopen : c = '/' ∧ after.head? = some '*'
    · exact .inl ⟨_, _, _, .nested hplace hopen.1 hopen.2⟩
    · exact .inl ⟨_, _, _, .inBlock hplace hend hopen⟩
  | quoted quote openedAt =>
    by_cases hc : c = '\\'
    · exact .inl ⟨_, _, _, .escape hplace hc⟩
    by_cases hquote : c = quote
    · exact .inl ⟨_, _, _, .quoteEnd hplace hc hquote⟩
    · exact .inl ⟨_, _, _, .inQuoted hplace hc hquote⟩
  | raw hashes openedAt =>
    by_cases hend : c = '"' ∧ hashes ≤ (after.takeWhile (· == '#')).length
    · exact .inl ⟨_, _, _, .rawStringEnd hplace hend⟩
    · exact .inl ⟨_, _, _, .inRawString hplace hend⟩

theorem step_eq_ok (h : step s c after = .ok (piece, next)) :
    (∃ n place context, Rule s c after n place context ∧
      piece = .kept (s.rest.take n) ∧ next = s.past n place context) ∨
    ∃ captured, Offers s c ∧ capture s.rest = .ok (some captured) ∧
      piece = .region ⟨s.offset, captured.text, captured.root⟩ ∧
      next = s.past captured.text.length .code (s.context.record ')') := by
  rcases step_cases s c after with
    ⟨n, place, context, hrule⟩ | ⟨captured, hoffers, hcapture⟩ | ⟨fault, hoffers, hcapture⟩
  · rw [hrule.step_eq] at h
    cases h
    exact .inl ⟨n, place, context, hrule, rfl, rfl⟩
  · rw [hoffers.step_found hcapture] at h
    cases h
    exact .inr ⟨captured, hoffers, hcapture, rfl, rfl⟩
  · rw [hoffers.step_fails hcapture] at h
    cases h

theorem step_eq_error {e : Error} (h : step s c after = .error e) :
    Offers s c ∧ ∃ fault, capture s.rest = .error fault ∧
      e = .markup ((withPathHint s.rest fault).shift s.offset) := by
  rcases step_cases s c after with
    ⟨n, place, context, hrule⟩ | ⟨captured, hoffers, hcapture⟩ | ⟨fault, hoffers, hcapture⟩
  · rw [hrule.step_eq] at h
    cases h
  · rw [hoffers.step_found hcapture] at h
    cases h
  · rw [hoffers.step_fails hcapture] at h
    cases h
    exact ⟨hoffers, fault, hcapture, rfl⟩

theorem step_eq_region {r : Region} (h : step s c after = .ok (.region r, next)) :
    ∃ captured, Offers s c ∧ capture s.rest = .ok (some captured) ∧
      r = ⟨s.offset, captured.text, captured.root⟩ ∧
      next = s.past captured.text.length .code (s.context.record ')') := by
  rcases step_eq_ok h with ⟨_, _, _, -, hpiece, -⟩ | ⟨captured, hoffers, hcapture, hpiece, hnext⟩
  · cases hpiece
  · cases hpiece
    exact ⟨captured, hoffers, hcapture, rfl, hnext⟩

theorem step_eq_kept {text : List Char} (h : step s c after = .ok (.kept text, next)) :
    ∃ n place context, Rule s c after n place context ∧
      text = s.rest.take n ∧ next = s.past n place context := by
  rcases step_eq_ok h with ⟨n, place, context, hrule, hpiece, hnext⟩ | ⟨_, -, -, hpiece, -⟩
  · cases hpiece
    exact ⟨n, place, context, hrule, rfl, hnext⟩
  · cases hpiece

end

end InlineMarkup.Scan
