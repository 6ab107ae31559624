import InlineMarkup.Proofs.Region.Items
import InlineMarkup.Proofs.Location
import InlineMarkup.Proofs.Markup.Balance

/-!
What stands directly before a placeholder call. A region may follow a keyword with nothing between
them, since its `<` ends the word; the call that replaces it begins with a word of its own and runs
on from the keyword. Nothing else that lets a region begin is part of a word (`scan_adjacent_iff`).

The scan decides by the last word of code, which it reads on across comments. The invariant is
`Tracks`: where that word has not ended, the text ends in it, or in what a comment has left of it.
-/

set_option autoImplicit false

namespace InlineMarkup.Scan

open InlineMarkup.Text InlineMarkup.Markup

/-- A text ends in a part of a word: in all of it, or in its end, with a comment in front. -/
structure EndsInPart (word text before part : List Char) : Prop where
  text_eq : text = before ++ part
  suffix : part <:+ word
  whole : part = word ∨ ['\n'] <:+ before ∨ ['*', '/'] <:+ before
  apart : before.getLast?.any isWordChar = false

def Context.Tracks (context : Context) (text : List Char) : Prop :=
  if context.endsInWord then ∃ before part, EndsInPart context.word text before part
  else text.getLast?.any isWordChar = false

/-- The invariant of a scan. In a literal the word is over, in a comment it may not be. -/
def State.Tracks (s : State) : Prop :=
  match s.place with
  | .code => s.context.Tracks s.behind.reverse
  | .lineComment => True
  | .blockComment _ => True
  | .quoted quote _ => isWordChar quote = false ∧ s.context.endsInWord = false
  | .raw _ _ => s.context.endsInWord = false

theorem isWordChar_of_blank {c : Char} (h : (isBlank c || c == byteOrderMark) = true) :
    isWordChar c = false := by
  rcases Bool.or_eq_true_iff.1 h with hblank | hmark
  · exact forall_isBlank (p := fun c => isWordChar c = false) (by decide +kernel) hblank
  · rw [eq_of_beq hmark]
    decide +kernel

theorem record_of_word {c : Char} (hc : isWordChar c = true) (context : Context) :
    (context.record c).word = (if context.endsInWord then context.word else []) ++ [c] ∧
      (context.record c).endsInWord = true := by
  have hblank : (isBlank c || c == byteOrderMark) = false := by
    cases h : isBlank c || c == byteOrderMark with
    | false => rfl
    | true =>
      rw [isWordChar_of_blank h] at hc
      cases hc
  simp [Context.record, hblank, hc, Context.endsInWord]

theorem endsInWord_record {c : Char} (hc : isWordChar c = false) (context : Context) :
    (context.record c).endsInWord = false := by
  unfold Context.record
  split <;> simp [Context.endsInWord, hc]

section

variable {context : Context} {text : List Char} {c : Char}

theorem Context.tracks_of_not_word (hcontext : context.endsInWord = false)
    (htext : text.getLast?.any isWordChar = false) : context.Tracks text := by
  rw [Context.Tracks, hcontext]
  exact htext

theorem Context.tracks_of_comment (h : ['\n'] <:+ text ∨ ['*', '/'] <:+ text) :
    context.Tracks text := by
  have hlast : text.getLast?.any isWordChar = false := by
    rcases h with ⟨u, rfl⟩ | ⟨u, rfl⟩ <;> simp <;> decide
  unfold Context.Tracks
  split
  · exact ⟨text, [], by simp, List.nil_suffix, .inr h, hlast⟩
  · exact hlast

theorem Context.Tracks.record (h : context.Tracks text) (c : Char) :
    (context.record c).Tracks (text ++ [c]) := by
  cases hc : isWordChar c with
  | false => exact tracks_of_not_word (endsInWord_record hc context) (by simp [hc])
  | true =>
    obtain ⟨hword, hends⟩ := record_of_word hc context
    rw [Context.Tracks, hends, hword]
    rw [Context.Tracks] at h
    cases hin : context.endsInWord with
    | true =>
      simp only [hin, if_true] at h ⊢
      obtain ⟨before, part, h⟩ := h
      refine ⟨before, part ++ [c], by simp [h.text_eq], ?_, ?_, h.apart⟩
      · obtain ⟨front, hfront⟩ := h.suffix
        exact ⟨front, by rw [← hfront, List.append_assoc]⟩
      · exact h.whole.imp_left fun hpart => by rw [hpart]
    | false =>
      simp only [hin, Bool.false_eq_true, if_false] at h ⊢
      exact ⟨text, [c], rfl, List.suffix_rfl, .inl rfl, h⟩

end

section

variable {s next : State} {piece : Piece} {c : Char} {after : List Char}

theorem State.tracks_iff (h : s.place = .code) : s.Tracks ↔ s.context.Tracks s.behind.reverse := by
  rw [State.Tracks, h]

theorem tracks_of_not_word {text : List Char} {d : Char} (hplace : next.place = .code)
    (hends : next.context.endsInWord = false) (hbehind : next.behind = text.reverse ++ s.behind)
    (hlast : [d] <:+ text) (hd : isWordChar d = false) : next.Tracks := by
  refine (State.tracks_iff hplace).2 (Context.tracks_of_not_word hends ?_)
  obtain ⟨front, rfl⟩ := hlast
  simp [hbehind, hd]

theorem tracks_of_comment {text : List Char} (hplace : next.place = .code)
    (hbehind : next.behind = text.reverse ++ s.behind)
    (h : ['\n'] <:+ text ∨ ['*', '/'] <:+ text) : next.Tracks := by
  refine (State.tracks_iff hplace).2 (Context.tracks_of_comment ?_)
  rw [hbehind, List.reverse_append, List.reverse_reverse]
  exact h.imp (·.trans (List.suffix_append _ _)) (·.trans (List.suffix_append _ _))

theorem rawEnd_last (hashes : Nat) : ∃ d, [d] <:+ rawEnd hashes ∧ isWordChar d = false := by
  cases hashes with
  | zero => exact ⟨'"', List.suffix_rfl, by decide⟩
  | succ n =>
    refine ⟨'#', ⟨'"' :: List.replicate n '#', ?_⟩, by decide⟩
    rw [rawEnd, List.replicate_succ']
    rfl

theorem tracks_of_char (hplace : s.place = .code) (h : s.Tracks) (hrest : s.rest = c :: after) :
    (s.past 1 .code (s.context.record c)).Tracks := by
  have hrecord := ((State.tracks_iff hplace).1 h).record c
  simpa [State.tracks_iff, State.past, hrest] using hrecord

theorem Rule.tracks {n : Nat} {place : Place} {context : Context}
    (hrule : Rule s c after n place context) (h : s.Tracks) (hrest : s.rest = c :: after) :
    (s.past n place context).Tracks := by
  have hquote : isWordChar '"' = false := by decide
  have hmark : isWordChar '\'' = false := by decide
  cases hrule with
  | string => exact ⟨hquote, endsInWord_record hquote _⟩
  | escaped => exact ⟨hmark, endsInWord_record hmark _⟩
  | character _ hc _ hclose =>
    obtain ⟨d, rest, rfl⟩ : ∃ d rest, after = d :: '\'' :: rest := by
      rcases after with _ | ⟨d, _ | ⟨e, rest⟩⟩
      · cases hclose
      · cases hclose
      · cases hclose
        exact ⟨d, rest, rfl⟩
    refine tracks_of_not_word rfl (endsInWord_record hmark _) rfl ⟨['\'', d], ?_⟩ hmark
    rw [hrest, hc]
    rfl
  | lifetime hplace hc | bracket hplace hc =>
    subst hc
    exact tracks_of_char hplace h hrest
  | plain hplace => exact tracks_of_char hplace h hrest
  | lineComment | blockComment | inLine | nested | inBlock => trivial
  | rawString => exact endsInWord_record hquote _
  | lineEnd _ hc =>
    refine tracks_of_comment rfl rfl (.inl ?_)
    rw [hrest, hc]
    exact List.suffix_rfl
  | @blockEnd depth _ hc hnext =>
    obtain ⟨rest, rfl⟩ := List.head?_eq_some_iff.1 hnext
    by_cases hdepth : depth ≤ 1
    · refine tracks_of_comment (by simp [State.past, outside, hdepth]) rfl (.inr ?_)
      rw [hrest, hc]
      exact List.suffix_rfl
    · simp [State.Tracks, State.past, outside, hdepth]
  | escape hplace | inQuoted hplace | inRawString hplace =>
    rw [State.Tracks, hplace] at h
    exact h
  | @quoteEnd quote _ hplace _ hc =>
    rw [State.Tracks, hplace] at h
    refine tracks_of_not_word rfl h.2 rfl (d := quote) ?_ h.1
    rw [hrest, hc]
    exact List.suffix_rfl
  | @rawStringEnd hashes _ hplace hend =>
    rw [State.Tracks, hplace] at h
    obtain ⟨rest, hclose⟩ := rawEnd_prefix_cons.2 hend
    have htake : s.rest.take (hashes + 1) = rawEnd hashes := by
      rw [hrest, ← hclose]
      exact List.take_left' (by simp [Scan.rawEnd])
    obtain ⟨d, hlast, hd⟩ := rawEnd_last hashes
    exact tracks_of_not_word rfl h rfl (htake ▸ hlast) hd

theorem tracks_of_capture {captured : Captured} (h : capture s.rest = .ok (some captured)) :
    (s.past captured.text.length .code (s.context.record ')')).Tracks := by
  obtain ⟨-, ⟨rest, hinput⟩, -⟩ := capture_local h
  refine tracks_of_not_word rfl (endsInWord_record (by decide) _) rfl ?_ (d := '>') (by decide)
  rw [hinput, List.take_left]
  exact capture_ends h

theorem step_tracks (h : s.Tracks) (hrest : s.rest = c :: after)
    (hstep : step s c after = .ok (piece, next)) : next.Tracks := by
  rcases step_eq_ok hstep with ⟨n, place, context, hrule, -, rfl⟩ | ⟨captured, -, hcapture, -, rfl⟩
  · exact hrule.tracks h hrest
  · exact tracks_of_capture hcapture

end

theorem Runs.tracks {s t : State} {ps : List Piece} (h : Runs s ps t) (hs : s.Tracks) :
    t.Tracks := by
  induction h with
  | done => exact hs
  | step hrest hstep _ ih => exact ih (step_tracks hs hrest hstep)

theorem tracks_start (source : List Char) : (start source).Tracks :=
  Context.tracks_of_not_word rfl rfl

theorem step_region {s next : State} {r : Region} {c : Char} {after : List Char}
    (h : step s c after = .ok (.region r, next)) :
    s.place = .code ∧ s.context.allowsMarkup = true := by
  obtain ⟨captured, hoffers, -⟩ := step_eq_region h
  exact ⟨hoffers.place_eq, hoffers.allows⟩

/-- Of the characters that let an expression begin none is in a word, so a word does so only if it
is one of the keywords. -/
theorem mem_leaders_of_allowsMarkup {context : Context} (h : context.allowsMarkup = true)
    (hends : context.endsInWord = true) : context.word ∈ Context.leaders := by
  have hopeners : Context.openers.all (!isWordChar ·) = true := by decide
  simp only [Context.endsInWord, Bool.and_eq_true] at hends
  unfold Context.allowsMarkup at h
  split at h
  · rename_i hlast
    simp [hlast] at hends
  · rename_i c hlast
    have hc : isWordChar c = true := by simpa [hlast] using hends.2
    have hne : ∀ d, isWordChar d = false → c ≠ d := by
      rintro d hd rfl
      rw [hd] at hc
      cases hc
    have hopener : ¬ Context.openers.contains c = true := fun hmem =>
      hne c (by simpa using List.all_eq_true.1 hopeners c (List.contains_iff_mem.1 hmem)) rfl
    rw [if_neg hopener, if_neg (hne ':' (by decide)), if_neg (hne '>' (by decide))] at h
    exact List.contains_iff_mem.1 h

/-- Some text ends in a keyword after which an expression may begin, or in what a comment has left
of one. -/
def EndsInLeader (text : List Char) : Prop :=
  ∃ keyword ∈ Context.leaders, ∃ before part, part ≠ [] ∧ EndsInPart keyword text before part

theorem EndsInPart.last_eq {word text before part : List Char}
    (h : EndsInPart word text before part) (hpart : part ≠ []) :
    text.getLast? = word.getLast? := by
  obtain ⟨front, hfront⟩ := h.suffix
  rw [h.text_eq, ← hfront]
  simp [List.getLast?_append, List.getLast?_eq_some_getLast hpart]

theorem endsInLeader_iff {s : State} (h : s.Tracks) (hplace : s.place = .code)
    (hallows : s.context.allowsMarkup = true) :
    s.behind.reverse.getLast?.any isWordChar = true ↔ EndsInLeader s.behind.reverse := by
  rw [State.tracks_iff hplace, Context.Tracks] at h
  constructor
  · intro hlast
    split at h
    · rename_i hends
      obtain ⟨before, part, h⟩ := h
      refine ⟨_, mem_leaders_of_allowsMarkup hallows hends, before, part, ?_, h⟩
      rintro rfl
      rw [h.text_eq, List.append_nil, h.apart] at hlast
      cases hlast
    · rw [h] at hlast
      cases hlast
  · rintro ⟨keyword, hkeyword, before, part, hpart, h⟩
    have hleaders : ∀ keyword ∈ Context.leaders, keyword.getLast?.any isWordChar = true := by decide
    rw [h.last_eq hpart]
    exact hleaders keyword hkeyword

theorem runs_of_readFrom {source : List Char} {fuel : Nat} {s : State} {ps : List Piece}
    (hfuel : s.rest.length < fuel) (h : readFrom source fuel s = .ok ps) : ∃ t, Runs s ps t := by
  induction fuel generalizing s ps with
  | zero => omega
  | succ fuel ih =>
    cases hrest : s.rest with
    | nil =>
      simp only [readFrom, hrest] at h
      obtain rfl := finish_eq_ok h
      exact ⟨s, .done s⟩
    | cons c after =>
      cases hstep : step s c after with
      | error e =>
        rw [readFrom_step_error fuel hrest hstep] at h
        cases h
      | ok p =>
        obtain ⟨qs, hqs, rfl⟩ := map_eq_ok.1 (readFrom_step fuel hrest hstep ▸ h)
        have hlt := length_lt_of_step hrest hstep
        obtain ⟨t, ht⟩ := ih (by omega) hqs
        exact ⟨t, .step hrest hstep ht⟩

theorem Runs.split {s t : State} {ps qs : List Piece} {piece : Piece}
    (h : Runs s (ps ++ piece :: qs) t) : ∃ m next c after,
      Runs s ps m ∧ m.rest = c :: after ∧ Scan.step m c after = .ok (piece, next) := by
  induction ps generalizing s with
  | nil =>
    cases h with
    | step hrest hstep _ => exact ⟨s, _, _, _, .done s, hrest, hstep⟩
  | cons p ps ih =>
    cases h with
    | step hrest hstep h =>
      obtain ⟨m, next, c, after, hm, hfound⟩ := ih h
      exact ⟨m, next, c, after, .step hrest hstep hm, hfound⟩

theorem split_of_partsOf {ps : List Piece} {before after : List (List Char × Region)}
    {gap : List Char} {r : Region} (h : (partsOf ps).1 = before ++ (gap, r) :: after) :
    ∃ qs rs, ps = qs ++ .region r :: rs ∧ partsOf qs = (before, gap) := by
  induction ps generalizing before gap with
  | nil => simp [partsOf] at h
  | cons p ps ih =>
    cases p with
    | kept text =>
      have hkept : ∀ {qs g q parts last}, partsOf qs = ((g, q) :: parts, last) →
          partsOf (.kept text :: qs) = ((text ++ g, q) :: parts, last) := fun hqs => by
        simp only [partsOf, hqs]
      have hnone : ∀ {qs last}, partsOf qs = ([], last) →
          partsOf (.kept text :: qs) = ([], text ++ last) := fun hqs => by
        simp only [partsOf, hqs]
      -- kept text joins the gap before the next region, if there is one
      rcases hparts : partsOf ps with ⟨_ | ⟨⟨g, q⟩, parts⟩, last⟩
      · simp [hnone hparts] at h
      · rw [hkept hparts] at h
        cases before with
        | nil =>
          cases h
          obtain ⟨qs, rs, rfl, hqs⟩ := @ih [] g (by rw [hparts]; rfl)
          exact ⟨.kept text :: qs, rs, rfl, hnone hqs⟩
        | cons part before =>
          obtain ⟨rfl, htail⟩ := List.cons.inj h
          obtain ⟨qs, rs, rfl, hqs⟩ := @ih ((g, q) :: before) gap (by rw [hparts, htail]; rfl)
          exact ⟨.kept text :: qs, rs, rfl, hkept hqs⟩
    | region q =>
      simp only [partsOf] at h
      cases before with
      | nil =>
        cases h
        exact ⟨[], ps, rfl, rfl⟩
      | cons part before =>
        obtain ⟨rfl, htail⟩ := List.cons.inj h
        obtain ⟨qs, rs, rfl, hqs⟩ := ih htail
        exact ⟨.region q :: qs, rs, rfl, by simp [partsOf, hqs]⟩

/-- Pieces and their annotated text end in a word together: a region ends with its last tag, and a
call with its parenthesis. -/
theorem Runs.last_eq {s t : State} {ps : List Piece} (h : Runs s ps t) (placeholder : Host.Path)
    (id : Nat) : (annotateFrom placeholder id ps).getLast?.any isWordChar =
      ((ps.map Piece.text).flatten).getLast?.any isWordChar := by
  rcases List.eq_nil_or_concat' ps with rfl | ⟨ps, piece, rfl⟩
  · rfl
  · obtain ⟨m, next, c, after, -, hrest, hstep⟩ := Runs.split h
    have ht := step_takes (by simp [hrest]) hstep
    have hlast : ∀ (x y : List Char) (d : Char), (x ++ (y ++ [d])).getLast? = some d := by simp
    rw [annotateFrom_append, List.map_append, List.flatten_append]
    cases piece with
    | kept text =>
      obtain ⟨front, d, rfl⟩ := (List.eq_nil_or_concat' text).resolve_left ht.nonempty
      simp only [annotateFrom, Piece.text, List.map_cons, List.map_nil, List.flatten_cons,
        List.flatten_nil, List.append_nil, hlast]
    | region r =>
      obtain ⟨front, hfront⟩ : ['>'] <:+ r.text := capture_ends (ht.region r rfl).2
      simp only [annotateFrom, placeholderCall, Piece.text, ← hfront, List.map_cons, List.map_nil,
        List.flatten_cons, List.flatten_nil, List.append_nil, hlast]
      decide

end InlineMarkup.Scan

namespace InlineMarkup

open InlineMarkup.Text InlineMarkup.Markup InlineMarkup.Scan

/-- The placeholder call for a region directly follows a character of a word exactly if the region
directly follows a keyword after which an expression may begin, or the part of one that stands
behind a comment. -/
theorem scan_adjacent_iff {placeholder : Host.Path} {source : List Char} {scanned : Scanned}
    (h : scan placeholder source = .ok scanned) :
    ∃ parts last, Divides placeholder source scanned parts last ∧
      ∀ before gap r after, parts = before ++ (gap, r) :: after →
        ((weave (called placeholder) 1 before gap).getLast?.any isWordChar = true ↔
          EndsInLeader (weave written 1 before gap)) := by
  obtain ⟨ps, hps, rfl⟩ := scan_eq_ok h
  refine ⟨_, _, partsOf_divides placeholder hps, fun before gap r after hparts => ?_⟩
  obtain ⟨qs, rs, rfl, hqs⟩ := split_of_partsOf hparts
  obtain ⟨t, hruns⟩ := runs_of_readFrom (by simp) hps
  obtain ⟨m, next, c, after', hm, -, hstep⟩ := hruns.split
  obtain ⟨hplace, hallows⟩ := step_region hstep
  have hcalled := weave_called_partsOf placeholder 1 qs
  have hwritten := weave_written_partsOf 1 qs
  rw [hqs] at hcalled hwritten
  have hbehind : m.behind.reverse = (qs.map Piece.text).flatten := by
    simp [hm.rest_eq.2]
  rw [hcalled, hwritten, hm.last_eq, ← hbehind]
  exact endsInLeader_iff (hm.tracks (tracks_start source)) hplace hallows

theorem Divides.front_eq {placeholder : Host.Path} {source : List Char} {scanned : Scanned}
    {parts : List (List Char × Region)} {last : List Char}
    (h : Divides placeholder source scanned parts last) {before after : List (List Char × Region)}
    {gap : List Char} {r : Region} (hparts : parts = before ++ (gap, r) :: after) :
    weave written 1 before gap = takeBytes r.offset source := by
  rw [h.offset_eq before gap r after hparts, h.source_eq, hparts, weave_append, takeBytes_append]

theorem scan_adjacent_iff_return : ∃ scanned,
    scan (.ofNames ["h"]) "[<a/>]; ret/**/urn<p/>".toList = .ok scanned ∧
      scanned.source = "[h(1, r#\"<a/>\"#)]; ret/**/urnh(2, r#\"<p/>\"#)".toList ∧
      ¬ EndsInLeader "[".toList ∧ EndsInLeader "[<a/>]; ret/**/urn".toList := by
  have hscan : scan (.ofNames ["h"]) "[<a/>]; ret/**/urn<p/>".toList =
      .ok ⟨"[h(1, r#\"<a/>\"#)]; ret/**/urnh(2, r#\"<p/>\"#)".toList,
        ⟨[⟨1, "<a/>".toList, ⟨['a'], [], []⟩⟩, ⟨18, "<p/>".toList, ⟨['p'], [], []⟩⟩]⟩⟩ :=
    eq_ok_of_toOption (by decide +kernel)
  refine ⟨_, hscan, rfl, ?_⟩
  obtain ⟨parts, last, hdivides, hiff⟩ := scan_adjacent_iff hscan
  have hregions := hdivides.regions_eq
  rcases parts with _ | ⟨⟨gap, r⟩, _ | ⟨⟨gap', r'⟩, _ | ⟨part, parts⟩⟩⟩
  all_goals simp at hregions
  obtain ⟨rfl, rfl⟩ := hregions
  have hgap : gap = ['['] := (hdivides.front_eq (List.nil_append _).symm).trans rfl
  subst hgap
  have hsecond : "[<a/>".toList ++ gap' = "[<a/>".toList ++ "]; ret/**/urn".toList :=
    hdivides.front_eq (List.singleton_append).symm
  have hgap' := List.append_cancel_left hsecond
  subst hgap'
  refine ⟨fun hfirst => ?_, ?_⟩
  · have hlast := (hiff [] _ _ _ rfl).2 hfirst
    revert hlast
    decide
  · refine (hiff [_] _ _ [] rfl).1 ?_
    decide +kernel

end InlineMarkup
