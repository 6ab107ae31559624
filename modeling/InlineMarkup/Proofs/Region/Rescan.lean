import InlineMarkup.Proofs.Markup.Opening
import InlineMarkup.Proofs.Region.Mirror

/-!
Scanning an annotated source again. The second scan finds no region and keeps the text
(`scan_annotated`), unless a call has come to stand right behind `</`, where it reads as an end tag.

Over a placeholder call the second scan goes alone: the call's words and digits are plain code, its
text is a raw string, and the closing parenthesis leaves the context that a region leaves.
-/

set_option autoImplicit false

namespace InlineMarkup.Scan

open InlineMarkup.Text InlineMarkup.Markup

/-- The characters that begin something else than plain code, but for the `r` of a raw string. -/
def breakers : List Char := "\"'/<".toList

theorem not_mem_of_all {p : Char → Bool} {l : List Char} {c : Char}
    (hl : l.all (fun d => !p d) = true) (hc : p c = true) : c ∉ l := by
  intro hmem
  have hnot := List.all_eq_true.1 hl c hmem
  simp [hc] at hnot

theorem not_breaker_of_plainWord {w : List Char} (h : Host.Lexeme.plainWord? w = some []) :
    ∀ c ∈ w, c ∉ breakers := by
  cases w with
  | nil => cases h
  | cons c w =>
    simp only [Host.Lexeme.plainWord?] at h
    split at h
    · rename_i hc
      have hrest := List.dropWhile_eq_nil_iff.1 (Option.some.inj h)
      exact List.forall_mem_cons.2
        ⟨not_mem_of_all (by decide) hc, fun d hd => not_mem_of_all (by decide) (hrest d hd)⟩
    · cases h

theorem not_breaker_of_isWord {w : List Char} (h : Host.IsWord w) : ∀ c ∈ w, c ∉ breakers := by
  unfold Host.IsWord Host.Lexeme.word? at h
  split at h
  · cases h
  · unfold Host.Lexeme.anyWord? at h
    split at h
    · obtain ⟨rest, hrest, h⟩ := Option.bind_eq_some_iff.1 h
      split at h
      · cases h
      · cases h
        have hword := not_breaker_of_plainWord hrest
        exact List.forall_mem_cons.2 ⟨by decide, List.forall_mem_cons.2 ⟨by decide, hword⟩⟩
    · exact not_breaker_of_plainWord h

def callHead (function : Host.Path) (id : Nat) : List Char :=
  function.text ++ '(' :: ((toString id).toList ++ [',', ' '])

theorem not_breaker_of_callHead {function : Host.Path} (hf : function.IsWritten) (id : Nat) :
    ∀ c ∈ callHead function id, c ∉ breakers := by
  have hcolons : ∀ c ∈ [':', ':'], c ∉ breakers := List.all_iff_forall_prop.1 (by decide)
  have htext : ∀ c ∈ function.text, c ∉ breakers := by
    intro c hc
    rcases List.mem_append.1 hc with hc | hc
    · split at hc
      · exact hcolons c hc
      · cases hc
    · rcases mem_join hc with hc | ⟨w, hw, hc⟩
      · exact hcolons c hc
      · obtain ⟨s, hs, rfl⟩ := List.mem_map.1 hw
        exact not_breaker_of_isWord (hf.words s hs) c hc
  have hdigits : ∀ c ∈ (toString id).toList, c ∉ breakers := by
    intro c hc
    exact not_mem_of_all (by decide) (isDigit_of_mem_id hc)
  have hend : ∀ c ∈ [',', ' '], c ∉ breakers := List.all_iff_forall_prop.1 (by decide)
  exact List.forall_mem_append.2 ⟨htext, List.forall_mem_cons.2
    ⟨by decide, List.forall_mem_append.2 ⟨hdigits, hend⟩⟩⟩

theorem placeholderCall_eq (function : Host.Path) (id : Nat) (text : List Char) :
    placeholderCall function id text = callHead function id ++
      (rawStart (longestRun text + 1) ++ (text ++ rawEnd (longestRun text + 1)) ++ [')']) := by
  simp [placeholderCall, callHead, rawStringLiteral, rawStart, rawEnd]

theorem path_text_eq_cons {function : Host.Path} (hf : function.IsWritten) :
    ∃ d s, function.text = d :: s ∧ d ∉ marks := by
  obtain ⟨rooted, segments⟩ := function
  cases rooted with
  | true => exact ⟨':', _, rfl, by decide⟩
  | false =>
    cases segments with
    | nil => exact absurd rfl hf.nonempty
    | cons segment segments =>
      obtain ⟨d, w, hw, hd⟩ := Host.Lexeme.word?_eq_cons (hf.words segment List.mem_cons_self)
      have hmarks : d ∉ marks := not_mem_of_all (by decide) hd
      cases segments with
      | nil => exact ⟨d, w, by simp [Host.Path.text, join, hw], hmarks⟩
      | cons other segments => exact ⟨d, _, by simp [Host.Path.text, join, hw]; rfl, hmarks⟩

theorem callHead_eq_cons {function : Host.Path} (hf : function.IsWritten) (id : Nat) :
    ∃ d e s, callHead function id = d :: e :: s ∧ d ∉ marks ∧ e ≠ '\'' := by
  have hbreakers := not_breaker_of_callHead hf id
  obtain ⟨d, s, hd, hmarks⟩ := path_text_eq_cons hf
  obtain ⟨e, r, he⟩ : ∃ e r, s ++ '(' :: ((toString id).toList ++ [',', ' ']) = e :: r := by
    cases s with
    | nil => exact ⟨_, _, rfl⟩
    | cons e s => exact ⟨_, _, rfl⟩
  have hhead : callHead function id = d :: e :: r := by
    rw [callHead, hd, List.cons_append, he]
  refine ⟨d, e, r, hhead, hmarks, ?_⟩
  intro hquote
  refine hbreakers e (by simp [hhead]) ?_
  rw [hquote]
  decide

theorem hashes_prefix_of_append {n : Nat} {text rest : List Char} (htext : '"' ∉ text)
    (h : List.replicate n '#' ++ ['"'] <+: text ++ rest) :
    ∃ m, List.replicate m '#' ++ ['"'] <+: rest := by
  induction text generalizing n with
  | nil => exact ⟨n, h⟩
  | cons c text ih =>
    cases n with
    | zero =>
      have hc : '"' = c := (List.cons_prefix_cons.1 h).1
      exact absurd (hc ▸ List.mem_cons_self) htext
    | succ n =>
      rw [List.replicate_succ, List.cons_append, List.cons_append, List.cons_prefix_cons] at h
      exact ih (fun hmem => htext (List.mem_cons_of_mem c hmem)) h.2

theorem Echoes.refl (s : State) : Echoes s [] s :=
  ⟨⟨[], .done s, rfl, rfl⟩, rfl, rfl⟩

theorem inert_of_not_breaker {c : Char} (hc : c ∉ breakers) (s : State) (after : List Char) :
    Inert s c after := by
  have hne : ∀ d ∈ breakers, c ≠ d := by
    rintro d hd rfl
    exact hc hd
  exact inert_of_ne (hne '"' (by decide)) (hne '\'' (by decide)) (hne '/' (by decide))
    (hne '<' (by decide))

theorem echoes_plain {s : State} {text rest : List Char} (htext : ∀ c ∈ text, c ∉ breakers)
    (hquote : ∀ n, ¬List.replicate n '#' ++ ['"'] <+: rest) (hrest : s.rest = text ++ rest)
    (hplace : s.place = .code) : ∃ t, Echoes s text t ∧ t.place = .code := by
  induction text generalizing s with
  | nil => exact ⟨s, .refl s, hplace⟩
  | cons c text ih =>
    obtain ⟨hc, htext⟩ := List.forall_mem_cons.1 htext
    have hraw : rawHashes? s.behind s.rest = none := by
      cases hsome : rawHashes? s.behind s.rest with
      | none => rfl
      | some n =>
        have hstart := (rawHashes?_eq_some_iff.1 hsome).2
        rw [hrest, rawStart, List.cons_append, List.cons_prefix_cons] at hstart
        have hfree : '"' ∉ text := fun hmem => htext '"' hmem (by decide)
        obtain ⟨m, hm⟩ := hashes_prefix_of_append hfree hstart.2
        exact absurd hm (hquote m)
    have h : Echoes s [c] _ :=
      .of_rule hrest (.plain hplace (inert_of_not_breaker hc s _) hraw) (by simp [hrest])
    obtain ⟨t, ht, hcode⟩ := ih htext (h.next_rest hrest) rfl
    exact ⟨t, h.trans ht, hcode⟩

theorem le_longestRun_of_infix {n : Nat} {text : List Char} (h : rawEnd n <:+: text) :
    n ≤ longestRun text := by
  induction text with
  | nil => exact absurd (List.infix_nil.1 h) (by simp [rawEnd])
  | cons c text ih =>
    rcases List.infix_cons_iff.1 h with h | h
    · obtain ⟨hc, hn⟩ := rawEnd_prefix_cons.1 h
      simp only [longestRun, hc, if_true]
      omega
    · have hn := ih h
      simp only [longestRun]
      split <;> omega

theorem echoes_placeholderCall {function : Host.Path} (hf : function.IsWritten) {s : State}
    {id : Nat} {text rest : List Char} (hrest : s.rest = placeholderCall function id text ++ rest)
    (hplace : s.place = .code) :
    ∃ t k, Echoes s (placeholderCall function id text) t ∧ t.place = .code ∧
      t.context = Context.record k ')' := by
  have hsource := hrest
  rw [placeholderCall_eq, List.append_assoc] at hrest
  have hquote : ∀ (n : Nat) (x : List Char), ¬List.replicate n '#' ++ ['"'] <+: 'r' :: x := by
    intro n x h
    cases n with
    | zero => exact absurd (List.cons_prefix_cons.1 h).1 (by decide)
    | succ n => exact absurd (List.cons_prefix_cons.1 h).1 (by decide)
  obtain ⟨t, ht, hcode⟩ :=
    echoes_plain (not_breaker_of_callHead hf id) (fun n => hquote n _) hrest hplace
  have hbehind : t.behind.head?.any isWordChar = false := by
    rw [ht.behind_eq, callHead]
    simp
    decide
  have hbody : ¬rawEnd (longestRun text + 1) <:+: text := fun h => by
    have := le_longestRun_of_infix h
    omega
  have hrest' := ht.next_rest hrest
  rw [List.append_assoc] at hrest'
  obtain ⟨u, hu, hcode'⟩ := echoes_item (.raw (.bare hbehind) hbody) hrest' hcode
  have hlast : u.rest = ')' :: rest := hu.next_rest hrest'
  have hraw : rawHashes? u.behind u.rest = none := by
    rw [hlast]
    rfl
  have hclose : Echoes u [')'] (u.past 1 .code (u.context.record ')')) :=
    .of_rule hlast (.plain hcode' (inert_of_not_breaker (by decide) u rest) hraw) (by simp [hlast])
  refine ⟨u.past 1 .code (u.context.record ')'), u.context, ?_, rfl, rfl⟩
  rw [placeholderCall_eq]
  exact ht.trans (hu.trans hclose)

theorem text_of_region {s next : State} {r : Region} {c : Char} {after : List Char}
    (hrest : s.rest = c :: after) (hstep : step s c after = .ok (.region r, next)) :
    ∃ l x, r.text = '<' :: l :: x ∧ l ≠ '\'' := by
  have ht := step_takes (by simp [hrest]) hstep
  exact eq_cons_of_opensTag (opensTag_of_capture (ht.region r rfl).2)

theorem agrees_annotateFrom {function : Host.Path} (hf : function.IsWritten) {s last : State}
    {ps : List Piece} (h : Runs s ps last) (hlast : last.rest = []) (id : Nat) :
    Agrees s.rest (annotateFrom function id ps) := by
  induction h generalizing id with
  | done s =>
    rw [hlast]
    exact .nil
  | @step s next last piece ps c after hrest hstep _ ih =>
    have ht := step_takes (by simp [hrest]) hstep
    rw [ht.rest_eq]
    cases piece with
    | kept text => exact (ih hlast id).append text
    | region r =>
      obtain ⟨l, x, hr, hl⟩ := text_of_region hrest hstep
      obtain ⟨d, e, y, hcall, hd, he⟩ := callHead_eq_cons hf id
      rw [Piece.text, hr, annotateFrom, placeholderCall_eq, hcall]
      exact .region hl hd he

theorem first_region (ps : List Piece) :
    regionsOf ps = [] ∨ ∃ qs r rs, ps = qs ++ .region r :: rs ∧ regionsOf qs = [] := by
  induction ps with
  | nil => exact .inl rfl
  | cons p ps ih =>
    cases p with
    | region r => exact .inr ⟨[], r, ps, rfl, rfl⟩
    | kept text =>
      rcases ih with h | ⟨qs, r, rs, rfl, h⟩
      · exact .inl h
      · exact .inr ⟨.kept text :: qs, r, rs, rfl, h⟩

theorem takeWhile_of_last {a b : List Char} (ha : a.getLast?.any isWordChar = false)
    (hb : ∀ c ∈ b, isWordChar c = true) : (a ++ b).reverse.takeWhile isWordChar = b.reverse := by
  have hnil : a.reverse.takeWhile isWordChar = [] := by
    rcases List.eq_nil_or_concat' a with rfl | ⟨a, c, rfl⟩
    · rfl
    · have hc : isWordChar c = false := by simpa using ha
      simp [hc]
  rw [List.reverse_append, List.takeWhile_append_of_pos (by simpa using hb), hnil, List.append_nil]

theorem mem_leaders_of_gap {m next : State} {r : Region} {c : Char} {after x gap : List Char}
    (hm : m.Tracks) (hstep : step m c after = .ok (.region r, next))
    (hbehind : m.behind.reverse = x ++ ['<'] ++ gap) (hgap : ∀ c ∈ gap, isWordChar c = true)
    (hne : gap ≠ []) : gap ∈ Context.leaders := by
  obtain ⟨hplace, hallows⟩ := step_region hstep
  have hlast : m.behind.reverse.getLast?.any isWordChar = true := by
    rw [hbehind, List.getLast?_append_of_ne_nil _ hne, List.getLast?_eq_some_getLast hne]
    exact hgap _ (List.getLast_mem hne)
  obtain ⟨keyword, hkeyword, before, part, -, h⟩ := (endsInLeader_iff hm hplace hallows).1 hlast
  have hword : ∀ c ∈ part, isWordChar c = true := by
    have hleaders : ∀ keyword ∈ Context.leaders, keyword.all isWordChar = true := by decide
    intro c hc
    exact List.all_eq_true.1 (hleaders keyword hkeyword) c (h.suffix.subset hc)
  have heq := hbehind.symm.trans h.text_eq
  have hpart : gap = part := by
    have htake := takeWhile_of_last h.apart hword
    rw [← heq, takeWhile_of_last (by simp; decide) hgap] at htake
    exact List.reverse_injective htake
  subst hpart
  have hbefore := List.append_cancel_right heq
  rcases h.whole with rfl | ⟨u, hu⟩ | ⟨u, hu⟩
  · exact hkeyword
  · rw [← hbefore] at hu
    simpa using congrArg List.getLast? hu
  · rw [← hbefore] at hu
    simpa using congrArg List.getLast? hu

theorem namesPrimitive_append {gap : List Char} (x y : List Char)
    (h : ¬∀ c ∈ gap, isWordChar c = true) :
    namesPrimitive ('<' :: (gap ++ x)) = namesPrimitive ('<' :: (gap ++ y)) := by
  have hlength : (gap.takeWhile isWordChar).length ≠ gap.length := by
    intro hlength
    refine h fun c hc => ?_
    rw [← (List.takeWhile_prefix isWordChar).eq_of_length hlength] at hc
    exact List.mem_takeWhile_imp hc
  simp only [namesPrimitive, List.drop_succ_cons, List.drop_zero, List.takeWhile_append,
    if_neg hlength]

theorem opensTag_gap {gap : List Char} (x y : List Char) (hne : gap ≠ []) (hslash : gap ≠ ['/']) :
    opensTag ('<' :: (gap ++ x)) = opensTag ('<' :: (gap ++ y)) := by
  rcases gap with _ | ⟨c, _ | ⟨d, gap⟩⟩
  · exact absurd rfl hne
  · have hc : c ≠ '/' := fun h => hslash (by rw [h])
    simp [opensTag, hc]
  · exact opensTag_append (w := '<' :: c :: d :: gap) x y (by simp)

theorem not_namesPrimitive_of_leader {gap rest : List Char} (h : gap ∈ Context.leaders)
    (hrest : rest.head?.any isWordChar = false) :
    ¬namesPrimitive ('<' :: (gap ++ rest)) = true := by
  have hleaders : ∀ keyword ∈ Context.leaders,
      keyword.all isWordChar = true ∧ primitiveTypes.contains keyword = false := by decide +kernel
  obtain ⟨hword, hprimitive⟩ := hleaders gap h
  have htake : rest.takeWhile isWordChar = [] := by
    cases rest with
    | nil => rfl
    | cons c rest =>
      have hc : isWordChar c = false := by simpa using hrest
      simp [hc]
  rw [namesPrimitive, List.drop_succ_cons, List.drop_zero,
    List.takeWhile_append_of_pos (List.all_eq_true.1 hword), htake, List.append_nil, hprimitive]
  decide

theorem gap_ne_nil {s m next : State} {qs : List Piece} {r : Region} {c : Char}
    {after : List Char} (h : Runs s qs m) (hregion : step m c after = .ok (.region r, next))
    {k : Context} (hcontext : s.context = k.record '<') : (qs.map Piece.text).flatten ≠ [] := by
  cases h with
  | done =>
    have hallows := (step_region hregion).2
    rw [hcontext] at hallows
    cases hallows
  | step hrest hstep _ =>
    have ht := step_takes (by simp [hrest]) hstep
    simp [ht.nonempty]

/-- A type that is named behind a `<` ends before the next region: otherwise it would be a word right
before the region, and no expression may follow it. -/
theorem namesPrimitive_gap {m next : State} {r : Region} {c : Char} {after x gap : List Char}
    (hm : m.Tracks) (hrest : m.rest = c :: after) (hstep : step m c after = .ok (.region r, next))
    (hbehind : m.behind.reverse = x ++ ['<'] ++ gap) (hne : gap ≠ []) (y : List Char)
    (h : namesPrimitive ('<' :: (gap ++ m.rest)) = true) :
    namesPrimitive ('<' :: (gap ++ y)) = true := by
  by_cases hgap : ∀ c ∈ gap, isWordChar c = true
  · have hleader := mem_leaders_of_gap hm hstep hbehind hgap hne
    obtain ⟨-, hoffers, -⟩ := step_eq_region hstep
    have hstop : m.rest.head?.any isWordChar = false := by
      rw [hrest, hoffers.char_eq]
      exact (by decide : isWordChar '<' = false)
    exact absurd h (not_namesPrimitive_of_leader hleader hstop)
  · rwa [namesPrimitive_append y m.rest hgap]

theorem not_markup_of_annotated {s t next last : State} {ps : List Piece} {text after : List Char}
    (function : Host.Path) (id : Nat) (hs : s.Tracks) (hplace : s.place = .code)
    (hallows : s.context.allowsMarkup = true) (hrest : s.rest = '<' :: after)
    (hnot : namesPrimitive s.rest = true ∨ capture s.rest = .ok none)
    (hstep : step s '<' after = .ok (.kept text, next)) (h : Runs next ps last)
    (hlast : last.rest = [])
    (hfree : ∀ qs r rs, ps = qs ++ .region r :: rs →
      ¬['<', '/'] <:+ next.behind.reverse ++ (qs.map Piece.text).flatten)
    (ht : t.rest = text ++ annotateFrom function id ps) :
    namesPrimitive t.rest = true ∨ capture t.rest = .ok none := by
  rw [(Rule.bracket hplace rfl hallows hnot).step_eq] at hstep
  cases hstep
  have hnext : (s.past 1 .code (s.context.record '<')).rest = after := by simp [State.past, hrest]
  have hbehind : (s.past 1 .code (s.context.record '<')).behind.reverse =
      s.behind.reverse ++ ['<'] := by
    simp [State.past, hrest]
  have ht' : t.rest = '<' :: annotateFrom function id ps := by simpa [hrest] using ht
  rw [capture_eq_none_iff, hrest] at hnot
  rw [capture_eq_none_iff, ht']
  -- only what is before the first region is the same for both scans
  rcases first_region ps with hnone | ⟨qs, r, rs, rfl, hqs⟩
  · have hall := h.rest_eq.1
    rw [hnext, hlast, List.append_nil, ← annotateFrom_of_regionsOf_nil function id hnone] at hall
    rwa [← hall]
  · obtain ⟨m, next', c, after', hm, hmrest, hregion⟩ := h.split
    obtain ⟨hgap, hgapbehind⟩ := hm.rest_eq
    have hne := gap_ne_nil hm hregion rfl
    have hmbehind : m.behind.reverse =
        s.behind.reverse ++ ['<'] ++ (qs.map Piece.text).flatten := by
      rw [hgapbehind, List.reverse_append, List.reverse_reverse, hbehind]
    have hslash : (qs.map Piece.text).flatten ≠ ['/'] := by
      intro hslash
      refine hfree qs r rs rfl ?_
      rw [hslash, hbehind, List.append_assoc]
      exact List.suffix_append _ _
    rw [annotateFrom_append, annotateFrom_of_regionsOf_nil function id hqs]
    rw [← hnext, hgap] at hnot
    rcases hnot with hprimitive | htag
    · have htracks := hm.tracks (tracks_of_char hplace hs hrest)
      exact .inl (namesPrimitive_gap htracks hmrest hregion hmbehind hne _ hprimitive)
    · rw [opensTag_gap _ m.rest hne hslash]
      exact .inr htag

theorem takeWhile_of_suffix {c : Char} {s : List Char} (h : [c] <:+ s) (t : List Char)
    (hc : isWordChar c = false) : (s.reverse ++ t).takeWhile isWordChar = [] := by
  obtain ⟨front, rfl⟩ := h
  simp [hc]

theorem region_follows {function : Host.Path} (hf : function.IsWritten) {s t next : State}
    {r : Region} {c : Char} {after rest : List Char} {id : Nat} (h : Mirrors s t)
    (hrest : s.rest = c :: after) (hstep : step s c after = .ok (.region r, next))
    (ht : t.rest = placeholderCall function id r.text ++ rest) :
    Follows t (placeholderCall function id r.text) next := by
  obtain ⟨captured, hoffers, -, -, hnext⟩ := step_eq_region hstep
  obtain ⟨t', k, hechoes, hcode, hcontext⟩ :=
    echoes_placeholderCall hf ht (h.place_code hoffers.place_eq)
  have htakes := step_takes (by simp [hrest]) hstep
  have hends : ['>'] <:+ r.text := capture_ends (htakes.region r rfl).2
  have hcall : [')'] <:+ placeholderCall function id r.text := ⟨_, rfl⟩
  refine ⟨t', hechoes, ⟨0, ?_⟩, ?_, ?_⟩
  · rw [hcode, hnext]
    rfl
  · rw [hcontext, hnext]
    exact Context.like_record_parenthesis _ _
  -- no word is behind a region, which ends in an angle, nor behind its call
  · rw [htakes.behind_eq, hechoes.behind_eq, takeWhile_of_suffix hcall _ (by decide)]
    exact takeWhile_of_suffix hends _ (by decide)

/-- A scan of annotated text keeps it all and ends as the scan of the source does. -/
theorem Runs.follows {function : Host.Path} (hf : function.IsWritten) {s t last : State}
    {ps : List Piece} (h : Runs s ps last) (hlast : last.rest = []) (hs : s.Tracks)
    (hmirrors : Mirrors s t) {id : Nat} (ht : t.rest = annotateFrom function id ps)
    (hfree : ∀ qs r rs, ps = qs ++ .region r :: rs →
      ¬['<', '/'] <:+ s.behind.reverse ++ (qs.map Piece.text).flatten) :
    Follows t (annotateFrom function id ps) last := by
  -- on the run over the source; the other scan may need many steps for one piece, the call
  induction h generalizing t id with
  | done s => exact ⟨t, .refl t, hmirrors⟩
  | @step s next last piece ps c after hrest hstep hrun ih =>
    have htakes := step_takes (by simp [hrest]) hstep
    have hfree' : ∀ qs r rs, ps = qs ++ .region r :: rs →
        ¬['<', '/'] <:+ next.behind.reverse ++ (qs.map Piece.text).flatten := by
      intro qs r rs hps
      have hnot := hfree (piece :: qs) r rs (by rw [hps, List.cons_append])
      simpa [htakes.behind_eq] using hnot
    have hs' := step_tracks hs hrest hstep
    cases piece with
    | region r =>
      obtain ⟨t', hechoes, hmirrors'⟩ := region_follows hf hmirrors hrest hstep ht
      obtain ⟨last', hrest', hlast'⟩ := ih hlast hs' hmirrors' (hechoes.next_rest ht) hfree'
      exact ⟨last', hechoes.trans hrest', hlast'⟩
    | kept text =>
      have hagrees := agrees_annotateFrom hf hrun hlast id
      obtain ⟨d, text', rfl⟩ := List.exists_cons_of_ne_nil htakes.nonempty
      have hafter := htakes.rest_eq
      rw [hrest] at hafter
      obtain ⟨rfl, rfl⟩ := List.cons.inj hafter
      have hbracket : s.place = .code → c = '<' → s.context.allowsMarkup = true →
          namesPrimitive s.rest = true ∨ capture s.rest = .ok none →
          namesPrimitive t.rest = true ∨ capture t.rest = .ok none := by
        rintro hplace rfl hallows hnot
        exact not_markup_of_annotated function id hs hplace hallows hrest hnot hstep hrun hlast
          hfree' ht
      obtain ⟨n, place, context, hrule, htext, rfl⟩ := step_eq_kept hstep
      obtain ⟨t', hechoes, hmirrors'⟩ :=
        hrule.follows hmirrors hrest ht (hagrees.append text') hbracket (htext ▸ ht) hagrees
      rw [← htext] at hechoes
      obtain ⟨last', hrest', hlast'⟩ := ih hlast hs' hmirrors' (hechoes.next_rest ht) hfree'
      exact ⟨last', hechoes.trans hrest', hlast'⟩

theorem exists_run {source : List Char} {ps : List Piece} (h : pieces source = .ok ps) :
    ∃ last, Runs (start source) ps last ∧ last.rest = [] ∧ finish source last.place = .ok [] := by
  have hread : readOn source (start source) = .ok ps := h
  obtain ⟨last, hrun⟩ := runs_of_readFrom (Nat.lt_succ_self _) hread
  rw [hrun.readOn_eq] at hread
  obtain ⟨qs, hqs, happend⟩ := map_eq_ok.1 hread
  obtain rfl := List.append_right_eq_self.1 happend
  cases hrest : last.rest with
  | nil => exact ⟨last, hrun, hrest, readOn_nil hrest ▸ hqs⟩
  | cons c after =>
    cases hstep : step last c after with
    | error e =>
      rw [readOn, readFrom_step_error _ hrest hstep] at hqs
      cases hqs
    | ok p =>
      rw [readOn_step hrest hstep] at hqs
      obtain ⟨rs, -, hcons⟩ := map_eq_ok.1 hqs
      cases hcons

theorem Runs.region_lies {source : List Char} {last : State} {qs rs : List Piece} {r : Region}
    (h : Runs (start source) (qs ++ .region r :: rs) last) :
    r.offset = byteLength (qs.map Piece.text).flatten ∧
      ∃ rest, source = (qs.map Piece.text).flatten ++ (r.text ++ rest) := by
  obtain ⟨m, next, c, after, hm, hrest, hstep⟩ := h.split
  have htakes := step_takes (by simp [hrest]) hstep
  obtain ⟨hsource, hbehind⟩ := hm.rest_eq
  constructor
  · rw [(htakes.region r rfl).1, hbehind]
    simp [start, byteLength_reverse]
  · rw [htakes.rest_eq] at hsource
    exact ⟨next.rest, hsource⟩

theorem finish_movedTo {source source' : List Char} {p : Place} {offset : Nat}
    (h : finish source p = .ok []) : finish source' (p.movedTo offset) = .ok [] := by
  cases p with
  | quoted => cases h
  | raw => cases h
  | _ => rfl

end InlineMarkup.Scan

namespace InlineMarkup

open InlineMarkup.Text InlineMarkup.Scan

/-- What a scan has annotated, a scan with the same path leaves as it is and finds no region in,
unless a region directly followed the characters `</`. -/
theorem scan_annotated {placeholder : Host.Path} {source : List Char} {scanned : Scanned}
    (hplaceholder : placeholder.IsWritten) (h : scan placeholder source = .ok scanned)
    (hfree : ∀ r ∈ scanned.table.regions, ¬['<', '/'] <:+ takeBytes r.offset source) :
    scan placeholder scanned.source = .ok ⟨scanned.source, ⟨[]⟩⟩ := by
  obtain ⟨ps, hps, rfl⟩ := scan_eq_ok h
  obtain ⟨last, hrun, hlast, hfinish⟩ := exists_run hps
  have hbefore : ∀ qs r rs, ps = qs ++ .region r :: rs →
      ¬['<', '/'] <:+ (start source).behind.reverse ++ (qs.map Piece.text).flatten := by
    intro qs r rs hps
    subst hps
    have hnot := hfree r (by simp [regionsOf_append, regionsOf])
    obtain ⟨hoffset, rest, hsource⟩ := hrun.region_lies
    rw [hoffset, hsource, takeBytes_append] at hnot
    exact hnot
  have hmirrors : Mirrors (start source) (start (annotateFrom placeholder 1 ps)) :=
    ⟨⟨0, rfl⟩, ⟨rfl, rfl, rfl, .inl rfl⟩, rfl⟩
  obtain ⟨last', hechoes, hmirrors'⟩ :=
    hrun.follows hplaceholder hlast (tracks_start source) hmirrors rfl hbefore
  obtain ⟨qs, hqs, hnone, htext⟩ := hechoes.run
  have hend : last'.rest = [] := hechoes.next_rest (List.append_nil _).symm
  obtain ⟨offset, hplace⟩ := hmirrors'.place
  rw [scan_eq_map, hqs.readOn_eq, readOn_nil hend, hplace, finish_movedTo hfinish]
  simp only [Except.map, List.append_nil, annotateFrom_of_regionsOf_nil placeholder 1 hnone, hnone,
    htext]

theorem scan_annotated_two : ∃ scanned,
    scan (.ofNames ["r#in", "h"]) "return<p>\"#</p>'a'; x </y/ [r\"<q/>\", c<i/>, <b/>]".toList =
      .ok scanned ∧ scanned.table.size = 2 ∧
    scan (.ofNames ["r#in", "h"]) scanned.source = .ok ⟨scanned.source, ⟨[]⟩⟩ := by
  have hscan : scan (.ofNames ["r#in", "h"])
      "return<p>\"#</p>'a'; x </y/ [r\"<q/>\", c<i/>, <b/>]".toList =
      .ok ⟨"returnr#in::h(1, r##\"<p>\"#</p>\"##)'a'; x </y/ [r\"<q/>\", c<i/>, ".toList ++
          "r#in::h(2, r#\"<b/>\"#)]".toList,
        ⟨[⟨6, "<p>\"#</p>".toList, ⟨['p'], [], [.text ['"', '#']]⟩⟩,
          ⟨44, "<b/>".toList, ⟨['b'], [], []⟩⟩]⟩⟩ :=
    eq_ok_of_toOption (by decide +kernel)
  refine ⟨_, hscan, rfl, scan_annotated ⟨by decide, by decide +kernel⟩ hscan ?_⟩
  exact List.forall_mem_cons.2 ⟨by decide +kernel, List.forall_mem_singleton.2 (by decide +kernel)⟩

/-- Right behind `</` a call reads as an end tag. -/
example : ((scan (.ofNames ["h"]) "= </<p/>".toList).bind fun scanned =>
    scan (.ofNames ["h"]) scanned.source).toOption = none := by
  decide +kernel

end InlineMarkup
