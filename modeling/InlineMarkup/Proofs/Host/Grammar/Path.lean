import InlineMarkup.Proofs.Host.Keeping

/-!
A path without arguments is read from words and colons alone, and begins where the first of them
stands.
-/

set_option autoImplicit false

namespace InlineMarkup.Host

def pathKeywords : List (List Char) :=
  ["super", "self", "Self", "crate", "try"].map String.toList

/-- The words that a path may be made of. -/
def isPathWord (w : List Char) : Bool :=
  !Look.isKeyword w || pathKeywords.contains w

theorem isPathWord_of_atWord {s : String} (hs : isPathWord s.toList = true) {w : List Char}
    {span : Span} {rest : List TokenTree} (h : Look.atWord s (.word w span :: rest) = true) :
    isPathWord w = true := by
  rwa [eq_of_beq h]

section

variable {input : Input}

theorem ensures_punct (s : String) : Ensures (punct s) input fun t next =>
    ∃ op, takeChars s.toList input.rest = some (op, next.rest) ∧ t = .token op := by
  refine .bind (.ahead ?_)
  split
  · rename_i op rest hop
    exact .bind (.modify (.pure ⟨op, hop, rfl⟩))
  · exact .bind (.here fun _ => .refuse)

theorem ensures_anyWord : Ensures anyWord input fun t next =>
    ∃ w span, input.rest = .word w span :: next.rest ∧ t = .token [.word w span] := by
  refine .bind (.ahead ?_)
  split
  · rename_i w span rest hrest
    exact .bind (.modify (.pure ⟨w, span, hrest, rfl⟩))
  · exact .expected

theorem ensures_identifier : Ensures identifier input fun t next =>
    ∃ w span, input.rest = .word w span :: next.rest ∧ isPathWord w = true ∧
      t = .token [.word w span] := by
  refine .bind (.ahead ?_)
  split
  · rename_i w span rest hrest
    split
    · exact .bind (.here fun _ => .refuse)
    · rename_i hw
      exact .bind (.modify (.pure ⟨w, span, hrest, by simp [isPathWord, hw], rfl⟩))
  · exact .expected

theorem ensures_optionalPunct (s : String) : Ensures (optionalPunct s) input fun ts next =>
    ts = [] ∧ next = input ∨
      ∃ op, takeChars s.toList input.rest = some (op, next.rest) ∧ ts = [.token op] := by
  refine .bind (.look ?_)
  split
  · refine .bind ((ensures_punct s).mono ?_)
    rintro t next ⟨op, hop, rfl⟩
    exact .pure (.inr ⟨op, hop, rfl⟩)
  · exact .pure (.inl ⟨rfl, rfl⟩)

theorem takeChars_cons {c : Char} {cs : List Char} {ts op rest : List TokenTree}
    (h : takeChars (c :: cs) ts = some (op, rest)) :
    ∃ joint span us op', ts = .punct c joint span :: us ∧ takeChars cs us = some (op', rest) ∧
      op = .punct c (!cs.isEmpty) span :: op' ∧ (cs = [] ∨ joint = true) := by
  cases ts with
  | nil => cases cs <;> cases h
  | cons t us =>
    cases t with
    | punct d joint span =>
      cases cs with
      | nil =>
        simp only [takeChars] at h
        split at h <;> cases h
        rename_i hd
        exact ⟨joint, span, rest, [], by rw [eq_of_beq hd], rfl, by rw [eq_of_beq hd]; rfl,
          .inl rfl⟩
      | cons c' cs =>
        simp only [takeChars] at h
        split at h
        · rename_i hd
          obtain ⟨hd, hjoint⟩ := Bool.and_eq_true_iff.1 hd
          obtain ⟨⟨op', rest'⟩, hop, h⟩ := Option.map_eq_some_iff.1 h
          cases h
          exact ⟨joint, span, us, op', by rw [eq_of_beq hd], hop, by rw [eq_of_beq hd]; rfl,
            .inr hjoint⟩
        · cases h
    | _ => cases cs <;> cases h

theorem takeChars_colons {ts op rest : List TokenTree}
    (h : takeChars "::".toList ts = some (op, rest)) :
    ∃ joint span span', ts = .punct ':' true span :: .punct ':' joint span' :: rest ∧
      op = [.punct ':' true span, .punct ':' false span'] := by
  have hs : "::".toList = [':', ':'] := by decide
  rw [hs] at h
  obtain ⟨joint, span, us, op', rfl, h', rfl, hjoint⟩ := takeChars_cons h
  obtain ⟨joint', span', us, op', rfl, h'', rfl, -⟩ := takeChars_cons h'
  cases h''
  obtain rfl : joint = true := by simpa using hjoint
  exact ⟨joint', span, span', rfl, rfl⟩

theorem ensures_pathSegment {g : Grammar} {inExpr : Bool} :
    Ensures (pathSegment g inExpr) input fun t next =>
      ∃ w span rest, input.rest = .word w span :: rest ∧ isPathWord w = true ∧
        ((∃ arguments, t = .node .segment [.token [.word w span], arguments]) ∨
          rest = next.rest ∧ t = segmentOf (.token [.word w span])) := by
  refine .bind (.ahead ?_)
  split
  · rename_i hkeyword
    refine .bind (ensures_anyWord.mono ?_)
    rintro t next ⟨w, span, hrest, rfl⟩
    rw [hrest] at hkeyword
    have hw : isPathWord w = true := by
      simp only [Bool.or_eq_true] at hkeyword
      rcases hkeyword with ((h | h) | h) | h
      all_goals exact isPathWord_of_atWord (by decide) h
    exact .pure ⟨w, span, _, hrest, hw, .inr ⟨rfl, rfl⟩⟩
  · extract_lets rest
    have hrest : ∀ t next, (∃ w span, input.rest = .word w span :: next.rest ∧
        isPathWord w = true ∧ t = .token [.word w span]) → Ensures (rest t) next fun t next =>
          ∃ w span rest, input.rest = .word w span :: rest ∧ isPathWord w = true ∧
            ((∃ arguments, t = .node .segment [.token [.word w span], arguments]) ∨
              rest = next.rest ∧ t = segmentOf (.token [.word w span])) := by
      rintro t next ⟨w, span, hin, hw, rfl⟩
      refine .bind (.look ?_)
      split
      · exact .bind fun arguments _ _ => .pure ⟨w, span, _, hin, hw, .inl ⟨arguments, rfl⟩⟩
      · exact .pure ⟨w, span, _, hin, hw, .inr ⟨rfl, rfl⟩⟩
    split
    · rename_i hself
      refine .bind (ensures_anyWord.mono ?_)
      rintro t next ⟨w, span, hin, rfl⟩
      rw [hin] at hself
      exact hrest _ _ ⟨w, span, hin, isPathWord_of_atWord (by decide) hself, rfl⟩
    · exact .bind (ensures_identifier.mono hrest)

/-- Some trees of a path were read from the tokens between two places, unless there are arguments
among them. -/
def ReadsNames (trees : List Tree) (before after : List TokenTree) : Prop :=
  (∀ s ∈ trees.filterMap Path.segmentOfTree?, s.arguments = none) →
    ∃ tokens, before = tokens ++ after ∧ (∀ t ∈ tokens, t.isName) ∧
      (∀ s ∈ trees.filterMap Path.segmentOfTree?, ∃ span, TokenTree.word s.name span ∈ tokens) ∧
      ∀ t ∈ trees, IsNameTree t

theorem ReadsNames.nil {ts : List TokenTree} : ReadsNames [] ts ts :=
  fun _ => ⟨[], rfl, by simp, by simp, by simp⟩

theorem ReadsNames.append {xs ys : List Tree} {first second third : List TokenTree}
    (hx : ReadsNames xs first second) (hy : ReadsNames ys second third) :
    ReadsNames (xs ++ ys) first third := by
  intro h
  rw [List.filterMap_append, List.forall_mem_append] at h
  obtain ⟨us, rfl, hus, hxs, hxtrees⟩ := hx h.1
  obtain ⟨vs, rfl, hvs, hys, hytrees⟩ := hy h.2
  refine ⟨us ++ vs, by simp, List.forall_mem_append.2 ⟨hus, hvs⟩, ?_,
    List.forall_mem_append.2 ⟨hxtrees, hytrees⟩⟩
  rw [List.filterMap_append, List.forall_mem_append]
  constructor
  · intro s hs
    obtain ⟨span, hspan⟩ := hxs s hs
    exact ⟨span, List.mem_append_left _ hspan⟩
  · intro s hs
    obtain ⟨span, hspan⟩ := hys s hs
    exact ⟨span, List.mem_append_right _ hspan⟩

theorem readsNames_colons {ts op rest : List TokenTree}
    (h : takeChars "::".toList ts = some (op, rest)) : ReadsNames [.token op] ts rest := by
  obtain ⟨joint, span, span', rfl, rfl⟩ := takeChars_colons h
  exact fun _ => ⟨[_, _], rfl, by simp [TokenTree.isName], by simp [Path.segmentOfTree?],
    List.forall_mem_singleton.2 (.token _)⟩

theorem segmentOfTree?_word (w : List Char) (span : Span) :
    Path.segmentOfTree? (segmentOf (.token [.word w span])) = some ⟨w, none⟩ := by
  simp [segmentOf, Path.segmentOfTree?, Tree.text, Tree.tokens, TokenTree.textOf,
    TokenTree.textAfter, TokenTree.text]

theorem segmentOfTree?_arguments (w : List Char) (span : Span) (arguments : Tree) :
    Path.segmentOfTree? (.node .segment [.token [.word w span], arguments]) =
      some ⟨w, some arguments⟩ := by
  simp [Path.segmentOfTree?, Tree.text, Tree.tokens, TokenTree.textOf, TokenTree.textAfter,
    TokenTree.text]

theorem readsNames_word {ts rest : List TokenTree} {w : List Char} {span : Span}
    (h : ts = .word w span :: rest) :
    ReadsNames [segmentOf (.token [.word w span])] ts rest :=
  fun _ => ⟨[.word w span], h, by simp [TokenTree.isName], by simp [segmentOfTree?_word],
    List.forall_mem_singleton.2 (.segment _)⟩

theorem ensures_pathSegment_readsNames {g : Grammar} {inExpr : Bool} :
    Ensures (pathSegment g inExpr) input fun t next => ReadsNames [t] input.rest next.rest := by
  refine ensures_pathSegment.mono ?_
  rintro t next ⟨w, span, rest, hrest, -, ⟨arguments, rfl⟩ | ⟨rfl, rfl⟩⟩
  · intro h
    simp [segmentOfTree?_arguments] at h
  · exact readsNames_word hrest

theorem ensures_repeatStep_readsNames {step : Parser (List Tree × Bool)}
    (h : ∀ input, Ensures step input fun r next => ReadsNames r.1 input.rest next.rest) :
    Ensures (repeatStep step) input fun ts next => ReadsNames ts input.rest next.rest := by
  have hfuel : ∀ fuel input, Ensures (repeatFuel step fuel) input
      fun ts next => ReadsNames ts input.rest next.rest := by
    intro fuel
    induction fuel with
    | zero => exact fun input => .pure .nil
    | succ fuel ih =>
      intro input
      refine .bind ((h input).mono ?_)
      rintro ⟨trees, more⟩ mid hmid
      dsimp only
      split
      · exact .bind ((ih mid).mono fun ts next hts => .pure (hmid.append hts))
      · exact .pure hmid
  exact .bind (.ahead (hfuel _ _))

theorem ensures_moreSegments {g : Grammar} {inExpr : Bool} :
    Ensures (moreSegments g inExpr) input fun ts next => ReadsNames ts input.rest next.rest := by
  refine ensures_repeatStep_readsNames fun input => .bind (.look ?_)
  split
  · refine .bind ((ensures_punct "::").mono ?_)
    rintro t mid ⟨op, hop, rfl⟩
    refine .bind (ensures_pathSegment_readsNames.mono fun segment next hsegment => .pure ?_)
    exact (readsNames_colons hop).append hsegment
  · exact .pure .nil

/-- A plain path was read from the tokens it takes. -/
theorem ensures_pathWith {g : Grammar} {inExpr : Bool} :
    Ensures (pathWith g inExpr) input fun path next =>
      IsPlain path → ∃ tokens, input.rest = tokens ++ next.rest ∧ Names tokens path := by
  refine .bind ((ensures_optionalPunct "::").mono fun root mid hroot => ?_)
  refine .bind (ensures_pathSegment.mono fun first mid' hfirst => ?_)
  refine .bind (ensures_moreSegments.mono fun more next hmore => .pure fun hplain => ?_)
  have hsegment : ∃ w span, mid.rest = .word w span :: mid'.rest ∧
      first = segmentOf (.token [.word w span]) := by
    obtain ⟨w, span, rest, hmid, -, ⟨arguments, rfl⟩ | ⟨rfl, rfl⟩⟩ := hfirst
    · have := hplain ⟨w, some arguments⟩
      simp [Path.ofTree, Tree.children, segmentOfTree?_arguments] at this
    · exact ⟨w, span, hmid, rfl⟩
  obtain ⟨w, span, hmid, rfl⟩ := hsegment
  have hroot' : ReadsNames root input.rest mid.rest := by
    rcases hroot with ⟨rfl, rfl⟩ | ⟨op, hop, rfl⟩
    · exact .nil
    · exact readsNames_colons hop
  obtain ⟨tokens, htokens, honly, hwords, htrees⟩ :=
    (hroot'.append ((readsNames_word hmid).append hmore)) hplain
  have hmem : (⟨w, none⟩ : PathSegment) ∈
      (root ++ segmentOf (.token [.word w span]) :: more).filterMap Path.segmentOfTree? :=
    List.mem_filterMap.2 ⟨_, by simp, segmentOfTree?_word w span⟩
  refine ⟨tokens, htokens, ⟨_, rfl, htrees⟩, ?_, honly, List.ne_nil_of_mem hmem, hwords⟩
  -- the path is not empty, so it begins where the input does
  obtain ⟨t, ts, rfl⟩ : ∃ t ts, tokens = t :: ts :=
    List.exists_cons_of_ne_nil (List.ne_nil_of_mem (hwords _ hmem).choose_spec)
  refine ⟨t, ts, rfl, ?_⟩
  rcases hroot with ⟨rfl, rfl⟩ | ⟨op, hop, rfl⟩
  · have ht : t = .word w span := by simpa [htokens] using congrArg List.head? hmid
    simp [ht, Tree.start, Tree.tokens, Tree.tokensOf, segmentOf]
  · obtain ⟨joint, span, span', hcolons, rfl⟩ := takeChars_colons hop
    have ht : t = .punct ':' true span := by simpa [htokens] using congrArg List.head? hcolons
    simp [ht, Tree.start, Tree.tokens, Tree.tokensOf, TokenTree.start]

end

end InlineMarkup.Host
