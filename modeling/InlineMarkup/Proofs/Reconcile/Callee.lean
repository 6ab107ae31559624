import InlineMarkup.Proofs.Reconcile.Emitted

/-!
A path in front of two literals in parentheses is called with them. The path is read without its
generic arguments, as its names with colons between them, and the parser makes a call of a path of
these (`run_expr_call`). There is one exception: no expression begins with the word `try` alone.

Every path that a text spells has names that can be written so (`Path.isProper_of_ofText`).
-/

set_option autoImplicit false

namespace InlineMarkup.Host

open InlineMarkup.Text
open TokenTree (atomsOf)

inductive SpellNames : List (List Char) → List TokenTree → Prop
  | last {w : List Char} {span : Span} : SpellNames [w] [.word w span]
  | more {w : List Char} {ws : List (List Char)} {span first second : Span} {joint : Bool}
      {ts : List TokenTree} : SpellNames ws ts →
      SpellNames (w :: ws)
        (.word w span :: .punct ':' true first :: .punct ':' joint second :: ts)

inductive Path.SpelledBy (p : Path) : List TokenTree → Prop
  | bare {ts : List TokenTree} : p.rooted = false → SpellNames (p.segments.map (·.name)) ts →
      SpelledBy p ts
  | rooted {first second : Span} {joint : Bool} {ts : List TokenTree} : p.rooted = true →
      SpellNames (p.segments.map (·.name)) ts →
      SpelledBy p (.punct ':' true first :: .punct ':' joint second :: ts)

theorem Atom.Matches.word_eq {w : List Char} {span : Span} {a : Atom}
    (h : (Atom.word w span).Matches a) : ∃ span', a = .word w span' := by
  cases a <;> cases h
  exact ⟨_, rfl⟩

theorem Atom.Matches.punct_eq {c : Char} {joint : Bool} {span : Span} {a : Atom}
    (h : (Atom.punct c joint span).Matches a) :
    ∃ joint' span', a = .punct c joint' span' ∧ (joint = true → joint' = true) := by
  cases a with
  | punct c' joint' span' =>
    obtain ⟨rfl, hjoint⟩ := h
    exact ⟨joint', span', rfl, hjoint⟩
  | _ => cases h

theorem colons_of_matches {as bs : List Atom}
    (h : List.Forall₂ Atom.Matches (colonAtoms ++ as) bs) :
    ∃ first joint second cs, bs = .punct ':' true first :: .punct ':' joint second :: cs ∧
      List.Forall₂ Atom.Matches as cs := by
  cases h with
  | cons ha h =>
    cases h with
    | cons hb h =>
      obtain ⟨joint, first, rfl, hjoint⟩ := ha.punct_eq
      obtain ⟨joint', second, rfl, -⟩ := hb.punct_eq
      exact ⟨first, joint', second, _, by rw [hjoint rfl], h⟩

theorem spellNames_of_matches {names : List (List Char)} {as : List Atom} (hne : names ≠ [])
    (h : List.Forall₂ Atom.Matches (nameAtoms names) as) :
    ∃ ts, as = atomsOf ts ∧ SpellNames names ts := by
  induction names generalizing as with
  | nil => exact absurd rfl hne
  | cons w ws ih =>
    cases ws with
    | nil =>
      cases h with
      | cons hw hnil =>
        cases hnil
        obtain ⟨span, rfl⟩ := hw.word_eq
        exact ⟨[.word w span], by simp [TokenTree.atoms], .last⟩
    | cons v vs =>
      cases h with
      | cons hw h =>
        obtain ⟨span, rfl⟩ := hw.word_eq
        obtain ⟨first, joint, second, cs, rfl, hcs⟩ := colons_of_matches h
        obtain ⟨ts, rfl, hts⟩ := ih (by simp) hcs
        exact ⟨.word w span :: .punct ':' true first :: .punct ':' joint second :: ts,
          by simp [TokenTree.atoms], .more hts⟩

theorem reads_path_spelled {p : Path} {tail : List Char} (hp : p.IsWritten)
    (hb : Lexeme.Breaks tail) (m : Mark) :
    ∃ ts m', Reads ⟨p.text ++ tail, m⟩ (atomsOf ts) ⟨tail, m'⟩ ∧ p.SpelledBy ts := by
  obtain ⟨as, m', hreads, has⟩ := reads_path hp hb m
  have hne : p.segments.map (·.name) ≠ [] := by simpa using hp.nonempty
  unfold Path.atoms at has
  cases hroot : p.rooted with
  | false =>
    rw [hroot] at has
    obtain ⟨ts, rfl, hts⟩ := spellNames_of_matches hne has
    exact ⟨ts, m', hreads, .bare hroot hts⟩
  | true =>
    rw [hroot] at has
    obtain ⟨first, joint, second, cs, rfl, hcs⟩ := colons_of_matches has
    obtain ⟨ts, rfl, hts⟩ := spellNames_of_matches hne hcs
    refine ⟨.punct ':' true first :: .punct ':' joint second :: ts, m', ?_, .rooted hroot hts⟩
    simpa [TokenTree.atoms] using hreads

section

variable {g : Grammar} {input : Input} {w : List Char} {span : Span} {rest : List TokenTree}

theorem run_anyWord (hin : input.rest = .word w span :: rest) :
    anyWord input = .ok (.token [.word w span], { input with rest }) := by
  unfold anyWord
  rw [run_ahead, hin]
  rfl

theorem run_identifier (hin : input.rest = .word w span :: rest) (hw : Look.isKeyword w = false) :
    identifier input = .ok (.token [.word w span], { input with rest }) := by
  unfold identifier
  rw [run_ahead, hin]
  simp only [hw]
  rfl

theorem run_pathSegment (hin : input.rest = .word w span :: rest) (hw : isPathWord w = true)
    (hrest : atGenericArguments true rest = false) :
    pathSegment g true input = .ok (segmentOf (.token [.word w span]), { input with rest }) := by
  unfold pathSegment
  rw [run_ahead, hin]
  split
  · exact run_bind (run_anyWord hin)
  · rename_i hkeyword
    split
    · refine (run_bind (run_anyWord hin)).trans ((run_look _ _).trans ?_)
      simp only [hrest]
      rfl
    · rename_i hself
      have hplain : Look.isKeyword w = false := by
        simp only [isPathWord, pathKeywords] at hw
        simp only [Look.atWord] at hkeyword hself
        simp_all
      refine (run_bind (run_identifier hin hplain)).trans ((run_look _ _).trans ?_)
      simp only [hrest]
      rfl

def AtArguments (ts : List TokenTree) : Prop :=
  ∃ contents opening closing us, ts = .group .parenthesis contents opening closing :: us

theorem AtArguments.atMorePath {ts : List TokenTree} (h : AtArguments ts) :
    atMorePath ts = false := by
  obtain ⟨contents, opening, closing, us, rfl⟩ := h
  rfl

theorem AtArguments.atGenericArguments {ts : List TokenTree} (h : AtArguments ts) :
    atGenericArguments true ts = false := by
  obtain ⟨contents, opening, closing, us, rfl⟩ := h
  rfl

theorem run_colons {first second : Span} {joint : Bool}
    (hin : input.rest = .punct ':' true first :: .punct ':' joint second :: rest) :
    punct "::" input =
      .ok (.token [.punct ':' true first, .punct ':' false second], { input with rest }) := by
  refine run_punct ?_
  rw [hin]
  rfl

theorem segmentOfTree?_token (ts : List TokenTree) : Path.segmentOfTree? (.token ts) = none :=
  rfl

def segmentStep (g : Grammar) : Parser (List Tree × Bool) := do
  if ← look atMorePath then
    let colons ← punct "::"
    return ([colons, ← pathSegment g true], true)
  else return ([], false)

theorem moreSegments_eq : moreSegments g true = repeatStep (segmentStep g) :=
  rfl

theorem run_segmentStep {first second : Span} {joint : Bool}
    (hin : input.rest = .punct ':' true first :: .punct ':' joint second :: .word w span :: rest)
    (hw : isPathWord w = true) (hrest : atGenericArguments true rest = false) :
    segmentStep g input = .ok (([.token [.punct ':' true first, .punct ':' false second],
      segmentOf (.token [.word w span])], true), { input with rest }) := by
  have hmore : atMorePath input.rest = true := by
    rw [hin]
    rfl
  unfold segmentStep
  rw [run_look, hmore]
  refine (run_bind (run_colons hin)).trans ?_
  exact run_bind (run_pathSegment rfl hw hrest)

theorem run_segmentStep_end (hin : AtArguments input.rest) :
    segmentStep g input = .ok (([], false), input) := by
  unfold segmentStep
  rw [run_look, hin.atMorePath]
  rfl

theorem run_segments {ws : List (List Char)} {ts : List TokenTree} (h : SpellNames ws ts)
    (hws : ∀ w ∈ ws, isPathWord w = true) {after : List TokenTree} (hafter : AtArguments after)
    {first second : Span} {joint : Bool} {fuel : Nat} (hfuel : ws.length < fuel)
    (hin : input.rest = .punct ':' true first :: .punct ':' joint second :: (ts ++ after)) :
    ∃ trees, repeatFuel (segmentStep g) fuel input = .ok (trees, { input with rest := after }) ∧
      trees.filterMap Path.segmentOfTree? = ws.map fun w => ⟨w, none⟩ := by
  induction h generalizing input first second joint fuel with
  | @last w span =>
    obtain ⟨fuel, rfl⟩ : ∃ n, fuel = n + 2 := ⟨fuel - 2, by simp at hfuel; omega⟩
    refine ⟨_, run_repeat_more _ (run_segmentStep hin (hws w (by simp)) hafter.atGenericArguments)
      (run_repeat_end _ (run_segmentStep_end hafter)), ?_⟩
    simp [List.filterMap_cons, segmentOfTree?_token, segmentOfTree?_word]
  | @more w ws span first' second' joint' ts h ih =>
    obtain ⟨fuel, rfl⟩ : ∃ n, fuel = n + 1 := ⟨fuel - 1, by simp at hfuel; omega⟩
    have hstep := run_segmentStep (g := g) hin (hws w (by simp)) (by cases h <;> rfl)
    have hws' : ∀ v ∈ ws, isPathWord v = true := fun v hv => hws v (by simp [hv])
    obtain ⟨trees, htrees, hnames⟩ := @ih { input with rest := _ } hws' first' second' joint' fuel
      (by simpa using hfuel) rfl
    refine ⟨_, run_repeat_more _ hstep htrees, ?_⟩
    simp [List.filterMap_cons, segmentOfTree?_token, segmentOfTree?_word, hnames]

theorem SpellNames.length_le {ws : List (List Char)} {ts : List TokenTree} (h : SpellNames ws ts) :
    ws.length ≤ ts.length := by
  induction h with
  | last => simp
  | more _ ih => simp; omega

theorem run_moreSegments {ws : List (List Char)} {ts : List TokenTree} (h : SpellNames ws ts)
    (hws : ∀ w ∈ ws, isPathWord w = true) {after : List TokenTree} (hafter : AtArguments after)
    {first second : Span} {joint : Bool}
    (hin : input.rest = .punct ':' true first :: .punct ':' joint second :: (ts ++ after)) :
    ∃ trees, moreSegments g true input = .ok (trees, { input with rest := after }) ∧
      trees.filterMap Path.segmentOfTree? = ws.map fun w => ⟨w, none⟩ := by
  have hfuel : ws.length < input.rest.length + 1 := by
    have := h.length_le
    simp [hin]
    omega
  rw [moreSegments_eq, repeatStep, run_ahead]
  exact run_segments h hws hafter hfuel hin

theorem run_names (root : List Tree) {ws : List (List Char)} {ts : List TokenTree}
    (h : SpellNames ws ts) (hws : ∀ w ∈ ws, isPathWord w = true) {after : List TokenTree}
    (hafter : AtArguments after) (hin : input.rest = ts ++ after) :
    ∃ segment trees, (do
        let first ← pathSegment g true
        return .node .path (root ++ first :: (← moreSegments g true)) : Parser Tree) input =
        .ok (.node .path (root ++ segmentOf segment :: trees), { input with rest := after }) ∧
      (segmentOf segment :: trees).filterMap Path.segmentOfTree? = ws.map fun w => ⟨w, none⟩ := by
  cases h with
  | @last w span =>
    refine ⟨.token [.word w span], [], ?_, by simp [segmentOfTree?_word]⟩
    refine (run_bind (run_pathSegment hin (hws w (by simp)) hafter.atGenericArguments)).trans ?_
    exact run_bind (run_repeat_end _ (run_segmentStep_end hafter))
  | @more w ws span first second joint ts h =>
    have hws' : ∀ v ∈ ws, isPathWord v = true := fun v hv => hws v (by simp [hv])
    obtain ⟨trees, htrees, hnames⟩ :=
      @run_moreSegments g { input with rest := _ } ws ts h hws' after hafter first second joint rfl
    refine ⟨.token [.word w span], trees, ?_, by simp [segmentOfTree?_word, hnames]⟩
    refine (run_bind (run_pathSegment hin (hws w (by simp)) (by cases h <;> rfl))).trans ?_
    exact run_bind htrees

theorem SpellNames.atPunct {ws : List (List Char)} {ts after : List TokenTree}
    (h : SpellNames ws ts) {s : String} (hs : s.toList ≠ []) :
    Look.atPunct s (ts ++ after) = false := by
  refine atPunct_eq_false hs fun c joint span us hts => ?_
  cases h <;> cases hts

/-- The names of a path, in front of the arguments of a call, are read as that path. -/
theorem run_pathWith {p : Path} {ts : List TokenTree} (h : p.SpelledBy ts)
    (hws : ∀ s ∈ p.segments, isPathWord s.name = true) {after : List TokenTree}
    (hafter : AtArguments after) (hin : input.rest = ts ++ after) :
    ∃ children, pathWith g true input = .ok (.node .path children, { input with rest := after }) ∧
      Path.ofTree (.node .path children) =
        ⟨p.rooted, p.segments.map fun s => ⟨s.name, none⟩⟩ := by
  have hnames : ∀ w ∈ p.segments.map (·.name), isPathWord w = true := by simpa using hws
  unfold pathWith optionalPunct optional
  cases h with
  | bare hroot hspell =>
    obtain ⟨segment, trees, hrun, hsegments⟩ := run_names (g := g) [] hspell hnames hafter hin
    refine ⟨_, (@run_bind _ _ _ input _ _ [] ?_).trans hrun, ?_⟩
    · rw [run_look, hin, hspell.atPunct (by decide)]
      rfl
    · simp only [Path.ofTree, Tree.children, List.nil_append, hsegments, hroot, List.map_map]
      rfl
  | @rooted first second joint ts hroot hspell =>
    obtain ⟨segment, trees, hrun, hsegments⟩ := @run_names g { input with rest := _ }
      [.token [.punct ':' true first, .punct ':' false second]] _ _ hspell hnames _ hafter rfl
    refine ⟨_, (run_bind ?_).trans hrun, ?_⟩
    · rw [run_look, hin]
      exact run_bind (run_colons hin)
    · simp only [Path.ofTree, Tree.children, List.singleton_append,
        List.filterMap_cons_none (segmentOfTree?_token _), hsegments, hroot, List.map_map]
      rfl

theorem AtArguments.atPunct {ts : List TokenTree} (h : AtArguments ts) {s : String}
    (hs : s.toList ≠ []) : Look.atPunct s ts = false := by
  obtain ⟨contents, opening, closing, us, rfl⟩ := h
  exact atPunct_eq_false hs (by simp)

theorem run_pathExpr {p : Path} {ts : List TokenTree} (h : p.SpelledBy ts)
    (hws : ∀ s ∈ p.segments, isPathWord s.name = true) {after : List TokenTree}
    (hafter : AtArguments after) (hin : input.rest = ts ++ after) {struct : Bool} :
    ∃ children, pathExpr g struct input =
        .ok (.node .pathExpr [.node .path children], { input with rest := after }) ∧
      Path.ofTree (.node .path children) =
        ⟨p.rooted, p.segments.map fun s => ⟨s.name, none⟩⟩ := by
  obtain ⟨children, hpath, hnames⟩ := run_pathWith (g := g) h hws hafter hin
  refine ⟨children, ?_, hnames⟩
  have hless : Look.atPunct "<" input.rest = false := by
    rw [hin]
    cases h with
    | bare _ hspell => exact hspell.atPunct (by decide)
    | rooted _ _ => rfl
  have hqualified : qualifiedPath g true input =
      .ok ([.node .path children], { input with rest := after }) := by
    unfold qualifiedPath
    rw [run_look, hless]
    exact run_bind hpath
  have hbrace : Look.atGroup .brace after = false := by
    obtain ⟨contents, opening, closing, us, rfl⟩ := hafter
    rfl
  unfold pathExpr
  rw [run_bind hqualified, run_ahead]
  simp only [atBang, hafter.atPunct (s := "!") (by decide), hbrace, Bool.false_and, Bool.and_false,
    Bool.false_eq_true, if_false]
  rfl

/-- The one path that no expression begins with: a macro was once called by this name. -/
def Path.IsBareTry (p : Path) : Prop :=
  p.rooted = false ∧ p.segments.map (·.name) = ["try".toList]

theorem atWord_eq_false (hw : isPathWord w = true) {s : String} (hs : isPathWord s.toList = false) :
    Look.atWord s (.word w span :: rest) = false := by
  refine beq_eq_false_iff_ne.2 ?_
  rintro rfl
  rw [hw] at hs
  cases hs

theorem atLiteral_eq_false (hw : isPathWord w = true) :
    Look.atLiteral (.word w span :: rest) = false := by
  have htrue : Look.atWord "true" (.word w span :: rest) = false := atWord_eq_false hw (by decide)
  have hfalse : Look.atWord "false" (.word w span :: rest) = false := atWord_eq_false hw (by decide)
  exact Bool.or_eq_false_iff.2 ⟨htrue, hfalse⟩

theorem atPathType_word (hw : isPathWord w = true) (htry : w ≠ "try".toList) :
    atPathType (.word w span :: rest) = true := by
  simp only [isPathWord, pathKeywords] at hw
  simp only [atPathType, Look.atIdentifier, Look.atWord]
  simp_all
  grind

theorem run_atom_word {struct : Bool} (hin : input.rest = .word w span :: rest)
    (hw : isPathWord w = true) (hbrace : Look.atGroup .brace rest = false)
    (hhash : Look.atPunct "#" rest = false)
    (htry : w = "try".toList → Look.atPunct "::" rest = true) :
    atom g struct input = pathExpr g struct input := by
  have hword : ∀ s : String, isPathWord s.toList = false →
      Look.atWord s (.word w span :: rest) = false := fun s hs => atWord_eq_false hw hs
  have hpath : atPathExpr (.word w span :: rest) = true := by
    by_cases h : w = "try".toList
    · have hsecond : Look.second (Look.atPunct "::") (.word w span :: rest) = true := htry h
      have hatTry : Look.atWord "try" (.word w span :: rest) = true := by simp [Look.atWord, h]
      simp only [atPathExpr, hatTry, hsecond, Bool.or_true, Bool.and_self]
    · simp only [atPathExpr, atPathType_word hw h, Bool.true_or]
  have hclosure : atClosure (.word w span :: rest) = false := by
    simp only [atClosure, hword "move" (by decide), hword "for" (by decide),
      hword "const" (by decide), hword "static" (by decide), hword "async" (by decide),
      Bool.false_and, Bool.or_false]
    rfl
  have hbuiltin : atBuiltin (.word w span :: rest) = false := by
    have hsecond : Look.second (Look.atPunct "#") (.word w span :: rest) = false := hhash
    simp only [atBuiltin, hsecond, Bool.and_false]
  have hblock : Look.second (Look.atGroup .brace) (.word w span :: rest) = false := hbrace
  unfold atom
  rw [run_ahead, hin]
  simp only [atLiteral_eq_false hw, hword "async" (by decide), hblock, hclosure, hbuiltin, hpath,
    Bool.false_and, Bool.and_false, Bool.false_eq_true, if_false, if_true]

theorem run_atom_path {p : Path} {ts : List TokenTree} (h : p.SpelledBy ts)
    (hws : ∀ s ∈ p.segments, isPathWord s.name = true) (htry : ¬p.IsBareTry)
    {after : List TokenTree} (hafter : AtArguments after) (hin : input.rest = ts ++ after)
    {struct : Bool} : atom g struct input = pathExpr g struct input := by
  have hnames : ∀ w ∈ p.segments.map (·.name), isPathWord w = true := by simpa using hws
  cases h with
  | rooted _ _ =>
    unfold atom
    rw [run_ahead, hin]
    rfl
  | bare hroot hspell =>
    generalize hws' : p.segments.map (·.name) = ws at hspell hnames
    cases hspell with
    | @last w span =>
      obtain ⟨contents, opening, closing, us, rfl⟩ := hafter
      refine run_atom_word hin (hnames w (by simp)) rfl rfl fun hw => ?_
      exact absurd ⟨hroot, by rw [hws', hw]⟩ htry
    | @more w _ _ _ _ _ _ hspell =>
      exact run_atom_word hin (hnames w (by simp)) rfl rfl fun _ => rfl

theorem run_expected {α : Type} (what : List String) :
    ∃ e, (expected what : Parser α) input = .error e := by
  obtain ⟨rest, finish, leftover⟩ := input
  cases rest <;> exact ⟨_, rfl⟩

theorem run_atom_try (hin : input.rest = .word "try".toList span :: rest)
    (hrest : AtArguments rest) {struct : Bool} : ∃ e, atom g struct input = .error e := by
  obtain ⟨contents, opening, closing, us, rfl⟩ := hrest
  have hnone : atom g struct input = expected ["an expression"] input := by
    unfold atom
    rw [run_ahead, hin]
    rfl
  rw [hnone]
  exact run_expected _

theorem run_inGroup {d : Delimiter} {contents : List TokenTree} {opening closing : Span}
    {q : Parser (List Tree)} {children : List Tree} {inner : Input}
    (hin : input.rest = .group d contents opening closing :: rest)
    (hrun : q ⟨contents, closing.start, input.leftover⟩ = .ok (children, inner))
    (hinner : inner.rest = []) :
    inGroup d q input =
      .ok (.group d opening closing children, { input with rest, leftover := inner.leftover }) := by
  obtain ⟨_, finish, leftover⟩ := input
  obtain ⟨_, finish', leftover'⟩ := inner
  subst hin hinner
  have hlift : (liftM (StateT.run q ⟨contents, closing.start, leftover⟩) : Parser _)
      ⟨.group d contents opening closing :: rest, finish, leftover⟩ =
        .ok ((children, ⟨[], finish', leftover'⟩),
          ⟨.group d contents opening closing :: rest, finish, leftover⟩) := by
    change (q _ >>= fun r => _) = _
    rw [hrun]
    rfl
  unfold inGroup
  refine (run_bind (show (get : Parser Input) _ = .ok (_, _) from rfl)).trans ?_
  simp only [beq_self_eq_true, if_true]
  refine (run_bind hlift).trans ?_
  cases leftover' <;> rfl

theorem run_withPostfix_call {n : Nat} {base : Tree} {number text : List Char}
    {span span' span'' opening closing : Span} {joint : Bool}
    (hin : input.rest = [.group .parenthesis
      [.literal number span, .punct ',' joint span', .literal text span''] opening closing]) :
    withPostfix (Grammar.ofLevel (n + 2)) base input =
      .ok (.node .call [base, .group .parenthesis opening closing
        [.node .literal [.token [.literal number span]], .token [.punct ',' false span'],
          .node .literal [.token [.literal text span'']]]], { input with rest := [] }) := by
  have hgroup := run_inGroup hin (run_exprList_literals (n := n) rfl) rfl
  unfold withPostfix
  rw [run_ahead, hin, postfixFuel, run_ahead, hin]
  refine (run_bind hgroup).trans ?_
  exact run_postfixFuel_none (.inl rfl) _

theorem Path.SpelledBy.eq_colon {p : Path} {ts after us : List TokenTree} (h : p.SpelledBy ts)
    {c : Char} {joint : Bool} (hts : ts ++ after = .punct c joint span :: us) : c = ':' := by
  cases h with
  | rooted _ _ =>
    cases hts
    rfl
  | bare _ hspell =>
    generalize p.segments.map (·.name) = ws at hspell
    cases hspell <;> cases hts

/-- The names of a path and two literals in parentheses are read as a call. -/
theorem run_expr_call {n : Nat} {p : Path} {ts : List TokenTree} (h : p.SpelledBy ts)
    (hws : ∀ s ∈ p.segments, isPathWord s.name = true) (htry : ¬p.IsBareTry)
    {number text : List Char} {span span' span'' opening closing : Span} {joint : Bool}
    (hin : input.rest = ts ++ [.group .parenthesis
      [.literal number span, .punct ',' joint span', .literal text span''] opening closing]) :
    ∃ children, (Grammar.ofLevel (n + 4)).expr true input =
        .ok (.node .call [.node .pathExpr [.node .path children],
          .group .parenthesis opening closing [.node .literal [.token [.literal number span]],
            .token [.punct ',' false span'], .node .literal [.token [.literal text span'']]]],
          { input with rest := [] }) ∧
      Path.ofTree (.node .path children) =
        ⟨p.rooted, p.segments.map fun s => ⟨s.name, none⟩⟩ := by
  have hafter : AtArguments [.group .parenthesis
      [.literal number span, .punct ',' joint span', .literal text span''] opening closing] :=
    ⟨_, _, _, _, rfl⟩
  obtain ⟨children, hpath, hnames⟩ :=
    @run_pathExpr (Grammar.ofLevel (n + 2)) input p ts h hws _ hafter hin true
  have hatom := (run_atom_path h hws htry hafter hin).trans hpath
  refine ⟨children, run_expr_atom (fun c joint span us hrest => ?_) hatom
    (run_withPostfix_call rfl) (.inl rfl), hnames⟩
  rw [hin] at hrest
  exact h.eq_colon hrest

theorem run_expr_try {n : Nat} (hin : input.rest = .word "try".toList span :: rest)
    (hrest : AtArguments rest) : ∃ e, (Grammar.ofLevel (n + 2)).expr true input = .error e := by
  obtain ⟨e, he⟩ := @run_atom_try (Grammar.ofLevel n) input span rest hin hrest true
  have hunary : (Grammar.ofLevel (n + 1)).unary true input = .error e := by
    refine (run_unaryExpr fun c joint span us h => ?_).trans ?_
    · rw [hin] at h
      cases h
    · exact run_bind_error he
  exact ⟨e, run_bind_error hunary⟩

end

section

variable {source : List TokenTree} {g : Grammar} [hg : Grammar.Keeps source g] {inExpr : Bool}
  {input : Input}

def NamedIn (source : List TokenTree) (t : Tree) : Prop :=
  ∀ s ∈ Path.segmentOfTree? t, isPathWord s.name = true ∧
    ∃ span rest, Within source (.word s.name span :: rest)

theorem ensures_pathSegment_named (hin : Within source input.rest) :
    Ensures (pathSegment g inExpr) input fun t next =>
      Within source next.rest ∧ (Path.segmentOfTree? t).isSome = true ∧ NamedIn source t := by
  have hkeeps : Keeps source (pathSegment g inExpr) := inferInstance
  intro t next h
  obtain ⟨w, span, rest, hrest, hw, ht⟩ := ensures_pathSegment t next h
  have hsegment : ∃ arguments, Path.segmentOfTree? t = some ⟨w, arguments⟩ := by
    rcases ht with ⟨arguments, rfl⟩ | ⟨-, rfl⟩
    · exact ⟨some arguments, segmentOfTree?_arguments w span arguments⟩
    · exact ⟨none, segmentOfTree?_word w span⟩
  obtain ⟨arguments, ht⟩ := hsegment
  refine ⟨(hkeeps.keeps input hin t next h).1, by simp [ht], fun s hs => ?_⟩
  rw [ht] at hs
  cases hs
  exact ⟨hw, span, rest, hrest ▸ hin⟩

theorem ensures_moreSegments_named (hin : Within source input.rest) :
    Ensures (moreSegments g inExpr) input fun ts _ => ∀ t ∈ ts, NamedIn source t := by
  have hcolons : Keeps source (punct "::") := inferInstance
  unfold moreSegments repeatStep
  refine .bind (.ahead ?_)
  generalize input.rest.length + 1 = fuel
  induction fuel generalizing input with
  | zero => exact .pure (by simp)
  | succ fuel ih =>
    refine .bind (.bind (.look ?_))
    split
    · refine .bind fun colons mid hmid => ?_
      obtain ⟨op, -, rfl⟩ := ensures_punct "::" colons mid hmid
      have hwithin := (hcolons.keeps input hin _ mid hmid).1
      refine .bind ((ensures_pathSegment_named hwithin).mono ?_)
      rintro segment next ⟨hnext, -, hnamed⟩
      refine .pure (.bind ((ih hnext).mono fun ts _ hts => .pure ?_))
      have hop : NamedIn source (.token op) := by
        rintro s ⟨⟩
      simpa [hop, hnamed] using hts
    · exact .pure (.pure (by simp))

theorem ensures_pathWith_named (hin : Within source input.rest) :
    Ensures (pathWith g inExpr) input fun path _ => (Path.ofTree path).segments ≠ [] ∧
      ∀ s ∈ (Path.ofTree path).segments, isPathWord s.name = true ∧
        ∃ span rest, Within source (.word s.name span :: rest) := by
  have hroot : Keeps source (optionalPunct "::") := inferInstance
  refine .bind fun root mid hmid => ?_
  have hwithin := (hroot.keeps input hin root mid hmid).1
  have hnone : ∀ t ∈ root, NamedIn source t := by
    rcases ensures_optionalPunct "::" root mid hmid with ⟨rfl, -⟩ | ⟨op, -, rfl⟩
    · simp
    · simp only [List.mem_singleton, forall_eq]
      rintro s ⟨⟩
  refine .bind ((ensures_pathSegment_named hwithin).mono ?_)
  rintro first next ⟨hnext, hfirst, hnamed⟩
  refine .bind ((ensures_moreSegments_named hnext).mono fun more _ hmore => .pure ?_)
  obtain ⟨s, hs⟩ := Option.isSome_iff_exists.1 hfirst
  have hall : ∀ t ∈ root ++ first :: more, NamedIn source t := by
    simpa [or_imp, forall_and, hnamed] using ⟨hnone, hmore⟩
  refine ⟨List.ne_nil_of_mem (List.mem_filterMap.2 ⟨first, by simp [Tree.children], hs⟩), ?_⟩
  intro s hs
  obtain ⟨t, ht, hts⟩ := List.mem_filterMap.1 hs
  exact hall t ht s hts

end

/-- A path that can be written in calls: it has names, and these are words of a path. -/
structure Path.IsProper (p : Path) : Prop where
  written : p.IsWritten
  pathWords : ∀ s ∈ p.segments, isPathWord s.name = true

theorem Path.isProper_of_ofText {source : List Char} {p : Path} (h : Path.ofText source = .ok p) :
    p.IsProper := by
  obtain ⟨tree, hparse, rfl⟩ := InlineMarkup.map_eq_ok.1 h
  unfold parsePath parseText at hparse
  split at hparse
  · cases hparse
  · rename_i ts hts
    obtain ⟨⟨path, input⟩, hrun, hresult⟩ := InlineMarkup.bind_eq_ok.1 hparse
    have hlevel := Grammar.keeps_ofLevel ts (4 * TokenTree.sizeOf ts + 16)
    obtain ⟨hne, hnames⟩ := @ensures_pathWith_named ts _ hlevel _ _ .whole path input hrun
    obtain rfl : path = tree := by
      dsimp only at hresult
      split at hresult
      · cases hresult
      · split at hresult
        · cases hresult
        · exact Except.ok.inj hresult
    obtain ⟨m, hreads⟩ := tokensFrom_eq_ok_iff.1 hts
    refine ⟨⟨hne, fun s hs => ?_⟩, fun s hs => (hnames s hs).1⟩
    obtain ⟨-, span, rest, hwithin⟩ := hnames s hs
    obtain ⟨front, back, hatoms⟩ := hwithin.atomsOf_eq
    have hmem : Atom.word s.name span ∈ atomsOf ts := by simp [hatoms, TokenTree.atoms]
    exact hreads.isWord hmem
end InlineMarkup.Host
