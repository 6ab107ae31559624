import InlineMarkup.Proofs.Reconcile.Callee
import InlineMarkup.Proofs.Host.Comment

/-!
A placeholder call by itself is read back as what it was written for. Its text is read as the names
of the function, the id and the region's text as one raw string; the parser makes a call of these,
and the call is recognised with that id and that text (`recognized_iff`).

The host language has a limit for the hash signs of a raw string. A region whose text needs more of
them has a call that cannot be read.
-/

set_option autoImplicit false

namespace InlineMarkup

open InlineMarkup.Text InlineMarkup.Host
open Host.TokenTree (atomsOf)

/-- The tokens of a placeholder call: the names of the function and, in parentheses, the id in
decimal digits and a raw string whose content is the text. -/
inductive SpelledCall (function : Host.Path) (id : Nat) (text : List Char) : List TokenTree → Prop
  | intro {names : List TokenTree} {raw : List Char} {span span' span'' opening closing : Span}
      {joint : Bool} : function.SpelledBy names → raw.head? = some 'r' →
      Literal.string? raw = some text →
      SpelledCall function id text (names ++ [.group .parenthesis
        [.literal (toString id).toList span, .punct ',' joint span', .literal raw span'']
        opening closing])

theorem beforeLastQuote_append {text hashes : List Char} (h : '"' ∉ hashes) :
    Literal.beforeLastQuote (text ++ '"' :: hashes) = text := by
  have hall : ∀ c ∈ hashes.reverse, (c != '"') = true := fun c hc => by
    simp only [bne_iff_ne]
    rintro rfl
    exact h (List.mem_reverse.1 hc)
  simp [Literal.beforeLastQuote, List.dropWhile_append_of_pos hall]

theorem content_rawStringLiteral (text : List Char) :
    Literal.string? (rawStringLiteral text) = some text := by
  have hquote : '"' ∉ List.replicate (longestRun text + 1) '#' := by simp
  have hhashes : ∀ c ∈ List.replicate (longestRun text + 1) '#', (c == '#') = true := by simp
  have hshape : rawStringLiteral text = 'r' :: (List.replicate (longestRun text + 1) '#' ++
      '"' :: (text ++ '"' :: List.replicate (longestRun text + 1) '#')) := by
    simp [rawStringLiteral]
  rw [hshape]
  simp only [Literal.string?, List.dropWhile_append_of_pos hhashes]
  exact congrArg some (beforeLastQuote_append hquote)

theorem reads_spelledCall {function : Host.Path} (hf : function.IsWritten) {id : Nat}
    {text : List Char} (htext : isReadable text = true) (m : Mark) :
    ∃ ts m', Reads ⟨placeholderCall function id text, m⟩ (atomsOf ts) ⟨[], m'⟩ ∧
      SpelledCall function id text ts := by
  rw [← List.append_nil (placeholderCall function id text), placeholderCall_append]
  obtain ⟨names, m₁, hnames, hspelled⟩ := reads_path_spelled hf (Lexeme.breaks_cons '(' _) m
  obtain ⟨opening, span, joint, span', m₂, harguments⟩ := reads_arguments id text [] m₁
  obtain ⟨span'', closing, hlast⟩ := reads_lastArgument htext [] m₂
  let arguments : List TokenTree := [.literal (toString id).toList span, .punct ',' joint span',
    .literal (rawStringLiteral text) span'']
  refine ⟨names ++ [.group .parenthesis arguments opening closing], closing.stop, ?_,
    .intro hspelled rfl (content_rawStringLiteral text)⟩
  have hreads := hnames.trans (harguments.trans hlast)
  simpa [arguments, TokenTree.atoms] using hreads

theorem head_placeholderCall {function : Host.Path} (hf : function.IsWritten) (id : Nat)
    (text : List Char) : (placeholderCall function id text).head? ≠ some byteOrderMark := by
  obtain ⟨c, s, hc, hbegins⟩ := hf.text_eq_cons
  have hmark : Lexeme.beginsLeaf byteOrderMark = false := by decide +kernel
  rw [placeholderCall, hc]
  rintro ⟨⟩
  rw [hbegins] at hmark
  cases hmark

theorem isReadable_of_tokens {function : Host.Path} (hf : function.IsWritten) {id : Nat}
    {text : List Char} {ts : List TokenTree}
    (h : tokens (placeholderCall function id text) = .ok ts) : isReadable text = true := by
  obtain ⟨m, hreads⟩ := (tokens_eq_ok_iff (head_placeholderCall hf id text)).1 h
  rw [← List.append_nil (placeholderCall function id text)] at hreads
  exact isReadable_of_reads hf hreads

theorem tokens_placeholderCall {function : Host.Path} (hf : function.IsWritten) (id : Nat)
    {text : List Char} (h : isReadable text = true) :
    ∃ ts, tokens (placeholderCall function id text) = .ok ts ∧ SpelledCall function id text ts := by
  obtain ⟨ts, m, hreads, hspelled⟩ := reads_spelledCall hf h Mark.first
  exact ⟨ts, (tokens_eq_ok_iff (head_placeholderCall hf id text)).2 ⟨m, hreads⟩, hspelled⟩

/-- A call is taken for a placeholder call with an id and a text. -/
def Recognized (function : Host.Path) (id : Nat) (text : List Char) (t : Host.Tree) : Prop :=
  isCallOf function t = true ∧
    ∃ call, PlaceholderCall.ofTree t = .ok call ∧ call.id = id ∧ call.text = text

theorem PlaceholderCall.ofTree_of_arguments {t path first second : Host.Tree} {d : Delimiter}
    {opening closing : Span} {children : List Host.Tree} {id : Nat} {text : List Char}
    (hpath : pathCall? t = some (path, .group d opening closing children))
    (hargs : children.filter (·.kind?.isSome) = [first, second])
    (hid : idOf? first = some id) (htext : textOf? second = some text) :
    PlaceholderCall.ofTree t =
      .ok ⟨id, text, path.start, closing.stop, String.ofList t.text⟩ := by
  simp only [PlaceholderCall.ofTree, hpath, argumentsOf, Tree.children, hargs, hid, htext]

theorem recognized_call {function : Host.Path} {id : Nat} (hid : id < idLimit)
    {raw text : List Char} (hraw : Literal.string? raw = some text) {children : List Host.Tree}
    (hpath : Host.Path.ofTree (.node .path children) =
      ⟨function.rooted, function.segments.map fun s => ⟨s.name, none⟩⟩)
    (span span' span'' opening closing : Span) :
    Recognized function id text (.node .call [.node .pathExpr [.node .path children],
      .group .parenthesis opening closing
        [.node .literal [.token [.literal (toString id).toList span]],
          .token [.punct ',' false span'], .node .literal [.token [.literal raw span'']]]]) := by
  have hnamed : function.isNamedBy (.ofTree (.node .path children)) = true := by
    rw [hpath]
    exact isNamedBy_iff.2 ⟨rfl, by simp, by simp⟩
  have hnumber : idOf? (.node .literal [.token [.literal (toString id).toList span]]) =
      some id := by
    rw [idOf?_literal, integer?_id]
    simp [hid]
  have htext : textOf? (.node .literal [.token [.literal raw span'']]) = some text := hraw
  exact ⟨hnamed, _, PlaceholderCall.ofTree_of_arguments rfl rfl hnumber htext, rfl, rfl⟩

theorem parseTokens_of_run {p : Grammar → Parser Host.Tree} {ts : List TokenTree} {t : Host.Tree}
    (h : p (grammarFor ts) ⟨ts, Mark.first, none⟩ = .ok (t, ⟨[], Mark.first, none⟩)) :
    parseTokens p ts = .ok t := by
  unfold parseTokens
  exact congrArg (· >>= _) h

theorem SpelledCall.parse {function : Host.Path} {id : Nat} {text : List Char} {ts : List TokenTree}
    (h : SpelledCall function id text ts) (hws : ∀ s ∈ function.segments, isPathWord s.name = true)
    (htry : ¬function.IsBareTry) (hid : id < idLimit) :
    ∃ t, parseTokens (·.expr true) ts = .ok t ∧ Recognized function id text t := by
  cases h with
  | @intro names raw span span' span'' opening closing joint hnames _ hraw =>
    generalize hts : names ++ _ = ts
    obtain ⟨children, hrun, hpath⟩ := @run_expr_call ⟨ts, Mark.first, none⟩
      (4 * TokenTree.sizeOf ts + 12) _ _ hnames hws htry _ _ _ _ _ _ _ _ hts.symm
    exact ⟨_, parseTokens_of_run hrun, recognized_call hid hraw hpath ..⟩

theorem SpelledCall.refused {function : Host.Path} {id : Nat} {text : List Char}
    {ts : List TokenTree} (h : SpelledCall function id text ts) (htry : function.IsBareTry) :
    ∃ e, parseTokens (·.expr true) ts = .error e := by
  obtain ⟨hroot, hname⟩ := htry
  cases h with
  | @intro names raw span span' span'' opening closing joint hnames _ _ =>
    generalize hts : names ++ _ = ts
    cases hnames with
    | rooted hrooted _ =>
      rw [hroot] at hrooted
      cases hrooted
    | bare _ hspell =>
      rw [hname] at hspell
      cases hspell with
      | last =>
        obtain ⟨e, he⟩ := @run_expr_try ⟨ts, Mark.first, none⟩ _ _ (4 * TokenTree.sizeOf ts + 14)
          hts.symm ⟨_, _, _, _, rfl⟩
        refine ⟨e, ?_⟩
        unfold parseTokens
        exact congrArg (· >>= _) he
      | more hmore => cases hmore

/-- A placeholder call can be read if and only if its text has no bare carriage return and no run of
255 hash signs after a quote. What is read are the names of the function, the id and the text, the
last as one raw string. As an expression it is then a call that is recognised with that id and that
text, unless the function is just `try`, which no expression begins with. -/
theorem recognized_iff {function : Host.Path} (hf : function.IsProper) {id : Nat}
    (hid : id < idLimit) (text : List Char) :
    ((∃ ts, tokens (placeholderCall function id text) = .ok ts) ↔
      Lexeme.isBareReturnFree text = true ∧ longestRun text < 255) ∧
    (∀ ts, tokens (placeholderCall function id text) = .ok ts →
      SpelledCall function id text ts) ∧
    ((∃ t, parseExpr (placeholderCall function id text) = .ok t) ↔
      Lexeme.isBareReturnFree text = true ∧ longestRun text < 255 ∧ ¬function.IsBareTry) ∧
    ∀ t, parseExpr (placeholderCall function id text) = .ok t → Recognized function id text t := by
  have hreadable : isReadable text = true ↔
      Lexeme.isBareReturnFree text = true ∧ longestRun text < 255 := by
    simp [isReadable]
  simp only [parseExpr, parseText, ← and_assoc, ← hreadable]
  by_cases h : isReadable text = true
  · obtain ⟨ts, hts, hspelled⟩ := tokens_placeholderCall hf.written id h
    simp only [hts, h, true_and]
    by_cases htry : function.IsBareTry
    · obtain ⟨e, he⟩ := hspelled.refused htry
      simp [he, htry, hspelled]
    · obtain ⟨t, ht, hrecognized⟩ := hspelled.parse hf.pathWords htry hid
      simp [ht, htry, hspelled, hrecognized]
  · have hnone : ∀ ts, tokens (placeholderCall function id text) ≠ .ok ts :=
      fun ts hts => h (isReadable_of_tokens hf.written hts)
    cases hts : tokens (placeholderCall function id text) with
    | ok ts => exact absurd hts (hnone ts)
    | error m => simp [h]

/-- With a root, a raw name and generic arguments, the greatest id, and a text that holds a quote
with a hash sign behind it. -/
theorem recognized_iff_generic : ∃ function,
    Host.Path.ofText "::r#fn::html::<u8>".toList = .ok function ∧
      placeholderCall function (idLimit - 1) "<p t='\"#'/>".toList =
        "::r#fn::html(18446744073709551615, r##\"<p t='\"#'/>\"##)".toList ∧
      ∃ t, parseExpr (placeholderCall function (idLimit - 1) "<p t='\"#'/>".toList) = .ok t ∧
        Recognized function (idLimit - 1) "<p t='\"#'/>".toList t := by
  have hread : (Host.Path.ofText "::r#fn::html::<u8>".toList).toOption.map
      (fun p => (p.rooted, p.text)) = some (true, "::r#fn::html".toList) := by decide +kernel
  obtain ⟨function, hsome, heq⟩ := Option.map_eq_some_iff.1 hread
  obtain ⟨hroot, htext⟩ := Prod.mk.inj heq
  have hf := eq_ok_of_toOption hsome
  obtain ⟨-, -, hparse, hrecognized⟩ := recognized_iff (Host.Path.isProper_of_ofText hf)
    (show idLimit - 1 < idLimit by decide) "<p t='\"#'/>".toList
  obtain ⟨t, ht⟩ := hparse.2 ⟨by decide, by decide, fun h => by simp [h.1] at hroot⟩
  refine ⟨function, hf, ?_, t, ht, hrecognized t ht⟩
  rw [placeholderCall, htext]
  decide +kernel

end InlineMarkup
