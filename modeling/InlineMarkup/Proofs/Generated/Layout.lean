import InlineMarkup.Proofs.Generated.Spelling
import InlineMarkup.Proofs.Host.Quoted

/-!
Indentation and ends of lines are nothing but layout. Which calls are broken into lines does not
depend on them, and the text in any layout is the plain text with every line feed written as the
end of a line and the indentation of the next (`render_eq_relaid`).
-/

set_option autoImplicit false

namespace InlineMarkup

open InlineMarkup.Text InlineMarkup.Host

/-- A text with every line feed written as the end of a line and the base of the next one. -/
def Layout.relaid (l : Layout) (s : List Char) : List Char :=
  s.flatMap fun c => if c = '\n' then l.newline ++ l.base else [c]

namespace Layout

variable (l : Layout)

theorem relaid_append (s t : List Char) : l.relaid (s ++ t) = l.relaid s ++ l.relaid t := by
  simp [relaid]

theorem relaid_lineFeed (s : List Char) :
    l.relaid ('\n' :: s) = l.newline ++ (l.base ++ l.relaid s) := by
  simp [relaid]

theorem relaid_of_not_mem {s : List Char} (h : '\n' ∉ s) : l.relaid s = s := by
  induction s with
  | nil => rfl
  | cons c s ih =>
    obtain ⟨hc, hs⟩ := not_or.1 (mt List.mem_cons.2 h)
    have hrest := ih hs
    simp only [relaid] at hrest ⊢
    simp [Ne.symm hc, hrest]

end Layout

theorem lineFeed_not_mem_step (level : Nat) : '\n' ∉ times level Layout.step := by
  intro h
  obtain ⟨s, hs, hmem⟩ := List.mem_flatten.1 h
  rw [List.eq_of_mem_replicate hs] at hmem
  revert hmem
  decide

namespace Generated

/-- Neither a function nor code in an expression is written with a line feed. -/
def Flat : Generated → Prop :=
  All (fun function _ => '\n' ∉ function.text) (fun _ source => '\n' ∉ source)

instance (g : Generated) : Decidable g.Flat :=
  All.decide g

theorem Flat.not_mem_of_leaf? {g : Generated} (h : g.Flat) {s : List Char} (hs : g.leaf? = some s) :
    '\n' ∉ s := by
  cases g with
  | call function arguments => cases hs
  | str value =>
    cases hs
    exact Lexeme.lineFeed_not_mem_stringLiteral value
  | host expr source =>
    cases hs
    exact h

theorem not_mem_of_leaves? {gs : List Generated} (h : ∀ g ∈ gs, g.Flat) {ss : List (List Char)}
    (hss : leaves? gs = some ss) : ∀ s ∈ ss, '\n' ∉ s := by
  induction gs generalizing ss with
  | nil =>
    cases hss
    simp
  | cons g gs ih =>
    obtain ⟨hg, hgs⟩ := List.forall_mem_cons.1 h
    simp only [leaves?] at hss
    split at hss
    · rename_i s rest hleaf hleaves
      cases hss
      exact List.forall_mem_cons.2 ⟨hg.not_mem_of_leaf? hleaf, ih hgs hleaves⟩
    · cases hss

theorem not_mem_of_inline? {gs : List Generated} (h : ∀ g ∈ gs, g.Flat) {line : List Char}
    (hline : inline? gs = some line) : '\n' ∉ line := by
  unfold inline? at hline
  split at hline
  · cases hline
  · rename_i texts htexts
    simp only at hline
    split at hline
    · cases hline
      exact not_mem_join (by decide) (not_mem_of_leaves? h htexts)
    · cases hline

mutual

theorem renderAt_eq_relaid (l : Layout) (level : Nat) (g : Generated) (h : g.Flat) :
    renderAt l level g = l.relaid (renderAt {} level g) := by
  cases g with
  | str value =>
    simp only [renderAt]
    rw [l.relaid_of_not_mem (Lexeme.lineFeed_not_mem_stringLiteral value)]
  | host expr source =>
    simp only [renderAt]
    rw [l.relaid_of_not_mem h]
  | call function arguments =>
    obtain ⟨hfunction, harguments⟩ := h
    simp only [renderAt]
    cases hinline : inline? arguments with
    | some line =>
      have hline := not_mem_of_inline? (allOf_iff.1 harguments) hinline
      rw [l.relaid_of_not_mem]
      simp [hfunction, hline]
    | none =>
      have hlines := renderLines_eq_relaid l (level + 1) arguments harguments
      have hfront : l.relaid (function.text ++ ['(']) = function.text ++ ['('] :=
        l.relaid_of_not_mem (by simpa using hfunction)
      have hback : l.relaid (times level Layout.step ++ [')']) = times level Layout.step ++ [')'] :=
        l.relaid_of_not_mem (by simpa using lineFeed_not_mem_step level)
      calc function.text ++ ('(' :: l.newline ++ renderLines l (level + 1) arguments ++
            l.indent level ++ [')'])
        _ = (function.text ++ ['(']) ++
              (l.newline ++ (renderLines l (level + 1) arguments ++ l.base)) ++
              (times level Layout.step ++ [')']) := by simp [Layout.indent]
        _ = l.relaid ((function.text ++ ['(']) ++ '\n' :: renderLines {} (level + 1) arguments ++
              (times level Layout.step ++ [')'])) := by
          rw [l.relaid_append, l.relaid_append, hfront, hlines, hback]
        _ = l.relaid (function.text ++ ('(' :: ['\n'] ++ renderLines {} (level + 1) arguments ++
              Layout.indent {} level ++ [')'])) := by simp [Layout.indent]

theorem renderLines_eq_relaid (l : Layout) (level : Nat) (gs : List Generated)
    (h : AllOf (fun function _ => '\n' ∉ function.text) (fun _ source => '\n' ∉ source) gs) :
    l.newline ++ (renderLines l level gs ++ l.base) =
      l.relaid ('\n' :: renderLines {} level gs) := by
  cases gs with
  | nil => simp [renderLines, Layout.relaid]
  | cons g gs =>
    have hg := renderAt_eq_relaid l level g h.1
    have hgs := renderLines_eq_relaid l level gs h.2
    have hfront := l.relaid_of_not_mem (lineFeed_not_mem_step level)
    have hcomma : l.relaid [','] = [','] := l.relaid_of_not_mem (by decide)
    simp only [renderLines]
    calc l.newline ++ ((l.indent level ++ renderAt l level g ++ ',' :: l.newline ++
          renderLines l level gs) ++ l.base)
      _ = l.newline ++ (l.base ++ (times level Layout.step ++ renderAt l level g ++ [','] ++
            (l.newline ++ (renderLines l level gs ++ l.base)))) := by simp [Layout.indent]
      _ = l.relaid ('\n' :: (times level Layout.step ++ renderAt {} level g ++ [','] ++
            '\n' :: renderLines {} level gs)) := by
        rw [l.relaid_lineFeed, l.relaid_append, l.relaid_append, l.relaid_append, hfront, hg, hcomma,
          hgs]
      _ = l.relaid ('\n' :: (Layout.indent {} level ++ renderAt {} level g ++ ',' :: ['\n'] ++
            renderLines {} level gs)) := by simp [Layout.indent]

end

/-- In any layout, the text of an expression whose code has no line feeds is its plain text with
every line feed written as the end of a line and the base of the next. The names of functions are
words, which have no line feeds either. -/
theorem render_eq_relaid {g : Generated} (h : g.Flat) (l : Layout) :
    g.render l = l.relaid (g.render {}) :=
  renderAt_eq_relaid l 0 g h

/-- A call in a call, with a line feed in a string, between lines that end in two characters. -/
theorem render_eq_relaid_nested : ∃ g : Generated, g.Flat ∧
    g.render {} = "elem::item(\n    vecty::text(\"a\\nb\"),\n    x,\n)".toList ∧
    g.render ⟨"  ".toList, "\r\n".toList⟩ =
      "elem::item(\r\n      vecty::text(\"a\\nb\"),\r\n      x,\r\n  )".toList := by
  let g : Generated := .call (.ofNames ["elem", "item"])
    [.call (.ofNames ["vecty", "text"]) [.str ['a', '\n', 'b']],
      .host (.node .pathExpr [(Host.Path.ofNames ["x"]).toTree true]) ['x']]
  have hflat : g.Flat := by decide
  have hplain : g.render {} = "elem::item(\n    vecty::text(\"a\\nb\"),\n    x,\n)".toList := by
    decide
  refine ⟨g, hflat, hplain, ?_⟩
  rw [render_eq_relaid hflat, hplain]
  decide

end Generated

end InlineMarkup
