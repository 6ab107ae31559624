import InlineMarkup.Proofs.Host.Grammar.Path

/-!
The arguments of a placeholder call are two literals, and are read as such.
-/

set_option autoImplicit false

namespace InlineMarkup.Host

section

variable {α β : Type} {input next : Input}

theorem run_bind {p : Parser α} {f : α → Parser β} {a : α} (h : p input = .ok (a, next)) :
    (p >>= f) input = f a next := by
  change (p input >>= fun r => f r.1 r.2) = _
  rw [h]
  rfl

theorem run_bind_error {p : Parser α} {f : α → Parser β} {e : Refusal} (h : p input = .error e) :
    (p >>= f) input = .error e := by
  change (p input >>= fun r => f r.1 r.2) = _
  rw [h]
  rfl

theorem run_ahead (f : List TokenTree → Parser β) : (ahead >>= f) input = f input.rest input :=
  rfl

theorem run_look (see : List TokenTree → Bool) (f : Bool → Parser β) :
    (look see >>= f) input = f (see input.rest) input :=
  rfl

theorem run_here (f : Text.Mark → Parser β) : ∃ mark, (here >>= f) input = f mark input := by
  obtain ⟨rest, finish, leftover⟩ := input
  cases rest <;> exact ⟨_, rfl⟩

theorem run_punct {s : String} {op rest : List TokenTree}
    (h : takeChars s.toList input.rest = some (op, rest)) :
    punct s input = .ok (.token op, { input with rest }) := by
  unfold punct
  rw [run_ahead, h]
  rfl

end

section

variable {step : Parser (List Tree × Bool)} {input mid next : Input} {trees more : List Tree}

theorem run_repeat_more (fuel : Nat) (hstep : step input = .ok ((trees, true), mid))
    (hmore : repeatFuel step fuel mid = .ok (more, next)) :
    repeatFuel step (fuel + 1) input = .ok (trees ++ more, next) := by
  rw [repeatFuel, run_bind hstep]
  exact run_bind hmore

theorem run_repeat_end (fuel : Nat) (hstep : step input = .ok ((trees, false), next)) :
    repeatFuel step (fuel + 1) input = .ok (trees, next) := by
  rw [repeatFuel, run_bind hstep]
  rfl

end

theorem atPunct_eq_false {s : String} {ts : List TokenTree} (hs : s.toList ≠ [])
    (h : ∀ c joint span us, ts = .punct c joint span :: us → s.toList.head? ≠ some c) :
    Look.atPunct s ts = false := by
  unfold Look.atPunct
  cases hc : s.toList with
  | nil => exact absurd hc hs
  | cons c cs =>
    match ts with
    | [] => cases cs <;> rfl
    | .punct d joint span :: us =>
      have hne : (c == d) = false := by simpa [hc] using h d joint span us rfl
      cases cs <;> simp [Look.atChars, hne]
    | .word _ _ :: _ => cases cs <;> rfl
    | .literal _ _ :: _ => cases cs <;> rfl
    | .group _ _ _ _ :: _ => cases cs <;> rfl

/-- The end of an argument: the end of the list or a comma. -/
def EndsArgument (ts : List TokenTree) : Prop :=
  ts = [] ∨ ∃ joint span us, ts = .punct ',' joint span :: us

section

variable {ts : List TokenTree}

theorem EndsArgument.atPunct (h : EndsArgument ts) (s : String)
    (hs : s.toList ≠ [] ∧ s.toList.head? ≠ some ',') : Look.atPunct s ts = false := by
  refine atPunct_eq_false hs.1 fun c joint span us hts => ?_
  rcases h with rfl | ⟨joint', span', us', rfl⟩
  · cases hts
  · cases hts
    exact hs.2

theorem EndsArgument.atGroup (h : EndsArgument ts) (d : Delimiter) : Look.atGroup d ts = false := by
  rcases h with rfl | ⟨joint, span, us, rfl⟩ <;> rfl

theorem EndsArgument.atWord (h : EndsArgument ts) (s : String) : Look.atWord s ts = false := by
  rcases h with rfl | ⟨joint, span, us, rfl⟩ <;> rfl

theorem EndsArgument.operatorAt? (h : EndsArgument ts) : operatorAt? ts = none := by
  have hops : ∀ op ∈ operators, op.1.toList ≠ [] ∧ op.1.toList.head? ≠ some ',' := by decide
  exact List.find?_eq_none.2 fun op hop => by simp [h.atPunct op.1 (hops op hop)]

end

section

variable {g : Grammar} {input : Input} {text : List Char} {span : Span} {rest : List TokenTree}

theorem run_outerAttributes_none (h : Look.atPunct "#" input.rest = false) :
    outerAttributes g input = .ok ([], input) := by
  have hstep : (do
      if ← look (Look.atPunct "#") then return ([← outerAttribute g], true)
      else return ([], false) : Parser (List Tree × Bool)) input = .ok (([], false), input) := by
    rw [run_look, h]
    rfl
  unfold outerAttributes whileSeen repeatStep
  rw [run_ahead]
  exact run_repeat_end _ hstep

theorem run_atom_literal {struct : Bool} (hin : input.rest = .literal text span :: rest) :
    atom g struct input =
      .ok (.node .literal [.token [.literal text span]], { input with rest }) := by
  unfold atom
  rw [run_ahead, hin, if_pos (show Look.atLiteral (.literal text span :: rest) = true from rfl)]
  refine run_bind ?_
  unfold literalToken
  rw [run_ahead, hin]
  rfl

theorem run_postfixFuel_none {base : Tree} (h : EndsArgument input.rest) (fuel : Nat) :
    postfixFuel g fuel base input = .ok (base, input) := by
  cases fuel with
  | zero => rfl
  | succ fuel =>
    rw [postfixFuel, run_ahead]
    simp only [h.atGroup, h.atPunct "." (by decide), h.atPunct "?" (by decide), Bool.false_eq_true,
      if_false, Bool.false_and]
    split <;> rfl

theorem run_unaryExpr {struct : Bool}
    (hno : ∀ c joint span us, input.rest = .punct c joint span :: us → c = ':') :
    unaryExpr g struct input = (do
      let value ← withPostfix g (← atom g struct)
      return value.withAttributes [] : Parser Tree) input := by
  have hpunct : ∀ s : String, s.toList ≠ [] → s.toList.head? ≠ some ':' →
      Look.atPunct s input.rest = false := fun s hs hhead =>
    atPunct_eq_false hs fun c joint span us hrest => hno c joint span us hrest ▸ hhead
  unfold unaryExpr
  rw [run_bind (run_outerAttributes_none (hpunct "#" (by decide) (by decide)))]
  obtain ⟨mark, hhere⟩ := @run_here _ input _
  rw [hhere, run_ahead]
  simp only [hpunct "&" (by decide) (by decide), hpunct "*" (by decide) (by decide),
    hpunct "!" (by decide) (by decide), hpunct "-" (by decide) (by decide), Bool.false_eq_true,
    if_false, Bool.or_self]
  rfl

theorem run_continueExpr_none {struct : Bool} {left : Tree} (h : EndsArgument input.rest) :
    continueExpr g struct left input = .ok (left, input) := by
  have hfuel : climbFuel input = .ok (4 * input.rest.length + 4, input) := rfl
  unfold continueExpr
  rw [run_bind hfuel, climb, run_ahead]
  split
  · rfl
  · simp only [h.operatorAt?, atAssign, h.atPunct "=" (by decide), h.atPunct ".." (by decide),
      h.atWord, Bool.false_and, Bool.and_false, Bool.false_eq_true, if_false]
    rfl

/-- An atom with its postfix operators, if it ends the argument, is the whole expression, once there
are levels enough. -/
theorem run_expr_atom {n : Nat} {mid next : Input} {struct : Bool} {base value : Tree}
    (hno : ∀ c joint span us, input.rest = .punct c joint span :: us → c = ':')
    (hatom : atom (Grammar.ofLevel n) struct input = .ok (base, mid))
    (hvalue : withPostfix (Grammar.ofLevel n) base mid = .ok (value, next))
    (hnext : EndsArgument next.rest) :
    (Grammar.ofLevel (n + 2)).expr struct input = .ok (value.withAttributes [], next) := by
  have hunary : (Grammar.ofLevel (n + 1)).unary struct input =
      .ok (value.withAttributes [], next) := by
    refine (run_unaryExpr (g := Grammar.ofLevel n) hno).trans ?_
    rw [run_bind hatom, run_bind hvalue]
    rfl
  change exprWith (Grammar.ofLevel (n + 1)) struct input = _
  unfold exprWith
  rw [run_bind hunary]
  exact run_continueExpr_none hnext

theorem run_expr_literal {n : Nat} {struct : Bool} (hin : input.rest = .literal text span :: rest)
    (hrest : EndsArgument rest) :
    (Grammar.ofLevel (n + 2)).expr struct input =
      .ok (.node .literal [.token [.literal text span]], { input with rest }) := by
  refine run_expr_atom (fun c joint span us h => ?_) (run_atom_literal hin)
    (run_postfixFuel_none hrest _) hrest
  rw [hin] at h
  cases h

end

theorem run_exprList_literals {n : Nat} {input : Input} {id text : List Char}
    {span span' span'' : Span} {joint : Bool}
    (hin : input.rest = [.literal id span, .punct ',' joint span', .literal text span'']) :
    exprList (Grammar.ofLevel (n + 2)) input =
      .ok ([.node .literal [.token [.literal id span]], .token [.punct ',' false span'],
        .node .literal [.token [.literal text span'']]], { input with rest := [] }) := by
  have hcomma : takeChars ",".toList [.punct ',' joint span', .literal text span''] =
      some ([.punct ',' false span'], [.literal text span'']) := rfl
  unfold exprList commaList separated repeatStep
  rw [run_ahead, hin]
  refine @run_repeat_more _ input { input with rest := [.literal text span''] } _ [_, _] [_] 3 ?_
    (run_repeat_end 2 ?_)
  · rw [run_look, hin]
    refine (run_bind (run_expr_literal hin (.inr ⟨joint, span', _, rfl⟩))).trans ?_
    rw [run_look]
    exact run_bind (run_punct hcomma)
  · rw [run_look]
    exact run_bind (run_expr_literal rfl (.inl rfl))

theorem ensures_exprList_literals {n : Nat} {input : Input} {id text : List Char}
    {span span' span'' : Span} {joint : Bool}
    (hin : input.rest = [.literal id span, .punct ',' joint span', .literal text span'']) :
    Ensures (exprList (Grammar.ofLevel n)) input fun ts _ =>
      ts = [.node .literal [.token [.literal id span]], .token [.punct ',' false span'],
        .node .literal [.token [.literal text span'']]] := by
  -- without levels enough for one literal nothing is read
  have hlow : n < 2 → Ensures (exprList (Grammar.ofLevel n)) input fun _ _ => False := by
    intro hn
    refine .bind (.ahead ?_)
    rw [hin, repeatFuel]
    refine .bind (.bind (.look ?_))
    rw [hin]
    refine .bind ?_
    rcases (by omega : n = 0 ∨ n = 1) with rfl | rfl
    · exact .expected
    · exact .bind .expected
  intro ts next h
  by_cases hn : n < 2
  · exact (hlow hn ts next h).elim
  · obtain ⟨m, rfl⟩ : ∃ m, n = m + 2 := ⟨n - 2, by omega⟩
    rw [run_exprList_literals hin] at h
    cases h
    rfl

end InlineMarkup.Host
