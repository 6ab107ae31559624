import InlineMarkup.Proofs.Generated.Translation
import InlineMarkup.Proofs.Host.Enclosed

/-!
The values of handlers. A value is an expression, and may be written in braces, which are then left
out. They are left out by their looks alone: of a value that is an expression with its braces, what
is between them need not be one.
-/

set_option autoImplicit false

namespace InlineMarkup.Generated

open InlineMarkup.Text InlineMarkup.Markup

/-- A value that begins with a brace and ends with one, blanks around it left out, and the text
between the two. -/
def Braced (value inner : List Char) : Prop :=
  trim value = '\x7b' :: (inner ++ ['\x7d'])

instance (value inner : List Char) : Decidable (Braced value inner) :=
  inferInstanceAs (Decidable (_ = _))

theorem Braced.stripBraces_eq {value inner : List Char} (h : Braced value inner) :
    stripBraces value = inner := by
  unfold stripBraces
  rw [h]
  simp

theorem stripBraces_of_bare {value : List Char} (h : ∀ inner, ¬Braced value inner) :
    stripBraces value = trim value := by
  unfold stripBraces
  split
  · rename_i inner hvalue
    split
    · rename_i hlast
      obtain ⟨front, rfl⟩ := List.getLast?_eq_some_iff.1 hlast
      exact absurd hvalue (h front)
    · exact hvalue.symm
  · rfl

theorem ofAttribute_handler {config : Config} {a : Attribute} {handler : Host.Path}
    (hclass : a.name ≠ config.classAttribute) (hspread : a.name ≠ config.spreadAttribute)
    (hhandler : config.handlers.get? a.name = some handler) (tag : List Char) :
    ofAttribute config tag a = (ofCode (stripBraces a.value)).map fun g => .call handler [g] := by
  unfold ofAttribute
  rw [if_neg hclass, if_neg hspread, hhandler]
  rfl

/-- The argument of a handler whose value is an expression. It is that expression, unless the value
begins with a brace and ends with one. Such a value is accepted just if it is a block and the text
between its braces is one expression by itself, which is then the argument. If its braces do not
match each other it is no block, and what is between them cannot even be read. -/
theorem handler_argument_iff {config : Config} {a : Attribute} {handler : Host.Path}
    {expr : Host.Tree} (hclass : a.name ≠ config.classAttribute)
    (hspread : a.name ≠ config.spreadAttribute)
    (hhandler : config.handlers.get? a.name = some handler)
    (hexpr : Host.parseExpr (trim a.value) = .ok expr) (tag : List Char) :
    ((∀ inner, ¬Braced a.value inner) →
      ofAttribute config tag a = .ok (.call handler [.host expr (trim a.value)])) ∧
    ∀ inner, Braced a.value inner →
      (∀ g, ofAttribute config tag a = .ok g ↔ expr.is .block = true ∧
        ∃ e, Host.parseExpr (trim inner) = .ok e ∧ g = .call handler [.host e (trim inner)]) ∧
      (expr.is .block = false → ofAttribute config tag a = .error (.generation
        (.invalidExpression (String.ofList inner) Host.Complaint.unreadable.message))) := by
  rw [ofAttribute_handler hclass hspread hhandler]
  constructor
  · intro hbare
    rw [stripBraces_of_bare hbare, map_eq_ok]
    exact ⟨_, ofCode_eq_ok_iff.2 ⟨expr, by rwa [trim_trim], rfl⟩, by rw [trim_trim]⟩
  · intro inner hvalue
    rw [hvalue] at hexpr
    rw [hvalue.stripBraces_eq]
    -- braces that match make the value a block, and what is between others cannot be read
    rcases Host.parseExpr_enclosed hexpr with hblock | ⟨mark, hinner⟩
    · refine ⟨fun g => ?_, fun hnot => ?_⟩
      · rw [map_eq_ok]
        constructor
        · rintro ⟨code, hcode, rfl⟩
          obtain ⟨e, he, rfl⟩ := ofCode_eq_ok_iff.1 hcode
          exact ⟨hblock, e, he, rfl⟩
        · rintro ⟨-, e, he, rfl⟩
          exact ⟨_, ofCode_eq_ok_iff.2 ⟨e, he, rfl⟩, rfl⟩
      · rw [hblock] at hnot
        cases hnot
    · have hrefused : ofCode inner = .error (.generation (.invalidExpression (String.ofList inner)
          Host.Complaint.unreadable.message)) := by
        simp only [ofCode, hinner]
      rw [hrefused, hinner]
      exact ⟨fun g => by simp [Except.map], fun _ => rfl⟩

/-- A sum of two blocks is an expression in braces that do not match each other, and a block of two
statements is one that holds no expression; both are refused. -/
theorem handler_argument_iff_sum :
    (∃ expr, Host.parseExpr "\x7ba\x7d + \x7bb\x7d".toList = .ok expr ∧
      ofAttribute {} "p".toList ⟨"click".toList, "\x7ba\x7d + \x7bb\x7d".toList⟩ =
        .error (.generation (.invalidExpression "a\x7d + \x7bb"
          Host.Complaint.unreadable.message))) ∧
    ∃ expr, Host.parseExpr "\x7b f(); g \x7d".toList = .ok expr ∧ expr.is .block = true ∧
      ∀ g, ofAttribute {} "p".toList ⟨"click".toList, "\x7b f(); g \x7d".toList⟩ ≠ .ok g := by
  have hhandler : (Config.handlers {}).get? "click".toList =
      some (.ofNames ["event", "click"]) := rfl
  constructor
  · have h : (Host.parseExpr "\x7ba\x7d + \x7bb\x7d".toList).toOption.map (·.is .block) =
        some false := by
      decide +kernel
    obtain ⟨expr, hexpr, hblock⟩ := Option.map_eq_some_iff.1 h
    have hexpr := eq_ok_of_toOption hexpr
    have hresult := handler_argument_iff (a := ⟨"click".toList, "\x7ba\x7d + \x7bb\x7d".toList⟩)
      (by decide) (by decide) hhandler hexpr "p".toList
    exact ⟨expr, hexpr, (hresult.2 "a\x7d + \x7bb".toList (by decide)).2 hblock⟩
  · have h : (Host.parseExpr "\x7b f(); g \x7d".toList).toOption.map (·.is .block) =
        some true := by
      decide +kernel
    obtain ⟨expr, hexpr, hblock⟩ := Option.map_eq_some_iff.1 h
    have hexpr := eq_ok_of_toOption hexpr
    have hinner : (Host.parseExpr (trim " f(); g ".toList)).toOption.isSome = false := by
      decide +kernel
    have hresult := handler_argument_iff (a := ⟨"click".toList, "\x7b f(); g \x7d".toList⟩)
      (by decide) (by decide) hhandler hexpr "p".toList
    refine ⟨expr, hexpr, hblock, fun g hg => ?_⟩
    obtain ⟨-, e, he, -⟩ := ((hresult.2 " f(); g ".toList (by decide)).1 g).1 hg
    rw [he] at hinner
    cases hinner

end InlineMarkup.Generated
