import InlineMarkup.Proofs.Region.Items

/-!
Literals that the source does not end. A scan fails for lexical reasons just if it comes to one: each
step into such a literal is a step within it or the one that begins it.
-/

set_option autoImplicit false

namespace InlineMarkup

open InlineMarkup.Text InlineMarkup.Markup

namespace Scan

/-- No unescaped quote comes. -/
def NotClosed (quote : Char) (rest : List Char) : Prop :=
  ∀ p, p <+: rest → ¬QuotedBody quote p

/-- The text begins a string or an escaped character literal and does not end it. -/
inductive Unfinished (behind : List Char) : List Char → Prop where
  | string {body : List Char} : NotClosed '"' body → Unfinished behind ('"' :: body)
  | raw {hashes : Nat} {body : List Char} : AdmitsRaw behind → ¬rawEnd hashes <:+: body →
    Unfinished behind (rawStart hashes ++ body)
  | escaped {body : List Char} : NotClosed '\'' ('\\' :: body) →
    Unfinished behind ('\'' :: '\\' :: body)

section NotClosed

variable {quote : Char} {rest : List Char}

theorem notClosed_nil : NotClosed quote [] := by
  intro p hp hq
  cases List.prefix_nil.1 hp
  cases hq

theorem notClosed_backslash : NotClosed quote ['\\'] := by
  intro p hp hq
  rcases List.prefix_cons_iff.1 hp with rfl | ⟨t, rfl, ht⟩
  · cases hq
  · cases List.prefix_nil.1 ht
    cases hq with
    | close hne => exact hne rfl
    | char hne => exact hne rfl

theorem notClosed_escape {c : Char} :
    NotClosed quote ('\\' :: c :: rest) ↔ NotClosed quote rest := by
  constructor
  · intro h p hp hq
    exact h ('\\' :: c :: p) (by simpa using hp) hq.escape
  · intro h p hp hq
    cases hq with
    | close hne => exact hne (List.cons_prefix_cons.1 hp).1
    | escape hq => exact h _ (List.cons_prefix_cons.1 (List.cons_prefix_cons.1 hp).2).2 hq
    | char hne => exact hne (List.cons_prefix_cons.1 hp).1

theorem not_notClosed_quote (h : quote ≠ '\\') : ¬NotClosed quote (quote :: rest) :=
  fun hn => hn [quote] (by simp) (.close h)

theorem notClosed_char {c : Char} (hc : c ≠ '\\') (hquote : c ≠ quote) :
    NotClosed quote (c :: rest) ↔ NotClosed quote rest := by
  constructor
  · intro h p hp hq
    exact h (c :: p) (by simpa using hp) (hq.char hc hquote)
  · intro h p hp hq
    cases hq with
    | close => exact hquote (List.cons_prefix_cons.1 hp).1.symm
    | escape => exact hc (List.cons_prefix_cons.1 hp).1.symm
    | char _ _ hq => exact h _ (List.cons_prefix_cons.1 hp).2 hq

end NotClosed

/-- The source ends in the literal that is being read in a place and began at `openedAt`. -/
inductive Dangles : Place → List Char → Nat → Prop where
  | quoted {quote : Char} {openedAt : Nat} {rest : List Char} :
    NotClosed quote rest → Dangles (.quoted quote openedAt) rest openedAt
  | raw {hashes openedAt : Nat} {rest : List Char} :
    ¬rawEnd hashes <:+: rest → Dangles (.raw hashes openedAt) rest openedAt

section Dangles

variable {rest : List Char} {o : Nat}

@[simp] theorem not_dangles_code : ¬Dangles .code rest o := nofun

@[simp] theorem not_dangles_lineComment : ¬Dangles .lineComment rest o := nofun

@[simp] theorem not_dangles_blockComment {depth : Nat} : ¬Dangles (.blockComment depth) rest o :=
  nofun

@[simp] theorem dangles_quoted_iff {quote : Char} {openedAt : Nat} :
    Dangles (.quoted quote openedAt) rest o ↔
      NotClosed quote rest ∧ o = openedAt := by
  constructor
  · intro h
    cases h with
    | quoted h => exact ⟨h, rfl⟩
  · rintro ⟨h, rfl⟩
    exact .quoted h

@[simp] theorem dangles_raw_iff {hashes openedAt : Nat} :
    Dangles (.raw hashes openedAt) rest o ↔ ¬rawEnd hashes <:+: rest ∧ o = openedAt := by
  constructor
  · intro h
    cases h with
    | raw h => exact ⟨h, rfl⟩
  · rintro ⟨h, rfl⟩
    exact .raw h

end Dangles

section Unfinished

variable {behind after : List Char}

theorem unfinished_quote_iff :
    Unfinished behind ('"' :: after) ↔ NotClosed '"' after := by
  constructor
  · intro h
    cases h with
    | string h => exact h
  · exact .string

theorem unfinished_escaped_iff :
    Unfinished behind ('\'' :: '\\' :: after) ↔ NotClosed '\'' ('\\' :: after) := by
  constructor
  · intro h
    cases h with
    | escaped h => exact h
  · exact .escaped

theorem not_unfinished_apostrophe (h : ∀ rest, after ≠ '\\' :: rest) :
    ¬Unfinished behind ('\'' :: after) := by
  intro hu
  cases hu with
  | escaped => exact h _ rfl

theorem not_unfinished_of_ne {c : Char} (hquote : c ≠ '"') (hapostrophe : c ≠ '\'')
    (hr : c ≠ 'r') : ¬Unfinished behind (c :: after) := by
  generalize hs : c :: after = s
  intro h
  cases h with
  | string => exact hquote (List.cons.inj hs).1
  | escaped => exact hapostrophe (List.cons.inj hs).1
  | raw => exact hr (List.cons.inj hs).1

theorem unfinished_raw_iff {c : Char} (hquote : c ≠ '"') (hapostrophe : c ≠ '\'') :
    Unfinished behind (c :: after) ↔ ∃ hashes, rawHashes? behind (c :: after) = some hashes ∧
      ¬rawEnd hashes <:+: (c :: after).drop (hashes + 2) := by
  constructor
  · generalize hs : c :: after = s
    intro h
    cases h with
    | string => cases hs; exact absurd rfl hquote
    | escaped => cases hs; exact absurd rfl hapostrophe
    | @raw hashes body hadmits hbody =>
      refine ⟨hashes, rawHashes?_eq_some_iff.2 ⟨hadmits, body, rfl⟩, ?_⟩
      rwa [List.drop_left' (length_rawStart hashes)]
  · rintro ⟨hashes, hraw, hbody⟩
    obtain ⟨hadmits, body, hs⟩ := rawHashes?_eq_some_iff.1 hraw
    rw [← hs, List.drop_left' (length_rawStart hashes)] at hbody
    rw [← hs]
    exact .raw hadmits hbody

end Unfinished

section Steps

variable {s next : State} {piece : Piece} {c : Char} {after : List Char} {o : Nat}

theorem Rule.dangles_iff {n : Nat} {place : Place} {context : Context}
    (h : Rule s c after n place context) (hrest : s.rest = c :: after) :
    Dangles place (s.rest.drop n) o ↔ Dangles s.place s.rest o ∨
      s.place = .code ∧ Unfinished s.behind s.rest ∧ o = byteLength s.behind := by
  rw [hrest]
  cases h with
  | string hplace hc => simp [hplace, hc, unfinished_quote_iff, State.offset]
  | escaped hplace hc hescape =>
    obtain ⟨rest, rfl⟩ := List.head?_eq_some_iff.1 hescape
    simp [hplace, hc, unfinished_escaped_iff, State.offset]
  | character hplace hc hescape | lifetime hplace hc hescape =>
    have hnot : ∀ rest, after ≠ '\\' :: rest := by
      rintro rest rfl
      exact hescape rfl
    simp [hplace, hc, not_unfinished_apostrophe hnot]
  | lineComment hplace hc | blockComment hplace hc | bracket hplace hc =>
    simp [hplace, hc, not_unfinished_of_ne]
  | rawString hplace hinert hraw =>
    rw [hrest] at hraw
    simp [hplace, unfinished_raw_iff hinert.not_quote hinert.not_apostrophe, hraw, State.offset]
  | plain hplace hinert hraw =>
    rw [hrest] at hraw
    simp [hplace, unfinished_raw_iff hinert.not_quote hinert.not_apostrophe, hraw]
  | lineEnd hplace | inLine hplace | nested hplace | inBlock hplace => simp [hplace]
  | blockEnd hplace =>
    unfold outside
    split <;> simp [hplace]
  | escape hplace hc =>
    cases after with
    | nil => simp [hplace, hc, notClosed_nil, notClosed_backslash]
    | cons d after => simp [hplace, hc, notClosed_escape]
  | quoteEnd hplace hc hquote =>
    subst hquote
    simp [hplace, not_notClosed_quote hc]
  | inQuoted hplace hc hquote => simp [hplace, notClosed_char hc hquote]
  | rawStringEnd hplace hend =>
    have hinfix := (rawEnd_prefix_cons.2 hend).isInfix
    simp [hplace, hinfix]
  | inRawString hplace hend =>
    rw [← rawEnd_prefix_cons] at hend
    simp [hplace, List.infix_cons_iff, hend]

/-- A step comes into a literal that is not ended only from within it or from where it begins. -/
theorem dangles_step_iff (hrest : s.rest = c :: after)
    (hstep : step s c after = .ok (piece, next)) :
    Dangles next.place next.rest o ↔ Dangles s.place s.rest o ∨
      s.place = .code ∧ Unfinished s.behind s.rest ∧ o = byteLength s.behind := by
  rcases step_eq_ok hstep with ⟨n, place, context, hrule, -, rfl⟩ | ⟨captured, hoffers, -, -, rfl⟩
  · exact hrule.dangles_iff hrest
  · simp [State.past, hoffers.place_eq, hrest, hoffers.char_eq, not_unfinished_of_ne]

theorem step_ne_lexical {e : LexicalError} : step s c after ≠ .error (.lexical e) := by
  intro h
  obtain ⟨-, fault, -, he⟩ := step_eq_error h
  cases he

theorem step_ok_of_not_offers (after : List Char) (h : ¬Offers s c) : ∃ p, step s c after = .ok p := by
  cases hstep : step s c after with
  | ok p => exact ⟨p, rfl⟩
  | error e => exact absurd (step_eq_error hstep).1 h

end Steps

theorem dangles_of_finish {source : List Char} {place : Place} {e : LexicalError}
    (h : finish source place = .error (.lexical e)) :
    ∃ o, e.openedAt = some o ∧ Dangles place [] o := by
  cases place with
  | quoted quote openedAt =>
    cases h
    exact ⟨openedAt, rfl, .quoted notClosed_nil⟩
  | raw hashes openedAt =>
    cases h
    exact ⟨openedAt, rfl, .raw (by simp [rawEnd])⟩
  | code => cases h
  | lineComment => cases h
  | blockComment => cases h

theorem finish_of_dangles {source rest : List Char} {place : Place} {o : Nat}
    (h : Dangles place rest o) :
    ∃ e, finish source place = .error (.lexical e) ∧ e.openedAt = some o := by
  cases h with
  | quoted => exact ⟨_, rfl, rfl⟩
  | raw => exact ⟨_, rfl, rfl⟩

/-- A scan fails for lexical reasons only where a literal is not ended: the one it is in, or one that
begins later. -/
theorem exists_unfinished_of_lexical {source : List Char} {fuel : Nat} {s : State} {e : LexicalError}
    (hfuel : s.rest.length < fuel) (h : readFrom source fuel s = .error (.lexical e)) :
    ∃ o, e.openedAt = some o ∧ (Dangles s.place s.rest o ∨ ∃ ps t, Runs s ps t ∧ t.place = .code ∧
      Unfinished t.behind t.rest ∧ o = byteLength t.behind) := by
  induction fuel generalizing s with
  | zero => omega
  | succ fuel ih =>
    cases hrest : s.rest with
    | nil =>
      simp only [readFrom, hrest] at h
      obtain ⟨o, hopened, hdangles⟩ := dangles_of_finish h
      exact ⟨o, hopened, .inl hdangles⟩
    | cons c after =>
      cases hstep : step s c after with
      | error err =>
        rw [readFrom_step_error fuel hrest hstep] at h
        cases h
        exact absurd hstep step_ne_lexical
      | ok p =>
        obtain ⟨piece, next⟩ := p
        have hlt := length_lt_of_step hrest hstep
        rw [readFrom_step fuel hrest hstep] at h
        obtain ⟨o, hopened, hdangles | ⟨ps, t, hruns, ht⟩⟩ := ih (by omega) (map_eq_error.1 h)
        · rw [dangles_step_iff hrest hstep, hrest] at hdangles
          refine ⟨o, hopened, hdangles.imp_right fun hs => ⟨[], s, .done s, ?_⟩⟩
          rwa [hrest]
        · exact ⟨o, hopened, .inr ⟨piece :: ps, t, .step hrest hstep hruns, ht⟩⟩

theorem readOn_of_dangles (source : List Char) {s : State} {o : Nat}
    (h : Dangles s.place s.rest o) :
    ∃ e, readOn source s = .error (.lexical e) ∧ e.openedAt = some o := by
  induction hlen : s.rest.length using Nat.strongRecOn generalizing s with
  | ind n ih =>
    cases hrest : s.rest with
    | nil =>
      rw [readOn_nil hrest]
      exact finish_of_dangles h
    | cons c after =>
      have hnot : ¬Offers s c := fun hoffers => by
        rw [hoffers.place_eq] at h
        cases h
      obtain ⟨⟨piece, next⟩, hstep⟩ := step_ok_of_not_offers after hnot
      have hlt := length_lt_of_step hrest hstep
      have hnext := (dangles_step_iff hrest hstep).2 (.inl h)
      obtain ⟨e, hread, hopened⟩ := ih _ (hlen ▸ hlt) hnext rfl
      exact ⟨e, by rw [readOn_step hrest hstep, map_eq_error, hread], hopened⟩

theorem Unfinished.head_ne {behind rest : List Char} (h : Unfinished behind rest) :
    ∃ c after, rest = c :: after ∧ c ≠ '<' := by
  cases h with
  | string => exact ⟨'"', _, rfl, by decide⟩
  | raw => exact ⟨'r', _, rfl, by decide⟩
  | escaped => exact ⟨'\'', _, rfl, by decide⟩

theorem readOn_of_unfinished (source : List Char) {s : State} (hplace : s.place = .code)
    (h : Unfinished s.behind s.rest) :
    ∃ e, readOn source s = .error (.lexical e) ∧ e.openedAt = some (byteLength s.behind) := by
  obtain ⟨c, after, hrest, hc⟩ := h.head_ne
  obtain ⟨⟨piece, next⟩, hstep⟩ :=
    step_ok_of_not_offers after fun hoffers => hc hoffers.char_eq
  have hnext := (dangles_step_iff hrest hstep).2 (.inr ⟨hplace, h, rfl⟩)
  obtain ⟨e, hread, hopened⟩ := readOn_of_dangles source hnext
  exact ⟨e, by rw [readOn_step hrest hstep, map_eq_error, hread], hopened⟩

end Scan

open InlineMarkup.Scan

/-- The scan of a source comes to `s`, in code, after the pieces `ps`. -/
structure Reaches (source : List Char) (ps : List Piece) (s : State) : Prop where
  run : Runs (start source) ps s
  place_eq : s.place = .code

/-- Wherever a scan is in code before a comment, a string or a character literal, it keeps the item,
finds no region in it and goes on in code right behind it. It fails for lexical reasons just if it
comes to a literal that the source does not end, and says at which byte offset that one begins. -/
theorem scan_items (placeholder : Host.Path) (source : List Char) :
    (∀ ps s item rest, Reaches source ps s → s.rest = item ++ rest → Item s.behind item →
      ∃ t, Echoes s item t ∧ t.place = .code ∧ t.rest = rest ∧
        scan placeholder source = (readOn source t).map fun more =>
          ⟨annotateFrom placeholder 1 ps ++
              (item ++ annotateFrom placeholder (1 + (regionsOf ps).length) more),
            ⟨regionsOf ps ++ regionsOf more⟩⟩) ∧
    (∀ e, scan placeholder source = .error (.lexical e) →
      ∃ ps s, Reaches source ps s ∧ source = s.behind.reverse ++ s.rest ∧
        Unfinished s.behind s.rest ∧ e.openedAt = some (byteLength s.behind)) ∧
    ∀ ps s, Reaches source ps s → Unfinished s.behind s.rest →
      ∃ e, scan placeholder source = .error (.lexical e) ∧
        e.openedAt = some (byteLength s.behind) := by
  refine ⟨?_, ?_, ?_⟩
  · intro ps s item rest hs hrest hitem
    obtain ⟨t, ht, hcode⟩ := echoes_item hitem hrest hs.place_eq
    obtain ⟨qs, hqs, hnone, htext⟩ := ht.run
    refine ⟨t, ht, hcode, ht.next_rest hrest, ?_⟩
    -- the item brings pieces but no region, so later regions keep their ids
    rw [scan_eq_map, (hs.run.trans hqs).readOn_eq]
    cases readOn source t with
    | error e => rfl
    | ok more =>
      simp only [Except.map, annotateFrom_append, regionsOf_append, hnone, htext,
        annotateFrom_of_regionsOf_nil placeholder _ hnone, List.append_assoc, List.nil_append,
        List.length_nil, Nat.add_zero]
  · intro e he
    rw [scan_eq_map, map_eq_error] at he
    obtain ⟨o, hopened, hdangles | ⟨ps, s, hruns, hplace, hs, rfl⟩⟩ :=
      exists_unfinished_of_lexical (Nat.lt_succ_self _) he
    · cases hdangles
    · obtain ⟨hrest, hbehind⟩ := hruns.rest_eq
      refine ⟨ps, s, ⟨hruns, hplace⟩, ?_, hs, hopened⟩
      simpa [hbehind, start] using hrest
  · intro ps s hs hunfinished
    obtain ⟨e, hread, hopened⟩ := readOn_of_unfinished source hs.place_eq hunfinished
    exact ⟨e, by rw [scan_eq_map, hs.run.readOn_eq, map_eq_error, map_eq_error, hread], hopened⟩

/-- A raw string with text that ends it but for a hash, and a character literal with an escape and no
end. -/
theorem scan_items_raw :
    (∃ s t, Reaches "(br##\"<a>\"#\"##, <p/>)".toList [.kept ['('], .kept ['b']] s ∧
      Item s.behind "r##\"<a>\"#\"##".toList ∧ Echoes s "r##\"<a>\"#\"##".toList t ∧
      t.place = .code ∧ t.rest = ", <p/>)".toList) ∧
    ∃ e, scan (.ofNames ["html"]) "('\\'".toList = .error (.lexical e) ∧ e.openedAt = some 1 := by
  constructor
  · let s : State :=
      { behind := ['b', '('], rest := "r##\"<a>\"#\"##, <p/>)".toList
        context := { last := some 'b', beforeLast := some '(', word := ['b'] } }
    have hs : Reaches "(br##\"<a>\"#\"##, <p/>)".toList [.kept ['('], .kept ['b']] s :=
      ⟨.step rfl rfl (.step rfl rfl (.done s)), rfl⟩
    have hitem : Item s.behind "r##\"<a>\"#\"##".toList :=
      @Item.raw _ 2 "<a>\"#".toList (.lettered (.inl rfl) (by decide)) (by decide)
    obtain ⟨t, ht, hcode, hrest, -⟩ :=
      (scan_items (.ofNames ["html"]) _).1 _ s _ ", <p/>)".toList hs rfl hitem
    exact ⟨s, t, hs, hitem, ht, hcode, hrest⟩
  · let s : State :=
      { behind := ['('], rest := "'\\'".toList, context := { last := some '(' } }
    have hs : Reaches "('\\'".toList [.kept ['(']] s := ⟨.step rfl rfl (.done s), rfl⟩
    exact (scan_items (.ofNames ["html"]) _).2.2 _ s hs (.escaped (notClosed_escape.2 notClosed_nil))

end InlineMarkup
