import InlineMarkup.Segment
import InlineMarkup.Proofs.Basic

/-!
Texts with blocks of code, as a grammar: literal text without braces, and blocks in braces with the
literal text behind each (`Template`). Splitting accepts exactly these, with the segments that the
grammar gives them. Every other text begins with a template and goes on with something that none can
go on with (`Violation`), and this is the error.
-/

set_option autoImplicit false

namespace InlineMarkup.Segment

open InlineMarkup.Text

def IsLiteral (text : List Char) : Prop :=
  '\x7b' ∉ text ∧ '\x7d' ∉ text

def IsCode (code : List Char) : Prop :=
  '\x7b' ∉ code ∧ '\x7d' ∉ code ∧ '\n' ∉ code

/-- Code begins with a letter and one colon, and the letter is not that of a modifier. -/
def HasUnknownModifier (code : List Char) : Prop :=
  ∃ letter c rest, code = letter :: ':' :: c :: rest ∧ letter.isLower = true ∧ letter ≠ 's' ∧ c ≠ ':'

/-- Literal text, and blocks with the literal text behind each. -/
structure Template where
  first : List Char
  blocks : List (List Char × List Char)
  first_isLiteral : IsLiteral first
  blocks_fit : ∀ b ∈ blocks, IsCode b.1 ∧ ¬ HasUnknownModifier b.1 ∧ IsLiteral b.2

/-- The lines of literal text that are not blank, trimmed. -/
def literalParts (text : List Char) : List Segment :=
  (((text.splitOn '\n').map trim).filter (· ≠ [])).map .literal

/-- What a block stands for. One with `s:` in front of other code than a colon shows its value as
text, and one without code stands for nothing. -/
def blockParts : List Char → List Segment
  | [] => []
  | 's' :: ':' :: c :: rest =>
    if c = ':' then [.embedded ('s' :: ':' :: c :: rest) none]
    else [.embedded (c :: rest) (some .text)]
  | code => [.embedded code none]

namespace Template

def text (t : Template) : List Char :=
  t.first ++ t.blocks.flatMap fun b => '\x7b' :: b.1 ++ '\x7d' :: b.2

def parts (t : Template) : List Segment :=
  literalParts t.first ++ t.blocks.flatMap fun b => blockParts b.1 ++ literalParts b.2

def segments (t : Template) : List Segment :=
  if t.parts = [] then [.literal []] else t.parts

end Template

/-- What stands at `position` of `input`, right after a template, if no template goes on with it:
the error that it is. -/
inductive Violation (input : List Char) (position : Nat) : List Char → LexicalError → Prop
  | closed {rest : List Char} :
    Violation input position ('\x7d' :: rest)
      { fault := .unexpectedCloseBrace, position, snippet := String.ofList input }
  | nested {code rest : List Char} : IsCode code →
    Violation input position ('\x7b' :: code ++ '\x7b' :: rest)
      { fault := .nestedEmbeddedCode, position := position + 1 + byteLength code,
        snippet := String.ofList input, openedAt := some position }
  | newline {code rest : List Char} : IsCode code →
    Violation input position ('\x7b' :: code ++ '\n' :: rest)
      { fault := .newlineInEmbeddedCode, position := position + 1 + byteLength code,
        snippet := String.ofList input, openedAt := some position }
  | modifier {letter c : Char} {more rest : List Char} :
    letter.isLower = true → letter ≠ 's' → c ≠ ':' → IsCode (letter :: ':' :: c :: more) →
    Violation input position ('\x7b' :: (letter :: ':' :: c :: more) ++ '\x7d' :: rest)
      (LexicalError.invalidModifier (position + 1) letter
        (String.ofList (letter :: ':' :: c :: more)))
  | unterminated {code : List Char} : IsCode code →
    Violation input position ('\x7b' :: code)
      (LexicalError.unterminatedEmbedded (byteLength input) position (String.ofList input))

section Steps

variable (input run s : List Char) (position openedAt : Nat)

@[simp] theorem readFrom_end :
    readFrom input .literal run position [] = .ok (ofLiteral run) := rfl

@[simp] theorem readFrom_open :
    readFrom input .literal run position ('\x7b' :: s) =
      (readFrom input (.embedded position) [] (position + 1) s).map (ofLiteral run ++ ·) := rfl

@[simp] theorem readFrom_stray :
    readFrom input .literal run position ('\x7d' :: s) =
      .error { fault := .unexpectedCloseBrace, position, snippet := String.ofList input } := rfl

@[simp] theorem readFrom_lineFeed :
    readFrom input .literal run position ('\n' :: s) =
      (readFrom input .literal [] (position + 1) s).map (ofLiteral run ++ ·) := rfl

theorem readFrom_close :
    readFrom input (.embedded openedAt) run position ('\x7d' :: s) =
      (ofCode (openedAt + 1) run >>= fun block =>
        (readFrom input .literal [] (position + 1) s).map (block ++ ·)) := by
  change (ofCode (openedAt + 1) run >>= fun block =>
    readFrom input .literal [] (position + 1) s >>= fun rest => .ok (block ++ rest)) = _
  cases readFrom input .literal [] (position + 1) s <;> rfl

end Steps

def EndsRun (s : List Char) : Prop :=
  ∀ c ∈ s.head?, c = '\x7b' ∨ c = '\x7d' ∨ c = '\n'

theorem map_append_append {ε α : Type} (x : Except ε (List α)) (as bs : List α) :
    (x.map (bs ++ ·)).map (as ++ ·) = x.map (as ++ bs ++ ·) := by
  cases x <;> simp [Except.map]

@[simp] theorem ofLiteral_nil : ofLiteral [] = [] := rfl

theorem literalParts_of_lineFeed_not_mem {text : List Char} (h : '\n' ∉ text) :
    literalParts text = ofLiteral text := by
  rw [literalParts, List.splitOn_eq_singleton h, ofLiteral]
  split <;> simp_all

theorem literalParts_append_lineFeed (s t : List Char) :
    literalParts (s ++ '\n' :: t) = literalParts s ++ literalParts t := by
  simp [literalParts, List.splitOn_append_cons_self]

theorem readFrom_of_endsRun {input run s : List Char} {position : Nat} (hs : EndsRun s) :
    readFrom input .literal run position s =
      (readFrom input .literal [] position s).map (ofLiteral run ++ ·) := by
  cases s with
  | nil => simp [Except.map]
  | cons c s =>
    rcases hs c rfl with rfl | rfl | rfl
    · rw [readFrom_open, readFrom_open, map_append_append, ofLiteral_nil, List.append_nil]
    · rfl
    · rw [readFrom_lineFeed, readFrom_lineFeed, map_append_append, ofLiteral_nil, List.append_nil]

theorem readFrom_literal {input run l s : List Char} {position : Nat} (hl : IsLiteral l)
    (hrun : '\n' ∉ run) (hs : EndsRun s) :
    readFrom input .literal run position (l ++ s) =
      (readFrom input .literal [] (position + byteLength l) s).map
        (literalParts (run ++ l) ++ ·) := by
  induction l generalizing run position with
  | nil =>
    rw [List.append_nil, literalParts_of_lineFeed_not_mem hrun]
    exact readFrom_of_endsRun hs
  | cons c l ih =>
    obtain ⟨hopen, hclose⟩ : '\x7b' ∉ c :: l ∧ '\x7d' ∉ c :: l := hl
    rw [List.mem_cons, not_or] at hopen hclose
    have hl' : IsLiteral l := ⟨hopen.2, hclose.2⟩
    rw [List.cons_append, byteLength_cons, ← Nat.add_assoc]
    by_cases hc : c = '\n'
    · subst hc
      rw [readFrom_lineFeed, ih hl' List.not_mem_nil, map_append_append,
        literalParts_append_lineFeed, literalParts_of_lineFeed_not_mem hrun, List.nil_append]
      rfl
    · have hrun' : '\n' ∉ run ++ [c] := by simp [hrun, Ne.symm hc]
      have hstep : readFrom input .literal run position (c :: (l ++ s)) =
          readFrom input .literal (run ++ [c]) (position + c.utf8Size) (l ++ s) := by
        rw [readFrom]
        simp [hc, Ne.symm hopen.1, Ne.symm hclose.1]
      rw [hstep, ih hl' hrun', List.append_assoc, List.singleton_append]

theorem readFrom_code {code : List Char} (h : IsCode code) (input run s : List Char)
    (openedAt position : Nat) :
    readFrom input (.embedded openedAt) run position (code ++ s) =
      readFrom input (.embedded openedAt) (run ++ code) (position + byteLength code) s := by
  induction code generalizing run position with
  | nil => simp
  | cons c code ih =>
    obtain ⟨hopen, hclose, hline⟩ : '\x7b' ∉ c :: code ∧ '\x7d' ∉ c :: code ∧ '\n' ∉ c :: code := h
    rw [List.mem_cons, not_or] at hopen hclose hline
    rw [List.cons_append, readFrom]
    simp only [Ne.symm hopen.1, Ne.symm hclose.1, Ne.symm hline.1, if_false]
    rw [ih ⟨hopen.2, hclose.2, hline.2⟩, byteLength_cons, Nat.add_assoc, List.append_assoc,
      List.singleton_append]

theorem ofCode_of_known {code : List Char} (h : ¬ HasUnknownModifier code) (position : Nat) :
    ofCode position code = .ok (blockParts code) := by
  unfold ofCode
  split
  · rfl
  · rename_i letter c rest
    by_cases hc : letter.isLower && c != ':'
    · have hs : letter = 's' := by
        by_contra hs
        simp at hc
        exact h ⟨letter, c, rest, rfl, hc.1, hs, hc.2⟩
      subst hs
      simp_all [blockParts, Modifier.ofLetter?]
    · rw [if_neg hc]
      by_cases hs : letter = 's'
      · subst hs
        simp at hc
        simp [blockParts, hc]
      · simp [blockParts, hs]
  · unfold blockParts
    split <;> simp_all

theorem ofCode_of_unknown {letter c : Char} {more : List Char} (hl : letter.isLower = true)
    (hs : letter ≠ 's') (hc : c ≠ ':') (position : Nat) :
    ofCode position (letter :: ':' :: c :: more) =
      .error (LexicalError.invalidModifier position letter
        (String.ofList (letter :: ':' :: c :: more))) := by
  simp [ofCode, Modifier.ofLetter?, hl, hs, hc]

theorem readFrom_block {code : List Char} (h : IsCode code) (input s : List Char) (position : Nat) :
    readFrom input .literal [] position ('\x7b' :: code ++ '\x7d' :: s) =
      (ofCode (position + 1) code >>= fun block =>
        (readFrom input .literal [] (position + byteLength ('\x7b' :: code ++ ['\x7d'])) s).map
          (block ++ ·)) := by
  have hlength : position + byteLength ('\x7b' :: code ++ ['\x7d']) =
      position + 1 + byteLength code + 1 := by
    have hbrace : '\x7b'.utf8Size = 1 ∧ '\x7d'.utf8Size = 1 := ⟨rfl, rfl⟩
    simp [hbrace]
    omega
  rw [hlength, List.cons_append, readFrom_open, readFrom_code h, List.nil_append, readFrom_close]
  cases ofCode (position + 1) code with
  | error e => rfl
  | ok block =>
    change Except.map _ (Except.map _ _) = Except.map _ _
    rw [map_append_append, ofLiteral_nil, List.nil_append]

namespace Template

def ofText (l : List Char) (hl : IsLiteral l) : Template where
  first := l
  blocks := []
  first_isLiteral := hl
  blocks_fit := fun _ hb => absurd hb List.not_mem_nil

def cons (l code : List Char) (hl : IsLiteral l) (hcode : IsCode code)
    (hknown : ¬ HasUnknownModifier code) (t : Template) : Template where
  first := l
  blocks := (code, t.first) :: t.blocks
  first_isLiteral := hl
  blocks_fit := List.forall_mem_cons.2 ⟨⟨hcode, hknown, t.first_isLiteral⟩, t.blocks_fit⟩

theorem induct {motive : Template → Prop}
    (ofText : ∀ l hl, motive (ofText l hl))
    (cons : ∀ l code hl hcode hknown t, motive t → motive (cons l code hl hcode hknown t))
    (t : Template) : motive t := by
  obtain ⟨first, blocks, hfirst, hblocks⟩ := t
  induction blocks generalizing first with
  | nil => exact ofText first hfirst
  | cons b blocks ih =>
    obtain ⟨⟨hcode, hknown, hl⟩, hrest⟩ := List.forall_mem_cons.1 hblocks
    exact cons first b.1 hfirst hcode hknown _ (ih b.2 hl hrest)

section Equations

variable {l code : List Char} {hl : IsLiteral l} {hcode : IsCode code}
  {hknown : ¬ HasUnknownModifier code} {t : Template}

@[simp] theorem text_ofText : (ofText l hl).text = l :=
  List.append_nil l

@[simp] theorem parts_ofText : (ofText l hl).parts = literalParts l :=
  List.append_nil _

@[simp] theorem text_cons :
    (cons l code hl hcode hknown t).text = l ++ ('\x7b' :: code ++ '\x7d' :: t.text) := by
  simp [text, cons]

@[simp] theorem parts_cons :
    (cons l code hl hcode hknown t).parts = literalParts l ++ (blockParts code ++ t.parts) := by
  simp [parts, cons]

end Equations

end Template

/-- A template is read to its end, where the text ends or another run begins. -/
theorem readFrom_template {s : List Char} (hs : EndsRun s) (t : Template) (input : List Char)
    (position : Nat) :
    readFrom input .literal [] position (t.text ++ s) =
      (readFrom input .literal [] (position + byteLength t.text) s).map (t.parts ++ ·) := by
  induction t using Template.induct generalizing position with
  | ofText l hl =>
    rw [Template.text_ofText, Template.parts_ofText, readFrom_literal hl List.not_mem_nil hs,
      List.nil_append]
  | cons l code hl hcode hknown t ih =>
    -- the brace ends the run before the block, and the rest is a template again
    have hrun : EndsRun ('\x7b' :: code ++ '\x7d' :: (t.text ++ s)) := by simp [EndsRun]
    have hlength : position + byteLength l + byteLength ('\x7b' :: code ++ ['\x7d']) +
        byteLength t.text = position + byteLength (l ++ ('\x7b' :: code ++ '\x7d' :: t.text)) := by
      simp only [byteLength_append, byteLength_cons, byteLength_nil]
      omega
    have hassoc : l ++ ('\x7b' :: code ++ '\x7d' :: t.text) ++ s =
        l ++ ('\x7b' :: code ++ '\x7d' :: (t.text ++ s)) := by simp
    rw [Template.text_cons, Template.parts_cons, hassoc,
      readFrom_literal hl List.not_mem_nil hrun, readFrom_block hcode, ofCode_of_known hknown,
      ← hlength]
    change Except.map _ (Except.map _ (readFrom _ _ _ _ _)) = _
    rw [ih, map_append_append, map_append_append, List.nil_append, List.append_assoc]

theorem Violation.readFrom_eq {input s : List Char} {position : Nat} {e : LexicalError}
    (h : Violation input position s e) (hend : position + byteLength s = byteLength input) :
    readFrom input .literal [] position s = .error e := by
  cases h with
  | closed => exact readFrom_stray ..
  | nested hcode =>
    rw [List.cons_append, readFrom_open, readFrom_code hcode]
    rfl
  | newline hcode =>
    rw [List.cons_append, readFrom_open, readFrom_code hcode]
    rfl
  | modifier hl hs hc hcode =>
    rw [readFrom_block hcode, ofCode_of_unknown hl hs hc]
    rfl
  | @unterminated code hcode =>
    have hread := readFrom_code hcode input [] [] position (position + 1)
    have hlast : position + 1 + byteLength code = byteLength input := by
      rw [← hend, byteLength_cons, Nat.add_assoc]
      rfl
    rw [List.append_nil, hlast] at hread
    rw [readFrom_open, hread]
    rfl

theorem Violation.endsRun {input s : List Char} {position : Nat} {e : LexicalError}
    (h : Violation input position s e) : EndsRun s := by
  cases h <;> simp [EndsRun]

theorem exists_run (p : Char → Bool) (s : List Char) :
    ∃ run rest, s = run ++ rest ∧ (∀ c ∈ run, p c = false) ∧ ∀ c ∈ rest.head?, p c = true := by
  refine ⟨_, _, (List.takeWhile_append_dropWhile (p := fun c => !p c)).symm, fun c hc => ?_,
    fun c hc => ?_⟩
  · simpa using List.mem_takeWhile_imp hc
  · have := List.head?_dropWhile_not (fun c => !p c) s
    rw [Option.mem_def] at hc
    simpa [hc] using this

theorem violation_or_block (input : List Char) (position : Nat) {c : Char} (s : List Char)
    (hc : c = '\x7b' ∨ c = '\x7d') :
    (∃ e, Violation input position (c :: s) e) ∨
      ∃ code rest, c :: s = '\x7b' :: code ++ '\x7d' :: rest ∧ IsCode code ∧
        ¬ HasUnknownModifier code := by
  rcases hc with rfl | rfl
  · obtain ⟨code, rest, rfl, hrun, hend⟩ :=
      exists_run (fun c => c == '\x7b' || c == '\x7d' || c == '\n') s
    have hcode : IsCode code :=
      ⟨fun h => by simpa using hrun _ h, fun h => by simpa using hrun _ h,
        fun h => by simpa using hrun _ h⟩
    cases rest with
    | nil =>
      rw [List.append_nil]
      exact .inl ⟨_, .unterminated hcode⟩
    | cons c rest =>
      have hc : (c = '\x7b' ∨ c = '\x7d') ∨ c = '\n' := by simpa using hend c rfl
      rcases hc with (rfl | rfl) | rfl
      · exact .inl ⟨_, .nested hcode⟩
      · by_cases hknown : HasUnknownModifier code
        · obtain ⟨letter, c, more, rfl, hlower, hs, hcolon⟩ := hknown
          exact .inl ⟨_, .modifier hlower hs hcolon hcode⟩
        · exact .inr ⟨code, rest, rfl, hcode, hknown⟩
      · exact .inl ⟨_, .newline hcode⟩
  · exact .inl ⟨_, .closed⟩

/-- Every text is a template, or begins with one and goes on with a violation. -/
theorem exists_template (input : List Char) (position : Nat) (s : List Char) :
    ∃ (t : Template) (rest : List Char), s = t.text ++ rest ∧
      (rest = [] ∨ ∃ e, Violation input (position + byteLength t.text) rest e) := by
  induction hn : s.length using Nat.strong_induction_on generalizing position s with
  | _ n ih =>
  obtain ⟨l, rest, rfl, hrun, hrest⟩ := exists_run (fun c => c == '\x7b' || c == '\x7d') s
  have hl : IsLiteral l := ⟨fun h => by simpa using hrun _ h, fun h => by simpa using hrun _ h⟩
  cases rest with
  | nil => exact ⟨.ofText l hl, [], by simp, .inl rfl⟩
  | cons c rest =>
    have hc : c = '\x7b' ∨ c = '\x7d' := by simpa using hrest c rfl
    rcases violation_or_block input (position + byteLength l) rest hc with
      ⟨e, he⟩ | ⟨code, after, hblock, hcode, hknown⟩
    · exact ⟨.ofText l hl, c :: rest, by simp, .inr ⟨e, by simpa using he⟩⟩
    · rw [hblock] at hn ⊢
      obtain ⟨t, rest, rfl, hviolation⟩ := ih after.length (by rw [← hn]; simp; omega)
        (position + byteLength (l ++ ('\x7b' :: code ++ ['\x7d']))) after rfl
      refine ⟨.cons l code hl hcode hknown t, rest, by simp, ?_⟩
      have hlength : byteLength (l ++ ('\x7b' :: code ++ ['\x7d'])) + byteLength t.text =
          byteLength (Template.cons l code hl hcode hknown t).text := by simp; omega
      rwa [Nat.add_assoc, hlength] at hviolation

theorem split_template (t : Template) : split t.text = .ok t.segments := by
  have hread := readFrom_template (s := []) (by simp [EndsRun]) t t.text 0
  rw [List.append_nil] at hread
  rw [split, hread]
  simp [Except.map, Template.segments]

theorem split_violation {t : Template} {rest : List Char} {e : LexicalError}
    (h : Violation (t.text ++ rest) (byteLength t.text) rest e) :
    split (t.text ++ rest) = .error e := by
  have hread := readFrom_template h.endsRun t (t.text ++ rest) 0
  rw [Nat.zero_add, h.readFrom_eq (byteLength_append _ _).symm] at hread
  rw [split, hread]
  rfl

theorem split_eq_ok_iff {input : List Char} {segments : List Segment} :
    split input = .ok segments ↔ ∃ t : Template, t.text = input ∧ t.segments = segments := by
  constructor
  · intro h
    obtain ⟨t, rest, rfl, rfl | ⟨e, he⟩⟩ := exists_template input 0 input
    · rw [List.append_nil, split_template] at h
      exact ⟨t, (List.append_nil _).symm, Except.ok.inj h⟩
    · rw [Nat.zero_add] at he
      rw [split_violation he] at h
      cases h
  · rintro ⟨t, rfl, rfl⟩
    exact split_template t

theorem split_eq_error_iff {input : List Char} {e : LexicalError} :
    split input = .error e ↔
      ∃ (t : Template) (rest : List Char), input = t.text ++ rest ∧
        Violation input (byteLength t.text) rest e := by
  constructor
  · intro h
    obtain ⟨t, rest, rfl, rfl | ⟨e', he⟩⟩ := exists_template input 0 input
    · rw [List.append_nil, split_template] at h
      cases h
    · rw [Nat.zero_add] at he
      rw [split_violation he] at h
      cases h
      exact ⟨t, rest, rfl, he⟩
  · rintro ⟨t, rest, rfl, he⟩
    exact split_violation he

/-- A text is split exactly if it is a template, into the segments of the template. Every other text
is refused with the error of the first place at which no template can go on. -/
theorem split_iff_template (input : List Char) :
    (∀ segments, split input = .ok segments ↔
      ∃ t : Template, t.text = input ∧ t.segments = segments) ∧
    ∀ e, split input = .error e ↔
      ∃ (t : Template) (rest : List Char), input = t.text ++ rest ∧
        Violation input (byteLength t.text) rest e :=
  ⟨fun _ => split_eq_ok_iff, fun _ => split_eq_error_iff⟩

end InlineMarkup.Segment
