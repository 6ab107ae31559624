import InlineMarkup.Proofs.Region.Run
import InlineMarkup.Proofs.Region.Emission

/-!
The lexical items of the host language that hold no markup: comments, strings and character literals,
as its grammar has them. A scan that comes to such an item in code keeps it whole and is back in code
right behind it.
-/

set_option autoImplicit false

namespace InlineMarkup.Scan

/-- What follows the opening of a block comment, through the end that matches it. -/
inductive CommentBody : List Char → Prop where
  | close : CommentBody ['*', '/']
  | nested {inner rest : List Char} :
    CommentBody inner → CommentBody rest → CommentBody ('/' :: '*' :: (inner ++ rest))
  | char {c : Char} {rest : List Char} : ¬['*', '/'] <+: c :: rest → ¬['/', '*'] <+: c :: rest →
    CommentBody rest → CommentBody (c :: rest)

/-- What follows an opening quote, through the first quote that is not escaped. -/
inductive QuotedBody (quote : Char) : List Char → Prop where
  | close : quote ≠ '\\' → QuotedBody quote [quote]
  | escape {c : Char} {rest : List Char} :
    QuotedBody quote rest → QuotedBody quote ('\\' :: c :: rest)
  | char {c : Char} {rest : List Char} :
    c ≠ '\\' → c ≠ quote → QuotedBody quote rest → QuotedBody quote (c :: rest)

def rawStart (hashes : Nat) : List Char :=
  'r' :: (List.replicate hashes '#' ++ ['"'])

theorem length_rawStart (hashes : Nat) : (rawStart hashes).length = hashes + 2 := by
  simp [rawStart]

def rawEnd (hashes : Nat) : List Char :=
  '"' :: List.replicate hashes '#'

/-- The `r` of a raw string may follow this text, the last character of which comes first: it ends in
no word, or in a `b` or `c` that is a whole word. -/
inductive AdmitsRaw : List Char → Prop where
  | bare {behind : List Char} : behind.head?.any isWordChar = false → AdmitsRaw behind
  | lettered {c : Char} {before : List Char} : c = 'b' ∨ c = 'c' →
    before.head?.any isWordChar = false → AdmitsRaw (c :: before)

/-- The items that may begin after the text `behind`, the last character of which comes first. -/
inductive Item (behind : List Char) : List Char → Prop where
  | lineComment {text : List Char} : '\n' ∉ text → Item behind ('/' :: '/' :: (text ++ ['\n']))
  | blockComment {body : List Char} : CommentBody body → Item behind ('/' :: '*' :: body)
  | string {body : List Char} : QuotedBody '"' body → Item behind ('"' :: body)
  | raw {hashes : Nat} {body : List Char} : AdmitsRaw behind → ¬rawEnd hashes <:+: body →
    Item behind (rawStart hashes ++ (body ++ rawEnd hashes))
  | character {c : Char} : c ≠ '\\' → Item behind ['\'', c, '\'']
  | escaped {body : List Char} : QuotedBody '\'' ('\\' :: body) → Item behind ('\'' :: '\\' :: body)

theorem replicate_prefix_iff {n : Nat} {s : List Char} :
    List.replicate n '#' <+: s ↔ n ≤ (s.takeWhile (· == '#')).length := by
  induction n generalizing s with
  | zero => simp
  | succ n ih =>
    cases s with
    | nil => simp [List.replicate_succ]
    | cons c s =>
      by_cases hc : c = '#'
      · simp [List.replicate_succ, hc, ih]
      · simp [List.replicate_succ, hc, Ne.symm hc]

theorem rawEnd_prefix_cons {n : Nat} {c : Char} {s : List Char} :
    rawEnd n <+: c :: s ↔ c = '"' ∧ n ≤ (s.takeWhile (· == '#')).length := by
  rw [rawEnd, List.cons_prefix_cons, replicate_prefix_iff, eq_comm]

theorem admitsRaw_iff {behind : List Char} : AdmitsRaw behind ↔
    (match behind with
      | 'b' :: before => !before.head?.any isWordChar
      | 'c' :: before => !before.head?.any isWordChar
      | before => !before.head?.any isWordChar) = true := by
  constructor
  · intro h
    cases h with
    | bare h =>
      have hb : isWordChar 'b' = true := by decide
      have hc : isWordChar 'c' = true := by decide
      split <;> simp_all
    | lettered hc h => rcases hc with rfl | rfl <;> simp [h]
  · intro h
    split at h
    · exact .lettered (.inl rfl) (by simpa using h)
    · exact .lettered (.inr rfl) (by simpa using h)
    · exact .bare (by simpa using h)

theorem hashes_quote_prefix_iff {n : Nat} {s : List Char} :
    List.replicate n '#' ++ ['"'] <+: s ↔
      (s.takeWhile (· == '#')).length = n ∧ (s.drop n).head? = some '"' := by
  induction n generalizing s with
  | zero => cases s with
    | nil => simp
    | cons c s => by_cases hc : c = '"' <;> simp [hc, Ne.symm]
  | succ n ih =>
    cases s with
    | nil => simp [List.replicate_succ]
    | cons c s =>
      by_cases hc : c = '#'
      · simp [List.replicate_succ, hc, ih]
      · simp [List.replicate_succ, hc, Ne.symm hc]

theorem rawHashes?_eq_some_iff {behind rest : List Char} {n : Nat} :
    rawHashes? behind rest = some n ↔ AdmitsRaw behind ∧ rawStart n <+: rest := by
  rw [admitsRaw_iff, rawStart]
  unfold rawHashes?
  split
  · rename_i s
    simp only [List.cons_prefix_cons, true_and, hashes_quote_prefix_iff]
    split <;> simp_all <;> grind
  · rename_i hr
    simp only [reduceCtorEq, false_iff, not_and]
    rintro - ⟨t, rfl⟩
    exact hr _ rfl

theorem echoes_lineComment {s : State} {text rest : List Char} (htext : '\n' ∉ text)
    (hrest : s.rest = text ++ ['\n'] ++ rest) (hplace : s.place = .lineComment) :
    ∃ t, Echoes s (text ++ ['\n']) t ∧ t.place = .code := by
  induction text generalizing s with
  | nil => exact ⟨_, .of_rule hrest (.lineEnd hplace rfl) (by simp [hrest]), rfl⟩
  | cons c text ih =>
    have hc : c ≠ '\n' := fun h => htext (by simp [h])
    have h : Echoes s [c] _ := .of_rule hrest (.inLine hplace hc) (by simp [hrest])
    obtain ⟨t, ht, hcode⟩ := ih (fun h => htext (by simp [h])) (h.next_rest hrest) rfl
    exact ⟨t, h.trans ht, hcode⟩

theorem CommentBody.ne_nil {body : List Char} (h : CommentBody body) : body ≠ [] := by
  cases h <;> simp

theorem not_pair_of_not_begins {c d x : Char} {rest : List Char} (tail : List Char)
    (hrest : rest ≠ []) (h : ¬[d, x] <+: c :: rest) :
    ¬(c = d ∧ (rest ++ tail).head? = some x) := by
  rintro ⟨rfl, hx⟩
  cases rest with
  | nil => exact hrest rfl
  | cons e rest =>
    cases hx
    exact h ⟨rest, rfl⟩

theorem echoes_blockComment {s : State} {depth : Nat} {body rest : List Char}
    (hbody : CommentBody body) (hrest : s.rest = body ++ rest)
    (hplace : s.place = .blockComment depth) (hdepth : 0 < depth) :
    ∃ t, Echoes s body t ∧ t.place = outside depth := by
  induction hbody generalizing s depth rest with
  | close => exact ⟨_, .of_rule hrest (.blockEnd hplace rfl rfl) (by simp [hrest]), rfl⟩
  | @nested inner after _ _ ih ih' =>
    have h : Echoes s ['/', '*'] _ := .of_rule hrest (.nested hplace rfl rfl) (by simp [hrest])
    have hin : _ = inner ++ (after ++ rest) := h.next_rest (by simp [hrest])
    obtain ⟨m, hm, hplace'⟩ := ih hin rfl (by omega)
    obtain ⟨t, ht, hout⟩ := ih' (hm.next_rest hin) (by simp [hplace', outside]; omega) hdepth
    exact ⟨t, h.trans (hm.trans ht), hout⟩
  | @char c after hclose hopen hafter ih =>
    have hend := not_pair_of_not_begins rest hafter.ne_nil hclose
    have hstart := not_pair_of_not_begins rest hafter.ne_nil hopen
    have h : Echoes s [c] _ := .of_rule hrest (.inBlock hplace hend hstart) (by simp [hrest])
    obtain ⟨t, ht, hout⟩ := ih (h.next_rest hrest) rfl hdepth
    exact ⟨t, h.trans ht, hout⟩

theorem echoes_quoted {s : State} {quote : Char} {openedAt : Nat} {body rest : List Char}
    (hbody : QuotedBody quote body) (hrest : s.rest = body ++ rest)
    (hplace : s.place = .quoted quote openedAt) : ∃ t, Echoes s body t ∧ t.place = .code := by
  induction hbody generalizing s with
  | close hne => exact ⟨_, .of_rule hrest (.quoteEnd hplace hne rfl) (by simp [hrest]), rfl⟩
  | @escape c _ _ ih =>
    have h : Echoes s ['\\', c] _ := .of_rule hrest (.escape hplace rfl) (by simp [hrest])
    obtain ⟨t, ht, hcode⟩ := ih (h.next_rest hrest) rfl
    exact ⟨t, h.trans ht, hcode⟩
  | @char c _ hc hquote _ ih =>
    have h : Echoes s [c] _ := .of_rule hrest (.inQuoted hplace hc hquote) (by simp [hrest])
    obtain ⟨t, ht, hcode⟩ := ih (h.next_rest hrest) rfl
    exact ⟨t, h.trans ht, hcode⟩

theorem not_rawEnd_begins {hashes : Nat} {c : Char} {body : List Char} (rest : List Char)
    (h : ¬rawEnd hashes <:+: c :: body) :
    ¬rawEnd hashes <+: c :: (body ++ rawEnd hashes ++ rest) := by
  rw [rawEnd_prefix_cons, ← replicate_prefix_iff, List.append_assoc]
  rintro ⟨hc, hp⟩
  have hrun := le_takeWhile_of_prefix (x := List.replicate hashes '#' ++ rest) hp
  exact h (rawEnd_prefix_cons.2 ⟨hc, hrun⟩).isInfix

theorem echoes_raw {s : State} {hashes openedAt : Nat} {body rest : List Char}
    (hbody : ¬rawEnd hashes <:+: body) (hrest : s.rest = body ++ rawEnd hashes ++ rest)
    (hplace : s.place = .raw hashes openedAt) :
    ∃ t, Echoes s (body ++ rawEnd hashes) t ∧ t.place = .code := by
  induction body generalizing s with
  | nil =>
    have hend := rawEnd_prefix_cons.1 ⟨rest, hrest.symm.trans hrest⟩
    have htake : s.rest.take (hashes + 1) = rawEnd hashes := by
      rw [hrest]
      exact List.take_left' (by simp [rawEnd])
    exact ⟨_, .of_rule hrest (.rawStringEnd hplace hend) htake, rfl⟩
  | cons c body ih =>
    have hc := mt rawEnd_prefix_cons.2 (not_rawEnd_begins rest hbody)
    have h : Echoes s [c] _ := .of_rule hrest (.inRawString hplace hc) (by simp [hrest])
    have hinfix : ¬rawEnd hashes <:+: body :=
      fun hin => hbody (hin.trans (List.suffix_cons c body).isInfix)
    obtain ⟨t, ht, hcode⟩ := ih hinfix (h.next_rest hrest) rfl
    exact ⟨t, h.trans ht, hcode⟩

/-- From code, an item is kept whole and followed by code. -/
theorem echoes_item {s : State} {item rest : List Char} (hitem : Item s.behind item)
    (hrest : s.rest = item ++ rest) (hplace : s.place = .code) :
    ∃ t, Echoes s item t ∧ t.place = .code := by
  cases hitem with
  | lineComment htext =>
    have h : Echoes s ['/', '/'] _ := .of_rule hrest (.lineComment hplace rfl rfl) (by simp [hrest])
    obtain ⟨t, ht, hcode⟩ := echoes_lineComment htext (h.next_rest hrest) rfl
    exact ⟨t, h.trans ht, hcode⟩
  | blockComment hbody =>
    have h : Echoes s ['/', '*'] _ := .of_rule hrest (.blockComment hplace rfl rfl) (by simp [hrest])
    obtain ⟨t, ht, hcode⟩ := echoes_blockComment hbody (h.next_rest hrest) rfl Nat.one_pos
    exact ⟨t, h.trans ht, hcode⟩
  | string hbody =>
    have h : Echoes s ['"'] _ := .of_rule hrest (.string hplace rfl) (by simp [hrest])
    obtain ⟨t, ht, hcode⟩ := echoes_quoted hbody (h.next_rest hrest) rfl
    exact ⟨t, h.trans ht, hcode⟩
  | @raw hashes body hadmits hbody =>
    have hraw : rawHashes? s.behind s.rest = some hashes :=
      rawHashes?_eq_some_iff.2 ⟨hadmits, by simp [hrest]⟩
    have htake : s.rest.take (hashes + 2) = rawStart hashes := by
      rw [hrest, List.append_assoc]
      exact List.take_left' (length_rawStart hashes)
    have hinert : ∀ after, Inert s 'r' after := fun _ =>
      inert_of_ne (by decide) (by decide) (by decide) (by decide)
    have h := Echoes.of_rule hrest (.rawString hplace (hinert _) hraw) htake
    have hnext := h.next_rest (hrest.trans (List.append_assoc ..))
    obtain ⟨t, ht, hcode⟩ := echoes_raw hbody hnext rfl
    exact ⟨t, h.trans ht, hcode⟩
  | @character c hc =>
    have hescape : (c :: '\'' :: rest).head? ≠ some '\\' := fun h => hc (Option.some.inj h)
    exact ⟨_, .of_rule hrest (.character hplace rfl hescape rfl) (by simp [hrest]), rfl⟩
  | escaped hbody =>
    have h : Echoes s ['\''] _ := .of_rule hrest (.escaped hplace rfl rfl) (by simp [hrest])
    obtain ⟨t, ht, hcode⟩ := echoes_quoted hbody (h.next_rest hrest) rfl
    exact ⟨t, h.trans ht, hcode⟩

end InlineMarkup.Scan
