import InlineMarkup.Proofs.Region.Adjacency

/-!
Two scans side by side: one of a source, one of the same source with calls in place of its regions.
Between regions they take the same steps (`Rule.follows`), if no `<` opens a tag for only one of
them.

`Mirrors` is what the scans have in common all the way, and `Agrees` what they see ahead.
-/

set_option autoImplicit false

namespace InlineMarkup.Scan

open InlineMarkup.Text InlineMarkup.Markup

def marks : List Char := "\"'\\/*#".toList

/-- The texts are the same as far as a place where the first has a region and the second a call. -/
inductive Agrees : List Char → List Char → Prop where
  | nil : Agrees [] []
  | cons {c : Char} {x y : List Char} : Agrees x y → Agrees (c :: x) (c :: y)
  | region {l d e : Char} {x y : List Char} : l ≠ '\'' → d ∉ marks → e ≠ '\'' →
    Agrees ('<' :: l :: x) (d :: e :: y)

section Agrees

variable {x y : List Char}

theorem Agrees.append (u : List Char) (h : Agrees x y) : Agrees (u ++ x) (u ++ y) := by
  induction u with
  | nil => exact h
  | cons c u ih => exact .cons ih

theorem Agrees.eq_nil (h : Agrees [] y) : y = [] := by
  cases h
  rfl

theorem Agrees.prefix_iff {p : List Char} (h : Agrees x y) (hp : ∀ c ∈ p, c ∈ marks) :
    p <+: x ↔ p <+: y := by
  induction p generalizing x y with
  | nil => simp
  | cons c p ih =>
    obtain ⟨hc, hp⟩ := List.forall_mem_cons.1 hp
    cases h with
    | nil => exact Iff.rfl
    | cons h => rw [List.cons_prefix_cons, List.cons_prefix_cons, ih h hp]
    | @region l d e x y _ hd _ =>
      have hopen : c ≠ '<' := by
        rintro rfl
        revert hc
        decide
      have hcall : c ≠ d := by
        rintro rfl
        exact hd hc
      simp [List.cons_prefix_cons, hopen, hcall]

theorem Agrees.head?_iff (h : Agrees x y) {c : Char} (hc : c ∈ marks) :
    x.head? = some c ↔ y.head? = some c := by
  have hbegins : ∀ s : List Char, s.head? = some c ↔ [c] <+: s := by
    intro s
    cases s with
    | nil => simp
    | cons d s => simp [eq_comm]
  rw [hbegins, hbegins, h.prefix_iff (by simpa using hc)]

theorem Agrees.tail_head?_iff (h : Agrees x y) :
    x.tail.head? = some '\'' ↔ y.tail.head? = some '\'' := by
  cases h with
  | nil => exact Iff.rfl
  | cons h => exact h.head?_iff (by decide)
  | region hl _ he => simp [hl, he]

end Agrees

def Place.movedTo (offset : Nat) : Place → Place
  | .quoted quote _ => .quoted quote offset
  | .raw hashes _ => .raw hashes offset
  | p => p

/-- Contexts that admit the same: what is before a closing parenthesis makes no difference. -/
structure Context.Like (a b : Context) : Prop where
  last : a.last = b.last
  word : a.word = b.word
  gap : a.gap = b.gap
  beforeLast : a.beforeLast = b.beforeLast ∨ a.last = some ')'

section Context

variable {a b : Context}

theorem Context.Like.record (h : a.Like b) (c : Char) : (a.record c).Like (b.record c) := by
  unfold Context.record
  split
  · exact ⟨h.last, h.word, rfl, h.beforeLast⟩
  · have hends : a.endsInWord = b.endsInWord := by
      rw [Context.endsInWord, Context.endsInWord, h.gap, h.last]
    exact ⟨rfl, by rw [hends, h.word], rfl, .inl h.last⟩

theorem Context.Like.allowsMarkup_eq (h : a.Like b) : a.allowsMarkup = b.allowsMarkup := by
  rw [Context.allowsMarkup, Context.allowsMarkup, h.last, h.word]
  rcases h.beforeLast with hbefore | hlast
  · rw [hbefore]
  · rw [← h.last, hlast]
    rfl

theorem Context.like_record_parenthesis (a b : Context) : (a.record ')').Like (b.record ')') :=
  ⟨rfl, rfl, rfl, .inr rfl⟩

end Context

/-- Two scans are in the same kind of place and behind the same word, and their contexts admit the
same. -/
structure Mirrors (s t : State) : Prop where
  place : ∃ offset, t.place = s.place.movedTo offset
  context : s.context.Like t.context
  word : s.behind.takeWhile isWordChar = t.behind.takeWhile isWordChar

theorem admitsRaw_iff_word {behind : List Char} :
    AdmitsRaw behind ↔ behind.takeWhile isWordChar ∈ [[], ['b'], ['c']] := by
  have hb : isWordChar 'b' = true := by decide
  have hc : isWordChar 'c' = true := by decide
  have hhead : ∀ s : List Char, s.takeWhile isWordChar = [] ↔ s.head?.any isWordChar = false := by
    intro s
    cases s with
    | nil => simp
    | cons d s => cases hd : isWordChar d <;> simp [hd]
  constructor
  · intro h
    cases h with
    | bare h => simp [(hhead _).2 h]
    | lettered hletter h => rcases hletter with rfl | rfl <;> simp [hb, hc, (hhead _).2 h]
  · intro h
    cases behind with
    | nil => exact .bare rfl
    | cons d before =>
      cases hd : isWordChar d with
      | false => exact .bare (by simpa using hd)
      | true =>
        simp only [List.takeWhile_cons, hd, if_true, List.mem_cons, List.cons.injEq, reduceCtorEq,
          false_or, List.not_mem_nil, or_false, hhead] at h
        rcases h with ⟨rfl, h⟩ | ⟨rfl, h⟩
        · exact .lettered (.inl rfl) h
        · exact .lettered (.inr rfl) h

theorem Mirrors.admitsRaw_iff {s t : State} (h : Mirrors s t) :
    AdmitsRaw s.behind ↔ AdmitsRaw t.behind := by
  rw [admitsRaw_iff_word, admitsRaw_iff_word, h.word]

theorem Mirrors.rawHashes?_eq {s t : State} (h : Mirrors s t) {c : Char} {x y : List Char}
    (hagrees : Agrees x y) : rawHashes? s.behind (c :: x) = rawHashes? t.behind (c :: y) := by
  refine Option.ext fun n => ?_
  have hp : ∀ d ∈ List.replicate n '#' ++ ['"'], d ∈ marks := by
    intro d hd
    rcases List.mem_append.1 hd with hd | hd
    · rw [List.eq_of_mem_replicate hd]
      decide
    · rw [List.mem_singleton.1 hd]
      decide
  rw [rawHashes?_eq_some_iff, rawHashes?_eq_some_iff, h.admitsRaw_iff, rawStart,
    List.cons_prefix_cons, List.cons_prefix_cons, hagrees.prefix_iff hp]

/-- A scan can take a text and then be like another that has taken it. -/
def Follows (t : State) (text : List Char) (next : State) : Prop :=
  ∃ next', Echoes t text next' ∧ Mirrors next next'

theorem take_of_agrees {x y r : List Char} {n : Nat} (hy : y = x.take n ++ r)
    (h : Agrees (x.drop n) r) : y.take n = x.take n := by
  rcases Nat.le_total n x.length with hn | hn
  · rw [hy]
    exact List.take_left' (by simp [hn])
  · rw [List.drop_eq_nil_of_le hn] at h
    rw [hy, h.eq_nil, List.append_nil, List.take_take, Nat.min_self]

section Steps

variable {s t : State} {r : List Char} {c : Char} {after after' : List Char}

theorem Mirrors.place_code (h : Mirrors s t) (hplace : s.place = .code) : t.place = .code := by
  obtain ⟨_, hplace'⟩ := h.place
  rwa [hplace] at hplace'

theorem Mirrors.inert (h : Mirrors s t) (hagrees : Agrees after after') (hinert : Inert s c after) :
    Inert t c after' where
  not_quote := hinert.not_quote
  not_apostrophe := hinert.not_apostrophe
  not_lineComment := by
    rw [← hagrees.head?_iff (by decide)]
    exact hinert.not_lineComment
  not_blockComment := by
    rw [← hagrees.head?_iff (by decide)]
    exact hinert.not_blockComment
  not_markup := by
    rw [← h.context.allowsMarkup_eq]
    exact hinert.not_markup

theorem Agrees.rawEnd_iff {hashes : Nat} (h : Agrees after after') :
    (c = '"' ∧ hashes ≤ (after.takeWhile (· == '#')).length) ↔
      c = '"' ∧ hashes ≤ (after'.takeWhile (· == '#')).length := by
  rw [← rawEnd_prefix_cons, ← rawEnd_prefix_cons]
  refine (Agrees.cons h).prefix_iff fun d hd => ?_
  rcases List.mem_cons.1 hd with rfl | hd
  · decide
  · rw [List.eq_of_mem_replicate hd]
    decide

/-- Both scans keep as many characters, if a `<` that opens no tag for the first opens none for the
second. -/
theorem Rule.mirrored {n : Nat} {place : Place} {context : Context}
    (hrule : Rule s c after n place context) (h : Mirrors s t) (hrest : s.rest = c :: after)
    (hrest' : t.rest = c :: after') (hagrees : Agrees after after')
    (hbracket : s.place = .code → c = '<' → s.context.allowsMarkup = true →
      namesPrimitive s.rest = true ∨ capture s.rest = .ok none →
      namesPrimitive t.rest = true ∨ capture t.rest = .ok none) :
    ∃ offset context', Rule t c after' n (place.movedTo offset) context' ∧
      context.Like context' := by
  -- what a rule looks ahead for are marks, and the same marks are ahead of both scans
  obtain ⟨offset, hplace'⟩ := h.place
  have hbackslash := hagrees.head?_iff (c := '\\') (by decide)
  have hslash := hagrees.head?_iff (c := '/') (by decide)
  have hstar := hagrees.head?_iff (c := '*') (by decide)
  have hraw := h.rawHashes?_eq (c := c) hagrees
  rw [← hrest, ← hrest'] at hraw
  cases hrule with
  | string hplace hc =>
    exact ⟨_, _, .string (h.place_code hplace) hc, h.context.record _⟩
  | escaped hplace hc hescape =>
    exact ⟨_, _, .escaped (h.place_code hplace) hc (hbackslash.1 hescape), h.context.record _⟩
  | character hplace hc hescape hclose =>
    exact ⟨0, _, .character (h.place_code hplace) hc (mt hbackslash.2 hescape)
      (hagrees.tail_head?_iff.1 hclose), h.context.record _⟩
  | lifetime hplace hc hescape hclose =>
    exact ⟨0, _, .lifetime (h.place_code hplace) hc (mt hbackslash.2 hescape)
      (mt hagrees.tail_head?_iff.2 hclose), h.context.record _⟩
  | lineComment hplace hc hnext =>
    exact ⟨0, _, .lineComment (h.place_code hplace) hc (hslash.1 hnext), h.context⟩
  | blockComment hplace hc hnext =>
    exact ⟨0, _, .blockComment (h.place_code hplace) hc (hstar.1 hnext), h.context⟩
  | bracket hplace hc hallows hnot =>
    have hallows' := h.context.allowsMarkup_eq.symm.trans hallows
    exact ⟨0, _, .bracket (h.place_code hplace) hc hallows' (hbracket hplace hc hallows hnot),
      h.context.record _⟩
  | rawString hplace hinert hsome =>
    exact ⟨_, _, .rawString (h.place_code hplace) (h.inert hagrees hinert) (hraw.symm.trans hsome),
      h.context.record _⟩
  | plain hplace hinert hnone =>
    exact ⟨0, _, .plain (h.place_code hplace) (h.inert hagrees hinert) (hraw.symm.trans hnone),
      h.context.record _⟩
  | lineEnd hplace hc =>
    rw [hplace] at hplace'
    exact ⟨0, _, .lineEnd hplace' hc, h.context⟩
  | inLine hplace hc =>
    rw [hplace] at hplace'
    exact ⟨0, _, .inLine hplace' hc, h.context⟩
  | @blockEnd depth hplace hc hnext =>
    rw [hplace] at hplace'
    have hout : (outside depth).movedTo 0 = outside depth := by
      unfold outside
      split <;> rfl
    refine ⟨0, _, ?_, h.context⟩
    rw [hout]
    exact .blockEnd hplace' hc (hslash.1 hnext)
  | nested hplace hc hnext =>
    rw [hplace] at hplace'
    exact ⟨0, _, .nested hplace' hc (hstar.1 hnext), h.context⟩
  | inBlock hplace hend hopen =>
    rw [hplace] at hplace'
    exact ⟨0, _, .inBlock hplace' (mt (And.imp_right hslash.2) hend)
      (mt (And.imp_right hstar.2) hopen), h.context⟩
  | escape hplace hc =>
    rw [hplace] at hplace'
    exact ⟨offset, _, .escape hplace' hc, h.context⟩
  | quoteEnd hplace hc hquote =>
    rw [hplace] at hplace'
    exact ⟨0, _, .quoteEnd hplace' hc hquote, h.context⟩
  | inQuoted hplace hc hquote =>
    rw [hplace] at hplace'
    exact ⟨offset, _, .inQuoted hplace' hc hquote, h.context⟩
  | rawStringEnd hplace hend =>
    rw [hplace] at hplace'
    exact ⟨0, _, .rawStringEnd hplace' (hagrees.rawEnd_iff.1 hend), h.context⟩
  | inRawString hplace hend =>
    rw [hplace] at hplace'
    exact ⟨offset, _, .inRawString hplace' (mt hagrees.rawEnd_iff.2 hend), h.context⟩

theorem Rule.follows {n : Nat} {place : Place} {context : Context}
    (hrule : Rule s c after n place context) (h : Mirrors s t) (hrest : s.rest = c :: after)
    (hrest' : t.rest = c :: after') (hagrees : Agrees after after')
    (hbracket : s.place = .code → c = '<' → s.context.allowsMarkup = true →
      namesPrimitive s.rest = true ∨ capture s.rest = .ok none →
      namesPrimitive t.rest = true ∨ capture t.rest = .ok none)
    (ht : t.rest = s.rest.take n ++ r) (hnext : Agrees (s.rest.drop n) r) :
    Follows t (s.rest.take n) (s.past n place context) := by
  obtain ⟨offset, context', hrule', hlike⟩ := hrule.mirrored h hrest hrest' hagrees hbracket
  have htake := take_of_agrees ht hnext
  refine ⟨_, .of_rule hrest' hrule' htake, ⟨offset, rfl⟩, hlike, ?_⟩
  simp only [State.past, htake, List.takeWhile_append, h.word]

end Steps

end InlineMarkup.Scan
