import InlineMarkup.Host.TokenStream
import InlineMarkup.Proofs.Host.Lexeme

/-!
Reading a text step by step. A step passes over a blank or a comment, or reads a token or one bracket
of a group; a documentation comment is read as all the tokens it stands for. Reading is
deterministic, and the tokens of a text are those whose brackets and leaves its steps read
(`tokensFrom_eq_ok_iff`).
-/

set_option autoImplicit false

namespace InlineMarkup.Host

open InlineMarkup.Text

/-- A token that is no group, or one bracket of a group. -/
inductive Atom where
  | word (text : List Char) (span : Span)
  | punct (char : Char) (joint : Bool) (span : Span)
  | literal (text : List Char) (span : Span)
  | opening (delimiter : Delimiter) (span : Span)
  | closing (delimiter : Delimiter) (span : Span)

mutual

def TokenTree.atoms : TokenTree → List Atom
  | .word w span => [.word w span]
  | .punct c joint span => [.punct c joint span]
  | .literal s span => [.literal s span]
  | .group d contents opening closing =>
    .opening d opening :: (TokenTree.atomsOf contents ++ [.closing d closing])

def TokenTree.atomsOf : List TokenTree → List Atom
  | [] => []
  | t :: ts => TokenTree.atoms t ++ TokenTree.atomsOf ts

end

open TokenTree (atomsOf)

@[simp] theorem atomsOf_nil : atomsOf [] = [] := by simp [atomsOf]

@[simp] theorem atomsOf_cons (t : TokenTree) (ts : List TokenTree) :
    atomsOf (t :: ts) = t.atoms ++ atomsOf ts := by simp [atomsOf]

@[simp] theorem atomsOf_append (ts us : List TokenTree) :
    atomsOf (ts ++ us) = atomsOf ts ++ atomsOf us := by
  induction ts with
  | nil => simp
  | cons t ts ih => simp [ih]

theorem mem_atomsOf {t : TokenTree} {ts : List TokenTree} (ht : t ∈ ts) {a : Atom}
    (ha : a ∈ t.atoms) : a ∈ atomsOf ts := by
  obtain ⟨front, back, rfl⟩ := List.append_of_mem ht
  simp [ha]

namespace Cursor

theorem moveTo_append (u rest : List Char) (m : Mark) :
    (Cursor.mk (u ++ rest) m).moveTo rest = ⟨rest, u.foldl Mark.after m⟩ := by
  simp [moveTo, Lexeme.before_append]

theorem moveTo_self (c : Cursor) : c.moveTo c.rest = c := by
  have := moveTo_append [] c.rest c.mark
  simpa using this

theorem moveTo_moveTo (c : Cursor) {s t : List Char} (hs : s <:+ c.rest) (ht : t <:+ s) :
    (c.moveTo s).moveTo t = c.moveTo t := by
  obtain ⟨rest, m⟩ := c
  obtain ⟨u, rfl⟩ := hs
  obtain ⟨v, rfl⟩ := ht
  have := moveTo_append (u ++ v) t m
  rw [List.append_assoc] at this
  rw [this, moveTo_append, moveTo_append, List.foldl_append]

def advance? (c : Cursor) : Option (List Atom × Cursor) :=
  match Lexeme.plainComment? c.rest with
  | some rest => some ([], c.moveTo rest)
  | none =>
    match c.rest with
    | [] => none
    | char :: rest =>
      let next := c.moveTo rest
      if Lexeme.isHostBlank char then some ([], next)
      else
        match Lexeme.docComment? c.rest with
        | some doc =>
          let next := c.moveTo doc.rest
          some (atomsOf (docTokens doc ⟨c.mark, next.mark⟩), next)
        | none =>
          match opening? (char :: rest) with
          | some d => some ([.opening d ⟨c.mark, next.mark⟩], next)
          | none =>
            match closing? char with
            | some d => some ([.closing d ⟨c.mark, next.mark⟩], next)
            | none => (leaf? c).map fun (token, next) => (token.atoms, next)

end Cursor

/-- The atoms that are read on the way from one cursor to another. -/
inductive Reads : Cursor → List Atom → Cursor → Prop where
  | done (c : Cursor) : Reads c [] c
  | step {c next last : Cursor} {as bs : List Atom} :
    c.advance? = some (as, next) → Reads next bs last → Reads c (as ++ bs) last

namespace Reads

theorem single {c next : Cursor} {as : List Atom} (h : c.advance? = some (as, next)) :
    Reads c as next := by
  have := step h (done next)
  rwa [List.append_nil] at this

theorem trans {c d e : Cursor} {as bs : List Atom} (h : Reads c as d) (h' : Reads d bs e) :
    Reads c (as ++ bs) e := by
  induction h with
  | done => exact h'
  | step ha _ ih =>
    rw [List.append_assoc]
    exact step ha (ih h')

theorem eq_nil_of_end {d : Cursor} {m : Mark} {as : List Atom} (h : Reads ⟨[], m⟩ as d) :
    as = [] := by
  cases h with
  | done => rfl
  | step ha _ => cases ha

theorem of_end {c d : Cursor} {m : Mark} {as bs : List Atom} (h : Reads c as d)
    (h' : Reads c bs ⟨[], m⟩) : ∃ cs, bs = as ++ cs ∧ Reads d cs ⟨[], m⟩ := by
  induction h generalizing bs with
  | done => exact ⟨bs, rfl, h'⟩
  | step ha _ ih =>
    cases h' with
    | done => cases ha
    | step hb hrest =>
      rw [ha] at hb
      cases hb
      obtain ⟨cs, rfl, hcs⟩ := ih hrest
      exact ⟨cs, by simp, hcs⟩

end Reads

theorem leaf?_shortens {c next : Cursor} {t : TokenTree} (h : leaf? c = some (t, next)) :
    Lexeme.Shortens c.rest next.rest ∧ next = c.moveTo next.rest := by
  unfold leaf? at h
  split at h
  · rename_i rest hrest
    cases h
    exact ⟨Lexeme.literal?_shortens hrest, rfl⟩
  · split at h
    · rename_i hrest
      cases h
      exact ⟨⟨[_], by simp, Lexeme.punct?_eq_cons hrest⟩, rfl⟩
    · split at h
      · rename_i rest hrest
        cases h
        exact ⟨Lexeme.word?_shortens hrest, rfl⟩
      · split at h
        · rename_i hmark
          cases h
          exact ⟨Lexeme.drop_errorMark_shortens hmark, rfl⟩
        · cases h

theorem advance?_shortens {c next : Cursor} {as : List Atom} (h : c.advance? = some (as, next)) :
    Lexeme.Shortens c.rest next.rest ∧ next = c.moveTo next.rest := by
  unfold Cursor.advance? at h
  split at h
  · rename_i rest hrest
    cases h
    exact ⟨Lexeme.plainComment?_shortens hrest, rfl⟩
  · split at h
    · cases h
    · rename_i char rest hrest
      have hcons : Lexeme.Shortens c.rest rest := ⟨[char], by simp, hrest⟩
      simp only at h
      split at h
      · cases h
        exact ⟨hcons, rfl⟩
      · split at h
        · rename_i doc hdoc
          cases h
          exact ⟨Lexeme.docComment?_shortens hdoc, rfl⟩
        · split at h
          · cases h
            exact ⟨hcons, rfl⟩
          · split at h
            · cases h
              exact ⟨hcons, rfl⟩
            · obtain ⟨⟨t, n⟩, hleaf, h⟩ := Option.map_eq_some_iff.1 h
              cases h
              exact leaf?_shortens hleaf

theorem Reads.eq_append {c d : Cursor} {as : List Atom} (h : Reads c as d) :
    ∃ u, c.rest = u ++ d.rest ∧ d.mark = u.foldl Mark.after c.mark := by
  induction h with
  | done => exact ⟨[], rfl, rfl⟩
  | @step c next last as bs ha _ ih =>
    obtain ⟨v, hv, hmark⟩ := ih
    obtain ⟨⟨u, -, hu⟩, hnext⟩ := advance?_shortens ha
    have hmove := Cursor.moveTo_append u next.rest c.mark
    rw [← hu] at hmove
    have hmark' : next.mark = u.foldl Mark.after c.mark := by rw [hnext]; exact congrArg _ hmove
    refine ⟨u ++ v, by rw [hu, hv, List.append_assoc], ?_⟩
    rw [hmark, hmark', List.foldl_append]

theorem skipBlankFuel_suffix (fuel : Nat) (s : List Char) : Lexeme.skipBlankFuel fuel s <:+ s := by
  fun_induction Lexeme.skipBlankFuel fuel s with
  | case1 s => exact List.suffix_refl s
  | case2 fuel s rest hrest ih => exact ih.trans (Lexeme.plainComment?_shortens hrest).suffix
  | case3 fuel c r _ _ ih => exact ih.trans (List.suffix_cons c r)
  | case4 => exact List.suffix_refl _
  | case5 => exact List.suffix_refl _

theorem reads_skipBlankFuel (fuel : Nat) (c : Cursor) :
    Reads c [] (c.moveTo (Lexeme.skipBlankFuel fuel c.rest)) := by
  induction fuel generalizing c with
  | zero =>
    rw [Lexeme.skipBlankFuel, c.moveTo_self]
    exact .done c
  | succ fuel ih =>
    obtain ⟨s, m⟩ := c
    simp only [Lexeme.skipBlankFuel]
    cases hcomment : Lexeme.plainComment? s with
    | some rest =>
      have hstep : (Cursor.mk s m).advance? = some ([], (Cursor.mk s m).moveTo rest) := by
        simp only [Cursor.advance?, hcomment]
      have hmove := Cursor.moveTo_moveTo (Cursor.mk s m)
        (Lexeme.plainComment?_shortens hcomment).suffix (skipBlankFuel_suffix fuel rest)
      exact hmove ▸ Reads.step hstep (ih _)
    | none =>
      cases s with
      | nil =>
        rw [(Cursor.mk [] m).moveTo_self]
        exact .done _
      | cons c r =>
        simp only
        split
        · rename_i hblank
          have hstep : (Cursor.mk (c :: r) m).advance? = some ([], (Cursor.mk (c :: r) m).moveTo r) := by
            simp only [Cursor.advance?, hcomment, hblank, if_true]
          have hmove := Cursor.moveTo_moveTo (Cursor.mk (c :: r) m) (List.suffix_cons c r)
            (skipBlankFuel_suffix fuel r)
          exact hmove ▸ Reads.step hstep (ih _)
        · rw [(Cursor.mk (c :: r) m).moveTo_self]
          exact .done _

theorem reads_skipBlank (c : Cursor) : Reads c [] c.skipBlank :=
  reads_skipBlankFuel c.rest.length c

theorem skipBlankFuel_stops {fuel : Nat} {s : List Char} (hfuel : s.length ≤ fuel) :
    Lexeme.plainComment? (Lexeme.skipBlankFuel fuel s) = none ∧
      ∀ c r, Lexeme.skipBlankFuel fuel s = c :: r → Lexeme.isHostBlank c = false := by
  induction fuel generalizing s with
  | zero =>
    have : s = [] := List.eq_nil_of_length_eq_zero (by omega)
    subst this
    exact ⟨rfl, fun c r h => by cases h⟩
  | succ fuel ih =>
    simp only [Lexeme.skipBlankFuel]
    cases hcomment : Lexeme.plainComment? s with
    | some rest =>
      have := (Lexeme.plainComment?_shortens hcomment).length_lt
      exact ih (by omega)
    | none =>
      cases s with
      | nil => exact ⟨rfl, fun c r h => by cases h⟩
      | cons c r =>
        simp only
        split
        · exact ih (by simpa using hfuel)
        · rename_i hblank
          refine ⟨hcomment, fun d t h => ?_⟩
          obtain ⟨rfl, -⟩ := List.cons.inj h
          simpa using hblank

theorem skipBlank_stops (c : Cursor) :
    Lexeme.plainComment? c.skipBlank.rest = none ∧
      ∀ d r, c.skipBlank.rest = d :: r → Lexeme.isHostBlank d = false :=
  skipBlankFuel_stops (Nat.le_refl _)

def feed : List Frame → List TokenTree → List Atom → Option (List Frame × List TokenTree)
  | frames, done, [] => some (frames, done)
  | frames, done, .word w span :: as => feed frames (.word w span :: done) as
  | frames, done, .punct c joint span :: as => feed frames (.punct c joint span :: done) as
  | frames, done, .literal s span :: as => feed frames (.literal s span :: done) as
  | frames, done, .opening d span :: as => feed (⟨d, span, done⟩ :: frames) [] as
  | [], _, .closing _ _ :: _ => none
  | frame :: frames, done, .closing d span :: as =>
    if frame.delimiter = d then
      feed frames (.group d done.reverse frame.opening span :: frame.outer) as
    else none

theorem feed_append (frames : List Frame) (done : List TokenTree) (as bs : List Atom) :
    feed frames done (as ++ bs) = (feed frames done as).bind fun p => feed p.1 p.2 bs := by
  fun_induction feed frames done as with
  | case1 => rfl
  | case2 frames done w span as ih => simpa [feed] using ih
  | case3 frames done c joint span as ih => simpa [feed] using ih
  | case4 frames done s span as ih => simpa [feed] using ih
  | case5 frames done d span as ih => simpa [feed] using ih
  | case6 => simp [feed]
  | case7 frame frames done span as ih => simpa [feed] using ih
  | case8 frame frames done d span as hd => simp [feed, hd]

mutual

theorem feed_atoms (frames : List Frame) (done : List TokenTree) (t : TokenTree) :
    feed frames done t.atoms = some (frames, t :: done) := by
  cases t with
  | word w span => simp [TokenTree.atoms, feed]
  | punct c joint span => simp [TokenTree.atoms, feed]
  | literal s span => simp [TokenTree.atoms, feed]
  | group d contents opening closing =>
    simp only [TokenTree.atoms, feed]
    rw [feed_append, feed_atomsOf]
    simp [feed]

theorem feed_atomsOf (frames : List Frame) (done ts : List TokenTree) :
    feed frames done (atomsOf ts) = some (frames, ts.reverse ++ done) := by
  cases ts with
  | nil => simp [feed]
  | cons t ts =>
    rw [atomsOf_cons, feed_append, feed_atoms, Option.bind_some, feed_atomsOf]
    simp

end

/-- No group of a token list is left open. -/
theorem atomsOf_ne_append_opening (ts : List TokenTree) (as : List Atom) (d : Delimiter)
    (span : Span) : atomsOf ts ≠ as ++ [.opening d span] := by
  intro h
  have hfeed := feed_atomsOf [] [] ts
  rw [h, feed_append] at hfeed
  obtain ⟨p, -, hfeed⟩ := Option.bind_eq_some_iff.1 hfeed
  cases hfeed

/-- The atoms of open groups, up to the tokens of the innermost one. -/
def pending : List Frame → List TokenTree → List Atom
  | [], done => atomsOf done.reverse
  | frame :: frames, done =>
    pending frames frame.outer ++ .opening frame.delimiter frame.opening :: atomsOf done.reverse

theorem pending_cons (frames : List Frame) (done : List TokenTree) (t : TokenTree) :
    pending frames (t :: done) = pending frames done ++ t.atoms := by
  cases frames <;> simp [pending]

theorem feed_pending {frames frames' : List Frame} {done done' : List TokenTree} {as : List Atom}
    (h : feed frames done as = some (frames', done')) :
    pending frames' done' = pending frames done ++ as := by
  fun_induction feed frames done as with
  | case1 =>
    cases h
    simp
  | case2 frames done w span as ih => simp [ih h, pending_cons, TokenTree.atoms]
  | case3 frames done c joint span as ih => simp [ih h, pending_cons, TokenTree.atoms]
  | case4 frames done s span as ih => simp [ih h, pending_cons, TokenTree.atoms]
  | case5 frames done d span as ih => simp [ih h, pending]
  | case6 => cases h
  | case7 frame frames done span as ih => simp [ih h, pending, pending_cons, TokenTree.atoms]
  | case8 => cases h

theorem exists_feed_iff {as : List Atom} {next : Cursor} {frames frames' : List Frame}
    {done done' : List TokenTree} (h : feed frames done as = some (frames', done'))
    (P : List Frame → List TokenTree → Cursor → Prop) :
    (∃ bs n fs ds, some (as, next) = some (bs, n) ∧ feed frames done bs = some (fs, ds) ∧ P fs ds n) ↔
      P frames' done' next := by
  constructor
  · rintro ⟨bs, n, fs, ds, hsome, hfeed, hp⟩
    cases hsome
    rw [h] at hfeed
    cases hfeed
    exact hp
  · intro hp
    exact ⟨as, next, frames', done', rfl, h, hp⟩

/-- One round of the reader: it is at the end with no group open, or a step is read. -/
theorem readTokens_succ_eq_ok_iff {fuel : Nat} {frames : List Frame} {done ts : List TokenTree}
    {c : Cursor} :
    readTokens (fuel + 1) frames done c = .ok ts ↔
      (c.skipBlank.rest = [] ∧ frames = [] ∧ ts = done.reverse) ∨
      ∃ as next frames' done', c.skipBlank.advance? = some (as, next) ∧
        feed frames done as = some (frames', done') ∧ readTokens fuel frames' done' next = .ok ts := by
  obtain ⟨hcomment, hblank⟩ := skipBlank_stops c
  simp only [readTokens, Cursor.advance?, hcomment]
  generalize c.skipBlank = c at *
  cases hrest : c.rest with
  | nil =>
    have hdoc : Lexeme.docComment? [] = none := rfl
    cases frames with
    | nil =>
      simp only [hdoc, Except.ok.injEq, true_and, reduceCtorEq, false_and, exists_false, or_false]
      exact eq_comm
    | cons frame frames => simp [hdoc]
  | cons char rest =>
    simp only [hblank char rest hrest, Bool.false_eq_true, if_false, reduceCtorEq, false_and,
      false_or]
    -- whatever stands here, the reader does with it what `feed` does with its atoms
    let P := fun fs ds n => readTokens fuel fs ds n = .ok ts
    cases hdoc : Lexeme.docComment? (char :: rest) with
    | some doc =>
      simp only
      exact (exists_feed_iff (feed_atomsOf ..) P).symm
    | none =>
      cases hopen : opening? (char :: rest) with
      | some d =>
        simp only
        exact (exists_feed_iff rfl P).symm
      | none =>
        cases hclose : closing? char with
        | some d =>
          cases frames with
          | nil => simp [feed]
          | cons frame frames =>
            by_cases hd : frame.delimiter = d
            · simp only [hd, if_true]
              exact (exists_feed_iff (by simp [feed, hd]) P).symm
            · simp [feed, hd]
        | none =>
          cases hleaf : leaf? c with
          | some p =>
            simp only [Option.map_some]
            exact (exists_feed_iff (feed_atoms ..) P).symm
          | none => simp

theorem reads_of_readTokens {fuel : Nat} {frames : List Frame} {done ts : List TokenTree}
    {c : Cursor} (h : readTokens fuel frames done c = .ok ts) :
    ∃ as m, Reads c as ⟨[], m⟩ ∧ atomsOf ts = pending frames done ++ as := by
  induction fuel generalizing frames done c with
  | zero => cases h
  | succ fuel ih =>
    rcases readTokens_succ_eq_ok_iff.1 h with ⟨hrest, rfl, rfl⟩ | ⟨as, next, _, _, ha, hfeed, h⟩
    · refine ⟨[], c.skipBlank.mark, ?_, by simp [pending]⟩
      have := reads_skipBlank c
      rwa [← hrest]
    · obtain ⟨bs, m, hreads, hts⟩ := ih h
      refine ⟨as ++ bs, m, (reads_skipBlank c).trans (.step ha hreads), ?_⟩
      rw [hts, feed_pending hfeed, List.append_assoc]

theorem readTokens_of_reads {fuel : Nat} {frames : List Frame} {done ts : List TokenTree}
    {as : List Atom} {c : Cursor} {m : Mark} (hfuel : c.rest.length < fuel)
    (h : Reads c as ⟨[], m⟩) (hfeed : feed frames done as = some ([], ts)) :
    readTokens fuel frames done c = .ok ts.reverse := by
  induction fuel generalizing frames done as c with
  | zero => omega
  | succ fuel ih =>
    obtain ⟨bs, rfl, hbs⟩ := (reads_skipBlank c).of_end h
    have hlen : c.skipBlank.rest.length ≤ c.rest.length :=
      (skipBlankFuel_suffix _ _).length_le
    refine readTokens_succ_eq_ok_iff.2 ?_
    generalize c.skipBlank = d at hbs hlen ⊢
    cases hbs with
    | done =>
      cases hfeed
      exact .inl ⟨rfl, rfl, rfl⟩
    | @step _ next _ as bs ha hrest =>
      rw [feed_append] at hfeed
      obtain ⟨⟨frames', done'⟩, hfeed', hfeed⟩ := Option.bind_eq_some_iff.1 hfeed
      have := (advance?_shortens ha).1.length_lt
      exact .inr ⟨as, next, frames', done', ha, hfeed', ih (by omega) hrest hfeed⟩

/-- The tokens of a text are those whose atoms are read on the way to its end. -/
theorem tokensFrom_eq_ok_iff {mark : Mark} {source : List Char} {ts : List TokenTree} :
    tokensFrom mark source = .ok ts ↔
      ∃ m, Reads ((Cursor.mk source mark).moveTo (dropByteOrderMark source)) (atomsOf ts) ⟨[], m⟩ := by
  constructor
  · intro h
    obtain ⟨as, m, hreads, hts⟩ := reads_of_readTokens h
    simp only [pending, List.reverse_nil, atomsOf_nil, List.nil_append] at hts
    exact ⟨m, hts ▸ hreads⟩
  · rintro ⟨m, h⟩
    have hlen : (dropByteOrderMark source).length ≤ source.length := by
      unfold dropByteOrderMark
      split
      · simp
      · split <;> simp
    have hfuel : ((Cursor.mk source mark).moveTo (dropByteOrderMark source)).rest.length <
        source.length + 1 := by
      simp only [Cursor.moveTo]
      omega
    simpa [tokensFrom] using readTokens_of_reads hfuel h (feed_atomsOf [] [] ts)

end InlineMarkup.Host
