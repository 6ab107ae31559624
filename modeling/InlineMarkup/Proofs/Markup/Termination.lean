import InlineMarkup.Proofs.Location
import InlineMarkup.Proofs.Markup.Balance
import Mathlib.Data.List.Chain

/-!
Reading markup moves on, leaves nothing out and ends (`reading_moves_on`).

Every token, every attribute and every round of the loop over the attributes of a start tag that is
not the last takes at least one character. This loop and the one over the tokens therefore have at
most one round for each character that is left, and one more to see that none is.

Both loops are given here by their single rounds, apart from the functions that read a tag and a
region, so that their ending is not put in by the form of a definition: `rounds` may run out.
-/

set_option autoImplicit false

namespace InlineMarkup

/-- What one round of a loop comes to. -/
inductive Round (σ ρ : Type) where
  | again (state : σ)
  | done (result : ρ)

/-- The result of a loop that ends within `n` rounds; `none` for one that does not. -/
def rounds {σ ρ : Type} (round : σ → Round σ ρ) : Nat → σ → Option ρ
  | 0, _ => none
  | n + 1, state =>
    match round state with
    | .again state => rounds round n state
    | .done result => some result

/-- What a round may do in a loop that computes `f`: end with the value of `f`, or lead to a state of
the same value that is related to the state before. -/
inductive Round.Computes {σ ρ : Type} (f : σ → ρ) (relation : σ → σ → Prop) (state : σ) :
    Round σ ρ → Prop
  | again {state' : σ} : relation state state' → f state = f state' →
      Computes f relation state (.again state')
  | done {result : ρ} : f state = result → Computes f relation state (.done result)

/-- A loop whose rounds compute `f` and make its state smaller ends, with the value of `f`. -/
theorem rounds_eq {σ ρ : Type} {round : σ → Round σ ρ} {f : σ → ρ} {relation : σ → σ → Prop}
    (size : σ → Nat) (hround : ∀ s, (round s).Computes f relation s)
    (hsize : ∀ s s', relation s s' → size s' < size s) {n : Nat} {s : σ} (h : size s < n) :
    rounds round n s = some (f s) := by
  induction n generalizing s with
  | zero => omega
  | succ n ih =>
    have hs := hround s
    rw [rounds]
    cases hr : round s with
    | again s' =>
      rw [hr] at hs
      cases hs with
      | again hrel hf =>
        have hlt := hsize s s' hrel
        rw [hf]
        exact ih (by omega)
    | done r =>
      rw [hr] at hs
      cases hs with
      | done hf => rw [hf]

end InlineMarkup

namespace InlineMarkup.Markup

open InlineMarkup.Text

def Passes (s rest : List Char) : Prop :=
  ∃ w, w ≠ [] ∧ s = w ++ rest

theorem Passes.length_lt {s rest : List Char} (h : Passes s rest) : rest.length < s.length := by
  obtain ⟨w, hw, rfl⟩ := h
  have := List.length_pos_iff.2 hw
  rw [List.length_append]
  omega

/-- Reading `input` goes from the place where `s` is left to that where `rest` is left. The second
comes after the first, and it lies between two characters, or at the end. -/
structure MovesOn (input s rest : List Char) : Prop where
  forward : offsetOf input s < offsetOf input rest
  inside : offsetOf input rest ≤ byteLength input
  boundary : IsBoundary input (offsetOf input rest)
  left : dropBytes (offsetOf input rest) input = rest

theorem Passes.movesOn {input s rest : List Char} (h : Passes s rest) (hs : s <:+ input) :
    MovesOn input s rest := by
  obtain ⟨w, hw, rfl⟩ := h
  obtain ⟨before, rfl⟩ := hs
  have hinput : before ++ (w ++ rest) = (before ++ w) ++ rest := by rw [List.append_assoc]
  have hoffset : offsetOf (before ++ (w ++ rest)) rest = byteLength (before ++ w) := by
    rw [hinput, offsetOf_append]
  have hboundary : IsBoundary (before ++ (w ++ rest)) (offsetOf (before ++ (w ++ rest)) rest) :=
    isBoundary_offsetOf ⟨before ++ w, hinput.symm⟩
  refine ⟨?_, hboundary.le, hboundary, ?_⟩
  · have hpos : byteLength w ≠ 0 := fun hzero => hw (byteLength_eq_zero_iff.1 hzero)
    rw [hoffset, offsetOf_append, byteLength_append]
    omega
  · rw [hoffset, hinput, dropBytes_append]

theorem offsetOf_eq_byteLength_iff {input s : List Char} (hs : s <:+ input) :
    offsetOf input s = byteLength input ↔ s = [] := by
  obtain ⟨before, rfl⟩ := hs
  rw [offsetOf_append, byteLength_append, ← byteLength_eq_zero_iff]
  omega

/-- A tag or a comment begins here. -/
inductive BeginsMarkup : List Char → Prop
  | comment {s : List Char} : BeginsMarkup ('<' :: '!' :: '-' :: '-' :: s)
  | endTag {c : Char} {s : List Char} : c.isAlpha = true → BeginsMarkup ('<' :: '/' :: c :: s)
  | startTag {c : Char} {s : List Char} : c.isLower = true → BeginsMarkup ('<' :: c :: s)

theorem opensMarkup_iff {s : List Char} : opensMarkup s = true ↔ BeginsMarkup s := by
  constructor
  · intro h
    unfold opensMarkup at h
    split at h
    · exact .comment
    · exact .endTag h
    · exact .startTag h
    · cases h
  · intro h
    cases h with
    | comment => rfl
    | endTag hc => exact hc
    | startTag hc => exact (opensMarkup_of_lower _ hc).1

theorem BeginsMarkup.append {s : List Char} (h : BeginsMarkup s) (y : List Char) :
    BeginsMarkup (s ++ y) := by
  cases h with
  | comment => exact .comment
  | endTag hc => exact .endTag hc
  | startTag hc => exact .startTag hc

theorem suffix_textRun {s later : List Char} (hs : later <:+ s) (h : BeginsMarkup later) :
    later <:+ (textRun s).2 := by
  induction s with
  | nil => exact hs
  | cons c s ih =>
    rw [textRun]
    split
    · exact hs
    · rename_i hc
      rcases List.suffix_cons_iff.1 hs with rfl | hs
      · exact absurd (opensMarkup_iff.2 h) hc
      · exact ih hs

theorem opensMarkup_textRun (s : List Char) : opensMarkup (textRun s).1 = false := by
  by_contra hopen
  rw [Bool.not_eq_false] at hopen
  have hs := (opensMarkup_iff.1 hopen).append (textRun s).2
  rw [textRun_append] at hs
  cases s with
  | nil => cases hopen
  | cons c s =>
    rw [textRun, if_pos (opensMarkup_iff.2 hs)] at hopen
    cases hopen

theorem textRun_alone (s : List Char) : textRun (textRun s).1 = ((textRun s).1, []) := by
  induction s with
  | nil => rfl
  | cons c s ih =>
    have hfirst := opensMarkup_textRun (c :: s)
    rw [textRun] at hfirst ⊢
    split
    · rfl
    · rename_i hc
      rw [if_neg hc] at hfirst
      simp [textRun, hfirst, ih]

def Token.isText : Token → Bool
  | .text _ => true
  | _ => false

theorem textRun_of_next {s rest : List Char} {t : Token} (h : next s = .ok (some (t, rest)))
    (ho : opensMarkup s = false) :
    (textRun s).1 ≠ [] ∧ t = .text (textRun s).1 ∧ rest = (textRun s).2 := by
  cases s with
  | nil => cases h
  | cons c s =>
    rw [next_text (by simp) ho] at h
    cases h
    exact ⟨by simp [textRun, ho], rfl, rfl⟩

theorem isText_of_next {s rest : List Char} {t : Token} (h : next s = .ok (some (t, rest))) :
    t.isText = !opensMarkup s := by
  cases ho : opensMarkup s with
  | false =>
    obtain ⟨-, rfl, -⟩ := textRun_of_next h ho
    rfl
  | true =>
    cases s with
    | nil => cases ho
    | cons c s =>
      simp only [next, ho, if_true] at h
      split at h
      · have hc := map_some_ok h
        unfold commentToken at hc
        split at hc
        · cases hc
          rfl
        · cases hc
      · split at h
        · have ht := map_some_ok h
          simp only [endTag] at ht
          split at ht
          · cases ht
            rfl
          · cases ht
        · have ht := map_some_ok h
          simp only [startTag] at ht
          split at ht
          · cases ht
            rfl
          · cases ht
          · cases ht

/-- Every token has a text of its own, which is this token when read alone. -/
theorem next_alone {s rest : List Char} {t : Token} (h : next s = .ok (some (t, rest))) :
    ∃ piece, s = piece ++ rest ∧ next piece = .ok (some (t, [])) := by
  cases ho : opensMarkup s with
  | true =>
    obtain ⟨piece, hs, -, hnext⟩ := next_local ho h
    exact ⟨piece, hs, by simpa using (hnext []).2⟩
  | false =>
    obtain ⟨hne, rfl, rfl⟩ := textRun_of_next h ho
    refine ⟨(textRun s).1, (textRun_append s).symm, ?_⟩
    rw [next_text hne (opensMarkup_textRun s), textRun_alone]

theorem text_of_next {s raw rest : List Char} (h : next s = .ok (some (.text raw, rest))) :
    s = raw ++ rest ∧ (rest = [] ∨ BeginsMarkup rest) ∧
      ∀ later, later <:+ s → BeginsMarkup later → later <:+ rest := by
  have ho : opensMarkup s = false := by simpa [Token.isText] using (isText_of_next h).symm
  obtain ⟨-, hraw, rfl⟩ := textRun_of_next h ho
  cases hraw
  refine ⟨(textRun_append s).symm, ?_, fun later => suffix_textRun⟩
  by_cases hrest : (textRun s).2 = []
  · exact .inl hrest
  · exact .inr (opensMarkup_iff.1 (textRun_stops hrest))

/-- The tokens leave nothing out: what they are read from is the text up to `rest`, piece by piece. -/
theorem Tokenizes.exists_pieces {s rest : List Char} {ts : List Token} (h : Tokenizes s ts rest) :
    ∃ pieces, s = pieces.flatten ++ rest ∧
      List.Forall₂ (fun t piece => next piece = .ok (some (t, []))) ts pieces := by
  induction h with
  | nil => exact ⟨[], rfl, .nil⟩
  | cons ht _ ih =>
    obtain ⟨piece, rfl, hpiece⟩ := next_alone ht
    obtain ⟨pieces, rfl, hpieces⟩ := ih
    exact ⟨piece :: pieces, by simp, .cons hpiece hpieces⟩

theorem Tokenizes.isChain {s rest : List Char} {ts : List Token} (h : Tokenizes s ts rest) :
    ts.IsChain fun t u => t.isText = true → u.isText = false := by
  induction h with
  | nil => exact .nil
  | @cons s mid rest t ts ht h ih =>
    refine List.isChain_cons.2 ⟨fun u hu htext => ?_, ih⟩
    cases h with
    | nil => cases hu
    | cons hu' _ =>
      cases hu
      cases t with
      | text raw =>
        -- a token follows, so the text did not go on to the end
        rcases (text_of_next ht).2.1 with rfl | hmid
        · cases hu'
        · rw [isText_of_next hu', opensMarkup_iff.2 hmid]
          rfl
      | startTag => cases htext
      | endTag => cases htext
      | comment => cases htext

theorem passes_of_next {s rest : List Char} {t : Token} (h : next s = .ok (some (t, rest))) :
    Passes s rest := by
  obtain ⟨piece, happend, hpiece⟩ := next_alone h
  refine ⟨piece, ?_, happend⟩
  rintro rfl
  cases hpiece

theorem Tokenizes.suffix {s rest : List Char} {ts : List Token} (h : Tokenizes s ts rest) :
    rest <:+ s := by
  obtain ⟨pieces, hs, -⟩ := h.exists_pieces
  exact ⟨pieces.flatten, hs.symm⟩

theorem Tokenizes.length_le {s rest : List Char} {ts : List Token} (h : Tokenizes s ts rest) :
    ts.length + rest.length ≤ s.length := by
  induction h with
  | nil => simp
  | cons ht _ ih =>
    have hlt := next_length ht
    rw [List.length_cons]
    omega

theorem exists_tokenizes (s : List Char) :
    ∃ ts rest, Tokenizes s ts rest ∧ (rest = [] ∨ ∃ fault, next rest = .error fault) := by
  induction hlen : s.length using Nat.strong_induction_on generalizing s with
  | _ n ih =>
    cases hnext : next s with
    | error fault => exact ⟨[], s, .nil, .inr ⟨fault, hnext⟩⟩
    | ok found =>
      cases found with
      | none => exact ⟨[], s, .nil, .inl (eq_nil_of_next hnext)⟩
      | some found =>
        obtain ⟨t, mid⟩ := found
        obtain ⟨ts, rest, hts, hrest⟩ := ih mid.length (hlen ▸ next_length hnext) mid rfl
        exact ⟨t :: ts, rest, .cons hnext hts, hrest⟩

def attributeRound : List Attribute × List Char →
    Round (List Attribute × List Char) (Except AttributeFault (List Attribute × Bool × List Char))
  | (read, s) =>
    match s.dropWhile isBlank with
    | [] => .done (.error .endOfInput)
    | c :: r =>
      if c = '>' then .done (.ok (read, false, r))
      else if c = '/' then
        if r.head? = some '>' then .done (.ok (read, true, r.tail)) else .again (read, r)
      else
        match readAttribute (c :: r) with
        | .error e => .done (.error e)
        | .ok (a, r') => .again (read ++ [a], r')

def tagRestAfter : List Attribute × List Char →
    Except AttributeFault (List Attribute × Bool × List Char)
  | (read, s) => (tagRest s).map fun found => (read ++ found.1, found.2)

theorem tagRest_of_blank {s : List Char} (h : s.dropWhile isBlank = []) :
    tagRest s = .error .endOfInput := by
  rw [tagRest]
  split
  · rfl
  · rename_i hb
    rw [h] at hb
    cases hb

theorem attributeRound_computes (state : List Attribute × List Char) :
    (attributeRound state).Computes tagRestAfter (fun p q => Passes p.2 q.2) state := by
  obtain ⟨read, s⟩ := state
  simp only [attributeRound]
  split
  · rename_i hb
    exact .done (by rw [tagRestAfter, tagRest_of_blank hb]; rfl)
  · rename_i c r hb
    have hs := (eq_append_of_dropWhile hb).1
    have hafter : tagRestAfter (read, s) = (tagRest s).map fun found => (read ++ found.1, found.2) :=
      rfl
    rw [tagRest_of_dropBlank hb] at hafter
    split
    · rename_i hangle
      rw [if_pos hangle] at hafter
      exact .done (by simp [hafter, Except.map])
    · rename_i hangle
      rw [if_neg hangle] at hafter
      split
      · rename_i hslash
        rw [if_pos hslash] at hafter
        split
        · rename_i hclose
          rw [if_pos hclose] at hafter
          exact .done (by simp [hafter, Except.map])
        · -- a slash by itself is one character
          rename_i hclose
          rw [if_neg hclose] at hafter
          exact .again ⟨s.takeWhile isBlank ++ [c], by simp, by simpa using hs⟩ hafter
      · rename_i hslash
        rw [if_neg hslash] at hafter
        split <;> rename_i ha <;> simp only [ha] at hafter
        · exact .done hafter
        · rename_i a r'
          -- white space after the attribute that was looked at and left does not count
          obtain ⟨w, hw, hr, -⟩ := readAttribute_local (by simp) ha
          rw [hr] at hs
          refine .again ⟨s.takeWhile isBlank ++ w, by simp [hw], by simpa using hs⟩ ?_
          rw [hafter, tagRestAfter]
          cases tagRest r' <;> simp [Except.map]

theorem rounds_attributeRound {s : List Char} {n : Nat} (h : s.length < n) :
    rounds attributeRound n ([], s) = some (tagRest s) := by
  have hafter : tagRestAfter ([], s) = tagRest s := by
    rw [tagRestAfter]
    cases tagRest s <;> rfl
  rw [← hafter]
  exact rounds_eq (fun state => state.2.length) attributeRound_computes
    (fun _ _ => Passes.length_lt) h

def readRound (input : List Char) : List Element × List Char →
    Round (List Element × List Char) (Except Error (Option Captured))
  | (opened, start) =>
    match next start with
    | .error fault => .done (.error (fault.toError input))
    | .ok none => .done ((atEnd input opened).map fun _ => none)
    | .ok (some (token, rest)) =>
      match advance input start rest opened token with
      | .error e => .done (.error e)
      | .ok .notMarkup => .done (.ok none)
      | .ok (.root e) => .done (.ok (some ⟨e, input.take (input.length - rest.length)⟩))
      | .ok (.more opened) => .again (opened, rest)

/-- The region at the front of a text, if at most `n` rounds are needed to read it. -/
def captureWithin (n : Nat) (input : List Char) : Option (Except Error (Option Captured)) :=
  if opensTag input then rounds (readRound input) n ([], input) else some (.ok none)

/-- The region of which some elements are open and the text from `start` on is left. -/
def captureAfter (input : List Char) : List Element × List Char → Except Error (Option Captured)
  | (opened, start) => (readFrom input opened start).map fun found =>
      found.map fun p => ⟨p.1, input.take (input.length - p.2.length)⟩

theorem readRound_computes (input : List Char) (state : List Element × List Char) :
    (readRound input state).Computes (captureAfter input) (fun p q => Passes p.2 q.2) state := by
  obtain ⟨opened, start⟩ := state
  simp only [readRound]
  split
  · rename_i fault hfault
    refine .done ?_
    rw [captureAfter, readFrom_of_fault hfault]
    rfl
  · rename_i hend
    refine .done ?_
    rw [captureAfter, eq_nil_of_next hend, readFrom_nil]
    cases opened <;> rfl
  · rename_i t rest ht
    have hread : readFrom input opened start = _ := readFrom_of_next ht
    split <;> rename_i ha <;> rw [ha] at hread
    · exact .done (by rw [captureAfter, hread]; rfl)
    · exact .done (by rw [captureAfter, hread]; rfl)
    · exact .done (by rw [captureAfter, hread]; rfl)
    · exact .again (passes_of_next ht) (by rw [captureAfter, hread]; rfl)

theorem captureWithin_eq {input : List Char} {n : Nat} (h : input.length < n) :
    captureWithin n input = some (capture input) := by
  unfold captureWithin capture
  split
  · exact rounds_eq (fun state => state.2.length) (readRound_computes input)
      (fun _ _ => Passes.length_lt) h
  · rfl

/-- Wherever the tokens of a text lead, there is no further token exactly if this is the end, and
otherwise the next token, if it is finished, leads on. Text goes on to the next tag, comment or the
end, so that it never follows text, and together the tokens are the whole text up to that place. They
lead to the end if every tag and comment is finished.

Within a start tag every attribute, and every round of the loop over the attributes but the last,
leads on. This loop and that over the tokens of a region end after one round more than there are
characters, at the latest. -/
theorem reading_moves_on (input : List Char) :
    (∀ ts s, Tokenizes input ts s →
      (next s = .ok none ↔ offsetOf input s = byteLength input) ∧
      (∀ t rest, next s = .ok (some (t, rest)) → MovesOn input s rest) ∧
      (∀ raw rest, next s = .ok (some (.text raw, rest)) →
        s = raw ++ rest ∧ (rest = [] ∨ BeginsMarkup rest) ∧
          ∀ later, later <:+ s → BeginsMarkup later → later <:+ rest) ∧
      (ts.IsChain fun t u => t.isText = true → u.isText = false) ∧
      ∃ pieces, input = pieces.flatten ++ s ∧
        List.Forall₂ (fun t piece => next piece = .ok (some (t, []))) ts pieces) ∧
    (∃ ts s, Tokenizes input ts s ∧ ts.length ≤ input.length ∧
      (s = [] ∨ ∃ fault, next s = .error fault)) ∧
    (∀ s, s <:+ input →
      (∀ read read' rest, attributeRound (read, s) = .again (read', rest) → MovesOn input s rest) ∧
      (∀ a rest, s ≠ [] → readAttribute s = .ok (a, rest) → MovesOn input s rest) ∧
      ∀ n, s.length < n → rounds attributeRound n ([], s) = some (tagRest s)) ∧
    ∀ n, input.length < n → captureWithin n input = some (capture input) := by
  refine ⟨fun ts s h => ?_, ?_, fun s hs => ⟨?_, ?_, fun n => rounds_attributeRound⟩,
    fun n => captureWithin_eq⟩
  · refine ⟨?_, fun t rest ht => (passes_of_next ht).movesOn h.suffix, fun raw rest => text_of_next,
      h.isChain, h.exists_pieces⟩
    rw [offsetOf_eq_byteLength_iff h.suffix]
    refine ⟨eq_nil_of_next, ?_⟩
    rintro rfl
    rfl
  · obtain ⟨ts, s, h, hend⟩ := exists_tokenizes input
    have hlen := h.length_le
    exact ⟨ts, s, h, by omega, hend⟩
  · intro read read' rest hagain
    have hround := attributeRound_computes (read, s)
    rw [hagain] at hround
    cases hround with
    | again hpasses _ => exact hpasses.movesOn hs
  · intro a rest hne ha
    obtain ⟨w, hw, happend, -⟩ := readAttribute_local hne ha
    exact Passes.movesOn ⟨w, hw, happend⟩ hs

/-- A slash by itself, an equals sign that is a name, and an angle bracket that opens nothing. -/
theorem reading_moves_on_stray :
    Tokenizes "<p / =é>é < b</p>".toList
      [.startTag ['p'] [⟨['='], []⟩, ⟨['é'], []⟩] false] "é < b</p>".toList ∧
    next "é < b</p>".toList = .ok (some (.text "é < b".toList, "</p>".toList)) ∧
    MovesOn "<p / =é>é < b</p>".toList "é < b</p>".toList "</p>".toList ∧
    attributeRound ([], "/ =é>é < b</p>".toList) = .again ([], " =é>é < b</p>".toList) ∧
    MovesOn "<p / =é>é < b</p>".toList "/ =é>é < b</p>".toList " =é>é < b</p>".toList ∧
    readAttribute "=é>é < b</p>".toList = .ok (⟨['='], []⟩, "é>é < b</p>".toList) ∧
    MovesOn "<p / =é>é < b</p>".toList "=é>é < b</p>".toList "é>é < b</p>".toList ∧
    captureWithin 18 "<p / =é>é < b</p>".toList = some (capture "<p / =é>é < b</p>".toList) := by
  have hts : Tokenizes "<p / =é>é < b</p>".toList
      [.startTag ['p'] [⟨['='], []⟩, ⟨['é'], []⟩] false] "é < b</p>".toList :=
    .cons (eq_ok_of_toOption (by decide +kernel)) .nil
  have htext : next "é < b</p>".toList = .ok (some (.text "é < b".toList, "</p>".toList)) :=
    eq_ok_of_toOption (by decide +kernel)
  have hround : attributeRound ([], "/ =é>é < b</p>".toList) = .again ([], " =é>é < b</p>".toList) := by
    rfl
  have hattribute : readAttribute "=é>é < b</p>".toList = .ok (⟨['='], []⟩, "é>é < b</p>".toList) :=
    eq_ok_of_toOption (by decide +kernel)
  have hslash : "/ =é>é < b</p>".toList <:+ "<p / =é>é < b</p>".toList :=
    ⟨"<p ".toList, by decide +kernel⟩
  have hequals : "=é>é < b</p>".toList <:+ "<p / =é>é < b</p>".toList :=
    ⟨"<p / ".toList, by decide +kernel⟩
  obtain ⟨htokens, -, hattributes, hcapture⟩ := reading_moves_on "<p / =é>é < b</p>".toList
  exact ⟨hts, htext, (htokens _ _ hts).2.1 _ _ htext, hround, (hattributes _ hslash).1 _ _ _ hround,
    hattribute, (hattributes _ hequals).2.1 _ _ (by simp) hattribute, hcapture 18 (by decide)⟩

end InlineMarkup.Markup
