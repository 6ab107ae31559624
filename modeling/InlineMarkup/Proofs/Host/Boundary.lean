import InlineMarkup.Proofs.Host.Reading
import InlineMarkup.Proofs.Blank
import Mathlib.Data.Bool.AllAny

/-!
Where lexemes end. A parenthesis, a closing brace, a comma, a colon or a blank behind a text ends the
lexeme before it, so the text is read in the same way as by itself; only an open string, character or
comment would go on.
-/

set_option autoImplicit false

namespace InlineMarkup.Host.Lexeme

open InlineMarkup.Text

/-- The characters that end every lexeme before them. -/
def stops : List Char :=
  [',', ')', '(', ':', '\x7d'] ++ blankCodes.map Char.ofNat

def Stops (tail : List Char) : Prop :=
  ∃ c t, tail = c :: t ∧ c ∈ stops

theorem stops_closing_brace (tail : List Char) : Stops ('\x7d' :: tail) :=
  ⟨_, tail, rfl, by decide⟩

theorem stops_blank {c : Char} (h : isBlank c = true) (tail : List Char) : Stops (c :: tail) := by
  refine ⟨c, tail, rfl, List.mem_append_right _ ?_⟩
  exact List.mem_map.2 ⟨c.toNat, isBlank_iff.1 h, Char.ofNat_toNat c⟩

/-- A text that begins with a parenthesis, a comma or a colon. -/
def Breaks (tail : List Char) : Prop :=
  ∃ c t, tail = c :: t ∧ c ∈ [',', ')', '(', ':']

theorem breaks_cons (c : Char) (tail : List Char) (h : c ∈ [',', ')', '(', ':'] := by decide) :
    Breaks (c :: tail) :=
  ⟨c, tail, rfl, h⟩

theorem Breaks.head {tail : List Char} (hb : Breaks tail) {p : Char → Bool}
    (hp : ∀ c ∈ [',', ')', '(', ':'], p c = false) {c : Char} {t : List Char}
    (h : tail = c :: t) : p c = false := by
  obtain ⟨d, u, rfl, hd⟩ := hb
  obtain ⟨rfl, -⟩ := List.cons.inj h
  exact hp d hd

theorem Breaks.stops {tail : List Char} (hb : Breaks tail) : Stops tail := by
  obtain ⟨c, t, rfl, hc⟩ := hb
  refine ⟨c, t, rfl, List.mem_append_left _ ?_⟩
  have hsub : [',', ')', '(', ':'] ⊆ [',', ')', '(', ':', '\x7d'] := by decide
  exact hsub hc

section

variable {tail : List Char} (hb : Stops tail)

include hb

theorem dropWhile_append_stop {p : Char → Bool} (hp : ∀ c ∈ stops, p c = false)
    (s : List Char) : (s ++ tail).dropWhile p = s.dropWhile p ++ tail := by
  induction s with
  | nil =>
    obtain ⟨c, t, rfl, hc⟩ := hb
    simp [hp c hc]
  | cons c s ih =>
    by_cases hc : p c = true
    · simp [hc, ih]
    · simp [hc]

theorem isPrefixOf_append_stop {m : List Char} (hm : ∀ c ∈ stops, c ∉ m)
    (s : List Char) : m.isPrefixOf (s ++ tail) = m.isPrefixOf s := by
  induction m generalizing s with
  | nil => simp
  | cons d m ih =>
    cases s with
    | nil =>
      obtain ⟨c, t, rfl, hc⟩ := hb
      have hcd : d ≠ c := by
        rintro rfl
        exact hm d hc (by simp)
      simp [List.isPrefixOf_cons_cons, hcd]
    | cons e s =>
      simp only [List.cons_append, List.isPrefixOf_cons_cons]
      rw [ih fun c hc hmem => hm c hc (List.mem_cons_of_mem d hmem)]

/-- A text ends inside the mark of an error only before its closing parenthesis. -/
theorem errorMark_of_append_stop {s : List Char} (hs : s ≠ [])
    (hopen : s ≠ '(' :: "/*ERROR*/".toList) (h : errorMark <+: s ++ tail) : errorMark <+: s := by
  obtain ⟨c, s, rfl⟩ := List.exists_cons_of_ne_nil hs
  obtain ⟨v, hv⟩ := h
  simp only [errorMark, List.cons_append, List.append_assoc, List.cons.injEq] at hv
  obtain ⟨rfl, hv⟩ := hv
  have hbody : "/*ERROR*/".toList.isPrefixOf s = true := by
    rw [← isPrefixOf_append_stop hb (List.all_iff_forall_prop.1 (by decide)) s,
      List.isPrefixOf_iff_prefix]
    exact ⟨')' :: v, hv⟩
  obtain ⟨t, rfl⟩ := List.isPrefixOf_iff_prefix.1 hbody
  cases t with
  | nil => simp at hopen
  | cons d t =>
    rw [List.append_assoc] at hv
    obtain ⟨rfl, -⟩ := List.cons.inj (List.append_cancel_left hv)
    exact ⟨t, by simp [errorMark]⟩

theorem plainWord?_append_stop (s : List Char) :
    plainWord? (s ++ tail) = (plainWord? s).map (· ++ tail) := by
  cases s with
  | nil =>
    obtain ⟨c, t, rfl, hc⟩ := hb
    have : ∀ c ∈ stops, isIdentifierStart c = false :=
      List.all_iff_forall_prop.1 (by decide +kernel)
    simp [plainWord?, this c hc]
  | cons c s =>
    simp only [List.cons_append, plainWord?]
    split
    · rw [dropWhile_append_stop hb (List.all_iff_forall_prop.1 (by decide +kernel))]
      rfl
    · rfl

theorem dropSuffix_append_stop (s : List Char) : dropSuffix (s ++ tail) = dropSuffix s ++ tail := by
  unfold dropSuffix
  rw [plainWord?_append_stop hb]
  cases plainWord? s <;> rfl

theorem endsWord_append_stop (s : List Char) : endsWord (s ++ tail) = endsWord s := by
  cases s with
  | nil =>
    obtain ⟨c, t, rfl, hc⟩ := hb
    have : ∀ c ∈ stops, isIdentifierContinue c = false :=
      List.all_iff_forall_prop.1 (by decide +kernel)
    simp [endsWord, this c hc]
  | cons c s => rfl

omit hb in
theorem before_append_append (s rest tail : List Char) :
    before (s ++ tail) (rest ++ tail) = before s rest := by
  simp only [before, List.length_append, Nat.add_sub_add_right]
  rw [List.take_append_of_le_length (by omega)]

theorem anyWord?_append_stop (s : List Char) :
    anyWord? (s ++ tail) = (anyWord? s).map (· ++ tail) := by
  by_cases hraw : ∃ r, s = 'r' :: '#' :: r
  · obtain ⟨r, rfl⟩ := hraw
    simp only [List.cons_append, anyWord?, plainWord?_append_stop hb]
    cases plainWord? r with
    | none => rfl
    | some rest =>
      simp only [Option.map_some, Option.bind_eq_bind, Option.bind_some, before_append_append]
      split <;> rfl
  · have hs : anyWord? s = plainWord? s := by
      unfold anyWord?
      split
      · exact absurd ⟨_, rfl⟩ hraw
      · rfl
    have ht : anyWord? (s ++ tail) = plainWord? (s ++ tail) := by
      unfold anyWord?
      split
      · rename_i r hr
        obtain ⟨c, t, rfl, hc⟩ := hb
        have hne : ∀ c ∈ stops, c ≠ 'r' ∧ c ≠ '#' := List.all_iff_forall_prop.1 (by decide)
        have hc := hne c hc
        rcases s with _ | ⟨a, _ | ⟨b, s⟩⟩
        · simp_all
        · simp_all
        · simp_all
      · rfl
    rw [hs, ht, plainWord?_append_stop hb]

theorem word?_append_stop (s : List Char) : word? (s ++ tail) = (word? s).map (· ++ tail) := by
  have hany : literalStarts.any (·.isPrefixOf (s ++ tail)) = literalStarts.any (·.isPrefixOf s) := by
    have hstarts : literalStarts.all (fun m => stops.all (· ∉ m)) = true := by decide
    replace hstarts := fun m hm => List.all_iff_forall_prop.1 (List.all_eq_true.1 hstarts m hm)
    rw [Bool.eq_iff_iff]
    simp only [List.any_eq_true]
    constructor <;> rintro ⟨m, hm, hp⟩ <;> refine ⟨m, hm, ?_⟩
    · rwa [isPrefixOf_append_stop hb (hstarts m hm)] at hp
    · rwa [isPrefixOf_append_stop hb (hstarts m hm)]
  unfold word?
  rw [hany]
  split
  · rfl
  · exact anyWord?_append_stop hb s

theorem mantissa?_append_stop (point : Bool) (s : List Char) :
    mantissa? point (s ++ tail) = (mantissa? point s).map fun p => (p.1, p.2 ++ tail) := by
  have hstop : ∀ point, mantissa? point tail = some (point, tail) := by
    intro point
    obtain ⟨c, t, rfl, hc⟩ := hb
    have : ∀ c ∈ stops, (c.isDigit || c == '_') = false ∧ c ≠ '.' :=
      List.all_iff_forall_prop.1 (by decide)
    simp [mantissa?, this c hc]
  induction s generalizing point with
  | nil => simp [hstop, mantissa?]
  | cons c s ih =>
    simp only [List.cons_append, mantissa?]
    split
    · exact ih point
    · split
      · cases s with
        | nil =>
          obtain ⟨d, t, rfl, hd⟩ := hb
          have : ∀ c ∈ stops, (c == '.' || isIdentifierStart c) = false :=
            List.all_iff_forall_prop.1 (by decide +kernel)
          simp only [List.nil_append, this d hd, Bool.false_eq_true, if_false]
          rw [hstop]
          rfl
        | cons d s =>
          simp only [List.cons_append]
          split
          · rfl
          · exact ih true
      · rfl

theorem exponent?_append_stop (signed valued : Bool) (s : List Char) :
    exponent? signed valued (s ++ tail) = (exponent? signed valued s).map (· ++ tail) := by
  induction s generalizing signed valued with
  | nil =>
    obtain ⟨c, t, rfl, hc⟩ := hb
    have : ∀ c ∈ stops, c ≠ '+' ∧ c ≠ '-' ∧ c.isDigit = false ∧ c ≠ '_' :=
      List.all_iff_forall_prop.1 (by decide)
    cases valued <;> simp [exponent?, this c hc]
  | cons c s ih =>
    simp only [List.cons_append, exponent?]
    split
    · split
      · rfl
      · split
        · rfl
        · exact ih true valued
    · split
      · exact ih signed true
      · split
        · exact ih signed valued
        · split <;> rfl

theorem floatDigits?_append_stop (s : List Char) :
    floatDigits? (s ++ tail) = (floatDigits? s).map (· ++ tail) := by
  cases s with
  | nil =>
    obtain ⟨c, t, rfl, hc⟩ := hb
    have : ∀ c ∈ stops, c.isDigit = false :=
      List.all_iff_forall_prop.1 (by decide)
    simp [floatDigits?, this c hc]
  | cons d digits =>
    simp only [List.cons_append, floatDigits?, mantissa?_append_stop hb]
    split
    · cases mantissa? false digits with
      | none => rfl
      | some p =>
        obtain ⟨point, rest⟩ := p
        simp only [Option.map_some, Option.bind_eq_bind, Option.bind_some]
        cases rest with
        | nil =>
          obtain ⟨c, t, rfl, hc⟩ := hb
          have : ∀ c ∈ stops, ¬(c = 'e' ∨ c = 'E') :=
            List.all_iff_forall_prop.1 (by decide)
          simp only [List.nil_append, if_neg (this c hc)]
          split <;> rfl
        | cons c exponent =>
          simp only [List.cons_append, exponent?_append_stop hb]
          split
          · cases exponent? false false exponent with
            | none => simp only [Option.map_none]; split <;> rfl
            | some after => rfl
          · split <;> rfl
    · rfl

theorem integerDigits?_append_stop (base : Nat) (met : Bool) (s : List Char) :
    integerDigits? base met (s ++ tail) = (integerDigits? base met s).map (· ++ tail) := by
  induction s generalizing met with
  | nil =>
    obtain ⟨c, t, rfl, hc⟩ := hb
    have : ∀ c ∈ stops, c ≠ '_' ∧ Markup.hexDigit? c = none :=
      List.all_iff_forall_prop.1 (by decide)
    cases met <;> simp [integerDigits?, this c hc]
  | cons c s ih =>
    simp only [List.cons_append, integerDigits?]
    split
    · split
      · rfl
      · exact ih met
    · split
      · split
        · exact ih true
        · split
          · rfl
          · split <;> rfl
      · split <;> rfl

theorem integer?_append_stop (s : List Char) :
    integer? (s ++ tail) = (integer? s).map (· ++ tail) := by
  by_cases hbase : ∃ c r, s = '0' :: c :: r ∧ c ∈ ['x', 'o', 'b']
  · obtain ⟨c, r, rfl, hc⟩ := hbase
    simp only [List.mem_cons, List.not_mem_nil, or_false] at hc
    rcases hc with rfl | rfl | rfl <;> exact integerDigits?_append_stop hb _ _ r
  · have hs : integer? s = integerDigits? 10 false s := by
      unfold integer?
      split
      · exact absurd ⟨_, _, rfl, by simp⟩ hbase
      · exact absurd ⟨_, _, rfl, by simp⟩ hbase
      · exact absurd ⟨_, _, rfl, by simp⟩ hbase
      · rfl
    have ht : integer? (s ++ tail) = integerDigits? 10 false (s ++ tail) := by
      obtain ⟨c, t, rfl, hc⟩ := hb
      have hne : ∀ c ∈ stops, c ∉ ['0', 'x', 'o', 'b'] := List.all_iff_forall_prop.1 (by decide)
      have hc := hne c hc
      rcases s with _ | ⟨a, _ | ⟨b, s⟩⟩
      · unfold integer?
        split <;> simp_all
      · unfold integer?
        split <;> simp_all
      · unfold integer?
        split <;> simp_all
    rw [hs, ht, integerDigits?_append_stop hb]

theorem numberEnd?_append_stop (s : List Char) :
    numberEnd? (s ++ tail) = (numberEnd? s).map (· ++ tail) := by
  simp only [numberEnd?, dropSuffix_append_stop hb, endsWord_append_stop hb]
  split <;> rfl

theorem number?_append_stop (s : List Char) : number? (s ++ tail) = (number? s).map (· ++ tail) := by
  have hend : ∀ x : Option (List Char),
      (x.map (· ++ tail)) >>= numberEnd? = (x >>= numberEnd?).map (· ++ tail) := by
    intro x
    cases x with
    | none => rfl
    | some r => exact numberEnd?_append_stop hb r
  unfold number?
  rw [floatDigits?_append_stop hb, integer?_append_stop hb, hend, hend]
  cases floatDigits? s >>= numberEnd? <;> rfl

omit hb in
theorem cookedFrom_append {kind : StringKind} {place : StringPlace} {s rest : List Char}
    (h : cookedFrom kind place s = some rest) (tail : List Char) :
    cookedFrom kind place (s ++ tail) = some (rest ++ tail) := by
  fun_induction cookedFrom kind place s <;> simp_all [cookedFrom]

theorem rawFrom_append_stop {kind : StringKind} {hashes : Nat} {s rest : List Char}
    (h : rawFrom kind hashes s = some rest) :
    rawFrom kind hashes (s ++ tail) = some (rest ++ tail) := by
  -- no stop is a hash, so the tail does not complete a closing quote
  have hhash : ∀ c ∈ stops, c ∉ List.replicate hashes '#' := by
    intro c hc hmem
    rw [List.eq_of_mem_replicate hmem] at hc
    revert hc
    decide
  fun_induction rawFrom kind hashes s with
  | case1 => cases h
  | case2 s ih => simpa [rawFrom] using ih h
  | case3 => cases h
  | case4 c s hr hr' hc =>
    cases h
    obtain ⟨t, ht⟩ := List.isPrefixOf_iff_prefix.1 hc.2
    have hlen : hashes ≤ s.length := by
      rw [← ht]
      simp
    have hp : c = '"' ∧ (List.replicate hashes '#').isPrefixOf (s ++ tail) = true := by
      rw [isPrefixOf_append_stop hb hhash]
      exact hc
    obtain ⟨rfl, hp⟩ := hp
    simp [rawFrom, hp, List.drop_append_of_le_length hlen]
  | case5 c s hr hr' hc hk ih =>
    have hp : ¬(c = '"' ∧ (List.replicate hashes '#').isPrefixOf (s ++ tail) = true) := by
      rw [isPrefixOf_append_stop hb hhash]
      exact hc
    have hcr : c ≠ '\r' := by
      rintro rfl
      exact hr' rfl
    rw [List.cons_append, rawFrom]
    · rw [if_neg hp, if_pos hk, ih h]
    · rintro t rfl
      exact absurd rfl hcr
    · exact hcr
  | case6 => cases h

omit hb in
theorem raw?_eq {kind : StringKind} (hashes : Nat) (body : List Char) :
    raw? kind (List.replicate hashes '#' ++ '"' :: body) =
      if hashes > 255 then none else rawFrom kind hashes body := by
  have htake : (List.replicate hashes '#' ++ '"' :: body).takeWhile (· == '#') =
      List.replicate hashes '#' :=
    takeWhile_append_stop body (fun c hc => by simp [List.eq_of_mem_replicate hc]) (by decide)
  have hdrop : (List.replicate hashes '#' ++ '"' :: body).drop hashes = '"' :: body := by
    rw [List.drop_append_of_le_length (by simp)]
    simp
  simp only [raw?, htake, List.length_replicate, hdrop]

omit hb in
theorem eq_append_of_raw? {kind : StringKind} {s rest : List Char} (h : raw? kind s = some rest) :
    ∃ hashes body, s = List.replicate hashes '#' ++ '"' :: body := by
  have hsplit := List.takeWhile_append_dropWhile (p := (· == '#')) (l := s)
  have hdrop : s.drop (s.takeWhile (· == '#')).length = s.dropWhile (· == '#') := by
    conv => lhs; arg 2; rw [← hsplit]
    exact List.drop_left
  have hall : s.takeWhile (· == '#') = List.replicate (s.takeWhile (· == '#')).length '#' :=
    List.eq_replicate_iff.2 ⟨rfl, fun c hc => by simpa using List.mem_takeWhile_imp hc⟩
  simp only [raw?, hdrop] at h
  split at h
  · rename_i body hbody
    exact ⟨_, body, by rw [← hall, ← hbody, hsplit]⟩
  · cases h

theorem raw?_append_stop {kind : StringKind} {s rest : List Char} (h : raw? kind s = some rest) :
    raw? kind (s ++ tail) = some (rest ++ tail) := by
  obtain ⟨hashes, body, rfl⟩ := eq_append_of_raw? h
  rw [raw?_eq] at h
  rw [List.append_assoc, List.cons_append, raw?_eq]
  split at h
  · cases h
  · rename_i hmany
    rw [if_neg hmany, rawFrom_append_stop hb h]

theorem string?_append_stop {s rest : List Char} (h : string? s = some rest) :
    string? (s ++ tail) = some (rest ++ tail) := by
  unfold string? at h
  split at h
  · exact cookedFrom_append h tail
  · exact raw?_append_stop hb h
  · exact cookedFrom_append h tail
  · exact raw?_append_stop hb h
  · exact cookedFrom_append h tail
  · exact raw?_append_stop hb h
  · cases h

omit hb in
theorem unicodeEscape?_append {count value : Nat} {s rest : List Char}
    (h : unicodeEscape? count value s = some rest) (tail : List Char) :
    unicodeEscape? count value (s ++ tail) = some (rest ++ tail) := by
  induction s generalizing count value with
  | nil => cases h
  | cons c s ih =>
    simp only [List.cons_append, unicodeEscape?] at h ⊢
    split at h <;> simp_all

omit hb in
theorem escape?_append {kind : StringKind} {s rest : List Char} (h : escape? kind s = some rest)
    (tail : List Char) : escape? kind (s ++ tail) = some (rest ++ tail) := by
  unfold escape? at h
  split at h
  · rename_i a b s
    split at h
    · split at h
      · cases h
        simp_all [escape?]
      · cases h
    · cases h
  · split at h
    · simp_all [escape?, unicodeEscape?_append h tail]
    · cases h
  · split at h
    · rename_i c s hx hu hc
      cases h
      rw [List.cons_append, escape?]
      · exact if_pos hc
      · rintro a b t rfl
        exact absurd hc (by decide)
      · rintro t rfl
        exact absurd hc (by decide)
    · cases h
  · cases h

omit hb in
theorem characterBody?_append {kind : StringKind} {s rest : List Char}
    (h : characterBody? kind s = some rest) (tail : List Char) :
    characterBody? kind (s ++ tail) = some (rest ++ tail) := by
  unfold characterBody? at h
  split at h
  · cases h
  · simpa [characterBody?] using escape?_append h tail
  · split at h
    · cases h
      simp_all [characterBody?]
    · cases h

omit hb in
theorem strip?_append {p s rest : List Char} (h : strip? p s = some rest) (tail : List Char) :
    strip? p (s ++ tail) = some (rest ++ tail) := by
  induction p generalizing s with
  | nil =>
    cases h
    rfl
  | cons c p ih =>
    cases s with
    | nil => cases h
    | cons d s =>
      simp only [List.cons_append, strip?] at h ⊢
      split at h
      · rename_i hcd
        rw [if_pos hcd, ih h]
      · cases h

omit hb in
theorem character?_append {s rest : List Char} (h : character? s = some rest) (tail : List Char) :
    character? (s ++ tail) = some (rest ++ tail) := by
  unfold character? at h
  split at h
  · obtain ⟨r, hr, h⟩ := Option.bind_eq_some_iff.1 h
    simp [character?, characterBody?_append hr tail, strip?_append h tail]
  · obtain ⟨r, hr, h⟩ := Option.bind_eq_some_iff.1 h
    simp [character?, characterBody?_append hr tail, strip?_append h tail]
  · cases h

omit hb in
theorem number?_eq_cons {s rest : List Char} (h : number? s = some rest) :
    ∃ d r, s = d :: r ∧ d.isDigit = true := by
  unfold number? at h
  split at h
  · rename_i hr
    obtain ⟨t, ht, -⟩ := Option.bind_eq_some_iff.1 hr
    unfold floatDigits? at ht
    split at ht
    · rename_i d digits
      split at ht
      · exact ⟨d, digits, rfl, by assumption⟩
      · cases ht
    · cases ht
  · obtain ⟨t, ht, -⟩ := Option.bind_eq_some_iff.1 h
    unfold integer? at ht
    split at ht
    · exact ⟨_, _, rfl, by decide⟩
    · exact ⟨_, _, rfl, by decide⟩
    · exact ⟨_, _, rfl, by decide⟩
    · cases s with
      | nil => cases ht
      | cons c s =>
        refine ⟨c, s, rfl, ?_⟩
        simp only [integerDigits?, Markup.hexDigit?] at ht
        -- a letter counts ten at least, so none is a digit in base ten
        by_contra hc
        simp only [hc, Bool.false_eq_true, if_false] at ht
        split at ht
        · simp at ht
        · split at ht
          · rename_i d hd
            split at hd
            · cases hd
              split at ht
              · omega
              · cases ht
            · split at hd
              · cases hd
                split at ht
                · omega
                · cases ht
              · cases hd
          · cases ht

omit hb in
theorem string?_of_digit {d : Char} (r : List Char) (h : d.isDigit = true) :
    string? (d :: r) = none ∧ character? (d :: r) = none := by
  have hd : d ≠ '"' ∧ d ≠ 'r' ∧ d ≠ 'b' ∧ d ≠ 'c' ∧ d ≠ '\'' := by
    refine ⟨?_, ?_, ?_, ?_, ?_⟩ <;> rintro rfl <;> cases h
  simp [string?, character?, hd]

theorem literal?_append_stop {s rest : List Char} (h : literal? s = some rest) :
    literal? (s ++ tail) = some (rest ++ tail) := by
  unfold literal? at h
  cases hstring : string? s with
  | some r =>
    rw [hstring] at h
    cases h
    simp only [literal?, string?_append_stop hb hstring, dropSuffix_append_stop hb]
  | none =>
    rw [hstring] at h
    cases hchar : character? s with
    | some r =>
      rw [hchar] at h
      cases h
      have hnone : string? (s ++ tail) = none := by
        unfold character? at hchar
        split at hchar
        · rfl
        · rfl
        · cases hchar
      simp only [literal?, hnone, character?_append hchar tail, dropSuffix_append_stop hb]
    | none =>
      rw [hchar] at h
      simp only at h
      obtain ⟨d, r, rfl, hd⟩ := number?_eq_cons h
      obtain ⟨hs, hc⟩ := string?_of_digit (r ++ tail) hd
      have hn := number?_append_stop hb (d :: r)
      rw [h] at hn
      simp only [List.cons_append] at hn ⊢
      simp only [literal?, hs, hc, hn, Option.map_some]

theorem startsPunctuation_append_stop {s : List Char} (hs : s ≠ []) :
    startsPunctuation (s ++ tail) = startsPunctuation s := by
  obtain ⟨c, t, rfl, hc⟩ := hb
  have hne : ∀ c ∈ stops, c ≠ '/' ∧ c ≠ '*' := List.all_iff_forall_prop.1 (by decide)
  rcases s with _ | ⟨a, _ | ⟨b, s⟩⟩
  · exact absurd rfl hs
  · by_cases ha : a = '/'
    · simp [startsPunctuation, ha, hne c hc]
    · simp [startsPunctuation, ha]
  · by_cases ha : a = '/'
    · by_cases hs : b = '/'
      · simp [startsPunctuation, ha, hs]
      · by_cases hstar : b = '*' <;> simp [startsPunctuation, ha, hs, hstar]
    · simp [startsPunctuation, ha]

/-- A character may become joint to what is put behind it. -/
theorem punct?_append_stop {s rest : List Char} {c : Char} {joint : Bool}
    (h : punct? s = some (c, joint, rest)) :
    ∃ joint', (joint = true → joint' = true) ∧
      punct? (s ++ tail) = some (c, joint', rest ++ tail) := by
  unfold punct? at h
  split at h
  · rename_i r
    obtain ⟨after, hafter, h⟩ := Option.bind_eq_some_iff.1 h
    split at h
    · cases h
    · rename_i hclash
      cases h
      refine ⟨true, fun _ => rfl, ?_⟩
      have hprefix := isPrefixOf_append_stop hb (m := ['r', '#'])
        (List.all_iff_forall_prop.1 (by decide)) rest
      -- the lifetime may reach the tail, which begins neither with a quote nor with a hash
      have hhead : (after ++ tail).head? = after.head? ∨
          ((after ++ tail).head? ≠ some '\'' ∧ (after ++ tail).head? ≠ some '#') := by
        cases after with
        | nil =>
          obtain ⟨c, t, rfl, hc⟩ := hb
          have : ∀ c ∈ stops, c ≠ '\'' ∧ c ≠ '#' :=
            List.all_iff_forall_prop.1 (by decide)
          simpa using this c hc
        | cons a after => exact .inl rfl
      simp only [List.cons_append, punct?, anyWord?_append_stop hb, hafter, Option.map_some,
        Option.bind_eq_bind, Option.bind_some, hprefix]
      rw [if_neg]
      rcases hhead with hhead | hhead
      · rwa [hhead]
      · rintro (h | ⟨h, -⟩)
        · exact hhead.1 h
        · exact hhead.2 h
  · rename_i c r hquote
    split at h
    · rename_i hstarts
      cases h
      have hc : c ≠ '\'' := by
        rintro rfl
        exact hquote rfl
      have := startsPunctuation_append_stop hb (s := c :: rest) (by simp)
      rw [hstarts] at this
      refine ⟨startsPunctuation (rest ++ tail), fun hj => ?_, ?_⟩
      · rw [startsPunctuation_append_stop hb ?_]
        · exact hj
        · rintro rfl
          cases hj
      · simp only [List.cons_append] at this ⊢
        simp [punct?, this]
    · cases h
  · cases h

end

def beginsLeaf (c : Char) : Bool :=
  c == '"' || c == '\'' || c.isDigit || isIdentifierStart c || punctuation.contains c

theorem isHostBlank_of_beginsLeaf {c : Char} (h : beginsLeaf c = true) : isHostBlank c = false := by
  have hnone : isHostBlank c = true → beginsLeaf c = false := by
    intro hblank
    simp only [isHostBlank, Bool.or_eq_true, beq_iff_eq] at hblank
    rcases hblank with (hblank | rfl) | rfl
    · exact forall_isBlank (p := fun c => beginsLeaf c = false) (by decide +kernel) hblank
    · decide +kernel
    · decide +kernel
  by_contra hblank
  rw [hnone (by simpa using hblank)] at h
  cases h

theorem no_bracket_of_beginsLeaf {c : Char} (h : beginsLeaf c = true) (r : List Char) :
    opening? (c :: r) = none ∧ closing? c = none := by
  have hc : c ∉ ['(', '[', '\x7b', ')', ']', '\x7d'] := by
    intro hmem
    have : ∀ c ∈ ['(', '[', '\x7b', ')', ']', '\x7d'], beginsLeaf c = false :=
      List.all_iff_forall_prop.1 (by decide)
    rw [this c hmem] at h
    cases h
  simp only [List.mem_cons, List.not_mem_nil, or_false, not_or] at hc
  simp [opening?, closing?, hc]

theorem plainWord?_eq_cons {s rest : List Char} (h : plainWord? s = some rest) :
    ∃ c r, s = c :: r ∧ isIdentifierStart c = true := by
  cases s with
  | nil => cases h
  | cons c r =>
    simp only [plainWord?] at h
    split at h
    · exact ⟨c, r, rfl, by assumption⟩
    · cases h

theorem anyWord?_eq_cons {s rest : List Char} (h : anyWord? s = some rest) :
    ∃ c r, s = c :: r ∧ isIdentifierStart c = true := by
  unfold anyWord? at h
  split at h
  · exact ⟨'r', _, rfl, by decide⟩
  · exact plainWord?_eq_cons h

theorem word?_eq_cons {s rest : List Char} (h : word? s = some rest) :
    ∃ c r, s = c :: r ∧ isIdentifierStart c = true := by
  unfold word? at h
  split at h
  · cases h
  · exact anyWord?_eq_cons h

theorem of_isIdentifierStart {c : Char} (h : isIdentifierStart c = true) :
    c.isDigit = false ∧ c ∉ punctuation ∧ c ≠ '"' := by
  have hne : ∀ d, isIdentifierStart d = false → c ≠ d := by
    rintro d hd rfl
    rw [hd] at h
    cases h
  refine ⟨?_, fun hmem => ?_, hne _ (by decide)⟩
  · by_contra hdigit
    obtain ⟨hlow, hhigh⟩ := toNat_of_isDigit (by simpa using hdigit)
    have hnone : ∀ n : Fin 10, isIdentifierStart (Char.ofNat (n.val + 48)) = false := by decide
    refine hne _ (hnone ⟨c.toNat - 48, by omega⟩) ?_
    simp only
    rw [Nat.sub_add_cancel hlow, Char.ofNat_toNat]
  · have hnone : ∀ d ∈ punctuation, isIdentifierStart d = false :=
    List.all_iff_forall_prop.1 (by decide)
    exact hne c (hnone c hmem) rfl

theorem not_prefix_of_word? {s rest : List Char} (h : word? s = some rest) :
    ∀ m ∈ literalStarts, ¬ m <+: s := by
  intro m hm hp
  unfold word? at h
  split at h
  · cases h
  · rename_i hany
    exact hany (List.any_eq_true.2 ⟨m, hm, List.isPrefixOf_iff_prefix.2 hp⟩)

/-- Whether a raw string begins after some letters is seen from the next two characters. -/
theorem raw?_starts {kind : StringKind} {s rest : List Char} (h : raw? kind s = some rest) :
    (∃ t, s = '"' :: t) ∨ (∃ t, s = '#' :: '"' :: t) ∨ ∃ t, s = '#' :: '#' :: t := by
  obtain ⟨hashes, body, rfl⟩ := eq_append_of_raw? h
  rcases hashes with _ | _ | n
  · exact .inl ⟨body, rfl⟩
  · exact .inr (.inl ⟨body, rfl⟩)
  · exact .inr (.inr ⟨List.replicate n '#' ++ '"' :: body, rfl⟩)

theorem string?_of_word? {s rest : List Char} (h : word? s = some rest) : string? s = none := by
  have hno := not_prefix_of_word? h
  by_contra hstring
  obtain ⟨r, hr⟩ := Option.ne_none_iff_exists'.1 hstring
  unfold string? at hr
  split at hr
  · obtain ⟨c, r, hc, hstart⟩ := word?_eq_cons h
    obtain ⟨rfl, -⟩ := List.cons.inj hc
    cases hstart
  · obtain ⟨t, rfl⟩ | ⟨t, rfl⟩ | ⟨t, rfl⟩ := raw?_starts hr
    · exact hno "r\"".toList (by decide) ⟨t, rfl⟩
    · exact hno "r#\"".toList (by decide) ⟨t, rfl⟩
    · exact hno "r##".toList (by decide) ⟨t, rfl⟩
  · exact hno "b\"".toList (by decide) ⟨_, rfl⟩
  · obtain ⟨t, rfl⟩ | ⟨t, rfl⟩ | ⟨t, rfl⟩ := raw?_starts hr
    · exact hno "br\"".toList (by decide) ⟨t, rfl⟩
    · exact hno "br#".toList (by decide) ⟨_, rfl⟩
    · exact hno "br#".toList (by decide) ⟨_, rfl⟩
  · exact hno "c\"".toList (by decide) ⟨_, rfl⟩
  · obtain ⟨t, rfl⟩ | ⟨t, rfl⟩ | ⟨t, rfl⟩ := raw?_starts hr
    · exact hno "cr\"".toList (by decide) ⟨t, rfl⟩
    · exact hno "cr#".toList (by decide) ⟨_, rfl⟩
    · exact hno "cr#".toList (by decide) ⟨_, rfl⟩
  · cases hr

theorem number?_eq_none {c : Char} (r : List Char) (h : c.isDigit = false) :
    number? (c :: r) = none := by
  by_contra hnumber
  obtain ⟨rest, hrest⟩ := Option.ne_none_iff_exists'.1 hnumber
  obtain ⟨d, r', hd, hdigit⟩ := number?_eq_cons hrest
  obtain ⟨rfl, -⟩ := List.cons.inj hd
  rw [h] at hdigit
  cases hdigit

theorem of_word? {s rest : List Char} (h : word? s = some rest) :
    literal? s = none ∧ punct? s = none := by
  have hstring := string?_of_word? h
  have hno := not_prefix_of_word? h
  obtain ⟨c, r, rfl, hc⟩ := word?_eq_cons h
  obtain ⟨hdigit, hpunct, -⟩ := of_isIdentifierStart hc
  have hapostrophe : c ≠ '\'' := by
    rintro rfl
    exact hpunct (by decide)
  have hslash : c ≠ '/' := by
    rintro rfl
    exact hpunct (by decide)
  have hchar : character? (c :: r) = none := by
    unfold character?
    split
    · rename_i hr
      exact absurd (List.cons.inj hr).1 hapostrophe
    · rename_i t hr
      exact absurd ⟨t, hr.symm⟩ (hno "b'".toList (by decide))
    · rfl
  refine ⟨by simp only [literal?, hstring, hchar, number?_eq_none r hdigit], ?_⟩
  simp [punct?, startsPunctuation, hslash, hpunct]

theorem mem_of_startsPunctuation {c : Char} {r : List Char}
    (h : startsPunctuation (c :: r) = true) : c ∈ punctuation := by
  unfold startsPunctuation at h
  split at h
  · cases h
  · cases h
  · rename_i hr
    rw [(List.cons.inj hr).1]
    simpa using h
  · cases h

theorem character?_of_lifetime {r after : List Char} (h : anyWord? r = some after)
    (hafter : after.head? ≠ some '\'') : character? ('\'' :: r) = none := by
  obtain ⟨a, t, rfl, ha⟩ := anyWord?_eq_cons h
  have hbody : characterBody? .text (a :: t) = some t := by
    rw [characterBody?]
    · simp
    · rintro rfl
      cases ha
  simp only [character?, hbody, Option.bind_eq_bind, Option.bind_some]
  by_contra hstrip
  obtain ⟨u, hu⟩ := Option.ne_none_iff_exists'.1 hstrip
  obtain rfl := eq_append_of_strip? hu
  have hword : anyWord? (a :: '\'' :: u) = some ('\'' :: u) := by
    have hstop : isIdentifierContinue '\'' = false := by decide
    simp [anyWord?, plainWord?, ha, hstop]
  rw [show a :: (['\''] ++ u) = a :: '\'' :: u from rfl, hword] at h
  cases h
  exact hafter rfl

theorem of_punct? {s rest : List Char} {c : Char} {joint : Bool}
    (h : punct? s = some (c, joint, rest)) : literal? s = none ∧ c ∈ punctuation := by
  obtain rfl := punct?_eq_cons h
  by_cases hc : c = '\''
  · subst hc
    refine ⟨?_, by decide⟩
    obtain ⟨after, hafter, h⟩ := Option.bind_eq_some_iff.1 h
    split at h
    · cases h
    · rename_i hclash
      have hstring : string? ('\'' :: rest) = none := rfl
      have hdigit : '\''.isDigit = false := by decide
      simp only [literal?, hstring, character?_of_lifetime hafter fun h => hclash (.inl h),
        number?_eq_none rest hdigit]
  · have hmem : c ∈ punctuation := by
      unfold punct? at h
      split at h
      · rename_i hr
        exact absurd (List.cons.inj hr).1 hc
      · split at h
        · exact mem_of_startsPunctuation ‹_›
        · cases h
      · cases h
    have hletters : ∀ d ∈ punctuation,
        d ≠ '"' ∧ d ≠ 'r' ∧ d ≠ 'b' ∧ d ≠ 'c' ∧ d.isDigit = false :=
      List.all_iff_forall_prop.1 (by decide)
    obtain ⟨hquote, hr, hb, hc', hdigit⟩ := hletters c hmem
    refine ⟨?_, hmem⟩
    have hstring : string? (c :: rest) = none := by simp [string?, hquote, hr, hb, hc']
    have hchar : character? (c :: rest) = none := by simp [character?, hb, hc]
    simp only [literal?, hstring, hchar, number?_eq_none rest hdigit]

/-- A slash that is punctuation begins no comment, and no other character does. -/
theorem no_comment {c : Char} {r : List Char}
    (h : c ≠ '/' ∨ startsPunctuation (c :: r) = true) :
    plainComment? (c :: r) = none ∧ docComment? (c :: r) = none := by
  by_cases hc : c = '/'
  · subst hc
    have hstarts : startsPunctuation ('/' :: r) = true := by simpa using h
    have hr : ∀ t, r ≠ '/' :: t ∧ r ≠ '*' :: t := by
      intro t
      constructor <;> rintro rfl <;> cases hstarts
    constructor
    · unfold plainComment?
      split <;> simp_all
    · have : docCommentText? ('/' :: r) = none := by
        unfold docCommentText?
        split <;> simp_all
      simp [docComment?, this]
  · have : docCommentText? (c :: r) = none := by simp [docCommentText?, hc]
    exact ⟨by simp [plainComment?, hc], by simp [docComment?, this]⟩

theorem literal?_eq_cons {s rest : List Char} (h : literal? s = some rest) :
    ∃ c r, s = c :: r ∧ beginsLeaf c = true ∧ c ≠ '/' := by
  unfold literal? at h
  split at h
  · rename_i hr
    unfold string? at hr
    split at hr <;> first | exact ⟨_, _, rfl, by decide, by decide⟩ | cases hr
  · split at h
    · rename_i hr
      unfold character? at hr
      split at hr <;> first | exact ⟨_, _, rfl, by decide, by decide⟩ | cases hr
    · obtain ⟨d, r, rfl, hd⟩ := number?_eq_cons h
      refine ⟨d, r, rfl, by simp [beginsLeaf, hd], ?_⟩
      rintro rfl
      cases hd

end InlineMarkup.Host.Lexeme

namespace InlineMarkup.Host

open InlineMarkup.Text

theorem opening?_eq_some_iff {s : List Char} {d : Delimiter} :
    opening? s = some d ↔ (∃ r, s = d.opening :: r) ∧ ¬Lexeme.errorMark <+: s := by
  constructor
  · intro h
    unfold opening? at h
    split at h
    · split at h
      · cases h
      · rename_i hnot
        cases h
        exact ⟨⟨_, rfl⟩, mt List.isPrefixOf_iff_prefix.2 hnot⟩
    · cases h
      exact ⟨⟨_, rfl⟩, by simp [Lexeme.errorMark]⟩
    · cases h
      exact ⟨⟨_, rfl⟩, by simp [Lexeme.errorMark]⟩
    · cases h
  · rintro ⟨⟨r, rfl⟩, hnot⟩
    cases d with
    | parenthesis => exact if_neg (mt List.isPrefixOf_iff_prefix.1 hnot)
    | bracket => rfl
    | brace => rfl

theorem opening?_errorMark (r : List Char) : opening? (Lexeme.errorMark ++ r) = none := by
  cases h : opening? (Lexeme.errorMark ++ r) with
  | none => rfl
  | some d => exact absurd (List.prefix_append _ r) (opening?_eq_some_iff.1 h).2

theorem leaf?_errorMark (r : List Char) (m : Mark) :
    leaf? ⟨Lexeme.errorMark ++ r, m⟩ =
      some (.literal Lexeme.errorMark ⟨m, Lexeme.errorMark.foldl Mark.after m⟩,
        ⟨r, Lexeme.errorMark.foldl Mark.after m⟩) := by
  have hmark : Lexeme.errorMark.isPrefixOf (Lexeme.errorMark ++ r) = true :=
    List.isPrefixOf_iff_prefix.2 (List.prefix_append _ r)
  have hliteral : Lexeme.literal? (Lexeme.errorMark ++ r) = none :=
    Lexeme.number?_eq_none (c := '(') _ rfl
  have hpunct : Lexeme.punct? (Lexeme.errorMark ++ r) = none := rfl
  have hword : Lexeme.word? (Lexeme.errorMark ++ r) = none := rfl
  simp only [leaf?, hliteral, hpunct, hword, hmark, if_true, List.drop_left, Cursor.moveTo_append]

theorem leaf?_eq_cons {c next : Cursor} {t : TokenTree} (h : leaf? c = some (t, next)) :
    ∃ d r, c.rest = d :: r ∧ (Lexeme.beginsLeaf d = true ∨ Lexeme.errorMark <+: c.rest) ∧
      (d ≠ '/' ∨ Lexeme.startsPunctuation c.rest = true) := by
  unfold leaf? at h
  split at h
  · rename_i hrest
    obtain ⟨d, r, hr, hd, hslash⟩ := Lexeme.literal?_eq_cons hrest
    exact ⟨d, r, hr, .inl hd, .inl hslash⟩
  · split at h
    · rename_i char joint rest hrest
      have hr := Lexeme.punct?_eq_cons hrest
      refine ⟨char, rest, hr, .inl (by simp [Lexeme.beginsLeaf, (Lexeme.of_punct? hrest).2]), ?_⟩
      rw [hr] at hrest ⊢
      unfold Lexeme.punct? at hrest
      split at hrest
      · rename_i hq
        obtain ⟨rfl, -⟩ := List.cons.inj hq
        exact .inl (by decide)
      · split at hrest
        · exact .inr ‹_›
        · cases hrest
      · cases hrest
    · split at h
      · rename_i rest hrest
        obtain ⟨d, r, hr, hd⟩ := Lexeme.word?_eq_cons hrest
        refine ⟨d, r, hr, .inl (by simp [Lexeme.beginsLeaf, hd]), .inl ?_⟩
        rintro rfl
        cases hd
      · split at h
        · rename_i hmark
          have hmark := List.isPrefixOf_iff_prefix.1 hmark
          obtain ⟨r, hr⟩ := id hmark
          exact ⟨'(', _, hr.symm, .inr hmark, .inl (by decide)⟩
        · cases h

namespace Cursor

theorem advance?_leaf {c next : Cursor} {t : TokenTree} (h : leaf? c = some (t, next)) :
    c.advance? = some (t.atoms, next) := by
  obtain ⟨d, r, hr, hd, hslash⟩ := leaf?_eq_cons h
  rw [hr] at hd hslash
  obtain ⟨hplain, hdoc⟩ := Lexeme.no_comment hslash
  have ⟨hblank, hopen, hclose⟩ : Lexeme.isHostBlank d = false ∧ opening? (d :: r) = none ∧
      closing? d = none := by
    rcases hd with hd | ⟨s, hs⟩
    · exact ⟨Lexeme.isHostBlank_of_beginsLeaf hd, Lexeme.no_bracket_of_beginsLeaf hd r⟩
    · rw [← hs, ← (List.cons.inj hs).1]
      exact ⟨by decide, opening?_errorMark s, rfl⟩
  simp only [advance?, hr, hplain, hdoc, hblank, Bool.false_eq_true, if_false, hopen, hclose, h,
    Option.map_some]

theorem advance?_opening {c : Cursor} {d : Delimiter} {char : Char} {r : List Char}
    (hr : c.rest = char :: r) (h : opening? c.rest = some d) :
    c.advance? = some ([.opening d ⟨c.mark, (c.moveTo r).mark⟩], c.moveTo r) := by
  rw [hr] at h
  have hchar : char ≠ '/' ∧ Lexeme.isHostBlank char = false := by
    obtain ⟨⟨r, heq⟩, -⟩ := opening?_eq_some_iff.1 h
    obtain ⟨rfl, -⟩ := List.cons.inj heq
    cases d <;> decide
  obtain ⟨hplain, hdoc⟩ := Lexeme.no_comment (r := r) (.inl hchar.1)
  simp only [advance?, hr, hplain, hdoc, hchar.2, Bool.false_eq_true, if_false, h]

theorem advance?_closing {c : Cursor} {d : Delimiter} {char : Char} {r : List Char}
    (hr : c.rest = char :: r) (h : closing? char = some d) :
    c.advance? = some ([.closing d ⟨c.mark, (c.moveTo r).mark⟩], c.moveTo r) := by
  have hchar : char ≠ '/' ∧ Lexeme.isHostBlank char = false ∧ opening? (char :: r) = none := by
    unfold closing? at h
    split at h
    · subst char; exact ⟨by decide, by decide, rfl⟩
    · split at h
      · subst char; exact ⟨by decide, by decide, rfl⟩
      · split at h
        · subst char; exact ⟨by decide, by decide, rfl⟩
        · cases h
  obtain ⟨hplain, hdoc⟩ := Lexeme.no_comment (r := r) (.inl hchar.1)
  simp only [advance?, hr, hplain, hdoc, hchar.2, Bool.false_eq_true, if_false, h]

theorem advance?_blank {c : Cursor} {char : Char} {r : List Char} (hr : c.rest = char :: r)
    (h : Lexeme.isHostBlank char = true) : c.advance? = some ([], c.moveTo r) := by
  have hchar : char ≠ '/' := by
    rintro rfl
    cases h
  obtain ⟨hplain, -⟩ := Lexeme.no_comment (r := r) (.inl hchar)
  simp only [advance?, hr, hplain, h, if_true]

end Cursor

theorem reads_opening {d : Delimiter} {r : List Char}
    (h : ¬Lexeme.errorMark <+: d.opening :: r) (m : Mark) :
    Reads ⟨d.opening :: r, m⟩ [.opening d ⟨m, m.after d.opening⟩] ⟨r, m.after d.opening⟩ := by
  have hmove : (Cursor.mk (d.opening :: r) m).moveTo r = ⟨r, m.after d.opening⟩ :=
    Cursor.moveTo_append [d.opening] r m
  have hopen := opening?_eq_some_iff.2 ⟨⟨r, rfl⟩, h⟩
  have := Cursor.advance?_opening (c := ⟨d.opening :: r, m⟩) rfl hopen
  rw [hmove] at this
  exact .single this

theorem reads_closing (d : Delimiter) (r : List Char) (m : Mark) :
    Reads ⟨d.closing :: r, m⟩ [.closing d ⟨m, m.after d.closing⟩] ⟨r, m.after d.closing⟩ := by
  have hmove : (Cursor.mk (d.closing :: r) m).moveTo r = ⟨r, m.after d.closing⟩ :=
    Cursor.moveTo_append [d.closing] r m
  have hclose : closing? d.closing = some d := by cases d <;> rfl
  have := Cursor.advance?_closing (c := ⟨d.closing :: r, m⟩) rfl hclose
  rw [hmove] at this
  exact .single this

theorem reads_blank {c : Char} (h : Lexeme.isHostBlank c = true) (r : List Char) (m : Mark) :
    Reads ⟨c :: r, m⟩ [] ⟨r, m.after c⟩ := by
  have hmove : (Cursor.mk (c :: r) m).moveTo r = ⟨r, m.after c⟩ := Cursor.moveTo_append [c] r m
  have := Cursor.advance?_blank (c := ⟨c :: r, m⟩) rfl h
  rw [hmove] at this
  exact .single this

theorem reads_blanks {s : List Char} (h : ∀ c ∈ s, Lexeme.isHostBlank c = true) (r : List Char)
    (m : Mark) : ∃ m', Reads ⟨s ++ r, m⟩ [] ⟨r, m'⟩ := by
  induction s generalizing m with
  | nil => exact ⟨m, .done _⟩
  | cons c s ih =>
    obtain ⟨m', hs⟩ := ih (fun d hd => h d (List.mem_cons_of_mem c hd)) (m.after c)
    exact ⟨m', (reads_blank (h c List.mem_cons_self) (s ++ r) m).trans hs⟩

end InlineMarkup.Host
