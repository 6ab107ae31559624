import InlineMarkup.Proofs.Markup.Escape
import Mathlib.Data.Nat.Digits.Defs
import Mathlib.Data.List.Forall2

/-!
What references stand for. A reference is a name, or a number in decimal or hexadecimal digits
(`Denotes`), and a text is read with its references from left to right (`Decodes`).

Numbers are also read with a plus sign in front (`DenotesSigned`). So a text is read as it should be
exactly if no such reference stands in it (`decode_iff_unsigned`).
-/

set_option autoImplicit false

namespace InlineMarkup.Markup

open InlineMarkup.Text

/-- A digit with a value below the base; letters may be small or capital. -/
def IsNumeral (base : Nat) (c : Char) (n : Nat) : Prop :=
  n < base ∧ (c = n.digitChar ∨ c = n.digitChar.toUpper)

instance (base : Nat) (c : Char) (n : Nat) : Decidable (IsNumeral base c n) :=
  inferInstanceAs (Decidable (_ ∧ _))

/-- One or more digits, which come to a number. -/
def SpellsNumber (base : Nat) (digits : List Char) (n : Nat) : Prop :=
  digits ≠ [] ∧
    ∃ values, List.Forall₂ (IsNumeral base) digits values ∧ Nat.ofDigits base values.reverse = n

theorem toNat_of_hexDigit? {c : Char} {n : Nat} (h : hexDigit? c = some n) : c.toNat < 128 := by
  unfold hexDigit? at h
  split at h
  · have := toNat_of_isDigit ‹_›
    omega
  · split at h
    · have hle := UInt32.le_iff_toNat_le.1 (Char.le_def.1 (And.right ‹_›))
      exact Nat.lt_of_le_of_lt hle (by decide)
    · split at h
      · have hle := UInt32.le_iff_toNat_le.1 (Char.le_def.1 (And.right ‹_›))
        exact Nat.lt_of_le_of_lt hle (by decide)
      · cases h

theorem hexDigit?_eq_some_iff {c : Char} {n : Nat} : hexDigit? c = some n ↔ IsNumeral 16 c n := by
  constructor
  · intro h
    have htable : ∀ m < 128, ∀ n ∈ hexDigit? (Char.ofNat m), IsNumeral 16 (Char.ofNat m) n := by
      decide
    have hc := htable c.toNat (toNat_of_hexDigit? h)
    rw [Char.ofNat_toNat] at hc
    exact hc n h
  · rintro ⟨hn, hc⟩
    have htable : ∀ n < 16,
        hexDigit? n.digitChar = some n ∧ hexDigit? n.digitChar.toUpper = some n := by decide
    rcases hc with rfl | rfl
    · exact (htable n hn).1
    · exact (htable n hn).2

theorem decDigit?_eq_some_iff {c : Char} {n : Nat} : decDigit? c = some n ↔ IsNumeral 10 c n := by
  have hhex : decDigit? c = some n ↔ hexDigit? c = some n ∧ n < 10 := by
    unfold decDigit? hexDigit?
    split
    · have := toNat_of_isDigit ‹_›
      have hzero : '0'.toNat = 48 := rfl
      simp only [Option.some.injEq]
      omega
    · simp only [reduceCtorEq, false_iff, not_and]
      split
      · rintro ⟨rfl⟩
        omega
      · split
        · rintro ⟨rfl⟩
          omega
        · exact fun h => by cases h
  rw [hhex, hexDigit?_eq_some_iff]
  constructor
  · rintro ⟨⟨-, hc⟩, hn⟩
    exact ⟨hn, hc⟩
  · rintro ⟨hn, hc⟩
    exact ⟨⟨by omega, hc⟩, hn⟩

theorem scalar?_eq_some_iff {n : Nat} {c : Char} : scalar? n = some c ↔ n = c.toNat := by
  unfold scalar?
  constructor
  · intro h
    by_cases hn : n.isValidChar
    · rw [dif_pos hn] at h
      cases h
      rfl
    · rw [dif_neg hn] at h
      cases h
  · rintro rfl
    exact dif_pos c.valid

theorem SpellsNumber.forall_mem {base n : Nat} {digits : List Char} {p : Char → Prop}
    (h : SpellsNumber base digits n) (hp : ∀ c v, IsNumeral base c v → p c) :
    ∀ c ∈ digits, p c := by
  obtain ⟨-, values, hvalues, -⟩ := h
  exact ((List.forall₂_and_left _ _).1 (hvalues.imp fun c v hv => ⟨hp c v hv, hv⟩)).1

theorem SpellsNumber.isAlphanum {base n : Nat} (hbase : base ≤ 16) {digits : List Char}
    (h : SpellsNumber base digits n) : ∀ c ∈ digits, c.isAlphanum = true := by
  have htable : ∀ n < 16,
      n.digitChar.isAlphanum = true ∧ n.digitChar.toUpper.isAlphanum = true := by decide
  refine h.forall_mem ?_
  rintro c v ⟨hv, rfl | rfl⟩
  · exact (htable v (by omega)).1
  · exact (htable v (by omega)).2

section

variable {base : Nat} {digit? : Char → Option Nat}
  (hdigit : ∀ c n, digit? c = some n ↔ IsNumeral base c n)
include hdigit

theorem foldlM_eq_some_iff (s : List Char) (m n : Nat) :
    s.foldlM (fun n c => (digit? c).map (n * base + ·)) m = some n ↔
      ∃ values, List.Forall₂ (IsNumeral base) s values ∧
        values.foldl (fun n v => n * base + v) m = n := by
  induction s generalizing m with
  | nil => simp
  | cons c s ih =>
    simp only [List.foldlM_cons, Option.bind_eq_bind, Option.bind_eq_some_iff,
      Option.map_eq_some_iff, hdigit, ih, List.forall₂_cons_left_iff]
    constructor
    · rintro ⟨_, ⟨v, hv, rfl⟩, values, hvalues, hn⟩
      exact ⟨v :: values, ⟨v, values, hv, hvalues, rfl⟩, hn⟩
    · rintro ⟨_, ⟨v, values, hv, hvalues, rfl⟩, hn⟩
      exact ⟨_, ⟨v, hv, rfl⟩, values, hvalues, hn⟩

theorem digits?_eq_some_iff {s : List Char} {n : Nat} :
    digits? base digit? s = some n ↔ SpellsNumber base s n := by
  have hvalue : ∀ values : List Nat,
      Nat.ofDigits base values.reverse = values.foldl (fun n v => n * base + v) 0 := by
    intro values
    rw [Nat.ofDigits_eq_foldr, List.foldr_reverse]
    simp only [Nat.cast_id, Nat.mul_comm, Nat.add_comm]
  cases s with
  | nil => simp [digits?, SpellsNumber]
  | cons c s => simp only [digits?, foldlM_eq_some_iff hdigit, SpellsNumber, hvalue, ne_eq,
      reduceCtorEq, not_false_eq_true, true_and]

theorem character_of_number (hbase : base ≤ 16) {s : List Char} {c : Char} :
    (number? base digit? s).bind scalar? = some c ↔
      SpellsNumber base s c.toNat ∨
        ∃ digits, s = '+' :: digits ∧ SpellsNumber base digits c.toNat := by
  have hplus : ∀ digits, ¬ SpellsNumber base ('+' :: digits) c.toNat := fun digits h =>
    absurd (h.isAlphanum hbase '+' List.mem_cons_self) (by decide)
  simp only [Option.bind_eq_some_iff, scalar?_eq_some_iff, exists_eq_right]
  unfold number?
  split
  · rw [digits?_eq_some_iff hdigit]
    simp [hplus]
  · rename_i hne
    rw [digits?_eq_some_iff hdigit, or_iff_left]
    rintro ⟨digits, rfl, -⟩
    exact hne digits rfl

end

theorem SpellsNumber.isDigit {n : Nat} {digits : List Char} (h : SpellsNumber 10 digits n) :
    ∀ c ∈ digits, c.isDigit = true := by
  refine h.forall_mem fun c v hv => ?_
  have hdigit := decDigit?_eq_some_iff.2 hv
  unfold decDigit? at hdigit
  split at hdigit
  · assumption
  · cases hdigit

def namedCharacters : List (List Char × Char) :=
  [("amp".toList, '&'), ("lt".toList, '<'), ("gt".toList, '>'), ("quot".toList, '"'),
    ("apos".toList, '\''), ("nbsp".toList, '\u00a0')]

/-- What stands between the ampersand and the semicolon of a reference to a character. -/
inductive Denotes : List Char → Char → Prop
  | named {name : List Char} {c : Char} : (name, c) ∈ namedCharacters → Denotes name c
  | decimal {digits : List Char} {c : Char} :
      SpellsNumber 10 digits c.toNat → Denotes ('#' :: digits) c
  | hexadecimal {x : Char} {digits : List Char} {c : Char} : x = 'x' ∨ x = 'X' →
      SpellsNumber 16 digits c.toNat → Denotes ('#' :: x :: digits) c

/-- A number with a plus sign between the ampersand and the semicolon. -/
inductive DenotesSigned : List Char → Char → Prop
  | decimal {digits : List Char} {c : Char} :
      SpellsNumber 10 digits c.toNat → DenotesSigned ('#' :: '+' :: digits) c
  | hexadecimal {x : Char} {digits : List Char} {c : Char} : x = 'x' ∨ x = 'X' →
      SpellsNumber 16 digits c.toNat → DenotesSigned ('#' :: x :: '+' :: digits) c

theorem reference?_decimal {s : List Char} (h : ∀ c ∈ s, c.isDigit = true) :
    reference? ('#' :: s) = (number? 10 decDigit? s).bind scalar? := by
  unfold reference?
  split <;> simp_all

theorem reference?_eq_some_iff {body : List Char} {c : Char} :
    reference? body = some c ↔ Denotes body c ∨ DenotesSigned body c := by
  have hdecimal {s} := character_of_number @decDigit?_eq_some_iff (by decide) (s := s) (c := c)
  have hhexadecimal {s} := character_of_number @hexDigit?_eq_some_iff (by decide) (s := s) (c := c)
  constructor
  · intro h
    unfold reference? at h
    split at h
    case h_7 =>
      rcases hhexadecimal.1 h with hnumber | ⟨digits, rfl, hnumber⟩
      · exact .inl (.hexadecimal (.inl rfl) hnumber)
      · exact .inr (.hexadecimal (.inl rfl) hnumber)
    case h_8 =>
      rcases hhexadecimal.1 h with hnumber | ⟨digits, rfl, hnumber⟩
      · exact .inl (.hexadecimal (.inr rfl) hnumber)
      · exact .inr (.hexadecimal (.inr rfl) hnumber)
    case h_9 =>
      rcases hdecimal.1 h with hnumber | ⟨digits, rfl, hnumber⟩
      · exact .inl (.decimal hnumber)
      · exact .inr (.decimal hnumber)
    case h_10 => cases h
    all_goals
      cases h
      exact .inl (.named (by decide))
  · rintro ((hname | hnumber | ⟨rfl | rfl, hnumber⟩) | (hnumber | ⟨rfl | rfl, hnumber⟩))
    · have htable : ∀ p ∈ namedCharacters, reference? p.1 = some p.2 := by decide
      exact htable _ hname
    · rw [reference?_decimal hnumber.isDigit]
      exact hdecimal.2 (.inl hnumber)
    · exact hhexadecimal.2 (.inl hnumber)
    · exact hhexadecimal.2 (.inl hnumber)
    · exact hdecimal.2 (.inr ⟨_, rfl, hnumber⟩)
    · exact hhexadecimal.2 (.inr ⟨_, rfl, hnumber⟩)
    · exact hhexadecimal.2 (.inr ⟨_, rfl, hnumber⟩)

theorem Denotes.char_cases {body : List Char} {c : Char} (h : Denotes body c) :
    ∀ d ∈ body, d.isAlphanum = true ∨ d = '#' := by
  intro d hd
  cases h with
  | named hname =>
    have htable : ∀ p ∈ namedCharacters, p.1.all Char.isAlphanum = true := by decide
    exact .inl (List.all_eq_true.1 (htable _ hname) d hd)
  | decimal hnumber =>
    rcases List.mem_cons.1 hd with rfl | hd
    · exact .inr rfl
    · exact .inl (hnumber.isAlphanum (by decide) d hd)
  | hexadecimal hx hnumber =>
    rcases List.mem_cons.1 hd with rfl | hd
    · exact .inr rfl
    · rcases List.mem_cons.1 hd with rfl | hd
      · rcases hx with rfl | rfl <;> exact .inl rfl
      · exact .inl (hnumber.isAlphanum (by decide) d hd)

theorem DenotesSigned.plus_mem {body : List Char} {c : Char} (h : DenotesSigned body c) :
    '+' ∈ body := by
  cases h <;> simp

theorem DenotesSigned.char_cases {body : List Char} {c : Char} (h : DenotesSigned body c) :
    ∀ d ∈ body, d.isAlphanum = true ∨ d = '#' ∨ d = '+' := by
  cases h with
  | decimal hnumber =>
    have halphanum := hnumber.isAlphanum (by decide)
    simp +contextual [halphanum]
  | hexadecimal hx hnumber =>
    have halphanum := hnumber.isAlphanum (by decide)
    rcases hx with rfl | rfl <;> simp +contextual [halphanum]

/-- A reference behind an ampersand: a body of at most eight characters, up to the first
semicolon. -/
def Refers (denotes : List Char → Char → Prop) (s : List Char) (c : Char) (rest : List Char) :
    Prop :=
  ∃ body, s = body ++ ';' :: rest ∧ ';' ∉ body ∧ body.length ≤ 8 ∧ denotes body c

/-- Reading a text from left to right, with its references. Whatever is none stays as it is, and
what a reference stands for is not read again. -/
inductive Decodes (denotes : List Char → Char → Prop) : List Char → List Char → Prop
  | done : Decodes denotes [] []
  | plain {c : Char} {s t : List Char} :
      c ≠ '&' → Decodes denotes s t → Decodes denotes (c :: s) (c :: t)
  | reference {c : Char} {s rest t : List Char} :
      Refers denotes s c rest → Decodes denotes rest t → Decodes denotes ('&' :: s) (c :: t)
  | verbatim {s t : List Char} : (∀ c rest, ¬ Refers denotes s c rest) → Decodes denotes s t →
      Decodes denotes ('&' :: s) ('&' :: t)

theorem Refers.length_lt {denotes : List Char → Char → Prop} {s rest : List Char} {c : Char}
    (h : Refers denotes s c rest) : rest.length < s.length := by
  obtain ⟨body, rfl, -⟩ := h
  simp only [List.length_append, List.length_cons]
  omega

theorem Refers.body_unique {p q : List Char → Char → Prop} {s rest rest' : List Char} {c d : Char}
    (h : Refers p s c rest) (h' : Refers q s d rest') :
    rest = rest' ∧ ∃ body, p body c ∧ q body d := by
  obtain ⟨body, hs, hend, -, hp⟩ := h
  obtain ⟨body', hs', hend', -, hq⟩ := h'
  have hfirst : ∀ {a y : List Char}, s = a ++ ';' :: y → ';' ∉ a → s.takeWhile (· != ';') = a := by
    intro a y hs ha
    rw [hs]
    exact takeWhile_append_stop y (fun c hc => by simpa using ne_of_mem_of_not_mem hc ha) (by simp)
  obtain rfl : body = body' := (hfirst hs hend).symm.trans (hfirst hs' hend')
  have hrest := List.append_cancel_left (hs.symm.trans hs')
  exact ⟨(List.cons.inj hrest).2, body, hp, hq⟩

theorem Decodes.unique {denotes : List Char → Char → Prop} {s t u : List Char}
    (h : Decodes denotes s t) (h' : Decodes denotes s u)
    (hone : ∀ body c d, denotes body c → denotes body d → c = d) : t = u := by
  induction h generalizing u with
  | done => cases h' with | done => rfl
  | plain hc _ ih =>
    cases h' with
    | plain _ h' => rw [ih h']
    | reference => exact absurd rfl hc
    | verbatim => exact absurd rfl hc
  | reference hrefers _ ih =>
    cases h' with
    | plain hc => exact absurd rfl hc
    | reference hrefers' h' =>
      obtain ⟨rfl, body, hbody, hbody'⟩ := hrefers.body_unique hrefers'
      rw [hone body _ _ hbody hbody', ih h']
    | verbatim hnone => exact absurd hrefers (hnone _ _)
  | verbatim hnone _ ih =>
    cases h' with
    | plain hc => exact absurd rfl hc
    | reference hrefers => exact absurd hrefers (hnone _ _)
    | verbatim _ h' => rw [ih h']

theorem exists_decodes (denotes : List Char → Char → Prop) (s : List Char) :
    ∃ t, Decodes denotes s t := by
  induction hn : s.length using Nat.strong_induction_on generalizing s with
  | _ n ih =>
    subst hn
    cases s with
    | nil => exact ⟨[], .done⟩
    | cons c s =>
      obtain ⟨t, ht⟩ := ih s.length (Nat.lt_succ_self _) s rfl
      by_cases hc : c = '&'
      · subst hc
        by_cases hrefers : ∃ c rest, Refers denotes s c rest
        · obtain ⟨c, rest, hrefers⟩ := hrefers
          obtain ⟨u, hu⟩ := ih rest.length (Nat.lt_succ_of_lt hrefers.length_lt) rest rfl
          exact ⟨c :: u, .reference hrefers hu⟩
        · exact ⟨'&' :: t, .verbatim (fun c rest h => hrefers ⟨c, rest, h⟩) ht⟩
      · exact ⟨c :: t, .plain hc ht⟩

/-- The references that are read: those that there should be, and those with a plus sign. -/
def Accepts (body : List Char) (c : Char) : Prop :=
  Denotes body c ∨ DenotesSigned body c

theorem eq_append_of_reach {s rest : List Char} {d : Char}
    (hlength : ((s.take referenceReach).takeWhile (· != ';')).length < referenceReach)
    (hdrop : s.drop ((s.take referenceReach).takeWhile (· != ';')).length = d :: rest) :
    s = (s.take referenceReach).takeWhile (· != ';') ++ ';' :: rest := by
  have hreach := List.takeWhile_append_dropWhile (p := (· != ';')) (l := s.take referenceReach)
  cases hstop : (s.take referenceReach).dropWhile (· != ';') with
  | nil =>
    rw [hstop, List.append_nil] at hreach
    rw [hreach, List.length_take] at hlength hdrop
    have := congrArg List.length hdrop
    simp only [List.length_drop, List.length_cons] at this
    omega
  | cons e r =>
    obtain ⟨-, -, he⟩ := eq_append_of_dropWhile hstop
    obtain rfl : e = ';' := by simpa using he
    have hs : s = (s.take referenceReach).takeWhile (· != ';') ++
        ';' :: (r ++ s.drop referenceReach) := by
      rw [← List.cons_append, ← hstop, ← List.append_assoc, hreach, List.take_append_drop]
    have hbehind := congrArg (List.drop ((s.take referenceReach).takeWhile (· != ';')).length) hs
    rw [hdrop, List.drop_left] at hbehind
    rw [(List.cons.inj hbehind).2]
    exact hs

theorem referenceAt?_eq_some_iff {s rest : List Char} {c : Char} :
    referenceAt? s = some (c, rest) ↔ Refers Accepts s c rest := by
  constructor
  · intro h
    unfold referenceAt? at h
    simp only at h
    split at h
    · rename_i hlength
      split at h
      · cases h
      · rename_i d r hdrop
        obtain ⟨c', hbody, hpair⟩ := Option.map_eq_some_iff.1 h
        cases hpair
        refine ⟨_, eq_append_of_reach hlength hdrop, fun hmem => ?_, Nat.le_of_lt_succ hlength,
          reference?_eq_some_iff.1 hbody⟩
        simpa using List.mem_takeWhile_imp hmem
    · cases h
  · rintro ⟨body, rfl, hend, hlength, hbody⟩
    exact referenceAt?_append (reference?_eq_some_iff.2 hbody) hend (Nat.lt_succ_of_le hlength) rest

theorem decode_verbatim {s : List Char} (h : referenceAt? s = none) :
    decode ('&' :: s) = '&' :: decode s := by
  rw [decode, if_pos rfl]
  split
  · rename_i hr
    rw [h] at hr
    cases hr
  · rfl

theorem referenceAt?_eq_none_iff {s : List Char} :
    referenceAt? s = none ↔ ∀ c rest, ¬ Refers Accepts s c rest := by
  simp only [Option.eq_none_iff_forall_ne_some, Prod.forall, ne_eq, referenceAt?_eq_some_iff]

theorem Decodes.decode_eq {s t : List Char} (h : Decodes Accepts s t) : decode s = t := by
  induction h with
  | done => rw [decode]
  | plain hc _ ih => rw [decode_cons hc, ih]
  | reference hrefers _ ih => rw [decode_reference (referenceAt?_eq_some_iff.2 hrefers), ih]
  | verbatim hnone _ ih => rw [decode_verbatim (referenceAt?_eq_none_iff.2 hnone), ih]

theorem decode_eq_iff {s t : List Char} : decode s = t ↔ Decodes Accepts s t := by
  refine ⟨?_, Decodes.decode_eq⟩
  rintro rfl
  obtain ⟨t, ht⟩ := exists_decodes Accepts s
  rwa [ht.decode_eq]

/-- Somewhere in a text stands a reference by a number with a plus sign. -/
def HasSigned (s : List Char) : Prop :=
  ∃ before t c rest, s = before ++ '&' :: t ∧ Refers DenotesSigned t c rest

theorem hasSigned_cons {c : Char} {s : List Char} :
    HasSigned (c :: s) ↔ (c = '&' ∧ ∃ d rest, Refers DenotesSigned s d rest) ∨ HasSigned s := by
  constructor
  · rintro ⟨before, t, d, rest, hs, hrefers⟩
    cases before with
    | nil =>
      cases hs
      exact .inl ⟨rfl, d, rest, hrefers⟩
    | cons b before =>
      cases hs
      exact .inr ⟨before, t, d, rest, rfl, hrefers⟩
  · rintro (⟨rfl, d, rest, hrefers⟩ | ⟨before, t, d, rest, rfl, hrefers⟩)
    · exact ⟨[], s, d, rest, rfl, hrefers⟩
    · exact ⟨c :: before, t, d, rest, rfl, hrefers⟩

theorem hasSigned_append {a : List Char} (h : '&' ∉ a) (s : List Char) :
    HasSigned (a ++ s) ↔ HasSigned s := by
  induction a with
  | nil => rfl
  | cons c a ih =>
    obtain ⟨hc, ha⟩ := not_or.1 (mt List.mem_cons.2 h)
    rw [List.cons_append, hasSigned_cons, ih ha]
    simp [Ne.symm hc]

theorem decode_append {a : List Char} (h : '&' ∉ a) (s : List Char) :
    decode (a ++ s) = a ++ decode s := by
  induction a with
  | nil => rfl
  | cons c a ih =>
    obtain ⟨hc, ha⟩ := not_or.1 (mt List.mem_cons.2 h)
    rw [List.cons_append, decode_cons (Ne.symm hc), ih ha, List.cons_append]

theorem Refers.not_signed {s rest : List Char} {c : Char} (h : Refers Denotes s c rest) :
    ¬ ∃ d rest', Refers DenotesSigned s d rest' := by
  rintro ⟨d, rest', h'⟩
  obtain ⟨-, body, hplain, hsigned⟩ := h.body_unique h'
  have hmem := hplain.char_cases '+' hsigned.plus_mem
  revert hmem
  decide

theorem Accepts.amp_not_mem {body : List Char} {c : Char} (h : Accepts body c) : '&' ∉ body := by
  intro hmem
  rcases h with h | h
  · exact absurd (h.char_cases '&' hmem) (by decide)
  · exact absurd (h.char_cases '&' hmem) (by decide)

theorem refers_accepts_iff {s rest : List Char} {c : Char} :
    Refers Accepts s c rest ↔ Refers Denotes s c rest ∨ Refers DenotesSigned s c rest := by
  simp only [Refers, Accepts, and_or_left, exists_or]

theorem Refers.eq_append {s rest : List Char} {c : Char} (h : Refers Accepts s c rest) :
    ∃ a, s = a ++ rest ∧ '&' ∉ a := by
  obtain ⟨body, rfl, -, -, hbody⟩ := h
  exact ⟨body ++ [';'], by simp, by simp [hbody.amp_not_mem]⟩

/-- Without plus signs a text is read as it should be. With one, what is read is shorter: the
reference should have been left as it is, with more characters than the one it stands for. -/
theorem Decodes.decode_eq_or_lt {s t : List Char} (h : Decodes Denotes s t) :
    (¬ HasSigned s ∧ decode s = t) ∨ (HasSigned s ∧ (decode s).length < t.length) := by
  induction h with
  | done =>
    refine .inl ⟨?_, by rw [decode]⟩
    rintro ⟨before, t, c, rest, hs, -⟩
    simp at hs
  | plain hc _ ih =>
    rw [hasSigned_cons, decode_cons hc]
    simpa [hc] using ih
  | reference hrefers _ ih =>
    have haccepts := refers_accepts_iff.2 (.inl hrefers)
    obtain ⟨a, hs, hamp⟩ := haccepts.eq_append
    rw [hasSigned_cons, decode_reference (referenceAt?_eq_some_iff.2 haccepts)]
    rw [hs, hasSigned_append hamp, ← hs]
    simpa [hrefers.not_signed] using ih
  | @verbatim s t hnone _ ih =>
    rw [hasSigned_cons]
    by_cases hsigned : ∃ d rest, Refers DenotesSigned s d rest
    · obtain ⟨d, rest, hrefers⟩ := hsigned
      have haccepts := refers_accepts_iff.2 (.inr hrefers)
      -- the reference should stay, and is longer than the one character that is read for it
      have hle : (decode s).length ≤ t.length := by
        rcases ih with ⟨-, heq⟩ | ⟨-, hlt⟩
        · rw [heq]
        · exact hlt.le
      obtain ⟨a, hs, hamp⟩ := haccepts.eq_append
      refine .inr ⟨.inl ⟨rfl, d, rest, hrefers⟩, ?_⟩
      have hlt := haccepts.length_lt
      rw [hs, decode_append hamp] at hle
      rw [hs] at hlt
      rw [decode_reference (referenceAt?_eq_some_iff.2 haccepts)]
      simp only [List.length_append, List.length_cons] at hle hlt ⊢
      omega
    · have hread : referenceAt? s = none := by
        rw [referenceAt?_eq_none_iff]
        intro c rest haccepts
        rcases refers_accepts_iff.1 haccepts with hdenotes | hdenotes
        · exact hnone c rest hdenotes
        · exact hsigned ⟨c, rest, hdenotes⟩
      rw [decode_verbatim hread]
      simpa [hsigned] using ih

theorem Denotes.unique {body : List Char} {c d : Char} (h : Denotes body c) (h' : Denotes body d) :
    c = d := by
  have hc := reference?_eq_some_iff.2 (.inl h)
  rw [reference?_eq_some_iff.2 (.inl h')] at hc
  exact (Option.some.inj hc).symm

/-- There is one way to read a text with its references, and a text is read that way exactly if no
reference in it is a number with a plus sign. What is read in any case is what the text stands for
if such numbers count as references too. -/
theorem decode_iff_unsigned (s : List Char) :
    (∃! t, Decodes Denotes s t) ∧ (Decodes Denotes s (decode s) ↔ ¬ HasSigned s) ∧
      ∀ t, decode s = t ↔ Decodes Accepts s t := by
  obtain ⟨t, ht⟩ := exists_decodes Denotes s
  refine ⟨⟨t, ht, fun u hu => hu.unique ht fun _ _ _ => Denotes.unique⟩, ⟨fun h => ?_, fun h => ?_⟩,
    fun t => decode_eq_iff⟩
  · rcases h.decode_eq_or_lt with ⟨hnot, -⟩ | ⟨-, hlt⟩
    · exact hnot
    · exact absurd hlt (Nat.lt_irrefl _)
  · rcases ht.decode_eq_or_lt with ⟨-, heq⟩ | ⟨hsigned, -⟩
    · rwa [heq]
    · exact absurd hsigned h

theorem plus_mem_of_hasSigned {s : List Char} (h : HasSigned s) : '+' ∈ s := by
  obtain ⟨before, _, c, rest, rfl, body, rfl, -, -, hbody⟩ := h
  simp [hbody.plus_mem]

theorem decode_iff_unsigned_plus :
    decode "&#+65;".toList = ['A'] ∧ ¬ Decodes Denotes "&#+65;".toList ['A'] ∧
      Decodes Denotes "&amp;lt; &#X6a;&#xD800;&".toList
        (decode "&amp;lt; &#X6a;&#xD800;&".toList) := by
  have hnumber : SpellsNumber 10 "65".toList 'A'.toNat :=
    ⟨by decide, [6, 5], .cons (by decide) (.cons (by decide) .nil), by decide⟩
  have hrefers : Refers DenotesSigned "#+65;".toList 'A' [] :=
    ⟨"#+65".toList, rfl, by decide, by decide, .decimal hnumber⟩
  have hread : decode "&#+65;".toList = ['A'] :=
    ((decode_iff_unsigned _).2.2 _).2 (.reference (refers_accepts_iff.2 (.inr hrefers)) .done)
  refine ⟨hread, ?_, (decode_iff_unsigned _).2.1.2 fun h => ?_⟩
  · rw [← hread]
    exact fun h => (decode_iff_unsigned _).2.1.1 h ⟨[], _, 'A', [], rfl, hrefers⟩
  · exact absurd (plus_mem_of_hasSigned h) (by decide)

end InlineMarkup.Markup
