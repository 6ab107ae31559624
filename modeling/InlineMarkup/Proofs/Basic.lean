import InlineMarkup.Text.Location
import InlineMarkup.Text.Blank
import Mathlib.Data.List.TakeWhile

/-!
What all proofs use: results of computations that may fail, and where cuts and splits of a text
fall. A cut does not depend on what follows it.
-/

set_option autoImplicit false

namespace InlineMarkup

theorem bind_eq_ok {ε α β : Type} {x : Except ε α} {f : α → Except ε β} {b : β} :
    (x >>= f) = .ok b ↔ ∃ a, x = .ok a ∧ f a = .ok b := by
  cases x with
  | error e =>
    constructor
    · intro h
      cases h
    · rintro ⟨_, h, -⟩
      cases h
  | ok a =>
    constructor
    · intro h
      exact ⟨a, rfl, h⟩
    · rintro ⟨_, h, hf⟩
      cases h
      exact hf

theorem mapError_eq_ok {ε ε' α : Type} {x : Except ε α} {f : ε → ε'} {a : α}
    (h : x.mapError f = .ok a) : x = .ok a := by
  cases x with
  | error e => cases h
  | ok b => exact congrArg Except.ok (Except.ok.inj h)

theorem map_eq_ok {ε α β : Type} {x : Except ε α} {f : α → β} {b : β} :
    x.map f = .ok b ↔ ∃ a, x = .ok a ∧ f a = b := by
  cases x <;> simp [Except.map]

theorem map_eq_error {ε α β : Type} {x : Except ε α} {f : α → β} {e : ε} :
    x.map f = .error e ↔ x = .error e := by
  cases x <;> simp [Except.map]

theorem exists_of_mem_mapM {ε α β : Type} {f : α → Except ε β} {as : List α} {bs : List β}
    (h : as.mapM f = .ok bs) {b : β} (hb : b ∈ bs) : ∃ a ∈ as, f a = .ok b := by
  induction as generalizing bs with
  | nil =>
    cases h
    cases hb
  | cons a as ih =>
    rw [List.mapM_cons] at h
    obtain ⟨c, hc, h⟩ := bind_eq_ok.1 h
    obtain ⟨cs, hcs, h⟩ := bind_eq_ok.1 h
    cases h
    rcases List.mem_cons.1 hb with rfl | hb
    · exact ⟨a, List.mem_cons_self, hc⟩
    · obtain ⟨a', ha', hf⟩ := ih hcs hb
      exact ⟨a', List.mem_cons_of_mem a ha', hf⟩

theorem eq_ok_of_toOption {ε α : Type} {x : Except ε α} {a : α} (h : x.toOption = some a) :
    x = .ok a := by
  cases x with
  | error e => cases h
  | ok b => exact congrArg Except.ok (Option.some.inj h)

end InlineMarkup

namespace InlineMarkup.Text

theorem toNat_of_isDigit {c : Char} (h : c.isDigit = true) : 48 ≤ c.toNat ∧ c.toNat ≤ 57 := by
  simp only [Char.isDigit, Bool.and_eq_true, decide_eq_true_eq, ge_iff_le,
    UInt32.le_iff_toNat_le] at h
  exact h

theorem mem_join {sep : List Char} {ss : List (List Char)} {c : Char} (h : c ∈ join sep ss) :
    c ∈ sep ∨ ∃ s ∈ ss, c ∈ s := by
  induction ss with
  | nil => simp [join] at h
  | cons s ss ih =>
    cases ss with
    | nil => exact .inr ⟨s, by simp, by simpa [join] using h⟩
    | cons t ts =>
      simp only [join, List.mem_append] at h
      rcases h with (h | h) | h
      · exact .inr ⟨s, by simp, h⟩
      · exact .inl h
      · rcases ih h with h | ⟨u, hu, h⟩
        · exact .inl h
        · exact .inr ⟨u, List.mem_cons_of_mem _ hu, h⟩

theorem not_mem_join {sep : List Char} {ss : List (List Char)} {c : Char} (hsep : c ∉ sep)
    (h : ∀ s ∈ ss, c ∉ s) : c ∉ join sep ss := by
  intro hc
  rcases mem_join hc with hc | ⟨s, hs, hc⟩
  · exact hsep hc
  · exact h s hs hc

theorem isPrefixOf_append_of_le {m p : List Char} (x y : List Char) (h : m.length ≤ p.length) :
    m.isPrefixOf (p ++ x) = m.isPrefixOf (p ++ y) := by
  induction m generalizing p with
  | nil => rfl
  | cons c m ih =>
    cases p with
    | nil => simp at h
    | cons d p =>
      simp only [List.cons_append, List.isPrefixOf_cons_cons]
      rw [ih (by simpa using h)]

theorem eq_append_of_cut {m s before after : List Char} (h : cut m s = some (before, after)) :
    s = before ++ m ++ after := by
  induction s generalizing before after with
  | nil =>
    simp only [cut, List.isEmpty_iff] at h
    split at h <;> simp_all
  | cons c s ih =>
    simp only [cut] at h
    split at h
    · rename_i hp
      obtain ⟨t, ht⟩ := List.isPrefixOf_iff_prefix.1 hp
      rw [← ht, List.drop_left] at h
      simp only [Option.some.injEq, Prod.mk.injEq] at h
      rw [← h.1, ← h.2, ← ht]
      rfl
    · obtain ⟨⟨b, a⟩, hb, he⟩ := Option.map_eq_some_iff.1 h
      simp only [Prod.mk.injEq] at he
      rw [← he.1, ← he.2, ih hb]
      rfl

theorem isSome_cut_iff {m s : List Char} : (cut m s).isSome ↔ m <:+: s := by
  constructor
  · intro h
    obtain ⟨⟨before, after⟩, hcut⟩ := Option.isSome_iff_exists.1 h
    exact ⟨before, after, (eq_append_of_cut hcut).symm⟩
  · intro h
    induction s with
    | nil => simp [cut, List.infix_nil.1 h]
    | cons c s ih =>
      rw [cut]
      split
      · rfl
      · rename_i hp
        rcases List.infix_cons_iff.1 h with hprefix | hinfix
        · exact absurd (List.isPrefixOf_iff_prefix.2 hprefix) hp
        · simpa using ih hinfix

/-- The first occurrence of a mark stays the first, whatever follows it. -/
theorem cut_local {m s before after : List Char} (h : cut m s = some (before, after))
    (y : List Char) : cut m (before ++ m ++ y) = some (before, y) := by
  induction s generalizing before after with
  | nil =>
    simp only [cut, List.isEmpty_iff] at h
    split at h
    · rename_i hm
      simp only [Option.some.injEq, Prod.mk.injEq] at h
      cases y <;> simp [hm, ← h.1, cut]
    · cases h
  | cons c s ih =>
    simp only [cut] at h
    split at h
    · simp only [Option.some.injEq, Prod.mk.injEq] at h
      rw [← h.1, List.nil_append]
      cases hy : m ++ y with
      | nil =>
        obtain ⟨rfl, rfl⟩ := List.append_eq_nil_iff.1 hy
        rfl
      | cons d t =>
        have hp : m.isPrefixOf (d :: t) = true := by
          rw [← hy]
          exact List.isPrefixOf_iff_prefix.2 (List.prefix_append m y)
        rw [cut, if_pos hp, ← hy, List.drop_left]
    · rename_i hp
      obtain ⟨⟨b, a⟩, hb, he⟩ := Option.map_eq_some_iff.1 h
      simp only [Prod.mk.injEq] at he
      have hs := eq_append_of_cut hb
      have hq : ¬ m.isPrefixOf ((c :: (b ++ m)) ++ y) = true := by
        rw [isPrefixOf_append_of_le y a (by simp; omega)]
        simpa [hs] using hp
      rw [← he.1]
      simp only [List.cons_append] at hq ⊢
      rw [cut, if_neg hq, ih hb]
      rfl

theorem takeWhile_append_stop {p : Char → Bool} {a : List Char} {d : Char} (y : List Char)
    (ha : ∀ c ∈ a, p c = true) (hd : p d = false) : (a ++ d :: y).takeWhile p = a := by
  rw [List.takeWhile_append_of_pos ha]
  simp [hd]

theorem dropWhile_append_stop {p : Char → Bool} {a : List Char} {d : Char} (y : List Char)
    (ha : ∀ c ∈ a, p c = true) (hd : p d = false) : (a ++ d :: y).dropWhile p = d :: y := by
  rw [List.dropWhile_append_of_pos ha]
  simp [hd]

theorem eq_append_of_dropWhile {p : Char → Bool} {s : List Char} {d : Char} {r : List Char}
    (h : s.dropWhile p = d :: r) :
    s = s.takeWhile p ++ d :: r ∧ (∀ c ∈ s.takeWhile p, p c = true) ∧ p d = false := by
  refine ⟨?_, fun c hc => List.mem_takeWhile_imp hc, ?_⟩
  · rw [← h, List.takeWhile_append_dropWhile]
  · have := List.head?_dropWhile_not p s
    rw [h] at this
    simpa using this

theorem splitAt_append_stop {p : Char → Bool} {a : List Char} {d : Char} (y : List Char)
    (ha : ∀ c ∈ a, p c = false) (hd : p d = true) : splitAt p (a ++ d :: y) = (a, d :: y) := by
  have ha' : ∀ c ∈ a, (!p c) = true := fun c hc => by simp [ha c hc]
  simp only [splitAt]
  rw [takeWhile_append_stop y ha' (by simp [hd]), dropWhile_append_stop y ha' (by simp [hd])]

theorem splitAt_cases {p : Char → Bool} {s a : List Char} {d : Char} {r : List Char}
    (h : splitAt p s = (a, d :: r)) :
    s = a ++ d :: r ∧ (∀ c ∈ a, p c = false) ∧ p d = true := by
  simp only [splitAt, Prod.mk.injEq] at h
  obtain ⟨hs, ha, hd⟩ := eq_append_of_dropWhile h.2
  rw [h.1] at hs ha
  exact ⟨hs, fun c hc => by simpa using ha c hc, by simpa using hd⟩

end InlineMarkup.Text
