import InlineMarkup.Text.Blank
import Mathlib.Data.List.TakeWhile

/-!
White space, and trimmed texts: those that neither begin nor end with white space. Trimming takes
away nothing else. The words of a text are its longest parts without white space (`words_iff`).
-/

set_option autoImplicit false

namespace InlineMarkup.Text

def blankCodes : List Nat :=
  List.range' 0x9 5 ++ [0x20, 0x85, 0xA0, 0x1680] ++ List.range' 0x2000 11 ++
    [0x2028, 0x2029, 0x202F, 0x205F, 0x3000]

theorem isBlank_iff {c : Char} : isBlank c = true ↔ c.toNat ∈ blankCodes := by
  simp only [isBlank, Bool.or_eq_true, Bool.and_eq_true, decide_eq_true_eq, beq_iff_eq, blankCodes,
    List.mem_append, List.mem_range'_1, List.mem_cons, List.not_mem_nil, or_false]
  constructor <;> intro h <;> omega

/-- White space is finite: what holds of each of its characters is checked one by one. -/
theorem forall_isBlank {p : Char → Prop} (h : ∀ n ∈ blankCodes, p (Char.ofNat n)) {c : Char}
    (hc : isBlank c = true) : p c := by
  have hcode := h c.toNat (isBlank_iff.1 hc)
  rwa [Char.ofNat_toNat] at hcode

theorem trimStart_eq_self_iff {s : List Char} : trimStart s = s ↔ s.head?.any isBlank = false := by
  cases s with
  | nil => simp [trimStart]
  | cons c s =>
    by_cases h : isBlank c = true
    · have hlt : ((c :: s).dropWhile isBlank).length < (c :: s).length := by
        simpa [h, Nat.lt_succ_iff] using (List.dropWhile_suffix isBlank).length_le
      simp only [trimStart, List.head?_cons, Option.any_some, h, Bool.true_eq_false, iff_false]
      intro heq
      rw [heq] at hlt
      omega
    · simp [trimStart, h]

theorem trimEnd_eq_self_iff {s : List Char} : trimEnd s = s ↔ s.getLast?.any isBlank = false := by
  have : trimEnd s = s ↔ trimStart s.reverse = s.reverse := by
    rw [trimEnd, trimStart]
    exact ⟨fun h => by rw [← List.reverse_eq_iff]; exact h, fun h => by rw [h, List.reverse_reverse]⟩
  rw [this, trimStart_eq_self_iff, List.head?_reverse]

theorem length_trimStart_le (s : List Char) : (trimStart s).length ≤ s.length :=
  (List.dropWhile_suffix isBlank).length_le

theorem length_trimEnd_le (s : List Char) : (trimEnd s).length ≤ s.length := by
  have := length_trimStart_le s.reverse
  simpa [trimEnd, trimStart] using this

theorem trim_eq_self_iff {s : List Char} :
    trim s = s ↔ s.head?.any isBlank = false ∧ s.getLast?.any isBlank = false := by
  rw [← trimStart_eq_self_iff, ← trimEnd_eq_self_iff]
  constructor
  · intro h
    have hsuffix : trimStart s <:+ s := List.dropWhile_suffix isBlank
    have hlength : (trimStart s).length = s.length := by
      have h₁ := length_trimEnd_le (trimStart s)
      have h₂ := length_trimStart_le s
      rw [← trim, h] at h₁
      omega
    have hstart : trimStart s = s := hsuffix.eq_of_length hlength
    refine ⟨hstart, ?_⟩
    rwa [trim, hstart] at h
  · rintro ⟨hstart, hend⟩
    rw [trim, hstart, hend]

theorem head?_trimStart (s : List Char) : (trimStart s).head?.any isBlank = false := by
  have := List.head?_dropWhile_not isBlank s
  rw [trimStart]
  cases h : s.dropWhile isBlank with
  | nil => rfl
  | cons c r => simpa [h] using this

theorem trim_trim (s : List Char) : trim (trim s) = trim s := by
  rw [trim_eq_self_iff]
  have hend : (trim s).getLast?.any isBlank = false := by
    have := head?_trimStart (trimStart s).reverse
    rw [trim, trimEnd, List.getLast?_reverse]
    exact this
  refine ⟨?_, hend⟩
  -- what is cut off at the end leaves the first character, if any is left
  have hbegin : trim s <+: trimStart s := by
    rw [trim, trimEnd]
    have := List.dropWhile_suffix isBlank (l := (trimStart s).reverse)
    simpa using List.reverse_prefix.2 this
  have hhead := head?_trimStart s
  obtain ⟨t, ht⟩ := hbegin
  cases h : trim s with
  | nil => rfl
  | cons c r =>
    rw [← ht, h] at hhead
    exact hhead

theorem trimEnd_append_stop (s : List Char) {c : Char} (hc : isBlank c = false) (t : List Char) :
    trimEnd (s ++ c :: t) = s ++ c :: trimEnd t := by
  have hstop : (c :: s.reverse).dropWhile isBlank = c :: s.reverse := by simp [hc]
  simp only [trimEnd, List.reverse_append, List.reverse_cons, List.append_assoc,
    List.singleton_append, List.dropWhile_append, hstop]
  split
  · rename_i hempty
    rw [List.isEmpty_iff.1 hempty]
    simp
  · simp

theorem exists_eq_trim (s : List Char) :
    ∃ lead trail, s = lead ++ (trim s ++ trail) ∧ (∀ c ∈ lead, isBlank c = true) ∧
      ∀ c ∈ trail, isBlank c = true := by
  have hend : trim s ++ ((trimStart s).reverse.takeWhile isBlank).reverse = trimStart s := by
    rw [trim, trimEnd, ← List.reverse_append, List.takeWhile_append_dropWhile, List.reverse_reverse]
  refine ⟨s.takeWhile isBlank, ((trimStart s).reverse.takeWhile isBlank).reverse, ?_,
    fun c hc => List.mem_takeWhile_imp hc, fun c hc => ?_⟩
  · rw [hend, trimStart, List.takeWhile_append_dropWhile]
  · exact List.mem_takeWhile_imp (List.mem_reverse.1 hc)

theorem mem_of_mem_trim {c : Char} {s : List Char} (h : c ∈ trim s) : c ∈ s := by
  rw [trim, trimEnd, List.mem_reverse] at h
  have hstart := List.mem_reverse.1 (List.dropWhile_subset _ h)
  exact List.dropWhile_subset _ hstart

def visible (s : List Char) : List Char :=
  s.filter fun c => !isBlank c

@[simp] theorem visible_append (s t : List Char) : visible (s ++ t) = visible s ++ visible t :=
  List.filter_append ..

theorem visible_trimStart (s : List Char) : visible (trimStart s) = visible s := by
  induction s with
  | nil => rfl
  | cons c s ih =>
    by_cases h : isBlank c = true
    · simpa [trimStart, visible, h] using ih
    · simp [trimStart, h]

@[simp] theorem visible_trim (s : List Char) : visible (trim s) = visible s := by
  rw [← visible_trimStart s, trim, trimEnd, visible, List.filter_reverse]
  have h := visible_trimStart (trimStart s).reverse
  rw [visible, trimStart] at h
  rw [h, visible, List.filter_reverse, List.reverse_reverse]
  rfl

/-- The longest parts of a text that hold no white space, in order. -/
inductive Words : List Char → List (List Char) → Prop where
  | none {gap : List Char} : (∀ c ∈ gap, isBlank c = true) → Words gap []
  | word {gap word rest : List Char} {ws : List (List Char)} :
    (∀ c ∈ gap, isBlank c = true) → word ≠ [] → (∀ c ∈ word, isBlank c = false) →
    rest.head?.all isBlank = true → Words rest ws → Words (gap ++ (word ++ rest)) (word :: ws)

section Words

variable {c d : Char} {s : List Char} {ws : List (List Char)}

@[simp] theorem words_nil : words [] = [] := rfl

theorem words_blank (hc : isBlank c = true) (s : List Char) : words (c :: s) = words s := by
  cases s <;> simp [words, hc]

theorem words_last (hc : isBlank c = false) (hs : s.head?.all isBlank = true) :
    words (c :: s) = [c] :: words s := by
  cases s with
  | nil => simp [words, hc]
  | cons d s =>
    have hd : isBlank d = true := by simpa using hs
    simp [words, hc, hd]

theorem words_more {w : List Char} (hc : isBlank c = false) (hd : isBlank d = false)
    (h : words (d :: s) = w :: ws) : words (c :: d :: s) = (c :: w) :: ws := by
  rw [words]
  simp [hc, hd, h]

theorem words_gap {gap : List Char} (h : ∀ c ∈ gap, isBlank c = true) (s : List Char) :
    words (gap ++ s) = words s := by
  induction gap with
  | nil => rfl
  | cons c gap ih =>
    obtain ⟨hc, h⟩ := List.forall_mem_cons.1 h
    rw [List.cons_append, words_blank hc, ih h]

theorem words_word {word rest : List Char} (hne : word ≠ [])
    (hword : ∀ c ∈ word, isBlank c = false) (hrest : rest.head?.all isBlank = true) :
    words (word ++ rest) = word :: words rest := by
  induction word with
  | nil => exact absurd rfl hne
  | cons c word ih =>
    obtain ⟨hc, hword⟩ := List.forall_mem_cons.1 hword
    cases word with
    | nil => exact words_last hc hrest
    | cons d word => exact words_more hc (hword d List.mem_cons_self) (ih (by simp) hword)

theorem Words.blank (hc : isBlank c = true) (h : Words s ws) : Words (c :: s) ws := by
  cases h with
  | none hgap => exact .none (List.forall_mem_cons.2 ⟨hc, hgap⟩)
  | word hgap hne hword hrest h =>
    exact .word (List.forall_mem_cons.2 ⟨hc, hgap⟩) hne hword hrest h

theorem Words.last (hc : isBlank c = false) (hs : s.head?.all isBlank = true) (h : Words s ws) :
    Words (c :: s) ([c] :: ws) :=
  .word (List.forall_mem_nil _) (List.cons_ne_nil c []) (List.forall_mem_singleton.2 hc) hs h

theorem Words.more (hc : isBlank c = false) (hd : isBlank d = false) (h : Words (d :: s) ws) :
    ∃ w vs, ws = w :: vs ∧ Words (c :: d :: s) ((c :: w) :: vs) := by
  have hnot : ∀ {gap t : List Char}, d :: s = gap ++ t → (∀ c ∈ gap, isBlank c = true) →
      gap = [] := by
    rintro (_ | ⟨e, gap⟩) t hs hgap
    · rfl
    · obtain ⟨rfl, -⟩ := List.cons.inj hs
      rw [hgap d List.mem_cons_self] at hd
      cases hd
  generalize hs : d :: s = t at h
  cases h with
  | none hgap => cases hs.trans (hnot (hs.trans (List.append_nil t).symm) hgap)
  | @word gap w rest vs hgap hne hword hrest h =>
    obtain rfl := hnot hs hgap
    have hlonger : ∀ e ∈ c :: w, isBlank e = false := List.forall_mem_cons.2 ⟨hc, hword⟩
    exact ⟨w, vs, rfl, .word hgap (List.cons_ne_nil c w) hlonger hrest h⟩

theorem words_spec (s : List Char) : Words s (words s) := by
  induction s with
  | nil => exact .none (List.forall_mem_nil _)
  | cons c s ih =>
    cases hc : isBlank c with
    | true =>
      rw [words_blank hc]
      exact ih.blank hc
    | false =>
      cases hs : s.head?.all isBlank with
      | true =>
        rw [words_last hc hs]
        exact ih.last hc hs
      | false =>
        obtain ⟨d, s, rfl⟩ : ∃ d t, s = d :: t := by
          cases s with
          | nil => cases hs
          | cons d s => exact ⟨d, s, rfl⟩
        have hd : isBlank d = false := by simpa using hs
        obtain ⟨w, ws, hws, hmore⟩ := ih.more hc hd
        rw [words_more hc hd hws]
        exact hmore

/-- A text has just one list of words, the one that is computed. -/
theorem words_iff : Words s ws ↔ words s = ws := by
  constructor
  · intro h
    induction h with
    | none hgap => simpa using words_gap hgap []
    | word hgap hne hword hrest _ ih => rw [words_gap hgap, words_word hne hword hrest, ih]
  · rintro rfl
    exact words_spec s

end Words

end InlineMarkup.Text
