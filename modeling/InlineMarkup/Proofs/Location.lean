import InlineMarkup.Proofs.Basic
import Mathlib.Data.List.Induction

/-!
Marks and byte offsets: the mark that counting lines and columns gives has the offset of the place
that was reached (`offset_foldl_after`), so marks and offsets name the same places. That mark is made
of the number of line feeds and the length of the last line (`foldl_after_eq`).
-/

set_option autoImplicit false

namespace InlineMarkup.Text

theorem byteLength_eq_zero_iff {s : List Char} : byteLength s = 0 ↔ s = [] := by
  cases s with
  | nil => simp
  | cons c s =>
    have := c.utf8Size_pos
    simp only [byteLength_cons, reduceCtorEq, iff_false]
    omega

theorem byteLength_le_of_suffix {a b : List Char} (h : a <:+ b) : byteLength a ≤ byteLength b := by
  obtain ⟨u, rfl⟩ := h
  simp

theorem eq_of_suffix_of_byteLength {s a b : List Char} (ha : a <:+ s) (hb : b <:+ s)
    (h : byteLength a = byteLength b) : a = b := by
  rcases List.suffix_or_suffix_of_suffix ha hb with ⟨u, rfl⟩ | ⟨u, rfl⟩
  · simp only [byteLength_append] at h
    rw [byteLength_eq_zero_iff.1 (show byteLength u = 0 by omega), List.nil_append]
  · simp only [byteLength_append] at h
    rw [byteLength_eq_zero_iff.1 (show byteLength u = 0 by omega), List.nil_append]

theorem takeBytes_zero (s : List Char) : takeBytes 0 s = [] := by
  cases s with
  | nil => rfl
  | cons c s => rw [takeBytes, if_neg (Nat.not_le.2 c.utf8Size_pos)]

theorem takeBytes_append_of_le {n : Nat} {s : List Char} (h : byteLength s ≤ n) (t : List Char) :
    takeBytes n (s ++ t) = s ++ takeBytes (n - byteLength s) t := by
  induction s generalizing n with
  | nil => simp
  | cons c s ih =>
    rw [byteLength_cons] at h
    rw [List.cons_append, takeBytes, if_pos (by omega), ih (by omega), byteLength_cons,
      Nat.sub_sub]
    rfl

theorem takeBytes_append (a b : List Char) : takeBytes (byteLength a) (a ++ b) = a := by
  rw [takeBytes_append_of_le (Nat.le_refl _), Nat.sub_self, takeBytes_zero, List.append_nil]

theorem dropBytes_append (a b : List Char) : dropBytes (byteLength a) (a ++ b) = b := by
  have := takeBytes_append_dropBytes (byteLength a) (a ++ b)
  rw [takeBytes_append] at this
  exact List.append_cancel_left this

/-- An offset that lies between two characters, or at an end. -/
def IsBoundary (s : List Char) (offset : Nat) : Prop :=
  ∃ before after, s = before ++ after ∧ offset = byteLength before

theorem IsBoundary.le {s : List Char} {offset : Nat} (h : IsBoundary s offset) :
    offset ≤ byteLength s := by
  obtain ⟨before, after, rfl, rfl⟩ := h
  simp

theorem isBoundary_byteLength (s : List Char) : IsBoundary s (byteLength s) :=
  ⟨s, [], (List.append_nil s).symm, rfl⟩

theorem isBoundary_offsetOf {s rest : List Char} (h : rest <:+ s) :
    IsBoundary s (offsetOf s rest) := by
  obtain ⟨before, rfl⟩ := h
  exact ⟨before, rest, rfl, offsetOf_append before rest⟩

theorem IsBoundary.append {s : List Char} {offset : Nat} (h : IsBoundary s offset)
    (u : List Char) : IsBoundary (u ++ s) (offset + byteLength u) := by
  obtain ⟨before, after, rfl, rfl⟩ := h
  exact ⟨u ++ before, after, by simp, by simp [Nat.add_comm]⟩

theorem afterLines_succ (n : Nat) (s : List Char) :
    afterLines (n + 1) s = (afterLines n s).bind (afterLines 1) := by
  induction n generalizing s with
  | zero => rfl
  | succ n ih =>
    rw [afterLines, afterLines]
    cases s.dropWhile (· != '\n') with
    | nil => rfl
    | cons c rest => exact ih rest

theorem afterLines_one {w : List Char} (h : '\n' ∉ w) (v : List Char) :
    afterLines 1 (w ++ '\n' :: v) = some v := by
  have hw : ∀ c ∈ w, (c != '\n') = true := by
    intro c hc
    have : c ≠ '\n' := by
      rintro rfl
      exact h hc
    simpa using this
  have hdrop : (w ++ '\n' :: v).dropWhile (· != '\n') = '\n' :: v :=
    dropWhile_append_stop v hw (by decide)
  simp [afterLines, hdrop]

/-- After some text, the mark gives the number of its line feeds and the length of its last line. -/
theorem foldl_after_first (u : List Char) :
    ∃ w n, '\n' ∉ w ∧ u.foldl Mark.after Mark.first = ⟨n + 1, w.length⟩ ∧
      ∀ v, afterLines n (u ++ v) = some (w ++ v) := by
  induction u using List.reverseRecOn with
  | nil => exact ⟨[], 0, by simp, rfl, fun v => rfl⟩
  | append_singleton u c ih =>
    obtain ⟨w, n, hw, hmark, hlines⟩ := ih
    simp only [List.foldl_append, hmark, List.foldl_cons, List.foldl_nil, Mark.after]
    by_cases hc : c = '\n'
    · subst hc
      refine ⟨[], n + 1, by simp, by simp, fun v => ?_⟩
      rw [afterLines_succ, List.append_assoc, List.singleton_append, hlines ('\n' :: v)]
      exact afterLines_one hw v
    · refine ⟨w ++ [c], n, by simp [hw, Ne.symm hc], by simp [hc], fun v => ?_⟩
      rw [List.append_assoc, hlines, List.append_assoc]

theorem offset_foldl_after {source u v : List Char} (h : dropByteOrderMark source = u ++ v) :
    (u.foldl Mark.after Mark.first).offset source = byteLength source - byteLength v := by
  obtain ⟨w, n, -, hmark, hlines⟩ := foldl_after_first u
  rw [hmark]
  simp only [Mark.offset, fromLine, h, hlines v, offsetOf, List.drop_left]

theorem dropByteOrderMark_suffix (s : List Char) : dropByteOrderMark s <:+ s := by
  cases s with
  | nil => exact List.suffix_refl _
  | cons c s =>
    rw [dropByteOrderMark]
    split
    · exact List.suffix_cons c s
    · exact List.suffix_refl _

end InlineMarkup.Text

namespace InlineMarkup

open InlineMarkup.Text

/-- The line, counted from one, and the column, counted from zero, of the place after some text. -/
def markAfter (text : List Char) : Mark :=
  ⟨text.count '\n' + 1, (lastLine text).length⟩

theorem foldl_after_eq (text : List Char) : text.foldl Mark.after Mark.first = markAfter text := by
  induction text using List.reverseRecOn with
  | nil => rfl
  | append_singleton text c ih =>
    rw [List.foldl_append, ih, List.foldl_cons, List.foldl_nil, Mark.after, markAfter, markAfter]
    by_cases hc : c = '\n'
    · simp [hc, lastLine]
    · simp [hc, lastLine]

theorem offset_markAfter {source u v : List Char} (h : dropByteOrderMark source = u ++ v) :
    (markAfter u).offset source = byteLength source - byteLength v := by
  rw [← foldl_after_eq, offset_foldl_after h]

end InlineMarkup
