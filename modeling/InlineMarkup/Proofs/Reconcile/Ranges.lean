import InlineMarkup.Reconcile.Basic
import InlineMarkup.Proofs.Reconcile.Splice
import Mathlib.Data.List.Forall2

/-!
Code in the place of parts of a text, which lie apart from each other and are given by line and
column. In whatever order they come, each part is replaced and nothing else (`spliced_exact`): the
text and the result are the same but for these parts (`Rewrites`), and what is copied in between is
cut out between characters and from front to back (`Edit.Slices`).
-/

set_option autoImplicit false

namespace InlineMarkup

open InlineMarkup.Text

theorem offsetOf_of_eq {s before rest : List Char} (h : s = before ++ rest) :
    offsetOf s rest = byteLength before := by
  rw [h, offsetOf_append]

theorem dropBytes_of_eq {s before rest : List Char} (h : s = before ++ rest) :
    dropBytes (byteLength before) s = rest := by
  rw [h, dropBytes_append]

/-- A part of a text, its byte order mark apart, and the code that is to take its place. -/
structure Range (source : List Char) where
  front : List Char
  old : List Char
  back : List Char
  code : Generated
  source_eq : dropByteOrderMark source = front ++ (old ++ back)
  nonempty : old ≠ []

namespace Range

variable {source : List Char}

def start (r : Range source) : Nat :=
  offsetOf source (r.old ++ r.back)

def stop (r : Range source) : Nat :=
  offsetOf source r.back

/-- Two ranges have no byte in common. -/
def Disjoint (r q : Range source) : Prop :=
  r.stop ≤ q.start ∨ q.stop ≤ r.start

instance (r q : Range source) : Decidable (r.Disjoint q) :=
  inferInstanceAs (Decidable (_ ∨ _))

/-- The code with the blanks that the line of the range begins with and the text's line break. -/
def rendered (r : Range source) : List Char :=
  r.code.render ⟨(lastLine (takeBytes r.start source)).takeWhile isBlank,
    if ['\r', '\n'] <:+: source then ['\r', '\n'] else ['\n']⟩

def toEdit (r : Range source) : Edit :=
  ⟨r.start, r.stop, r.rendered⟩

theorem exists_front (r : Range source) : ∃ before, source = before ++ (r.old ++ r.back) ∧
    r.start = byteLength before ∧ r.stop = byteLength (before ++ r.old) := by
  obtain ⟨mark, hmark⟩ := dropByteOrderMark_suffix source
  rw [r.source_eq] at hmark
  have hsource : source = mark ++ r.front ++ (r.old ++ r.back) := by
    rw [List.append_assoc, hmark]
  exact ⟨mark ++ r.front, hsource, offsetOf_of_eq hsource,
    offsetOf_of_eq (hsource.trans (List.append_assoc _ _ _).symm)⟩

theorem start_lt_stop (r : Range source) : r.start < r.stop := by
  obtain ⟨before, -, hstart, hstop⟩ := r.exists_front
  have hpos : byteLength r.old ≠ 0 := fun h => r.nonempty (byteLength_eq_zero_iff.1 h)
  rw [hstart, hstop, byteLength_append]
  omega

theorem Disjoint.symm {r q : Range source} (h : r.Disjoint q) : q.Disjoint r :=
  Or.symm h

end Range

/-- A call is marked by where a range begins and ends, and its code is that of the range. -/
structure Marks {source : List Char} (generated : List Generated) (c : PlaceholderCall)
    (r : Range source) : Prop where
  start_eq : c.start = markAfter r.front
  stop_eq : c.stop = markAfter (r.front ++ r.old)
  code_eq : generated[c.id - 1]? = some r.code

/-- The texts are the same from an offset on but for some ranges, which stand in order, each with
another text in its place. -/
inductive Rewrites {source : List Char} (f : Range source → List Char) :
    Nat → List (Range source) → List Char → List Char → Prop where
  | done {offset : Nat} {rest : List Char} : Rewrites f offset [] rest rest
  | range {offset : Nat} {r : Range source} {rs : List (Range source)}
      {gap rest rest' : List Char} :
    r.start = offset + byteLength gap → r.stop = r.start + byteLength r.old →
    Rewrites f r.stop rs rest rest' →
    Rewrites f offset (r :: rs) (gap ++ (r.old ++ rest)) (gap ++ (f r ++ rest'))

/-- All that is copied around edits, from an offset on, is cut out between characters, and no cut is
before another. -/
def Edit.Slices (source : List Char) : Nat → List Edit → Prop
  | offset, [] => IsBoundary source offset
  | offset, e :: es =>
    IsBoundary source offset ∧ offset ≤ e.start ∧ IsBoundary source e.start ∧
      Slices source e.stop es

section

variable {source : List Char} {generated : List Generated}

theorem editFor_of_marks {c : PlaceholderCall} {r : Range source} (h : Marks generated c r) :
    editFor source generated c = some r.toEdit := by
  have hstart : c.start.offset source = r.start := by
    rw [h.start_eq]
    exact offset_markAfter r.source_eq
  have hstop : c.stop.offset source = r.stop := by
    rw [h.stop_eq]
    exact offset_markAfter (by rw [r.source_eq, List.append_assoc])
  simp only [editFor, h.code_eq, hstart, hstop, lineBreak_eq]
  rfl

theorem filterMap_editFor {calls : List PlaceholderCall} {ranges : List (Range source)}
    (h : List.Forall₂ (Marks generated) calls ranges) :
    calls.filterMap (editFor source generated) = ranges.map Range.toEdit := by
  induction h with
  | nil => rfl
  | cons hmarks _ ih => rw [List.filterMap_cons, editFor_of_marks hmarks, ih, List.map_cons]

theorem exists_ordered {ranges : List (Range source)} (h : ranges.Pairwise Range.Disjoint) :
    ∃ rs : List (Range source), rs.Perm ranges ∧ rs.Pairwise (fun r q => r.stop ≤ q.start) := by
  have hsorted := @List.pairwise_mergeSort (Range source) (fun r q => r.start ≤ q.start)
    (by simp only [decide_eq_true_eq]; omega)
    (by simp only [Bool.or_eq_true, decide_eq_true_eq]; omega) ranges
  have hperm := ranges.mergeSort_perm fun r q => decide (r.start ≤ q.start)
  have hdisjoint := (hperm.pairwise_iff Range.Disjoint.symm).2 h
  refine ⟨_, hperm, (hsorted.and hdisjoint).imp ?_⟩
  intro r q hrq
  obtain ⟨hle, hapart⟩ := hrq
  have hlt := q.start_lt_stop
  simp only [decide_eq_true_eq] at hle
  rcases hapart with hapart | hapart
  · exact hapart
  · omega

theorem exists_gap {before rest u v : List Char} (h : before ++ rest = u ++ v)
    (hle : byteLength before ≤ byteLength u) : ∃ gap, u = before ++ gap ∧ rest = gap ++ v := by
  rcases List.append_eq_append_iff.1 h with ⟨gap, hu, hrest⟩ | ⟨gap, hbefore, hv⟩
  · exact ⟨gap, hu, hrest⟩
  · have hnil : gap = [] := by
      rw [hbefore, byteLength_append] at hle
      exact byteLength_eq_zero_iff.1 (by omega)
    subst hnil
    exact ⟨[], by simpa using hbefore.symm, by simpa using hv.symm⟩

/-- Copying goes from range to range; what is before the offset is done. -/
theorem applyFrom_ordered {rs : List (Range source)} {before rest : List Char}
    (hsource : source = before ++ rest) (hrs : rs.Pairwise fun r q => r.stop ≤ q.start)
    (hbefore : ∀ r ∈ rs, byteLength before ≤ r.start) :
    Edit.Slices source (byteLength before) (rs.map Range.toEdit) ∧
      Rewrites Range.rendered (byteLength before) rs rest
        (Edit.applyFrom source (byteLength before) (rs.map Range.toEdit)) := by
  induction rs generalizing before rest with
  | nil =>
    rw [List.map_nil, Edit.applyFrom, dropBytes_of_eq hsource]
    exact ⟨⟨before, rest, hsource, rfl⟩, .done⟩
  | cons r rs ih =>
    obtain ⟨hnext, hrs⟩ := List.pairwise_cons.1 hrs
    have hle := hbefore r List.mem_cons_self
    obtain ⟨u, hu, hstart, hstop⟩ := r.exists_front
    -- the range stands at or behind the offset, so the front of the text is done but for a gap
    obtain ⟨gap, rfl, rfl⟩ := exists_gap (hsource.symm.trans hu) (hstart ▸ hle)
    have hgap : r.start - byteLength before = byteLength gap := by
      rw [hstart, byteLength_append]
      omega
    have hsource' : source = before ++ gap ++ r.old ++ r.back :=
      hu.trans (List.append_assoc _ _ _).symm
    obtain ⟨hslices, hrewrites⟩ := ih hsource' hrs fun q hq => hstop ▸ hnext q hq
    rw [← hstop] at hslices hrewrites
    constructor
    · exact ⟨⟨before, _, hsource, rfl⟩, hle, ⟨_, _, hu, hstart⟩, hslices⟩
    · have hcopy : takeBytes (r.toEdit.start - byteLength before)
          (dropBytes (byteLength before) source) = gap := by
        rw [dropBytes_of_eq hsource,
          show r.toEdit.start - byteLength before = byteLength gap from hgap, takeBytes_append]
      rw [List.map_cons, Edit.applyFrom, hcopy, List.append_assoc]
      refine .range ?_ ?_ hrewrites
      · rw [hstart, byteLength_append]
      · rw [hstop, hstart, byteLength_append]

theorem ordered_edits {rs : List (Range source)} (h : rs.Pairwise fun r q => r.stop ≤ q.start) :
    (rs.map Range.toEdit).Pairwise fun a b => a.start < b.start := by
  rw [List.pairwise_map]
  refine h.imp ?_
  intro r q hle
  exact Nat.lt_of_lt_of_le r.start_lt_stop hle

/-- Calls that are marked by ranges without common bytes, in any order, are replaced just there. -/
theorem spliced_exact {calls : List PlaceholderCall} {ranges : List (Range source)}
    (hmarks : List.Forall₂ (Marks generated) calls ranges)
    (hdisjoint : ranges.Pairwise Range.Disjoint) :
    Edit.Slices source 0 ((calls.filterMap (editFor source generated)).mergeSort
      fun a b => a.start ≤ b.start) ∧
    (∃ rs : List (Range source), rs.Perm ranges ∧
      Rewrites Range.rendered 0 rs source (spliced source generated calls)) ∧
    ∀ calls' : List PlaceholderCall, calls'.Perm calls →
      spliced source generated calls' = spliced source generated calls := by
  obtain ⟨rs, hperm, hrs⟩ := exists_ordered hdisjoint
  obtain ⟨hslices, hrewrites⟩ :=
    applyFrom_ordered (List.nil_append source).symm hrs fun _ _ => Nat.zero_le _
  have hedits : (calls.filterMap (editFor source generated)).Perm (rs.map Range.toEdit) := by
    rw [filterMap_editFor hmarks]
    exact (hperm.map Range.toEdit).symm
  have hspliced : ∀ calls' : List PlaceholderCall, calls'.Perm calls →
      spliced source generated calls' = Edit.applyFrom source 0 (rs.map Range.toEdit) := by
    intro calls' hcalls
    exact apply_of_perm (ordered_edits hrs) ((hcalls.filterMap _).trans hedits)
  refine ⟨?_, ⟨rs, hperm, ?_⟩, ?_⟩
  · rw [mergeSort_of_perm (ordered_edits hrs) hedits]
    exact hslices
  · rw [hspliced calls (.refl calls)]
    exact hrewrites
  · intro calls' hcalls
    rw [hspliced calls' hcalls, hspliced calls (.refl calls)]

end

/-- Two calls side by side and one on the line before, from back to front. -/
theorem spliced_exact_adjacent :
    let source := "\ufeffé(h);\r\n\tg(hi)".toList
    let generated : List Generated := [.str ['a'], .str ['b'],
      .call (.ofNames ["p"]) [.call (.ofNames ["q"]) []]]
    let calls : List PlaceholderCall := [⟨3, [], ⟨2, 4⟩, ⟨2, 5⟩, ""⟩, ⟨2, [], ⟨2, 3⟩, ⟨2, 4⟩, ""⟩,
      ⟨1, [], ⟨1, 2⟩, ⟨1, 3⟩, ""⟩]
    spliced source generated calls =
        "\ufeffé(\"a\");\r\n\tg(\"b\"p(\r\n\t    q(),\r\n\t))".toList ∧
      ∃ ranges rs : List (Range source), List.Forall₂ (Marks generated) calls ranges ∧
        ranges.Pairwise Range.Disjoint ∧ rs.Perm ranges ∧
        Rewrites Range.rendered 0 rs source (spliced source generated calls) := by
  intro source generated calls
  let third : Range source := ⟨"é(h);\r\n\tg(h".toList, ['i'], [')'],
    .call (.ofNames ["p"]) [.call (.ofNames ["q"]) []], rfl, by decide⟩
  let second : Range source := ⟨"é(h);\r\n\tg(".toList, ['h'], "i)".toList, .str ['b'], rfl,
    by decide⟩
  let first : Range source := ⟨"é(".toList, ['h'], ");\r\n\tg(hi)".toList, .str ['a'], rfl,
    by decide⟩
  have hmarks : List.Forall₂ (Marks generated) calls [third, second, first] :=
    .cons ⟨rfl, rfl, rfl⟩ (.cons ⟨rfl, rfl, rfl⟩ (.cons ⟨rfl, rfl, rfl⟩ .nil))
  have hdisjoint : [third, second, first].Pairwise Range.Disjoint := by decide +kernel
  have hordered : [first, second, third].Pairwise fun r q => r.stop ≤ q.start := by decide +kernel
  have hedits : (calls.filterMap (editFor source generated)).Perm
      ([first, second, third].map Range.toEdit) := by
    rw [filterMap_editFor hmarks]
    exact (List.reverse_perm [first, second, third]).map Range.toEdit
  obtain ⟨-, ⟨rs, hperm, hrewrites⟩, -⟩ := spliced_exact hmarks hdisjoint
  refine ⟨?_, _, rs, hmarks, hdisjoint, hperm, hrewrites⟩
  exact (apply_of_perm (ordered_edits hordered) hedits).trans (by decide +kernel)

end InlineMarkup
