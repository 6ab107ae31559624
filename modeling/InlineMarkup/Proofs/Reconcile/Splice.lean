import InlineMarkup.Reconcile.Edit
import InlineMarkup.Proofs.Location
import InlineMarkup.Proofs.Region.Division
import Mathlib.Data.List.Infix

/-!
Edits that put a text in the place of each placeholder call of an annotated source. In whatever order
they are given, making them keeps the gaps (`apply_editsFrom`).
-/

set_option autoImplicit false

namespace InlineMarkup

open InlineMarkup.Text

theorem lineBreak_eq (s : List Char) :
    lineBreak s = if ['\r', '\n'] <:+: s then ['\r', '\n'] else ['\n'] := by
  simp only [lineBreak, isSome_cut_iff]

/-- The edits that put `f` in the place of the placeholder calls of some parts, which lie from a byte
offset on. -/
def editsFrom (placeholder : Host.Path) (f : Nat → Region → List Char) :
    Nat → Nat → List (List Char × Region) → List Edit
  | _, _, [] => []
  | offset, id, (gap, r) :: parts =>
    let start := offset + byteLength gap
    let stop := start + byteLength (called placeholder id r)
    ⟨start, stop, f id r⟩ :: editsFrom placeholder f stop (id + 1) parts

section

variable (placeholder : Host.Path) (f : Nat → Region → List Char)

theorem applyFrom_editsFrom (front : List Char) (id : Nat) (parts : List (List Char × Region))
    (last : List Char) :
    Edit.applyFrom (front ++ weave (called placeholder) id parts last) (byteLength front)
      (editsFrom placeholder f (byteLength front) id parts) = weave f id parts last := by
  induction parts generalizing front id with
  | nil => exact dropBytes_append front last
  | cons part parts ih =>
    obtain ⟨gap, r⟩ := part
    have hrest := ih (front ++ (gap ++ called placeholder id r)) (id + 1)
    simp only [byteLength_append, List.append_assoc, ← Nat.add_assoc] at hrest
    simp only [editsFrom, Edit.applyFrom, weave, dropBytes_append, Nat.add_sub_cancel_left,
      takeBytes_append, hrest, List.append_assoc]

theorem mem_editsFrom {offset id : Nat} {parts : List (List Char × Region)} {e : Edit} :
    e ∈ editsFrom placeholder f offset id parts ↔ ∃ before gap r after,
      parts = before ++ (gap, r) :: after ∧
      e = ⟨offset + byteLength (weave (called placeholder) id before gap),
        offset + byteLength (weave (called placeholder) id before gap ++
          called placeholder (id + before.length) r), f (id + before.length) r⟩ := by
  induction parts generalizing offset id with
  | nil => simp [editsFrom]
  | cons part parts ih =>
    obtain ⟨gap, r⟩ := part
    -- the same edit, counted from the start of the parts and from behind the first of them
    have hcons : ∀ (before : List (List Char × Region)) (gap' : List Char) (r' : Region),
        (⟨offset + byteLength (weave (called placeholder) id ((gap, r) :: before) gap'),
          offset + byteLength (weave (called placeholder) id ((gap, r) :: before) gap' ++
            called placeholder (id + ((gap, r) :: before).length) r'),
          f (id + ((gap, r) :: before).length) r'⟩ : Edit) =
        ⟨offset + byteLength gap + byteLength (called placeholder id r) +
            byteLength (weave (called placeholder) (id + 1) before gap'),
          offset + byteLength gap + byteLength (called placeholder id r) +
            byteLength (weave (called placeholder) (id + 1) before gap' ++
              called placeholder (id + 1 + before.length) r'), f (id + 1 + before.length) r'⟩ := by
      intro before gap' r'
      have hid : id + ((gap, r) :: before).length = id + 1 + before.length := by
        simp only [List.length_cons]
        omega
      simp only [hid, weave, byteLength_append, Edit.mk.injEq, and_true]
      omega
    simp only [editsFrom, List.mem_cons, ih]
    constructor
    · rintro (rfl | ⟨before, gap', r', after, rfl, rfl⟩)
      · exact ⟨[], gap, r, parts, rfl, by simp [weave, Nat.add_assoc]⟩
      · exact ⟨(gap, r) :: before, gap', r', after, rfl, (hcons before gap' r').symm⟩
    · rintro ⟨before, gap', r', after, heq, rfl⟩
      cases before with
      | nil =>
        cases heq
        exact .inl (by simp [weave, Nat.add_assoc])
      | cons part before =>
        cases heq
        exact .inr ⟨before, gap', r', after, rfl, hcons before gap' r'⟩

theorem byteLength_called_pos (id : Nat) (r : Region) : 0 < byteLength (called placeholder id r) := by
  refine Nat.pos_of_ne_zero fun h => ?_
  simp [called, placeholderCall, byteLength_eq_zero_iff] at h

theorem pairwise_editsFrom (offset id : Nat) (parts : List (List Char × Region)) :
    (editsFrom placeholder f offset id parts).Pairwise (fun a b => a.start < b.start) := by
  induction parts generalizing offset id with
  | nil => exact .nil
  | cons part parts ih =>
    obtain ⟨gap, r⟩ := part
    refine .cons (fun e he => ?_) (ih _ _)
    obtain ⟨before, gap', r', after, -, rfl⟩ := (mem_editsFrom placeholder f).1 he
    have := byteLength_called_pos placeholder id r
    simp only
    omega

theorem mergeSort_of_perm {edits es : List Edit}
    (hes : es.Pairwise (fun a b => a.start < b.start)) (h : edits.Perm es) :
    (edits.mergeSort fun a b => a.start ≤ b.start) = es := by
  have hsorted := @List.pairwise_mergeSort Edit (fun a b => a.start ≤ b.start)
    (by simp only [decide_eq_true_eq]; omega)
    (by simp only [Bool.or_eq_true, decide_eq_true_eq]; omega) edits
  have huniq : ∀ {a b : Edit}, a ∈ es → b ∈ es → a.start = b.start → a = b := fun ha hb =>
    List.Pairwise.forall_of_forall_of_flip (R := fun a b : Edit => a.start = b.start → a = b)
      (fun _ _ _ => rfl) (hes.imp fun hlt heq => absurd heq (Nat.ne_of_lt hlt))
      (hes.imp fun hlt heq => absurd heq (Nat.ne_of_gt hlt)) ha hb
  have hperm := (edits.mergeSort_perm fun a b => a.start ≤ b.start).trans h
  refine List.Perm.eq_of_pairwise (fun a b ha hb hab hba => ?_) hsorted
    (hes.imp fun hab => ?_) hperm
  · simp only [decide_eq_true_eq] at hab hba
    exact huniq (hperm.subset ha) hb (Nat.le_antisymm hab hba)
  · simpa using Nat.le_of_lt hab

theorem apply_of_perm {source : List Char} {edits es : List Edit}
    (hes : es.Pairwise (fun a b => a.start < b.start)) (h : edits.Perm es) :
    Edit.apply source edits = Edit.applyFrom source 0 es := by
  rw [Edit.apply, mergeSort_of_perm hes h]

/-- Making the edits of all regions, given in any order, keeps the gaps. -/
theorem apply_editsFrom {edits : List Edit} {parts : List (List Char × Region)} {last : List Char}
    (h : edits.Perm (editsFrom placeholder f 0 1 parts)) :
    Edit.apply (weave (called placeholder) 1 parts last) edits = weave f 1 parts last := by
  rw [apply_of_perm (pairwise_editsFrom placeholder f 0 1 parts) h]
  exact applyFrom_editsFrom placeholder f [] 1 parts last

end

end InlineMarkup
