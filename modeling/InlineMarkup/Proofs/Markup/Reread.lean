import InlineMarkup.Proofs.Markup.WellFormed
import Mathlib.Data.List.Basic

/-!
Elements that are written and read again. Nothing is written between two texts that are neighbours,
so they are read as one; all else comes back as it was (`capture_joined`).

Every element that was read from markup can be read back. Texts are neighbours in it only where a
comment stood between them, and then it does not come back the same.
-/

set_option autoImplicit false

namespace InlineMarkup.Markup

open InlineMarkup.Text

theorem IsContent.append {s t : List Char} (hs : IsContent s) (ht : IsContent t) :
    IsContent (s ++ t) := by
  obtain ⟨hne, htrim, hsemi⟩ := hs
  obtain ⟨hne', htrim', -⟩ := ht
  rw [trim_eq_self_iff] at htrim htrim'
  have hhead : (s ++ t).head? = s.head? := List.head?_append_of_ne_nil s hne
  have hlast : (s ++ t).getLast? = t.getLast? := List.getLast?_append_of_ne_nil s hne'
  refine ⟨by simp [hne], ?_, by rwa [hhead]⟩
  rw [trim_eq_self_iff, hhead, hlast]
  exact ⟨htrim.1, htrim'.2⟩

def joinText : Node → List Node → List Node
  | .text s, .text t :: ns => .text (s ++ t) :: ns
  | n, ns => n :: ns

mutual

/-- A tree with its neighbouring texts joined. -/
def Node.joined : Node → Node
  | .element name attributes children => .element name attributes (Node.joinedAll children)
  | .text content => .text content

def Node.joinedAll : List Node → List Node
  | [] => []
  | n :: ns => joinText n.joined (Node.joinedAll ns)

end

def Element.joined (e : Element) : Element :=
  { e with children := Node.joinedAll e.children }

theorem Element.toNode_joined (e : Element) : e.joined.toNode = e.toNode.joined := by
  simp [Element.toNode, Element.joined, Node.joined]

theorem joinText_cases (n : Node) (ns : List Node) :
    (∃ s t ms, n = .text s ∧ ns = .text t :: ms ∧ joinText n ns = .text (s ++ t) :: ms) ∨
      (¬(n.isText = true ∧ textFirst ns = true) ∧ joinText n ns = n :: ns) := by
  cases n with
  | element name attributes children => exact .inr ⟨by simp [Node.isText], rfl⟩
  | text s =>
    rcases ns with _ | ⟨_ | t, ms⟩
    · exact .inr ⟨by simp [textFirst], rfl⟩
    · exact .inr ⟨by simp [textFirst, Node.isText], rfl⟩
    · exact .inl ⟨s, t, ms, rfl, rfl, rfl⟩

theorem joinText_ne_nil (n : Node) (ns : List Node) : joinText n ns ≠ [] := by
  rcases joinText_cases n ns with ⟨s, t, ms, -, -, h⟩ | ⟨-, h⟩ <;> simp [h]

mutual

theorem markup_joined (n : Node) : n.joined.markup = n.markup := by
  cases n with
  | text s => rw [Node.joined]
  | element name attributes children =>
    have hlist := markupList_joinedAll children
    rw [Node.joined]
    cases children with
    | nil => rw [Node.joinedAll]
    | cons n ns =>
      have hne : Node.joinedAll (n :: ns) ≠ [] := by
        rw [Node.joinedAll]
        exact joinText_ne_nil _ _
      have hjoined := markup_with_children name attributes hne []
      have hwritten := markup_with_children name attributes (List.cons_ne_nil n ns) []
      rw [hlist, ← hwritten] at hjoined
      simpa using hjoined

theorem markupList_joinedAll (ns : List Node) :
    Node.markupList (Node.joinedAll ns) = Node.markupList ns := by
  cases ns with
  | nil => rw [Node.joinedAll]
  | cons n ns =>
    have hn := markup_joined n
    have hns := markupList_joinedAll ns
    rw [Node.joinedAll, Node.markupList, ← hn, ← hns]
    rcases joinText_cases n.joined (Node.joinedAll ns) with ⟨s, t, ms, hs, ht, h⟩ | ⟨-, h⟩
    · rw [h, hs, ht]
      simp only [Node.markupList, Node.markup, escapeText_append, List.append_assoc]
    · rw [h, Node.markupList]

end

mutual

theorem isReadable_joined {n : Node} (h : n.IsReadable) : n.joined.IsReadable := by
  cases n with
  | text s =>
    rw [Node.joined]
    exact h
  | element name attributes children =>
    rw [Node.IsReadable] at h
    rw [Node.joined, Node.IsReadable]
    exact ⟨h.1, h.2.1, allReadable_joinedAll h.2.2⟩

theorem allReadable_joinedAll {ns : List Node} (h : Node.AllReadable ns) :
    Node.AllReadable (Node.joinedAll ns) := by
  cases ns with
  | nil =>
    rw [Node.joinedAll]
    exact h
  | cons n ns =>
    rw [Node.AllReadable] at h
    have hn := isReadable_joined h.1
    have hns := allReadable_joinedAll h.2
    rw [Node.joinedAll]
    rcases joinText_cases n.joined (Node.joinedAll ns) with ⟨s, t, ms, hs, ht, heq⟩ | ⟨-, heq⟩
    · rw [hs, Node.IsReadable] at hn
      rw [ht, Node.AllReadable, Node.IsReadable] at hns
      rw [heq, Node.AllReadable, Node.IsReadable]
      exact ⟨hn.append hns.1, hns.2⟩
    · rw [heq, Node.AllReadable]
      exact ⟨hn, hns⟩

end

mutual

theorem isApart_joined (n : Node) : n.joined.IsApart := by
  cases n with
  | text s => simp [Node.joined, Node.IsApart]
  | element name attributes children =>
    rw [Node.joined, Node.IsApart]
    exact allApart_joinedAll children

theorem allApart_joinedAll (ns : List Node) : Node.AllApart (Node.joinedAll ns) := by
  cases ns with
  | nil => simp [Node.joinedAll, Node.AllApart]
  | cons n ns =>
    have hn := isApart_joined n
    have hns := allApart_joinedAll ns
    rw [Node.joinedAll]
    rcases joinText_cases n.joined (Node.joinedAll ns) with ⟨s, t, ms, -, ht, heq⟩ | ⟨hnot, heq⟩
    · rw [ht, Node.AllApart] at hns
      rw [heq, Node.AllApart]
      exact ⟨by simp [Node.IsApart], hns.2⟩
    · rw [heq, Node.AllApart]
      exact ⟨hn, hnot, hns⟩

end

mutual

theorem joined_of_isApart {n : Node} (h : n.IsApart) : n.joined = n := by
  cases n with
  | text s => rw [Node.joined]
  | element name attributes children =>
    rw [Node.IsApart] at h
    rw [Node.joined, joinedAll_of_allApart h]

theorem joinedAll_of_allApart {ns : List Node} (h : Node.AllApart ns) : Node.joinedAll ns = ns := by
  cases ns with
  | nil => rw [Node.joinedAll]
  | cons n ns =>
    rw [Node.AllApart] at h
    rw [Node.joinedAll, joined_of_isApart h.1, joinedAll_of_allApart h.2.2]
    rcases joinText_cases n ns with ⟨s, t, ms, rfl, rfl, -⟩ | ⟨-, heq⟩
    · exact absurd ⟨rfl, rfl⟩ h.2.1
    · exact heq

end

theorem Element.joined_eq_self_iff {e : Element} : e.joined = e ↔ e.toNode.IsApart := by
  constructor
  · intro h
    have := isApart_joined e.toNode
    rwa [← e.toNode_joined, h] at this
  · intro h
    rw [Element.toNode, Node.IsApart] at h
    rw [Element.joined, joinedAll_of_allApart h]

/-- The markup of an element is read as the element with its neighbouring texts joined. -/
theorem capture_joined {e : Element} (h : e.toNode.IsReadable) (s : List Char) :
    capture (e.toNode.markup ++ s) = .ok (some ⟨e.joined, e.toNode.markup⟩) := by
  have hmarkup : e.joined.toNode.markup = e.toNode.markup := by
    rw [e.toNode_joined, markup_joined]
  have hr : e.joined.toNode.IsReadable := e.toNode_joined ▸ isReadable_joined h
  have ha : e.joined.toNode.IsApart := e.toNode_joined ▸ isApart_joined e.toNode
  have hread : readFrom (e.toNode.markup ++ s) [] (e.toNode.markup ++ s) =
      .ok (some (e.joined, s)) := by
    rw [← hmarkup]
    exact readFrom_element hr ha _ [] s
  have htext : (e.toNode.markup ++ s).take ((e.toNode.markup ++ s).length - s.length) =
      e.toNode.markup := by
    simp
  rw [capture, if_pos (opensTag_markup h s), hread]
  simp only [Except.map, Option.map_some, htext]

/-- Markup that is written for an element is read as that element, to its end and no further. -/
theorem capture_markup_append {e : Element} (hr : e.toNode.IsReadable) (ha : e.toNode.IsApart)
    (s : List Char) : capture (e.toNode.markup ++ s) = .ok (some ⟨e, e.toNode.markup⟩) := by
  rw [capture_joined hr, Element.joined_eq_self_iff.2 ha]

theorem capture_markup_append_nested :
    capture ("<a-b ==\"\" c=\"&amp;&quot;>\">1 &lt; 2<p/>&amp;lt;;</a-b>".toList ++ "; <".toList) =
      .ok (some ⟨⟨"a-b".toList, [⟨['='], []⟩, ⟨['c'], "&\">".toList⟩],
        [.text "1 < 2".toList, .element ['p'] [] [], .text "&lt;;".toList]⟩,
        "<a-b ==\"\" c=\"&amp;&quot;>\">1 &lt; 2<p/>&amp;lt;;</a-b>".toList⟩) := by
  let e : Element := ⟨"a-b".toList, [⟨['='], []⟩, ⟨['c'], "&\">".toList⟩],
    [.text "1 < 2".toList, .element ['p'] [] [], .text "&lt;;".toList]⟩
  have hr : e.toNode.IsReadable := by
    simp only [e, Element.toNode, Node.IsReadable, Node.AllReadable]
    decide
  have ha : e.toNode.IsApart := by
    simp only [e, Element.toNode, Node.IsApart, Node.AllApart]
    decide
  have hmarkup : e.toNode.markup =
      "<a-b ==\"\" c=\"&amp;&quot;>\">1 &lt; 2<p/>&amp;lt;;</a-b>".toList := by
    decide +kernel
  have hread := capture_markup_append hr ha "; <".toList
  rwa [hmarkup] at hread

/-- An element that was read from markup comes back from its own markup, to the end of it, exactly if
no two texts are neighbours in it; if some are, they come back as one. -/
theorem capture_reread_iff {input : List Char} {captured : Captured}
    (h : capture input = .ok (some captured)) :
    capture captured.root.toNode.markup =
        .ok (some ⟨captured.root.joined, captured.root.toNode.markup⟩) ∧
      (capture captured.root.toNode.markup =
        .ok (some ⟨captured.root, captured.root.toNode.markup⟩) ↔ captured.root.toNode.IsApart) := by
  have hread := capture_joined (readable_of_capture h) []
  rw [List.append_nil] at hread
  refine ⟨hread, ?_⟩
  rw [hread, ← Element.joined_eq_self_iff]
  simp

/-- A comment between two texts is not written, and the texts are read as one. -/
theorem capture_reread_iff_comment : ∃ captured,
    capture "<p>a<!-- x -->b</p>".toList = .ok (some captured) ∧
      captured.root = ⟨['p'], [], [.text ['a'], .text ['b']]⟩ ∧
      capture captured.root.toNode.markup = .ok (some ⟨⟨['p'], [], [.text ['a', 'b']]⟩,
        captured.root.toNode.markup⟩) ∧
      capture captured.root.toNode.markup ≠
        .ok (some ⟨captured.root, captured.root.toNode.markup⟩) := by
  have hread : capture "<p>a<!-- x -->b</p>".toList =
      .ok (some ⟨⟨['p'], [], [.text ['a'], .text ['b']]⟩, "<p>a<!-- x -->b</p>".toList⟩) :=
    eq_ok_of_toOption (by decide +kernel)
  obtain ⟨hjoined, hiff⟩ := capture_reread_iff hread
  refine ⟨_, hread, rfl, hjoined, fun hsame => ?_⟩
  have hapart := hiff.1 hsame
  simp only [Element.toNode, Node.IsApart, Node.AllApart] at hapart
  exact hapart.2.1 ⟨rfl, rfl⟩

end InlineMarkup.Markup
