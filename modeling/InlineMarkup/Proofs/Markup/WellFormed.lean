import InlineMarkup.Proofs.Blank
import InlineMarkup.Proofs.Markup.Balance

/-!
What is read from markup is well formed: names are such as tags and attributes are read with, and
texts are trimmed, not blank and without a semicolon in front. This holds of all elements that are
open while markup is read, at any depth in them (`Reaches.isReadable`), and so of the element that
is read in the end.
-/

set_option autoImplicit false

namespace InlineMarkup.Markup

open InlineMarkup.Text

theorem isUpper_iff {c : Char} : c.isUpper = true ↔ 65 ≤ c.val.toNat ∧ c.val.toNat ≤ 90 := by
  change decide (c.val ≥ 'A'.val ∧ c.val ≤ 'Z'.val) = true ↔ _
  simp [UInt32.le_iff_toNat_le]

theorem isLower_iff {c : Char} : c.isLower = true ↔ 97 ≤ c.val.toNat ∧ c.val.toNat ≤ 122 := by
  change (decide (c.val ≥ 'a'.val) && decide (c.val ≤ 'z'.val)) = true ↔ _
  simp [UInt32.le_iff_toNat_le]

theorem isLower_toLower {c : Char} (h : c.isUpper = true) : c.toLower.isLower = true := by
  have hrange : c.val ≥ 'A'.val ∧ c.val ≤ 'Z'.val := of_decide_eq_true h
  have hval : c.toLower.val = c.val + ('a'.val - 'A'.val) := congrArg Char.val (dif_pos hrange)
  have hn := isUpper_iff.1 h
  have hsum : c.toLower.val.toNat = c.val.toNat + 32 := by
    rw [hval, UInt32.toNat_add]
    have : ('a'.val - 'A'.val).toNat = 32 := by decide
    omega
  rw [isLower_iff]
  omega

theorem toLower_cases (c : Char) :
    c.toLower.isLower = true ∨ (c.toLower = c ∧ c.isUpper = false) := by
  cases h : c.isUpper with
  | true => exact .inl (isLower_toLower h)
  | false => exact .inr ⟨toLower_of_not_upper h, rfl⟩

theorem plain_of_isLower {c : Char} (h : c.isLower = true) :
    isBlank c = false ∧ c ≠ '=' ∧ c ≠ '/' ∧ c ≠ '>' ∧ c.isUpper = false := by
  have hname := lower_not_endsTagName h
  simp only [endsTagName, Bool.or_eq_false_iff, beq_eq_false_iff_ne] at hname
  refine ⟨hname.1.1, ?_, hname.1.2, hname.2, ?_⟩
  · rintro rfl
    cases h
  · rw [Bool.eq_false_iff, ne_eq, isUpper_iff]
    have := isLower_iff.1 h
    omega

theorem plain_toLower {c : Char} (h : endsTagName c = false) :
    isBlank c.toLower = false ∧ c.toLower ≠ '/' ∧ c.toLower ≠ '>' ∧ c.toLower.isUpper = false := by
  rcases toLower_cases c with hlower | ⟨heq, hupper⟩
  · obtain ⟨hblank, -, hslash, hangle, hupper⟩ := plain_of_isLower hlower
    exact ⟨hblank, hslash, hangle, hupper⟩
  · simp only [endsTagName, Bool.or_eq_false_iff, beq_eq_false_iff_ne] at h
    rw [heq]
    exact ⟨h.1.1, h.1.2, h.2, hupper⟩

theorem isTagName_lower {c : Char} {s : List Char} (hc : c.isLower = true)
    (hs : ∀ d ∈ c :: s, endsTagName d = false) : IsTagName (lower (c :: s)) := by
  refine ⟨?_, ?_⟩
  · have := toLower_of_not_upper (plain_of_isLower hc).2.2.2.2
    simpa [lower, this] using hc
  · intro d hd
    obtain ⟨b, hb, rfl⟩ := List.mem_map.1 hd
    exact plain_toLower (hs b hb)

theorem isAttributeName_lower {s : List Char} (hne : s ≠ [])
    (hs : ∀ c ∈ s, endsAttributeName c = false) : IsAttributeName (lower s) := by
  refine .inr ⟨by simpa [lower] using hne, fun d hd => ?_⟩
  obtain ⟨c, hc, rfl⟩ := List.mem_map.1 hd
  have hends := hs c hc
  simp only [endsAttributeName, Bool.or_eq_false_iff, beq_eq_false_iff_ne] at hends
  rcases toLower_cases c with hlower | ⟨heq, hupper⟩
  · exact plain_of_isLower hlower
  · rw [heq]
    exact ⟨hends.1.1.1, hends.1.1.2, hends.2, hends.1.2, hupper⟩

theorem isAttributeName_attributeName {c : Char} (r : List Char) (hblank : isBlank c = false)
    (hangle : c ≠ '>') (hslash : c ≠ '/') : IsAttributeName (attributeName (c :: r)).1 := by
  unfold attributeName
  split
  · rename_i d t hsplit
    obtain ⟨hcons, -, hd⟩ := splitAt_cases hsplit
    obtain ⟨rfl, -⟩ := List.cons.inj hcons
    refine .inl ?_
    simpa [endsAttributeName, hblank, hangle, hslash] using hd
  · rename_i n t hne hsplit
    have happ : n ++ t = c :: r := by
      have := splitAt_append endsAttributeName (c :: r)
      rwa [hsplit] at this
    refine isAttributeName_lower ?_ ?_
    · rintro rfl
      exact hne c r rfl happ
    · intro d hd
      have : d ∈ (splitAt endsAttributeName (c :: r)).1 := by rwa [hsplit]
      simpa using List.mem_takeWhile_imp this

theorem readAttribute_name {s rest : List Char} {a : Attribute}
    (h : readAttribute s = .ok (a, rest)) : a.name = (attributeName s).1 := by
  unfold readAttribute at h
  simp only at h
  split at h
  · cases hval : attributeValue (attributeName s).1 _ with
    | error e =>
      rw [hval] at h
      cases h
    | ok p =>
      rw [hval] at h
      cases h
      rfl
  · cases h
    rfl

theorem tagRest_names {s rest : List Char} {as : List Attribute} {b : Bool}
    (h : tagRest s = .ok (as, b, rest)) : ∀ a ∈ as, IsAttributeName a.name := by
  fun_induction tagRest s generalizing as b rest with
  | case1 => cases h
  | case2 =>
    cases h
    simp
  | case3 =>
    cases h
    simp
  | case4 s r hb hl hs hc ih => exact ih h
  | case5 => cases h
  | case6 s c r hb hl hc hs a r' ha hlt ih =>
    obtain ⟨-, -, hblank⟩ := eq_append_of_dropWhile hb
    cases ht : tagRest r' with
    | error e =>
      rw [ht] at h
      cases h
    | ok p =>
      rw [ht] at h
      cases h
      refine List.forall_mem_cons.2 ⟨?_, ih ht⟩
      rw [readAttribute_name ha]
      exact isAttributeName_attributeName r hblank hc hs

def Token.IsReadable : Token → Prop
  | .startTag name attributes _ => IsTagName name ∧ ∀ a ∈ attributes, IsAttributeName a.name
  | _ => True

theorem startTag_isReadable {c : Char} {s rest : List Char} {t : Token} (hc : c.isLower = true)
    (h : startTag ('<' :: c :: s) = .ok (t, rest)) : t.IsReadable := by
  unfold startTag at h
  simp only [List.drop_succ_cons, List.drop_zero] at h
  split at h
  · rename_i as b r ht
    cases h
    refine ⟨?_, tagRest_names ht⟩
    have hname : (splitAt endsTagName (c :: s)).1 =
        c :: s.takeWhile (fun d => !endsTagName d) := by
      simp [splitAt, lower_not_endsTagName hc]
    rw [hname]
    refine isTagName_lower hc fun d hd => ?_
    rw [← hname] at hd
    simpa using List.mem_takeWhile_imp hd
  · cases h
  · cases h

theorem next_isReadable {s rest : List Char} {t : Token} (h : next s = .ok (some (t, rest))) :
    t.IsReadable := by
  cases s with
  | nil => cases h
  | cons a s =>
    simp only [next] at h
    split at h
    · have hcomment := map_some_ok h
      unfold commentToken at hcomment
      split at hcomment <;> cases hcomment
      trivial
    · split at h
      · rename_i hcomment hopen
        split at h
        · have hend := map_some_ok h
          unfold endTag at hend
          simp only at hend
          split at hend <;> cases hend
          trivial
        · rename_i hslash
          obtain ⟨c, s', hs, hc⟩ : ∃ c s', a :: s = '<' :: c :: s' ∧ c.isLower = true := by
            unfold opensMarkup at hopen
            split at hopen
            · simp_all
            · simp_all
            · rename_i c s' _ _ hs
              exact ⟨c, s', hs, hopen⟩
            · cases hopen
          rw [hs] at h
          exact startTag_isReadable hc (map_some_ok h)
      · cases h
        trivial

theorem allReadable_append {ns ms : List Node} :
    Node.AllReadable (ns ++ ms) ↔ Node.AllReadable ns ∧ Node.AllReadable ms := by
  induction ns with
  | nil => simp [Node.AllReadable]
  | cons n ns ih => simp [Node.AllReadable, ih, and_assoc]

theorem Element.isReadable_push {e : Element} {n : Node} (he : e.toNode.IsReadable)
    (hn : n.IsReadable) : (e.push n).toNode.IsReadable := by
  rw [Element.toNode, Node.IsReadable] at he ⊢
  refine ⟨he.1, he.2.1, allReadable_append.2 ⟨he.2.2, ?_⟩⟩
  simpa [Node.AllReadable] using hn

theorem isReadable_new {name : List Char} {attributes : List Attribute} (hname : IsTagName name)
    (hattributes : ∀ a ∈ attributes, IsAttributeName a.name) :
    (Element.mk name attributes []).toNode.IsReadable := by
  rw [Element.toNode, Node.IsReadable, Node.AllReadable]
  exact ⟨hname, hattributes, trivial⟩

def Progress.IsReadable : Progress → Prop
  | .notMarkup => True
  | .root e => e.toNode.IsReadable
  | .more opened => ∀ e ∈ opened, e.toNode.IsReadable

theorem finish_isReadable {e : Element} {opened : List Element} (he : e.toNode.IsReadable)
    (ho : ∀ o ∈ opened, o.toNode.IsReadable) : (finish e opened).IsReadable := by
  cases opened with
  | nil => exact he
  | cons parent opened =>
    obtain ⟨hparent, hrest⟩ := List.forall_mem_cons.1 ho
    exact List.forall_mem_cons.2 ⟨Element.isReadable_push hparent he, hrest⟩

theorem Advances.isReadable {opened : List Element} {t : Token} {p : Progress}
    (h : Advances opened t p) (ht : t.IsReadable) (ho : ∀ o ∈ opened, o.toNode.IsReadable) :
    p.IsReadable := by
  cases h with
  | comment => exact ho
  | blank => exact ho
  | content hne hsemi =>
    obtain ⟨he, hes⟩ := List.forall_mem_cons.1 ho
    refine List.forall_mem_cons.2 ⟨Element.isReadable_push he ?_, hes⟩
    rw [Node.IsReadable]
    exact ⟨hne, trim_trim _, hsemi⟩
  | outside => trivial
  | @selfClosing _ name attributes _ hfinish =>
    subst hfinish
    exact finish_isReadable (isReadable_new ht.1 ht.2) ho
  | opens => exact List.forall_mem_cons.2 ⟨isReadable_new ht.1 ht.2, ho⟩
  | closes hfinish =>
    subst hfinish
    obtain ⟨he, hes⟩ := List.forall_mem_cons.1 ho
    exact finish_isReadable he hes

theorem Reaches.isReadable {input start left : List Char} {opened last : List Element}
    (h : Reaches input opened start last left) (ho : ∀ o ∈ opened, o.toNode.IsReadable) :
    ∀ o ∈ last, o.toNode.IsReadable := by
  induction h with
  | here => exact ho
  | step ht ha _ ih => exact ih ((advance_eq_ok_iff.1 ha).isReadable (next_isReadable ht) ho)

theorem Stops.isReadable {input start : List Char} {opened : List Element}
    {result : Except Error (Option (Element × List Char))} (h : Stops input opened start result)
    (ho : ∀ o ∈ opened, o.toNode.IsReadable) {e : Element} {rest : List Char}
    (hresult : result = .ok (some (e, rest))) : e.toNode.IsReadable := by
  cases h with
  | illFormed => cases hresult
  | ended => cases opened <;> cases hresult
  | refused => cases hresult
  | notMarkup => cases hresult
  | closed ht ha =>
    cases hresult
    exact (advance_eq_ok_iff.1 ha).isReadable (next_isReadable ht) ho

theorem readable_of_capture {input : List Char} {captured : Captured}
    (h : capture input = .ok (some captured)) : captured.root.toNode.IsReadable := by
  obtain ⟨rest, hread, -⟩ := readFrom_of_capture h
  obtain ⟨last, left, hreach, hstop⟩ := exists_stop input [] input
  exact hstop.isReadable (hreach.isReadable (by simp)) hread

/-- A node that stands in a tree, at any depth. -/
inductive Node.Occurs (n : Node) : Node → Prop
  | here : n.Occurs n
  | inside {name : List Char} {attributes : List Attribute} {children : List Node} {m : Node} :
      m ∈ children → n.Occurs m → n.Occurs (.element name attributes children)

/-- All names and texts in a tree are such as can be written. -/
structure Node.IsWellFormed (root : Node) : Prop where
  elements {name : List Char} {attributes : List Attribute} {children : List Node} :
    (Node.element name attributes children).Occurs root →
      IsTagName name ∧ ∀ a ∈ attributes, IsAttributeName a.name
  texts {content : List Char} : (Node.text content).Occurs root → IsContent content

theorem allReadable_iff {ns : List Node} : Node.AllReadable ns ↔ ∀ n ∈ ns, n.IsReadable := by
  induction ns with
  | nil => simp [Node.AllReadable]
  | cons n ns ih => simp [Node.AllReadable, ih]

theorem Node.IsReadable.of_occurs {n root : Node} (h : root.IsReadable) (hn : n.Occurs root) :
    n.IsReadable := by
  induction hn with
  | here => exact h
  | inside hm _ ih =>
    rw [Node.IsReadable] at h
    exact ih (allReadable_iff.1 h.2.2 _ hm)

theorem Node.IsReadable.isWellFormed {root : Node} (h : root.IsReadable) : root.IsWellFormed where
  elements hn := by
    have hnode := h.of_occurs hn
    rw [Node.IsReadable] at hnode
    exact ⟨hnode.1, hnode.2.1⟩
  texts hn := by
    have hnode := h.of_occurs hn
    rwa [Node.IsReadable] at hnode

/-- Wherever reading goes, the open elements are well formed, and so is the element that is read. -/
theorem capture_isWellFormed (input : List Char) :
    (∀ opened left, Reaches input [] input opened left → ∀ e ∈ opened, e.toNode.IsWellFormed) ∧
      ∀ captured, capture input = .ok (some captured) → captured.root.toNode.IsWellFormed := by
  constructor
  · intro opened left hreach e he
    exact (hreach.isReadable (by simp) e he).isWellFormed
  · intro captured hcapture
    exact (readable_of_capture hcapture).isWellFormed

/-- References may bring blanks, a semicolon and a bracket into a text. -/
theorem capture_isWellFormed_references : ∃ captured,
    capture "<a-b =C X=1>&nbsp;<P&#59;&#x3C;&#32;</a-b>".toList = .ok (some captured) ∧
      captured.root = ⟨"a-b".toList, [⟨['='], []⟩, ⟨['c'], []⟩, ⟨['x'], ['1']⟩],
        [.text "<P;<".toList]⟩ ∧
      IsTagName captured.root.name ∧ IsAttributeName ['='] ∧ IsContent "<P;<".toList := by
  have hread : capture "<a-b =C X=1>&nbsp;<P&#59;&#x3C;&#32;</a-b>".toList =
      .ok (some ⟨⟨"a-b".toList, [⟨['='], []⟩, ⟨['c'], []⟩, ⟨['x'], ['1']⟩],
        [.text "<P;<".toList]⟩, "<a-b =C X=1>&nbsp;<P&#59;&#x3C;&#32;</a-b>".toList⟩) :=
    eq_ok_of_toOption (by decide +kernel)
  have hformed := (capture_isWellFormed _).2 _ hread
  obtain ⟨hname, hattributes⟩ := hformed.elements .here
  exact ⟨_, hread, rfl, hname, hattributes ⟨['='], []⟩ List.mem_cons_self,
    hformed.texts (.inside List.mem_cons_self .here)⟩

end InlineMarkup.Markup
