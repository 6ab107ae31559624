import InlineMarkup.Proofs.Markup.Escape
import InlineMarkup.Proofs.Markup.Locality

/-!
Markup that is written for an element is read as that element again, whatever follows it
(`readFrom_element`). The names must be such as tags and attributes are read with, texts must be
trimmed, and no two texts may be neighbours, since nothing is written between them.
-/

set_option autoImplicit false

namespace InlineMarkup.Markup

open InlineMarkup.Text

/-- A name that begins with a small letter and has neither capitals nor what ends the name of a
tag. -/
def IsTagName (name : List Char) : Prop :=
  name.head?.any Char.isLower = true ∧
    ∀ c ∈ name, isBlank c = false ∧ c ≠ '/' ∧ c ≠ '>' ∧ c.isUpper = false

/-- An equals sign by itself, or a name with neither capitals nor what ends the name of an
attribute. -/
def IsAttributeName (name : List Char) : Prop :=
  name = ['='] ∨
    name ≠ [] ∧ ∀ c ∈ name, isBlank c = false ∧ c ≠ '=' ∧ c ≠ '/' ∧ c ≠ '>' ∧ c.isUpper = false

/-- Text as it stands in a tree. A semicolon at its front would be taken for the end of the host's
statement. -/
def IsContent (s : List Char) : Prop :=
  s ≠ [] ∧ trim s = s ∧ s.head? ≠ some ';'

-- The characters of the name are gone through, not all characters there are.
instance (name : List Char) : Decidable (IsTagName name) :=
  @instDecidableAnd _ _ _ (List.decidableBAll _ name)

instance (name : List Char) : Decidable (IsAttributeName name) :=
  @instDecidableOr _ _ _ (@instDecidableAnd _ _ _ (List.decidableBAll _ name))

instance (s : List Char) : Decidable (IsContent s) :=
  inferInstanceAs (Decidable (_ ∧ _))

mutual

def Node.IsReadable : Node → Prop
  | .element name attributes children =>
    IsTagName name ∧ (∀ a ∈ attributes, IsAttributeName a.name) ∧ Node.AllReadable children
  | .text content => IsContent content

def Node.AllReadable : List Node → Prop
  | [] => True
  | n :: ns => n.IsReadable ∧ Node.AllReadable ns

end

def Node.isText : Node → Bool
  | .element _ _ _ => false
  | .text _ => true

def textFirst (ns : List Node) : Bool :=
  ns.head?.any Node.isText

mutual

/-- No two texts are neighbours anywhere in a tree. -/
def Node.IsApart : Node → Prop
  | .element _ _ children => Node.AllApart children
  | .text _ => True

def Node.AllApart : List Node → Prop
  | [] => True
  | n :: ns => n.IsApart ∧ ¬(n.isText = true ∧ textFirst ns = true) ∧ Node.AllApart ns

end

theorem toLower_of_not_upper {c : Char} (h : c.isUpper = false) : c.toLower = c := by
  have hnot : ¬(c.val ≥ 'A'.val ∧ c.val ≤ 'Z'.val) := of_decide_eq_false h
  exact dif_neg hnot

theorem lower_of_not_upper {s : List Char} (h : ∀ c ∈ s, c.isUpper = false) : lower s = s := by
  rw [lower, List.map_congr_left fun c hc => toLower_of_not_upper (h c hc), List.map_id']

theorem cut_of_not_mem {c : Char} {s : List Char} (h : c ∉ s) (y : List Char) :
    cut [c] (s ++ c :: y) = some (s, y) := by
  induction s with
  | nil => simp [cut, List.isPrefixOf]
  | cons d s ih =>
    obtain ⟨hd, hs⟩ := not_or.1 (mt List.mem_cons.2 h)
    rw [List.cons_append, cut, ih hs]
    simp [List.isPrefixOf, hd]

theorem IsAttributeName.attributeName_eq {name : List Char} (h : IsAttributeName name)
    (y : List Char) : attributeName (name ++ '=' :: y) = (name, '=' :: y) := by
  rcases h with rfl | ⟨hne, hname⟩
  · have := splitAt_append_stop (p := endsAttributeName) (a := []) (d := '=') ('=' :: y) (by simp) rfl
    rw [List.nil_append] at this
    simp only [attributeName, List.cons_append, List.nil_append, this]
  · have hplain : ∀ c ∈ name, endsAttributeName c = false := by
      intro c hc
      obtain ⟨hblank, hequals, hslash, hangle, -⟩ := hname c hc
      simp [endsAttributeName, hblank, hequals, hslash, hangle]
    have hlower := lower_of_not_upper fun c hc => (hname c hc).2.2.2.2
    have hsplit := splitAt_append_stop y hplain (d := '=') rfl
    unfold attributeName
    split
    · rename_i heq
      rw [hsplit] at heq
      exact absurd (Prod.mk.inj heq).1 hne
    · rename_i heq
      rw [hsplit] at heq
      obtain ⟨rfl, rfl⟩ := Prod.mk.inj heq
      rw [hlower]

theorem IsAttributeName.eq_cons {name : List Char} (h : IsAttributeName name) :
    ∃ c s, name = c :: s ∧ isBlank c = false ∧ c ≠ '>' ∧ c ≠ '/' := by
  rcases h with rfl | ⟨hne, hname⟩
  · exact ⟨'=', [], rfl, by decide, by decide, by decide⟩
  · cases name with
    | nil => exact absurd rfl hne
    | cons c s =>
      obtain ⟨hblank, -, hslash, hangle, -⟩ := hname c List.mem_cons_self
      exact ⟨c, s, rfl, hblank, hangle, hslash⟩

theorem readAttribute_markup {a : Attribute} (h : IsAttributeName a.name) (y : List Char) :
    readAttribute (a.name ++ '=' :: '"' :: (escapeValue a.value ++ '"' :: y)) = .ok (a, y) := by
  have hequals : ('=' :: '"' :: (escapeValue a.value ++ '"' :: y)).dropWhile isBlank =
      '=' :: '"' :: (escapeValue a.value ++ '"' :: y) := rfl
  have hquote : ('"' :: (escapeValue a.value ++ '"' :: y)).dropWhile isBlank =
      '"' :: (escapeValue a.value ++ '"' :: y) := rfl
  have hcut := cut_of_not_mem (quote_not_mem_escapeValue a.value) y
  have hvalue : attributeValue a.name ('"' :: (escapeValue a.value ++ '"' :: y)) =
      .ok (a.value, y) := by
    simp only [attributeValue, hquote, true_or, if_true, hcut, decode_escapeValue]
  simp only [readAttribute, h.attributeName_eq, hequals, hvalue, Except.map]

theorem tagRest_markup {attributes : List Attribute}
    (h : ∀ a ∈ attributes, IsAttributeName a.name) {stop y : List Char} {selfClosing : Bool}
    (hstop : tagRest stop = .ok ([], selfClosing, y)) :
    tagRest (attributes.flatMap Attribute.markup ++ stop) = .ok (attributes, selfClosing, y) := by
  induction attributes with
  | nil => exact hstop
  | cons a attributes ih =>
    obtain ⟨ha, hrest⟩ := List.forall_mem_cons.1 h
    obtain ⟨c, s, hname, hblank, hangle, hslash⟩ := ha.eq_cons
    have hwritten : (a :: attributes).flatMap Attribute.markup ++ stop =
        ' ' :: (a.name ++ '=' :: '"' :: (escapeValue a.value ++
          '"' :: (attributes.flatMap Attribute.markup ++ stop))) := by
      simp [Attribute.markup]
    have hread := readAttribute_markup ha (attributes.flatMap Attribute.markup ++ stop)
    rw [hwritten]
    simp only [hname, List.cons_append] at hread ⊢
    generalize s ++ '=' :: _ = r at hread ⊢
    have hdrop : (' ' :: c :: r).dropWhile isBlank = c :: r :=
      dropWhile_append_stop (a := [' ']) r (List.forall_mem_singleton.2 rfl) hblank
    rw [tagRest_of_dropBlank hdrop, if_neg hangle, if_neg hslash, hread]
    simp only [ih hrest, Except.map]

theorem attributes_end_name (attributes : List Attribute) {d : Char} (hd : endsTagName d = true)
    (y : List Char) :
    ∃ c s, attributes.flatMap Attribute.markup ++ d :: y = c :: s ∧ endsTagName c = true := by
  cases attributes with
  | nil => exact ⟨d, y, rfl, hd⟩
  | cons a attributes => exact ⟨' ', _, by simp [Attribute.markup]; rfl, by decide⟩

section

variable {name : List Char} (h : IsTagName name)
include h

theorem IsTagName.eq_cons : ∃ c s, name = c :: s ∧ c.isLower = true := by
  cases name with
  | nil => cases h.1
  | cons c s => exact ⟨c, s, rfl, h.1⟩

theorem IsTagName.lower_eq : lower name = name :=
  lower_of_not_upper fun c hc => (h.2 c hc).2.2.2

theorem IsTagName.splitAt_eq {d : Char} (hd : endsTagName d = true) (y : List Char) :
    splitAt endsTagName (name ++ d :: y) = (name, d :: y) := by
  refine splitAt_append_stop y (fun c hc => ?_) hd
  obtain ⟨hblank, hslash, hangle, -⟩ := h.2 c hc
  simp [endsTagName, hblank, hslash, hangle]

theorem next_startTag {attributes : List Attribute}
    (ha : ∀ a ∈ attributes, IsAttributeName a.name) {d : Char} {s y : List Char}
    {selfClosing : Bool} (hd : endsTagName d = true)
    (hstop : tagRest (d :: s) = .ok ([], selfClosing, y)) :
    next ('<' :: (name ++ (attributes.flatMap Attribute.markup ++ d :: s))) =
      .ok (some (.startTag name attributes selfClosing, y)) := by
  obtain ⟨e, t, hrest, he⟩ := attributes_end_name attributes hd s
  have hstart : startTag ('<' :: (name ++ (attributes.flatMap Attribute.markup ++ d :: s))) =
      .ok (.startTag name attributes selfClosing, y) := by
    have htag := tagRest_markup ha hstop
    rw [hrest] at htag ⊢
    simp only [startTag, List.drop_succ_cons, List.drop_zero, h.splitAt_eq he, htag, h.lower_eq]
  obtain ⟨c, r, rfl, hc⟩ := h.eq_cons
  obtain ⟨hopen, hcomment, hend⟩ :=
    opensMarkup_of_lower (r ++ (attributes.flatMap Attribute.markup ++ d :: s)) hc
  rw [List.cons_append] at hstart ⊢
  simp only [next, hopen, hcomment, hend, hstart, Bool.false_eq_true, if_false, if_true, Except.map]

theorem opensMarkup_endTag (y : List Char) : opensMarkup ('<' :: '/' :: (name ++ y)) = true := by
  obtain ⟨c, s, rfl, hc⟩ := h.eq_cons
  have halpha : c.isAlpha = true := Bool.or_eq_true_iff.2 (.inr hc)
  simp [opensMarkup, halpha]

theorem next_endTag (y : List Char) :
    next ('<' :: '/' :: (name ++ '>' :: y)) = .ok (some (.endTag name, y)) := by
  have hopen := opensMarkup_endTag h ('>' :: y)
  have hend : endTag ('<' :: '/' :: (name ++ '>' :: y)) = .ok (.endTag name, y) := by
    have hcut := cut_of_not_mem (c := '>') (s := []) (by simp) y
    rw [List.nil_append] at hcut
    simp only [endTag, List.drop_succ_cons, List.drop_zero, h.splitAt_eq (d := '>') (by decide),
      hcut, h.lower_eq]
  simp [next, hopen, hend, Except.map]

end

theorem opensMarkup_of_ne {c : Char} (h : c ≠ '<') (s : List Char) : opensMarkup (c :: s) = false := by
  simp [opensMarkup, h]

theorem textRun_of_not_mem {s y : List Char} (h : '<' ∉ s) (hy : opensMarkup y = true) :
    textRun (s ++ y) = (s, y) := by
  induction s with
  | nil =>
    cases y with
    | nil => cases hy
    | cons d y => simp [textRun, hy]
  | cons c s ih =>
    obtain ⟨hc, hs⟩ := not_or.1 (mt List.mem_cons.2 h)
    rw [List.cons_append, textRun, opensMarkup_of_ne (Ne.symm hc), ih hs]
    simp

theorem next_escapeText {s y : List Char} (hs : s ≠ []) (hy : opensMarkup y = true) :
    next (escapeText s ++ y) = .ok (some (.text (escapeText s), y)) := by
  have hrun := textRun_of_not_mem (angle_not_mem_escapeText s) hy
  have hclosed : opensMarkup (escapeText s ++ y) = false := by
    cases h : escapeText s with
    | nil => exact absurd h (escapeText_ne_nil hs)
    | cons c t =>
      refine opensMarkup_of_ne ?_ (t ++ y)
      rintro rfl
      exact angle_not_mem_escapeText s (h ▸ List.mem_cons_self)
  rw [next_text (by simp [escapeText_ne_nil hs]) hclosed, hrun]

def proceed (input rest : List Char) : Progress → Except Error (Option (Element × List Char))
  | .notMarkup => .ok none
  | .root e => .ok (some (e, rest))
  | .more opened => readFrom input opened rest

theorem readFrom_eq_proceed {input start rest : List Char} {opened : List Element} {t : Token}
    {p : Progress} (h : next start = .ok (some (t, rest)))
    (ha : advance input start rest opened t = .ok p) :
    readFrom input opened start = proceed input rest p := by
  rw [readFrom_of_next h, ha]
  cases p <;> rfl

theorem IsContent.addText_eq {s : List Char} (h : IsContent s) (input start : List Char)
    (e : Element) (opened : List Element) :
    addText input start s (e :: opened) = .ok (.more (e.push (.text s) :: opened)) := by
  obtain ⟨hne, -, hsemi⟩ := h
  rw [addText, if_neg hne]
  simp only [if_neg hsemi]

theorem readFrom_text {s : List Char} (h : IsContent s) (input : List Char) (e : Element)
    (opened : List Element) {y : List Char} (hy : opensMarkup y = true) :
    readFrom input (e :: opened) (escapeText s ++ y) =
      readFrom input (e.push (.text s) :: opened) y := by
  have hadvance : advance input (escapeText s ++ y) y (e :: opened) (.text (escapeText s)) =
      .ok (.more (e.push (.text s) :: opened)) := by
    rw [advance, decode_escapeText, h.2.1]
    exact h.addText_eq input _ e opened
  exact readFrom_eq_proceed (next_escapeText h.1 hy) hadvance

theorem markup_self_closing (name : List Char) (attributes : List Attribute) (y : List Char) :
    (Node.element name attributes []).markup ++ y =
      '<' :: (name ++ (attributes.flatMap Attribute.markup ++ '/' :: '>' :: y)) := by
  simp [Node.markup]

theorem markup_with_children (name : List Char) (attributes : List Attribute) {children : List Node}
    (h : children ≠ []) (y : List Char) :
    (Node.element name attributes children).markup ++ y =
      '<' :: (name ++ (attributes.flatMap Attribute.markup ++
        '>' :: (Node.markupList children ++ '<' :: '/' :: (name ++ '>' :: y)))) := by
  cases children with
  | nil => exact absurd rfl h
  | cons n ns => simp [Node.markup, Node.markupList]

theorem opensMarkup_element {name : List Char} (h : IsTagName name) (attributes : List Attribute)
    (children : List Node) (y : List Char) :
    opensMarkup ((Node.element name attributes children).markup ++ y) = true := by
  obtain ⟨c, s, rfl, hc⟩ := h.eq_cons
  cases children with
  | nil =>
    rw [markup_self_closing]
    exact (opensMarkup_of_lower _ hc).1
  | cons n ns =>
    rw [markup_with_children _ _ (by simp)]
    exact (opensMarkup_of_lower _ hc).1

mutual

/-- An element is read as a whole: it joins the innermost open one, or it is the root. -/
theorem readFrom_element {name : List Char} {attributes : List Attribute} {children : List Node}
    (hr : (Node.element name attributes children).IsReadable)
    (ha : (Node.element name attributes children).IsApart) (input : List Char)
    (opened : List Element) (y : List Char) :
    readFrom input opened ((Node.element name attributes children).markup ++ y) =
      proceed input y (finish ⟨name, attributes, children⟩ opened) := by
  rw [Node.IsReadable] at hr
  rw [Node.IsApart] at ha
  obtain ⟨hname, hattributes, hchildren⟩ := hr
  by_cases hempty : children = []
  · subst hempty
    have hstop : tagRest ('/' :: '>' :: y) = .ok ([], true, y) :=
      tagRest_of_dropBlank (s := '/' :: '>' :: y) rfl
    rw [markup_self_closing]
    exact readFrom_eq_proceed (next_startTag hname hattributes (by decide) hstop) rfl
  · have hstop : ∀ z, tagRest ('>' :: z) = .ok ([], false, z) := fun z =>
      tagRest_of_dropBlank (s := '>' :: z) rfl
    have hstart := next_startTag hname hattributes (d := '>') (by decide)
      (hstop (Node.markupList children ++ '<' :: '/' :: (name ++ '>' :: y)))
    rw [markup_with_children name attributes hempty, readFrom_eq_proceed hstart rfl]
    refine (readFrom_nodes hchildren ha input ⟨name, attributes, []⟩ opened
      (opensMarkup_endTag hname ('>' :: y))).trans ?_
    refine readFrom_eq_proceed (next_endTag hname y) ?_
    simp only [advance, closeTag, if_true, List.nil_append]
termination_by sizeOf children + 1

theorem readFrom_nodes {ns : List Node} (hr : Node.AllReadable ns) (ha : Node.AllApart ns)
    (input : List Char) (e : Element) (opened : List Element) {y : List Char}
    (hy : opensMarkup y = true) :
    readFrom input (e :: opened) (Node.markupList ns ++ y) =
      readFrom input ({ e with children := e.children ++ ns } :: opened) y := by
  cases ns with
  | nil => simp [Node.markupList]
  | cons n ns =>
    rw [Node.AllReadable] at hr
    rw [Node.AllApart] at ha
    have hrest := readFrom_nodes hr.2 ha.2.2 input (e.push n) opened hy
    have hpush : { e.push n with children := (e.push n).children ++ ns } =
        ({ e with children := e.children ++ n :: ns } : Element) := by
      simp [Element.push]
    rw [hpush] at hrest
    rw [Node.markupList, List.append_assoc, ← hrest]
    cases n with
    | element name attributes children =>
      exact readFrom_element hr.1 ha.1 input (e :: opened) (Node.markupList ns ++ y)
    | text s =>
      have hcontent := hr.1
      rw [Node.IsReadable] at hcontent
      rw [Node.markup]
      refine readFrom_text hcontent input e opened ?_
      cases ns with
      | nil => simpa [Node.markupList] using hy
      | cons m ns =>
        cases m with
        | text t => exact absurd ⟨rfl, rfl⟩ ha.2.1
        | element name attributes children =>
          have hm := hr.2
          rw [Node.AllReadable, Node.IsReadable] at hm
          rw [Node.markupList, List.append_assoc]
          exact opensMarkup_element hm.1.1 attributes children _
termination_by sizeOf ns

end

theorem opensTag_markup {e : Element} (h : e.toNode.IsReadable) (s : List Char) :
    opensTag (e.toNode.markup ++ s) = true := by
  unfold Element.toNode at h ⊢
  rw [Node.IsReadable] at h
  obtain ⟨c, r, hname, hc⟩ := h.1.eq_cons
  have hslash : c ≠ '/' := by
    rintro rfl
    cases hc
  cases e.children with
  | nil =>
    rw [markup_self_closing, hname]
    simp [opensTag, hslash, hc]
  | cons n ns =>
    rw [markup_with_children _ _ (by simp), hname]
    simp [opensTag, hslash, hc]

end InlineMarkup.Markup
