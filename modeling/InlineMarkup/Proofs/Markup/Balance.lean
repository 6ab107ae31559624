import InlineMarkup.Proofs.Markup.RoundTrip

/-!
Regions as a grammar. A region is one balanced element: a self-closing tag, or a start tag, its
contents and the end tag of the same name. Reading with a stack of open elements finds exactly
these, with the tree that the grammar gives them, and stops with an error where an element is left
open (`capture_iff_balanced`).

The invariant of the stack is `Opens`: the tokens read so far are, for each open element from the
outermost on, its start tag and balanced contents.
-/

set_option autoImplicit false

namespace InlineMarkup.Markup

open InlineMarkup.Text

/-- The tokens at the front of a text, up to `rest`. -/
inductive Tokenizes : List Char → List Token → List Char → Prop
  | nil {s : List Char} : Tokenizes s [] s
  | cons {s mid rest : List Char} {t : Token} {ts : List Token} :
      next s = .ok (some (t, mid)) → Tokenizes mid ts rest → Tokenizes s (t :: ts) rest

mutual

/-- The tokens of one element, and its tree. -/
inductive Balanced : List Token → Element → Prop
  | selfClosing {name : List Char} {attributes : List Attribute} :
      Balanced [.startTag name attributes true] ⟨name, attributes, []⟩
  | paired {name : List Char} {attributes : List Attribute} {ts : List Token} {ns : List Node} :
      Contents ts ns →
      Balanced (.startTag name attributes false :: (ts ++ [.endTag name])) ⟨name, attributes, ns⟩

/-- The tokens between two tags, and the children that they make. -/
inductive Contents : List Token → List Node → Prop
  | nil : Contents [] []
  | element {ts us : List Token} {e : Element} {ns : List Node} :
      Balanced ts e → Contents us ns → Contents (ts ++ us) (e.toNode :: ns)
  | comment {ts : List Token} {ns : List Node} : Contents ts ns → Contents (.comment :: ts) ns
  | blank {raw : List Char} {ts : List Token} {ns : List Node} :
      trim (decode raw) = [] → Contents ts ns → Contents (.text raw :: ts) ns
  | text {raw : List Char} {ts : List Token} {ns : List Node} :
      trim (decode raw) ≠ [] → (trim (decode raw)).head? ≠ some ';' → Contents ts ns →
      Contents (.text raw :: ts) (.text (trim (decode raw)) :: ns)

end

/-- The tokens of an element up to a point between its tags. The elements that are open there come
innermost first, with the children that they have so far. -/
inductive Opens : List Token → List Element → Prop
  | nil : Opens [] []
  | cons {ts us : List Token} {opened : List Element} {name : List Char}
      {attributes : List Attribute} {ns : List Node} :
      Opens ts opened → Contents us ns →
      Opens (ts ++ .startTag name attributes false :: us) (⟨name, attributes, ns⟩ :: opened)

/-- What ends `input` at `start` inside of the element `name`, as the error that it is. -/
inductive Breaks (input name : List Char) : List Char → Error → Prop
  | mismatch {start rest other : List Char} :
      next start = .ok (some (.endTag other, rest)) → name ≠ other →
      Breaks input name start
        { Error.tagMismatch (offsetOf input start) (String.ofList name) (String.ofList other) with
          snippet := String.ofList (input.take (input.length - rest.length)) }
  | trailing {start rest raw : List Char} :
      next start = .ok (some (.text raw, rest)) → (trim (decode raw)).head? = some ';' →
      Breaks input name start
        (Error.trailingContent (offsetOf input start) (String.ofList name)
          (String.ofList (trim (decode raw))))
  | ended :
      Breaks input name []
        { Error.unexpectedEof (byteLength input) (String.ofList name) with
          snippet := String.ofList input }
  | illFormed {start : List Char} {fault : TokenFault} :
      next start = .error fault → Breaks input name start (fault.toError input)

/-- A text fails as a region: its first tag is ill-formed, or it ends inside of an element. -/
inductive Fails (input : List Char) : Error → Prop
  | first {fault : TokenFault} : next input = .error fault → Fails input (fault.toError input)
  | inside {ts : List Token} {start : List Char} {e : Element} {opened : List Element}
      {error : Error} :
      Tokenizes input ts start → Opens ts (e :: opened) → Breaks input e.name start error →
      Fails input error

theorem Tokenizes.append {s rest : List Char} {ts us : List Token} :
    Tokenizes s (ts ++ us) rest ↔ ∃ mid, Tokenizes s ts mid ∧ Tokenizes mid us rest := by
  induction ts generalizing s with
  | nil =>
    refine ⟨fun h => ⟨s, .nil, h⟩, ?_⟩
    rintro ⟨mid, h, hus⟩
    cases h
    exact hus
  | cons t ts ih =>
    constructor
    · intro h
      cases h with
      | cons ht h =>
        obtain ⟨mid, hts, hus⟩ := ih.1 h
        exact ⟨mid, .cons ht hts, hus⟩
    · rintro ⟨mid, h, hus⟩
      cases h with
      | cons ht hts => exact .cons ht (ih.2 ⟨mid, hts, hus⟩)

theorem Tokenizes.snoc {s start rest : List Char} {ts : List Token} {t : Token}
    (h : Tokenizes s ts start) (ht : next start = .ok (some (t, rest))) :
    Tokenizes s (ts ++ [t]) rest :=
  Tokenizes.append.2 ⟨start, h, .cons ht .nil⟩

def Element.extend (e : Element) (ns : List Node) : Element :=
  { e with children := e.children ++ ns }

@[simp] theorem Element.extend_nil (e : Element) : e.extend [] = e := by
  simp [Element.extend]

@[simp] theorem Element.extend_push (e : Element) (n : Node) (ns : List Node) :
    (e.push n).extend ns = e.extend (n :: ns) := by
  simp [Element.extend, Element.push]

mutual

/-- A balanced element is read in one go, whatever is open around it. -/
theorem Balanced.readFrom_eq {ts : List Token} {e : Element} (h : Balanced ts e)
    {s rest : List Char} (hs : Tokenizes s ts rest) (input : List Char) (opened : List Element) :
    readFrom input opened s = proceed input rest (finish e opened) := by
  match h, hs with
  | .selfClosing, .cons ht .nil => exact readFrom_eq_proceed ht rfl
  | @Balanced.paired name attributes _ _ hc, .cons ht hs =>
    obtain ⟨mid, hts, hend⟩ := Tokenizes.append.1 hs
    have .cons hend .nil := hend
    rw [readFrom_eq_proceed ht rfl]
    refine (hc.readFrom_eq hts input ⟨name, attributes, []⟩ opened).trans ?_
    exact readFrom_eq_proceed hend (Advances.closes rfl).advance_eq

theorem Contents.readFrom_eq {ts : List Token} {ns : List Node} (h : Contents ts ns)
    {s rest : List Char} (hs : Tokenizes s ts rest) (input : List Char) (e : Element)
    (opened : List Element) :
    readFrom input (e :: opened) s = readFrom input (e.extend ns :: opened) rest := by
  match h, hs with
  | .nil, .nil => rw [Element.extend_nil]
  | .element hb hc, hs =>
    obtain ⟨mid, hts, hus⟩ := Tokenizes.append.1 hs
    rw [hb.readFrom_eq hts input (e :: opened), ← Element.extend_push]
    exact hc.readFrom_eq hus input _ opened
  | .comment hc, .cons ht hs =>
    rw [readFrom_eq_proceed ht rfl]
    exact hc.readFrom_eq hs input e opened
  | .blank hblank hc, .cons ht hs =>
    rw [readFrom_eq_proceed ht (Advances.blank hblank).advance_eq]
    exact hc.readFrom_eq hs input e opened
  | .text hne hsemi hc, .cons ht hs =>
    rw [readFrom_eq_proceed ht (Advances.content hne hsemi).advance_eq, ← Element.extend_push]
    exact hc.readFrom_eq hs input _ opened

end

theorem Opens.readFrom_eq {ts : List Token} {opened : List Element} (h : Opens ts opened)
    {s start : List Char} (hs : Tokenizes s ts start) (input : List Char) :
    readFrom input [] s = readFrom input opened start := by
  induction h generalizing start with
  | nil =>
    cases hs
    rfl
  | cons _ hc ih =>
    obtain ⟨mid, hts, hus⟩ := Tokenizes.append.1 hs
    cases hus with
    | cons ht hus =>
      rw [ih hts, readFrom_eq_proceed ht rfl]
      exact hc.readFrom_eq hus input _ _

theorem Breaks.readFrom_eq {input start : List Char} {e : Element} {error : Error}
    (h : Breaks input e.name start error) (opened : List Element) :
    readFrom input (e :: opened) start = .error error := by
  cases h with
  | mismatch ht hne => rw [readFrom_of_next ht, (Refuses.mismatch hne).advance_eq]
  | trailing ht hsemi => rw [readFrom_of_next ht, (Refuses.trailing hsemi).advance_eq]
  | ended => rw [readFrom_nil, atEnd]
  | illFormed hf => exact readFrom_of_fault hf _

theorem Fails.readFrom_eq {input : List Char} {error : Error} (h : Fails input error) :
    readFrom input [] input = .error error := by
  cases h with
  | first hf => exact readFrom_of_fault hf []
  | inside hts ho hb => rw [ho.readFrom_eq hts, hb.readFrom_eq]

theorem Contents.append {ts us : List Token} {ns ms : List Node} (h : Contents ts ns)
    (hus : Contents us ms) : Contents (ts ++ us) (ns ++ ms) := by
  match h with
  | .nil => exact hus
  | .element hb hc =>
    rw [List.append_assoc]
    exact .element hb (hc.append hus)
  | .comment hc => exact .comment (hc.append hus)
  | .blank hblank hc => exact .blank hblank (hc.append hus)
  | .text hne hsemi hc => exact .text hne hsemi (hc.append hus)

theorem Opens.append {ts us : List Token} {e : Element} {opened : List Element} {ns : List Node}
    (h : Opens ts (e :: opened)) (hus : Contents us ns) :
    Opens (ts ++ us) (e.extend ns :: opened) := by
  cases h with
  | cons ho hc =>
    rw [List.append_assoc, List.cons_append]
    exact .cons ho (hc.append hus)

/-- What the tokens read so far have come to. -/
def Progress.Fits (ts : List Token) : Progress → Prop
  | .notMarkup => False
  | .root e => Balanced ts e
  | .more opened => opened ≠ [] ∧ Opens ts opened

theorem Opens.finish_fits {ts us : List Token} {opened : List Element} {e : Element}
    (h : Opens ts opened) (hb : Balanced us e) : (finish e opened).Fits (ts ++ us) := by
  cases opened with
  | nil =>
    cases h
    exact hb
  | cons parent opened =>
    have hc : Contents us [e.toNode] := by simpa using Contents.element hb .nil
    exact ⟨by simp, h.append hc⟩

theorem Opens.advance_fits {ts : List Token} {e : Element} {opened : List Element} {t : Token}
    {p : Progress} (h : Opens ts (e :: opened)) (ha : Advances (e :: opened) t p) :
    p.Fits (ts ++ [t]) := by
  cases ha with
  | comment => exact ⟨by simp, by simpa using h.append (.comment .nil)⟩
  | blank hblank => exact ⟨by simp, by simpa using h.append (.blank hblank .nil)⟩
  | content hne hsemi => exact ⟨by simp, h.append (.text hne hsemi .nil)⟩
  | selfClosing hfinish =>
    subst hfinish
    exact h.finish_fits .selfClosing
  | opens => exact ⟨by simp, .cons h .nil⟩
  | closes hfinish =>
    subst hfinish
    cases h with
    | cons ho hc =>
      rw [List.append_assoc]
      exact ho.finish_fits (.paired hc)

theorem Refuses.breaks {input start rest : List Char} {e : Element} {opened : List Element}
    {t : Token} {error : Error} (h : Refuses input start rest (e :: opened) t error)
    (ht : next start = .ok (some (t, rest))) : Breaks input e.name start error := by
  cases h with
  | trailing hsemi => exact .trailing ht hsemi
  | mismatch hne => exact .mismatch ht hne

/-- What reading a region comes to, by the grammar. -/
def Outcome (input : List Char) : Except Error (Option (Element × List Char)) → Prop
  | .error e => Fails input e
  | .ok none => False
  | .ok (some (root, rest)) => ∃ ts, Tokenizes input ts rest ∧ Balanced ts root

/-- From between two tags on, a text is a region or fails. -/
theorem Opens.outcome {input start : List Char} {ts : List Token} {opened : List Element}
    (hts : Tokenizes input ts start) (h : Opens ts opened) (hne : opened ≠ []) :
    Outcome input (readFrom input opened start) := by
  fun_induction readFrom input opened start generalizing ts with
  | case1 opened start fault hf =>
    obtain ⟨e, es, rfl⟩ := List.exists_cons_of_ne_nil hne
    exact .inside hts h (.illFormed hf)
  | case2 opened start hend =>
    obtain ⟨e, es, rfl⟩ := List.exists_cons_of_ne_nil hne
    obtain rfl := eq_nil_of_next hend
    exact .inside hts h .ended
  | case3 opened start t rest ht hlt error ha =>
    obtain ⟨e, es, rfl⟩ := List.exists_cons_of_ne_nil hne
    exact .inside hts h ((advance_eq_error_iff.1 ha).breaks ht)
  | case4 opened start t rest ht hlt ha =>
    obtain ⟨e, es, rfl⟩ := List.exists_cons_of_ne_nil hne
    exact h.advance_fits (advance_eq_ok_iff.1 ha)
  | case5 opened start t rest ht hlt root ha =>
    obtain ⟨e, es, rfl⟩ := List.exists_cons_of_ne_nil hne
    exact ⟨ts ++ [t], hts.snoc ht, h.advance_fits (advance_eq_ok_iff.1 ha)⟩
  | case6 opened start t rest ht hlt opened' ha ih =>
    obtain ⟨e, es, rfl⟩ := List.exists_cons_of_ne_nil hne
    obtain ⟨hne', h'⟩ := h.advance_fits (advance_eq_ok_iff.1 ha)
    exact ih (hts.snoc ht) h' hne'

theorem startTag_of_next {c : Char} {s rest : List Char} {t : Token} (hc : c.isLower = true)
    (h : next ('<' :: c :: s) = .ok (some (t, rest))) :
    ∃ name attributes selfClosing, t = .startTag name attributes selfClosing := by
  obtain ⟨ho, hcomment, hend⟩ := opensMarkup_of_lower s hc
  simp only [next, hcomment, ho, hend, Bool.false_eq_true, if_false, if_true] at h
  have h := map_some_ok h
  simp only [startTag] at h
  split at h
  · cases h
    exact ⟨_, _, _, rfl⟩
  · cases h
  · cases h

theorem outcome_of_lower {c : Char} (hc : c.isLower = true) (s : List Char) :
    Outcome ('<' :: c :: s) (readFrom ('<' :: c :: s) [] ('<' :: c :: s)) := by
  cases hn : next ('<' :: c :: s) with
  | error fault =>
    rw [readFrom_of_fault hn]
    exact .first hn
  | ok found =>
    match found, hn with
    | none, hn => cases eq_nil_of_next hn
    | some (t, rest), hn =>
      obtain ⟨name, attributes, selfClosing, rfl⟩ := startTag_of_next hc hn
      cases selfClosing with
      | true =>
        rw [readFrom_eq_proceed hn rfl]
        exact ⟨_, .cons hn .nil, .selfClosing⟩
      | false =>
        rw [readFrom_eq_proceed hn rfl]
        exact Opens.outcome (.cons hn .nil) (Opens.cons .nil .nil) (by simp)

theorem tagRest_ends {s rest : List Char} {as : List Attribute} {b : Bool}
    (h : tagRest s = .ok (as, b, rest)) : ['>'] ++ rest <:+ s := by
  fun_induction tagRest s generalizing as b rest with
  | case1 => cases h
  | case2 s r hb hl =>
    cases h
    exact ⟨_, (eq_append_of_dropWhile hb).1.symm⟩
  | case3 s r hr hb hl hc =>
    cases h
    obtain ⟨r, rfl⟩ := List.head?_eq_some_iff.1 hr
    exact (List.suffix_cons '/' _).trans ⟨_, (eq_append_of_dropWhile hb).1.symm⟩
  | case4 s r hr hb hl hc ih =>
    have hs : '/' :: r <:+ s := ⟨_, (eq_append_of_dropWhile hb).1.symm⟩
    exact ((ih h).trans (List.suffix_cons '/' r)).trans hs
  | case5 => cases h
  | case6 s c r hb hl hc hs a r' ha hlt ih =>
    obtain ⟨⟨as', b', rest'⟩, ht, h⟩ := map_eq_ok.1 h
    cases h
    obtain ⟨w, -, hw, -⟩ := readAttribute_local (by simp) ha
    have hcr : c :: r <:+ s := ⟨_, (eq_append_of_dropWhile hb).1.symm⟩
    exact ((ih ht).trans ⟨w, hw.symm⟩).trans hcr

theorem splitAt_suffix (p : Char → Bool) (s : List Char) : (splitAt p s).2 <:+ s :=
  ⟨_, splitAt_append p s⟩

def Token.isTag : Token → Bool
  | .startTag _ _ _ => true
  | .endTag _ => true
  | _ => false

theorem next_suffix {s rest : List Char} {t : Token} (h : next s = .ok (some (t, rest))) :
    (if t.isTag then ['>'] else []) ++ rest <:+ s := by
  cases s with
  | nil => cases h
  | cons c s =>
    simp only [next] at h
    split at h
    · obtain ⟨⟨t, rest⟩, hc, h⟩ := map_eq_ok.1 h
      cases h
      unfold commentToken at hc
      split at hc
      · rename_i before after hcut
        cases hc
        have hrest : rest <:+ (c :: s).drop 4 := ⟨_, (eq_append_of_cut hcut).symm⟩
        exact hrest.trans (List.drop_suffix 4 _)
      · cases hc
    · split at h
      · split at h
        · obtain ⟨⟨t, rest⟩, ht, h⟩ := map_eq_ok.1 h
          cases h
          simp only [endTag] at ht
          split at ht
          · rename_i before after hcut
            cases ht
            have hrest : ['>'] ++ rest <:+ (splitAt endsTagName ((c :: s).drop 2)).2 :=
              ⟨before, by rw [eq_append_of_cut hcut, List.append_assoc]⟩
            exact (hrest.trans (splitAt_suffix _ _)).trans (List.drop_suffix 2 _)
          · cases ht
        · obtain ⟨⟨t, rest⟩, ht, h⟩ := map_eq_ok.1 h
          cases h
          simp only [startTag] at ht
          split at ht
          · rename_i hrest
            cases ht
            exact ((tagRest_ends hrest).trans (splitAt_suffix _ _)).trans (List.drop_suffix 1 _)
          · cases ht
          · cases ht
      · cases h
        exact ⟨_, textRun_append _⟩

theorem Advances.isTag_of_root {opened : List Element} {t : Token} {e : Element}
    (h : Advances opened t (.root e)) : t.isTag = true := by
  cases h <;> rfl

theorem readFrom_suffix {input start rest : List Char} {opened : List Element} {e : Element}
    (h : readFrom input opened start = .ok (some (e, rest))) : ['>'] ++ rest <:+ start := by
  fun_induction readFrom input opened start with
  | case1 => cases h
  | case2 opened start hn => cases opened <;> cases h
  | case3 => cases h
  | case4 => cases h
  | case5 opened start t r hn hlt e' ha =>
    cases h
    simpa [(advance_eq_ok_iff.1 ha).isTag_of_root] using next_suffix hn
  | case6 opened start t r hn hlt opened' ha ih =>
    exact (ih h).trans ((List.suffix_append _ r).trans (next_suffix hn))

theorem readFrom_of_capture {input : List Char} {captured : Captured}
    (h : capture input = .ok (some captured)) :
    ∃ rest, readFrom input [] input = .ok (some (captured.root, rest)) ∧
      input = captured.text ++ rest := by
  unfold capture at h
  split at h
  · obtain ⟨found, hread, hfound⟩ := map_eq_ok.1 h
    obtain ⟨⟨root, rest⟩, rfl, rfl⟩ := Option.map_eq_some_iff.1 hfound
    obtain ⟨w, rfl, -⟩ := readFrom_local hread
    exact ⟨rest, hread, by simp⟩
  · cases h

theorem capture_ends {input : List Char} {captured : Captured}
    (h : capture input = .ok (some captured)) : ['>'] <:+ captured.text := by
  obtain ⟨rest, hread, hinput⟩ := readFrom_of_capture h
  obtain ⟨w, hw⟩ := readFrom_suffix hread
  rw [hinput, ← List.append_assoc] at hw
  exact ⟨w, List.append_cancel_right hw⟩

/-- A text that begins with a start tag is a region exactly if a balanced element stands at its
front. The region is then the text of that element, and its root the tree of the grammar. Where no
balanced element stands there, the error is the first that the grammar finds. -/
theorem capture_iff_balanced {c : Char} (hc : c.isLower = true) (s : List Char) :
    (∀ captured, capture ('<' :: c :: s) = .ok (some captured) ↔
      ∃ ts rest, '<' :: c :: s = captured.text ++ rest ∧ Tokenizes ('<' :: c :: s) ts rest ∧
        Balanced ts captured.root) ∧
    (∀ error, capture ('<' :: c :: s) = .error error ↔ Fails ('<' :: c :: s) error) ∧
    capture ('<' :: c :: s) ≠ .ok none := by
  have hopen : opensTag ('<' :: c :: s) = true := by
    unfold opensTag
    split <;> simp_all
  have houtcome := outcome_of_lower hc s
  generalize '<' :: c :: s = input at hopen houtcome ⊢
  have hcapture : capture input = (readFrom input [] input).map fun found =>
      found.map fun p => ⟨p.1, input.take (input.length - p.2.length)⟩ := by
    rw [capture, if_pos hopen]
  refine ⟨fun captured => ⟨fun h => ?_, ?_⟩, fun error => ⟨fun h => ?_, fun h => ?_⟩, fun h => ?_⟩
  · obtain ⟨rest, hread, htext⟩ := readFrom_of_capture h
    rw [hread] at houtcome
    obtain ⟨ts, hts, hb⟩ := houtcome
    exact ⟨ts, rest, htext, hts, hb⟩
  · rintro ⟨ts, rest, htext, hts, hb⟩
    have htake : input.take (input.length - rest.length) = captured.text := by simp [htext]
    rw [hcapture, hb.readFrom_eq hts input []]
    simp only [finish, proceed, Except.map, Option.map_some, htake]
  · rw [hcapture, map_eq_error] at h
    rwa [h] at houtcome
  · rw [hcapture, h.readFrom_eq]
    rfl
  · obtain ⟨found, hread, hfound⟩ := map_eq_ok.1 (hcapture ▸ h)
    obtain rfl := Option.map_eq_none_iff.1 hfound
    rwa [hread] at houtcome

theorem capture_iff_balanced_list :
    'u'.isLower = true ∧
      (∃ ts rest, "<ul><li> a; </li> <!-- ; --><br/></ul>; b".toList =
          "<ul><li> a; </li> <!-- ; --><br/></ul>".toList ++ rest ∧
        Tokenizes "<ul><li> a; </li> <!-- ; --><br/></ul>; b".toList ts rest ∧
        Balanced ts ⟨['u', 'l'], [],
          [.element ['l', 'i'] [] [.text ['a', ';']], .element ['b', 'r'] [] []]⟩) ∧
      Fails "<ul><li>a</ul>".toList
        { Error.tagMismatch 9 "li" "ul" with snippet := "<ul><li>a</ul>" } := by
  refine ⟨rfl, ?_, ?_⟩
  · have hread : capture "<ul><li> a; </li> <!-- ; --><br/></ul>; b".toList =
        .ok (some ⟨⟨['u', 'l'], [], [.element ['l', 'i'] [] [.text ['a', ';']],
          .element ['b', 'r'] [] []]⟩, "<ul><li> a; </li> <!-- ; --><br/></ul>".toList⟩) :=
      eq_ok_of_toOption (by decide +kernel)
    exact ((capture_iff_balanced rfl _).1 _).1 hread
  · refine ((capture_iff_balanced rfl _).2.1 _).1 (?_ : capture "<ul><li>a</ul>".toList = _)
    decide +kernel

end InlineMarkup.Markup
