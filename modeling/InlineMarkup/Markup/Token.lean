import InlineMarkup.Markup.Tree

/-!
Tag tokens: start tags, end tags, comments and the text between them, read one at a time from the
front of a text. Nesting is not looked at here.

A fault carries the text from the offending construct on, which fixes both its place and its
snippet. Every token is at least one character long (`next_length`), so reading ends.
-/

set_option autoImplicit false

namespace InlineMarkup.Markup

open InlineMarkup.Text

inductive Token where
  | startTag (name : List Char) (attributes : List Attribute) (selfClosing : Bool)
  | endTag (name : List Char)
  | text (raw : List Char)
  | comment
  deriving DecidableEq, Repr

inductive TokenFault where
  | unterminatedTag (tag : List Char)
  | unterminatedComment (comment : List Char)
  /-- The quoted value of the named attribute, from its quote on, in the given tag. -/
  | unterminatedValue (name value tag : List Char)
  deriving DecidableEq, Repr

/-- Whether a text begins with a tag: two characters decide, three for an end tag. -/
def opensTag : List Char → Bool
  | '<' :: '/' :: c :: _ => c.isLower
  | '<' :: c :: _ => c.isLower
  | _ => false

/-- Whether a tag or comment begins here rather than text. An end tag may begin with a capital. -/
def opensMarkup : List Char → Bool
  | '<' :: '!' :: '-' :: '-' :: _ => true
  | '<' :: '/' :: c :: _ => c.isAlpha
  | '<' :: c :: _ => c.isLower
  | _ => false

def endsTagName (c : Char) : Bool :=
  isBlank c || c == '/' || c == '>'

def endsAttributeName (c : Char) : Bool :=
  isBlank c || c == '=' || c == '>' || c == '/'

def endsBareValue (c : Char) : Bool :=
  isBlank c || c == '>'

def textRun : List Char → List Char × List Char
  | [] => ([], [])
  | c :: s =>
    if opensMarkup (c :: s) then ([], c :: s)
    else ((c :: (textRun s).1), (textRun s).2)

inductive AttributeFault where
  | endOfInput
  | openValue (name value : List Char)
  deriving DecidableEq, Repr

def attributeValue (name : List Char) (s : List Char) :
    Except AttributeFault (List Char × List Char) :=
  match s.dropWhile isBlank with
  | [] => .error .endOfInput
  | c :: r =>
    if c = '"' ∨ c = '\'' then
      match cut [c] r with
      | none => .error (.openValue name (c :: r))
      | some (raw, rest) => .ok (decode raw, rest)
    else
      let (raw, rest) := splitAt endsBareValue (c :: r)
      .ok (decode raw, rest)

/-- An attribute name. An equals sign in front is the whole name. -/
def attributeName (s : List Char) : List Char × List Char :=
  match splitAt endsAttributeName s with
  | ([], c :: r) => ([c], r)
  | (name, r) => (lower name, r)

/-- One attribute. White space that no equals sign follows is left unread. -/
def readAttribute (s : List Char) : Except AttributeFault (Attribute × List Char) :=
  let (name, r) := attributeName s
  match r.dropWhile isBlank with
  | '=' :: v => (attributeValue name v).map fun (value, rest) => (⟨name, value⟩, rest)
  | _ => .ok (⟨name, []⟩, r)

theorem splitAt_length (p : Char → Bool) (s : List Char) :
    (splitAt p s).2.length ≤ s.length := by
  simp only [splitAt]
  exact (List.dropWhile_suffix _).length_le

theorem splitAt_append (p : Char → Bool) (s : List Char) :
    (splitAt p s).1 ++ (splitAt p s).2 = s := by
  simp [splitAt, List.takeWhile_append_dropWhile]

theorem cut_length {m s before after : List Char} (h : cut m s = some (before, after)) :
    after.length ≤ s.length := by
  induction s generalizing before after with
  | nil =>
    simp only [cut] at h
    split at h <;> simp_all
  | cons c s ih =>
    simp only [cut] at h
    split at h
    · have : after = (c :: s).drop m.length := by simp_all
      subst this
      simp only [List.length_drop]
      omega
    · obtain ⟨⟨b, a⟩, hb, he⟩ := Option.map_eq_some_iff.1 h
      have : a = after := by simp_all
      subst this
      have := ih hb
      simp only [List.length_cons]
      omega

theorem attributeName_length {s : List Char} (h : s ≠ []) :
    (attributeName s).2.length < s.length := by
  have happ := splitAt_append endsAttributeName s
  unfold attributeName
  split
  · rename_i c r hs
    rw [hs] at happ
    rw [← happ]
    simp
  · rename_i name r hne hs
    rw [hs] at happ
    simp only at happ
    cases name with
    | nil =>
      cases r with
      | nil => exact absurd happ.symm h
      | cons c r => exact absurd rfl (hne c r rfl)
    | cons a as =>
      rw [← happ]
      simp only [List.length_append, List.length_cons]
      omega

theorem dropBlank_length (s : List Char) : (s.dropWhile isBlank).length ≤ s.length :=
  (List.dropWhile_suffix _).length_le

theorem attributeValue_length {name s value rest : List Char}
    (h : attributeValue name s = .ok (value, rest)) : rest.length ≤ s.length := by
  have hd := dropBlank_length s
  unfold attributeValue at h
  split at h
  · cases h
  · rename_i c r hc
    rw [hc] at hd
    split at h
    · split at h
      · cases h
      · rename_i raw after hcut
        have := cut_length hcut
        have : rest = after := by injection h with h; simp_all
        subst this
        simp only [List.length_cons] at hd
        omega
    · have hs := splitAt_length endsBareValue (c :: r)
      have : (splitAt endsBareValue (c :: r)).2 = rest := by
        injection h with h
        exact (Prod.mk.inj h).2
      rw [this] at hs
      omega

theorem readAttribute_length {s rest : List Char} {a : Attribute} (hs : s ≠ [])
    (h : readAttribute s = .ok (a, rest)) : rest.length < s.length := by
  have hn := attributeName_length hs
  unfold readAttribute at h
  simp only at h
  split at h
  · rename_i v hv
    have hb := dropBlank_length (attributeName s).2
    rw [hv] at hb
    simp only [List.length_cons] at hb
    cases hval : attributeValue (attributeName s).1 v with
    | error e => rw [hval] at h; cases h
    | ok p =>
      obtain ⟨value, r⟩ := p
      rw [hval] at h
      have hvl := attributeValue_length hval
      have : r = rest := by
        simp only [Except.map] at h
        injection h with h
        simp_all
      subst this
      omega
  · have : rest = (attributeName s).2 := by injection h with h; simp_all
    subst this
    exact hn

/-- The attributes of a start tag up to its end, and whether it is self-closing. A slash that no
`>` follows is passed over. -/
def tagRest (s : List Char) : Except AttributeFault (List Attribute × Bool × List Char) :=
  match hb : s.dropWhile isBlank with
  | [] => .error .endOfInput
  | c :: r =>
    have hl : r.length < s.length := by
      have := dropBlank_length s
      rw [hb] at this
      exact this
    if c = '>' then .ok ([], false, r)
    else if c = '/' then
      if r.head? = some '>' then .ok ([], true, r.tail) else tagRest r
    else
      match ha : readAttribute (c :: r) with
      | .error e => .error e
      | .ok (a, r') =>
        have : r'.length < s.length := by
          have h₁ := readAttribute_length (by simp) ha
          simp only [List.length_cons] at h₁
          have h₂ := dropBlank_length s
          rw [hb] at h₂
          simp only [List.length_cons] at h₂
          omega
        (tagRest r').map fun (as, selfClosing, rest) => (a :: as, selfClosing, rest)
termination_by s.length

def startTag (s : List Char) : Except TokenFault (Token × List Char) :=
  let (name, r) := splitAt endsTagName (s.drop 1)
  match tagRest r with
  | .ok (attributes, selfClosing, rest) => .ok (.startTag (lower name) attributes selfClosing, rest)
  | .error .endOfInput => .error (.unterminatedTag s)
  | .error (.openValue name value) => .error (.unterminatedValue name value s)

/-- What stands between the name of an end tag and its `>` is passed over. -/
def endTag (s : List Char) : Except TokenFault (Token × List Char) :=
  let (name, r) := splitAt endsTagName (s.drop 2)
  match cut ['>'] r with
  | some (_, rest) => .ok (.endTag (lower name), rest)
  | none => .error (.unterminatedTag s)

def commentToken (s : List Char) : Except TokenFault (Token × List Char) :=
  match cut ['-', '-', '>'] (s.drop 4) with
  | some (_, rest) => .ok (.comment, rest)
  | none => .error (.unterminatedComment s)

def next : List Char → Except TokenFault (Option (Token × List Char))
  | [] => .ok none
  | s =>
    if ['<', '!', '-', '-'].isPrefixOf s then (commentToken s).map some
    else if opensMarkup s then
      if ['<', '/'].isPrefixOf s then (endTag s).map some else (startTag s).map some
    else
      let (raw, rest) := textRun s
      .ok (some (.text raw, rest))

theorem textRun_append (s : List Char) : (textRun s).1 ++ (textRun s).2 = s := by
  induction s with
  | nil => rfl
  | cons c s ih =>
    simp only [textRun]
    split
    · rfl
    · simp [ih]

theorem tagRest_length {s rest : List Char} {as : List Attribute} {b : Bool}
    (h : tagRest s = .ok (as, b, rest)) : rest.length < s.length := by
  fun_induction tagRest s generalizing as b rest with
  | case1 => simp at h
  | case2 s r hb hl =>
    simp only [Except.ok.injEq, Prod.mk.injEq] at h
    rw [← h.2.2]; exact hl
  | case3 s r hb hl hs hc =>
    simp only [Except.ok.injEq, Prod.mk.injEq] at h
    rw [← h.2.2, List.length_tail]
    omega
  | case4 s r hb hl hs hc ih =>
    have := ih h
    omega
  | case5 => simp at h
  | case6 s c r hb hl hc hs a r' ha hlt ih =>
    cases ht : tagRest r' with
    | error e => rw [ht] at h; cases h
    | ok p =>
      obtain ⟨as', b', rest'⟩ := p
      rw [ht] at h
      have := ih ht
      simp only [Except.map, Except.ok.injEq, Prod.mk.injEq] at h
      rw [← h.2.2]
      omega

theorem commentToken_length {s rest : List Char} {t : Token} (hs : s ≠ [])
    (h : commentToken s = .ok (t, rest)) : rest.length < s.length := by
  have hpos := List.length_pos_iff.2 hs
  unfold commentToken at h
  split at h
  · rename_i before after hc
    have hl := cut_length hc
    have hr : after = rest := (Prod.mk.inj (Except.ok.inj h)).2
    rw [hr, List.length_drop] at hl
    omega
  · cases h

theorem endTag_length {s rest : List Char} {t : Token} (hs : s ≠ [])
    (h : endTag s = .ok (t, rest)) : rest.length < s.length := by
  have hpos := List.length_pos_iff.2 hs
  have hn := splitAt_length endsTagName (s.drop 2)
  unfold endTag at h
  simp only at h
  split at h
  · rename_i before after hc
    have hl := cut_length hc
    have hr : after = rest := (Prod.mk.inj (Except.ok.inj h)).2
    rw [hr] at hl
    rw [List.length_drop] at hn
    omega
  · cases h

theorem startTag_length {s rest : List Char} {t : Token} (hs : s ≠ [])
    (h : startTag s = .ok (t, rest)) : rest.length < s.length := by
  have hpos := List.length_pos_iff.2 hs
  have hn := splitAt_length endsTagName (s.drop 1)
  unfold startTag at h
  simp only at h
  split at h
  · rename_i as b r ht
    have hl := tagRest_length ht
    have hr : r = rest := (Prod.mk.inj (Except.ok.inj h)).2
    rw [hr] at hl
    rw [List.length_drop] at hn
    omega
  · cases h
  · cases h

theorem map_some_ok {ε α : Type} {x : Except ε α} {a : α} (h : x.map some = .ok (some a)) :
    x = .ok a := by
  cases x with
  | error e => cases h
  | ok b => exact congrArg Except.ok (Option.some.inj (Except.ok.inj h))

theorem next_length {s rest : List Char} {t : Token} (h : next s = .ok (some (t, rest))) :
    rest.length < s.length := by
  cases s with
  | nil => simp [next] at h
  | cons c s =>
    have hne : c :: s ≠ [] := by simp
    simp only [next] at h
    split at h
    · exact commentToken_length hne (map_some_ok h)
    · split at h
      · split at h
        · exact endTag_length hne (map_some_ok h)
        · exact startTag_length hne (map_some_ok h)
      · rename_i hop
        have hr : (textRun (c :: s)).2 = rest :=
          (Prod.mk.inj (Option.some.inj (Except.ok.inj h))).2
        have happ := congrArg List.length (textRun_append (c :: s))
        rw [List.length_append, hr] at happ
        have hpos : 0 < (textRun (c :: s)).1.length := by
          simp [textRun, hop]
        omega

end InlineMarkup.Markup
