import InlineMarkup.Proofs.Markup.Run

/-!
Reading markup is local: a tag, a comment and a whole region are read the same whatever follows
them (`capture_local`).

Attributes and text are not local by themselves, since the reader looks past them for what ends
them. Their lemmas therefore ask that what follows begins the same.
-/

set_option autoImplicit false

namespace InlineMarkup.Markup

open InlineMarkup.Text

/-- Two texts that agree up to some character that is not white space. -/
def BeginAlike (x y : List Char) : Prop :=
  ∃ v x' y', x = v ++ x' ∧ y = v ++ y' ∧ ∃ c ∈ v, isBlank c = false

theorem BeginAlike.head {x y : List Char} (h : BeginAlike x y) :
    ∃ d x' y', x = d :: x' ∧ y = d :: y' := by
  obtain ⟨v, x', y', rfl, rfl, c, hc, -⟩ := h
  cases v with
  | nil => cases hc
  | cons d v => exact ⟨d, v ++ x', v ++ y', rfl, rfl⟩

theorem BeginAlike.dropBlank {x y : List Char} (h : BeginAlike x y) :
    ∃ d x' y', x.dropWhile isBlank = d :: x' ∧ y.dropWhile isBlank = d :: y' := by
  obtain ⟨v, x', y', rfl, rfl, c, hc, hb⟩ := h
  induction v with
  | nil => cases hc
  | cons d v ih =>
    by_cases hd : isBlank d = true
    · have hcv : c ∈ v := by
        rcases List.mem_cons.1 hc with rfl | hcv
        · rw [hb] at hd
          cases hd
        · exact hcv
      simpa [hd] using ih hcv
    · exact ⟨d, v ++ x', v ++ y', by simp [hd], by simp [hd]⟩

theorem attributeName_local {s name r : List Char} (hs : s ≠ []) (h : attributeName s = (name, r)) :
    ∃ w, w ≠ [] ∧ s = w ++ r ∧
      ∀ y, (∃ d x' y', r = d :: x' ∧ y = d :: y') → attributeName (w ++ y) = (name, y) := by
  unfold attributeName at h
  split at h
  · rename_i c t hsplit
    obtain ⟨rfl, -, hc⟩ := splitAt_cases hsplit
    simp only [Prod.mk.injEq] at h
    obtain ⟨rfl, rfl⟩ := h
    refine ⟨[c], by simp, rfl, fun y _ => ?_⟩
    have := splitAt_append_stop (a := []) y (by simp) hc
    simp only [List.nil_append] at this
    simp [attributeName, this]
  · rename_i n t hne hsplit
    simp only [Prod.mk.injEq] at h
    obtain ⟨rfl, rfl⟩ := h
    have happ : n ++ t = s := by
      have := splitAt_append endsAttributeName s
      rwa [hsplit] at this
    have hn : n ≠ [] := by
      rintro rfl
      cases t with
      | nil => exact hs happ.symm
      | cons c t => exact hne c t rfl rfl
    refine ⟨n, hn, happ.symm, ?_⟩
    rintro _ ⟨d, x', y', rfl, rfl⟩
    obtain ⟨-, ha, hd⟩ := splitAt_cases hsplit
    have := splitAt_append_stop y' ha hd
    cases n with
    | nil => exact absurd rfl hn
    | cons c n => simp only [attributeName, this]

theorem attributeValue_local {name s value rest : List Char}
    (h : attributeValue name s = .ok (value, rest)) :
    ∃ w, s = w ++ rest ∧
      ∀ y, (∃ d x' y', rest = d :: x' ∧ y = d :: y') →
        attributeValue name (w ++ y) = .ok (value, y) := by
  unfold attributeValue at h
  split at h
  · cases h
  · rename_i c r hc
    obtain ⟨hs, hblank, hcb⟩ := eq_append_of_dropWhile hc
    generalize s.takeWhile isBlank = blanks at hs hblank
    subst hs
    split at h
    · rename_i hq
      split at h
      · cases h
      · rename_i raw after hcut
        simp only [Except.ok.injEq, Prod.mk.injEq] at h
        obtain ⟨rfl, rfl⟩ := h
        refine ⟨blanks ++ c :: (raw ++ [c]), by simp [eq_append_of_cut hcut], fun y _ => ?_⟩
        have hy := cut_local hcut y
        simp only [List.append_assoc, List.cons_append, List.nil_append] at hy ⊢
        simp [attributeValue, dropWhile_append_stop _ hblank hcb, hq, hy]
    · rename_i hq
      cases hsplit : splitAt endsBareValue (c :: r) with
      | mk raw after =>
        rw [hsplit] at h
        simp only [Except.ok.injEq, Prod.mk.injEq] at h
        obtain ⟨rfl, rfl⟩ := h
        have happ : raw ++ after = c :: r := by
          have := splitAt_append endsBareValue (c :: r)
          rwa [hsplit] at this
        refine ⟨blanks ++ raw, by simp [happ], ?_⟩
        rintro _ ⟨d, x', y', rfl, rfl⟩
        obtain ⟨-, ha, hd⟩ := splitAt_cases hsplit
        have hy := splitAt_append_stop y' ha hd
        -- the value may be empty, so its first character is the one after it
        obtain ⟨r', hr'⟩ : ∃ r', raw ++ d :: y' = c :: r' := by
          cases raw with
          | nil => exact ⟨y', by simp_all⟩
          | cons a raw => exact ⟨raw ++ d :: y', by simp_all⟩
        rw [hr'] at hy
        simp [attributeValue, hr', dropWhile_append_stop _ hblank hcb, hq, hy]

theorem readAttribute_local {s rest : List Char} {a : Attribute} (hs : s ≠ [])
    (h : readAttribute s = .ok (a, rest)) :
    ∃ w, w ≠ [] ∧ s = w ++ rest ∧
      ∀ y, BeginAlike rest y → readAttribute (w ++ y) = .ok (a, y) := by
  unfold readAttribute at h
  cases hname : attributeName s with
  | mk name r =>
    obtain ⟨n, hn, rfl, hlocal⟩ := attributeName_local hs hname
    simp only [hname] at h
    split at h
    · rename_i v hv
      obtain ⟨hr, hblank, heq⟩ := eq_append_of_dropWhile hv
      generalize r.takeWhile isBlank = blanks at hr hblank
      subst hr
      cases hval : attributeValue name v with
      | error e => rw [hval] at h; cases h
      | ok p =>
        obtain ⟨value, rest'⟩ := p
        rw [hval] at h
        simp only [Except.map, Except.ok.injEq, Prod.mk.injEq] at h
        obtain ⟨rfl, rfl⟩ := h
        obtain ⟨w, rfl, hvalue⟩ := attributeValue_local hval
        refine ⟨n ++ (blanks ++ '=' :: w), by simp [hn], by simp, fun y hy => ?_⟩
        have hname' : attributeName (n ++ (blanks ++ '=' :: (w ++ y))) =
            (name, blanks ++ '=' :: (w ++ y)) := by
          apply hlocal
          cases blanks with
          | nil => exact ⟨'=', _, _, rfl, rfl⟩
          | cons d blanks => exact ⟨d, _, _, rfl, rfl⟩
        simp only [List.append_assoc, List.cons_append]
        simp [readAttribute, hname', dropWhile_append_stop _ hblank heq, hvalue y hy.head,
          Except.map]
    · rename_i hne
      simp only [Except.ok.injEq, Prod.mk.injEq] at h
      obtain ⟨rfl, rfl⟩ := h
      refine ⟨n, hn, rfl, fun y hy => ?_⟩
      -- no equals sign follows the name here, so none does there
      obtain ⟨d, x', y', hx', hy'⟩ := hy.dropBlank
      have hd : d ≠ '=' := by
        rintro rfl
        exact hne x' hx'
      simp only [readAttribute, hlocal y hy.head, hy']
      split
      · simp_all
      · rfl

theorem tagRest_of_dropBlank {s : List Char} {c : Char} {r : List Char}
    (h : s.dropWhile isBlank = c :: r) :
    tagRest s =
      if c = '>' then .ok ([], false, r)
      else if c = '/' then
        if r.head? = some '>' then .ok ([], true, r.tail) else tagRest r
      else
        match readAttribute (c :: r) with
        | .error e => .error e
        | .ok (a, r') =>
          (tagRest r').map fun (as, selfClosing, rest) => (a :: as, selfClosing, rest) := by
  rw [tagRest]
  split
  · rename_i hb
    rw [h] at hb
    cases hb
  · rename_i c' r' hb
    rw [h] at hb
    obtain ⟨rfl, rfl⟩ := List.cons.inj hb
    split
    · rfl
    · split
      · rfl
      · split <;> rename_i ha <;> simp only [ha]

theorem tagRest_local {s rest : List Char} {as : List Attribute} {b : Bool}
    (h : tagRest s = .ok (as, b, rest)) :
    ∃ w, s = w ++ rest ∧ (∃ c ∈ w, isBlank c = false) ∧
      ∀ y, tagRest (w ++ y) = .ok (as, b, y) := by
  fun_induction tagRest s generalizing as b rest with
  | case1 => simp at h
  | case2 s r hb hl =>
    obtain ⟨hs, hblank, hc⟩ := eq_append_of_dropWhile hb
    simp only [Except.ok.injEq, Prod.mk.injEq] at h
    obtain ⟨rfl, rfl, rfl⟩ := h
    refine ⟨s.takeWhile isBlank ++ ['>'], by simpa using hs, ⟨'>', by simp, hc⟩, fun y => ?_⟩
    rw [List.append_assoc]
    exact tagRest_of_dropBlank (dropWhile_append_stop y hblank hc)
  | case3 s r hr hb hl hc =>
    obtain ⟨hs, hblank, hcb⟩ := eq_append_of_dropWhile hb
    simp only [Except.ok.injEq, Prod.mk.injEq] at h
    obtain ⟨rfl, rfl, rfl⟩ := h
    obtain ⟨r, rfl⟩ := List.head?_eq_some_iff.1 hr
    refine ⟨s.takeWhile isBlank ++ ['/', '>'], by simpa using hs, ⟨'/', by simp, hcb⟩,
      fun y => ?_⟩
    rw [List.append_assoc]
    exact tagRest_of_dropBlank (dropWhile_append_stop ('>' :: y) hblank hcb)
  | case4 s r hr hb hl hc ih =>
    obtain ⟨hs, hblank, hcb⟩ := eq_append_of_dropWhile hb
    obtain ⟨w, rfl, ⟨d, hd, hdb⟩, hlocal⟩ := ih h
    refine ⟨s.takeWhile isBlank ++ '/' :: w, by simpa using hs, ⟨d, by simp [hd], hdb⟩,
      fun y => ?_⟩
    -- the rest is not empty, so whether the slash closes the tag is seen from `w` alone
    have hw : (w ++ y).head? ≠ some '>' := by
      cases w with
      | nil => cases hd
      | cons d w => exact hr
    rw [List.append_assoc, List.cons_append,
      tagRest_of_dropBlank (dropWhile_append_stop (w ++ y) hblank hcb), if_neg hc, if_pos rfl,
      if_neg hw]
    exact hlocal y
  | case5 => simp at h
  | case6 s c r hb hl hc hs a r' ha hlt ih =>
    obtain ⟨hs', hblank, hcb⟩ := eq_append_of_dropWhile hb
    generalize s.takeWhile isBlank = blanks at hs' hblank
    subst hs'
    cases ht : tagRest r' with
    | error e => rw [ht] at h; cases h
    | ok p =>
      obtain ⟨as', b', rest'⟩ := p
      rw [ht] at h
      simp only [Except.map, Except.ok.injEq, Prod.mk.injEq] at h
      obtain ⟨rfl, rfl, rfl⟩ := h
      obtain ⟨v, rfl, ⟨d, hd, hdb⟩, hlocal⟩ := ih ht
      obtain ⟨w, hw, hcr, hattr⟩ := readAttribute_local (by simp) ha
      refine ⟨blanks ++ (w ++ v), by simp [hcr], ⟨d, by simp [hd], hdb⟩, fun y => ?_⟩
      -- the attribute ends at the same character that is no blank, which is in `v`
      have hy := hattr (v ++ y) ⟨v, rest', y, rfl, rfl, d, hd, hdb⟩
      cases w with
      | nil => exact absurd rfl hw
      | cons c' w =>
        obtain ⟨rfl, -⟩ := List.cons.inj hcr
        simp only [List.append_assoc, List.cons_append] at hy ⊢
        rw [tagRest_of_dropBlank (dropWhile_append_stop (w ++ (v ++ y)) hblank hcb), if_neg hc,
          if_neg hs, hy]
        simp only [hlocal y, Except.map]

theorem lower_not_endsTagName {c : Char} (h : c.isLower = true) : endsTagName c = false := by
  have hn : 97 ≤ c.toNat ∧ c.toNat ≤ 122 := by
    have hletter : (decide (c.val ≥ 'a'.val) && decide (c.val ≤ 'z'.val)) = true := h
    simp only [Bool.and_eq_true, decide_eq_true_eq, ge_iff_le, UInt32.le_iff_toNat_le] at hletter
    exact hletter
  have hne : c ≠ '/' ∧ c ≠ '>' := by
    constructor <;> rintro rfl <;> simp at hn
  simp only [endsTagName, isBlank]
  simp [hne]
  omega

theorem startTag_local {c : Char} {s rest : List Char} {t : Token} (hc : c.isLower = true)
    (h : startTag ('<' :: c :: s) = .ok (t, rest)) :
    ∃ w, s = w ++ rest ∧ w ≠ [] ∧ ∀ y, startTag ('<' :: c :: (w ++ y)) = .ok (t, y) := by
  unfold startTag at h
  simp only [List.drop_succ_cons, List.drop_zero] at h
  cases hsplit : splitAt endsTagName (c :: s) with
  | mk name r =>
    simp only [hsplit] at h
    split at h
    · rename_i as b rest' ht
      simp only [Except.ok.injEq, Prod.mk.injEq] at h
      obtain ⟨rfl, rfl⟩ := h
      obtain ⟨v, rfl, ⟨d, hd, -⟩, hlocal⟩ := tagRest_local ht
      cases v with
      | nil => cases hd
      | cons d v =>
        obtain ⟨hs, hname, hstop⟩ := splitAt_cases hsplit
        cases name with
        | nil =>
          obtain ⟨rfl, -⟩ := List.cons.inj hs
          exact absurd hstop (by simpa using lower_not_endsTagName hc)
        | cons c' name =>
          obtain ⟨rfl, rfl⟩ := List.cons.inj hs
          refine ⟨name ++ d :: v, by simp, by simp, fun y => ?_⟩
          have hy := splitAt_append_stop (v ++ y) hname hstop
          have ht' := hlocal y
          simp only [List.cons_append, List.append_assoc] at hy ht' ⊢
          simp [startTag, hy, ht']
    · cases h
    · cases h

theorem endTag_local {s rest : List Char} {t : Token} (h : endTag ('<' :: '/' :: s) = .ok (t, rest)) :
    ∃ w, s = w ++ rest ∧ w ≠ [] ∧ ∀ y, endTag ('<' :: '/' :: (w ++ y)) = .ok (t, y) := by
  unfold endTag at h
  simp only [List.drop_succ_cons, List.drop_zero] at h
  cases hsplit : splitAt endsTagName s with
  | mk name r =>
    simp only [hsplit] at h
    split at h
    · rename_i before rest' hcut
      simp only [Except.ok.injEq, Prod.mk.injEq] at h
      obtain ⟨rfl, rfl⟩ := h
      have hr := eq_append_of_cut hcut
      -- what ends the name is the first character of `before ++ ['>']`
      obtain ⟨d, v, hv⟩ : ∃ d v, before ++ ['>'] = d :: v := by
        cases before with
        | nil => exact ⟨'>', [], rfl⟩
        | cons d v => exact ⟨d, v ++ ['>'], rfl⟩
      rw [hv, List.cons_append] at hr
      subst hr
      obtain ⟨rfl, hname, hstop⟩ := splitAt_cases hsplit
      refine ⟨name ++ d :: v, by simp, by simp, fun y => ?_⟩
      have hy := splitAt_append_stop (v ++ y) hname hstop
      have hc := cut_local hcut y
      rw [hv, List.cons_append] at hc
      simp only [List.append_assoc, List.cons_append]
      simp [endTag, hy, hc]
    · cases h

theorem commentToken_local {s rest : List Char} {t : Token}
    (h : commentToken ('<' :: '!' :: '-' :: '-' :: s) = .ok (t, rest)) :
    ∃ w, s = w ++ rest ∧ ∀ y, commentToken ('<' :: '!' :: '-' :: '-' :: (w ++ y)) = .ok (t, y) := by
  unfold commentToken at h
  simp only [List.drop_succ_cons, List.drop_zero] at h
  split at h
  · rename_i before rest' hcut
    simp only [Except.ok.injEq, Prod.mk.injEq] at h
    obtain ⟨rfl, rfl⟩ := h
    refine ⟨before ++ ['-', '-', '>'], by simpa using eq_append_of_cut hcut, fun y => ?_⟩
    simp only [commentToken, List.drop_succ_cons, List.drop_zero, cut_local hcut y]
  · cases h

theorem opensMarkup_of_lower {c : Char} (s : List Char) (h : c.isLower = true) :
    opensMarkup ('<' :: c :: s) = true ∧ ['<', '!', '-', '-'].isPrefixOf ('<' :: c :: s) = false ∧
      ['<', '/'].isPrefixOf ('<' :: c :: s) = false := by
  have hb : c ≠ '!' := by
    rintro rfl
    cases h
  have hs : c ≠ '/' := by
    rintro rfl
    cases h
  refine ⟨?_, by simp [List.isPrefixOf_cons_cons, hb.symm],
    by simp [List.isPrefixOf_cons_cons, hs.symm]⟩
  unfold opensMarkup
  split <;> simp_all

theorem opensMarkup_append {w : List Char} (x y : List Char) (h : 4 ≤ w.length) :
    opensMarkup (w ++ x) = opensMarkup (w ++ y) := by
  rcases w with _ | ⟨a, _ | ⟨b, _ | ⟨c, _ | ⟨d, w⟩⟩⟩⟩
  · simp at h
  · simp at h
  · simp at h
  · simp at h
  · simp only [List.cons_append]
    by_cases ha : a = '<'
    · subst ha
      by_cases hb : b = '!'
      · subst hb
        by_cases hc : c = '-' <;> by_cases hd : d = '-' <;> simp [opensMarkup, hc, hd]
      · by_cases hs : b = '/'
        · subst hs
          rfl
        · simp [opensMarkup, hb, hs]
    · simp [opensMarkup, ha]

theorem opensMarkup_of_comment {s : List Char} (h : ['<', '!', '-', '-'].isPrefixOf s = true) :
    ∃ t, s = '<' :: '!' :: '-' :: '-' :: t ∧ opensMarkup s = true := by
  obtain ⟨t, rfl⟩ := List.isPrefixOf_iff_prefix.1 h
  exact ⟨t, rfl, rfl⟩

/-- A start tag, an end tag or a comment is read the same whatever follows it. -/
theorem next_local {s rest : List Char} {t : Token} (ho : opensMarkup s = true)
    (h : next s = .ok (some (t, rest))) :
    ∃ w, s = w ++ rest ∧ 3 ≤ w.length ∧
      ∀ y, opensMarkup (w ++ y) = true ∧ next (w ++ y) = .ok (some (t, y)) := by
  cases s with
  | nil => simp [next] at h
  | cons a s =>
    simp only [next, ho, if_true] at h
    split at h
    · rename_i hp
      obtain ⟨s', hs, -⟩ := opensMarkup_of_comment hp
      rw [hs] at h ⊢
      obtain ⟨w, rfl, hlocal⟩ := commentToken_local (map_some_ok h)
      refine ⟨'<' :: '!' :: '-' :: '-' :: w, rfl, by simp, fun y => ⟨rfl, ?_⟩⟩
      simp [next, hlocal y, Except.map]
    · rename_i hp
      split at h
      · rename_i he
        obtain ⟨s', hs⟩ := List.isPrefixOf_iff_prefix.1 he
        rw [← hs] at h ho hp ⊢
        simp only [List.cons_append, List.nil_append] at h ho hp ⊢
        obtain ⟨w, rfl, hw, hlocal⟩ := endTag_local (map_some_ok h)
        cases w with
        | nil => exact absurd rfl hw
        | cons c w =>
          refine ⟨'<' :: '/' :: c :: w, rfl, by simp, fun y => ?_⟩
          have hy := hlocal y
          simp only [List.cons_append] at ho hy ⊢
          have ho' : opensMarkup ('<' :: '/' :: c :: (w ++ y)) = true := ho
          exact ⟨ho', by simp [next, ho', hy, Except.map]⟩
      · rename_i he
        -- neither a comment nor an end tag, so a small letter is behind the angle
        obtain ⟨c, s', hs, hc⟩ : ∃ c s', a :: s = '<' :: c :: s' ∧ c.isLower = true := by
          unfold opensMarkup at ho
          split at ho
          · simp_all
          · simp_all
          · rename_i c s' _ _ hs
            exact ⟨c, s', hs, ho⟩
          · cases ho
        rw [hs] at h ⊢
        obtain ⟨w, rfl, hw, hlocal⟩ := startTag_local hc (map_some_ok h)
        have hlen := List.length_pos_iff.2 hw
        refine ⟨'<' :: c :: w, rfl, by simp; omega, fun y => ?_⟩
        obtain ⟨ho', hp', he'⟩ := opensMarkup_of_lower (w ++ y) hc
        exact ⟨ho', by simp only [List.cons_append, next, ho', hp', he', hlocal y]; rfl⟩

theorem next_text {s : List Char} (hs : s ≠ []) (ho : opensMarkup s = false) :
    next s = .ok (some (.text (textRun s).1, (textRun s).2)) := by
  have hp : ¬ ['<', '!', '-', '-'].isPrefixOf s = true := by
    intro hp
    obtain ⟨_, -, ho'⟩ := opensMarkup_of_comment hp
    rw [ho] at ho'
    cases ho'
  cases s with
  | nil => exact absurd rfl hs
  | cons c s => simp only [next, if_neg hp, ho, Bool.false_eq_true, if_false]

theorem textRun_stops {s : List Char} (h : (textRun s).2 ≠ []) : opensMarkup (textRun s).2 = true := by
  induction s with
  | nil => exact absurd rfl h
  | cons c s ih =>
    simp only [textRun] at h ⊢
    split
    · assumption
    · rename_i ho
      rw [if_neg ho] at h
      exact ih h

theorem textRun_local {s v x y : List Char} (h : (textRun s).2 = v ++ x) (hv : 3 ≤ v.length)
    (ho : opensMarkup (v ++ y) = true) : textRun ((textRun s).1 ++ (v ++ y)) = ((textRun s).1, v ++ y) := by
  induction s with
  | nil =>
    have : v ++ x = [] := h.symm
    simp_all
  | cons c s ih =>
    simp only [textRun] at h ⊢
    split
    · cases v with
      | nil => simp at hv
      | cons d v => simp only [List.cons_append] at ho; simp [textRun, ho]
    · rename_i hc
      rw [if_neg hc] at h
      have hs := textRun_append s
      rw [h] at hs
      have hc' : opensMarkup ((c :: ((textRun s).1 ++ v)) ++ y) = false := by
        rw [opensMarkup_append y x (by simp; omega)]
        simpa [hs] using hc
      simp only [List.cons_append, List.append_assoc] at hc' ⊢
      simp [textRun, hc', ih h]

theorem next_text_local {s v x y : List Char} (hs : s ≠ []) (hos : opensMarkup s = false)
    (h : (textRun s).2 = v ++ x) (hv : 3 ≤ v.length) (ho : opensMarkup (v ++ y) = true) :
    next ((textRun s).1 ++ (v ++ y)) = .ok (some (.text (textRun s).1, v ++ y)) := by
  have happ := textRun_append s
  rw [h] at happ
  have hpos : 0 < (textRun s).1.length := by
    cases s with
    | nil => exact absurd rfl hs
    | cons c s => simp [textRun, hos]
  have hos' : opensMarkup ((textRun s).1 ++ (v ++ y)) = false := by
    rw [← List.append_assoc, opensMarkup_append y x (by simp; omega), List.append_assoc, happ, hos]
  rw [next_text (by intro hnil; simp_all) hos', textRun_local h hv ho]

theorem opensMarkup_of_next {s rest : List Char} {t : Token} (h : next s = .ok (some (t, rest)))
    (ht : ∀ raw, t ≠ .text raw) : opensMarkup s = true := by
  by_contra ho
  have hs : s ≠ [] := by
    rintro rfl
    cases h
  rw [next_text hs (by simpa using ho)] at h
  cases h
  exact ht _ rfl

/-- Up to a tag or comment, reading does not depend on what follows it. If it begins with markup,
then so does every text that begins with it. -/
theorem Reaches.local {input start v x : List Char} {opened last : List Element}
    (h : Reaches input opened start last (v ++ x)) (hlen : 3 ≤ v.length)
    (hopen : ∀ y, opensMarkup (v ++ y) = true) :
    ∃ w, start = w ++ (v ++ x) ∧
      (opensMarkup start = true → ∀ y, opensMarkup (w ++ (v ++ y)) = true) ∧
      ∀ input' y, Reaches input' opened (w ++ (v ++ y)) last (v ++ y) := by
  generalize hleft : v ++ x = left at h
  induction h with
  | here => exact ⟨[], rfl, fun _ => hopen, fun _ _ => .here⟩
  | @step opened opened' last start rest left t ht ha _ ih =>
    subst hleft
    obtain ⟨w, hrest, hopens, hlocal⟩ := ih rfl
    cases ho : opensMarkup start with
    | true =>
      obtain ⟨u, rfl, -, hnext⟩ := next_local ho ht
      refine ⟨u ++ w, by simp [hrest], fun _ y => ?_, fun input' y => ?_⟩ <;>
        rw [List.append_assoc]
      · exact (hnext _).1
      · exact .step (hnext _).2 (advance_eq_ok_iff.1 ha).advance_eq (hlocal input' y)
    | false =>
      -- text goes up to the next markup, which is there since there is more to read
      have hs : start ≠ [] := by
        rintro rfl
        cases ht
      rw [next_text hs ho] at ht
      obtain ⟨rfl, hrun⟩ := Prod.mk.inj (Option.some.inj (Except.ok.inj ht))
      have hne : (textRun start).2 ≠ [] := by
        intro hnil
        rw [hrun, hrest, List.append_eq_nil_iff, List.append_eq_nil_iff] at hnil
        simp [hnil.2.1] at hlen
      have hmarkup := textRun_stops hne
      rw [hrun] at hmarkup
      rw [hrest, ← List.append_assoc] at hrun
      refine ⟨(textRun start).1 ++ w, ?_, fun h => ?_, fun input' y => ?_⟩
      · rw [List.append_assoc, ← List.append_assoc w, ← hrun, textRun_append]
      · cases h
      · have hy := hopens hmarkup y
        rw [← List.append_assoc] at hy
        have hread := next_text_local hs ho hrun (by simp; omega) hy
        rw [List.append_assoc w] at hread
        rw [List.append_assoc]
        exact .step hread (advance_eq_ok_iff.1 ha).advance_eq (hlocal input' y)

/-- What is read up to the end of the root does not depend on what follows. If it begins with
markup, then so does every text that begins with it. -/
theorem readFrom_local {input start rest : List Char} {opened : List Element} {e : Element}
    (h : readFrom input opened start = .ok (some (e, rest))) :
    ∃ w, start = w ++ rest ∧
      (opensMarkup start = true → 3 ≤ w.length ∧ ∀ y, opensMarkup (w ++ y) = true) ∧
      ∀ input' y, readFrom input' opened (w ++ y) = .ok (some (e, y)) := by
  obtain ⟨last, left, hreach, hstop⟩ := exists_stop input opened start
  generalize readFrom input opened start = result at h hstop
  cases hstop with
  | illFormed => cases h
  | ended => cases last <;> cases h
  | refused => cases h
  | notMarkup => cases h
  | closed ht ha =>
    cases h
    have hmarkup : opensMarkup left = true := by
      refine opensMarkup_of_next ht ?_
      rintro raw rfl
      cases advance_eq_ok_iff.1 ha
    obtain ⟨v, rfl, hlen, hnext⟩ := next_local hmarkup ht
    obtain ⟨w, rfl, hopens, hlocal⟩ := hreach.local hlen fun y => (hnext y).1
    refine ⟨w ++ v, by simp, fun ho => ⟨by simp; omega, fun y => ?_⟩, fun input' y => ?_⟩ <;>
      rw [List.append_assoc]
    · exact hopens ho y
    · rw [(hlocal input' y).readFrom_eq, readFrom_of_next (hnext y).2,
        (advance_eq_ok_iff.1 ha).advance_eq]

theorem opensTag_append {w : List Char} (x y : List Char) (h : 3 ≤ w.length) :
    opensTag (w ++ x) = opensTag (w ++ y) := by
  rcases w with _ | ⟨a, _ | ⟨b, _ | ⟨c, w⟩⟩⟩
  · simp at h
  · simp at h
  · simp at h
  · simp only [List.cons_append]
    by_cases ha : a = '<'
    · by_cases hb : b = '/' <;> simp [opensTag, ha, hb]
    · simp [opensTag, ha]

theorem opensMarkup_of_opensTag {s : List Char} (h : opensTag s = true) : opensMarkup s = true := by
  unfold opensTag at h
  split at h
  · rename_i c s
    have : opensMarkup ('<' :: '/' :: c :: s) = (c.isUpper || c.isLower) := rfl
    rw [this, h, Bool.or_true]
  · exact (opensMarkup_of_lower _ h).1
  · cases h

theorem opensTag_of_capture {input : List Char} {captured : Captured}
    (h : capture input = .ok (some captured)) : opensTag input = true := by
  unfold capture at h
  split at h
  · assumption
  · cases h

theorem eq_cons_of_opensTag {s : List Char} (h : opensTag s = true) :
    ∃ l x, s = '<' :: l :: x ∧ l ≠ '\'' := by
  unfold opensTag at h
  split at h
  · exact ⟨_, _, rfl, by decide⟩
  · refine ⟨_, _, rfl, ?_⟩
    intro hquote
    rw [hquote] at h
    cases h
  · cases h

theorem capture_local {input : List Char} {captured : Captured}
    (h : capture input = .ok (some captured)) :
    captured.text ≠ [] ∧ (∃ rest, input = captured.text ++ rest) ∧
      ∀ y, capture (captured.text ++ y) = .ok (some captured) := by
  unfold capture at h
  split at h
  · rename_i hopen
    cases hr : readFrom input [] input with
    | error e => rw [hr] at h; cases h
    | ok found =>
      cases found with
      | none => rw [hr] at h; cases h
      | some p =>
        obtain ⟨root, rest⟩ := p
        obtain ⟨w, hw, hopens, hlocal⟩ := readFrom_local hr
        rw [hr] at h
        simp only [Except.map, Option.map_some, Except.ok.injEq, Option.some.injEq] at h
        subst h
        obtain ⟨hlen, -⟩ := hopens (opensMarkup_of_opensTag hopen)
        subst hw
        have htext : ∀ y, (w ++ y).take ((w ++ y).length - y.length) = w := fun y => by simp
        simp only [htext]
        refine ⟨fun hnil => by simp [hnil] at hlen, ⟨rest, rfl⟩, fun y => ?_⟩
        rw [opensTag_append rest y hlen] at hopen
        simp only [capture, hopen, if_true, hlocal, Except.map, Option.map_some, htext]
  · cases h

end InlineMarkup.Markup
