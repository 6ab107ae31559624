import InlineMarkup.Proofs.Resolution

/-!
The lines of a text. A line is its content and what ends it; it is found by the number of line feeds
before it, and a position is in a line unless no line is left there (`exists_at`).
-/

set_option autoImplicit false

namespace InlineMarkup

open InlineMarkup.Text

/-- A line of a text, with what ends it and what stands before and behind. -/
structure Line (source : List Char) where
  before : List Char
  content : List Char
  ending : List Char
  after : List Char
  source_eq : source = before ++ (content ++ (ending ++ after))
  begins : before = [] ∨ ∃ earlier, before = earlier ++ ['\n']
  flat : '\n' ∉ content
  /-- A line ends in a line feed with at most one carriage return before it, or with the text; there
  it has one character at least. -/
  ends : ending = ['\r', '\n'] ∨ (ending = ['\n'] ∧ content.getLast? ≠ some '\r') ∨
    (ending = [] ∧ after = [] ∧ content ≠ [])

theorem lines_nil : lines [] = [] := rfl

theorem lines_lineFeed (s : List Char) : lines ('\n' :: s) = [] :: lines s := rfl

theorem lines_return (s : List Char) : lines ('\r' :: '\n' :: s) = lines ('\n' :: s) := rfl

theorem lines_cons {c : Char} {s : List Char} (hfeed : c ≠ '\n')
    (hreturn : ¬(c = '\r' ∧ s.head? = some '\n')) :
    lines (c :: s) = (c :: (lines s).headD []) :: (lines s).tail := by
  conv_lhs => unfold lines
  split
  · rename_i h
    cases h
  · rename_i h
    cases h
    exact absurd rfl hfeed
  · rename_i h
    cases h
    exact absurd ⟨rfl, rfl⟩ hreturn
  · rename_i h
    cases h
    cases lines s <;> rfl

/-- The lines up to a line feed do not depend on what follows it, and there is one for every line
feed. -/
theorem lines_append_lineFeed (u : List Char) : ∃ ls : List (List Char),
    ls.length = u.count '\n' + 1 ∧ ∀ s, lines (u ++ '\n' :: s) = ls ++ lines s := by
  induction u with
  | nil => exact ⟨[[]], rfl, lines_lineFeed⟩
  | cons c u ih =>
    obtain ⟨ls, hlength, hls⟩ := ih
    by_cases hfeed : c = '\n'
    · subst hfeed
      exact ⟨[] :: ls, by simp [hlength], fun s => by simp [lines_lineFeed, hls]⟩
    · have hcount : (c :: u).count '\n' = u.count '\n' := List.count_cons_of_ne hfeed
      by_cases hreturn : c = '\r' ∧ (u ++ ['\n']).head? = some '\n'
      · obtain ⟨rfl, hhead⟩ := hreturn
        refine ⟨ls, by rw [hcount, hlength], fun s => ?_⟩
        obtain ⟨t, ht⟩ : ∃ t, u ++ '\n' :: s = '\n' :: t := by
          cases u with
          | nil => exact ⟨s, rfl⟩
          | cons d u =>
            cases hhead
            exact ⟨u ++ '\n' :: s, rfl⟩
        rw [← hls, List.cons_append, ht, lines_return]
      · obtain ⟨l, ls, rfl⟩ := List.exists_cons_of_length_pos (l := ls) (by omega)
        refine ⟨(c :: l) :: ls, by rw [hcount, ← hlength]; rfl, fun s => ?_⟩
        have hreturn' : ¬(c = '\r' ∧ (u ++ '\n' :: s).head? = some '\n') := by
          cases u <;> simpa using hreturn
        rw [List.cons_append, lines_cons hfeed hreturn', hls]
        rfl

theorem lines_of_not_mem {s : List Char} (hs : '\n' ∉ s) (hne : s ≠ []) : lines s = [s] := by
  induction s with
  | nil => exact absurd rfl hne
  | cons c s ih =>
    obtain ⟨hc, hs⟩ := not_or.1 (mt List.mem_cons.2 hs)
    have hreturn : ¬(c = '\r' ∧ s.head? = some '\n') := by
      rintro ⟨-, hhead⟩
      exact hs (List.mem_of_head? hhead)
    rw [lines_cons (Ne.symm hc) hreturn]
    cases s with
    | nil => rfl
    | cons d s =>
      rw [ih hs (by simp)]
      rfl

theorem lines_content {content ending after : List Char} (hflat : '\n' ∉ content)
    (hends : ending = ['\r', '\n'] ∨ (ending = ['\n'] ∧ content.getLast? ≠ some '\r')) :
    lines (content ++ (ending ++ after)) = content :: lines after := by
  induction content with
  | nil =>
    rcases hends with rfl | ⟨rfl, -⟩
    · exact lines_return after
    · exact lines_lineFeed after
  | cons c content ih =>
    obtain ⟨hc, hcontent⟩ := not_or.1 (mt List.mem_cons.2 hflat)
    have hends' : ending = ['\r', '\n'] ∨ (ending = ['\n'] ∧ content.getLast? ≠ some '\r') := by
      refine hends.imp_right fun ⟨hending, hlast⟩ => ⟨hending, ?_⟩
      cases content with
      | nil => simp
      | cons d content => simpa [List.getLast?_cons_cons] using hlast
    have hreturn : ¬(c = '\r' ∧ (content ++ (ending ++ after)).head? = some '\n') := by
      rintro ⟨rfl, hhead⟩
      cases content with
      | nil =>
        rcases hends with rfl | ⟨rfl, hlast⟩
        · cases hhead
        · exact hlast rfl
      | cons d content =>
        cases hhead
        simp at hcontent
    rw [List.cons_append, lines_cons (Ne.symm hc) hreturn, ih hcontent hends']
    rfl

namespace Line

variable {source : List Char} (l : Line source)

theorem lines_from : ∃ ls, lines (l.content ++ (l.ending ++ l.after)) = l.content :: ls := by
  rcases l.ends with h | h | ⟨hending, hafter, hne⟩
  · exact ⟨_, lines_content l.flat (.inl h)⟩
  · exact ⟨_, lines_content l.flat (.inr h)⟩
  · refine ⟨[], ?_⟩
    rw [hending, hafter, List.append_nil, List.append_nil, lines_of_not_mem l.flat hne]

/-- A line is found by the number of line feeds before it. -/
theorem getElem?_lines : (lines source)[l.before.count '\n']? = some l.content := by
  obtain ⟨ls, hls⟩ := l.lines_from
  conv => lhs; arg 1; rw [l.source_eq]
  rcases l.begins with hbefore | ⟨earlier, hbefore⟩
  · simp [hbefore, hls]
  · obtain ⟨earlierLines, hlength, happend⟩ := lines_append_lineFeed earlier
    have hcount : l.before.count '\n' = earlierLines.length := by simp [hbefore, hlength]
    rw [hcount, hbefore, List.append_assoc, List.singleton_append, happend, hls]
    simp

end Line

theorem takeBytes_of_isFloor {source part rest : List Char} {offset : Nat}
    (hsource : source = part ++ rest) (h : IsFloor source offset (byteLength part)) :
    takeBytes offset source = part := by
  have hsame : byteLength part = byteLength (takeBytes offset source) :=
    h.unique (isFloor_takeBytes source offset)
  have htake := takeBytes_append (takeBytes offset source) (dropBytes offset source)
  rwa [takeBytes_append_dropBytes, ← hsame, hsource, takeBytes_append, ← hsource, eq_comm] at htake

theorem lastLine_append {before rest : List Char}
    (hbefore : before = [] ∨ ∃ earlier, before = earlier ++ ['\n']) (hrest : '\n' ∉ rest) :
    lastLine (before ++ rest) = rest := by
  rcases hbefore with rfl | ⟨earlier, rfl⟩
  · exact lastLine_of_not_mem hrest
  · have hall : ∀ c ∈ rest.reverse, (c != '\n') = true := by
      intro c hc
      have : c ≠ '\n' := ne_of_mem_of_not_mem (List.mem_reverse.1 hc) hrest
      simpa using this
    rw [lastLine, List.append_assoc, List.singleton_append, List.reverse_append, List.reverse_cons,
      List.append_assoc, List.singleton_append, takeWhile_append_stop _ hall (by decide),
      List.reverse_reverse]

theorem ofOffset_of_isFloor {source before part rest : List Char} {offset : Nat}
    (hsource : source = before ++ (part ++ rest))
    (hbefore : before = [] ∨ ∃ earlier, before = earlier ++ ['\n']) (hpart : '\n' ∉ part)
    (h : IsFloor source offset (byteLength (before ++ part))) :
    Location.ofOffset source offset = ⟨before.count '\n' + 1, part.length + 1⟩ := by
  have htake : takeBytes offset source = before ++ part :=
    takeBytes_of_isFloor (by rw [hsource, List.append_assoc]) h
  rw [Location.ofOffset, htake]
  simp only [lastLine_append hbefore hpart, List.count_append,
    List.count_eq_zero_of_not_mem hpart, Nat.add_zero]

/-- What a position in a line is on: a character of the content, or the end of the line. -/
inductive Line.At {source : List Char} (l : Line source) (position : Nat) : Option Char → Prop where
  | content {u v : List Char} {c : Char} : l.content = u ++ c :: v →
    IsFloor source position (byteLength (l.before ++ u)) → At l position (some c)
  | ending {u v : List Char} {c : Char} : l.ending = u ++ c :: v →
    IsFloor source position (byteLength (l.before ++ (l.content ++ u))) → At l position none
  | finish : l.ending = [] → IsFloor source position (byteLength source) → At l position none

theorem Line.lineFeed_not_mem_of_ending {source : List Char} {l : Line source} {u v : List Char}
    {c : Char} (h : l.ending = u ++ c :: v) : '\n' ∉ u := by
  rcases l.ends with hends | ⟨hends, -⟩ | ⟨hends, -⟩
  · rw [hends] at h
    rcases u with _ | ⟨a, _ | ⟨b, u⟩⟩
    · simp
    · obtain ⟨rfl, -⟩ := List.cons.inj h
      decide
    · simp at h
  · rw [hends] at h
    rcases u with _ | ⟨a, u⟩ <;> simp_all
  · rw [hends] at h
    simp at h

theorem exists_lastLine (s : List Char) : ∃ before, s = before ++ lastLine s ∧
    (before = [] ∨ ∃ earlier, before = earlier ++ ['\n']) ∧ '\n' ∉ lastLine s := by
  have hsplit := List.takeWhile_append_dropWhile (p := (· != '\n')) (l := s.reverse)
  have hs : s = (s.reverse.dropWhile (· != '\n')).reverse ++ lastLine s := by
    rw [lastLine, ← List.reverse_append, hsplit, List.reverse_reverse]
  refine ⟨_, hs, ?_, ?_⟩
  · cases h : s.reverse.dropWhile (· != '\n') with
    | nil => exact .inl rfl
    | cons c r =>
      have hc := (eq_append_of_dropWhile h).2.2
      simp only [bne_eq_false_iff_eq] at hc
      exact .inr ⟨r.reverse, by simp [hc]⟩
  · intro h
    have := List.mem_takeWhile_imp (List.mem_reverse.1 h)
    simp at this

theorem length_lines {before : List Char}
    (h : before = [] ∨ ∃ earlier, before = earlier ++ ['\n']) :
    (lines before).length = before.count '\n' := by
  rcases h with rfl | ⟨earlier, rfl⟩
  · rfl
  · obtain ⟨ls, hlength, hls⟩ := lines_append_lineFeed earlier
    rw [hls []]
    simp [lines_nil, hlength]

section

variable {before w x : List Char} (hbefore : before = [] ∨ ∃ earlier, before = earlier ++ ['\n'])
  (hw : '\n' ∉ w) (hx : '\n' ∉ x)

include hbefore hw hx

theorem exists_at_lineFeed (after : List Char) {position : Nat}
    (h : IsFloor (before ++ (w ++ (x ++ '\n' :: after))) position (byteLength (before ++ w))) :
    ∃ (l : Line (before ++ (w ++ (x ++ '\n' :: after)))) (c : Option Char), l.At position c := by
  have hflat : '\n' ∉ w ++ x := by simp [hw, hx]
  -- a carriage return before the line feed belongs to the end of the line
  by_cases hlast : (w ++ x).getLast? = some '\r'
  · obtain ⟨content, hcontent⟩ := List.getLast?_eq_some_iff.1 hlast
    let l : Line (before ++ (w ++ (x ++ '\n' :: after))) :=
      { before, content, ending := ['\r', '\n'], after, begins := hbefore
        source_eq := by rw [← List.append_assoc w, hcontent]; simp
        flat := fun hmem => hflat (by simp [hcontent, hmem])
        ends := .inl rfl }
    cases x using List.reverseRecOn with
    | nil =>
      rw [List.append_nil] at hcontent
      exact ⟨l, none, .ending (u := ['\r']) rfl (hcontent ▸ h)⟩
    | append_singleton x d =>
      rw [← List.append_assoc] at hcontent
      obtain ⟨hcontent, -⟩ := List.append_inj' hcontent rfl
      cases x with
      | nil =>
        have hfront : before ++ w = before ++ (content ++ []) := by simp [← hcontent]
        exact ⟨l, none, .ending (u := []) rfl (hfront ▸ h)⟩
      | cons c x => exact ⟨l, some c, .content hcontent.symm h⟩
  · let l : Line (before ++ (w ++ (x ++ '\n' :: after))) :=
      { before, content := w ++ x, ending := ['\n'], after, begins := hbefore, flat := hflat
        source_eq := by simp
        ends := .inr (.inl ⟨rfl, hlast⟩) }
    cases x with
    | nil =>
      have hfront : before ++ w = before ++ (w ++ [] ++ []) := by simp
      exact ⟨l, none, .ending (u := []) rfl (hfront ▸ h)⟩
    | cons c x => exact ⟨l, some c, .content rfl h⟩

theorem exists_at_finish (hne : w ++ x ≠ []) {position : Nat}
    (h : IsFloor (before ++ (w ++ x)) position (byteLength (before ++ w))) :
    ∃ (l : Line (before ++ (w ++ x))) (c : Option Char), l.At position c := by
  let l : Line (before ++ (w ++ x)) :=
    { before, content := w ++ x, ending := [], after := [], source_eq := by simp, begins := hbefore
      flat := by simp [hw, hx], ends := .inr (.inr ⟨rfl, rfl, hne⟩) }
  cases x with
  | nil => exact ⟨l, none, .finish rfl (by simpa using h)⟩
  | cons c x => exact ⟨l, some c, .content rfl h⟩

end

/-- A position is in a line, unless it is at the end of a text where no line is left. -/
theorem exists_at {source line : List Char} {position : Nat}
    (h : (lines source)[(Location.ofOffset source position).line - 1]? = some line) :
    ∃ (l : Line source) (c : Option Char), l.At position c := by
  obtain ⟨before, hpart, hbefore, hw⟩ := exists_lastLine (takeBytes position source)
  have hfloor := isFloor_takeBytes source position
  have hsource := (takeBytes_append_dropBytes position source).symm
  generalize lastLine (takeBytes position source) = w at hpart hw
  generalize dropBytes position source = rest at hsource
  rw [hpart] at hfloor hsource
  rw [List.append_assoc] at hsource
  rw [ofOffset_of_isFloor hsource hbefore hw hfloor, Nat.add_sub_cancel] at h
  clear hpart
  subst hsource
  have hrest := List.takeWhile_append_dropWhile (p := (· != '\n')) (l := rest)
  have hx : '\n' ∉ rest.takeWhile (· != '\n') := by
    intro hmem
    simpa using List.mem_takeWhile_imp hmem
  generalize rest.takeWhile (· != '\n') = x at hrest hx
  cases hfeed : rest.dropWhile (· != '\n') with
  | nil =>
    rw [hfeed, List.append_nil] at hrest
    subst hrest
    refine exists_at_finish hbefore hw hx ?_ hfloor
    -- an empty last line is not among the lines
    intro hempty
    rw [hempty, List.append_nil, ← length_lines hbefore, List.getElem?_eq_none (Nat.le_refl _)] at h
    cases h
  | cons c after =>
    obtain rfl : c = '\n' := by simpa using (eq_append_of_dropWhile hfeed).2.2
    rw [hfeed] at hrest
    subst hrest
    exact exists_at_lineFeed hbefore hw hx after hfloor

end InlineMarkup
