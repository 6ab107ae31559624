import InlineMarkup.Diagnostic.Report
import InlineMarkup.Proofs.Blank
import InlineMarkup.Proofs.Line

/-!
The caret of a report stands under the character that the report is about. A position is counted in
bytes, a place in characters of its line, the caret in columns of what is shown of the line; all
say the same (`caret_points`), whatever tabs and ends of lines there are and however long the line
is, and no step on the way can fail.
-/

set_option autoImplicit false

namespace InlineMarkup

open InlineMarkup.Text

namespace Report

/-- A character as it is shown; of a tab, the first of its columns. -/
def shownAs (c : Char) : Char :=
  if c = '\t' then ' ' else c

theorem expandTabs_append (u v : List Char) : expandTabs (u ++ v) = expandTabs u ++ expandTabs v := by
  simp [expandTabs]

theorem expandTabs_getElem? (u : List Char) (c : Char) (v : List Char) :
    (expandTabs (u ++ c :: v))[(expandTabs u).length]? = some (shownAs c) := by
  rw [expandTabs_append, List.getElem?_append_right (Nat.le_refl _), Nat.sub_self]
  by_cases hc : c = '\t' <;> simp [expandTabs, expandTab, shownAs, hc, tabWidth, List.replicate]

theorem shownColumn_append (u v : List Char) : shownColumn (u ++ v) u.length = (expandTabs u).length := by
  simp [shownColumn]

theorem shownColumn_of_le {line : List Char} {index : Nat} (h : line.length ≤ index) :
    shownColumn line index = (expandTabs line).length := by
  rw [shownColumn, List.take_of_length_le h]

theorem getElem?_part (left right shown : List Char) {start stop column : Nat}
    (hstart : start ≤ column) (hstop : column < stop) (hshown : stop ≤ shown.length) :
    (left ++ (shown.take stop).drop start ++ right)[column - start + left.length]? =
      shown[column]? := by
  have hlength : column - start < ((shown.take stop).drop start).length := by
    simp only [List.length_drop, List.length_take]
    omega
  rw [List.append_assoc, List.getElem?_append_right (by omega), Nat.add_sub_cancel,
    List.getElem?_append_left hlength, List.getElem?_drop, Nat.add_sub_cancel' hstart,
    List.getElem?_take_of_lt hstop]

theorem window_getElem? {shown : List Char} {column : Nat} (h : column < shown.length) :
    (window shown column).1[(window shown column).2]? = shown[column]? := by
  unfold window
  split
  · rfl
  · have hstop : column < min (column + reach) shown.length := by
      simp only [reach]
      omega
    exact getElem?_part _ _ shown (by omega) hstop (Nat.min_le_right _ _)

theorem window_length (line : List Char) :
    (window line line.length).2 = (window line line.length).1.length := by
  unfold window
  split
  · rfl
  · have hstop : min (line.length + reach) line.length = line.length := by omega
    simp only [hstop, Nat.lt_irrefl, if_false, List.append_nil, List.take_length,
      List.length_append, List.length_drop]
    omega

def line? (r : Report) : Option (List Char) :=
  (lines r.source)[(Location.ofOffset r.source r.position).line - 1]?

/-- What a report shows of the source, and the column of the caret under it. -/
def shown? (r : Report) : Option (List Char × Nat) :=
  r.line?.map fun line =>
    window (expandTabs line)
      (shownColumn line ((Location.ofOffset r.source r.position).column - 1))

variable {r : Report} {l : Line r.source}

theorem shown?_of_isFloor {part rest : List Char}
    (hrest : l.content ++ (l.ending ++ l.after) = part ++ rest) (hpart : '\n' ∉ part)
    (h : IsFloor r.source r.position (byteLength (l.before ++ part))) :
    r.line? = some l.content ∧
      r.shown? = some (window (expandTabs l.content) (shownColumn l.content part.length)) := by
  have hplace := ofOffset_of_isFloor (hrest ▸ l.source_eq) l.begins hpart h
  have hline : r.line? = some l.content := by
    rw [line?, hplace, Nat.add_sub_cancel, l.getElem?_lines]
  refine ⟨hline, ?_⟩
  rw [shown?, hline, hplace, Option.map_some, Nat.add_sub_cancel]

theorem shown?_content {c : Char} (h : l.At r.position (some c)) :
    ∃ p, r.line? = some l.content ∧ r.shown? = some p ∧ p.1[p.2]? = some (shownAs c) := by
  cases h with
  | @content u v _ hcontent hfloor =>
    have hflat : '\n' ∉ u := fun hu => l.flat (by simp [hcontent, hu])
    have hrest : l.content ++ (l.ending ++ l.after) = u ++ (c :: v ++ (l.ending ++ l.after)) := by
      simp [hcontent]
    obtain ⟨hline, hshown⟩ := shown?_of_isFloor hrest hflat hfloor
    have hcolumn := shownColumn_append u (c :: v)
    have hchar := expandTabs_getElem? u c v
    rw [← hcontent] at hcolumn hchar
    refine ⟨_, hline, hshown, ?_⟩
    rw [hcolumn, window_getElem? (List.getElem?_eq_some_iff.1 hchar).1, hchar]

theorem shown?_behind {part rest : List Char}
    (hrest : l.ending ++ l.after = part ++ rest) (hpart : '\n' ∉ part)
    (h : IsFloor r.source r.position (byteLength (l.before ++ (l.content ++ part)))) :
    ∃ p, r.line? = some l.content ∧ r.shown? = some p ∧ p.2 = p.1.length := by
  have hflat : '\n' ∉ l.content ++ part := by simp [l.flat, hpart]
  obtain ⟨hline, hshown⟩ := shown?_of_isFloor (by rw [hrest, List.append_assoc]) hflat h
  refine ⟨_, hline, hshown, ?_⟩
  rw [shownColumn_of_le (by simp), window_length]

theorem shown?_ending (h : l.At r.position none) :
    ∃ p, r.line? = some l.content ∧ r.shown? = some p ∧ p.2 = p.1.length := by
  cases h with
  | @ending u v c hending hfloor =>
    exact shown?_behind (by rw [hending, List.append_assoc]) (Line.lineFeed_not_mem_of_ending hending)
      hfloor
  | finish hending hfloor =>
    -- a line without ending is the last one
    have hafter : l.after = [] := by
      rcases l.ends with hends | ⟨hends, -⟩ | ⟨-, hafter, -⟩
      · simp [hends] at hending
      · simp [hends] at hending
      · exact hafter
    have hsource := l.source_eq
    rw [hending, hafter, List.append_nil] at hsource
    refine @shown?_behind r l [] [] (by rw [hending, hafter]) (by simp) ?_
    rwa [← hsource]

end Report

-- The same computations with every subtraction and every part of a text checked.
namespace Checked

def sub? (a b : Nat) : Option Nat :=
  if b ≤ a then some (a - b) else none

def slice? (s : List Char) (start stop : Nat) : Option (List Char) :=
  if start ≤ stop ∧ stop ≤ s.length then some ((s.take stop).drop start) else none

def isBoundary (s : List Char) (offset : Nat) : Bool :=
  byteLength (takeBytes offset s) == offset

def sliceBytes? (s : List Char) (start stop : Nat) : Option (List Char) :=
  if start ≤ stop ∧ isBoundary s start ∧ isBoundary s stop then
    some (takeBytes (stop - start) (dropBytes start s))
  else none

/-- Goes back byte by byte to a boundary. There is nothing before the first byte. -/
def floor? (s : List Char) : Nat → Option Nat
  | 0 => if isBoundary s 0 then some 0 else none
  | n + 1 => if isBoundary s (n + 1) then some (n + 1) else floor? s n

def lastLineFeed? : List Char → Option Nat
  | [] => none
  | c :: s =>
    match lastLineFeed? s with
    | some n => some (c.utf8Size + n)
    | none => if c = '\n' then some 0 else none

def location? (source : List Char) (offset : Nat) : Option Location := do
  let offset ← floor? source (min offset (byteLength source))
  let before ← sliceBytes? source 0 offset
  let start := (lastLineFeed? before).elim 0 (· + 1)
  let line ← sliceBytes? source start offset
  return ⟨before.count '\n' + 1, line.length + 1⟩

open Report in
def window? (line : List Char) (column : Nat) : Option (List Char × Nat) := do
  if line.length ≤ longestLine then return (line, column)
  let start := min (column - reach) line.length
  let stop := min (column + reach) line.length
  let left := if 0 < start then dots else []
  let right := if stop < line.length then dots else []
  let part ← slice? line start stop
  return (left ++ part ++ right, (← sub? column start) + left.length)

/-- What a report shows, if it shows a line. -/
def shown? (r : Report) : Option (Option (List Char × Nat)) := do
  let place ← location? r.source r.position
  match (lines r.source)[← sub? place.line 1]? with
  | none => return none
  | some line =>
    let column ← sub? place.column 1
    return some (← window? (Report.expandTabs line) (Report.shownColumn line column))

theorem isBoundary_iff {s : List Char} {offset : Nat} :
    isBoundary s offset = true ↔ IsBoundary s offset := by
  rw [isBoundary, beq_iff_eq]
  constructor
  · intro h
    exact ⟨_, _, (takeBytes_append_dropBytes offset s).symm, h.symm⟩
  · exact takeBytes_byteLength

theorem sliceBytes?_append (a b c : List Char) :
    sliceBytes? (a ++ (b ++ c)) (byteLength a) (byteLength (a ++ b)) = some b := by
  have ha : IsBoundary (a ++ (b ++ c)) (byteLength a) := ⟨a, b ++ c, rfl, rfl⟩
  have hb : IsBoundary (a ++ (b ++ c)) (byteLength (a ++ b)) := ⟨a ++ b, c, by simp, rfl⟩
  have hle : byteLength a ≤ byteLength (a ++ b) := by simp
  rw [sliceBytes?, if_pos ⟨hle, isBoundary_iff.2 ha, isBoundary_iff.2 hb⟩, dropBytes_append,
    byteLength_append, Nat.add_sub_cancel_left, takeBytes_append]

theorem floor?_eq {s : List Char} {offset floor : Nat}
    (h : IsGreatest {b | IsBoundary s b ∧ b ≤ offset} floor) : floor? s offset = some floor := by
  induction offset with
  | zero =>
    obtain rfl : floor = 0 := Nat.le_zero.1 h.1.2
    rw [floor?, if_pos (isBoundary_iff.2 h.1.1)]
  | succ n ih =>
    by_cases hn : IsBoundary s (n + 1)
    · have hle : n + 1 ≤ floor := h.2 ⟨hn, Nat.le_refl _⟩
      obtain rfl : floor = n + 1 := Nat.le_antisymm h.1.2 hle
      rw [floor?, if_pos (isBoundary_iff.2 hn)]
    · rw [floor?, if_neg (mt isBoundary_iff.1 hn)]
      have hne : ∀ b, IsBoundary s b → b ≤ n + 1 → b ≤ n := by
        intro b hb hle
        have : b ≠ n + 1 := by
          rintro rfl
          exact hn hb
        omega
      exact ih ⟨⟨h.1.1, hne floor h.1.1 h.1.2⟩, fun b hb => h.2 ⟨hb.1, Nat.le_succ_of_le hb.2⟩⟩

theorem lastLineFeed?_of_not_mem {w : List Char} (hw : '\n' ∉ w) : lastLineFeed? w = none := by
  induction w with
  | nil => rfl
  | cons c w ih =>
    obtain ⟨hc, hw⟩ := not_or.1 (mt List.mem_cons.2 hw)
    simp [lastLineFeed?, ih hw, Ne.symm hc]

theorem lastLineFeed?_append (earlier : List Char) {w : List Char} (hw : '\n' ∉ w) :
    lastLineFeed? (earlier ++ '\n' :: w) = some (byteLength earlier) := by
  induction earlier with
  | nil => simp [lastLineFeed?, lastLineFeed?_of_not_mem hw]
  | cons c earlier ih => simp [lastLineFeed?, ih]

theorem lineStart_eq {before w : List Char}
    (hbefore : before = [] ∨ ∃ earlier, before = earlier ++ ['\n']) (hw : '\n' ∉ w) :
    (lastLineFeed? (before ++ w)).elim 0 (· + 1) = byteLength before := by
  rcases hbefore with rfl | ⟨earlier, rfl⟩
  · simp [lastLineFeed?_of_not_mem hw]
  · rw [List.append_assoc, List.singleton_append, lastLineFeed?_append earlier hw,
      byteLength_append]
    rfl

theorem location?_eq (source : List Char) (offset : Nat) :
    location? source offset = some (Location.ofOffset source offset) := by
  have hfloor := floor?_eq (isFloor_takeBytes source offset)
  have hsource := (takeBytes_append_dropBytes offset source).symm
  obtain ⟨before, hpart, hbefore, hw⟩ := exists_lastLine (takeBytes offset source)
  have hbeforeSlice : sliceBytes? source 0 (byteLength (takeBytes offset source)) =
      some (takeBytes offset source) := by
    have := sliceBytes?_append [] (takeBytes offset source) (dropBytes offset source)
    rwa [List.nil_append, ← hsource] at this
  have hstart : (lastLineFeed? (takeBytes offset source)).elim 0 (· + 1) = byteLength before := by
    rw [hpart]
    exact lineStart_eq hbefore hw
  have hlineSlice : sliceBytes? source (byteLength before) (byteLength (takeBytes offset source)) =
      some (lastLine (takeBytes offset source)) := by
    have := sliceBytes?_append before (lastLine (takeBytes offset source)) (dropBytes offset source)
    rwa [← List.append_assoc, ← hpart, ← hsource] at this
  simp only [location?, hfloor, hbeforeSlice, hstart, hlineSlice, Option.bind_eq_bind,
    Option.bind_some, Location.ofOffset]
  rfl

theorem window?_eq (line : List Char) (column : Nat) :
    window? line column = some (Report.window line column) := by
  unfold window? Report.window
  split
  · rfl
  · have hslice : min (column - Report.reach) line.length ≤
          min (column + Report.reach) line.length ∧
        min (column + Report.reach) line.length ≤ line.length := by omega
    have hsub : min (column - Report.reach) line.length ≤ column := by omega
    simp only [slice?, sub?, if_pos hslice, if_pos hsub, Option.bind_eq_bind, Option.bind_some]
    rfl

/-- No step fails, and what is shown is the same. -/
theorem shown?_eq (r : Report) : shown? r = some r.shown? := by
  have hline : sub? (Location.ofOffset r.source r.position).line 1 =
      some ((Location.ofOffset r.source r.position).line - 1) := by
    simp [sub?, Location.ofOffset]
  have hcolumn : sub? (Location.ofOffset r.source r.position).column 1 =
      some ((Location.ofOffset r.source r.position).column - 1) := by
    simp [sub?, Location.ofOffset]
  simp only [shown?, location?_eq, hline, hcolumn, window?_eq, Option.bind_eq_bind,
    Option.bind_some, Report.shown?, Report.line?]
  cases (lines r.source)[(Location.ofOffset r.source r.position).line - 1]? <;> rfl

end Checked

namespace Report

/-- The text of a report that shows part of a line with the caret in some column: the line begins
with its number, and the line of the caret with as many blanks. -/
def drawn (r : Report) (shown : List Char) (caret : Nat) : List Char :=
  let place := Location.ofOffset r.source r.position
  let number := (toString place.line).toList
  let gutter := List.replicate number.length ' '
  s!"error: {r.message}\n --> {r.filename}:{place.line}:{place.column}\n".toList ++
    (gutter ++ " |\n".toList) ++
    (number ++ " | ".toList ++ shown ++ ['\n']) ++
    (gutter ++ " | ".toList ++ List.replicate caret ' ' ++
      '^' :: trimEnd (' ' :: (r.note.getD "").toList) ++ ['\n']) ++
    (r.help.elim [] fun help => s!"help: {help}\n".toList)

theorem render_eq_drawn {r : Report} {shown : List Char} {caret : Nat}
    (h : r.shown? = some (shown, caret)) : r.render.toList = r.drawn shown caret := by
  obtain ⟨line, hline, hwindow⟩ := Option.map_eq_some_iff.1 h
  have htext : ∀ s : String, toString s = s := fun _ => rfl
  have hunder : ∀ gutter note : List Char,
      trimEnd (gutter ++ ' ' :: '|' :: ' ' :: (List.replicate caret ' ' ++ '^' :: ' ' :: note)) =
        gutter ++ ' ' :: '|' :: ' ' :: (List.replicate caret ' ' ++ '^' :: trimEnd (' ' :: note)) := by
    intro gutter note
    simpa using trimEnd_append_stop (gutter ++ " | ".toList ++ List.replicate caret ' ') (c := '^')
      rfl (' ' :: note)
  rw [line?] at hline
  -- `simp` would first make equations for `render`, which takes far longer than the proof
  delta render excerpt drawn
  simp only [hline, hwindow]
  generalize toString (Location.ofOffset r.source r.position).line = number
  generalize toString (Location.ofOffset r.source r.position).column = column
  cases r.help <;> simp [hunder, htext, String.length_toList]

/-- A report that shows a line is drawn with the caret in its column, and nothing on the way there
can fail. Its position is in that line. If it is on a character, the caret stands under that
character, or under the first column of a tab; if it is on the end of the line, the caret stands
right behind what is shown. -/
theorem caret_points {r : Report} {shown : List Char} {caret : Nat}
    (h : r.shown? = some (shown, caret)) :
    r.render.toList = r.drawn shown caret ∧
    Checked.shown? r = some (some (shown, caret)) ∧
    (∃ (l : Line r.source) (c : Option Char), l.At r.position c) ∧
    ∀ l : Line r.source,
      (∀ c, l.At r.position (some c) →
        r.line? = some l.content ∧ shown[caret]? = some (shownAs c)) ∧
      (l.At r.position none → r.line? = some l.content ∧ caret = shown.length) := by
  obtain ⟨line, hline, -⟩ := Option.map_eq_some_iff.1 h
  refine ⟨render_eq_drawn h, by rw [Checked.shown?_eq, h], exists_at hline, fun l => ⟨?_, ?_⟩⟩
  · intro c hat
    obtain ⟨p, hcontent, hp, hchar⟩ := shown?_content hat
    cases h.symm.trans hp
    exact ⟨hcontent, hchar⟩
  · intro hat
    obtain ⟨p, hcontent, hp, hend⟩ := shown?_ending hat
    cases h.symm.trans hp
    exact ⟨hcontent, hend⟩

/-- A character behind a tab, in a line of which neither end is shown. -/
theorem caret_points_long : ∃ (r : Report) (shown : List Char),
    r.source = "é\r\n".toList ++ ('\t' :: List.replicate 90 'x' ++ '<' :: List.replicate 50 'y' ++
      "\r\n".toList) ∧ r.position = 95 ∧
    shown = "...".toList ++ List.replicate 40 'x' ++ '<' :: List.replicate 39 'y' ++
      "...".toList ∧
    r.shown? = some (shown, 43) ∧ Checked.shown? r = some (some (shown, 43)) ∧
    shown[43]? = some (shownAs '<') := by
  let content := '\t' :: List.replicate 90 'x' ++ '<' :: List.replicate 50 'y'
  let r : Report :=
    { message := "", source := "é\r\n".toList ++ (content ++ "\r\n".toList), position := 95 }
  let shown := "...".toList ++ List.replicate 40 'x' ++ '<' :: List.replicate 39 'y' ++ "...".toList
  have hshown : r.shown? = some (shown, 43) := by decide +kernel
  obtain ⟨-, hchecked, -, hpoints⟩ := caret_points hshown
  let l : Line r.source :=
    { before := "é\r\n".toList, content, ending := "\r\n".toList, after := []
      source_eq := by decide +kernel, begins := .inr ⟨['é', '\r'], by decide⟩
      flat := by decide +kernel, ends := .inl (by decide) }
  have hat : l.At r.position (some '<') := by
    refine .content (u := '\t' :: List.replicate 90 'x') rfl ?_
    have hfront : takeBytes 95 r.source = l.before ++ '\t' :: List.replicate 90 'x' := by
      decide +kernel
    rw [← hfront]
    exact isFloor_takeBytes r.source 95
  exact ⟨r, shown, rfl, rfl, rfl, hshown, hchecked, ((hpoints l).1 '<' hat).2⟩

end Report

end InlineMarkup
