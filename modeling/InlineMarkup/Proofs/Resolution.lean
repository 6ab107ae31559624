import InlineMarkup.Proofs.Location
import Mathlib.Data.Prod.Lex
import Mathlib.Data.Set.Function
import Mathlib.Order.Bounds.Basic

/-!
Offsets resolved to lines and columns, and back. A location is counted from the text before an
offset, a mark is looked up from the front of the text; both name the greatest character boundary up
to the offset (`offset_of_location`). Locations come in the order of their offsets, and no two
boundaries have the same one.
-/

set_option autoImplicit false

namespace InlineMarkup

open InlineMarkup.Text

theorem byteLength_takeBytes_le (n : Nat) (s : List Char) : byteLength (takeBytes n s) ≤ n := by
  induction s generalizing n with
  | nil => simp [takeBytes]
  | cons c s ih =>
    rw [takeBytes]
    split
    · have := ih (n - c.utf8Size)
      rw [byteLength_cons]
      omega
    · simp

theorem takeBytes_mono {m n : Nat} (h : m ≤ n) (s : List Char) :
    takeBytes m s <+: takeBytes n s := by
  have hle := (byteLength_takeBytes_le m s).trans h
  have hlonger := takeBytes_append_of_le hle (dropBytes m s)
  rw [takeBytes_append_dropBytes] at hlonger
  exact ⟨_, hlonger.symm⟩

/-- The greatest boundary that is neither past an offset nor past the end. -/
def IsFloor (source : List Char) (offset floor : Nat) : Prop :=
  IsGreatest {b | IsBoundary source b ∧ b ≤ min offset (byteLength source)} floor

theorem isFloor_takeBytes (source : List Char) (offset : Nat) :
    IsFloor source offset (byteLength (takeBytes offset source)) := by
  have hboundary : IsBoundary source (byteLength (takeBytes offset source)) :=
    ⟨_, _, (takeBytes_append_dropBytes offset source).symm, rfl⟩
  refine ⟨⟨hboundary, le_min (byteLength_takeBytes_le offset source) hboundary.le⟩, ?_⟩
  rintro b ⟨⟨before, after, rfl, rfl⟩, hle⟩
  rw [takeBytes_append_of_le (hle.trans (min_le_left _ _)), byteLength_append]
  exact Nat.le_add_right _ _

/-- Places are ordered by line, and by column within a line. -/
def Text.Mark.place (m : Mark) : Nat ×ₗ Nat :=
  toLex (m.line, m.column)

def Text.Location.place (l : Location) : Nat ×ₗ Nat :=
  toLex (l.line, l.column)

theorem Text.Mark.place_lt_after (m : Mark) (c : Char) : m.place < (m.after c).place := by
  rw [Mark.place, Mark.place, Prod.Lex.toLex_lt_toLex, Mark.after]
  split <;> simp

theorem Text.Mark.place_le_foldl (m : Mark) (s : List Char) :
    m.place ≤ (s.foldl Mark.after m).place := by
  induction s generalizing m with
  | nil => exact le_rfl
  | cons c s ih => exact (m.place_lt_after c).le.trans (ih (m.after c))

theorem markAfter_place_lt (s : List Char) {t : List Char} (h : t ≠ []) :
    (markAfter s).place < (markAfter (s ++ t)).place := by
  obtain ⟨c, t, rfl⟩ := List.exists_cons_of_ne_nil h
  rw [← foldl_after_eq, ← foldl_after_eq, List.foldl_append, List.foldl_cons]
  exact (Mark.place_lt_after _ c).trans_le (Mark.place_le_foldl _ t)

theorem ofOffset_eq (source : List Char) (offset : Nat) :
    Location.ofOffset source offset =
      ⟨(markAfter (takeBytes offset source)).line,
        (markAfter (takeBytes offset source)).column + 1⟩ :=
  rfl

theorem ofOffset_place_lt_iff (source : List Char) (a b : Nat) :
    (Location.ofOffset source a).place < (Location.ofOffset source b).place ↔
      (markAfter (takeBytes a source)).place < (markAfter (takeBytes b source)).place := by
  simp only [ofOffset_eq, Location.place, Mark.place, Prod.Lex.toLex_lt_toLex]
  omega

theorem ofOffset_place_lt {source : List Char} {a b : Nat}
    (h : takeBytes a source <+: takeBytes b source)
    (hne : takeBytes a source ≠ takeBytes b source) :
    (Location.ofOffset source a).place < (Location.ofOffset source b).place := by
  rw [ofOffset_place_lt_iff]
  obtain ⟨t, ht⟩ := h
  rw [← ht]
  refine markAfter_place_lt _ ?_
  rintro rfl
  exact hne (by rw [← ht, List.append_nil])

theorem ofOffset_monotone (source : List Char) :
    Monotone fun offset => (Location.ofOffset source offset).place := by
  intro a b hab
  by_cases hsame : takeBytes a source = takeBytes b source
  · simp only [ofOffset_eq, hsame, le_rfl]
  · exact (ofOffset_place_lt (takeBytes_mono hab source) hsame).le

theorem takeBytes_byteLength {source : List Char} {b : Nat} (h : IsBoundary source b) :
    byteLength (takeBytes b source) = b := by
  obtain ⟨before, after, rfl, rfl⟩ := h
  rw [takeBytes_append]

theorem ofOffset_strictMonoOn (source : List Char) :
    StrictMonoOn (fun offset => (Location.ofOffset source offset).place)
      {b | IsBoundary source b} := by
  intro a ha b hb hab
  refine ofOffset_place_lt (takeBytes_mono hab.le source) fun hsame => ?_
  have hlength := congrArg byteLength hsame
  rw [takeBytes_byteLength ha, takeBytes_byteLength hb] at hlength
  omega

theorem lastLine_of_not_mem {s : List Char} (h : '\n' ∉ s) : lastLine s = s := by
  have hall : ∀ c ∈ s.reverse, (c != '\n') = true := by
    intro c hc
    have : c ≠ '\n' := ne_of_mem_of_not_mem (List.mem_reverse.1 hc) h
    simpa using this
  rw [lastLine, List.takeWhile_eq_self_iff.2 hall, List.reverse_reverse]

theorem lastLine_cons_of_mem (c : Char) {s : List Char} (h : '\n' ∈ s) :
    lastLine (c :: s) = lastLine s := by
  have hstop : ¬ (s.reverse.takeWhile (· != '\n')).length = s.reverse.length := fun hlength => by
    have hall := List.takeWhile_eq_self_iff.1 (List.takeWhile_prefix _ |>.eq_of_length hlength)
    simpa using hall '\n' (List.mem_reverse.2 h)
  rw [lastLine, lastLine, List.reverse_cons, List.takeWhile_append, if_neg hstop]

/-- A byte order mark is one more column on the first line and nothing on those behind it. -/
theorem markAfter_byteOrderMark (s : List Char) :
    (markAfter (byteOrderMark :: s)).line = (markAfter s).line ∧
      (markAfter (byteOrderMark :: s)).column =
        (markAfter s).column + if (markAfter s).line = 1 then 1 else 0 := by
  have hcount : (byteOrderMark :: s).count '\n' = s.count '\n' :=
    List.count_cons_of_ne (by decide)
  refine ⟨congrArg (· + 1) hcount, ?_⟩
  by_cases h : '\n' ∈ s
  · have hline : (markAfter s).line ≠ 1 :=
      Nat.succ_ne_succ_iff.2 (List.count_pos_iff.2 h).ne'
    rw [if_neg hline]
    exact congrArg List.length (lastLine_cons_of_mem byteOrderMark h)
  · have hmem : '\n' ∉ byteOrderMark :: s := by simp [h, byteOrderMark]
    have hline : (markAfter s).line = 1 := congrArg (· + 1) (List.count_eq_zero_of_not_mem h)
    rw [if_pos hline]
    simp only [markAfter, lastLine_of_not_mem hmem, lastLine_of_not_mem h, List.length_cons]

theorem isFloor_markAfter (front : List Char) {source u : List Char} {offset : Nat}
    (hsource : source = front ++ dropByteOrderMark source)
    (hpart : u <+: dropByteOrderMark source) (htake : takeBytes offset source = front ++ u) :
    IsFloor source offset ((markAfter u).offset source) := by
  obtain ⟨rest, hrest⟩ := hpart
  have hlength : (markAfter u).offset source = byteLength (front ++ u) := by
    have hwhole := congrArg byteLength hsource
    rw [← hrest] at hwhole
    rw [offset_markAfter hrest.symm, hwhole]
    simp only [byteLength_append]
    omega
  rw [hlength, ← htake]
  exact isFloor_takeBytes source offset

/-- The location of an offset, read as a mark, has the offset of the greatest boundary up to there:
columns are one more than in marks, and two more on the first line if a byte order mark begins it.
Locations come in the order of the offsets, and boundaries have locations of their own. -/
theorem offset_of_location (source : List Char) :
    (source.head? ≠ some byteOrderMark → ∀ offset, ∃ column,
      (Location.ofOffset source offset).column = column + 1 ∧
      IsFloor source offset
        (Mark.offset source ⟨(Location.ofOffset source offset).line, column⟩)) ∧
    (source.head? = some byteOrderMark → ∀ offset, 3 ≤ offset → ∃ column,
      (Location.ofOffset source offset).column =
        column + (if (Location.ofOffset source offset).line = 1 then 2 else 1) ∧
      IsFloor source offset
        (Mark.offset source ⟨(Location.ofOffset source offset).line, column⟩)) ∧
    Monotone (fun offset => (Location.ofOffset source offset).place) ∧
    Set.InjOn (Location.ofOffset source) {b | IsBoundary source b} := by
  refine ⟨fun hhead offset => ?_, fun hhead offset hoffset => ?_, ofOffset_monotone source, ?_⟩
  · have hdrop : dropByteOrderMark source = source := by
      cases source with
      | nil => rfl
      | cons c s => rw [dropByteOrderMark, if_neg (by simpa using hhead)]
    refine ⟨(markAfter (takeBytes offset source)).column, rfl, ?_⟩
    refine isFloor_markAfter [] (by rw [hdrop, List.nil_append]) ?_ rfl
    rw [hdrop]
    exact ⟨_, takeBytes_append_dropBytes offset source⟩
  · obtain ⟨s, rfl⟩ := List.head?_eq_some_iff.1 hhead
    have hdrop : dropByteOrderMark (byteOrderMark :: s) = s := by
      rw [dropByteOrderMark, if_pos rfl]
    -- the mark takes three bytes, and offsets inside of it are left out
    have htake : takeBytes offset (byteOrderMark :: s) =
        byteOrderMark :: takeBytes (offset - 3) s :=
      takeBytes_append_of_le (s := [byteOrderMark]) hoffset s
    obtain ⟨hline, hcolumn⟩ := markAfter_byteOrderMark (takeBytes (offset - 3) s)
    rw [ofOffset_eq, htake]
    simp only [hline, hcolumn]
    refine ⟨(markAfter (takeBytes (offset - 3) s)).column, by split <;> rfl, ?_⟩
    refine isFloor_markAfter [byteOrderMark] (by rw [hdrop, List.singleton_append]) ?_ htake
    rw [hdrop]
    exact ⟨_, takeBytes_append_dropBytes (offset - 3) s⟩
  · exact Set.InjOn.of_comp (g := Location.place) (ofOffset_strictMonoOn source).injOn

/-- An offset inside a character behind a byte order mark, and one past the end of a text without
one. -/
theorem offset_of_location_inside :
    Location.ofOffset "\ufeffé\nab".toList 4 = ⟨1, 2⟩ ∧ IsFloor "\ufeffé\nab".toList 4 3 ∧
      Location.ofOffset "é\nab".toList 9 = ⟨2, 3⟩ ∧ IsFloor "é\nab".toList 9 5 := by
  have hmarked : Location.ofOffset "\ufeffé\nab".toList 4 = ⟨1, 2⟩ := by decide
  have hplain : Location.ofOffset "é\nab".toList 9 = ⟨2, 3⟩ := by decide
  refine ⟨hmarked, ?_, hplain, ?_⟩
  · obtain ⟨column, hcolumn, hfloor⟩ :=
      (offset_of_location "\ufeffé\nab".toList).2.1 (by decide) 4 (by decide)
    rw [hmarked] at hcolumn hfloor
    obtain rfl : column = 0 := by simpa using hcolumn.symm
    exact hfloor
  · obtain ⟨column, hcolumn, hfloor⟩ := (offset_of_location "é\nab".toList).1 (by decide) 9
    rw [hplain] at hcolumn hfloor
    obtain rfl : column = 2 := by simpa using hcolumn.symm
    exact hfloor

end InlineMarkup
