import InlineMarkup.Compile
import InlineMarkup.Proofs.Generated.Translation
import InlineMarkup.Proofs.Markup.Fault
import InlineMarkup.Proofs.Reconcile.Outcome
import InlineMarkup.Proofs.Region.Rescan
import InlineMarkup.Proofs.Region.Unfinished

/-!
Where the errors of a compilation are. Every stage counts from its own beginning: the scan from that
of the source, markup from that of a region, segments from that of a value. What is reported in the
end is a place in the source (`compile_error_located`): the end of a source with an unfinished
literal, a place in markup that could not be read, or the beginning of a region.
-/

set_option autoImplicit false

namespace InlineMarkup

open InlineMarkup.Text InlineMarkup.Markup InlineMarkup.Scan

def Error.openedAt? : Error → Option Nat
  | .lexical e => e.openedAt
  | _ => none

/-- What a region holds, or where it stands, is refused. -/
def Error.IsOfRegion : Error → Prop
  | .lexical _ => True
  | .generation _ => True
  | .placement e => e.fault = .unplacedRegion
  | _ => False

/-- How an error of a compilation came about, and where it is. -/
inductive Located (config : Config) (source : List Char) : Error → Prop where
  /-- The scan has found a literal that is not ended. -/
  | literal {ps : List Piece} {s : State} {e : LexicalError} :
    extract config source = .error (.lexical e) → Reaches source ps s →
    source = s.behind.reverse ++ s.rest → Unfinished s.behind s.rest →
    e.openedAt = some (byteLength s.behind) → byteLength s.behind < e.position →
    e.position = byteLength source → Located config source (.lexical e)
  /-- The scan has come to markup that cannot be read. -/
  | markup {ps : List Piece} {s : State} {after : List Char} {fault e : Markup.Error} :
    extract config source = .error (.markup e) → Reaches source ps s →
    source = s.behind.reverse ++ s.rest → s.rest = '<' :: after →
    capture s.rest = .error fault →
    e = (withPathHint s.rest fault).shift (byteLength s.behind) →
    byteLength s.behind ≤ e.position → IsBoundary source e.position →
    Located config source (.markup e)
  | region {scanned : Scanned} {r : Region} {e : Error} :
    extract config source = .ok scanned → r ∈ scanned.table.regions → e.IsOfRegion →
    e.position? = some r.offset → e.openedAt? = none → IsBoundary source r.offset →
    ['<'] <+: dropBytes r.offset source → Located config source e
  /-- The file or its placeholder calls are not as they must be. -/
  | nowhere {scanned : Scanned} {e : Error} :
    extract config source = .ok scanned → ¬e.IsOfRegion → e.position? = none →
    Located config source e

section Scan

variable {source : List Char} {s : State} {e : Error}

theorem exists_failure {fuel : Nat} (hfuel : s.rest.length < fuel)
    (h : Scan.readFrom source fuel s = .error e) : ∃ ps t, Runs s ps t ∧
      (finish source t.place = .error e ∨
        ∃ c after, t.rest = c :: after ∧ step t c after = .error e) := by
  induction fuel generalizing s with
  | zero => omega
  | succ fuel ih =>
    cases hrest : s.rest with
    | nil =>
      simp only [Scan.readFrom, hrest] at h
      exact ⟨[], s, .done s, .inl h⟩
    | cons c after =>
      cases hstep : step s c after with
      | error err =>
        rw [readFrom_step_error fuel hrest hstep] at h
        cases h
        exact ⟨[], s, .done s, .inr ⟨c, after, hrest, hstep⟩⟩
      | ok p =>
        have hlt := length_lt_of_step hrest hstep
        rw [readFrom_step fuel hrest hstep] at h
        obtain ⟨ps, t, hruns, ht⟩ := ih (by omega) (map_eq_error.1 h)
        exact ⟨p.1 :: ps, t, .step hrest hstep hruns, ht⟩

theorem finish_eq_error {place : Place} (h : finish source place = .error e) :
    ∃ le, e = .lexical le ∧ le.position = byteLength source := by
  cases place with
  | quoted quote openedAt =>
    cases h
    exact ⟨_, rfl, rfl⟩
  | raw hashes openedAt =>
    cases h
    exact ⟨_, rfl, rfl⟩
  | code => cases h
  | lineComment => cases h
  | blockComment => cases h

theorem Scan.Runs.source_eq {ps : List Piece} (h : Runs (start source) ps s) :
    source = s.behind.reverse ++ s.rest := by
  obtain ⟨hrest, hbehind⟩ := h.rest_eq
  simpa [hbehind, start] using hrest

theorem located_of_lexical {config : Config} {le : LexicalError}
    (h : extract config source = .error (.lexical le)) :
    Located config source (.lexical le) := by
  have hread := h
  rw [extract, scan_eq_map, map_eq_error] at hread
  -- only the end of the source gives a lexical error, so it is reported there
  have hposition : le.position = byteLength source := by
    obtain ⟨ps, t, -, hfinish | ⟨c, after, -, hstep⟩⟩ := exists_failure (Nat.lt_succ_self _) hread
    · obtain ⟨le', hle, hposition⟩ := finish_eq_error hfinish
      cases hle
      exact hposition
    · exact absurd hstep step_ne_lexical
  obtain ⟨o, hopened, hdangles | ⟨ps, t, hruns, hplace, ht, rfl⟩⟩ :=
    exists_unfinished_of_lexical (Nat.lt_succ_self _) hread
  · cases hdangles
  · have hsource := hruns.source_eq
    refine .literal h ⟨hruns, hplace⟩ hsource ht hopened ?_ hposition
    obtain ⟨c, after, hrest, -⟩ := ht.head_ne
    have hpos := c.utf8Size_pos
    rw [hposition, hsource, hrest]
    simp only [byteLength_append, byteLength_reverse, byteLength_cons]
    omega

theorem position_withPathHint (s : List Char) (e : Markup.Error) :
    (withPathHint s e).position = e.position := by
  unfold withPathHint
  split <;> rfl

theorem located_of_extract {config : Config} (h : extract config source = .error e) :
    Located config source e := by
  have hread := h
  rw [extract, scan_eq_map, map_eq_error] at hread
  obtain ⟨ps, t, hruns, hfinish | ⟨c, after, hrest, hstep⟩⟩ :=
    exists_failure (Nat.lt_succ_self _) hread
  · obtain ⟨le, rfl, -⟩ := finish_eq_error hfinish
    exact located_of_lexical h
  · obtain ⟨hoffers, me, hcapture, rfl⟩ := step_eq_error hstep
    have hsource := hruns.source_eq
    have hposition : ((withPathHint t.rest me).shift t.offset).position =
        me.position + byteLength t.behind := by
      rw [Markup.Error.shift, position_withPathHint, State.offset]
    refine .markup h ⟨hruns, hoffers.place_eq⟩ hsource (hoffers.char_eq ▸ hrest) hcapture rfl
      (by omega) ?_
    have hboundary := (capture_fault hcapture).append t.behind.reverse
    rwa [← hsource, byteLength_reverse, ← hposition] at hboundary

end Scan

theorem exists_split_of_mem_regionsOf {ps : List Piece} {r : Region} (h : r ∈ regionsOf ps) :
    ∃ qs rs, ps = qs ++ .region r :: rs := by
  induction ps with
  | nil => cases h
  | cons p ps ih =>
    cases p with
    | kept text =>
      obtain ⟨qs, rs, rfl⟩ := ih h
      exact ⟨.kept text :: qs, rs, rfl⟩
    | region q =>
      rcases List.mem_cons.1 h with rfl | h
      · exact ⟨[], ps, rfl⟩
      · obtain ⟨qs, rs, rfl⟩ := ih h
        exact ⟨.region q :: qs, rs, rfl⟩

theorem region_stands {config : Config} {source : List Char} {scanned : Scanned} {r : Region}
    (h : extract config source = .ok scanned) (hr : r ∈ scanned.table.regions) :
    IsBoundary source r.offset ∧ ['<'] <+: dropBytes r.offset source := by
  obtain ⟨ps, hps, rfl⟩ := scan_eq_ok h
  obtain ⟨qs, rs, rfl⟩ := exists_split_of_mem_regionsOf hr
  obtain ⟨last, hruns, -⟩ := exists_run hps
  obtain ⟨hoffset, rest, hsource⟩ := hruns.region_lies
  obtain ⟨m, next, c, after, -, hrest, hstep⟩ := hruns.split
  obtain ⟨l, x, htext, -⟩ := text_of_region hrest hstep
  refine ⟨⟨_, _, hsource, hoffset⟩, ?_⟩
  rw [hoffset, hsource, dropBytes_append, htext]
  exact ⟨_, rfl⟩

namespace Generated

/-- Errors that do not know their region yet. -/
inductive Unplaced : Error → Prop where
  | lexical {e : LexicalError} : Unplaced (.lexical e)
  | generation {e : GenerationError} : e.position = none → Unplaced (.generation e)

theorem unplaced_of_codeFault {code : List Char} {e : Error} (h : codeFault? code = some e) :
    Unplaced e := by
  unfold codeFault? at h
  split at h
  · cases h
  · cases h
    exact .generation rfl

theorem unplaced_of_segmentFault {segment : Segment} {e : Error}
    (h : segmentFault? segment = some e) : Unplaced e := by
  cases segment with
  | literal text => cases h
  | embedded code modifier => exact unplaced_of_codeFault h

theorem unplaced_of_fault {v : Value} {e : Error} (h : v.fault? = some e) : Unplaced e := by
  cases v with
  | text content =>
    simp only [Value.fault?] at h
    split at h
    · cases h
      exact .lexical
    · obtain ⟨segment, -, hsegment⟩ := List.exists_of_findSome?_eq_some h
      exact unplaced_of_segmentFault hsegment
  | single context value =>
    simp only [Value.fault?] at h
    split at h
    · cases h
      exact .lexical
    · exact unplaced_of_segmentFault h
    · cases h
      exact .generation rfl
  | spread context value =>
    simp only [Value.fault?] at h
    split at h
    · cases h
      exact .lexical
    · exact unplaced_of_codeFault h
    · cases h
      exact .generation rfl
  | handler value => exact unplaced_of_codeFault h

theorem unplaced_of_ofElement {config : Config} {element : Element} {e : Error}
    (h : ofElement config element = .error e) : Unplaced e := by
  have hfailure := failure?_ofElement config element
  rw [h] at hfailure
  obtain ⟨v, -, hv⟩ := List.exists_of_findSome?_eq_some hfailure.symm
  exact unplaced_of_fault hv

end Generated

theorem Generated.Unplaced.locatedAt {e : Error} (h : Unplaced e) (offset : Nat) :
    (e.locatedAt offset).IsOfRegion ∧ (e.locatedAt offset).position? = some offset ∧
      (e.locatedAt offset).openedAt? = none := by
  cases h with
  | lexical => exact ⟨trivial, rfl, rfl⟩
  | generation h =>
    refine ⟨trivial, ?_, rfl⟩
    simp [Error.locatedAt, GenerationError.locatedAt, Error.position?, h]

theorem exists_of_firstFailure {config : Config} {regions : List Region} {e : Error}
    (h : FirstFailure config regions e) : ∃ r ∈ regions, ∃ e',
      Generated.ofElement config r.root = .error e' ∧ e = e'.locatedAt r.offset := by
  induction h with
  | here hr => exact ⟨_, List.mem_cons_self, _, hr, rfl⟩
  | later _ _ ih =>
    obtain ⟨r, hr, he⟩ := ih
    exact ⟨r, List.mem_cons_of_mem _ hr, he⟩

theorem position_of_firstOffence {table : RegionTable} {earlier found : List Host.Tree}
    {e : PlacementError} (h : FirstOffence table earlier found e) :
    e.position = none ∧ e.fault ≠ .unplacedRegion := by
  induction h with
  | here h => cases h <;> exact ⟨rfl, nofun⟩
  | later _ _ ih => exact ih

theorem mem_of_get? {table : RegionTable} {id : Nat} {r : Region} (h : table.get? id = some r) :
    r ∈ table.regions := by
  cases id with
  | zero => cases h
  | succ n => exact List.mem_of_getElem? h

theorem located_of_reconcile {config : Config} {source : List Char} {scanned : Scanned} {e : Error}
    (hscan : extract config source = .ok scanned) (h : reconcile config scanned = .error e) :
    Located config source e := by
  cases hfile : Host.parseFile scanned.source with
  | error refusal =>
    simp only [reconcile, hfile, Except.mapError, bind, Except.bind] at h
    cases h
    exact .nowhere hscan id rfl
  | ok file =>
    cases (reconcile_eq_error_iff hfile).1 h with
    | generation hfirst =>
      obtain ⟨r, hr, e', herror, rfl⟩ := exists_of_firstFailure hfirst
      obtain ⟨hboundary, hangle⟩ := region_stands hscan hr
      obtain ⟨hregion, hposition, hopened⟩ :=
        (Generated.unplaced_of_ofElement herror).locatedAt r.offset
      exact .region hscan hr hregion hposition hopened hboundary hangle
    | call _ hfirst =>
      obtain ⟨hposition, hfault⟩ := position_of_firstOffence hfirst
      exact .nowhere hscan hfault hposition
    | unplaced _ _ hunplaced =>
      have hr := mem_of_get? hunplaced.region
      obtain ⟨hboundary, hangle⟩ := region_stands hscan hr
      exact .region hscan hr rfl rfl rfl hboundary hangle

theorem Located.isBoundary {config : Config} {source : List Char} {e : Error} {position : Nat}
    (h : Located config source e) (hposition : e.position? = some position) :
    IsBoundary source position := by
  cases h with
  | literal _ _ _ _ _ _ hend =>
    cases hposition
    rw [hend]
    exact isBoundary_byteLength source
  | markup _ _ _ _ _ _ _ hboundary =>
    cases hposition
    exact hboundary
  | region _ _ _ hregion _ hboundary =>
    rw [hregion] at hposition
    cases hposition
    exact hboundary
  | nowhere _ _ hnone =>
    rw [hnone] at hposition
    cases hposition

/-- Every error of a compilation is at a place of the source or has no position. -/
theorem compile_error_located {config : Config} {source : List Char} {e : Error}
    (h : compile config source = .error e) :
    Located config source e ∧ ∀ position, e.position? = some position →
      position ≤ byteLength source ∧ IsBoundary source position := by
  have hlocated : Located config source e := by
    cases hscan : extract config source with
    | error err =>
      rw [compile, hscan] at h
      cases h
      exact located_of_extract hscan
    | ok scanned =>
      rw [compile, hscan] at h
      exact located_of_reconcile hscan h
  exact ⟨hlocated, fun position hposition =>
    ⟨(hlocated.isBoundary hposition).le, hlocated.isBoundary hposition⟩⟩

theorem compile_error_located_text : ∃ e,
    compile {} "const C: T = g(\"é\", <p>a\x7d</p>);".toList = .error e ∧ e.position? = some 21 ∧
      Located {} "const C: T = g(\"é\", <p>a\x7d</p>);".toList e ∧
      IsBoundary "const C: T = g(\"é\", <p>a\x7d</p>);".toList 21 := by
  have hcompile : compile {} "const C: T = g(\"é\", <p>a\x7d</p>);".toList = .error (.lexical
      { fault := .unexpectedCloseBrace, position := 21, snippet := "a\x7d" }) :=
    Generated.failure?_eq_some_iff.1 (by decide +kernel)
  obtain ⟨hlocated, hposition⟩ := compile_error_located hcompile
  exact ⟨_, hcompile, rfl, hlocated, (hposition 21 rfl).2⟩

end InlineMarkup
