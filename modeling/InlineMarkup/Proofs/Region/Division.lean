import InlineMarkup.Proofs.Markup.Locality
import InlineMarkup.Proofs.Region.Step

/-!
A scan divides its source into gaps and regions. The annotated source has the same gaps, with a
placeholder call in the place of each region.
-/

set_option autoImplicit false

namespace InlineMarkup

open InlineMarkup.Text InlineMarkup.Markup

/-- Gaps with something between them for each region, whose ids are counted on from `id`. -/
def weave (f : Nat → Region → List Char) : Nat → List (List Char × Region) → List Char → List Char
  | _, [], last => last
  | id, (gap, r) :: parts, last => gap ++ (f id r ++ weave f (id + 1) parts last)

theorem weave_append (f : Nat → Region → List Char) (id : Nat)
    (before after : List (List Char × Region)) (gap last : List Char) (r : Region) :
    weave f id (before ++ (gap, r) :: after) last =
      weave f id before gap ++
        (f (id + before.length) r ++ weave f (id + before.length + 1) after last) := by
  induction before generalizing id with
  | nil => simp [weave]
  | cons part before ih =>
    obtain ⟨g, q⟩ := part
    simp only [List.cons_append, weave, ih (id + 1), List.length_cons, List.append_assoc]
    congr 5 <;> omega

def written : Nat → Region → List Char := fun _ r => r.text

def called (placeholder : Host.Path) : Nat → Region → List Char :=
  fun id r => placeholderCall placeholder id r.text

/-- `parts` are the regions of a scanned source with the gaps before them; `last` comes after the
last region. -/
structure Divides (placeholder : Host.Path) (source : List Char) (scanned : Scanned)
    (parts : List (List Char × Region)) (last : List Char) : Prop where
  source_eq : source = weave written 1 parts last
  annotated_eq : scanned.source = weave (called placeholder) 1 parts last
  regions_eq : scanned.table.regions = parts.map Prod.snd
  offset_eq : ∀ before gap r after, parts = before ++ (gap, r) :: after →
    r.offset = byteLength (weave written 1 before gap)
  captured : ∀ part ∈ parts,
    part.2.text ≠ [] ∧ capture part.2.text = .ok (some ⟨part.2.root, part.2.text⟩)

namespace Scan

/-- What a step takes from the text, and that a region is what its text alone is read as. -/
structure Takes (s : State) (piece : Piece) (next : State) : Prop where
  rest_eq : s.rest = piece.text ++ next.rest
  nonempty : piece.text ≠ []
  behind_eq : next.behind = piece.text.reverse ++ s.behind
  region : ∀ r, piece = .region r →
    r.offset = byteLength s.behind ∧ capture r.text = .ok (some ⟨r.root, r.text⟩)

theorem Rule.takes {s : State} {c : Char} {after : List Char} {n : Nat} {place : Place}
    {context : Context} (h : Rule s c after n place context) (hs : s.rest ≠ []) :
    Takes s (.kept (s.rest.take n)) (s.past n place context) where
  rest_eq := (List.take_append_drop n s.rest).symm
  nonempty := by
    have hn : n ≠ 0 := by cases h <;> simp
    simp [Piece.text, hn, hs]
  behind_eq := rfl
  region := nofun

theorem takes_of_capture {s : State} {captured : Captured} (place : Place) (context : Context)
    (h : capture s.rest = .ok (some captured)) :
    Takes s (.region ⟨s.offset, captured.text, captured.root⟩)
      (s.past captured.text.length place context) := by
  obtain ⟨hne, ⟨rest, hrest⟩, hlocal⟩ := capture_local h
  refine ⟨?_, hne, ?_, ?_⟩
  · simp [Piece.text, State.past, hrest]
  · simp [Piece.text, State.past, hrest]
  · intro r hr
    cases hr
    have halone := hlocal []
    rw [List.append_nil] at halone
    exact ⟨rfl, halone⟩

theorem step_takes {s next : State} {piece : Piece} {c : Char} {after : List Char}
    (hs : s.rest ≠ []) (h : step s c after = .ok (piece, next)) : Takes s piece next := by
  rcases step_eq_ok h with ⟨n, place, context, hrule, rfl, rfl⟩ | ⟨captured, -, hcapture, rfl, rfl⟩
  · exact hrule.takes hs
  · exact takes_of_capture _ _ hcapture

def LieFrom : Nat → List Piece → Prop
  | _, [] => True
  | offset, .kept text :: ps => LieFrom (offset + byteLength text) ps
  | offset, .region r :: ps =>
    r.offset = offset ∧ r.text ≠ [] ∧ capture r.text = .ok (some ⟨r.root, r.text⟩) ∧
      LieFrom (offset + byteLength r.text) ps

theorem byteLength_reverse (s : List Char) : byteLength s.reverse = byteLength s := by
  induction s with
  | nil => rfl
  | cons c s ih => simp [ih, Nat.add_comm]

theorem finish_eq_ok {source : List Char} {place : Place} {ps : List Piece}
    (h : finish source place = .ok ps) : ps = [] := by
  cases place <;> simp_all [finish]

theorem readFrom_lies {source : List Char} {fuel : Nat} {s : State} {ps : List Piece}
    (hfuel : s.rest.length < fuel) (h : readFrom source fuel s = .ok ps) :
    (ps.map Piece.text).flatten = s.rest ∧ LieFrom (byteLength s.behind) ps := by
  induction fuel generalizing s ps with
  | zero => omega
  | succ fuel ih =>
    simp only [readFrom] at h
    cases hrest : s.rest with
    | nil =>
      rw [hrest] at h
      simp [finish_eq_ok h, LieFrom]
    | cons c after =>
      rw [hrest] at h
      have hne : s.rest ≠ [] := by simp [hrest]
      obtain ⟨⟨piece, next⟩, hstep, h⟩ := bind_eq_ok.1 h
      obtain ⟨qs, hread, h⟩ := bind_eq_ok.1 h
      cases h
      have ht := step_takes hne hstep
      have hlen : next.rest.length < fuel := by
        have := congrArg List.length ht.rest_eq
        have := List.length_pos_iff.2 ht.nonempty
        simp only [List.length_append] at *
        omega
      obtain ⟨htext, hlie⟩ := ih hlen hread
      refine ⟨by simp [htext, ← ht.rest_eq, hrest], ?_⟩
      rw [ht.behind_eq, byteLength_append, byteLength_reverse, Nat.add_comm] at hlie
      cases piece with
      | kept text => exact hlie
      | region r =>
        obtain ⟨hoffset, hcapture⟩ := ht.region r rfl
        exact ⟨hoffset, ht.nonempty, hcapture, hlie⟩

/-- The regions among some pieces, each with the text kept before it, and the text kept last. -/
def partsOf : List Piece → List (List Char × Region) × List Char
  | [] => ([], [])
  | .kept text :: ps =>
    match partsOf ps with
    | ([], last) => ([], text ++ last)
    | ((gap, r) :: parts, last) => ((text ++ gap, r) :: parts, last)
  | .region r :: ps => (([], r) :: (partsOf ps).1, (partsOf ps).2)

theorem weave_partsOf_kept (f : Nat → Region → List Char) (id : Nat) (text : List Char)
    (ps : List Piece) :
    weave f id (partsOf (.kept text :: ps)).1 (partsOf (.kept text :: ps)).2 =
      text ++ weave f id (partsOf ps).1 (partsOf ps).2 := by
  rw [partsOf]
  rcases partsOf ps with ⟨_ | ⟨⟨gap, r⟩, parts⟩, last⟩
  · rfl
  · simp [weave]

theorem weave_written_partsOf (id : Nat) (ps : List Piece) :
    weave written id (partsOf ps).1 (partsOf ps).2 = (ps.map Piece.text).flatten := by
  induction ps generalizing id with
  | nil => rfl
  | cons p ps ih =>
    cases p with
    | kept text => simp [weave_partsOf_kept, ih, Piece.text]
    | region r => simp [partsOf, weave, written, ih, Piece.text]

theorem weave_called_partsOf (placeholder : Host.Path) (id : Nat) (ps : List Piece) :
    weave (called placeholder) id (partsOf ps).1 (partsOf ps).2 = annotateFrom placeholder id ps := by
  induction ps generalizing id with
  | nil => rfl
  | cons p ps ih =>
    cases p with
    | kept text => simp [weave_partsOf_kept, ih, annotateFrom]
    | region r => simp [partsOf, weave, called, ih, annotateFrom]

theorem map_snd_partsOf (ps : List Piece) : (partsOf ps).1.map Prod.snd = regionsOf ps := by
  induction ps with
  | nil => rfl
  | cons p ps ih =>
    cases p with
    | kept text =>
      rw [regionsOf, ← ih, partsOf]
      rcases partsOf ps with ⟨_ | ⟨⟨gap, r⟩, parts⟩, last⟩ <;> rfl
    | region r => simp [partsOf, regionsOf, ih]

/-- Regions that lie where the gaps before them say, from a byte offset on. -/
def PartsLieFrom : Nat → List (List Char × Region) → Prop
  | _, [] => True
  | offset, (gap, r) :: parts =>
    r.offset = offset + byteLength gap ∧ r.text ≠ [] ∧
      capture r.text = .ok (some ⟨r.root, r.text⟩) ∧
      PartsLieFrom (offset + byteLength gap + byteLength r.text) parts

theorem partsOf_lie {offset : Nat} {ps : List Piece} (h : LieFrom offset ps) :
    PartsLieFrom offset (partsOf ps).1 := by
  induction ps generalizing offset with
  | nil => trivial
  | cons p ps ih =>
    cases p with
    | kept text =>
      have hrest := ih h
      rw [partsOf]
      revert hrest
      rcases partsOf ps with ⟨_ | ⟨⟨gap, r⟩, parts⟩, last⟩
      · exact id
      · simp only [PartsLieFrom, byteLength_append, Nat.add_assoc]
        exact id
    | region r =>
      obtain ⟨hoffset, hne, hcapture, hlie⟩ := h
      exact ⟨hoffset, hne, hcapture, ih hlie⟩

theorem PartsLieFrom.offset_eq {offset : Nat} (id : Nat) {before after : List (List Char × Region)}
    {gap : List Char} {r : Region} (h : PartsLieFrom offset (before ++ (gap, r) :: after)) :
    r.offset = offset + byteLength (weave written id before gap) := by
  induction before generalizing offset id with
  | nil => exact h.1
  | cons part before ih =>
    obtain ⟨g, q⟩ := part
    rw [ih (id + 1) h.2.2.2]
    simp only [weave, written, byteLength_append]
    omega

theorem PartsLieFrom.captured {offset : Nat} {parts : List (List Char × Region)}
    (h : PartsLieFrom offset parts) : ∀ part ∈ parts,
      part.2.text ≠ [] ∧ capture part.2.text = .ok (some ⟨part.2.root, part.2.text⟩) := by
  induction parts generalizing offset with
  | nil => simp
  | cons part parts ih =>
    obtain ⟨gap, r⟩ := part
    obtain ⟨-, hne, hcapture, hlie⟩ := h
    intro p hp
    rcases List.mem_cons.1 hp with rfl | hp
    · exact ⟨hne, hcapture⟩
    · exact ih hlie p hp

theorem partsOf_divides {source : List Char} {ps : List Piece} (placeholder : Host.Path)
    (h : pieces source = .ok ps) :
    Divides placeholder source ⟨annotateFrom placeholder 1 ps, ⟨regionsOf ps⟩⟩ (partsOf ps).1
      (partsOf ps).2 := by
  obtain ⟨htext, hlie⟩ := readFrom_lies (by simp) h
  have hparts := partsOf_lie hlie
  refine ⟨?_, (weave_called_partsOf placeholder 1 ps).symm, (map_snd_partsOf ps).symm, ?_,
    hparts.captured⟩
  · rw [weave_written_partsOf, htext]
  · intro before gap r after hsplit
    rw [hsplit] at hparts
    rw [hparts.offset_eq 1]
    simp

end Scan

theorem scan_eq_ok {placeholder : Host.Path} {source : List Char} {scanned : Scanned}
    (h : scan placeholder source = .ok scanned) :
    ∃ ps, Scan.pieces source = .ok ps ∧
      scanned = ⟨annotateFrom placeholder 1 ps, ⟨regionsOf ps⟩⟩ := by
  obtain ⟨ps, hps, h⟩ := bind_eq_ok.1 h
  exact ⟨ps, hps, (Except.ok.inj h).symm⟩

/-- A scan keeps the gaps between the regions and puts the call of the placeholder function with a
region's id and text where the region stood. Each region stands at its byte offset, and its root is
what its text is read as by itself, to the end. -/
theorem scan_divides {placeholder : Host.Path} {source : List Char} {scanned : Scanned}
    (h : scan placeholder source = .ok scanned) :
    ∃ parts last, Divides placeholder source scanned parts last := by
  obtain ⟨ps, hps, rfl⟩ := scan_eq_ok h
  exact ⟨_, _, Scan.partsOf_divides placeholder hps⟩

theorem scan_divides_two : ∃ parts last,
    Divides (.ofNames ["html"]) "é(<p/>, [<b>x</b>]);".toList
      ⟨"é(html(1, r#\"<p/>\"#), [html(2, r#\"<b>x</b>\"#)]);".toList,
        ⟨[⟨3, "<p/>".toList, ⟨['p'], [], []⟩⟩, ⟨10, "<b>x</b>".toList, ⟨['b'], [], [.text ['x']]⟩⟩]⟩⟩
      parts last :=
  scan_divides (eq_ok_of_toOption (by decide +kernel))

end InlineMarkup
