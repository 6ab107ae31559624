import InlineMarkup.Proofs.Reconcile.Placement
import Mathlib.Data.List.Infix

/-!
What a whole compilation does. It keeps the gaps between the regions and puts generated code where
the placeholder calls are found, which is where they were written for the regions whose calls are
found there.
-/

set_option autoImplicit false

namespace InlineMarkup

open InlineMarkup.Text InlineMarkup.Host

/-- The steps of a compilation: the source divided and annotated, the annotated source parsed, code
generated for each region, and each region placed at a call. -/
structure Compiles (config : Config) (source : List Char) (scanned : Scanned)
    (parts : List (List Char × Region)) (last : List Char) (file : Host.Tree)
    (generated : List Generated) (calls : List PlaceholderCall) : Prop where
  extracted : extract config source = .ok scanned
  divides : Divides config.placeholder source scanned parts last
  parsed : parseFile scanned.source = .ok file
  generates : List.Forall₂ (fun r g => Generated.ofElement config r.root = .ok g)
    scanned.table.regions generated
  placed : Placement scanned.table (callsOf config.placeholder file) calls

theorem compiles_of_compile {config : Config} {source : List Char} {result : Reconciled}
    (hemit : config.emit = .splice) (h : compile config source = .ok result) :
    ∃ scanned parts last file generated calls,
      Compiles config source scanned parts last file generated calls ∧
      result.source = spliced scanned.source generated calls := by
  obtain ⟨scanned, hscan, hreconcile⟩ := bind_eq_ok.1 h
  obtain ⟨ps, hps, rfl⟩ := scan_eq_ok hscan
  obtain ⟨file, generated, calls, hfile, hgenerated, hplaced, hresult, -⟩ :=
    reconcile_eq_ok hreconcile
  exact ⟨_, _, _, file, generated, calls, ⟨hscan, Scan.partsOf_divides config.placeholder hps, hfile,
    generateAll_eq_ok hgenerated, hplaced⟩, hresult hemit⟩

/-- The calls that are found all begin where a call was written for a region. -/
def OnlyWritten (placeholder : Host.Path) (annotated : List Char) (file : Host.Tree)
    (parts : List (List Char × Region)) : Prop :=
  ∀ offset, FoundAt placeholder annotated file offset → ∃ before gap r after,
    parts = before ++ (gap, r) :: after ∧
      offset = byteLength (weave (called placeholder) 1 before gap)

theorem split_of_getElem? {α : Type} {xs : List α} {n : Nat} {x : α} (h : xs[n]? = some x) :
    ∃ before after, xs = before ++ x :: after ∧ before.length = n := by
  induction xs generalizing n with
  | nil => simp at h
  | cons y xs ih =>
    cases n with
    | zero =>
      cases h
      exact ⟨[], xs, rfl, rfl⟩
    | succ n =>
      obtain ⟨before, after, rfl, rfl⟩ := ih (n := n) (by simpa using h)
      exact ⟨y :: before, after, rfl, rfl⟩

section

variable {placeholder : Host.Path} {source : List Char} {scanned : Scanned}
  {parts : List (List Char × Region)} {last : List Char}

theorem Divides.annotated_split (h : Divides placeholder source scanned parts last)
    {before after : List (List Char × Region)} {gap : List Char} {r : Region}
    (hparts : parts = before ++ (gap, r) :: after) :
    scanned.source = weave (called placeholder) 1 before gap ++
      (placeholderCall placeholder (before.length + 1) r.text ++
        weave (called placeholder) (before.length + 2) after last) := by
  rw [h.annotated_eq, hparts, weave_append, Nat.add_comm 1]
  rfl

theorem Divides.get?_split (h : Divides placeholder source scanned parts last)
    {before after : List (List Char × Region)} {gap : List Char} {r : Region}
    (hparts : parts = before ++ (gap, r) :: after) :
    scanned.table.get? (before.length + 1) = some r := by
  simp [RegionTable.get?, h.regions_eq, hparts]

theorem Divides.split_of_get? (h : Divides placeholder source scanned parts last) {id : Nat}
    {r : Region} (hr : scanned.table.get? id = some r) :
    ∃ before gap after, parts = before ++ (gap, r) :: after ∧ id = before.length + 1 := by
  cases id with
  | zero => cases hr
  | succ n =>
    simp only [RegionTable.get?, h.regions_eq, List.getElem?_map, Option.map_eq_some_iff] at hr
    obtain ⟨⟨gap, r⟩, hn, rfl⟩ := hr
    obtain ⟨before, after, hparts, rfl⟩ := split_of_getElem? hn
    exact ⟨before, gap, after, hparts, rfl⟩

end

section

variable {config : Config} {source : List Char} {scanned : Scanned}
  {parts : List (List Char × Region)} {last : List Char} {file : Host.Tree}
  {generated : List Generated} {calls : List PlaceholderCall}

theorem Compiles.exists_split (h : Compiles config source scanned parts last file generated calls)
    {c : PlaceholderCall} (hc : c ∈ calls) :
    ∃ before gap r after, parts = before ++ (gap, r) :: after ∧ c.id = before.length + 1 := by
  obtain ⟨r, hr, -⟩ := h.placed.known c hc
  obtain ⟨before, gap, after, hparts, hid⟩ := h.divides.split_of_get? hr
  exact ⟨before, gap, r, after, hparts, hid⟩

variable {before after : List (List Char × Region)} {gap : List Char} {r : Region}

theorem Compiles.exists_call (h : Compiles config source scanned parts last file generated calls)
    (hparts : parts = before ++ (gap, r) :: after) :
    ∃ c ∈ calls, c.id = before.length + 1 ∧ c.text = r.text := by
  have hr := h.divides.get?_split hparts
  obtain ⟨c, hc, hid⟩ := h.placed.complete _ r hr
  obtain ⟨r', hr', htext⟩ := h.placed.known c hc
  rw [hid, hr] at hr'
  cases hr'
  exact ⟨c, hc, hid, htext⟩

theorem Compiles.editFor_eq (h : Compiles config source scanned parts last file generated calls)
    (hparts : parts = before ++ (gap, r) :: after) {c : PlaceholderCall}
    (hid : c.id = before.length + 1) :
    ∃ g, Generated.ofElement config r.root = .ok g ∧
      editFor scanned.source generated c = some ⟨(c.range scanned.source).1,
        (c.range scanned.source).2,
        g.render ⟨lineIndent scanned.source (c.range scanned.source).1,
          lineBreak scanned.source⟩⟩ := by
  have hr := h.divides.get?_split hparts
  obtain ⟨hlength, hget⟩ := List.forall₂_iff_get.1 h.generates
  obtain ⟨hlt, hget?⟩ := List.getElem?_eq_some_iff.1 hr
  have hlt' : before.length < generated.length := hlength ▸ hlt
  refine ⟨generated.get ⟨before.length, hlt'⟩, ?_, ?_⟩
  · simpa [hget?] using hget before.length hlt hlt'
  · have hg : generated[c.id - 1]? = some (generated.get ⟨before.length, hlt'⟩) := by
      simp [hid]
    simp only [editFor, hg, PlaceholderCall.range]

theorem Compiles.of_start (h : Compiles config source scanned parts last file generated calls)
    (hparts : parts = before ++ (gap, r) :: after) {c : PlaceholderCall} (hc : c ∈ calls)
    (hstart : c.start.offset scanned.source =
      byteLength (weave (called config.placeholder) 1 before gap)) :
    c.id = before.length + 1 ∧
      c.range scanned.source = writtenRange config.placeholder before gap r :=
  h.placed.of_start h.parsed (h.divides.annotated_split hparts) hc hstart

theorem Compiles.range_eq_iff (h : Compiles config source scanned parts last file generated calls)
    (hparts : parts = before ++ (gap, r) :: after) {c : PlaceholderCall} (hc : c ∈ calls)
    (hid : c.id = before.length + 1) :
    c.range scanned.source = writtenRange config.placeholder before gap r ↔
      FoundAt config.placeholder scanned.source file
        (byteLength (weave (called config.placeholder) 1 before gap)) := by
  rw [h.placed.foundAt_iff]
  constructor
  · intro hrange
    exact ⟨c, hc, congrArg Prod.fst hrange⟩
  · rintro ⟨c', hc', hstart⟩
    obtain ⟨hid', hrange⟩ := h.of_start hparts hc' hstart
    rw [h.placed.eq_of_id hc hc' (hid.trans hid'.symm)]
    exact hrange

/-- If only written calls are found then all of them are. -/
theorem Compiles.found_of_onlyWritten
    (h : Compiles config source scanned parts last file generated calls)
    (hparts : parts = before ++ (gap, r) :: after)
    (honly : OnlyWritten config.placeholder scanned.source file parts) :
    FoundAt config.placeholder scanned.source file
      (byteLength (weave (called config.placeholder) 1 before gap)) := by
  obtain ⟨c, hc, hid, -⟩ := h.exists_call hparts
  have hfound : FoundAt config.placeholder scanned.source file (c.start.offset scanned.source) :=
    h.placed.foundAt_iff.2 ⟨c, hc, rfl⟩
  obtain ⟨before', gap', r', after', hparts', hstart⟩ := honly _ hfound
  obtain ⟨hid', -⟩ := h.of_start hparts' hc hstart
  -- the call's id says which of the written calls it is
  have hlength : before.length = before'.length := by omega
  obtain ⟨rfl, heq⟩ := List.append_inj (hparts.symm.trans hparts') hlength
  cases heq
  exact hstart ▸ hfound

def textAt (annotated : List Char) (generated : List Generated) (calls : List PlaceholderCall)
    (id : Nat) : List Char :=
  (((calls.find? (·.id == id)).bind (editFor annotated generated)).map (·.text)).getD []

theorem Compiles.textAt_eq (h : Compiles config source scanned parts last file generated calls)
    {c : PlaceholderCall} (hc : c ∈ calls) {e : Edit}
    (he : editFor scanned.source generated c = some e) :
    textAt scanned.source generated calls c.id = e.text := by
  cases hfind : calls.find? (·.id == c.id) with
  | none => simpa using List.find?_eq_none.1 hfind c hc
  | some c' =>
    have hid : c'.id = c.id := by simpa using List.find?_some hfind
    obtain rfl := h.placed.eq_of_id (List.mem_of_find?_eq_some hfind) hc hid
    simp [textAt, hfind, he]

theorem Compiles.edits_perm (h : Compiles config source scanned parts last file generated calls)
    (honly : OnlyWritten config.placeholder scanned.source file parts) :
    (calls.filterMap (editFor scanned.source generated)).Perm
      (editsFrom config.placeholder (fun id _ => textAt scanned.source generated calls id) 0 1
        parts) := by
  have hedit : ∀ {before gap r after} {c : PlaceholderCall}, c ∈ calls →
      parts = before ++ (gap, r) :: after → c.id = before.length + 1 →
      editFor scanned.source generated c =
        some ⟨(writtenRange config.placeholder before gap r).1,
          (writtenRange config.placeholder before gap r).2,
          textAt scanned.source generated calls (before.length + 1)⟩ := by
    intro before gap r after c hc hparts hid
    obtain ⟨g, -, he⟩ := h.editFor_eq hparts hid
    have hrange := (h.range_eq_iff hparts hc hid).2 (h.found_of_onlyWritten hparts honly)
    have htext := h.textAt_eq hc he
    rw [hid] at htext
    rw [htext, he, hrange]
  -- no edit stands twice on either side: calls differ in their ids, and regions in their places
  refine (List.perm_ext_iff_of_nodup ?_ ?_).2 fun e => ?_
  · refine List.pairwise_filterMap.2 ((List.pairwise_map.1 h.placed.distinct).imp_of_mem ?_)
    intro c c' hc hc' hne e he e' he' heq
    obtain ⟨before, gap, r, after, hparts, hid⟩ := h.exists_split hc
    obtain ⟨before', gap', r', after', hparts', hid'⟩ := h.exists_split hc'
    have hfst := congrArg Prod.fst
      ((h.range_eq_iff hparts hc hid).2 (h.found_of_onlyWritten hparts honly))
    rw [hedit hc hparts hid, Option.some.injEq] at he
    rw [hedit hc' hparts' hid', Option.some.injEq] at he'
    have hstart : (writtenRange config.placeholder before gap r).1 =
        (writtenRange config.placeholder before' gap' r').1 :=
      congrArg Edit.start (he.trans (heq.trans he'.symm))
    exact hne (((h.of_start hparts' hc (hfst.trans hstart)).1).trans hid'.symm)
  · exact (pairwise_editsFrom _ _ 0 1 parts).imp fun hlt heq => by simp [heq] at hlt
  · rw [List.mem_filterMap, mem_editsFrom]
    simp only [Nat.zero_add, Nat.add_comm 1]
    constructor
    · rintro ⟨c, hc, he⟩
      obtain ⟨before, gap, r, after, hparts, hid⟩ := h.exists_split hc
      rw [hedit hc hparts hid, Option.some.injEq] at he
      exact ⟨before, gap, r, after, hparts, he.symm⟩
    · rintro ⟨before, gap, r, after, hparts, rfl⟩
      obtain ⟨c, hc, hid, -⟩ := h.exists_call hparts
      exact ⟨c, hc, hedit hc hparts hid⟩

theorem Compiles.spliced_eq (h : Compiles config source scanned parts last file generated calls)
    (honly : OnlyWritten config.placeholder scanned.source file parts) :
    spliced scanned.source generated calls =
      weave (fun id _ => textAt scanned.source generated calls id) 1 parts last := by
  rw [spliced, ← apply_editsFrom config.placeholder _ (h.edits_perm honly), ← h.divides.annotated_eq]

/-- The line of a text that holds the place between two parts of it. -/
def lineAt (before after : List Char) : List Char :=
  lastLine before ++ after.takeWhile (· != '\n')

theorem takeWhile_lineAt (before : List Char) {after : List Char} {c : Char} {s : List Char}
    (hafter : after = c :: s) (hc : isBlank c = false) :
    (lineAt before after).takeWhile isBlank = (lastLine before).takeWhile isBlank := by
  have hne : (c != '\n') = true := by
    refine bne_iff_ne.2 ?_
    rintro rfl
    cases hc
  rw [lineAt, hafter, List.takeWhile_cons_of_pos (p := (· != '\n')) hne,
    List.takeWhile_append]
  split
  · rename_i hlength
    rw [List.takeWhile_cons_of_neg (by simp [hc]), List.append_nil,
      (List.takeWhile_prefix isBlank).eq_of_length hlength]
  · rfl

/-- The line of a written call begins with as many blanks as the indent that its code gets. -/
theorem Compiles.lineIndent_eq (h : Compiles config source scanned parts last file generated calls)
    (hparts : parts = before ++ (gap, r) :: after)
    (hfound : FoundAt config.placeholder scanned.source file
      (byteLength (weave (called config.placeholder) 1 before gap))) :
    lineIndent scanned.source (byteLength (weave (called config.placeholder) 1 before gap)) =
      (lineAt (weave (called config.placeholder) 1 before gap)
        (called config.placeholder (before.length + 1) r ++
          weave (called config.placeholder) (before.length + 2) after last)).takeWhile isBlank := by
  obtain ⟨t, ht, path, group, hpath, -⟩ := foundAt_iff_exists.1 hfound
  obtain ⟨c, s, htext, hc⟩ := (isWritten_of_found h.parsed ht hpath).text_eq_cons
  have hblank : isBlank c = false := by
    have := Lexeme.isHostBlank_of_beginsLeaf hc
    simp_all [Lexeme.isHostBlank]
  rw [takeWhile_lineAt _ (by simp only [called, placeholderCall, htext, List.cons_append]; rfl)
    hblank, h.divides.annotated_split hparts, lineIndent, takeBytes_append]

theorem Compiles.onlyWritten_of_found
    (h : Compiles config source scanned parts last file generated calls)
    (hfound : ∀ before gap r after, parts = before ++ (gap, r) :: after →
      FoundAt config.placeholder scanned.source file
        (byteLength (weave (called config.placeholder) 1 before gap))) :
    OnlyWritten config.placeholder scanned.source file parts := by
  intro offset hoffset
  obtain ⟨c, hc, rfl⟩ := h.placed.foundAt_iff.1 hoffset
  obtain ⟨before, gap, r, after, hparts, hid⟩ := h.exists_split hc
  have hrange := (h.range_eq_iff hparts hc hid).2 (hfound before gap r after hparts)
  exact ⟨before, gap, r, after, hparts, congrArg Prod.fst hrange⟩

theorem Compiles.textAt_render (h : Compiles config source scanned parts last file generated calls)
    (hparts : parts = before ++ (gap, r) :: after)
    (honly : OnlyWritten config.placeholder scanned.source file parts) :
    ∃ g, Generated.ofElement config r.root = .ok g ∧
      textAt scanned.source generated calls (before.length + 1) = g.render
        ⟨(lineAt (weave (called config.placeholder) 1 before gap)
          (called config.placeholder (before.length + 1) r ++
            weave (called config.placeholder) (before.length + 2) after last)).takeWhile isBlank,
          if ['\r', '\n'] <:+: scanned.source then ['\r', '\n'] else ['\n']⟩ := by
  obtain ⟨c, hc, hid, -⟩ := h.exists_call hparts
  obtain ⟨g, hg, he⟩ := h.editFor_eq hparts hid
  have hfound := h.found_of_onlyWritten hparts honly
  have hstart := congrArg Prod.fst ((h.range_eq_iff hparts hc hid).2 hfound)
  have htext := h.textAt_eq hc he
  rw [hid, hstart] at htext
  refine ⟨g, hg, ?_⟩
  rw [htext, ← lineBreak_eq, ← h.lineIndent_eq hparts hfound]
  rfl

end

/-- A compilation of a source that calls the placeholder function nowhere else keeps the gaps between
the regions. In the place of each region stands its code, with the blanks that the line of its call
begins with and the line breaks of the annotated source. -/
theorem compile_keeps_gaps {config : Config} {source : List Char} {result : Reconciled}
    (hemit : config.emit = .splice) (h : compile config source = .ok result) :
    ∃ scanned parts last file, extract config source = .ok scanned ∧
      Divides config.placeholder source scanned parts last ∧
      parseFile scanned.source = .ok file ∧
      (OnlyWritten config.placeholder scanned.source file parts →
        ∃ code : Nat → Region → List Char, result.source = weave code 1 parts last ∧
          ∀ before gap r after, parts = before ++ (gap, r) :: after →
            ∃ g, Generated.ofElement config r.root = .ok g ∧
              code (before.length + 1) r = g.render
                ⟨(lineAt (weave (called config.placeholder) 1 before gap)
                  (called config.placeholder (before.length + 1) r ++
                    weave (called config.placeholder) (before.length + 2) after
                      last)).takeWhile isBlank,
                  if ['\r', '\n'] <:+: scanned.source then ['\r', '\n'] else ['\n']⟩) := by
  obtain ⟨scanned, parts, last, file, generated, calls, hc, hresult⟩ := compiles_of_compile hemit h
  refine ⟨scanned, parts, last, file, hc.extracted, hc.divides, hc.parsed, fun honly => ?_⟩
  refine ⟨fun id _ => textAt scanned.source generated calls id, ?_, ?_⟩
  · rw [hresult, hc.spliced_eq honly]
  · intro before gap r after hparts
    exact hc.textAt_render hparts honly

theorem compile_keeps_gaps_two : ∃ (result : Reconciled) (scanned : Scanned) (file : Host.Tree)
    (parts : List (List Char × Region)) (last : List Char) (code : Nat → Region → List Char),
    compile { placeholder := .ofNames ["h"] } "const C: T =\r\n\tg(<p/>, <b/>);".toList = .ok result ∧
      OnlyWritten (.ofNames ["h"]) scanned.source file parts ∧
      parts.map (fun part => (part.2.offset, part.2.text)) =
        [(17, "<p/>".toList), (23, "<b/>".toList)] ∧
      result.source = weave code 1 parts last := by
  have hcompile : (compile { placeholder := .ofNames ["h"] }
      "const C: T =\r\n\tg(<p/>, <b/>);".toList).toOption.isSome := by decide +kernel
  have hscan : (extract { placeholder := .ofNames ["h"] }
      "const C: T =\r\n\tg(<p/>, <b/>);".toList).toOption.map (fun s =>
        (s.table.regions.map fun r => (r.offset, r.text),
          (parseFile s.source).toOption.map (callStarts (.ofNames ["h"]) s.source))) =
      some ([(17, "<p/>".toList), (23, "<b/>".toList)], some [17, 34]) := by decide +kernel
  obtain ⟨result, hresult⟩ := Option.isSome_iff_exists.1 hcompile
  obtain ⟨scanned, parts, last, file, hextract, hdivides, hfile, hcode⟩ :=
    compile_keeps_gaps rfl (eq_ok_of_toOption hresult)
  rw [hextract] at hscan
  simp only [Except.toOption, Option.map_some, hfile, Option.some.injEq, Prod.mk.injEq,
    hdivides.regions_eq, List.map_map] at hscan
  obtain ⟨hregions, hstarts⟩ := hscan
  refine ⟨result, scanned, file, parts, last, ?_⟩
  rcases parts with _ | ⟨⟨gap, r⟩, _ | ⟨⟨gap', r'⟩, _ | ⟨part, parts⟩⟩⟩
  all_goals simp at hregions
  obtain ⟨⟨hoffset, htext⟩, hoffset', htext'⟩ := hregions
  have hgap := hdivides.offset_eq [] gap r [(gap', r')] rfl
  have hgap' := hdivides.offset_eq [(gap, r)] gap' r' [] rfl
  have honly : OnlyWritten (.ofNames ["h"]) scanned.source file [(gap, r), (gap', r')] := by
    intro offset hfound
    have hcall : byteLength (placeholderCall (.ofNames ["h"]) 1 ['<', 'p', '/', '>']) = 15 := by
      decide +kernel
    have htag : byteLength ['<', 'p', '/', '>'] = 4 := by decide
    simp only [weave, written, byteLength_append, htext, htag] at hgap hgap'
    rw [FoundAt, hstarts] at hfound
    rcases List.mem_pair.1 hfound with rfl | rfl
    · exact ⟨[], gap, r, [(gap', r')], rfl, by simp only [weave]; omega⟩
    · refine ⟨[(gap, r)], gap', r', [], rfl, ?_⟩
      simp only [weave, called, byteLength_append, htext, hcall]
      omega
  obtain ⟨code, hsource, -⟩ := hcode honly
  exact ⟨code, eq_ok_of_toOption hresult, honly, by simp [*], hsource⟩

/-- Each region's code takes the place of one call with the region's id and text. That call is the
one which was written for the region exactly if a call is found where it was written; if this holds
for all regions, no written call is left. -/
theorem compile_replaces_written_iff {config : Config} {source : List Char} {result : Reconciled}
    (hemit : config.emit = .splice) (h : compile config source = .ok result) :
    ∃ scanned parts last file generated calls,
      Compiles config source scanned parts last file generated calls ∧
      result.source = spliced scanned.source generated calls ∧
      (∀ before gap r after, parts = before ++ (gap, r) :: after →
        ∃ c ∈ calls, c.id = before.length + 1 ∧ c.text = r.text ∧
          (∀ c' ∈ calls, c'.id = c.id → c' = c) ∧
          (∃ g, Generated.ofElement config r.root = .ok g ∧
            editFor scanned.source generated c = some ⟨(c.range scanned.source).1,
              (c.range scanned.source).2,
              g.render ⟨lineIndent scanned.source (c.range scanned.source).1,
                lineBreak scanned.source⟩⟩) ∧
          (c.range scanned.source = writtenRange config.placeholder before gap r ↔
            FoundAt config.placeholder scanned.source file
              (byteLength (weave (called config.placeholder) 1 before gap)))) ∧
      ((∀ before gap r after, parts = before ++ (gap, r) :: after →
        FoundAt config.placeholder scanned.source file
          (byteLength (weave (called config.placeholder) 1 before gap))) →
        result.source =
          weave (fun id _ => textAt scanned.source generated calls id) 1 parts last) := by
  obtain ⟨scanned, parts, last, file, generated, calls, hc, hresult⟩ := compiles_of_compile hemit h
  refine ⟨scanned, parts, last, file, generated, calls, hc, hresult, ?_, fun hfound => ?_⟩
  · intro before gap r after hparts
    obtain ⟨c, hmem, hid, htext⟩ := hc.exists_call hparts
    exact ⟨c, hmem, hid, htext, fun c' hmem' hid' => hc.placed.eq_of_id hmem' hmem hid',
      hc.editFor_eq hparts hid, hc.range_eq_iff hparts hmem hid⟩
  · rw [hresult, hc.spliced_eq (hc.onlyWritten_of_found hfound)]

/-- A call that the source itself holds, with a region's id and text, takes the code of a region
that stands where no expression is parsed. -/
theorem compile_replaces_written_iff_macro : ∃ (result : Reconciled) (scanned : Scanned)
    (parts : List (List Char × Region)) (last : List Char) (file : Host.Tree)
    (generated : List Generated) (calls : List PlaceholderCall) (gap : List Char) (r : Region),
    compile { placeholder := .ofNames ["h"] }
        "const C: T = (h(1, r#\"<p/>\"#), m!(x => <p/>));".toList = .ok result ∧
      Compiles { placeholder := .ofNames ["h"] }
        "const C: T = (h(1, r#\"<p/>\"#), m!(x => <p/>));".toList scanned parts last file generated
        calls ∧
      parts = [(gap, r)] ∧
      ∃ c ∈ calls, c.id = 1 ∧
        c.range scanned.source ≠ writtenRange (.ofNames ["h"]) [] gap r := by
  have hcompile : (compile { placeholder := .ofNames ["h"] }
      "const C: T = (h(1, r#\"<p/>\"#), m!(x => <p/>));".toList).toOption.isSome := by decide +kernel
  have hscan : (extract { placeholder := .ofNames ["h"] }
      "const C: T = (h(1, r#\"<p/>\"#), m!(x => <p/>));".toList).toOption.map (fun s =>
        (s.table.regions.map (·.offset),
          (parseFile s.source).toOption.map (callStarts (.ofNames ["h"]) s.source))) =
      some ([39], some [14]) := by decide +kernel
  obtain ⟨result, hresult⟩ := Option.isSome_iff_exists.1 hcompile
  obtain ⟨scanned, parts, last, file, generated, calls, hc, -, hregion, -⟩ :=
    compile_replaces_written_iff rfl (eq_ok_of_toOption hresult)
  rw [hc.extracted] at hscan
  simp only [Except.toOption, Option.map_some, hc.parsed, Option.some.injEq, Prod.mk.injEq,
    hc.divides.regions_eq, List.map_map] at hscan
  obtain ⟨hregions, hstarts⟩ := hscan
  rcases parts with _ | ⟨⟨gap, r⟩, _ | ⟨part, parts⟩⟩
  all_goals simp at hregions
  refine ⟨result, scanned, _, last, file, generated, calls, gap, r, eq_ok_of_toOption hresult, hc,
    rfl, ?_⟩
  obtain ⟨c, hmem, hid, -, -, -, hrange⟩ := hregion [] gap r [] rfl
  refine ⟨c, hmem, hid, fun heq => ?_⟩
  have hgap : r.offset = byteLength gap := hc.divides.offset_eq [] gap r [] rfl
  have hfound : byteLength gap ∈ callStarts (.ofNames ["h"]) scanned.source file := hrange.1 heq
  rw [hstarts, List.mem_singleton] at hfound
  omega

end InlineMarkup
