import InlineMarkup.Compile
import InlineMarkup.Proofs.Reconcile.Emitted
import InlineMarkup.Proofs.Reconcile.Splice
import Mathlib.Data.List.Nodup

/-!
Placing the regions. A compilation that succeeds reads one call for each region, with its id and its
text (`Placement`), and puts the generated code where these calls stand.
-/

set_option autoImplicit false

namespace InlineMarkup

open InlineMarkup.Text InlineMarkup.Host

/-- The calls that are read from the ones found are one for each region, with the region's text. -/
structure Placement (table : RegionTable) (found : List Host.Tree) (calls : List PlaceholderCall) :
    Prop where
  read : List.Forall₂ (fun t c => PlaceholderCall.ofTree t = .ok c) found calls
  distinct : (calls.map (·.id)).Nodup
  known : ∀ c ∈ calls, ∃ r, table.get? c.id = some r ∧ c.text = r.text
  complete : ∀ id r, table.get? id = some r → ∃ c ∈ calls, c.id = id

theorem checkCall_eq_ok {table : RegionTable} {placed : List Nat} {call : PlaceholderCall}
    (h : checkCall table placed call = .ok ()) :
    call.id ∉ placed ∧ ∃ r, table.get? call.id = some r ∧ call.text = r.text := by
  unfold checkCall at h
  split at h
  · cases h
  · rename_i r hr
    split at h
    · cases h
    · rename_i hnot
      rw [not_or, not_not] at hnot
      exact ⟨hnot.2, r, hr, hnot.1.symm⟩

theorem placeCalls_eq_ok {table : RegionTable} {placed : List Nat} {found : List Host.Tree}
    {calls : List PlaceholderCall} (h : placeCalls table placed found = .ok calls) :
    List.Forall₂ (fun t c => PlaceholderCall.ofTree t = .ok c) found calls ∧
      (calls.map (·.id)).Nodup ∧
      ∀ c ∈ calls, c.id ∉ placed ∧ ∃ r, table.get? c.id = some r ∧ c.text = r.text := by
  induction found generalizing placed calls with
  | nil =>
    cases h
    exact ⟨.nil, .nil, by simp⟩
  | cons t found ih =>
    obtain ⟨call, hread, h⟩ := bind_eq_ok.1 h
    obtain ⟨⟨⟩, hcheck, h⟩ := bind_eq_ok.1 h
    obtain ⟨rest, hrest, h⟩ := bind_eq_ok.1 h
    cases h
    obtain ⟨hreads, hnodup, hknown⟩ := ih hrest
    have hcall := checkCall_eq_ok hcheck
    refine ⟨.cons hread hreads, ?_, List.forall_mem_cons.2 ⟨hcall, fun c hc => ?_⟩⟩
    · refine List.nodup_cons.2 ⟨fun hmem => ?_, hnodup⟩
      obtain ⟨c, hc, hid⟩ := List.mem_map.1 hmem
      exact (hknown c hc).1 (hid ▸ List.mem_cons_self)
    · obtain ⟨hnew, hr⟩ := hknown c hc
      exact ⟨fun hold => hnew (List.mem_cons_of_mem _ hold), hr⟩

theorem mem_numberFrom (id : Nat) {k : Nat} {rs : List Region} {r : Region} (h : rs[k]? = some r) :
    (id + k, r) ∈ RegionTable.numberFrom id rs := by
  induction rs generalizing id k with
  | nil => simp at h
  | cons q rs ih =>
    cases k with
    | zero =>
      cases h
      exact List.mem_cons_self
    | succ k =>
      have := ih (id + 1) (k := k) (by simpa using h)
      exact List.mem_cons_of_mem _ (by simpa [Nat.add_assoc, Nat.add_comm 1] using this)

theorem mem_numbered {table : RegionTable} {id : Nat} {r : Region} (h : table.get? id = some r) :
    (id, r) ∈ table.numbered := by
  cases id with
  | zero => cases h
  | succ k => simpa [RegionTable.numbered, Nat.add_comm] using mem_numberFrom 1 h

theorem placement_of_ok {table : RegionTable} {found : List Host.Tree}
    {calls : List PlaceholderCall} (h : placeCalls table [] found = .ok calls)
    (hall : unplaced? table calls = none) : Placement table found calls := by
  obtain ⟨hread, hnodup, hknown⟩ := placeCalls_eq_ok h
  refine ⟨hread, hnodup, fun c hc => (hknown c hc).2, fun id r hr => ?_⟩
  have := List.find?_eq_none.1 hall (id, r) (mem_numbered hr)
  simpa using this

theorem generateAll_eq_ok {config : Config} {rs : List Region} {gs : List Generated}
    (h : generateAll config rs = .ok gs) :
    List.Forall₂ (fun r g => Generated.ofElement config r.root = .ok g) rs gs := by
  induction rs generalizing gs with
  | nil =>
    cases h
    exact .nil
  | cons r rs ih =>
    obtain ⟨g, hg, h⟩ := bind_eq_ok.1 h
    obtain ⟨rest, hrest, h⟩ := bind_eq_ok.1 h
    cases h
    exact .cons (mapError_eq_ok hg) (ih hrest)

/-- What was done if a file is given back. Both ways to write it out rest on the same calls and the
same code. -/
theorem reconcile_eq_ok {config : Config} {scanned : Scanned} {result : Reconciled}
    (h : reconcile config scanned = .ok result) :
    ∃ file generated calls, parseFile scanned.source = .ok file ∧
      generateAll config scanned.table.regions = .ok generated ∧
      Placement scanned.table (callsOf config.placeholder file) calls ∧
      (config.emit = .splice → result.source = spliced scanned.source generated calls) ∧
      (config.emit = .pretty → result.source = printed config scanned.source generated file) ∧
      result.items = itemCount file ∧ result.file = replaced config generated file := by
  obtain ⟨file, hfile, h⟩ := bind_eq_ok.1 h
  obtain ⟨generated, hgenerated, h⟩ := bind_eq_ok.1 h
  obtain ⟨calls, hcalls, h⟩ := bind_eq_ok.1 h
  refine ⟨file, generated, calls, mapError_eq_ok hfile, hgenerated, ?_⟩
  cases hall : unplaced? scanned.table calls with
  | some p =>
    rw [hall] at h
    cases h
  | none =>
    refine ⟨placement_of_ok (mapError_eq_ok hcalls) hall, ?_⟩
    rw [hall] at h
    cases hemit : config.emit with
    | splice =>
      rw [hemit] at h
      cases h
      exact ⟨fun _ => rfl, by simp, rfl, rfl⟩
    | pretty =>
      rw [hemit] at h
      cases h
      exact ⟨by simp, fun _ => rfl, rfl, rfl⟩

def callStarts (placeholder : Host.Path) (annotated : List Char) (file : Host.Tree) : List Nat :=
  (callsOf placeholder file).filterMap fun t =>
    (pathCall? t).map fun (path, _) => path.start.offset annotated

/-- A call of the placeholder function is found that begins at a byte offset. -/
def FoundAt (placeholder : Host.Path) (annotated : List Char) (file : Host.Tree) (offset : Nat) :
    Prop :=
  offset ∈ callStarts placeholder annotated file

theorem foundAt_iff_exists {placeholder : Host.Path} {annotated : List Char} {file : Host.Tree}
    {offset : Nat} : FoundAt placeholder annotated file offset ↔
      ∃ t ∈ callsOf placeholder file, ∃ path group, pathCall? t = some (path, group) ∧
        path.start.offset annotated = offset := by
  simp only [FoundAt, callStarts, List.mem_filterMap, Option.map_eq_some_iff, Prod.exists]

def PlaceholderCall.range (annotated : List Char) (c : PlaceholderCall) : Nat × Nat :=
  (c.start.offset annotated, c.stop.offset annotated)

/-- The bytes of the call that was written for the region after some parts and a gap. -/
def writtenRange (placeholder : Host.Path) (before : List (List Char × Region)) (gap : List Char)
    (r : Region) : Nat × Nat :=
  (byteLength (weave (called placeholder) 1 before gap),
    byteLength (weave (called placeholder) 1 before gap ++ called placeholder (before.length + 1) r))

section

variable {table : RegionTable} {found : List Host.Tree} {calls : List PlaceholderCall}

theorem exists_of_forall₂ {α β : Type} {R : α → β → Prop} {xs : List α} {ys : List β}
    (h : List.Forall₂ R xs ys) {x : α} (hx : x ∈ xs) : ∃ y ∈ ys, R x y := by
  induction h with
  | nil => cases hx
  | cons hxy _ ih =>
    rcases List.mem_cons.1 hx with rfl | hx
    · exact ⟨_, List.mem_cons_self, hxy⟩
    · obtain ⟨y, hy, hxy⟩ := ih hx
      exact ⟨y, List.mem_cons_of_mem _ hy, hxy⟩

theorem Placement.eq_of_id (h : Placement table found calls) {c c' : PlaceholderCall}
    (hc : c ∈ calls) (hc' : c' ∈ calls) (hid : c.id = c'.id) : c = c' :=
  List.inj_on_of_nodup_map h.distinct hc hc' hid

/-- A call that begins where one was written for an id is the one with that id, and is as long. -/
theorem Placement.of_start {placeholder : Host.Path} {annotated : List Char} {file : Host.Tree}
    (h : Placement table (callsOf placeholder file) calls)
    (hfile : parseFile annotated = .ok file) {id : Nat} {front text rest : List Char}
    (hsource : annotated = front ++ (placeholderCall placeholder id text ++ rest))
    {c : PlaceholderCall} (hc : c ∈ calls) (hstart : c.start.offset annotated = byteLength front) :
    c.id = id ∧ c.range annotated =
      (byteLength front, byteLength (front ++ placeholderCall placeholder id text)) := by
  obtain ⟨t, ht, hread⟩ := exists_of_forall₂ h.read.flip hc
  obtain ⟨hid, hstop⟩ := call_of_emission hfile ht hread hsource hstart
  exact ⟨hid, Prod.ext hstart hstop⟩

theorem Placement.foundAt_iff {placeholder : Host.Path} {annotated : List Char} {file : Host.Tree}
    (h : Placement table (callsOf placeholder file) calls) {offset : Nat} :
    FoundAt placeholder annotated file offset ↔
      ∃ c ∈ calls, c.start.offset annotated = offset := by
  rw [foundAt_iff_exists]
  constructor
  · rintro ⟨t, ht, path, group, hpath, hoffset⟩
    obtain ⟨c, hc, hread⟩ := exists_of_forall₂ h.read ht
    obtain ⟨path', d, o, cl, cs, first, second, hpath', -, -, -, hstart, -⟩ :=
      PlaceholderCall.ofTree_eq_ok hread
    rw [hpath] at hpath'
    cases hpath'
    exact ⟨c, hc, hstart ▸ hoffset⟩
  · rintro ⟨c, hc, hoffset⟩
    obtain ⟨t, ht, hread⟩ := exists_of_forall₂ h.read.flip hc
    obtain ⟨path, d, o, cl, cs, first, second, hpath, -, -, -, hstart, -⟩ :=
      PlaceholderCall.ofTree_eq_ok hread
    exact ⟨t, ht, path, _, hpath, hstart ▸ hoffset⟩

end

end InlineMarkup
