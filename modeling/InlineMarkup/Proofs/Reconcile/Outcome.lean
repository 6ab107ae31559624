import InlineMarkup.Proofs.Reconcile.Placement
import InlineMarkup.Proofs.Reconcile.Replacement

/-!
What putting generated code in place of placeholder calls comes to: when it succeeds, what is replaced
then, and which error it gives otherwise.
-/

set_option autoImplicit false

namespace InlineMarkup

open InlineMarkup.Text InlineMarkup.Host

/-- A call has just two arguments, an integer literal that is small enough and a string literal, with
these values. -/
inductive Carries (call : Tree) (id : Nat) (text : List Char) : Prop where
  | intro {path first second : Tree} {d : Delimiter} {opening closing : Span} {children : List Tree}
    {number quoted : List Char} {suffix : List Char} :
    pathCall? call = some (path, .group d opening closing children) →
    argumentsOf (.group d opening closing children) = [first, second] →
    literalText? first = some number → Literal.integer? number = some (id, suffix) → id < idLimit →
    literalText? second = some quoted → Literal.string? quoted = some text →
    Carries call id text

def Placed (calls : List Tree) (id : Nat) : Prop :=
  ∃ call ∈ calls, ∃ text, Carries call id text

/-- A call that comes after some others has an error. -/
inductive Offends (table : RegionTable) (earlier : List Tree) (call : Tree) : PlacementError → Prop where
  | malformed : (∀ id text, ¬Carries call id text) →
    Offends table earlier call (.malformed (String.ofList call.text))
  | unknownId {id : Nat} {text : List Char} : Carries call id text → table.get? id = none →
    Offends table earlier call (.unknownId id (String.ofList call.text))
  | foreign {id : Nat} {text : List Char} {r : Region} : Carries call id text →
    table.get? id = some r → r.text ≠ text ∨ Placed earlier id →
    Offends table earlier call (.foreign id (String.ofList call.text))

/-- The first call with an error, of those after some others. -/
inductive FirstOffence (table : RegionTable) : List Tree → List Tree → PlacementError → Prop where
  | here {earlier calls : List Tree} {call : Tree} {e : PlacementError} :
    Offends table earlier call e → FirstOffence table earlier (call :: calls) e
  | later {earlier calls : List Tree} {call : Tree} {e : PlacementError} :
    (∀ e', ¬Offends table earlier call e') → FirstOffence table (earlier ++ [call]) calls e →
    FirstOffence table earlier (call :: calls) e

theorem idOf?_eq_some_iff {t : Tree} {id : Nat} : idOf? t = some id ↔ ∃ number suffix,
    literalText? t = some number ∧ Literal.integer? number = some (id, suffix) ∧ id < idLimit := by
  constructor
  · intro h
    obtain ⟨number, hnumber, h⟩ := Option.bind_eq_some_iff.1 h
    obtain ⟨⟨n, suffix⟩, hinteger, h⟩ := Option.bind_eq_some_iff.1 h
    obtain ⟨hlt, heq⟩ := Option.ite_none_right_eq_some.1 h
    cases heq
    exact ⟨number, suffix, hnumber, hinteger, hlt⟩
  · rintro ⟨number, suffix, hnumber, hinteger, hlt⟩
    simp [idOf?, hnumber, hinteger, hlt]

theorem ofTree_of_carries {t : Tree} {id : Nat} {text : List Char} (h : Carries t id text) :
    ∃ c, PlaceholderCall.ofTree t = .ok c ∧ c.id = id ∧ c.text = text ∧
      c.snippet = String.ofList t.text := by
  cases h with
  | @intro path first second d opening closing children _ _ _ hpath hargs hnumber hinteger hlt
      hquoted hstring =>
    have hid : idOf? first = some id := idOf?_eq_some_iff.2 ⟨_, _, hnumber, hinteger, hlt⟩
    have htext : textOf? second = some text := by rw [textOf?, hquoted]; exact hstring
    have hargs' : argumentsOf (.group .parenthesis closing closing children) = [first, second] := hargs
    refine ⟨⟨id, text, path.start, closing.stop, String.ofList t.text⟩, ?_, rfl, rfl, rfl⟩
    simp only [PlaceholderCall.ofTree, hpath, hargs', hid, htext]

theorem carries_of_ofTree {t : Tree} {c : PlaceholderCall} (h : PlaceholderCall.ofTree t = .ok c) :
    Carries t c.id c.text := by
  obtain ⟨path, d, opening, closing, children, first, second, hpath, hargs, hid, htext, -, -⟩ :=
    PlaceholderCall.ofTree_eq_ok h
  obtain ⟨number, suffix, hnumber, hinteger, hlt⟩ := idOf?_eq_some_iff.1 hid
  obtain ⟨quoted, hquoted, hstring⟩ := Option.bind_eq_some_iff.1 htext
  exact .intro hpath hargs hnumber hinteger hlt hquoted hstring

theorem Carries.unique {t : Tree} {id id' : Nat} {text text' : List Char} (h : Carries t id text)
    (h' : Carries t id' text') : id = id' ∧ text = text' := by
  obtain ⟨c, hc, rfl, rfl, -⟩ := ofTree_of_carries h
  obtain ⟨c', hc', rfl, rfl, -⟩ := ofTree_of_carries h'
  cases hc.symm.trans hc'
  exact ⟨rfl, rfl⟩

theorem ofTree_eq_error {t : Tree} {e : PlacementError} (h : PlaceholderCall.ofTree t = .error e) :
    e = .malformed (String.ofList t.text) := by
  unfold PlaceholderCall.ofTree at h
  simp only at h
  repeat' split at h
  all_goals cases h
  all_goals rfl

section

variable {table : RegionTable} {placed : List Nat} {earlier : List Tree}

def Knows (placed : List Nat) (earlier : List Tree) : Prop :=
  ∀ id, id ∈ placed ↔ Placed earlier id

theorem Knows.nil : Knows [] [] := by
  simp [Knows, Placed]

theorem Knows.snoc (h : Knows placed earlier) {t : Tree} {c : PlaceholderCall}
    (hc : PlaceholderCall.ofTree t = .ok c) : Knows (c.id :: placed) (earlier ++ [t]) := by
  intro id
  rw [List.mem_cons, h id]
  constructor
  · rintro (rfl | ⟨u, hu, text, hcarries⟩)
    · exact ⟨t, by simp, c.text, carries_of_ofTree hc⟩
    · exact ⟨u, by simp [hu], text, hcarries⟩
  · rintro ⟨u, hu, text, hcarries⟩
    rcases List.mem_append.1 hu with hu | hu
    · exact .inr ⟨u, hu, text, hcarries⟩
    · cases List.mem_singleton.1 hu
      exact .inl (hcarries.unique (carries_of_ofTree hc)).1

theorem placeCalls_cons {t : Tree} {c : PlaceholderCall} (hread : PlaceholderCall.ofTree t = .ok c)
    (ts : List Tree) : placeCalls table placed (t :: ts) =
      checkCall table placed c >>= fun _ => (placeCalls table (c.id :: placed) ts).map (c :: ·) := by
  simp only [placeCalls, hread]
  change (checkCall table placed c >>= fun _ => placeCalls table (c.id :: placed) ts >>= fun cs =>
    pure (c :: cs)) = _
  cases placeCalls table (c.id :: placed) ts <;> rfl

theorem placeCalls_of_offends (h : Knows placed earlier) {t : Tree} {e : PlacementError}
    (ht : Offends table earlier t e) (ts : List Tree) :
    placeCalls table placed (t :: ts) = .error e := by
  cases ht with
  | malformed hnone =>
    cases hread : PlaceholderCall.ofTree t with
    | ok c => exact absurd (carries_of_ofTree hread) (hnone _ _)
    | error e =>
      rw [ofTree_eq_error hread] at hread
      simp only [placeCalls, hread]
      rfl
  | unknownId hcarries hunknown =>
    obtain ⟨c, hread, rfl, rfl, hsnippet⟩ := ofTree_of_carries hcarries
    have hcheck : checkCall table placed c = .error (.unknownId c.id (String.ofList t.text)) := by
      simp [checkCall, hunknown, hsnippet]
    rw [placeCalls_cons hread, hcheck]
    rfl
  | foreign hcarries hknown hforeign =>
    obtain ⟨c, hread, rfl, rfl, hsnippet⟩ := ofTree_of_carries hcarries
    rw [← h c.id] at hforeign
    have hcheck : checkCall table placed c = .error (.foreign c.id (String.ofList t.text)) := by
      simp only [checkCall, hknown, hsnippet]
      exact if_pos hforeign
    rw [placeCalls_cons hread, hcheck]
    rfl

theorem checkCall_of_not_offends (h : Knows placed earlier) {t : Tree}
    (ht : ∀ e, ¬Offends table earlier t e) :
    ∃ c, PlaceholderCall.ofTree t = .ok c ∧ checkCall table placed c = .ok () := by
  cases hread : PlaceholderCall.ofTree t with
  | error e =>
    refine absurd (.malformed fun id text hcarries => ?_) (ht _)
    obtain ⟨c, hc, -⟩ := ofTree_of_carries hcarries
    cases hread.symm.trans hc
  | ok c =>
    have hcarries := carries_of_ofTree hread
    refine ⟨c, rfl, ?_⟩
    cases hknown : table.get? c.id with
    | none => exact absurd (.unknownId hcarries hknown) (ht _)
    | some r =>
      have hmine : ¬(r.text ≠ c.text ∨ c.id ∈ placed) := fun hforeign =>
        ht _ (.foreign hcarries hknown (hforeign.imp_right (h c.id).1))
      simp only [checkCall, hknown]
      exact if_neg hmine

/-- The error of the calls is that of the first one that has an error. -/
theorem placeCalls_eq_error_iff (h : Knows placed earlier) {found : List Tree} {e : PlacementError} :
    placeCalls table placed found = .error e ↔ FirstOffence table earlier found e := by
  induction found generalizing placed earlier with
  | nil =>
    constructor <;> intro hnil <;> cases hnil
  | cons t ts ih =>
    by_cases ht : ∃ e', Offends table earlier t e'
    · obtain ⟨e', ht⟩ := ht
      have herror := placeCalls_of_offends h ht ts
      constructor
      · intro he
        cases herror.symm.trans he
        exact .here ht
      · intro hfirst
        cases hfirst with
        | here ht' => exact placeCalls_of_offends h ht' ts
        | later hnone => exact absurd ht (hnone e')
    · rw [not_exists] at ht
      obtain ⟨c, hread, hcheck⟩ := checkCall_of_not_offends h ht
      rw [placeCalls_cons hread, hcheck]
      refine map_eq_error.trans ((ih (h.snoc hread)).trans ⟨.later ht, fun hfirst => ?_⟩)
      cases hfirst with
      | here ht' => exact absurd ht' (ht e)
      | later _ hlater => exact hlater

end

def Generates (config : Config) (regions : List Region) : Prop :=
  ∀ r ∈ regions, ∃ g, Generated.ofElement config r.root = .ok g

/-- The error of the first region that no code can be generated for. -/
inductive FirstFailure (config : Config) : List Region → Error → Prop where
  | here {r : Region} {rs : List Region} {e : Error} :
    Generated.ofElement config r.root = .error e → FirstFailure config (r :: rs) (e.locatedAt r.offset)
  | later {r : Region} {rs : List Region} {g : Generated} {e : Error} :
    Generated.ofElement config r.root = .ok g → FirstFailure config rs e →
    FirstFailure config (r :: rs) e

theorem generates_of_generateAll {config : Config} {regions : List Region} {gs : List Generated}
    (h : generateAll config regions = .ok gs) : Generates config regions := by
  intro r hr
  obtain ⟨g, -, hg⟩ := exists_of_forall₂ (generateAll_eq_ok h) hr
  exact ⟨g, hg⟩

theorem generateAll_eq_error_iff {config : Config} {regions : List Region} {e : Error} :
    generateAll config regions = .error e ↔ FirstFailure config regions e := by
  induction regions with
  | nil => constructor <;> intro h <;> cases h
  | cons r rs ih =>
    rw [generateAll]
    cases hr : Generated.ofElement config r.root with
    | error e' =>
      constructor
      · intro h
        cases h
        exact .here hr
      · intro h
        cases h with
        | here h => cases hr.symm.trans h; rfl
        | later h => cases hr.symm.trans h
    | ok g =>
      have hmap : (do let gs ← generateAll config rs; pure (g :: gs)) =
          (generateAll config rs).map (g :: ·) := by
        cases generateAll config rs <;> rfl
      refine (hmap ▸ map_eq_error).trans (ih.trans ⟨.later hr, fun h => ?_⟩)
      cases h with
      | here h => cases hr.symm.trans h
      | later _ h => exact h

theorem not_generates_of_firstFailure {config : Config} {regions : List Region} {e : Error}
    (h : FirstFailure config regions e) : ¬Generates config regions := by
  intro hall
  induction h with
  | here hr =>
    obtain ⟨g, hg⟩ := hall _ List.mem_cons_self
    cases hr.symm.trans hg
  | later _ _ ih => exact ih fun q hq => hall q (List.mem_cons_of_mem _ hq)

theorem find?_numberFrom_eq_some_iff {p : Nat → Bool} {k id : Nat} {rs : List Region} {r : Region} :
    (RegionTable.numberFrom k rs).find? (fun q => p q.1) = some (id, r) ↔
      ∃ j, id = k + j ∧ rs[j]? = some r ∧ p id = true ∧ ∀ i < j, p (k + i) = false := by
  induction rs generalizing k with
  | nil => simp [RegionTable.numberFrom]
  | cons q rs ih =>
    rw [RegionTable.numberFrom, List.find?_cons]
    cases hk : p k with
    | true =>
      constructor
      · intro h
        cases h
        exact ⟨0, rfl, rfl, hk, by simp⟩
      · rintro ⟨j, rfl, hj, -, hsmaller⟩
        cases j with
        | zero => simpa using hj
        | succ j =>
          have := hsmaller 0 (Nat.succ_pos j)
          rw [Nat.add_zero, hk] at this
          cases this
    | false =>
      refine ih.trans ⟨?_, ?_⟩
      · rintro ⟨j, rfl, hj, hp, hsmaller⟩
        refine ⟨j + 1, by omega, by simpa using hj, hp, fun i hi => ?_⟩
        cases i with
        | zero => exact hk
        | succ i => simpa [Nat.add_assoc, Nat.add_comm 1] using hsmaller i (by omega)
      · rintro ⟨j, rfl, hj, hp, hsmaller⟩
        cases j with
        | zero => rw [Nat.add_zero, hk] at hp; cases hp
        | succ j =>
          refine ⟨j, by omega, by simpa using hj, hp, fun i hi => ?_⟩
          simpa [Nat.add_assoc, Nat.add_comm 1] using hsmaller (i + 1) (by omega)

theorem placed_iff {found : List Tree} {calls : List PlaceholderCall}
    (h : List.Forall₂ (fun t c => PlaceholderCall.ofTree t = .ok c) found calls) {id : Nat} :
    Placed found id ↔ ∃ c ∈ calls, c.id = id := by
  constructor
  · rintro ⟨t, ht, text, hcarries⟩
    obtain ⟨c, hc, hread⟩ := exists_of_forall₂ h ht
    exact ⟨c, hc, ((carries_of_ofTree hread).unique hcarries).1⟩
  · rintro ⟨c, hc, rfl⟩
    obtain ⟨t, ht, hread⟩ := exists_of_forall₂ h.flip hc
    exact ⟨t, ht, c.text, carries_of_ofTree hread⟩

/-- The id is the smallest one of a table that no call has. -/
structure FirstUnplaced (table : RegionTable) (found : List Tree) (id : Nat) (r : Region) : Prop where
  region : table.get? id = some r
  unplaced : ¬Placed found id
  smallest : ∀ id', 0 < id' → id' < id → Placed found id'

theorem unplaced?_eq_some_iff {table : RegionTable} {found : List Tree}
    {calls : List PlaceholderCall}
    (h : List.Forall₂ (fun t c => PlaceholderCall.ofTree t = .ok c) found calls) {id : Nat}
    {r : Region} : unplaced? table calls = some (id, r) ↔ FirstUnplaced table found id r := by
  have hplaced : ∀ id, (!calls.any (·.id == id)) = true ↔ ¬Placed found id := by
    intro id
    rw [placed_iff h]
    simp
  refine (find?_numberFrom_eq_some_iff (p := fun id => !calls.any (·.id == id))).trans ⟨?_, ?_⟩
  · rintro ⟨j, rfl, hj, hp, hsmaller⟩
    refine ⟨by rwa [Nat.add_comm], (hplaced _).1 hp, fun id' hpos hlt => ?_⟩
    have := hsmaller (id' - 1) (by omega)
    rw [Nat.add_sub_cancel' hpos] at this
    exact not_not.1 fun hnot => by simp [(hplaced id').2 hnot] at this
  · rintro ⟨hr, hp, hsmaller⟩
    cases id with
    | zero => cases hr
    | succ j =>
      refine ⟨j, Nat.add_comm j 1, hr, (hplaced _).2 hp, fun i hi => ?_⟩
      have := hsmaller (1 + i) (by omega) (by omega)
      exact Bool.eq_false_iff.2 fun htrue => (hplaced _).1 htrue this

/-- The errors in the order in which they are looked for: of the first region without code, of the
first call that has one, of the first region without call. -/
inductive Fails (config : Config) (table : RegionTable) (found : List Tree) : Error → Prop where
  | generation {e : Error} : FirstFailure config table.regions e → Fails config table found e
  | call {e : PlacementError} : Generates config table.regions → FirstOffence table [] found e →
    Fails config table found (.placement e)
  | unplaced {id : Nat} {r : Region} : Generates config table.regions →
    (∀ e, ¬FirstOffence table [] found e) → FirstUnplaced table found id r →
    Fails config table found (.placement (.unplaced id r.offset (String.ofList r.text)))

section

variable {config : Config} {scanned : Scanned} {file : Tree} {generated : List Generated}
  {calls : List PlaceholderCall}

theorem reconcile_of_failure (hfile : parseFile scanned.source = .ok file) {e : Error}
    (hg : generateAll config scanned.table.regions = .error e) :
    reconcile config scanned = .error e := by
  simp only [reconcile, hfile, hg, Except.mapError, bind, Except.bind]

theorem reconcile_of_offence (hfile : parseFile scanned.source = .ok file) {e : PlacementError}
    (hg : generateAll config scanned.table.regions = .ok generated)
    (hc : placeCalls scanned.table [] (callsOf config.placeholder file) = .error e) :
    reconcile config scanned = .error (.placement e) := by
  simp only [reconcile, hfile, hg, hc, Except.mapError, bind, Except.bind]

theorem reconcile_of_unplaced (hfile : parseFile scanned.source = .ok file) {id : Nat} {r : Region}
    (hg : generateAll config scanned.table.regions = .ok generated)
    (hc : placeCalls scanned.table [] (callsOf config.placeholder file) = .ok calls)
    (hu : unplaced? scanned.table calls = some (id, r)) : reconcile config scanned =
      .error (.placement (.unplaced id r.offset (String.ofList r.text))) := by
  simp only [reconcile, hfile, hg, hc, hu, Except.mapError, bind, Except.bind]
  rfl

theorem reconcile_of_placed (hfile : parseFile scanned.source = .ok file)
    (hg : generateAll config scanned.table.regions = .ok generated)
    (hc : placeCalls scanned.table [] (callsOf config.placeholder file) = .ok calls)
    (hu : unplaced? scanned.table calls = none) : ∃ result, reconcile config scanned = .ok result := by
  simp only [reconcile, hfile, hg, hc, hu, Except.mapError, bind, Except.bind]
  cases config.emit <;> exact ⟨_, rfl⟩

theorem exists_generateAll {regions : List Region} (h : Generates config regions) :
    ∃ gs, generateAll config regions = .ok gs := by
  cases hg : generateAll config regions with
  | ok gs => exact ⟨gs, rfl⟩
  | error e => exact absurd h (not_generates_of_firstFailure (generateAll_eq_error_iff.1 hg))

theorem exists_placeCalls {table : RegionTable} {found : List Tree}
    (h : ∀ e, ¬FirstOffence table [] found e) : ∃ calls, placeCalls table [] found = .ok calls := by
  cases hc : placeCalls table [] found with
  | ok calls => exact ⟨calls, rfl⟩
  | error e => exact absurd ((placeCalls_eq_error_iff .nil).1 hc) (h e)

theorem reconcile_eq_error_iff (hfile : parseFile scanned.source = .ok file) {e : Error} :
    reconcile config scanned = .error e ↔
      Fails config scanned.table (callsOf config.placeholder file) e := by
  constructor
  · intro h
    cases hg : generateAll config scanned.table.regions with
    | error e' =>
      cases (reconcile_of_failure hfile hg).symm.trans h
      exact .generation (generateAll_eq_error_iff.1 hg)
    | ok generated =>
      have hall := generates_of_generateAll hg
      cases hc : placeCalls scanned.table [] (callsOf config.placeholder file) with
      | error e' =>
        cases (reconcile_of_offence hfile hg hc).symm.trans h
        exact .call hall ((placeCalls_eq_error_iff .nil).1 hc)
      | ok calls =>
        have hnone : ∀ e, ¬FirstOffence scanned.table [] (callsOf config.placeholder file) e :=
          fun e' he => by cases hc.symm.trans ((placeCalls_eq_error_iff .nil).2 he)
        cases hu : unplaced? scanned.table calls with
        | none =>
          obtain ⟨result, hresult⟩ := reconcile_of_placed hfile hg hc hu
          cases hresult.symm.trans h
        | some p =>
          cases (reconcile_of_unplaced hfile hg hc hu).symm.trans h
          exact .unplaced hall hnone ((unplaced?_eq_some_iff (placeCalls_eq_ok hc).1).1 hu)
  · intro h
    cases h with
    | generation h => exact reconcile_of_failure hfile (generateAll_eq_error_iff.2 h)
    | call hall h =>
      obtain ⟨generated, hg⟩ := exists_generateAll hall
      exact reconcile_of_offence hfile hg ((placeCalls_eq_error_iff .nil).2 h)
    | unplaced hall hnone h =>
      obtain ⟨generated, hg⟩ := exists_generateAll hall
      obtain ⟨calls, hc⟩ := exists_placeCalls hnone
      exact reconcile_of_unplaced hfile hg hc ((unplaced?_eq_some_iff (placeCalls_eq_ok hc).1).2 h)

theorem exists_get?_iff {table : RegionTable} {id : Nat} :
    (∃ r, table.get? id = some r) ↔ 0 < id ∧ id ≤ table.size := by
  cases id with
  | zero => simp [RegionTable.get?]
  | succ k =>
    constructor
    · rintro ⟨r, hr⟩
      obtain ⟨hk, -⟩ := List.getElem?_eq_some_iff.1 hr
      exact ⟨Nat.succ_pos k, hk⟩
    · rintro ⟨-, hk⟩
      exact ⟨_, List.getElem?_eq_getElem hk⟩

theorem forall₂_getElem? {α β : Type} {R : α → β → Prop} {xs : List α} {ys : List β}
    (h : List.Forall₂ R xs ys) {k : Nat} {x : α} (hx : xs[k]? = some x) :
    ∃ y, ys[k]? = some y ∧ R x y := by
  induction h generalizing k with
  | nil => simp at hx
  | @cons _ b _ _ hab _ ih =>
    cases k with
    | zero =>
      cases hx
      exact ⟨b, rfl, hab⟩
    | succ k => exact ih (by simpa using hx)

section

variable {table : RegionTable} {found : List Tree}

theorem Placement.ids_perm (h : Placement table found calls) :
    (calls.map (·.id)).Perm (List.range' 1 table.size) := by
  refine (List.perm_ext_iff_of_nodup h.distinct List.nodup_range').2 fun id => ?_
  have hid : id ∈ List.range' 1 table.size ↔ ∃ r, table.get? id = some r := by
    rw [exists_get?_iff, List.mem_range'_1]
    omega
  rw [hid, List.mem_map]
  constructor
  · rintro ⟨c, hc, rfl⟩
    obtain ⟨r, hr, -⟩ := h.known c hc
    exact ⟨r, hr⟩
  · rintro ⟨r, hr⟩
    exact h.complete id r hr

end

theorem Placement.exists_code {table : RegionTable} {found : List Tree}
    (h : Placement table found calls)
    (hg : List.Forall₂ (fun r g => Generated.ofElement config r.root = .ok g) table.regions generated)
    {c : PlaceholderCall} (hc : c ∈ calls) : ∃ g, generated[c.id - 1]? = some g := by
  obtain ⟨r, hr, -⟩ := h.known c hc
  cases hid : c.id with
  | zero => rw [hid] at hr; cases hr
  | succ k =>
    rw [hid] at hr
    obtain ⟨g, hk, -⟩ := forall₂_getElem? hg hr
    exact ⟨g, hk⟩

end

end InlineMarkup
