import InlineMarkup.Proofs.Region.Division

/-!
Runs of a scan: the pieces that are read between two states. What a scan returns is what a run reads
and what is read on from its last state.
-/

set_option autoImplicit false

namespace InlineMarkup

namespace Scan

def start (source : List Char) : State :=
  { rest := source }

/-- The pieces that are read on the way from one state to another. -/
inductive Runs : State → List Piece → State → Prop where
  | done (s : State) : Runs s [] s
  | step {s next last : State} {piece : Piece} {ps : List Piece} {c : Char} {after : List Char} :
    s.rest = c :: after → Scan.step s c after = .ok (piece, next) → Runs next ps last →
    Runs s (piece :: ps) last

theorem Runs.trans {s m t : State} {ps qs : List Piece} (h : Runs s ps m) (h' : Runs m qs t) :
    Runs s (ps ++ qs) t := by
  induction h with
  | done => exact h'
  | step hrest hstep _ ih => exact .step hrest hstep (ih h')

def readOn (source : List Char) (s : State) : Except Error (List Piece) :=
  readFrom source (s.rest.length + 1) s

theorem length_lt_of_step {s next : State} {piece : Piece} {c : Char} {after : List Char}
    (hrest : s.rest = c :: after) (hstep : step s c after = .ok (piece, next)) :
    next.rest.length < s.rest.length := by
  have ht := step_takes (by simp [hrest]) hstep
  have hpos := List.length_pos_iff.2 ht.nonempty
  rw [ht.rest_eq, List.length_append]
  omega

section Reading

variable {source : List Char} {s next : State} {piece : Piece} {c : Char} {after : List Char}

theorem readFrom_step (fuel : Nat) (hrest : s.rest = c :: after)
    (hstep : step s c after = .ok (piece, next)) :
    readFrom source (fuel + 1) s = (readFrom source fuel next).map (piece :: ·) := by
  simp only [readFrom, hrest, hstep]
  change (readFrom source fuel next >>= fun ps => pure (piece :: ps)) = _
  cases readFrom source fuel next <;> rfl

theorem readFrom_step_error {e : Error} (fuel : Nat) (hrest : s.rest = c :: after)
    (hstep : step s c after = .error e) : readFrom source (fuel + 1) s = .error e := by
  simp only [readFrom, hrest, hstep]
  rfl

theorem readFrom_congr {fuel fuel' : Nat} (h : s.rest.length < fuel) (h' : s.rest.length < fuel') :
    readFrom source fuel s = readFrom source fuel' s := by
  induction fuel generalizing fuel' s with
  | zero => omega
  | succ fuel ih =>
    obtain ⟨fuel', rfl⟩ : ∃ n, fuel' = n + 1 := ⟨fuel' - 1, by omega⟩
    cases hrest : s.rest with
    | nil => simp [readFrom, hrest]
    | cons c after =>
      cases hstep : step s c after with
      | error e => rw [readFrom_step_error fuel hrest hstep, readFrom_step_error fuel' hrest hstep]
      | ok p =>
        have hlt := length_lt_of_step hrest hstep
        have hnext := @ih p.2 fuel' (by omega) (by omega)
        rw [readFrom_step fuel hrest hstep, readFrom_step fuel' hrest hstep, hnext]

theorem readOn_nil (h : s.rest = []) : readOn source s = finish source s.place := by
  simp [readOn, readFrom, h]

theorem readOn_step (hrest : s.rest = c :: after) (hstep : step s c after = .ok (piece, next)) :
    readOn source s = (readOn source next).map (piece :: ·) := by
  have hlt := length_lt_of_step hrest hstep
  rw [readOn, readFrom_step _ hrest hstep, readOn, readFrom_congr hlt (Nat.lt_succ_self _)]

theorem Runs.readOn_eq {t : State} {ps : List Piece} (h : Runs s ps t) :
    readOn source s = (readOn source t).map (ps ++ ·) := by
  induction h with
  | done s => cases readOn source s <;> rfl
  | @step _ _ t _ _ _ _ hrest hstep _ ih =>
    rw [readOn_step hrest hstep, ih]
    cases readOn source t <;> rfl

end Reading

theorem Runs.rest_eq {s t : State} {ps : List Piece} (h : Runs s ps t) :
    s.rest = (ps.map Piece.text).flatten ++ t.rest ∧
      t.behind = (ps.map Piece.text).flatten.reverse ++ s.behind := by
  induction h with
  | done => simp
  | step hrest hstep _ ih =>
    have ht := step_takes (by simp [hrest]) hstep
    simp [ht.rest_eq, ih, ht.behind_eq]

/-- The scan goes from `s` to `next`, keeps the text between them and finds no region there. -/
structure Echoes (s : State) (text : List Char) (next : State) : Prop where
  run : ∃ ps, Runs s ps next ∧ regionsOf ps = [] ∧ (ps.map Piece.text).flatten = text
  rest_eq : s.rest = text ++ next.rest
  behind_eq : next.behind = text.reverse ++ s.behind

theorem regionsOf_append (ps qs : List Piece) :
    regionsOf (ps ++ qs) = regionsOf ps ++ regionsOf qs := by
  induction ps with
  | nil => rfl
  | cons p ps ih => cases p <;> simp [regionsOf, ih]

theorem Echoes.of_step {s next : State} {text : List Char} {c : Char} {after : List Char}
    (hrest : s.rest = c :: after) (hstep : step s c after = .ok (.kept text, next)) :
    Echoes s text next where
  run := ⟨[.kept text], .step hrest hstep (.done next), rfl, by simp [Piece.text]⟩
  rest_eq := (step_takes (by simp [hrest]) hstep).rest_eq
  behind_eq := (step_takes (by simp [hrest]) hstep).behind_eq

theorem Echoes.of_rule {s : State} {text : List Char} {c : Char} {after : List Char} {n : Nat}
    {place : Place} {context : Context} (hrest : s.rest = c :: after)
    (h : Rule s c after n place context) (htext : s.rest.take n = text) :
    Echoes s text (s.past n place context) :=
  .of_step hrest (htext ▸ h.step_eq)

theorem Echoes.trans {s m t : State} {x y : List Char} (h : Echoes s x m) (h' : Echoes m y t) :
    Echoes s (x ++ y) t := by
  obtain ⟨ps, hps, hnone, htext⟩ := h.run
  obtain ⟨qs, hqs, hnone', htext'⟩ := h'.run
  refine ⟨⟨ps ++ qs, hps.trans hqs, ?_, ?_⟩, ?_, ?_⟩
  · rw [regionsOf_append, hnone, hnone', List.append_nil]
  · rw [List.map_append, List.flatten_append, htext, htext']
  · rw [h.rest_eq, h'.rest_eq, List.append_assoc]
  · rw [h'.behind_eq, h.behind_eq, List.reverse_append, List.append_assoc]

theorem Echoes.next_rest {s t : State} {x rest : List Char} (h : Echoes s x t)
    (hs : s.rest = x ++ rest) : t.rest = rest :=
  List.append_cancel_left (h.rest_eq.symm.trans hs)

end Scan

open InlineMarkup.Scan

theorem annotateFrom_append (placeholder : Host.Path) (id : Nat) (ps qs : List Piece) :
    annotateFrom placeholder id (ps ++ qs) =
      annotateFrom placeholder id ps ++ annotateFrom placeholder (id + (regionsOf ps).length) qs := by
  induction ps generalizing id with
  | nil => rfl
  | cons p ps ih =>
    cases p with
    | kept text => simp [annotateFrom, regionsOf, ih]
    | region r => simp [annotateFrom, regionsOf, ih, Nat.add_comm, Nat.add_left_comm]

theorem annotateFrom_of_regionsOf_nil (placeholder : Host.Path) (id : Nat) {ps : List Piece}
    (h : regionsOf ps = []) : annotateFrom placeholder id ps = (ps.map Piece.text).flatten := by
  induction ps with
  | nil => rfl
  | cons p ps ih =>
    cases p with
    | kept text => simp [annotateFrom, Piece.text, ih h]
    | region r => cases h

theorem scan_eq_map (placeholder : Host.Path) (source : List Char) :
    scan placeholder source = (readOn source (start source)).map fun ps =>
      ⟨annotateFrom placeholder 1 ps, ⟨regionsOf ps⟩⟩ := by
  change (readOn source (start source) >>= fun ps =>
    pure (Scanned.mk (annotateFrom placeholder 1 ps) ⟨regionsOf ps⟩)) = _
  cases readOn source (start source) <;> rfl

end InlineMarkup
