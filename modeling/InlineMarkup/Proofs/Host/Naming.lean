import InlineMarkup.Host.Path
import InlineMarkup.Proofs.Host.Boundary
import Mathlib.Data.List.Forall2

/-!
Words and paths. A path is written as its names with double colons between them, and before a
parenthesis it is read as just those words and colons.
-/

set_option autoImplicit false

namespace InlineMarkup.Host

open InlineMarkup.Text
open TokenTree (atomsOf)

def IsWord (w : List Char) : Prop :=
  Lexeme.word? w = some []

instance (w : List Char) : Decidable (IsWord w) :=
  inferInstanceAs (Decidable (_ = _))

theorem plainWord?_alone {w rest : List Char} (h : Lexeme.plainWord? (w ++ rest) = some rest)
    (hw : w ≠ []) : Lexeme.plainWord? w = some [] := by
  cases w with
  | nil => exact absurd rfl hw
  | cons c w =>
    simp only [List.cons_append, Lexeme.plainWord?] at h ⊢
    split at h
    · rename_i hc
      rw [if_pos hc]
      have hdrop := Option.some.inj h
      have htake := List.takeWhile_append_dropWhile (p := isIdentifierContinue) (l := w ++ rest)
      rw [hdrop] at htake
      have hall := List.append_cancel_right htake
      congr
      rw [List.dropWhile_eq_nil_iff]
      intro d hd
      rw [← hall] at hd
      exact List.mem_takeWhile_imp hd
    · cases h

theorem anyWord?_alone {w rest : List Char} (h : Lexeme.anyWord? (w ++ rest) = some rest)
    (hw : w ≠ []) : Lexeme.anyWord? w = some [] := by
  unfold Lexeme.anyWord? at h
  split at h
  · rename_i v hv
    obtain ⟨r, hr, h⟩ := Option.bind_eq_some_iff.1 h
    split at h
    · cases h
    · rename_i hnever
      cases h
      obtain ⟨u, hu, rfl⟩ := Lexeme.plainWord?_shortens hr
      obtain rfl : w = 'r' :: '#' :: u := List.append_cancel_right (by simpa using hv)
      rw [Lexeme.before_append] at hnever
      have hbefore : Lexeme.before u [] = u := by simp [Lexeme.before]
      simp only [Lexeme.anyWord?, plainWord?_alone hr hu, Option.bind_eq_bind, Option.bind_some,
        hbefore, if_neg hnever]
  · rename_i hraw
    unfold Lexeme.anyWord?
    split
    · exact absurd rfl (hraw _)
    · exact plainWord?_alone h hw

theorem isWord_of_word? {w rest : List Char} (h : Lexeme.word? (w ++ rest) = some rest) :
    IsWord w := by
  have hno := Lexeme.not_prefix_of_word? h
  have hne : w ≠ [] := by
    rintro rfl
    have := (Lexeme.word?_shortens h).length_lt
    simp at this
  have hany : Lexeme.literalStarts.any (·.isPrefixOf w) = false := by
    refine Bool.eq_false_iff.2 fun hany => ?_
    obtain ⟨m, hm, hp⟩ := List.any_eq_true.1 hany
    exact hno m hm ((List.isPrefixOf_iff_prefix.1 hp).trans (List.prefix_append w rest))
  unfold IsWord Lexeme.word?
  unfold Lexeme.word? at h
  rw [hany]
  split at h
  · cases h
  · exact anyWord?_alone h hne

theorem leaf?_word {w tail : List Char} (hw : IsWord w) (hb : Lexeme.Breaks tail) (m : Mark) :
    leaf? ⟨w ++ tail, m⟩ =
      some (.word w ⟨m, w.foldl Mark.after m⟩, ⟨tail, w.foldl Mark.after m⟩) := by
  have hword : Lexeme.word? (w ++ tail) = some tail := by
    rw [Lexeme.word?_append_stop hb.stops, hw]
    rfl
  obtain ⟨hliteral, hpunct⟩ := Lexeme.of_word? hword
  simp only [leaf?, hliteral, hpunct, hword, Lexeme.before_append, Cursor.moveTo_append]

theorem reads_word {w tail : List Char} (hw : IsWord w) (hb : Lexeme.Breaks tail) (m : Mark) :
    Reads ⟨w ++ tail, m⟩ [.word w ⟨m, w.foldl Mark.after m⟩] ⟨tail, w.foldl Mark.after m⟩ :=
  .single (Cursor.advance?_leaf (leaf?_word hw hb m))

theorem reads_literal {s tail : List Char} (h : Lexeme.literal? (s ++ tail) = some tail) (m : Mark) :
    Reads ⟨s ++ tail, m⟩ [.literal s ⟨m, s.foldl Mark.after m⟩] ⟨tail, s.foldl Mark.after m⟩ := by
  have hleaf : leaf? ⟨s ++ tail, m⟩ =
      some (.literal s ⟨m, s.foldl Mark.after m⟩, ⟨tail, s.foldl Mark.after m⟩) := by
    simp only [leaf?, h, Lexeme.before_append, Cursor.moveTo_append]
  exact .single (Cursor.advance?_leaf hleaf)

theorem reads_punct (c : Char) (tail : List Char) (hc : c ≠ '\'')
    (hs : Lexeme.startsPunctuation (c :: tail) = true) (m : Mark) :
    Reads ⟨c :: tail, m⟩ [.punct c (Lexeme.startsPunctuation tail) ⟨m, m.after c⟩]
      ⟨tail, m.after c⟩ := by
  have hpunct : Lexeme.punct? (c :: tail) = some (c, Lexeme.startsPunctuation tail, tail) := by
    rw [Lexeme.punct?]
    · rw [if_pos hs]
    · exact hc
  have hmove : (Cursor.mk (c :: tail) m).moveTo tail = ⟨tail, m.after c⟩ :=
    Cursor.moveTo_append [c] tail m
  have hleaf : leaf? ⟨c :: tail, m⟩ = some (.punct c (Lexeme.startsPunctuation tail)
      ⟨m, m.after c⟩, ⟨tail, m.after c⟩) := by
    simp only [leaf?, (Lexeme.of_punct? hpunct).1, hpunct, hmove]
  exact .single (Cursor.advance?_leaf hleaf)

/-- Two atoms that are written the same. A character that is joint must be joint where it is read;
one that is not may be. -/
def Atom.Matches : Atom → Atom → Prop
  | .word w _, .word w' _ => w = w'
  | .punct c joint _, .punct c' joint' _ => c = c' ∧ (joint = true → joint' = true)
  | .literal s _, .literal s' _ => s = s'
  | .opening d _, .opening d' _ => d = d'
  | .closing d _, .closing d' _ => d = d'
  | _, _ => False

def Atom.isName : Atom → Bool
  | .word _ _ => true
  | .punct c _ _ => c == ':'
  | _ => false

theorem Atom.Matches.isName_eq {a b : Atom} (h : a.Matches b) : a.isName = b.isName := by
  cases a <;> cases b <;> simp_all [Atom.Matches, Atom.isName]

def colonAtoms : List Atom :=
  [.punct ':' true Span.nowhere, .punct ':' false Span.nowhere]

def nameAtoms : List (List Char) → List Atom
  | [] => []
  | [w] => [.word w Span.nowhere]
  | w :: ws => .word w Span.nowhere :: (colonAtoms ++ nameAtoms ws)

def Path.atoms (p : Path) : List Atom :=
  (if p.rooted then colonAtoms else []) ++ nameAtoms (p.segments.map (·.name))

theorem isName_of_nameAtoms (names : List (List Char)) : ∀ a ∈ nameAtoms names, a.isName := by
  induction names with
  | nil => simp [nameAtoms]
  | cons w ws ih =>
    cases ws with
    | nil => simp [nameAtoms, Atom.isName]
    | cons v vs => simpa [nameAtoms, colonAtoms, Atom.isName] using ih

theorem Path.isName_of_atoms (p : Path) : ∀ a ∈ p.atoms, a.isName := by
  unfold Path.atoms
  refine List.forall_mem_append.2 ⟨?_, isName_of_nameAtoms _⟩
  split <;> simp [colonAtoms, Atom.isName]

theorem isName_of_matches {as bs : List Atom} (h : List.Forall₂ Atom.Matches as bs)
    (has : ∀ a ∈ as, a.isName) : ∀ b ∈ bs, b.isName := by
  induction h with
  | nil => simp
  | cons hab _ ih =>
    obtain ⟨ha, has⟩ := List.forall_mem_cons.1 has
    exact List.forall_mem_cons.2 ⟨hab.isName_eq ▸ ha, ih has⟩

theorem reads_colons (tail : List Char) (m : Mark) :
    ∃ as m', Reads ⟨':' :: ':' :: tail, m⟩ as ⟨tail, m'⟩ ∧ List.Forall₂ Atom.Matches colonAtoms as := by
  have hfirst := reads_punct ':' (':' :: tail) (by decide) rfl m
  have hsecond := reads_punct ':' tail (by decide) rfl (m.after ':')
  exact ⟨_, _, hfirst.trans hsecond,
    .cons ⟨rfl, fun _ => rfl⟩ (.cons ⟨rfl, fun h => by cases h⟩ .nil)⟩

theorem reads_names {names : List (List Char)} {tail : List Char} (hne : names ≠ [])
    (hwords : ∀ w ∈ names, IsWord w) (hb : Lexeme.Breaks tail) (m : Mark) :
    ∃ as m', Reads ⟨join [':', ':'] names ++ tail, m⟩ as ⟨tail, m'⟩ ∧
      List.Forall₂ Atom.Matches (nameAtoms names) as := by
  induction names generalizing m with
  | nil => exact absurd rfl hne
  | cons w ws ih =>
    have hw := hwords w (by simp)
    cases ws with
    | nil => exact ⟨_, _, reads_word hw hb m, .cons rfl .nil⟩
    | cons v vs =>
      have htail : join [':', ':'] (w :: v :: vs) ++ tail =
          w ++ (':' :: ':' :: (join [':', ':'] (v :: vs) ++ tail)) := by simp [join]
      rw [htail]
      have hfirst := reads_word hw (Lexeme.breaks_cons ':' (':' :: (join [':', ':'] (v :: vs) ++ tail))) m
      obtain ⟨as, m', hcolons, has⟩ := reads_colons (join [':', ':'] (v :: vs) ++ tail)
        (w.foldl Mark.after m)
      obtain ⟨bs, m'', hrest, hbs⟩ := ih (by simp) (fun u hu => hwords u (by simp [hu])) m'
      exact ⟨_, m'', hfirst.trans (hcolons.trans hrest), .cons rfl (List.rel_append has hbs)⟩

/-- A path that names a function: it has a name, and its names are words. -/
structure Path.IsWritten (p : Path) : Prop where
  nonempty : p.segments ≠ []
  words : ∀ s ∈ p.segments, IsWord s.name

theorem Path.IsWritten.text_eq_cons {p : Path} (hp : p.IsWritten) :
    ∃ c s, p.text = c :: s ∧ Lexeme.beginsLeaf c = true := by
  obtain ⟨rooted, segments⟩ := p
  cases rooted with
  | true => exact ⟨':', _, rfl, by decide⟩
  | false =>
    cases segments with
    | nil => exact absurd rfl hp.nonempty
    | cons s segments =>
      obtain ⟨c, w, hw, hc⟩ := Lexeme.word?_eq_cons (hp.words s List.mem_cons_self)
      have hbegins : Lexeme.beginsLeaf c = true := by simp [Lexeme.beginsLeaf, hc]
      cases segments with
      | nil => exact ⟨c, w, by simp [Path.text, join, hw], hbegins⟩
      | cons s' segments => exact ⟨c, _, by simp [Path.text, join, hw]; rfl, hbegins⟩

theorem reads_path {p : Path} {tail : List Char} (hp : p.IsWritten) (hb : Lexeme.Breaks tail)
    (m : Mark) :
    ∃ as m', Reads ⟨p.text ++ tail, m⟩ as ⟨tail, m'⟩ ∧ List.Forall₂ Atom.Matches p.atoms as := by
  have hne : p.segments.map (·.name) ≠ [] := by simpa using hp.nonempty
  have hwords : ∀ w ∈ p.segments.map (·.name), IsWord w := by
    simpa using hp.words
  unfold Path.text Path.atoms
  cases p.rooted with
  | false => exact reads_names hne hwords hb m
  | true =>
    obtain ⟨as, m', hcolons, has⟩ :=
      reads_colons (join [':', ':'] (p.segments.map (·.name)) ++ tail) m
    obtain ⟨bs, m'', hrest, hbs⟩ := reads_names hne hwords hb m'
    exact ⟨as ++ bs, m'', hcolons.trans hrest, List.rel_append has hbs⟩

end InlineMarkup.Host
