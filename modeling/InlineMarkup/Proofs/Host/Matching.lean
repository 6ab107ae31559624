import InlineMarkup.Proofs.Host.Naming

/-!
Tokens that are written the same. Matching keeps the brackets, so what matches the atoms of tokens
is the atoms of tokens again; and the brackets of tokens are balanced.
-/

set_option autoImplicit false

namespace InlineMarkup.Host

open InlineMarkup.Text
open TokenTree (atomsOf)

theorem Atom.Matches.trans {a b c : Atom} (h : a.Matches b) (h' : b.Matches c) : a.Matches c := by
  cases a <;> cases b <;> cases c <;> simp_all [Atom.Matches]

theorem matches_trans {as bs cs : List Atom} (h : List.Forall₂ Atom.Matches as bs)
    (h' : List.Forall₂ Atom.Matches bs cs) : List.Forall₂ Atom.Matches as cs := by
  induction h generalizing cs with
  | nil =>
    cases h'
    exact .nil
  | cons hab _ ih =>
    cases h' with
    | cons hbc hrest => exact .cons (hab.trans hbc) (ih hrest)

theorem split_of_forall₂_append {α β : Type} {R : α → β → Prop} {as as' : List α} {bs : List β}
    (h : List.Forall₂ R (as ++ as') bs) :
    ∃ cs cs', bs = cs ++ cs' ∧ List.Forall₂ R as cs ∧ List.Forall₂ R as' cs' := by
  induction as generalizing bs with
  | nil => exact ⟨[], bs, rfl, .nil, h⟩
  | cons a as ih =>
    cases h with
    | cons hab hrest =>
      obtain ⟨cs, cs', rfl, hcs, hcs'⟩ := ih hrest
      exact ⟨_ :: cs, cs', rfl, .cons hab hcs, hcs'⟩

mutual

theorem exists_tokens_of_matches {t : TokenTree} {bs : List Atom}
    (h : List.Forall₂ Atom.Matches t.atoms bs) : ∃ u : TokenTree, bs = u.atoms := by
  cases t with
  | word w span =>
    cases h with
    | @cons _ b _ _ hab hnil =>
      cases hnil
      cases b with
      | word w' span' => exact ⟨.word w' span', by simp [TokenTree.atoms]⟩
      | _ => cases hab
  | punct c joint span =>
    cases h with
    | @cons _ b _ _ hab hnil =>
      cases hnil
      cases b with
      | punct c' joint' span' => exact ⟨.punct c' joint' span', by simp [TokenTree.atoms]⟩
      | _ => cases hab
  | literal s span =>
    cases h with
    | @cons _ b _ _ hab hnil =>
      cases hnil
      cases b with
      | literal s' span' => exact ⟨.literal s' span', by simp [TokenTree.atoms]⟩
      | _ => cases hab
  | group d contents opening closing =>
    rw [TokenTree.atoms] at h
    cases h with
    | @cons _ b _ cs hab hrest =>
      -- the contents match the contents, and what is left matches the closing bracket
      obtain ⟨ds, es, rfl, hds, hes⟩ := split_of_forall₂_append hrest
      obtain ⟨us, rfl, -⟩ := exists_atomsOf_of_matches hds
      cases hes with
      | @cons _ c _ _ hc hnil =>
        cases hnil
        cases b <;> cases hab
        cases c <;> cases hc
        rename_i opening' closing'
        exact ⟨.group d us opening' closing', by simp [TokenTree.atoms]⟩

theorem exists_atomsOf_of_matches {ts : List TokenTree} {bs : List Atom}
    (h : List.Forall₂ Atom.Matches (atomsOf ts) bs) :
    ∃ us, bs = atomsOf us ∧ us.length = ts.length := by
  cases ts with
  | nil =>
    rw [atomsOf_nil] at h
    cases h
    exact ⟨[], by simp⟩
  | cons t ts =>
    rw [atomsOf_cons] at h
    obtain ⟨cs, ds, rfl, hcs, hds⟩ := split_of_forall₂_append h
    obtain ⟨u, rfl⟩ := exists_tokens_of_matches hcs
    obtain ⟨us, rfl, hlength⟩ := exists_atomsOf_of_matches hds
    exact ⟨u :: us, by simp [hlength]⟩

end

def Atom.depth : Atom → Int
  | .opening _ _ => 1
  | .closing _ _ => -1
  | _ => 0

def depth : List Atom → Int
  | [] => 0
  | a :: as => a.depth + depth as

@[simp] theorem depth_nil : depth [] = 0 := rfl

@[simp] theorem depth_cons (a : Atom) (as : List Atom) : depth (a :: as) = a.depth + depth as :=
  rfl

@[simp] theorem depth_append (as bs : List Atom) : depth (as ++ bs) = depth as + depth bs := by
  induction as with
  | nil => simp
  | cons a as ih => simp [ih, Int.add_assoc]

mutual

theorem depth_atoms (t : TokenTree) : depth t.atoms = 0 := by
  cases t with
  | word w span => simp [TokenTree.atoms, Atom.depth]
  | punct c joint span => simp [TokenTree.atoms, Atom.depth]
  | literal s span => simp [TokenTree.atoms, Atom.depth]
  | group d contents opening closing =>
    simp [TokenTree.atoms, Atom.depth, depth_atomsOf contents]

/-- Tokens close as many brackets as they open. -/
theorem depth_atomsOf (ts : List TokenTree) : depth (atomsOf ts) = 0 := by
  cases ts with
  | nil => simp
  | cons t ts => simp [depth_atoms t, depth_atomsOf ts]

end

def SameTokens (ts us : List TokenTree) : Prop :=
  List.Forall₂ Atom.Matches (atomsOf ts) (atomsOf us)

instance : DecidableRel Atom.Matches := fun a b => by
  cases a <;> cases b <;> unfold Atom.Matches <;> infer_instance

instance (ts us : List TokenTree) : Decidable (SameTokens ts us) :=
  inferInstanceAs (Decidable (List.Forall₂ Atom.Matches (atomsOf ts) (atomsOf us)))

theorem Atom.Matches.refl (a : Atom) : a.Matches a := by
  cases a <;> simp [Atom.Matches]

theorem SameTokens.refl (ts : List TokenTree) : SameTokens ts ts :=
  List.forall₂_same.2 fun a _ => .refl a

theorem SameTokens.trans {ts us vs : List TokenTree} (h : SameTokens ts us)
    (h' : SameTokens us vs) : SameTokens ts vs :=
  matches_trans h h'

theorem exists_sameTokens {ts : List TokenTree} {bs : List Atom}
    (h : List.Forall₂ Atom.Matches (atomsOf ts) bs) : ∃ us, bs = atomsOf us ∧ SameTokens ts us := by
  obtain ⟨us, rfl, -⟩ := exists_atomsOf_of_matches h
  exact ⟨us, rfl, h⟩

theorem atomsOf_injective {ts us : List TokenTree} (h : atomsOf ts = atomsOf us) : ts = us := by
  have hts := feed_atomsOf [] [] ts
  rw [h, feed_atomsOf] at hts
  simpa using hts.symm

/-- What comes before the atoms of tokens, in the atoms of tokens, is the atoms of tokens. -/
theorem exists_of_atomsOf_eq_append {ts us : List TokenTree} {as : List Atom}
    (h : atomsOf ts = as ++ atomsOf us) : ∃ vs, as = atomsOf vs ∧ ts = vs ++ us := by
  have hfeed := feed_atomsOf [] [] ts
  rw [h, feed_append] at hfeed
  obtain ⟨⟨frames, done⟩, has, hus⟩ := Option.bind_eq_some_iff.1 hfeed
  rw [feed_atomsOf] at hus
  obtain ⟨rfl, hdone⟩ := Prod.mk.inj (Option.some.inj hus)
  have hpending := feed_pending has
  simp only [pending, List.reverse_nil, atomsOf_nil, List.nil_append] at hpending
  refine ⟨done.reverse, hpending.symm, ?_⟩
  have := congrArg List.reverse hdone
  simpa using this.symm

theorem SameTokens.length_eq {ts us : List TokenTree} (h : SameTokens ts us) :
    ts.length = us.length := by
  obtain ⟨vs, hvs, hlength⟩ := exists_atomsOf_of_matches h
  rw [atomsOf_injective hvs, hlength]

def BeginsArgument (ts : List TokenTree) : Prop :=
  ∃ t us, ts = t :: us ∧ ∀ joint span, t ≠ .punct ',' joint span

theorem BeginsArgument.of_sameTokens {ts us : List TokenTree} (h : SameTokens ts us)
    (hts : BeginsArgument ts) : BeginsArgument us := by
  obtain ⟨t, ts, rfl, ht⟩ := hts
  have hlength := h.length_eq
  cases us with
  | nil => cases hlength
  | cons u us =>
    refine ⟨u, us, rfl, ?_⟩
    rintro joint span rfl
    rw [SameTokens, atomsOf_cons, atomsOf_cons, TokenTree.atoms] at h
    cases t with
    | punct c joint' span' =>
      rw [TokenTree.atoms] at h
      cases h with
      | cons hcomma _ =>
        obtain ⟨rfl, -⟩ := hcomma
        exact ht joint' span' rfl
    | _ =>
      rw [TokenTree.atoms] at h
      cases h with
      | cons hcomma _ => cases hcomma

theorem BeginsArgument.append {ts : List TokenTree} (h : BeginsArgument ts) (us : List TokenTree) :
    BeginsArgument (ts ++ us) := by
  obtain ⟨t, vs, rfl, ht⟩ := h
  exact ⟨t, vs ++ us, rfl, ht⟩

def literals (as : List Atom) : List (List Char) :=
  as.filterMap fun
    | .literal s _ => some s
    | _ => none

theorem literals_of_matches {as bs : List Atom} (h : List.Forall₂ Atom.Matches as bs) :
    literals as = literals bs := by
  induction h with
  | nil => rfl
  | @cons a b as bs hab _ ih =>
    cases a <;> cases b <;> first
      | exact hab.elim
      | exact ih
      | exact congrArg₂ List.cons hab ih

theorem SameTokens.literals_eq {ts us : List TokenTree} (h : SameTokens ts us) :
    literals (atomsOf ts) = literals (atomsOf us) :=
  literals_of_matches h

theorem literals_append (as bs : List Atom) : literals (as ++ bs) = literals as ++ literals bs :=
  List.filterMap_append

theorem atomsOf_segmentTrees {ss : List PathSegment} (h : ∀ s ∈ ss, s.arguments = none)
    (turbofish : Bool) :
    atomsOf (Tree.tokensOf (Path.segmentTrees turbofish ss)) = nameAtoms (ss.map (·.name)) := by
  induction ss with
  | nil => rfl
  | cons s ss ih =>
    have hs : atomsOf (Path.segmentTree turbofish s).tokens = [.word s.name Span.nowhere] := by
      simp [Path.segmentTree, h s List.mem_cons_self, Tree.tokens, Tree.tokensOf, TokenTree.atoms]
    cases ss with
    | nil => simpa [Path.segmentTrees, Tree.tokensOf, nameAtoms] using hs
    | cons t ss =>
      have ih := ih fun s hs => h s (List.mem_cons_of_mem _ hs)
      simp only [List.map_cons] at ih ⊢
      simp [Path.segmentTrees, Tree.tokensOf, nameAtoms, hs, ih, Path.doubleColon, Tree.tokens,
        colonAtoms, TokenTree.atoms]

theorem Path.atomsOf_toTree {p : Path} (h : ∀ s ∈ p.segments, s.arguments = none)
    (inExpr : Bool) : atomsOf (p.toTree inExpr).tokens = p.atoms := by
  have hsegments := atomsOf_segmentTrees h inExpr
  cases hrooted : p.rooted
  · simpa [Path.toTree, Path.atoms, Tree.tokens, hrooted] using hsegments
  · simpa [Path.toTree, Path.atoms, Tree.tokens, Tree.tokensOf, hrooted, Path.doubleColon,
      colonAtoms, TokenTree.atoms] using hsegments

theorem reads_path_tokens {p : Path} {tail : List Char} (hp : p.IsWritten)
    (hplain : ∀ s ∈ p.segments, s.arguments = none) (hb : Lexeme.Breaks tail) (m : Mark) :
    ∃ ts m', Reads ⟨p.text ++ tail, m⟩ (atomsOf ts) ⟨tail, m'⟩ ∧
      SameTokens (p.toTree true).tokens ts := by
  obtain ⟨as, m', hreads, has⟩ := reads_path hp hb m
  rw [← Path.atomsOf_toTree hplain true] at has
  obtain ⟨ts, rfl, hts⟩ := exists_sameTokens has
  exact ⟨ts, m', hreads, hts⟩

theorem Path.beginsArgument {p : Path} (hp : p.IsWritten) :
    BeginsArgument (p.toTree true).tokens := by
  have hne := hp.nonempty
  unfold Path.toTree
  cases hrooted : p.rooted
  · cases hsegments : p.segments with
    | nil => exact absurd hsegments hne
    | cons s ss =>
      cases ss with
      | nil => exact ⟨_, _, rfl, by simp⟩
      | cons t ss => exact ⟨_, _, rfl, by simp⟩
  · exact ⟨_, _, rfl, by simp⟩

end InlineMarkup.Host
