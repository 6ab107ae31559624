import InlineMarkup.Proofs.Host.Position
import InlineMarkup.Proofs.Host.Grammar.Item
import InlineMarkup.Proofs.Region.Emission
import InlineMarkup.Proofs.Reconcile.Arguments

/-!
A placeholder call that is found where one was written is that one: it has the id that was written,
and it ends where the writing ended (`call_of_emission`).
-/

set_option autoImplicit false

namespace InlineMarkup

open InlineMarkup.Text InlineMarkup.Host
open Host.TokenTree (atomsOf)

theorem PlaceholderCall.ofTree_eq_ok {t : Host.Tree} {call : PlaceholderCall}
    (h : PlaceholderCall.ofTree t = .ok call) :
    ∃ path d opening closing children first second,
      pathCall? t = some (path, .group d opening closing children) ∧
      children.filter (·.kind?.isSome) = [first, second] ∧
      idOf? first = some call.id ∧ textOf? second = some call.text ∧
      call.start = path.start ∧ call.stop = closing.stop := by
  unfold PlaceholderCall.ofTree at h
  simp only at h
  split at h
  · rename_i path d opening closing children hpath
    split at h
    · rename_i first second hargs
      split at h
      · rename_i id text hid htext
        cases h
        exact ⟨path, d, opening, closing, children, first, second, hpath, hargs, hid, htext, rfl, rfl⟩
      · cases h
    · cases h
  · cases h

theorem idOf?_literal (s : List Char) (span : Span) :
    idOf? (.node .literal [.token [.literal s span]]) =
      (Literal.integer? s).bind fun p => if p.1 < idLimit then some p.1 else none :=
  rfl

theorem eq_of_idOf?_literal {id n : Nat} {span : Span}
    (h : idOf? (.node .literal [.token [.literal (toString id).toList span]]) = some n) : n = id := by
  rw [idOf?_literal, integer?_id] at h
  simp only [Option.bind_some] at h
  split at h <;> cases h
  rfl

/-- The head of a call is found in one way: names up to the first atom that is none. -/
theorem names_unique {ns ns' as as' : List Atom} {a a' : Atom}
    (h : ns ++ a :: as = ns' ++ a' :: as') (hns : ∀ n ∈ ns, n.isName) (hns' : ∀ n ∈ ns', n.isName)
    (ha : a.isName = false) (ha' : a'.isName = false) : ns = ns' ∧ a = a' ∧ as = as' := by
  induction ns generalizing ns' with
  | nil =>
    cases ns' with
    | nil => exact ⟨rfl, List.cons.inj h⟩
    | cons n ns' =>
      obtain ⟨rfl, -⟩ := List.cons.inj h
      have := hns' a List.mem_cons_self
      simp [ha] at this
  | cons n ns ih =>
    obtain ⟨hn, hns⟩ := List.forall_mem_cons.1 hns
    cases ns' with
    | nil =>
      obtain ⟨rfl, -⟩ := List.cons.inj h
      simp [ha'] at hn
    | cons n' ns' =>
      obtain ⟨rfl, htail⟩ := List.cons.inj h
      obtain ⟨rfl, rfl, rfl⟩ := ih htail hns (List.forall_mem_cons.1 hns').2
      exact ⟨rfl, rfl, rfl⟩

theorem exists_cons_of_atomsOf {ts : List TokenTree} {t : TokenTree} {a : Atom} {as bs : List Atom}
    {d : Delimiter} {closing : Span} (ha : t.atoms = [a])
    (h : atomsOf ts ++ .closing d closing :: as = a :: bs) :
    ∃ us, ts = t :: us ∧ atomsOf us ++ .closing d closing :: as = bs := by
  cases ts with
  | nil =>
    obtain ⟨rfl, -⟩ := List.cons.inj h
    cases t <;> simp [TokenTree.atoms] at ha
  | cons u us => cases t <;> cases u <;> simp [TokenTree.atoms] at ha h ⊢ <;> grind

theorem tokens_of_literals {ts : List TokenTree} {d : Delimiter} {closing closing' : Span}
    {id text : List Char} {span span' span'' : Span} {joint : Bool} {as bs : List Atom}
    (h : atomsOf ts ++ .closing d closing :: as =
      .literal id span :: .punct ',' joint span' :: .literal text span'' ::
        .closing d closing' :: bs) :
    ts = [.literal id span, .punct ',' joint span', .literal text span''] ∧ closing = closing' := by
  obtain ⟨us, rfl, hus⟩ := exists_cons_of_atomsOf (t := .literal id span) rfl h
  obtain ⟨vs, rfl, hvs⟩ := exists_cons_of_atomsOf (t := .punct ',' joint span') rfl hus
  obtain ⟨ws, rfl, hws⟩ := exists_cons_of_atomsOf (t := .literal text span'') rfl hvs
  cases ws with
  | nil =>
    obtain ⟨hclosing, -⟩ := List.cons.inj hws
    cases hclosing
    exact ⟨rfl, rfl⟩
  | cons w ws => cases w <;> simp [TokenTree.atoms] at hws

/-- A call that is read from the place of a placeholder call is that one: its arguments are the
literals that were written, and it ends where the writing ended. -/
theorem read_at_emission {function : Host.Path} (hf : function.IsWritten) {id : Nat}
    {text rest : List Char} {m last : Mark} {tokens contents : List TokenTree}
    {opening closing : Span} {as : List Atom} (htokens : ∀ t ∈ tokens, t.isName)
    (h : Reads ⟨placeholderCall function id text ++ rest, m⟩
      (atomsOf tokens ++ .opening .parenthesis opening ::
        (atomsOf contents ++ .closing .parenthesis closing :: as)) ⟨[], last⟩) :
    (∃ span joint span' span'', contents = [.literal (toString id).toList span,
      .punct ',' joint span', .literal (rawStringLiteral text) span'']) ∧
      closing.stop = (placeholderCall function id text).foldl Mark.after m := by
  obtain ⟨ns, o, span, joint, span', span'', closing', bs, heq, hns, hstop⟩ :=
    reads_placeholderCall hf h
  obtain ⟨-, -, hcontents⟩ := names_unique heq (isName_of_mem_atomsOf htokens) hns rfl rfl
  obtain ⟨rfl, rfl⟩ := tokens_of_literals hcontents
  exact ⟨⟨span, joint, span', span'', rfl⟩, hstop⟩

theorem isNamedBy_iff {function path : Host.Path} : function.isNamedBy path ↔
    function.rooted = path.rooted ∧
      function.segments.map (·.name) = path.segments.map (·.name) ∧
      ∀ s ∈ path.segments, s.arguments = none := by
  simp [Host.Path.isNamedBy, and_assoc]

theorem segments_ne_nil_of_named {function : Host.Path} {path : Host.Tree}
    {tokens : List TokenTree} (hnamed : function.isNamedBy (.ofTree path))
    (hn : Names tokens path) : function.segments ≠ [] := by
  obtain ⟨-, hsegments, -⟩ := isNamedBy_iff.1 hnamed
  intro hnil
  rw [hnil] at hsegments
  exact hn.segments (List.map_eq_nil_iff.1 hsegments.symm)

theorem isWritten_of_named {function : Host.Path} {path : Host.Tree} {tokens : List TokenTree}
    {c d : Cursor} {as : List Atom} (hnamed : function.isNamedBy (.ofTree path))
    (hn : Names tokens path) (h : Reads c as d) (hmem : ∀ a ∈ atomsOf tokens, a ∈ as) :
    function.IsWritten := by
  obtain ⟨-, hsegments, -⟩ := isNamedBy_iff.1 hnamed
  refine ⟨segments_ne_nil_of_named hnamed hn, fun s hs => ?_⟩
  have hname : s.name ∈ (Host.Path.ofTree path).segments.map (·.name) :=
    hsegments ▸ List.mem_map_of_mem hs
  obtain ⟨s', hs', hname⟩ := List.mem_map.1 hname
  obtain ⟨span, hspan⟩ := hn.words s' hs'
  rw [← hname]
  exact h.isWord (hmem _ (mem_atomsOf hspan List.mem_cons_self))

theorem stands_of_found {function : Host.Path} {source : List Char} {file t path group : Host.Tree}
    (hfile : parseFile source = .ok file) (ht : t ∈ callsOf function file)
    (hpath : pathCall? t = some (path, group)) :
    ∃ ts, tokens (dropInterpreterLine (dropByteOrderMark source)) = .ok ts ∧
      function.isNamedBy (.ofTree path) ∧ Stands ts path group := by
  obtain ⟨ts, hts, hground⟩ := grounded_parseFile hfile
  obtain ⟨htree, hcallOf⟩ := grounded_of_callsOf hground ht
  have hnamed : function.isNamedBy (.ofTree path) := by
    simpa [isCallOf, hpath] using hcallOf
  exact ⟨ts, hts, hnamed, htree.stands hpath (isNamedBy_iff.1 hnamed).2.2⟩

theorem isWritten_of_found {function : Host.Path} {source : List Char}
    {file t path group : Host.Tree} (hfile : parseFile source = .ok file)
    (ht : t ∈ callsOf function file) (hpath : pathCall? t = some (path, group)) :
    function.IsWritten := by
  obtain ⟨ts, hts, hnamed, hstands⟩ := stands_of_found hfile ht hpath
  obtain ⟨c, m, -, hreads⟩ := reads_file hts
  cases hstands with
  | intro hnames hwithin _ =>
    obtain ⟨before, behind, hatoms⟩ := hwithin.atomsOf_eq
    exact isWritten_of_named hnamed hnames hreads fun a ha => by simp [hatoms, ha]

/-- A placeholder call that is found where one was written has its id and ends where it ended. -/
theorem call_of_emission {function : Host.Path} {source : List Char} {file t : Host.Tree}
    {call : PlaceholderCall} (hfile : parseFile source = .ok file) (ht : t ∈ callsOf function file)
    (hcall : PlaceholderCall.ofTree t = .ok call) {id : Nat} {front text rest : List Char}
    (hsource : source = front ++ (placeholderCall function id text ++ rest))
    (hstart : call.start.offset source = byteLength front) :
    call.id = id ∧
      call.stop.offset source = byteLength (front ++ placeholderCall function id text) := by
  obtain ⟨path, delimiter, opening, closing, children, first, second, hpath, hargs, hid, -, hs, hstop⟩ :=
    PlaceholderCall.ofTree_eq_ok hcall
  have hwritten := isWritten_of_found hfile ht hpath
  obtain ⟨ts, hts, -, hstands⟩ := stands_of_found hfile ht hpath
  -- the call stands in the tokens of the file, and these are read from its text
  cases hstands with
  | @intro tokens after _ _ _ input next n hnames hwithin hread =>
    obtain ⟨c, m, hplaced, hreads⟩ := reads_file hts
    obtain ⟨before, behind, hatoms⟩ := hwithin.atomsOf_eq
    simp only [atomsOf_append, atomsOf_cons, TokenTree.atoms, List.cons_append, List.append_assoc]
      at hatoms
    rw [hatoms] at hreads
    obtain ⟨t₀, tokens', rfl, hpathStart⟩ := hnames.start
    obtain ⟨a₀, ha₀, -, ha₀start⟩ := atoms_of_isName (hnames.only t₀ List.mem_cons_self)
    have hbegins : BeginsCall (atomsOf (t₀ :: tokens') ++ .opening .parenthesis opening ::
        (atomsOf input.rest ++ .closing .parenthesis closing :: (atomsOf after ++ behind))) :=
      ⟨_, opening, _, rfl, by simp [ha₀], isName_of_mem_atomsOf hnames.only⟩
    obtain ⟨d, a, as, hcons, hmark, hfront, hread'⟩ := hreads.split_call hbegins
    -- the place where it begins is the one where the placeholder call was written
    have hplace := hplaced.of_reads hfront
    have hdmark : call.start = d.mark := by
      rw [hs, hpathStart, ← ha₀start, ← hmark]
      simp only [atomsOf_cons, ha₀] at hcons
      rw [(List.cons.inj hcons).1]
    have hrest : d.rest = placeholderCall function id text ++ rest :=
      hplace.rest_eq hsource (hdmark ▸ hstart)
    obtain ⟨rest', mark⟩ := d
    obtain rfl : rest' = placeholderCall function id text ++ rest := hrest
    obtain ⟨⟨span, joint, span', span'', hcontents⟩, hclosing⟩ :=
      read_at_emission hwritten hnames.only hread'
    refine ⟨?_, ?_⟩
    · -- the first argument is the literal of the id
      obtain rfl := ensures_exprList_literals hcontents children next hread
      have hfirst : first = .node .literal [.token [.literal (toString id).toList span]] :=
        (List.cons.inj hargs).1.symm
      exact eq_of_idOf?_literal (hfirst ▸ hid)
    · have hlen := congrArg byteLength hsource
      have hend := hplace.advance.offset_eq
      rw [← hclosing] at hend
      rw [hstop, hend]
      simp only [byteLength_append] at hlen ⊢
      omega

end InlineMarkup
