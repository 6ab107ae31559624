import InlineMarkup.Reconcile.Call

/-!
Where the calls of a syntax tree stand in its source.

A tree is grounded in a list of tokens if each of its calls of a plain path was read there: the
tokens of the path, the group of the arguments right behind them, and the arguments from the tokens
in that group. What parsers do to trees they have read keeps them grounded.
-/

set_option autoImplicit false

namespace InlineMarkup.Host

/-- The tokens that stand at some place of a source, up to the delimiter that closes there. -/
inductive Within (source : List TokenTree) : List TokenTree → Prop
  | whole : Within source source
  | tail {t : TokenTree} {ts : List TokenTree} : Within source (t :: ts) → Within source ts
  | inside {d : Delimiter} {contents ts : List TokenTree} {opening closing : Span} :
      Within source (.group d contents opening closing :: ts) → Within source contents

theorem Within.of_append {source us : List TokenTree} (ts : List TokenTree)
    (h : Within source (ts ++ us)) : Within source us := by
  induction ts with
  | nil => exact h
  | cons t ts ih => exact ih h.tail

def TokenTree.isName : TokenTree → Bool
  | .word _ _ => true
  | .punct c _ _ => c == ':'
  | _ => false

def IsPlain (path : Tree) : Prop :=
  ∀ s ∈ (Path.ofTree path).segments, s.arguments = none

inductive IsNameTree : Tree → Prop
  | token (ts : List TokenTree) : IsNameTree (.token ts)
  | segment (ts : List TokenTree) : IsNameTree (segmentOf (.token ts))

/-- A path was read from these tokens. -/
structure Names (tokens : List TokenTree) (path : Tree) : Prop where
  tree : ∃ children, path = .node .path children ∧ ∀ c ∈ children, IsNameTree c
  start : ∃ t ts, tokens = t :: ts ∧ path.start = t.start
  only : ∀ t ∈ tokens, t.isName
  segments : (Path.ofTree path).segments ≠ []
  words : ∀ s ∈ (Path.ofTree path).segments, ∃ span, TokenTree.word s.name span ∈ tokens

/-- A call of a path stands in the source, and its arguments were read there. -/
inductive Stands (source : List TokenTree) (path : Tree) : Tree → Prop
  | intro {tokens rest : List TokenTree} {opening closing : Span} {children : List Tree}
      {input next : Input} {n : Nat} (names : Names tokens path)
      (within : Within source (tokens ++ .group .parenthesis input.rest opening closing :: rest))
      (read : exprList (Grammar.ofLevel n) input = .ok (children, next)) :
      Stands source path (.group .parenthesis opening closing children)

namespace Tree

def isAttribute (t : Tree) : Bool :=
  t.is .outerAttribute || t.is .innerAttribute

theorem parts_eq (t : Tree) : t.parts = t.children.filter (!·.isAttribute) := by
  simp [parts, isAttribute]

end Tree

def CallStands (source : List TokenTree) (children : List Tree) : Prop :=
  ∃ front callee group, children = front ++ [callee, group] ∧ callee.isAttribute = false ∧
    group.isAttribute = false ∧
    ∀ path, callee.is .pathExpr → callee.parts = [path] → IsPlain path → Stands source path group

mutual

def Grounded (source : List TokenTree) : Tree → Prop
  | .token _ => True
  | .raw _ => True
  | .node kind children => (kind = .call → CallStands source children) ∧ GroundedAll source children
  | .group _ _ _ children => GroundedAll source children
  | .body _ arguments => GroundedAll source arguments

def GroundedAll (source : List TokenTree) : List Tree → Prop
  | [] => True
  | t :: ts => Grounded source t ∧ GroundedAll source ts

end

section

variable {source : List TokenTree}

theorem groundedAll_iff {ts : List Tree} : GroundedAll source ts ↔ ∀ t ∈ ts, Grounded source t := by
  induction ts with
  | nil => simp [GroundedAll]
  | cons t ts ih => simp [GroundedAll, ih]

theorem Grounded.children {t : Tree} (h : Grounded source t) :
    ∀ c ∈ t.children, Grounded source c := by
  cases t with
  | node k cs => exact groundedAll_iff.1 h.2
  | group d o c cs => exact groundedAll_iff.1 h
  | _ => simp [Tree.children]

theorem grounded_node {k : Kind} {ts : List Tree} (hk : k ≠ .call)
    (h : ∀ t ∈ ts, Grounded source t) : Grounded source (.node k ts) := by
  simp [Grounded, hk, groundedAll_iff.2 h]

theorem grounded_group {d : Delimiter} {opening closing : Span} {ts : List Tree}
    (h : ∀ t ∈ ts, Grounded source t) : Grounded source (.group d opening closing ts) := by
  simp [Grounded, groundedAll_iff.2 h]

theorem pathCall?_eq_some {t path group : Tree} (h : pathCall? t = some (path, group)) :
    ∃ cs callee, t = .node .call cs ∧ t.parts = [callee, group] ∧ callee.is .pathExpr ∧
      callee.parts = [path] := by
  unfold pathCall? at h
  split at h <;> try cases h
  split at h <;> try cases h
  split at h <;> try cases h
  split at h <;> cases h
  rename_i cs _ callee hname _ hpath hparts
  exact ⟨cs, callee, rfl, hparts, hname, hpath⟩

theorem Grounded.stands {t path group : Tree} (h : Grounded source t)
    (hc : pathCall? t = some (path, group)) (hp : IsPlain path) : Stands source path group := by
  obtain ⟨cs, callee, rfl, hparts, hname, hpath⟩ := pathCall?_eq_some hc
  obtain ⟨front, callee', group', rfl, hca, hga, hst⟩ := (h.1 rfl : CallStands source cs)
  rw [Tree.parts_eq] at hparts
  simp only [Tree.children, List.filter_append, List.filter_cons, hca, hga, Bool.not_false,
    if_true, List.filter_nil] at hparts
  -- the parts are two, so nothing but attributes stands in front
  obtain ⟨hnil, heq⟩ := (List.append_inj' (hparts.trans (List.nil_append _).symm) rfl)
  cases heq
  exact hst path hname hpath hp

theorem grounded_withAttributes {attributes : List Tree} {t : Tree}
    (ha : ∀ a ∈ attributes, Grounded source a) (ht : Grounded source t) :
    Grounded source (t.withAttributes attributes) := by
  cases t with
  | node k cs =>
    refine ⟨fun hk => ?_, groundedAll_iff.2 fun c hc => ?_⟩
    · obtain ⟨front, callee, group, rfl, h⟩ := ht.1 hk
      exact ⟨attributes ++ front, callee, group, by simp, h⟩
    · rcases List.mem_append.1 hc with hc | hc
      · exact ha c hc
      · exact groundedAll_iff.1 ht.2 c hc
  | _ => exact ht

theorem grounded_parenthesised {t : Tree} (ht : Grounded source t) :
    Grounded source (parenthesised t) :=
  grounded_group (by simpa using ht)

theorem grounded_attributed {attributes : List Tree} {t : Tree}
    (ha : ∀ a ∈ attributes, Grounded source a) (ht : Grounded source t) :
    Grounded source (attributed attributes t) := by
  unfold attributed
  split
  · exact ht
  · split
    · exact ht
    · refine grounded_node (by decide) fun c hc => ?_
      rcases List.mem_append.1 hc with hc | hc
      · exact ha c hc
      · exact List.mem_singleton.1 hc ▸ grounded_parenthesised ht
  · exact grounded_withAttributes ha ht

theorem grounded_node_cons {k : Kind} {t u : Tree} {ts : List Tree} (hk : k ≠ .call)
    (h : Grounded source (.node k (t :: ts))) (hu : Grounded source u) :
    Grounded source (.node k (u :: ts)) :=
  grounded_node hk (List.forall_mem_cons.2 ⟨hu, fun c hc => h.children c (List.mem_cons_of_mem _ hc)⟩)

theorem grounded_attachLeft {attributes : List Tree} (ha : ∀ a ∈ attributes, Grounded source a)
    (t : Tree) (ht : Grounded source t) : Grounded source (attachLeft attributes t) := by
  fun_induction attachLeft attributes t with
  | case1 left rest ih =>
    exact grounded_node_cons (by decide) ht (ih (ht.children left List.mem_cons_self))
  | case2 left rest ih =>
    exact grounded_node_cons (by decide) ht (ih (ht.children left List.mem_cons_self))
  | case3 left rest ih =>
    exact grounded_node_cons (by decide) ht (ih (ht.children left List.mem_cons_self))
  | case4 => exact grounded_attributed ha ht

theorem guardBlock_of_is {t : Tree} {k : Kind} (ho : beginsWithOperand k = false)
    (hp : k ≠ .paren) (h : (guardBlock t).is k) : guardBlock t = t := by
  cases t with
  | node l cs =>
    unfold guardBlock at h ⊢
    split at h
    · simp [Tree.is, Tree.kind?, Ne.symm hp] at h
    · split at h
      · rename_i hl
        simp only [Tree.is, Tree.kind?, beq_iff_eq, Option.some.injEq] at h
        simp [h, ho] at hl
      · simp_all
  | _ => simp [guardBlock]

theorem isAttribute_guardBlock {t : Tree} (h : t.isAttribute = false) :
    (guardBlock t).isAttribute = false := by
  cases hg : (guardBlock t).isAttribute with
  | false => rfl
  | true =>
    have heq : guardBlock t = t := by
      rcases Bool.or_eq_true_iff.1 hg with hk | hk
      · exact guardBlock_of_is (by decide) (by decide) hk
      · exact guardBlock_of_is (by decide) (by decide) hk
    rw [heq, h] at hg
    cases hg

theorem callStands_guardFirst {cs : List Tree} (h : CallStands source cs) :
    CallStands source (guardFirst cs) := by
  obtain ⟨front, callee, group, rfl, hca, hga, hst⟩ := h
  induction front with
  | nil =>
    have hn : callee.is .outerAttribute = false := by
      simp only [Tree.isAttribute, Bool.or_eq_false_iff] at hca
      exact hca.1
    refine ⟨[], guardBlock callee, group, by simp [guardFirst, hn], isAttribute_guardBlock hca, hga,
      fun path hname => ?_⟩
    have heq := guardBlock_of_is (k := .pathExpr) (by decide) (by decide) hname
    rw [heq] at hname ⊢
    exact hst path hname
  | cons f front ih =>
    simp only [List.cons_append, guardFirst]
    split
    · obtain ⟨front', callee', group', heq, h⟩ := ih
      exact ⟨f :: front', callee', group', by simp [heq], h⟩
    · exact ⟨guardBlock f :: front, callee, group, by simp, hca, hga, hst⟩

mutual

theorem grounded_guardBlock (t : Tree) (h : Grounded source t) : Grounded source (guardBlock t) := by
  cases t with
  | node k cs =>
    unfold guardBlock
    split
    · exact grounded_node (by decide) (by simpa using grounded_parenthesised h)
    · split
      · exact ⟨fun hk => callStands_guardFirst (h.1 hk),
          groundedAll_iff.2 (grounded_guardFirst cs (groundedAll_iff.1 h.2))⟩
      · exact h
  | _ => simpa [guardBlock] using h

theorem grounded_guardFirst (ts : List Tree) (h : ∀ t ∈ ts, Grounded source t) :
    ∀ t ∈ guardFirst ts, Grounded source t := by
  cases ts with
  | nil => simp [guardFirst]
  | cons t ts =>
    obtain ⟨ht, hts⟩ := List.forall_mem_cons.1 h
    unfold guardFirst
    split
    · exact List.forall_mem_cons.2 ⟨ht, grounded_guardFirst ts hts⟩
    · exact List.forall_mem_cons.2 ⟨grounded_guardBlock t ht, hts⟩

end

theorem grounded_withLastArguments {path : Tree} {arguments : List Tree}
    (hp : Grounded source path) (ha : ∀ t ∈ arguments, Grounded source t) :
    Grounded source (withLastArguments path arguments) := by
  unfold withLastArguments
  split
  · rename_i segments
    split
    · rename_i parts hlast
      have hsegment := hp.children _ (List.mem_of_getLast? hlast)
      refine grounded_node (by decide) fun c hc => ?_
      rcases List.mem_append.1 hc with hc | hc
      · exact hp.children c (List.dropLast_subset _ hc)
      · refine List.mem_singleton.1 hc ▸ grounded_node (by decide) fun c hc => ?_
        exact (List.mem_append.1 hc).elim (hsegment.children c) (ha c)
    · exact hp
  · exact hp

theorem mem_inOrder {found : List (Nat × Tree)} {c : Tree} (h : c ∈ inOrder found) :
    ∃ r, (r, c) ∈ found := by
  obtain ⟨r, -, h⟩ := List.mem_flatMap.1 h
  obtain ⟨⟨r', c'⟩, hf, rfl⟩ := List.mem_map.1 h
  exact ⟨r', (List.mem_filter.1 hf).1⟩

mutual

theorem grounded_of_rankedCalls {function : Path} (t : Tree) (h : Grounded source t) :
    ∀ found ∈ rankedCalls function t, Grounded source found.2 ∧ isCallOf function found.2 := by
  intro found hf
  cases t with
  | token ts => simp [rankedCalls] at hf
  | raw ts => simp [rankedCalls] at hf
  | body ts arguments =>
    obtain ⟨inner, hi, rfl⟩ := List.mem_map.1 hf
    exact grounded_of_rankedCallsOf arguments (groundedAll_iff.1 h) inner hi
  | group d o c children =>
    obtain ⟨inner, hi, rfl⟩ := List.mem_map.1 hf
    exact grounded_of_rankedCallsOf children (groundedAll_iff.1 h) inner hi
  | node kind children =>
    obtain ⟨c, hc, rfl⟩ := List.mem_map.1 hf
    split at hc
    · rename_i hcall
      obtain rfl := List.mem_singleton.1 hc
      exact ⟨h, hcall⟩
    · obtain ⟨r, hr⟩ := mem_inOrder hc
      exact grounded_of_rankedCallsOf children (groundedAll_iff.1 h.2) (r, c) hr

theorem grounded_of_rankedCallsOf {function : Path} (ts : List Tree)
    (h : ∀ t ∈ ts, Grounded source t) :
    ∀ found ∈ rankedCallsOf function ts, Grounded source found.2 ∧ isCallOf function found.2 := by
  cases ts with
  | nil => simp [rankedCallsOf]
  | cons t ts =>
    obtain ⟨ht, hts⟩ := List.forall_mem_cons.1 h
    intro found hf
    rcases List.mem_append.1 hf with hf | hf
    · exact grounded_of_rankedCalls t ht found hf
    · exact grounded_of_rankedCallsOf ts hts found hf

end

theorem grounded_of_callsOf {function : Path} {t c : Tree} (h : Grounded source t)
    (hc : c ∈ callsOf function t) : Grounded source c ∧ isCallOf function c := by
  obtain ⟨found, hf, rfl⟩ := List.mem_map.1 hc
  exact grounded_of_rankedCalls t h found hf

end

end InlineMarkup.Host
