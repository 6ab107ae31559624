import InlineMarkup.Proofs.Reconcile.Outcome
import InlineMarkup.Proofs.Generated.Origin

/-!
Which calls of the placeholder function are left after a compilation. All that are found in the file
are replaced, and no other tree becomes one by that. What is left are the calls in the generated
code; since this calls other functions, they are those in the code that the markup embeds
(`compile_calls_left`).
-/

set_option autoImplicit false

namespace InlineMarkup

open InlineMarkup.Text InlineMarkup.Host

section

variable {function : Host.Path}

theorem map_rankedCallsOf (ts : List Host.Tree) :
    (rankedCallsOf function ts).map (·.2) = ts.flatMap (callsOf function) := by
  induction ts with
  | nil => simp [rankedCallsOf]
  | cons t ts ih => simp [rankedCallsOf, ih, callsOf]

theorem callsOf_group (d : Delimiter) (opening closing : Span) (children : List Host.Tree) :
    callsOf function (.group d opening closing children) = children.flatMap (callsOf function) := by
  simp [callsOf, rankedCalls, Function.comp_def, ← map_rankedCallsOf]

theorem callsOf_body (written : List TokenTree) (arguments : List Host.Tree) :
    callsOf function (.body written arguments) = arguments.flatMap (callsOf function) := by
  simp [callsOf, rankedCalls, Function.comp_def, ← map_rankedCallsOf]

theorem exists_of_isCallOf {t : Host.Tree} (h : isCallOf function t = true) :
    ∃ children, t = .node .call children := by
  unfold isCallOf at h
  split at h
  · rename_i path group hpath
    obtain ⟨children, -, rfl, -⟩ := pathCall?_eq_some hpath
    exact ⟨children, rfl⟩
  · cases h

theorem callsOf_of_isCallOf {t : Host.Tree} (h : isCallOf function t = true) :
    callsOf function t = [t] := by
  obtain ⟨children, rfl⟩ := exists_of_isCallOf h
  simp [callsOf, rankedCalls, h]

theorem callsOf_node {kind : Kind} {children : List Host.Tree}
    (h : isCallOf function (.node kind children) = false) :
    (callsOf function (.node kind children)).Perm (children.flatMap (callsOf function)) := by
  have hcalls : callsOf function (.node kind children) =
      inOrder (rankedCallsOf function children) := by
    simp [callsOf, rankedCalls, h, Function.comp_def]
  rw [hcalls, ← map_rankedCallsOf]
  exact inOrder_perm rankedCallsOf_lt

end

/-- A call of a path with its arguments in parentheses, and nothing else. -/
def IsPathCall (t : Host.Tree) : Prop :=
  ∃ path d opening closing arguments,
    t = .node .call [.node .pathExpr [path], .group d opening closing arguments]

section

variable {function : Host.Path} {f : Host.Tree → Host.Tree}

theorem substituteAll_eq_map (ts : List Host.Tree) :
    substituteAll function f ts = ts.map (substitute function f) := by
  induction ts with
  | nil => rfl
  | cons t ts ih => rw [substituteAll, ih, List.map_cons]

theorem substitute_of_isCallOf {t : Host.Tree} (h : isCallOf function t = true) :
    substitute function f t = f t := by
  obtain ⟨children, rfl⟩ := exists_of_isCallOf h
  rw [substitute, if_pos h]

theorem substitute_node {kind : Kind} {children : List Host.Tree}
    (h : isCallOf function (.node kind children) = false) :
    substitute function f (.node kind children) =
      .node kind (children.map (substitute function f)) := by
  simp [substitute, h, substituteAll_eq_map]

theorem substitute_group (d : Delimiter) (opening closing : Span) (children : List Host.Tree) :
    substitute function f (.group d opening closing children) =
      .group d opening closing (children.map (substitute function f)) := by
  rw [substitute, substituteAll_eq_map]

theorem children_substitute {t : Host.Tree} (h : isCallOf function t = false) :
    (substitute function f t).children = t.children.map (substitute function f) := by
  cases t with
  | node kind children => rw [substitute_node h]; rfl
  | group d opening closing children => rw [substitute_group]; rfl
  | body written arguments =>
    rw [substitute]
    split <;> rfl
  | token ts => rfl
  | raw ts => rfl

theorem isCallOf_eq_false {kind : Kind} (children : List Host.Tree) (h : kind ≠ .call) :
    isCallOf function (.node kind children) = false := by
  by_contra hnot
  obtain ⟨children', heq⟩ := exists_of_isCallOf (eq_true_of_ne_false hnot)
  cases heq
  exact h rfl

/-- Where calls take the place of calls, every tree keeps its kind. -/
theorem kind?_substitute {t : Host.Tree} (h : ∀ c ∈ callsOf function t, IsPathCall (f c)) :
    (substitute function f t).kind? = t.kind? := by
  by_cases hcall : isCallOf function t = true
  · obtain ⟨path, d, opening, closing, arguments, hf⟩ :=
      h t (by simp [callsOf_of_isCallOf hcall])
    obtain ⟨children, rfl⟩ := exists_of_isCallOf hcall
    rw [substitute_of_isCallOf hcall, hf]
    rfl
  · have hcall := eq_false_of_ne_true hcall
    cases t with
    | node kind children => rw [substitute_node hcall]; rfl
    | body written arguments =>
      rw [substitute]
      split <;> rfl
    | _ => rfl

theorem mem_callsOf_of_child {kind : Kind} {children : List Host.Tree} {u c : Host.Tree}
    (hnot : isCallOf function (.node kind children) = false) (hu : u ∈ children)
    (hc : c ∈ callsOf function u) : c ∈ callsOf function (.node kind children) :=
  (callsOf_node hnot).symm.subset (List.mem_flatMap.2 ⟨u, hu, hc⟩)

theorem parts_substitute {kind : Kind} {children : List Host.Tree}
    (hnot : isCallOf function (.node kind children) = false)
    (h : ∀ c ∈ callsOf function (.node kind children), IsPathCall (f c)) :
    (substitute function f (.node kind children)).parts =
      (Host.Tree.node kind children).parts.map (substitute function f) := by
  unfold Host.Tree.parts
  rw [children_substitute hnot, List.filter_map]
  refine congrArg _ (List.filter_congr fun u hu => ?_)
  have hkind : (substitute function f u).kind? = u.kind? :=
    kind?_substitute fun c hc => h c (mem_callsOf_of_child hnot hu hc)
  simp [Host.Tree.is, hkind]

theorem mem_children_of_parts {t u : Host.Tree} {us : List Host.Tree} (h : t.parts = us)
    (hu : u ∈ us) : u ∈ t.children :=
  List.mem_of_mem_filter (h ▸ hu)

theorem substitute_nameTree {t : Host.Tree} (h : IsNameTree t) : substitute function f t = t := by
  cases h with
  | token ts => rfl
  | segment ts => rw [segmentOf, substitute_node (isCallOf_eq_false _ (by decide))]; rfl

theorem substitute_names {tokens : List TokenTree} {path : Host.Tree} (h : Names tokens path) :
    substitute function f path = path := by
  obtain ⟨children, rfl, hnames⟩ := h.tree
  rw [substitute_node (isCallOf_eq_false _ (by decide))]
  congr 1
  exact (List.map_congr_left fun c hc => substitute_nameTree (hnames c hc)).trans (List.map_id _)

theorem isNamedBy_eq_false_of_arguments {path : Host.Path} {s : PathSegment}
    (hs : s ∈ path.segments) (h : s.arguments ≠ none) : function.isNamedBy path = false := by
  refine eq_false_of_ne_true fun hnamed => ?_
  obtain ⟨-, -, hplain⟩ := isNamedBy_iff.1 hnamed
  exact h (hplain s hs)

theorem exists_arguments_substitute {path : Host.Tree} (hpath : isCallOf function path = false)
    {s : PathSegment} (hs : s ∈ (Host.Path.ofTree path).segments) (h : s.arguments ≠ none) :
    ∃ s' ∈ (Host.Path.ofTree (substitute function f path)).segments, s'.arguments ≠ none := by
  obtain ⟨t, ht, hts⟩ := List.mem_filterMap.1 hs
  unfold Host.Path.segmentOfTree? at hts
  split at hts
  · cases hts
    exact absurd rfl h
  · rename_i name arguments
    refine ⟨⟨(substitute function f name).text, some (substitute function f arguments)⟩, ?_,
      by simp⟩
    refine List.mem_filterMap.2 ⟨substitute function f (.node .segment [name, arguments]), ?_, ?_⟩
    · rw [children_substitute hpath]
      exact List.mem_map_of_mem ht
    · rw [substitute_node (isCallOf_eq_false _ (by decide))]
      rfl
  · cases hts

theorem grounded_path {source : List TokenTree} {t path group : Host.Tree}
    (hground : Grounded source t) (ht : pathCall? t = some (path, group)) :
    Grounded source path := by
  obtain ⟨children, callee, rfl, hparts, -, hpath⟩ := pathCall?_eq_some ht
  have hcallee := hground.children callee (mem_children_of_parts hparts (by simp))
  exact hcallee.children path (mem_children_of_parts hpath (by simp))

theorem segments_ne_nil_of_isCallOf {source : List TokenTree} {t : Host.Tree}
    (hground : Grounded source t) (h : isCallOf function t = true) : function.segments ≠ [] := by
  unfold isCallOf at h
  split at h
  · rename_i path group hpath
    cases hground.stands hpath (isNamedBy_iff.1 h).2.2 with
    | intro hnames _ _ => exact segments_ne_nil_of_named h hnames
  · cases h

theorem isNamedBy_substitute {source : List TokenTree} {t path group : Host.Tree}
    (hground : Grounded source t) (ht : pathCall? t = some (path, group))
    (h : ∀ c ∈ callsOf function path, IsPathCall (f c))
    (hnot : function.isNamedBy (.ofTree path) = false) :
    function.isNamedBy (.ofTree (substitute function f path)) = false := by
  by_cases hplain : IsPlain path
  · cases hground.stands ht hplain with
    | intro hnames _ _ => rwa [substitute_names hnames]
  · obtain ⟨s, hs, harguments⟩ : ∃ s ∈ (Host.Path.ofTree path).segments, s.arguments ≠ none := by
      simpa [IsPlain] using hplain
    by_cases hcall : isCallOf function path = true
    · -- a call in the place of the path has no names
      obtain ⟨inner, d, opening, closing, arguments, hf⟩ :=
        h path (by simp [callsOf_of_isCallOf hcall])
      have hne := segments_ne_nil_of_isCallOf (grounded_path hground ht) hcall
      refine eq_false_of_ne_true fun hnamed => hne ?_
      obtain ⟨-, hsegments, -⟩ := isNamedBy_iff.1 hnamed
      rw [substitute_of_isCallOf hcall, hf] at hsegments
      exact List.map_eq_nil_iff.1 hsegments
    · obtain ⟨s', hs', harguments'⟩ :=
        exists_arguments_substitute (eq_false_of_ne_true hcall) hs harguments
      exact isNamedBy_eq_false_of_arguments hs' harguments'

theorem pathCall?_of_substitute {kind : Kind} {children : List Host.Tree} {path' group' : Host.Tree}
    (hnot : isCallOf function (.node kind children) = false)
    (h : ∀ c ∈ callsOf function (.node kind children), IsPathCall (f c))
    (hcall : pathCall? (substitute function f (.node kind children)) = some (path', group')) :
    ∃ path group, pathCall? (.node kind children) = some (path, group) ∧
      substitute function f path = path' ∧
      ∀ c ∈ callsOf function path, c ∈ callsOf function (.node kind children) := by
  obtain ⟨_, callee', hnode, hparts', hcallee', hpath'⟩ := pathCall?_eq_some hcall
  obtain rfl : kind = .call := by
    rw [substitute_node hnot] at hnode
    cases hnode
    rfl
  rw [parts_substitute hnot h] at hparts'
  obtain ⟨callee, group, hparts, rfl, rfl⟩ : ∃ callee group,
      (Host.Tree.node .call children).parts = [callee, group] ∧
        substitute function f callee = callee' ∧ substitute function f group = group' := by
    simpa [List.map_eq_cons_iff] using hparts'
  have hmem : callee ∈ children := mem_children_of_parts hparts (by simp)
  have hinner : ∀ c ∈ callsOf function callee, IsPathCall (f c) :=
    fun c hc => h c (mem_callsOf_of_child hnot hmem hc)
  -- what is called after substitution is a path, so it was a path before
  rw [Host.Tree.is, kind?_substitute hinner] at hcallee'
  obtain ⟨parts, rfl⟩ : ∃ parts, callee = .node .pathExpr parts := by
    cases callee <;> simp_all [Host.Tree.kind?]
  have hplain : isCallOf function (.node .pathExpr parts) = false :=
    isCallOf_eq_false parts (by decide)
  rw [parts_substitute hplain hinner] at hpath'
  obtain ⟨path, hpath, rfl⟩ : ∃ path, (Host.Tree.node .pathExpr parts).parts = [path] ∧
      substitute function f path = path' := by
    simpa [List.map_eq_cons_iff] using hpath'
  refine ⟨path, group, ?_, rfl, fun c hc => ?_⟩
  · simp only [pathCall?, hparts, Host.Tree.is, hcallee', hpath, if_true]
  · have hpart : path ∈ parts := mem_children_of_parts hpath (by simp)
    exact mem_callsOf_of_child hnot hmem (mem_callsOf_of_child hplain hpart hc)

/-- A tree that is no call of the function does not become one. -/
theorem isCallOf_substitute {source : List TokenTree} {kind : Kind} {children : List Host.Tree}
    (hground : Grounded source (.node kind children))
    (h : ∀ c ∈ callsOf function (.node kind children), IsPathCall (f c))
    (hnot : isCallOf function (.node kind children) = false) :
    isCallOf function (substitute function f (.node kind children)) = false := by
  cases hcall : pathCall? (substitute function f (.node kind children)) with
  | none => simp [isCallOf, hcall]
  | some call =>
    obtain ⟨path', group'⟩ := call
    obtain ⟨path, group, hpath, rfl, hcalls⟩ := pathCall?_of_substitute hnot h hcall
    have hnamed : function.isNamedBy (.ofTree path) = false := by
      simpa [isCallOf, hpath] using hnot
    have := isNamedBy_substitute hground hpath (fun c hc => h c (hcalls c hc)) hnamed
    simpa [isCallOf, hcall] using this

end

section

variable {function : Host.Path} {f : Host.Tree → Host.Tree} {source : List TokenTree}

mutual

theorem callsOf_substitute (t : Host.Tree) (hground : Grounded source t)
    (h : ∀ c ∈ callsOf function t, IsPathCall (f c)) :
    (callsOf function (substitute function f t)).Perm
      ((callsOf function t).flatMap fun c => callsOf function (f c)) := by
  cases t with
  | token ts => simp [callsOf, substitute, rankedCalls]
  | raw ts => simp [callsOf, substitute, rankedCalls]
  | group d opening closing children =>
    rw [substitute_group]
    simp only [callsOf_group] at h ⊢
    exact flatMap_callsOf_substitute children (groundedAll_iff.1 hground) h
  | body written arguments =>
    simp only [callsOf_body] at h ⊢
    have hleft := flatMap_callsOf_substitute arguments (groundedAll_iff.1 hground) h
    rw [substitute]
    split
    · rename_i hnone
      have hnil : arguments.flatMap (callsOf function) = [] := by
        rw [← map_rankedCallsOf, List.isEmpty_iff.1 hnone, List.map_nil]
      simp [callsOf_body, hnil]
    · simpa [callsOf_body, substituteAll_eq_map] using hleft
  | node kind children =>
    by_cases hcall : isCallOf function (.node kind children) = true
    · simp [substitute_of_isCallOf hcall, callsOf_of_isCallOf hcall]
    · have hnot := eq_false_of_ne_true hcall
      have hnew := isCallOf_substitute hground h hnot
      rw [substitute_node hnot] at hnew ⊢
      have hperm := callsOf_node hnot
      have hleft := flatMap_callsOf_substitute children (groundedAll_iff.1 hground.2)
        fun c hc => h c (hperm.symm.subset hc)
      exact (callsOf_node hnew).trans (hleft.trans (hperm.symm.flatMap_right _))

theorem flatMap_callsOf_substitute (ts : List Host.Tree) (hground : ∀ t ∈ ts, Grounded source t)
    (h : ∀ c ∈ ts.flatMap (callsOf function), IsPathCall (f c)) :
    ((ts.map (substitute function f)).flatMap (callsOf function)).Perm
      ((ts.flatMap (callsOf function)).flatMap fun c => callsOf function (f c)) := by
  cases ts with
  | nil => simp
  | cons t ts =>
    obtain ⟨ht, hts⟩ := List.forall_mem_cons.1 hground
    simp only [List.flatMap_cons, List.forall_mem_append] at h
    have hfirst := callsOf_substitute t ht h.1
    have hrest := flatMap_callsOf_substitute ts hts h.2
    simpa [List.flatMap_append] using hfirst.append hrest

end

end

theorem segmentOfTree?_segmentTree (inExpr : Bool) (s : PathSegment) :
    Host.Path.segmentOfTree? (Host.Path.segmentTree inExpr s) =
      some ⟨s.name, s.arguments.map fun a => if inExpr then Host.Path.withTurbofish a else a⟩ := by
  obtain ⟨name, arguments⟩ := s
  cases arguments <;> simp [Host.Path.segmentTree, Host.Path.segmentOfTree?, Host.Tree.text,
    Host.Tree.tokens, TokenTree.textOf, TokenTree.textAfter, TokenTree.text]

theorem filterMap_segmentTrees (inExpr : Bool) (ss : List PathSegment) :
    (Host.Path.segmentTrees inExpr ss).filterMap Host.Path.segmentOfTree? =
      ss.map fun s =>
        ⟨s.name, s.arguments.map fun a => if inExpr then Host.Path.withTurbofish a else a⟩ := by
  have hcolons : Host.Path.segmentOfTree? Host.Path.doubleColon = none := rfl
  induction ss with
  | nil => rfl
  | cons s ss ih =>
    cases ss with
    | nil => simp [Host.Path.segmentTrees, segmentOfTree?_segmentTree]
    | cons s' ss =>
      rw [Host.Path.segmentTrees, List.filterMap_cons, List.filterMap_cons, hcolons, ih,
        segmentOfTree?_segmentTree]
      · rfl
      · simp

theorem isNamedBy_toTree (function p : Host.Path) (inExpr : Bool) :
    function.isNamedBy (.ofTree (p.toTree inExpr)) = function.isNamedBy p := by
  obtain ⟨rooted, segments⟩ := p
  have hrooted :
      (Host.Path.ofTree (Host.Path.toTree ⟨rooted, segments⟩ inExpr)).rooted = rooted := by
    cases rooted with
    | true => rfl
    | false =>
      match segments with
      | [] => rfl
      | [_] => rfl
      | _ :: _ :: _ => rfl
  have hsegments : (Host.Path.ofTree (Host.Path.toTree ⟨rooted, segments⟩ inExpr)).segments =
      segments.map fun s =>
        ⟨s.name, s.arguments.map fun a => if inExpr then Host.Path.withTurbofish a else a⟩ := by
    cases rooted <;> exact filterMap_segmentTrees inExpr segments
  simp [Host.Path.isNamedBy, hrooted, hsegments, Function.comp_def, List.all_map]

namespace Generated

mutual

/-- The calls of a function in the code that an expression holds, and in the generic arguments of
the functions that it calls. -/
def embeddedCalls (function : Host.Path) : Generated → List Host.Tree
  | .call callee arguments =>
    callsOf function (callee.toTree true) ++ embeddedCallsOf function arguments
  | .str _ => []
  | .host expr _ => callsOf function expr

def embeddedCallsOf (function : Host.Path) : List Generated → List Host.Tree
  | [] => []
  | g :: gs => embeddedCalls function g ++ embeddedCallsOf function gs

end

section

variable {function : Host.Path}

theorem flatMap_argumentTrees (gs : List Generated) :
    (argumentTrees gs).flatMap (callsOf function) =
      gs.flatMap fun g => callsOf function g.toTree := by
  have hcomma : callsOf function comma = [] := rfl
  induction gs with
  | nil => rfl
  | cons g gs ih =>
    cases gs with
    | nil => simp [argumentTrees]
    | cons h gs =>
      rw [argumentTrees]
      simp only [List.flatMap_cons, hcomma, List.nil_append, ih]

theorem callsOf_toTree_call {callee : Host.Path} (h : function.isNamedBy callee = false)
    (arguments : List Generated) :
    (callsOf function (call callee arguments).toTree).Perm
      (callsOf function (callee.toTree true) ++
        arguments.flatMap fun g => callsOf function g.toTree) := by
  have hcall : isCallOf function (call callee arguments).toTree = false := by
    rw [← isNamedBy_toTree function callee true] at h
    rw [toTree]
    exact h
  have hpath :=
    callsOf_node (@isCallOf_eq_false function .pathExpr [callee.toTree true] (by decide))
  rw [toTree] at hcall ⊢
  refine (callsOf_node hcall).trans ?_
  simp only [List.flatMap_cons, List.flatMap_nil, List.append_nil, callsOf_group,
    flatMap_argumentTrees] at hpath ⊢
  exact hpath.append_right _

mutual

theorem callsOf_toTree (g : Generated)
    (h : g.All (fun callee _ => function.isNamedBy callee = false) fun _ _ => True) :
    (callsOf function g.toTree).Perm (g.embeddedCalls function) := by
  cases g with
  | str value => exact .of_eq rfl
  | host expr source => exact .refl _
  | call callee arguments =>
    refine (callsOf_toTree_call h.1 arguments).trans ?_
    exact (flatMap_callsOf_toTree arguments h.2).append_left _

theorem flatMap_callsOf_toTree (gs : List Generated)
    (h : AllOf (fun callee _ => function.isNamedBy callee = false) (fun _ _ => True) gs) :
    (gs.flatMap fun g => callsOf function g.toTree).Perm (embeddedCallsOf function gs) := by
  cases gs with
  | nil => exact .nil
  | cons g gs => exact (callsOf_toTree g h.1).append (flatMap_callsOf_toTree gs h.2)

end

end

end Generated

section

variable {config : Config} {table : RegionTable} {found : List Host.Tree}
  {calls : List PlaceholderCall} {generated : List Generated}

theorem map_replacement
    (h : List.Forall₂ (fun t c => PlaceholderCall.ofTree t = .ok c) found calls)
    (hcode : ∀ c ∈ calls, ∃ g, generated[c.id - 1]? = some g) :
    found.map (some ∘ replacement generated) =
      calls.map fun c => generated[c.id - 1]?.map Generated.toTree := by
  induction h with
  | nil => rfl
  | @cons t c found calls ht _ ih =>
    obtain ⟨⟨g, hg⟩, hrest⟩ := List.forall_mem_cons.1 hcode
    simp only [List.map_cons, ih hrest, Function.comp_apply, replacement, ht, hg, Option.map_some]

theorem Placement.replacement_perm (h : Placement table found calls)
    (hg : List.Forall₂ (fun r g => Generated.ofElement config r.root = .ok g) table.regions
      generated) :
    (found.map (replacement generated)).Perm (generated.map Generated.toTree) := by
  have hsize : generated.length = table.size := hg.length_eq.symm
  have hall : (List.range' 1 table.size).map (fun id => generated[id - 1]?.map Generated.toTree) =
      generated.map (some ∘ Generated.toTree) := by
    refine List.ext_getElem (by simp [hsize]) fun k hk hk' => ?_
    have hlt : k < generated.length := by simpa using hk'
    simp [hlt]
  have hperm := h.ids_perm.map fun id => generated[id - 1]?.map Generated.toTree
  rw [hall, List.map_map] at hperm
  have hcalls := map_replacement h.read fun c hc => h.exists_code hg hc
  have hsome : (found.map (some ∘ replacement generated)).Perm
      (generated.map (some ∘ Generated.toTree)) := hcalls ▸ hperm
  simpa using hsome.filterMap id

end

theorem isPathCall_of_ofElement {config : Config} {e : Markup.Element} {g : Generated}
    (h : Generated.ofElement config e = .ok g) : IsPathCall g.toTree := by
  cases g with
  | call callee arguments =>
    rw [Generated.toTree]
    exact ⟨_, _, _, _, _, rfl⟩
  | str value => cases (Generated.made_ofElement h).2
  | host expr source => cases (Generated.made_ofElement h).2

theorem flatMap_callsOf_generated {config : Config} {regions : List Region}
    {generated : List Generated} {function : Host.Path}
    (hapart : ∀ callee, config.Calls callee → function.isNamedBy callee = false)
    (hg : List.Forall₂ (fun r g => Generated.ofElement config r.root = .ok g) regions generated) :
    (generated.flatMap fun g => callsOf function g.toTree).Perm
      (generated.flatMap (Generated.embeddedCalls function)) := by
  refine List.Perm.flatMap_left generated fun g hmem => ?_
  obtain ⟨r, -, hr⟩ := exists_of_forall₂ hg.flip hmem
  have hmade := (Generated.made_ofElement hr).1
  exact Generated.callsOf_toTree g
    (hmade.imp (fun callee _ hcalls _ => hapart callee hcalls.1) (fun _ _ _ _ => trivial) hmade)

/-- A compilation replaces every call of the placeholder function that is found in the file, and the
calls that are left are those in generated code. If generated code calls other functions only, these
stand in the code that the markup embeds: none is left exactly if that code holds none. -/
theorem compile_calls_left {config : Config} {source : List Char} {result : Reconciled}
    (h : compile config source = .ok result) :
    ∃ scanned generated, extract config source = .ok scanned ∧
      List.Forall₂ (fun r g => Generated.ofElement config r.root = .ok g) scanned.table.regions
        generated ∧
      (callsOf config.placeholder result.file).Perm
        (generated.flatMap fun g => callsOf config.placeholder g.toTree) ∧
      ((∀ callee, config.Calls callee → config.placeholder.isNamedBy callee = false) →
        (callsOf config.placeholder result.file).Perm
          (generated.flatMap (Generated.embeddedCalls config.placeholder)) ∧
        (callsOf config.placeholder result.file = [] ↔
          ∀ g ∈ generated, g.embeddedCalls config.placeholder = [])) := by
  obtain ⟨scanned, hscan, hreconcile⟩ := bind_eq_ok.1 h
  obtain ⟨file, generated, calls, hfile, hgenerated, hplaced, -, -, -, htree⟩ :=
    reconcile_eq_ok hreconcile
  have hg := generateAll_eq_ok hgenerated
  obtain ⟨ts, -, hground⟩ := grounded_parseFile hfile
  have hreplaced := hplaced.replacement_perm hg
  have hpath : ∀ c ∈ callsOf config.placeholder file, IsPathCall (replacement generated c) := by
    intro c hc
    obtain ⟨g, hmem, heq⟩ := List.mem_map.1 (hreplaced.subset (List.mem_map_of_mem hc))
    obtain ⟨r, -, hr⟩ := exists_of_forall₂ hg.flip hmem
    exact heq ▸ isPathCall_of_ofElement hr
  have hleft : (callsOf config.placeholder result.file).Perm
      (generated.flatMap fun g => callsOf config.placeholder g.toTree) := by
    have hsubstitute := callsOf_substitute file hground hpath
    have hcode := hreplaced.flatMap_right (callsOf config.placeholder)
    simp only [List.flatMap_map] at hcode
    rw [htree]
    exact hsubstitute.trans hcode
  refine ⟨scanned, generated, hscan, hg, hleft, fun hapart => ?_⟩
  have hembedded := hleft.trans (flatMap_callsOf_generated hapart hg)
  refine ⟨hembedded, ?_⟩
  rw [← List.length_eq_zero_iff, hembedded.length_eq, List.length_eq_zero_iff,
    List.flatMap_eq_nil_iff]

/-- Embedded code that calls the placeholder function itself is generated as it is. -/
theorem compile_calls_left_embedded : ∃ result scanned generated,
    compile { placeholder := .ofNames ["h"] } "const C: T = <p>\x7bh(7, \"x\")\x7d</p>;".toList =
        .ok result ∧
      extract { placeholder := .ofNames ["h"] } "const C: T = <p>\x7bh(7, \"x\")\x7d</p>;".toList =
        .ok scanned ∧
      List.Forall₂ (fun r g => Generated.ofElement { placeholder := .ofNames ["h"] } r.root = .ok g)
        scanned.table.regions generated ∧
      (callsOf (.ofNames ["h"]) result.file).map Host.Tree.text = ["h (7 , \"x\")".toList] ∧
      ∃ g ∈ generated, g.embeddedCalls (.ofNames ["h"]) ≠ [] := by
  let config : Config := { placeholder := .ofNames ["h"] }
  have hrun : (compile config "const C: T = <p>\x7bh(7, \"x\")\x7d</p>;".toList).toOption.map
      (fun r => (callsOf config.placeholder r.file).map Host.Tree.text) =
        some ["h (7 , \"x\")".toList] := by decide +kernel
  obtain ⟨result, hsome, hcalls⟩ := Option.map_eq_some_iff.1 hrun
  have hresult := eq_ok_of_toOption hsome
  have hapart : ∀ callee ∈ Generated.functionsOf config,
      config.placeholder.isNamedBy callee = false := by decide +kernel
  obtain ⟨scanned, generated, hscan, hg, -, hleft⟩ := compile_calls_left hresult
  refine ⟨result, scanned, generated, hresult, hscan, hg, hcalls, ?_⟩
  by_contra hnone
  simp only [not_exists, not_and, not_not] at hnone
  have hnil : callsOf config.placeholder result.file = [] := (hleft fun callee hcallee =>
    hapart callee (Generated.mem_functionsOf hcallee)).2.2 hnone
  rw [hnil] at hcalls
  cases hcalls

end InlineMarkup
