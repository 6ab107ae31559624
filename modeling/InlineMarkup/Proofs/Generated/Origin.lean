import InlineMarkup.Generated.OfElement
import InlineMarkup.Proofs.Basic
import InlineMarkup.Proofs.Blank
import InlineMarkup.Proofs.Generated.Spelling
import InlineMarkup.Proofs.Host.Quoted

/-!
What the expression of an element is made of: calls of the configured functions, and code that was
parsed. Only a handler may have code of several lines, and it is the one argument of its call.
-/

set_option autoImplicit false

namespace InlineMarkup

open InlineMarkup.Text

namespace Segment

theorem mem_of_ofCode {position : Nat} {run code : List Char} {modifier : Option Modifier}
    {segments : List Segment} (h : ofCode position run = .ok segments)
    (hmem : .embedded code modifier ∈ segments) : code ⊆ run := by
  unfold ofCode at h
  split at h
  · cases h
    cases hmem
  · split at h
    · split at h
      · cases h
        cases List.mem_singleton.1 hmem
        exact List.Subset.trans (List.subset_cons_self _ _) (List.subset_cons_self _ _)
      · cases h
    · cases h
      cases List.mem_singleton.1 hmem
      exact List.Subset.refl _
  · cases h
    cases List.mem_singleton.1 hmem
    exact List.Subset.refl _

theorem embedded_not_mem_ofLiteral {run code : List Char} {modifier : Option Modifier} :
    .embedded code modifier ∉ ofLiteral run := by
  unfold ofLiteral
  split <;> simp

theorem lineFeed_not_mem_of_readFrom {input : List Char} {place : Place} {run s : List Char}
    {position : Nat} {segments : List Segment}
    (h : readFrom input place run position s = .ok segments)
    (hrun : place ≠ .literal → '\n' ∉ run) {code : List Char} {modifier : Option Modifier}
    (hmem : .embedded code modifier ∈ segments) : '\n' ∉ code := by
  fun_induction readFrom input place run position s generalizing segments with
  | case1 run position =>
    cases h
    exact absurd hmem embedded_not_mem_ofLiteral
  | case2 => cases h
  | case3 run position s ih =>
    obtain ⟨later, hlater, rfl⟩ := map_eq_ok.1 h
    have hmem := (List.mem_append.1 hmem).resolve_left embedded_not_mem_ofLiteral
    exact ih hlater (by simp) hmem
  | case4 => cases h
  | case5 run position s hopen hclose ih =>
    obtain ⟨later, hlater, rfl⟩ := map_eq_ok.1 h
    have hmem := (List.mem_append.1 hmem).resolve_left embedded_not_mem_ofLiteral
    exact ih hlater (by simp) hmem
  | case6 run position c s hopen hclose hfeed ih => exact ih h (by simp) hmem
  | case7 => cases h
  | case8 run position openedAt s hopen ih =>
    obtain ⟨block, hblock, h⟩ := bind_eq_ok.1 h
    obtain ⟨later, hlater, h⟩ := bind_eq_ok.1 h
    cases h
    rcases List.mem_append.1 hmem with hmem | hmem
    · exact mt (@mem_of_ofCode _ _ _ _ _ hblock hmem _) (hrun (by simp))
    · exact ih hlater (by simp) hmem
  | case9 => cases h
  | case10 run position openedAt c s hopen hclose hfeed ih =>
    refine ih h (fun _ => ?_) hmem
    simpa using ⟨hrun (by simp), Ne.symm hfeed⟩

end Segment

/-- The functions that generated code may call. -/
inductive Config.Calls (config : Config) : Host.Path → Prop where
  | text : Calls config config.api.text
  | markup : Calls config config.api.markup
  | classes : Calls config config.api.classes
  | named : Calls config config.api.named
  | rawTag : Calls config config.api.rawTag
  | tag {name : List Char} {function : Host.Path} :
    config.tags.get? name = some function → Calls config function
  | handler {name : List Char} {function : Host.Path} :
    config.handlers.get? name = some function → Calls config function

namespace Generated

def functionsOf (config : Config) : List Host.Path :=
  [config.api.text, config.api.markup, config.api.classes, config.api.named, config.api.rawTag] ++
    config.tags.functions.entries.map (·.2) ++ config.handlers.entries.map (·.2)

theorem mem_of_get? {d : Dictionary Host.Path} {name : List Char} {p : Host.Path}
    (h : d.get? name = some p) : p ∈ d.entries.map (·.2) := by
  obtain ⟨entry, hentry, rfl⟩ := Option.map_eq_some_iff.1 h
  exact List.mem_map_of_mem (List.mem_of_find?_eq_some hentry)

theorem mem_functionsOf {config : Config} {p : Host.Path} (h : config.Calls p) : p ∈ functionsOf config := by
  unfold functionsOf
  cases h with
  | tag h => simp [mem_of_get? h]
  | handler h => simp [mem_of_get? h]
  | _ => simp

/-- All calls are of configured functions, and all code was parsed from what is written; where a
call has several arguments, none goes over the end of a line. -/
def Made (config : Config) : Generated → Prop :=
  All
    (fun function arguments => config.Calls function ∧
      (2 ≤ arguments.length → ∀ g ∈ arguments, g.OnLine))
    (fun expr source => Host.parseExpr source = .ok expr)

section

variable {config : Config}

theorem onLine_call (function : Host.Path) (arguments : List Generated) :
    (call function arguments).OnLine := by
  intro s hs
  cases hs

theorem onLine_str (value : List Char) : (str value).OnLine := by
  intro s hs
  cases hs
  exact Host.Lexeme.lineFeed_not_mem_stringLiteral value

theorem made_call {function : Host.Path} {arguments : List Generated}
    (hf : config.Calls function) (h : ∀ g ∈ arguments, Made config g ∧ g.OnLine) :
    Made config (call function arguments) ∧ (call function arguments).OnLine :=
  ⟨⟨⟨hf, fun _ g hg => (h g hg).2⟩, allOf_iff.2 fun g hg => (h g hg).1⟩, onLine_call _ _⟩

theorem made_str (value : List Char) : Made config (str value) ∧ (str value).OnLine :=
  ⟨trivial, onLine_str value⟩

theorem made_ofCode {code : List Char} {g : Generated} (h : ofCode code = .ok g) :
    Made config g ∧ ('\n' ∉ code → g.OnLine) := by
  simp only [ofCode] at h
  split at h
  · rename_i expr hexpr
    cases h
    refine ⟨hexpr, ?_⟩
    rintro hcode s ⟨⟩ hmem
    exact hcode (mem_of_mem_trim hmem)
  · cases h

theorem made_ofSegment {child : Bool} {segment : Segment} {g : Generated}
    (h : ofSegment config child segment = .ok g)
    (hline : ∀ code modifier, segment = .embedded code modifier → '\n' ∉ code) :
    Made config g ∧ g.OnLine := by
  cases segment with
  | literal text =>
    cases h
    split
    · exact made_call .text (by simpa using made_str text)
    · exact made_str text
  | embedded code modifier =>
    obtain ⟨value, hvalue, h⟩ := bind_eq_ok.1 h
    obtain ⟨hmade, honline⟩ := made_ofCode hvalue
    have hvalue := And.intro hmade (honline (hline code modifier rfl))
    cases modifier with
    | none =>
      cases h
      exact hvalue
    | some m =>
      cases m
      cases h
      exact made_call .text (by simpa using hvalue)

theorem made_ofSegment_of_mem {child : Bool} {value : List Char} {segments : List Segment}
    {segment : Segment} {g : Generated} (hsegments : segmentsOf value = .ok segments)
    (hmem : segment ∈ segments) (h : ofSegment config child segment = .ok g) :
    Made config g ∧ g.OnLine := by
  refine made_ofSegment h ?_
  rintro code modifier rfl
  obtain ⟨read, hread, rfl⟩ := map_eq_ok.1 (mapError_eq_ok hsegments)
  split at hmem
  · cases List.mem_singleton.1 hmem
  · exact Segment.lineFeed_not_mem_of_readFrom hread (by simp) hmem

theorem made_ofValue {context : String} {value : List Char} {g : Generated}
    (h : ofValue config context value = .ok g) : Made config g ∧ g.OnLine := by
  obtain ⟨segments, hsegments, h⟩ := bind_eq_ok.1 h
  split at h
  · exact made_ofSegment_of_mem hsegments (by simp) h
  · cases h

theorem made_ofAttribute {tag : List Char} {a : Markup.Attribute} {g : Generated}
    (h : ofAttribute config tag a = .ok g) : Made config g ∧ g.OnLine := by
  simp only [ofAttribute] at h
  split at h
  · obtain ⟨values, hvalues, h⟩ := bind_eq_ok.1 h
    cases h
    refine made_call .classes fun g hg => ?_
    obtain ⟨word, -, hword⟩ := exists_of_mem_mapM hvalues hg
    exact made_ofValue hword
  · split at h
    · obtain ⟨segments, hsegments, h⟩ := bind_eq_ok.1 h
      split at h
      · exact made_ofSegment_of_mem hsegments (by simp) h
      · cases h
    · split at h
      · rename_i handler hhandler
        obtain ⟨value, hvalue, h⟩ := bind_eq_ok.1 h
        cases h
        exact ⟨⟨⟨.handler hhandler, by simp⟩, (made_ofCode hvalue).1, trivial⟩, onLine_call _ _⟩
      · obtain ⟨value, hvalue, h⟩ := bind_eq_ok.1 h
        cases h
        exact made_call .named (by simpa using ⟨made_str a.name, made_ofValue hvalue⟩)

theorem made_ofAttributes {tag : List Char} {attributes : List Markup.Attribute}
    {gs : List Generated} (h : ofAttributes config tag attributes = .ok gs) :
    ∀ g ∈ gs, Made config g ∧ g.OnLine := by
  unfold ofAttributes at h
  split at h
  · cases h
    simp
  · obtain ⟨values, hvalues, h⟩ := bind_eq_ok.1 h
    cases h
    refine List.forall_mem_singleton.2 (made_call .markup fun g hg => ?_)
    obtain ⟨a, -, ha⟩ := exists_of_mem_mapM hvalues hg
    exact made_ofAttribute ha

theorem made_builder (tag : List Char) : config.Calls (builder config tag).1 ∧
    ∀ g ∈ (builder config tag).2, Made config g ∧ g.OnLine := by
  unfold builder
  split
  · rename_i function hfunction
    exact ⟨.tag hfunction, by simp⟩
  · exact ⟨.rawTag, by simpa using made_str tag⟩

theorem made_element {tag : List Char} {attributes : List Markup.Attribute}
    {group rest : List Generated} (hgroup : ofAttributes config tag attributes = .ok group)
    (hrest : ∀ g ∈ rest, Made config g ∧ g.OnLine) :
    Made config (call (builder config tag).1 ((builder config tag).2 ++ group ++ rest)) ∧
      (call (builder config tag).1 ((builder config tag).2 ++ group ++ rest)).OnLine := by
  obtain ⟨hcalls, hfirst⟩ := @made_builder config tag
  refine made_call hcalls ?_
  simp only [List.forall_mem_append]
  exact ⟨⟨hfirst, made_ofAttributes hgroup⟩, hrest⟩

mutual

theorem made_ofNode {n : Markup.Node} {gs : List Generated} (h : ofNode config n = .ok gs) :
    ∀ g ∈ gs, Made config g ∧ g.OnLine := by
  cases n with
  | text content =>
    rw [ofNode] at h
    obtain ⟨segments, hsegments, h⟩ := bind_eq_ok.1 h
    intro g hg
    obtain ⟨segment, hmem, hsegment⟩ := exists_of_mem_mapM h hg
    exact made_ofSegment_of_mem hsegments hmem hsegment
  | element tag attributes children =>
    rw [ofNode] at h
    obtain ⟨group, hgroup, h⟩ := bind_eq_ok.1 h
    obtain ⟨rest, hrest, h⟩ := bind_eq_ok.1 h
    cases h
    exact List.forall_mem_singleton.2 (made_element hgroup (made_ofNodes hrest))

theorem made_ofNodes {ns : List Markup.Node} {gs : List Generated}
    (h : ofNodes config ns = .ok gs) : ∀ g ∈ gs, Made config g ∧ g.OnLine := by
  cases ns with
  | nil =>
    cases h
    simp
  | cons n ns =>
    rw [ofNodes] at h
    obtain ⟨first, hfirst, h⟩ := bind_eq_ok.1 h
    obtain ⟨rest, hrest, h⟩ := bind_eq_ok.1 h
    cases h
    exact List.forall_mem_append.2 ⟨made_ofNode hfirst, made_ofNodes hrest⟩

end

theorem made_ofElement {e : Markup.Element} {g : Generated} (h : ofElement config e = .ok g) :
    Made config g ∧ g.leaf? = none := by
  obtain ⟨group, hgroup, h⟩ := bind_eq_ok.1 h
  obtain ⟨rest, hrest, h⟩ := bind_eq_ok.1 h
  cases h
  exact ⟨(made_element hgroup (made_ofNodes hrest)).1, rfl⟩

end

end Generated

end InlineMarkup
