import InlineMarkup.Config.TagTable
import InlineMarkup.Proofs.Markup.WellFormed
import Mathlib.Data.Set.Card

/-!
Tag tables as maps. The names of every table that can be reached are in lower case and stand there
once. An insertion goes by the name in lower case, a removal by the name as given: it is the inverse
of an insertion for a name in lower case, and does nothing for any other (`reachable_is_map`).
-/

set_option autoImplicit false

namespace InlineMarkup

open InlineMarkup.Text

namespace Dictionary

variable {α : Type}

def names (d : Dictionary α) : List (List Char) :=
  d.entries.map (·.1)

theorem get?_erase (d : Dictionary α) (name other : List Char) :
    (d.erase name).get? other = if other = name then none else d.get? other := by
  by_cases h : other = name
  · subst h
    simp [get?, erase]
  · simp only [get?, erase, h, if_false, List.find?_filter]
    congr 2
    funext e
    by_cases he : e.1 = other <;> simp [he, h]

theorem get?_insert (d : Dictionary α) (name other : List Char) (value : α) :
    (d.insert name value).get? other = if other = name then some value else d.get? other := by
  have herase := get?_erase d name other
  simp only [get?] at herase ⊢
  simp only [insert, List.find?_append, Option.map_or, herase]
  by_cases h : other = name
  · simp [h]
  · simp [h, Ne.symm h]

theorem isSome_get?_iff (d : Dictionary α) (name : List Char) :
    (d.get? name).isSome ↔ name ∈ d.names := by
  simp [get?, names, List.find?_isSome]

theorem names_erase (d : Dictionary α) (name : List Char) :
    (d.erase name).names = d.names.filter (· != name) := by
  simp [names, erase, List.filter_map, Function.comp_def]

theorem names_insert (d : Dictionary α) (name : List Char) (value : α) :
    (d.insert name value).names = d.names.filter (· != name) ++ [name] := by
  rw [← names_erase]
  simp [names, insert]

theorem erase_eq_self {d : Dictionary α} {name : List Char} (h : name ∉ d.names) :
    d.erase name = d := by
  have hall : ∀ e ∈ d.entries, (e.1 != name) = true := by
    intro e he
    have : e.1 ≠ name := by
      rintro rfl
      exact h (List.mem_map_of_mem he)
    simpa using this
  rw [erase, List.filter_eq_self.2 hall]

theorem size_eq_ncard {d : Dictionary α} (h : d.names.Nodup) :
    d.size = {name | (d.get? name).isSome}.ncard := by
  have hset : {name | (d.get? name).isSome} = (d.names.toFinset : Set (List Char)) := by
    ext name
    simp [isSome_get?_iff]
  rw [hset, Set.ncard_coe_finset, List.toFinset_card_of_nodup h, names, List.length_map]
  rfl

end Dictionary

theorem lower_lower (s : List Char) : lower (lower s) = lower s := by
  refine Markup.lower_of_not_upper fun c hc => ?_
  obtain ⟨b, -, rfl⟩ := List.mem_map.1 hc
  rcases Markup.toLower_cases b with hlower | ⟨heq, hupper⟩
  · exact (Markup.plain_of_isLower hlower).2.2.2.2
  · rwa [heq]

namespace TagTable

/-- The tables that insertions and removals lead to. -/
inductive Reachable : TagTable → Prop where
  | empty : Reachable empty
  | html (module : Host.Path) : Reachable (html module)
  | insert {t : TagTable} (tag : List Char) (function : Host.Path) :
    Reachable t → Reachable (t.insert tag function)
  | erase {t : TagTable} (tag : List Char) : Reachable t → Reachable (t.erase tag)

/-- The names of a table are in lower case, and each stands there once. -/
structure IsNormal (t : TagTable) : Prop where
  lowered : ∀ name ∈ t.functions.names, lower name = name
  nodup : t.functions.names.Nodup

theorem isNormal_html (module : Host.Path) : IsNormal (html module) := by
  have hnames : (html module).functions.names = htmlElements.map (·.1.toList) := by
    simp [html, Dictionary.names, Function.comp_def]
  constructor
  · rw [hnames]
    decide +kernel
  · rw [hnames]
    decide +kernel

theorem IsNormal.insert {t : TagTable} (h : IsNormal t) (tag : List Char) (function : Host.Path) :
    IsNormal (t.insert tag function) := by
  have hnames := Dictionary.names_insert t.functions (lower tag) function
  constructor
  · intro name hname
    rw [TagTable.insert, hnames] at hname
    rcases List.mem_append.1 hname with hname | hname
    · exact h.lowered name (List.mem_of_mem_filter hname)
    · rw [List.mem_singleton.1 hname, lower_lower]
  · rw [TagTable.insert, hnames]
    refine List.Nodup.append (h.nodup.filter _) (List.nodup_singleton _) ?_
    simp

theorem IsNormal.erase {t : TagTable} (h : IsNormal t) (tag : List Char) : IsNormal (t.erase tag) := by
  have hnames := Dictionary.names_erase t.functions tag
  constructor
  · intro name hname
    rw [TagTable.erase, hnames] at hname
    exact h.lowered name (List.mem_of_mem_filter hname)
  · rw [TagTable.erase, hnames]
    exact h.nodup.filter _

theorem Reachable.isNormal {t : TagTable} (h : Reachable t) : IsNormal t := by
  induction h with
  | empty => exact ⟨by simp [TagTable.empty, Dictionary.names], by simp [TagTable.empty, Dictionary.names]⟩
  | html module => exact isNormal_html module
  | insert tag function _ ih => exact ih.insert tag function
  | erase tag _ ih => exact ih.erase tag

theorem IsNormal.lower_of_isSome {t : TagTable} (h : IsNormal t) {name : List Char}
    (hname : (t.get? name).isSome) : lower name = name :=
  h.lowered name ((Dictionary.isSome_get?_iff t.functions name).1 hname)

theorem IsNormal.of_capital {t : TagTable} (h : IsNormal t) {tag : List Char}
    (htag : lower tag ≠ tag) : t.get? tag = none ∧ t.erase tag = t := by
  have hnot : tag ∉ t.functions.names := fun hmem => htag (h.lowered tag hmem)
  constructor
  · rw [← Option.not_isSome_iff_eq_none]
    exact fun hsome => hnot ((Dictionary.isSome_get?_iff t.functions tag).1 hsome)
  · rw [TagTable.erase, Dictionary.erase_eq_self hnot]

theorem get?_insert (t : TagTable) (tag name : List Char) (function : Host.Path) :
    (t.insert tag function).get? name =
      if name = lower tag then some function else t.get? name :=
  Dictionary.get?_insert t.functions (lower tag) name function

theorem get?_erase (t : TagTable) (tag name : List Char) :
    (t.erase tag).get? name = if name = tag then none else t.get? name :=
  Dictionary.get?_erase t.functions tag name

/-- A removal takes out what is stored under the name in lower case, and nothing else. -/
structure Removes (t : TagTable) (tag : List Char) : Prop where
  gone : (t.erase tag).get? (lower tag) = none
  removed : t.removed tag = t.get? (lower tag)
  others : ∀ name, name ≠ lower tag → (t.erase tag).get? name = t.get? name

theorem IsNormal.removes_iff {t : TagTable} (h : IsNormal t) (tag : List Char) :
    Removes t tag ↔ lower tag = tag ∨ t.get? (lower tag) = none := by
  constructor
  · intro hremoves
    by_cases htag : lower tag = tag
    · exact .inl htag
    · refine .inr ?_
      rw [← hremoves.removed]
      exact (h.of_capital htag).1
  · intro hor
    by_cases htag : lower tag = tag
    · refine ⟨?_, by rw [TagTable.removed, htag], fun name hname => ?_⟩
      · rw [get?_erase, if_pos htag]
      · rw [get?_erase, if_neg (htag ▸ hname)]
    · obtain ⟨hnone, herase⟩ := h.of_capital htag
      have hlower := hor.resolve_left htag
      exact ⟨by rw [herase, hlower], by rw [TagTable.removed, hnone, hlower],
        fun name _ => by rw [herase]⟩

/-- A table that can be reached is a map on names in lower case. A name is inserted in lower case,
whatever its spelling; a removal takes out what was inserted if and only if the name was spelt so,
and else leaves the table as it is. -/
theorem reachable_is_map {t : TagTable} (h : Reachable t) (tag : List Char) :
    (∀ function, (t.insert tag function).get? (lower tag) = some function ∧
      t.replaced tag = t.get? (lower tag) ∧
      ∀ name, name ≠ lower tag → (t.insert tag function).get? name = t.get? name) ∧
    (Removes t tag ↔ lower tag = tag ∨ t.get? (lower tag) = none) ∧
    (lower tag ≠ tag → t.removed tag = none ∧ t.erase tag = t) ∧
    (∀ function, (t.insert tag function).removed tag = some function ↔ lower tag = tag) ∧
    t.size = {name | (t.get? name).isSome}.ncard ∧
    (∀ name, (t.get? name).isSome → lower name = name) := by
  have hnormal := h.isNormal
  refine ⟨fun function => ⟨?_, rfl, fun name hname => ?_⟩, hnormal.removes_iff tag,
    hnormal.of_capital, fun function => ⟨fun hremoved => ?_, fun htag => ?_⟩,
    Dictionary.size_eq_ncard hnormal.nodup, fun name => hnormal.lower_of_isSome⟩
  · rw [get?_insert, if_pos rfl]
  · rw [get?_insert, if_neg hname]
  · refine (hnormal.insert tag function).lower_of_isSome ?_
    rw [← TagTable.removed, hremoved]
    rfl
  · rw [TagTable.removed, get?_insert, if_pos htag.symm]

/-- A name with a capital is stored in lower case, and is not taken out by its own spelling. -/
theorem reachable_is_map_capital :
    Reachable (empty.insert "Card".toList (.ofNames ["ui", "card"])) ∧
      (empty.insert "Card".toList (.ofNames ["ui", "card"])).get? "card".toList =
        some (.ofNames ["ui", "card"]) ∧
      ¬Removes (empty.insert "Card".toList (.ofNames ["ui", "card"])) "Card".toList ∧
      (empty.insert "Card".toList (.ofNames ["ui", "card"])).removed "Card".toList = none := by
  have hreachable : Reachable (empty.insert "Card".toList (.ofNames ["ui", "card"])) :=
    .insert _ _ .empty
  obtain ⟨-, hremoves, hcapital, -⟩ := reachable_is_map hreachable "Card".toList
  have hstored := ((reachable_is_map .empty "Card".toList).1 (.ofNames ["ui", "card"])).1
  refine ⟨hreachable, hstored, fun h => ?_, (hcapital (by decide)).1⟩
  rcases hremoves.1 h with htag | hnone
  · exact absurd htag (by decide)
  · cases hstored.symm.trans hnone

end TagTable

end InlineMarkup
