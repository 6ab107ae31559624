import InlineMarkup.Reconcile.Substitute
import Mathlib.Data.List.Perm.Basic

/-!
Substitution replaces the calls that are found in a tree, each once, and nothing else.
-/

set_option autoImplicit false

namespace InlineMarkup

open InlineMarkup.Host

mutual

/-- The calls `found` of a function in the first tree, which stand there in this order, are replaced in
the second. Where some are in the body of a macro call, it is written anew. -/
inductive Replaces (function : Host.Path) (f : Tree → Tree) : Tree → Tree → List Tree → Prop where
  | token (ts : List TokenTree) : Replaces function f (.token ts) (.token ts) []
  | raw (ts : List TokenTree) : Replaces function f (.raw ts) (.raw ts) []
  | group {d : Delimiter} {opening closing : Span} {children children' found : List Tree} :
    ReplacesAll function f children children' found →
    Replaces function f (.group d opening closing children) (.group d opening closing children') found
  | untouched {written : List TokenTree} {arguments arguments' : List Tree} :
    ReplacesAll function f arguments arguments' [] →
    Replaces function f (.body written arguments) (.body written arguments) []
  | body {written : List TokenTree} {arguments arguments' found : List Tree} : found ≠ [] →
    ReplacesAll function f arguments arguments' found →
    Replaces function f (.body written arguments) (.body (Tree.tokensOf arguments') arguments') found
  | call {kind : Kind} {children : List Tree} : isCallOf function (.node kind children) →
    Replaces function f (.node kind children) (f (.node kind children)) [.node kind children]
  | node {kind : Kind} {children children' found : List Tree} :
    ¬isCallOf function (.node kind children) → ReplacesAll function f children children' found →
    Replaces function f (.node kind children) (.node kind children') found

inductive ReplacesAll (function : Host.Path) (f : Tree → Tree) :
    List Tree → List Tree → List Tree → Prop where
  | nil : ReplacesAll function f [] [] []
  | cons {t t' : Tree} {ts ts' found found' : List Tree} : Replaces function f t t' found →
    ReplacesAll function f ts ts' found' → ReplacesAll function f (t :: ts) (t' :: ts') (found ++ found')

end

theorem flatMap_rank_perm (found : List (Nat × Tree)) (n : Nat) :
    ((List.range n).flatMap fun r => (found.filter (·.1 == r)).map (·.2)).Perm
      ((found.filter (·.1 < n)).map (·.2)) := by
  induction n with
  | zero => simp
  | succ n ih =>
    have hsplit : (found.filter (·.1 < n) ++ found.filter (·.1 == n)).Perm
        (found.filter (·.1 < n + 1)) := by
      have h := List.filter_append_perm (fun p => p.1 < n) (found.filter (·.1 < n + 1))
      simp only [List.filter_filter] at h
      refine .trans (.of_eq ?_) h
      congr 1 <;> refine List.filter_congr fun p _ => Bool.eq_iff_iff.2 ?_
      · simp only [decide_eq_true_eq, Bool.and_eq_true]
        omega
      · simp only [beq_iff_eq, decide_eq_true_eq, Bool.and_eq_true, Bool.not_eq_true',
          decide_eq_false_iff_not]
        omega
    rw [List.range_succ, List.flatMap_append]
    simp only [List.flatMap_cons, List.flatMap_nil, List.append_nil]
    exact (ih.append_right _).trans (by rw [← List.map_append]; exact hsplit.map _)

theorem inOrder_perm {found : List (Nat × Tree)} (h : ∀ p ∈ found, p.1 < 5) :
    (inOrder found).Perm (found.map (·.2)) := by
  have hall : found.filter (·.1 < 5) = found := List.filter_eq_self.2 (by simpa using h)
  have := flatMap_rank_perm found 5
  rwa [hall] at this

theorem rank_lt (t : Tree) : rank t < 5 := by
  unfold rank
  repeat' split
  all_goals omega

theorem rankedCalls_lt {function : Host.Path} {t : Tree} : ∀ p ∈ rankedCalls function t, p.1 < 5 := by
  intro p hp
  cases t with
  | token ts => simp [rankedCalls] at hp
  | raw ts => simp [rankedCalls] at hp
  | body written arguments =>
    obtain ⟨q, -, rfl⟩ := List.mem_map.1 hp
    exact Nat.lt_succ_self 4
  | group d opening closing children =>
    obtain ⟨q, -, rfl⟩ := List.mem_map.1 hp
    simp only
    split <;> decide
  | node kind children =>
    obtain ⟨q, -, rfl⟩ := List.mem_map.1 hp
    exact rank_lt _

theorem rankedCallsOf_lt {function : Host.Path} {ts : List Tree} :
    ∀ p ∈ rankedCallsOf function ts, p.1 < 5 := by
  induction ts with
  | nil => simp [rankedCallsOf]
  | cons t ts ih =>
    intro p hp
    exact (List.mem_append.1 hp).elim (rankedCalls_lt p) (ih p)

section

variable (function : Host.Path) (f : Tree → Tree)

mutual

theorem replaces_substitute_ranked (t : Tree) : ∃ found,
    Replaces function f t (substitute function f t) found ∧
      found.Perm ((rankedCalls function t).map (·.2)) := by
  cases t with
  | token ts => exact ⟨[], .token ts, by simp [rankedCalls]⟩
  | raw ts => exact ⟨[], .raw ts, by simp [rankedCalls]⟩
  | group d opening closing children =>
    obtain ⟨found, hreplaces, hperm⟩ := replacesAll_substituteAll children
    refine ⟨found, by simpa [substitute] using .group hreplaces, ?_⟩
    simpa [rankedCalls, Function.comp_def] using hperm
  | body written arguments =>
    obtain ⟨found, hreplaces, hperm⟩ := replacesAll_substituteAll arguments
    have hcalls : (rankedCalls function (.body written arguments)).map (·.2) =
        (rankedCallsOf function arguments).map (·.2) := by simp [rankedCalls]
    rw [substitute, hcalls]
    split
    · rename_i hnone
      rw [List.isEmpty_iff.1 hnone] at hperm ⊢
      cases List.perm_nil.1 hperm
      exact ⟨[], .untouched hreplaces, .nil⟩
    · rename_i hsome
      refine ⟨found, .body ?_ hreplaces, hperm⟩
      rintro rfl
      exact hsome (by simpa using hperm)
  | node kind children =>
    rw [substitute]
    split
    · rename_i hcall
      exact ⟨_, .call hcall, by simp [rankedCalls, hcall]⟩
    · rename_i hcall
      obtain ⟨found, hreplaces, hperm⟩ := replacesAll_substituteAll children
      have hcalls : (rankedCalls function (.node kind children)).map (·.2) =
          inOrder (rankedCallsOf function children) := by
        simp [rankedCalls, hcall, Function.comp_def]
      refine ⟨found, .node hcall hreplaces, ?_⟩
      rw [hcalls]
      -- calls are replaced where they stand but listed by rank, hence only up to order
      exact hperm.trans (inOrder_perm rankedCallsOf_lt).symm

theorem replacesAll_substituteAll (ts : List Tree) : ∃ found,
    ReplacesAll function f ts (substituteAll function f ts) found ∧
      found.Perm ((rankedCallsOf function ts).map (·.2)) := by
  cases ts with
  | nil => exact ⟨[], .nil, by simp [rankedCallsOf]⟩
  | cons t ts =>
    obtain ⟨found, hreplaces, hperm⟩ := replaces_substitute_ranked t
    obtain ⟨found', hreplaces', hperm'⟩ := replacesAll_substituteAll ts
    refine ⟨found ++ found', .cons hreplaces hreplaces', ?_⟩
    simpa [rankedCallsOf] using hperm.append hperm'

end

end

end InlineMarkup
