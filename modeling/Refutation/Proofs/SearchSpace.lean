/-
The space of a search is finite.

Resolution makes up nothing. A literal of a clause that a search stores has sign, predicate and arity of an input literal,
and its arguments are terms of the input (`Literal.Within`). There are finitely many such literals, and a resolvent
repeats none, so every stored clause is in the list `clauseSpace`, which depends on the input alone. No clause is stored
twice and each is the pivot of at most one turn: a budget of as many turns as there are clauses in the space is never
used up with a clause still waiting (`not_stepLimit_of_le`).
-/
import Mathlib.Data.List.Permutation
import Mathlib.Data.List.Sections
import Mathlib.Data.List.Sublists
import Refutation.Proofs.Courses

namespace Refutation

/-- sign, predicate and arity are those of an input literal, and the arguments are terms of the input -/
structure Literal.Within (input : List Clause) (k : Literal) : Prop where
  form : ∃ c ∈ input, ∃ l ∈ c.literals, k.positive = l.positive ∧ k.atom.predicate = l.atom.predicate ∧
    k.atom.arity = l.atom.arity
  args : ∀ t ∈ k.atom.args, ∃ c ∈ input, t ∈ c.terms

/-- the literals that a search on the input can meet -/
def literalSpace (input : List Clause) : List Literal :=
  (input.flatMap Clause.literals).flatMap fun l =>
    (List.replicate l.atom.arity (input.flatMap Clause.terms)).sections.map fun args =>
      ⟨l.positive, l.atom.predicate, args⟩

/-- the clauses that a search can store: those of the input, and those that list some of the literals without repetition -/
def clauseSpace (input : List Clause) : List Clause :=
  input ++ ((literalSpace input).sublists.flatMap List.permutations).map Clause.mk

variable {input : List Clause} {c d : Clause}

/-! ## Literals -/

theorem Literal.within_of_mem {k : Literal} (hc : c ∈ input) (hk : k ∈ c.literals) : k.Within input where
  form := ⟨c, hc, k, hk, rfl, rfl, rfl⟩
  args := fun _ ht => ⟨c, hc, Clause.mem_terms.2 ⟨k, hk, ht⟩⟩

/-- **Resolution stays within the input.** -/
theorem within_resolvent {u : Unifier} {r : Resolvent} (hc : ∀ k ∈ c.literals, k.Within input)
    (hd : ∀ k ∈ d.literals, k.Within input) (hr : r ∈ resolvents u c d) : ∀ k ∈ r.clause.literals, k.Within input := by
  intro k hk
  obtain ⟨l, hl, hpositive, hpredicate, harity, hterms⟩ := mem_literals_resolvent hr hk
  have hparents : ∀ m ∈ c.literals ++ d.literals, m.Within input := by
    intro m hm
    rcases List.mem_append.1 hm with hm | hm
    · exact hc m hm
    · exact hd m hm
  refine ⟨?_, fun t ht => ?_⟩
  · obtain ⟨e, he, m, hm, hmpositive, hmpredicate, hmarity⟩ := (hparents l hl).form
    exact ⟨e, he, m, hm, hpositive.trans hmpositive, hpredicate.trans hmpredicate, harity.trans hmarity⟩
  · rcases List.mem_append.1 (hterms t ht) with ht | ht
    · obtain ⟨m, hm, htm⟩ := Clause.mem_terms.1 ht
      exact (hc m hm).args t htm
    · obtain ⟨m, hm, htm⟩ := Clause.mem_terms.1 ht
      exact (hd m hm).args t htm

theorem mem_sections_replicate {ts args : List Term} (h : ∀ t ∈ args, t ∈ ts) :
    args ∈ (List.replicate args.length ts).sections := by
  rw [List.mem_sections]
  induction args with
  | nil => exact List.Forall₂.nil
  | cons t args ih =>
    have hrest := ih fun u hu => h u (List.mem_cons_of_mem t hu)
    exact List.Forall₂.cons (h t List.mem_cons_self) hrest

theorem Literal.Within.mem_literalSpace {k : Literal} (h : k.Within input) : k ∈ literalSpace input := by
  obtain ⟨c, hc, l, hl, hpositive, hpredicate, harity⟩ := h.form
  have hargs : ∀ t ∈ k.atom.args, t ∈ input.flatMap Clause.terms := fun t ht => List.mem_flatMap.2 (h.args t ht)
  refine List.mem_flatMap.2 ⟨l, List.mem_flatMap.2 ⟨c, hc, hl⟩, List.mem_map.2 ⟨k.atom.args, ?_, ?_⟩⟩
  · rw [← harity]
    exact mem_sections_replicate hargs
  · rw [← hpositive, ← hpredicate]

/-! ## Clauses -/

/-- a clause without repetition of literals within the input is in the space -/
theorem mem_clauseSpace_of_nodup (hnodup : c.literals.Nodup) (hwithin : ∀ k ∈ c.literals, k.Within input) :
    c ∈ clauseSpace input := by
  have hsub : c.literals ⊆ literalSpace input := fun k hk => (hwithin k hk).mem_literalSpace
  obtain ⟨ls, hperm, hls⟩ := hnodup.subperm hsub
  refine List.mem_append_right _ (List.mem_map.2 ⟨c.literals, ?_, rfl⟩)
  exact List.mem_flatMap.2 ⟨ls, List.mem_sublists.2 hls, List.mem_permutations.2 hperm.symm⟩

namespace Search

variable {settings : Settings} {s : State} {agenda : List Inference}

/-- along the course of a search the clauses are those of the input, or list literals within it without repetition -/
theorem Course.within (h : Course settings (ofClauses settings input) s agenda) :
    ∀ c ∈ s.working.clauses, (∀ k ∈ c.literals, k.Within input) ∧ (c ∈ input ∨ c.literals.Nodup) := by
  have hinput := ofClauses_all (P := fun c => (∀ k ∈ c.literals, k.Within input) ∧ (c ∈ input ∨ c.literals.Nodup))
    settings fun c hc => ⟨fun k hk => Literal.within_of_mem hc hk, Or.inl hc⟩
  refine (h.all hinput fun c d r hc hd hr => ?_).1.stored
  exact ⟨within_resolvent hc.1 hd.1 hr, Or.inr (nodup_resolvent hr)⟩

theorem Course.mem_clauseSpace (h : Course settings (ofClauses settings input) s agenda) (hc : c ∈ s.working.clauses) :
    c ∈ clauseSpace input := by
  obtain ⟨hwithin, hinput | hnodup⟩ := h.within c hc
  · exact List.mem_append_left _ hinput
  · exact mem_clauseSpace_of_nodup hnodup hwithin

/-! ## Turns -/

/-- the final working set holds no more clauses than the space, as it holds none twice -/
theorem size_final_le (settings : Settings) (input : List Clause) :
    ((ofClauses settings input).final settings).size ≤ (clauseSpace input).length := by
  obtain ⟨taken, -, haccounted⟩ := ofClauses_search_accounted settings input
  obtain ⟨s, agenda, hcourse, hfinal⟩ := ofClauses_course settings input
  have hsub : ((ofClauses settings input).final settings).clauses.toList ⊆ clauseSpace input := by
    intro c hc
    rw [hfinal] at hc
    exact hcourse.mem_clauseSpace (Array.mem_toList_iff.1 hc)
  exact (haccounted.nodup.subperm hsub).length_le

/-- a search that stops at the step limit has made fewer turns than there are clauses in its final working set -/
theorem maxSteps_lt_size (h : (proveClauses settings input).outcome.termination = .stepLimit) :
    settings.maxSteps < ((ofClauses settings input).final settings).size := by
  obtain ⟨-, -, hstopped⟩ := (ofClauses_ending settings input).turns (ofClauses_search_accounted settings input)
  exact (hstopped h).2

/-- **A budget of the size of the space is enough.** -/
theorem not_stepLimit_of_le (h : (clauseSpace input).length ≤ settings.maxSteps) :
    (proveClauses settings input).outcome.termination ≠ .stepLimit := by
  intro hlimit
  have hlt := maxSteps_lt_size hlimit
  have hle := size_final_le settings input
  omega

/-- **Searches saturate.** Whatever the settings, at every point of a search on clauses each literal of each stored clause
has sign, predicate and arity of an input literal and arguments of the input; and the input alone gives a number of turns
from which on no budget cuts a search short. -/
theorem search_saturates (input : List Clause) :
    (∀ settings s agenda, Course settings (ofClauses settings input) s agenda →
      ∀ c ∈ s.working.clauses, ∀ k ∈ c.literals, k.Within input) ∧
    (∀ settings, ∀ c ∈ ((ofClauses settings input).final settings).clauses, ∀ k ∈ c.literals, k.Within input) ∧
    ∃ N, ∀ settings : Settings, N ≤ settings.maxSteps →
      (proveClauses settings input).outcome.termination ≠ .stepLimit := by
  refine ⟨fun settings s agenda h c hc => (h.within c hc).1, fun settings c hc => ?_,
    (clauseSpace input).length, fun settings hle => not_stepLimit_of_le hle⟩
  obtain ⟨s, agenda, hcourse, hfinal⟩ := ofClauses_course settings input
  rw [hfinal] at hc
  exact (hcourse.within c hc).1

end Search

end Refutation
