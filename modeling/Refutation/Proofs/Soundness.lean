/-
What a proof says about the input.

With the complete unifier a proof is right: input that a search refutes has no model (`complete_sound`). The argument is
one induction on derivations. A structure that models the input models every derived clause, unless some noted resolution
leads from clauses that it models to one that it does not; and that happens only where the substitution leaves the
resolved literals different (`Derivation.models_or_misstep`). The complete unifier never leaves them different.

The single-pass unifier does, and then a search can refute formulas that have a model (`singlePass_refutes_diagonal`):
from `P(x, x)` and `¬P(y, z) ∨ R(y, z)` it derives `R(y, x)`. What holds of it is that each false proof has such a step in
its journal (`misstep_of_model`), so a proof all of whose steps unify is right.
-/
import Refutation.Proofs.Derivations
import Refutation.Proofs.Truth

universe u

namespace Refutation.Search

/-- A noted resolution of two clauses that the structure models, on literals that the substitution leaves different, to
a clause that the structure does not model. -/
structure Misstep (settings : Settings) (journal : List Journal.Entry) (M : Structure.{u}) (left right : Clause)
    (r : Resolvent) : Prop where
  selected : r ∈ settings.pairSelection.resolvents settings.unifier left right
  noted : .resolved left right r.clause ∈ journal
  models_left : M.Models left
  models_right : M.Models right
  not_unified : ¬ r.Unified left right
  not_models : ¬ M.Models r.clause

variable {settings : Settings} {input : List Clause} {journal : List Journal.Entry} {M : Structure.{u}}

theorem Derivation.models_or_misstep (hM : ∀ c ∈ input, M.Models c) {c : Clause}
    (h : Derivation settings input journal c) :
    M.Models c ∨ ∃ left right r, Misstep settings journal M left right r := by
  induction h with
  | input hc => exact Or.inl (hM _ hc)
  | @resolve left right r _ _ hr hnoted ihl ihr =>
    rcases ihl with hl | hstep
    · rcases ihr with hr' | hstep
      · by_cases hc : M.Models r.clause
        · exact Or.inl hc
        · refine Or.inr ⟨left, right, r, hr, hnoted, hl, hr', fun hunified => hc ?_, hc⟩
          exact hl.resolvent (PairSelection.resolvents_subset _ _ _ _ hr) hunified hr'
      · exact Or.inr hstep
    · exact Or.inr hstep

theorem not_misstep_of_complete (hu : settings.unifier = .complete) {left right : Clause} {r : Resolvent} :
    ¬ Misstep settings journal M left right r := by
  intro h
  have hr := PairSelection.resolvents_subset _ _ _ _ h.selected
  rw [hu] at hr
  exact h.not_unified (Resolvent.unified_of_complete hr)

/-- an attempt that proves its input, although `M` models it, notes a misstep -/
theorem State.misstep_of_run {s : State} (hs : s.Derived settings input)
    (hproved : (s.run settings).outcome.proved = true) (hM : ∀ c ∈ input, M.Models c) :
    ∃ left right r, Misstep settings (s.run settings).journal M left right r := by
  rcases (derivation_of_run hs hproved).models_or_misstep hM with hempty | hstep
  · obtain ⟨x⟩ : Nonempty M.Domain := ⟨M.constant ""⟩
    exact absurd (hempty fun _ => x) (Clause.not_trueIn_empty _)
  · exact hstep

/-- **The complete unifier proves only what is contradictory.** Clauses, or formulas, that a search with the complete
unifier refutes have no model, whatever the other settings. -/
theorem complete_sound (settings : Settings) (hu : settings.unifier = .complete) :
    (∀ clauses, (proveClauses settings clauses).outcome.proved = true →
      ∀ M : Structure.{u}, ¬ ∀ c ∈ clauses, M.Models c) ∧
    (∀ formulas, (prove settings formulas).outcome.proved = true →
      ∀ M : Structure.{u}, ¬ ∀ c ∈ Formula.readAll formulas, M.Models c) := by
  constructor
  · intro clauses hproved M hM
    obtain ⟨left, right, r, hstep⟩ := State.misstep_of_run (ofClauses_derived settings clauses) hproved hM
    exact not_misstep_of_complete hu hstep
  · intro formulas hproved M hM
    obtain ⟨left, right, r, hstep⟩ := State.misstep_of_run (ofFormulas_derived settings formulas) hproved hM
    exact not_misstep_of_complete hu hstep

/-- a refutation through a chain of bindings -/
theorem complete_sound_reflexive :
    (prove { unifier := .complete } ["P(x, x)", "¬P(y, z) ∨ R(y, z)", "¬R(A, A)"]).outcome.proved = true ∧
      ∀ M : Structure.{0}, ¬ ∀ c ∈ Formula.readAll ["P(x, x)", "¬P(y, z) ∨ R(y, z)", "¬R(A, A)"], M.Models c := by
  have hproved :
      (prove { unifier := .complete } ["P(x, x)", "¬P(y, z) ∨ R(y, z)", "¬R(A, A)"]).outcome.proved = true := by
    decide +kernel
  exact ⟨hproved, (complete_sound { unifier := .complete } rfl).2 _ hproved⟩

/-! ## The single-pass unifier -/

/-- `R` holds where `P` does, `P` holds of equal elements, and `A` and `B` are different -/
def diagonalFormulas : List String := ["P(x, x)", "¬P(y, z) ∨ R(y, z)", "¬R(A, B)"]

/-- two elements, with equality for every predicate -/
def diagonal : Structure where
  Domain := Bool
  constant := fun name => name == "A"
  relation := fun _ args => ∃ a, args = [a, a]

theorem readAll_diagonalFormulas :
    Formula.readAll diagonalFormulas =
      [⟨[⟨true, "P", [.var "x", .var "x"]⟩]⟩,
        ⟨[⟨false, "P", [.var "y", .var "z"]⟩, ⟨true, "R", [.var "y", .var "z"]⟩]⟩,
        ⟨[⟨false, "R", [.const "A", .const "B"]⟩]⟩] := by
  decide +kernel

theorem diagonal_models : ∀ c ∈ Formula.readAll diagonalFormulas, diagonal.Models c := by
  rw [readAll_diagonalFormulas]
  simp only [List.forall_mem_cons]
  refine ⟨fun v => ?_, fun v => ?_, fun v => ?_, by simp⟩
  · exact ⟨_, List.mem_cons_self, v "x", rfl⟩
  · by_cases h : ∃ a, [v "y", v "z"] = [a, a]
    · exact ⟨_, List.mem_cons_of_mem _ List.mem_cons_self, h⟩
    · exact ⟨_, List.mem_cons_self, h⟩
  · refine ⟨_, List.mem_cons_self, ?_⟩
    rintro ⟨a, ha⟩
    simp only [List.map_cons, List.map_nil, Structure.eval, diagonal, List.cons.injEq, and_true] at ha
    obtain ⟨rfl, hb⟩ := ha
    exact absurd hb (by decide)

/-- **The single-pass unifier refutes formulas that have a model.** -/
theorem singlePass_refutes_diagonal :
    ({} : Settings).unifier = .singlePass ∧ (prove {} diagonalFormulas).outcome.proved = true ∧
      ∀ c ∈ Formula.readAll diagonalFormulas, diagonal.Models c :=
  ⟨rfl, by decide +kernel, diagonal_models⟩

/-- **A false proof has a misstep.** When formulas are proved contradictory although a structure models them all, the
journal notes a resolution of two clauses true in the structure to one that is not, by a substitution that does not make
the resolved literals equal. -/
theorem misstep_of_model (settings : Settings) (formulas : List String)
    (hproved : (prove settings formulas).outcome.proved = true) (M : Structure.{u})
    (hM : ∀ c ∈ Formula.readAll formulas, M.Models c) :
    ∃ left right r, Misstep settings (prove settings formulas).journal M left right r :=
  State.misstep_of_run (ofFormulas_derived settings formulas) hproved hM

/-- the refutation of `diagonalFormulas` has one -/
theorem misstep_of_diagonal :
    ∃ left right r, Misstep {} (prove {} diagonalFormulas).journal diagonal left right r :=
  misstep_of_model {} diagonalFormulas (by decide +kernel) diagonal diagonal_models

end Refutation.Search
