/-
Refused clauses are there already.

A working set refuses a clause whose key it knows, and keys are text. On formulas this loses nothing: every clause that a
search meets is readable, so the stored clause with the key of the refused one is that clause, or has the same literals
when keys leave out their order (`stored_of_refused`). `Refused` lists when clauses are offered: the clauses of the
formulas, one after the other, and then the resolvents along the course of the search. Every refusal of an attempt is
one of these (`refused_of_mem_proveUses`), and an attempt offers all that it reads and generates (`offers_proveUses`).
-/
import Refutation.Proofs.UniqueText
import Refutation.Proofs.Uses

namespace Refutation

/-- the clauses have literals and can be told by their keys, which are of the given kind -/
structure WorkingSet.Telling (k : Dedup) (w : WorkingSet) : Prop where
  dedup : w.dedup = k
  keys : w.KeysExact
  nonempty : Clause.empty ∉ w.clauses
  readable : ∀ c ∈ w.clauses, c.Readable

theorem WorkingSet.Telling.exists_same {k : Dedup} {w : WorkingSet} {c : Clause} (h : w.Telling k) (hc : c.Readable)
    (hne : c.isEmpty = false) (hknown : w.knows c = true) : ∃ d ∈ w.clauses, k.Same d c := by
  obtain ⟨d, hd, hsame⟩ := h.keys.exists_same h.nonempty h.readable hc hne hknown
  rw [h.dedup] at hsame
  exact ⟨d, hd, hsame⟩

namespace Search

/-- In the course of a search on the formulas the clause is offered to the working set, which gives it no index. -/
inductive Refused (settings : Settings) (formulas : List String) : WorkingSet → Clause → Prop where
  /-- the clause of a formula, when the formulas before it have been added -/
  | input {before after : List String} {formula : String} {c : Clause}
      (hformulas : formulas = before ++ formula :: after) (hread : Formula.read formula = .ok c)
      (h : ((ofFormulas settings before).working.insertInitial c).1 = none) :
      Refused settings formulas (ofFormulas settings before).working c
  /-- the next resolvent of a turn, if it has a literal -/
  | derived {s : State} {x : Inference} {rest : List Inference}
      (hcourse : Course settings (ofFormulas settings formulas) s (x :: rest)) (hne : x.resolvent.isEmpty = false)
      (h : (s.working.insertDerived x.resolvent).1 = none) : Refused settings formulas s.working x.resolvent

variable {settings : Settings} {formulas : List String}

/-- formulas give readable clauses with literals -/
theorem readable_of_mem_readAll {c : Clause} (hc : c ∈ Formula.readAll formulas) : c.literals ≠ [] ∧ c.Readable := by
  obtain ⟨f, -, hf⟩ := Formula.mem_readAll.1 hc
  exact Formula.read_readable hf

theorem ofFormulas_telling (settings : Settings) (formulas : List String) :
    (ofFormulas settings formulas).working.Telling settings.dedup := by
  have hall : (ofFormulas settings formulas).All fun c => c.literals ≠ [] ∧ c.Readable :=
    ofFormulas_all settings fun c hc => readable_of_mem_readAll hc
  have hread := hall.stored
  refine ⟨?_, ?_, fun hempty => (hread _ hempty).1 rfl, fun c hc => (hread c hc).2⟩
  · rw [ofFormulas_working]
    exact (WorkingSet.insertAll_extends _ _).dedup
  · rw [ofFormulas_working]
    exact WorkingSet.insertAll_keysExact (WorkingSet.keysExact_empty _)

/-- along the course of a search on formulas, clauses can be told by their keys, and so can the resolvents to come -/
theorem Course.telling {s : State} {agenda : List Inference}
    (h : Course settings (ofFormulas settings formulas) s agenda) :
    s.working.Telling settings.dedup ∧ ∀ x ∈ agenda, x.resolvent.Readable := by
  have hstart := ofFormulas_telling settings formulas
  have hinput : (ofFormulas settings formulas).All Clause.Readable :=
    ofFormulas_all settings fun c hc => (readable_of_mem_readAll hc).2
  obtain ⟨hall, hagenda⟩ := h.all hinput fun c d r hc hd hr => hc.resolvent hd hr
  have hdedup : s.working.dedup = settings.dedup := by
    refine h.working (P := fun w => w.dedup = settings.dedup) hstart.dedup ?_ ?_
    · intro w i w' hw hp
      rw [hp.dedup, hw]
    · intro w c w' _ hw hst
      rw [hst.dedup, hw]
  have hkeys : s.working.KeysExact :=
    h.working hstart.keys (fun _ _ _ hw hp => hp.keysExact hw) fun _ _ _ _ hw hst => hst.keysExact hw
  have hnonempty : Clause.empty ∉ s.working.clauses := by
    refine h.working (P := fun w => Clause.empty ∉ w.clauses) hstart.nonempty ?_ ?_
    · intro w i w' hw hp
      rwa [hp.clauses]
    · intro w c w' hne hw hst
      exact hst.nonempty hne hw
  exact ⟨⟨hdedup, hkeys, hnonempty, hall.stored⟩, fun x hx => (hagenda x hx).resolvent⟩

/-- a refused clause has in the working set a clause that is the same up to what the keys leave out -/
theorem Refused.exists_same {w : WorkingSet} {c : Clause} (h : Refused settings formulas w c) :
    ∃ d ∈ w.clauses, settings.dedup.Same d c := by
  cases h with
  | @input before after formula _ hformulas hread h =>
    obtain ⟨hliterals, hreadable⟩ := Formula.read_readable hread
    have htelling := ofFormulas_telling settings before
    rcases WorkingSet.insertInitial_cases (ofFormulas settings before).working c with ⟨hknown, -⟩ | ⟨-, w', e, -⟩
    · exact htelling.exists_same hreadable (by simpa [Clause.isEmpty] using hliterals) hknown
    · rw [e] at h
      cases h
  | @derived s x rest hcourse hne h =>
    obtain ⟨htelling, hagenda⟩ := hcourse.telling
    rcases WorkingSet.insertDerived_cases s.working x.resolvent with ⟨hknown, -⟩ | ⟨-, w', e, -⟩
    · exact htelling.exists_same (hagenda x List.mem_cons_self) hne hknown
    · rw [e] at h
      cases h

/-- **Every refusal is accounted for:** of the offers that an attempt on the formulas makes, those without an index are
refusals in the course of its search. -/
theorem refused_of_mem_proveUses {w : WorkingSet} {c : Clause} (h : .offer w c none ∈ proveUses settings formulas) :
    Refused settings formulas w c := by
  rcases List.mem_append.1 h with h | h
  · obtain ⟨before, formula, after, d, hformulas, hread, hoffer⟩ := State.exists_of_mem_inputUses h
    obtain ⟨rfl, rfl, hnone⟩ := Use.offer.inj hoffer
    exact .input hformulas hread hnone.symm
  · have halong := State.uses_along (ofFormulas_steps settings formulas) (ofFormulas_accounted settings formulas) h
    generalize huse : Use.offer w c none = u at halong
    cases halong with
    | offer hcourse hne =>
      obtain ⟨rfl, rfl, hnone⟩ := Use.offer.inj huse
      exact .derived hcourse hne hnone.symm
    | pivot _ _ | partner _ _ _ _ => cases huse

/-- **No offer is left out.** An attempt on formulas offers each clause that is read and each resolvent that it generates,
but for the empty clause that ends it. -/
theorem offers_proveUses (settings : Settings) (formulas : List String) :
    offers (proveUses settings formulas) + (if (prove settings formulas).termination = .contradiction then 1 else 0) =
      (Formula.readAll formulas).length + (prove settings formulas).tally.resolventsGenerated := by
  have hsearch := State.search_generated settings (ofFormulas_telling settings formulas).nonempty
  rw [ofFormulas_generated, Nat.zero_add] at hsearch
  calc offers (proveUses settings formulas) + (if (prove settings formulas).termination = .contradiction then 1 else 0)
    _ = (Formula.readAll formulas).length + offers ((ofFormulas settings formulas).uses settings) +
          (if ((ofFormulas settings formulas).search settings).2 = .contradiction then 1 else 0) := by
        rw [proveUses, offers_append, State.offers_inputUses, prove, State.run_termination]
    _ = (Formula.readAll formulas).length + ((ofFormulas settings formulas).search settings).1.generated := by
        rw [Nat.add_assoc, ← hsearch]
    _ = (Formula.readAll formulas).length + (prove settings formulas).tally.resolventsGenerated := rfl

/-- **No clause is lost to a collision of keys.** A clause that is refused in the course of a search on formulas, whatever
the settings, is in the working set that refuses it when clauses are known by their text; when they are known by their set
of literals, that working set has a clause with exactly its literals. -/
theorem stored_of_refused (settings : Settings) (formulas : List String) {w : WorkingSet} {c : Clause}
    (h : Refused settings formulas w c) :
    (settings.dedup = .canonical → c ∈ w.clauses) ∧
      (settings.dedup = .literalSet → ∃ d ∈ w.clauses, ∀ l, l ∈ d.literals ↔ l ∈ c.literals) := by
  obtain ⟨d, hd, hsame⟩ := h.exists_same
  constructor
  · intro hdedup
    rw [hdedup] at hsame
    obtain rfl : d = c := hsame
    exact hd
  · intro hdedup
    rw [hdedup] at hsame
    exact ⟨d, hd, hsame⟩

/-- a fact, a rule and what the rule gives for the fact -/
def closedChain : List String := ["P(A)", "¬P(x) ∨ Q(x)", "Q(A)"]

/-- the first turn resolves the fact with the rule, and the resolvent is refused -/
theorem refused_closedChain : ∃ w, Refused {} closedChain w ⟨[⟨true, "Q", [.const "A"]⟩]⟩ := by
  have hstart : Course {} (ofFormulas {} closedChain) (ofFormulas {} closedChain).noteConflicts [] := .start
  have hpivot : (ofFormulas {} closedChain).noteConflicts.working.nextPivot =
      (some 0, (ofFormulas {} closedChain).noteConflicts.working.nextPivot.2) := Prod.ext (by decide +kernel) rfl
  have hi : (ofFormulas {} closedChain).noteConflicts.working.nextPivot.2.get? 0 =
      some ⟨[⟨true, "P", [.const "A"]⟩]⟩ := by decide +kernel
  have hagenda : State.inferences {} (ofFormulas {} closedChain).noteConflicts.working.nextPivot.2 0
      ⟨[⟨true, "P", [.const "A"]⟩]⟩ =
      [⟨⟨[⟨true, "P", [.const "A"]⟩]⟩, ⟨[⟨false, "P", [.var "x"]⟩, ⟨true, "Q", [.var "x"]⟩]⟩,
        ⟨[⟨true, "Q", [.const "A"]⟩]⟩⟩] := by decide +kernel
  have hturn := hstart.turn (by decide +kernel) hpivot hi
  rw [hagenda] at hturn
  exact ⟨_, .derived hturn rfl (by decide +kernel)⟩

/-- the refused resolvent is a formula of the input -/
theorem stored_of_refused_closedChain :
    ∃ w, Refused {} closedChain w ⟨[⟨true, "Q", [.const "A"]⟩]⟩ ∧ ⟨[⟨true, "Q", [.const "A"]⟩]⟩ ∈ w.clauses := by
  obtain ⟨w, hw⟩ := refused_closedChain
  exact ⟨w, hw, (stored_of_refused {} closedChain hw).1 rfl⟩

end Search

end Refutation
