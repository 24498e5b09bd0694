/-
Names of variables count only as far as they are equal.

A search on renamed clauses is the renamed search when the renaming is injective on all names (`proveClauses_rename`). It
is enough that it is injective on the variables of the input. Such a renaming agrees there with one that is injective
everywhere, and a search meets no other variables: whatever it stores or notes, down to the pivots and the clauses that it
drops, comes from the input by resolution (`proveClauses_noted`), which makes up no variables (`mem_vars_resolvent`). So
the two renamings rename the journal alike (`Attempt.rename_congr`).
-/
import Refutation.Proofs.Courses
import Refutation.Proofs.RenamedSearch

namespace Refutation

variable {π ρ : String → String}

theorem Journal.Entry.rename_congr {e : Entry} (h : ∀ c ∈ e.clauses, c.rename π = c.rename ρ) :
    e.rename π = e.rename ρ := by
  cases e <;> simp_all [Entry.rename, Entry.clauses]

/-- resolution makes up no variables -/
theorem mem_vars_resolvent {u : Unifier} {c d : Clause} {r : Resolvent} (hr : r ∈ resolvents u c d) {x : String}
    (hx : x ∈ r.clause.vars) : x ∈ c.vars ++ d.vars := by
  obtain ⟨k, hk, hxk⟩ := Clause.mem_terms.1 (Clause.mem_vars.1 hx)
  obtain ⟨-, -, -, -, -, hterms⟩ := mem_literals_resolvent hr hk
  exact Clause.mem_vars_append.2 (hterms _ hxk)

namespace Search

variable {settings : Settings} {input : List Clause}

/-- the variables of the clauses get names of variables, different ones for different variables -/
structure InputRenaming (input : List Clause) (ρ : String → String) : Prop where
  injective : ∀ x ∈ input.flatMap Clause.vars, ∀ y ∈ input.flatMap Clause.vars, ρ x = ρ y → x = y
  wellFormed : ∀ x ∈ input.flatMap Clause.vars, (Term.var (ρ x)).WellFormed

/-! ## The clauses of a journal -/

/-- the entries that end a journal note no clauses -/
theorem State.All.conclude {P : Clause → Prop} {s : State} (h : s.All P) (τ : Termination) :
    ∀ e ∈ (s.conclude settings τ).journal, ∀ c ∈ e.clauses, P c := by
  have hclosing : (s.closing settings τ).clauses = [] := by cases τ <;> rfl
  have hclosed : (s.note (s.closing settings τ)).All P := h.note (by simp [hclosing])
  have hfinished : ((s.note (s.closing settings τ)).note (.finished τ s.steps s.working.size)).All P :=
    hclosed.note (by simp [Journal.Entry.clauses])
  intro e he
  exact hfinished.noted e (Array.mem_toList_iff.1 he)

/-- what the input has and resolvents inherit, every clause in the journal of an attempt has -/
theorem proveClauses_noted {P : Clause → Prop} (hinput : ∀ c ∈ input, P c)
    (hstep : ∀ c d r, P c → P d → r ∈ resolvents settings.unifier c d → P r.clause) :
    ∀ e ∈ (proveClauses settings input).journal, ∀ c ∈ e.clauses, P c :=
  ((ofClauses_ending settings input).all (ofClauses_all settings hinput) hstep).conclude _

/-- the variables in the journal of an attempt are those of the input -/
theorem mem_vars_of_noted {e : Journal.Entry} (he : e ∈ (proveClauses settings input).journal) {c : Clause}
    (hc : c ∈ e.clauses) : ∀ x ∈ c.vars, x ∈ input.flatMap Clause.vars := by
  refine proveClauses_noted (P := fun c => ∀ x ∈ c.vars, x ∈ input.flatMap Clause.vars) ?_ ?_ e he c hc
  · intro d hd x hx
    exact List.mem_flatMap.2 ⟨d, hd, hx⟩
  · intro c d r hc hd hr x hx
    rcases List.mem_append.1 (mem_vars_resolvent hr hx) with hx | hx
    · exact hc x hx
    · exact hd x hx

/-! ## Renaming the input -/

theorem Attempt.rename_congr {a : Attempt} (h : ∀ e ∈ a.journal, ∀ c ∈ e.clauses, c.rename π = c.rename ρ) :
    a.rename π = a.rename ρ := by
  have hjournal : a.journal.map (Journal.Entry.rename π) = a.journal.map (Journal.Entry.rename ρ) :=
    List.map_congr_left fun e he => Journal.Entry.rename_congr (h e he)
  simp only [Attempt.rename, hjournal]

/-- renaming the variables of well-formed input apart from each other renames the attempt -/
theorem InputRenaming.proveClauses (hinput : ∀ c ∈ input, c.WellFormed) (hρ : InputRenaming input ρ) :
    proveClauses settings (input.map (Clause.rename ρ)) = (proveClauses settings input).rename ρ := by
  obtain ⟨π, hπ, hagree⟩ := exists_injective_extension hρ.injective
  have hclause : ∀ c : Clause, (∀ x ∈ c.vars, x ∈ input.flatMap Clause.vars) → c.rename π = c.rename ρ := by
    intro c hc
    exact Clause.rename_congr fun x hx => hagree x (hc x hx)
  have hvars : ∀ c ∈ input, ∀ x ∈ c.vars, x ∈ input.flatMap Clause.vars :=
    fun c hc x hx => List.mem_flatMap.2 ⟨c, hc, hx⟩
  have hrenamable : ∀ c ∈ input, c.Renamable π := by
    intro c hc
    refine ⟨hinput c hc, ?_⟩
    rw [hclause c (hvars c hc)]
    exact (hinput c hc).rename fun x hx => hρ.wellFormed x (hvars c hc x hx)
  calc Search.proveClauses settings (input.map (Clause.rename ρ))
      = Search.proveClauses settings (input.map (Clause.rename π)) := by
        rw [List.map_congr_left fun c hc => hclause c (hvars c hc)]
    _ = (Search.proveClauses settings input).rename π := proveClauses_rename hπ hrenamable
    _ = (Search.proveClauses settings input).rename ρ := by
        refine Attempt.rename_congr fun e he c hc => hclause c ?_
        exact mem_vars_of_noted he hc

/-- **A search depends on names of variables only through equality.** For all settings and all well-formed clauses, when
the variables of the clauses are renamed, different ones differently, to names of variables, the attempt has the same
verdict, termination and counters, and its trace shows the same entries with their clauses renamed. -/
theorem names_only_through_equality (settings : Settings) (input : List Clause) (ρ : String → String)
    (hinput : ∀ c ∈ input, c.WellFormed) (hρ : InputRenaming input ρ) :
    let plain := proveClauses settings input
    let renamed := proveClauses settings (input.map (Clause.rename ρ))
    renamed.outcome.proved = plain.outcome.proved ∧ renamed.outcome.termination = plain.outcome.termination ∧
      renamed.outcome.tally = plain.outcome.tally ∧ plain.outcome.trace = Journal.trace plain.journal ∧
      renamed.outcome.trace = Journal.trace (plain.journal.map (Journal.Entry.rename ρ)) := by
  intro plain renamed
  have hsame : renamed = plain.rename ρ := hρ.proveClauses hinput
  rw [hsame]
  exact ⟨rfl, rfl, rfl, rfl, rfl⟩

/-- `P(x, y)`, `¬P(x, z) ∨ Q(z, x)` and `¬Q(A, B)` with `x` and `z` exchanged and `y` called `w` -/
theorem names_exchanged :
    let settings : Settings := { unifier := .complete, pairSelection := .all }
    let input : List Clause := [⟨[⟨true, "P", [.var "x", .var "y"]⟩]⟩,
      ⟨[⟨false, "P", [.var "x", .var "z"]⟩, ⟨true, "Q", [.var "z", .var "x"]⟩]⟩,
      ⟨[⟨false, "Q", [.const "A", .const "B"]⟩]⟩]
    let ρ : String → String := fun x => if x = "x" then "z" else if x = "z" then "x" else "w"
    (∀ c ∈ input, c.WellFormed) ∧ InputRenaming input ρ ∧
      (proveClauses settings input).outcome.trace.events =
        [.clauseAdded "P(x, y)", .clauseAdded "¬P(x, z) ∨ Q(z, x)", .clauseAdded "¬Q(A, B)",
          .resolution "P(x, y)" "¬P(x, z) ∨ Q(z, x)" "Q(z, x)", .resolution "Q(z, x)" "¬Q(A, B)" "◻", .contradiction] ∧
      (proveClauses settings (input.map (Clause.rename ρ))).outcome.trace.events =
        [.clauseAdded "P(z, w)", .clauseAdded "¬P(z, x) ∨ Q(x, z)", .clauseAdded "¬Q(A, B)",
          .resolution "P(z, w)" "¬P(z, x) ∨ Q(x, z)" "Q(x, z)", .resolution "Q(x, z)" "¬Q(A, B)" "◻",
          .contradiction] := by
  intro settings input ρ
  have hinput : ∀ c ∈ input, c.WellFormed := by decide +kernel
  have hρ : InputRenaming input ρ := ⟨by decide +kernel, by decide +kernel⟩
  obtain ⟨-, -, -, -, htrace⟩ := names_only_through_equality settings input ρ hinput hρ
  refine ⟨hinput, hρ, by decide +kernel, ?_⟩
  rw [htrace]
  decide +kernel

end Search

end Refutation
