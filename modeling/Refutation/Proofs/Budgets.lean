/-
Larger budgets.

A turn does not look at the budget, so a search with a larger budget makes the turns of the search with the smaller one,
and goes on where that was stopped (`saturate_add`). A search that ends for another reason is not changed by a larger
budget, also when its last turn was the last that the budget allowed: then no clause waits, and none will. For outcomes this
is `Outcome.Continued`, which `larger_budget_continues` says of any two budgets.
-/
import Refutation.Proofs.Traces

namespace Refutation

/-- `o'` is `o`, or what comes of `o` when an attempt that was stopped at the step limit goes on -/
structure Outcome.Continued (o o' : Outcome) : Prop where
  settled : o.termination ≠ .stepLimit → o' = o
  trace : o.termination = .stepLimit → o.trace.steps.dropLast <+: o'.trace.steps
  steps : o.tally.steps ≤ o'.tally.steps
  clausesKept : o.tally.clausesKept ≤ o'.tally.clausesKept
  resolventsGenerated : o.tally.resolventsGenerated ≤ o'.tally.resolventsGenerated
  proved : o.proved = true → o'.proved = true

namespace Search

namespace State

/-- a turn does not look at the budget -/
theorem turn_maxSteps (settings : Settings) (m : Nat) (s : State) (i : Nat) (w : WorkingSet) :
    turn { settings with maxSteps := m } s i w = turn settings s i w := by
  cases hi : w.get? i with
  | none => simp only [turn, hi]
  | some pivot =>
    rw [turn_of_get? hi, turn_of_get? hi]
    rfl

theorem saturate_maxSteps (settings : Settings) (m budget : Nat) (s : State) :
    saturate { settings with maxSteps := m } budget s = saturate settings budget s := by
  induction budget generalizing s with
  | zero => rfl
  | succ budget ih => simp only [saturate, turn_maxSteps, ih]

/-- goes on with turns after a run of turns that was stopped by the budget -/
def resume (settings : Settings) (budget : Nat) : State × Termination → State × Termination
  | (s, .stepLimit) => saturate settings budget s
  | result => result

theorem resume_of_ne {settings : Settings} {budget : Nat} {s : State} {τ : Termination} (h : τ ≠ .stepLimit) :
    resume settings budget (s, τ) = (s, τ) := by
  cases τ with
  | stepLimit => exact absurd rfl h
  | _ => rfl

/-- without a waiting clause no turn is made, whatever the budget -/
theorem saturate_of_waiting (settings : Settings) (budget : Nat) {s : State} (h : s.working.waiting = []) :
    saturate settings budget s = (s, .supplyExhausted) := by
  cases budget with
  | zero =>
    rcases saturate_zero_cases settings s with ⟨hwaiting, -⟩ | ⟨-, e⟩
    · exact absurd h hwaiting
    · exact e
  | succ budget =>
    rcases saturate_succ_cases settings budget s with ⟨-, e⟩ | ⟨i, w, t, hpivot, -⟩
    · exact e
    · have hperm := (WorkingSet.nextPivot_some hpivot).waiting
      rw [h] at hperm
      cases hperm.nil_eq

/-- **Budgets add up.** A larger budget makes the turns of the smaller one, and then the extra turns if the smaller one has
stopped the search. -/
theorem saturate_add (settings : Settings) (m extra : Nat) (s : State) :
    saturate settings (m + extra) s = resume settings extra (saturate settings m s) := by
  induction m generalizing s with
  | zero =>
    rw [Nat.zero_add]
    rcases saturate_zero_cases settings s with ⟨-, e⟩ | ⟨hwaiting, e⟩
    · rw [e, resume]
    · rw [e, saturate_of_waiting settings extra hwaiting, resume_of_ne (by decide)]
  | succ m ih =>
    rw [Nat.succ_add]
    rcases saturate_succ_cases settings m s with ⟨hwaiting, e⟩ | ⟨i, w, t, hpivot, ⟨hresult, e⟩ | ⟨hresult, e⟩⟩
    · rw [e, saturate_of_waiting settings _ hwaiting, resume_of_ne (by decide)]
    · rw [e, resume_of_ne (by decide)]
      simp only [saturate, hpivot, hresult]
    · rw [e, ← ih]
      simp only [saturate, hpivot, hresult]

theorem search_add (settings : Settings) (m extra : Nat) (s : State) :
    s.search { settings with maxSteps := m + extra } =
      resume settings extra (s.search { settings with maxSteps := m }) := by
  simp only [search]
  split_ifs
  · rfl
  · rfl
  · rw [saturate_maxSteps settings (m + extra), saturate_maxSteps settings m, saturate_add]

/-- only a search that stops at the step limit shows its budget -/
theorem conclude_maxSteps {τ : Termination} (settings : Settings) (m m' : Nat) (s : State) (h : τ ≠ .stepLimit) :
    s.conclude { settings with maxSteps := m } τ = s.conclude { settings with maxSteps := m' } τ := by
  cases τ with
  | stepLimit => exact absurd rfl h
  | _ => rfl

/-- an attempt with a larger budget continues the attempt with the smaller one -/
theorem run_continued (settings : Settings) (s : State) {m n : Nat} (h : m ≤ n) :
    (s.run { settings with maxSteps := m }).outcome.Continued (s.run { settings with maxSteps := n }).outcome := by
  obtain ⟨extra, rfl⟩ := Nat.exists_eq_add_of_le h
  have hadd := search_add settings m extra s
  rcases hfirst : s.search { settings with maxSteps := m } with ⟨t, τ⟩
  rw [hfirst] at hadd
  by_cases hτ : τ = .stepLimit
  · subst hτ
    -- the longer attempt makes the turns of the rest of its budget from the state in which the shorter one stops
    have hlater : s.search { settings with maxSteps := m + extra } = saturate settings extra t := hadd
    have hgrows := saturate_grows settings extra t
    have hstopped : (s.run { settings with maxSteps := m }).outcome.termination = .stepLimit := congrArg Prod.snd hfirst
    have hshown : t.events <+: (s.search { settings with maxSteps := m + extra }).1.events := by
      rw [hlater]
      exact hgrows.events
    refine ⟨fun hne => absurd hstopped hne, fun _ => ?_, ?_, ?_, ?_, fun hproved => ?_⟩
    · rw [run_trace, run_trace, hfirst, Trace.dropLast_ofEvents]
      exact Trace.ofEvents_prefix (hshown.trans (List.prefix_append _ _))
    · simpa only [run_tally, hfirst, hlater] using hgrows.steps
    · simpa only [run_tally, hfirst, hlater] using hgrows.size
    · simpa only [run_tally, hfirst, hlater] using hgrows.generated
    · simp only [Attempt.outcome, run_termination, hfirst] at hproved
      cases hproved
  · rw [resume_of_ne hτ] at hadd
    have hsame : s.run { settings with maxSteps := m + extra } = s.run { settings with maxSteps := m } := by
      simp only [run, hadd, hfirst]
      exact conclude_maxSteps settings _ _ t hτ
    rw [hsame]
    refine ⟨fun _ => rfl, fun hstopped => ?_, le_rfl, le_rfl, le_rfl, id⟩
    exact absurd (hstopped.symm.trans (congrArg Prod.snd hfirst)).symm hτ

end State

/-- **A larger budget only continues.** Take two attempts on the same formulas, or on the same clauses, whose settings
differ in the budget. If the one with the smaller budget does not stop at the step limit, both have the same outcome. If it
does, its trace without the last step begins the other trace, and no counter of the other attempt is smaller. So a larger
budget loses no proof. -/
theorem larger_budget_continues (settings : Settings) {m n : Nat} (h : m < n) :
    (∀ formulas, (prove { settings with maxSteps := m } formulas).outcome.Continued
      (prove { settings with maxSteps := n } formulas).outcome) ∧
    ∀ clauses, (proveClauses { settings with maxSteps := m } clauses).outcome.Continued
      (proveClauses { settings with maxSteps := n } clauses).outcome :=
  ⟨fun formulas => State.run_continued settings (ofFormulas settings formulas) h.le,
    fun clauses => State.run_continued settings (ofClauses settings clauses) h.le⟩

/-- a fact, a rule and a denial of what the rule gives for the fact -/
def deniedChain : List String := ["P(A)", "¬P(x) ∨ Q(x)", "¬Q(A)"]

/-- one turn derives `Q(A)` and stops at the limit; with a second turn the trace goes on to a contradiction -/
theorem larger_budget_deniedChain :
    (prove { maxSteps := 1 } deniedChain).outcome.termination = .stepLimit ∧
      (prove { maxSteps := 2 } deniedChain).outcome.proved = true ∧
      (prove { maxSteps := 1 } deniedChain).outcome.trace.steps.dropLast <+:
        (prove { maxSteps := 2 } deniedChain).outcome.trace.steps := by
  have hstopped : (prove { maxSteps := 1 } deniedChain).outcome.termination = .stepLimit := by decide +kernel
  have hcontinued := (larger_budget_continues {} (m := 1) (n := 2) (by decide)).1 deniedChain
  exact ⟨hstopped, by decide +kernel, hcontinued.trace hstopped⟩

end Search

end Refutation
