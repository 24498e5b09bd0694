/-
Reading comes to an end, after few calls.

Reading calls itself on the body of a quantified text and on the disjunction that stands for an implication. `step` is what
one call does before the next one: it gives a result or says which text is read next, and why. A `Run` is a sequence of
calls down to a result, so there is one only if reading ends.

The text that is read next can be longer than the text at hand, so its length does not show that reading ends. But the body
of a quantified text has lost a `∀` (`count_body_lt`), and the disjunction that stands for an implication starts with a `¬`
and has no arrow, so it is read without another call (`step_built`). Hence a run drops some quantifiers, each of them a `∀`
of the text, and then meets an implication at most once (`Run.causes_eq`).
-/
import Refutation.Proofs.Shapes

namespace Refutation.Formula

open Text

/-- why reading calls itself -/
inductive Cause where
  | quantifier
  | implication
deriving DecidableEq, Repr

/-- what one call of the reader comes to: a result, or a call on another text -/
inductive Step where
  | done (result : Except FormulaError Clause)
  | call (cause : Cause) (text : List Char)
deriving DecidableEq

/-- one call of the reader, as far as the call that it makes itself -/
def step (cs : List Char) : Step :=
  if trim cs = [] then .done (.error .empty)
  else
    match shape (trim cs) with
    | .error e => .done (.error e)
    | .ok (.quantified body) => .call .quantifier body
    | .ok (.implication left right) => .call .implication (implicationText left right)
    | .ok (.disjunction parts) => .done ((readLiterals parts).map Clause.mk)
    | .ok (.literal text) => .done ((readLiterals [text]).map Clause.mk)

/-- the result that is had in the end, by reading on where there is a call -/
def Step.result : Step → Except FormulaError Clause
  | .done result => result
  | .call _ text => readClause text

/-- the calls that reading a text makes, each inside the one before, and the result that it has in the end -/
inductive Run : List Char → List Cause → Except FormulaError Clause → Prop where
  | done {cs : List Char} {result : Except FormulaError Clause} (h : step cs = .done result) : Run cs [] result
  | call {cs next : List Char} {cause : Cause} {causes : List Cause} {result : Except FormulaError Clause}
    (h : step cs = .call cause next) (rest : Run next causes result) : Run cs (cause :: causes) result

variable {cs next body built left right : List Char} {causes causes' : List Cause}
  {result result' : Except FormulaError Clause}

/-! ## One call -/

theorem shape_of_step_quantifier (h : step cs = .call .quantifier body) : shape (trim cs) = .ok (.quantified body) := by
  unfold step at h
  split_ifs at h
  split at h
  all_goals cases h
  assumption

theorem shape_of_step_implication (h : step cs = .call .implication built) :
    ∃ left right, shape (trim cs) = .ok (.implication left right) ∧ built = implicationText left right := by
  unfold step at h
  split_ifs at h
  split at h
  all_goals cases h
  exact ⟨_, _, by assumption, rfl⟩

/-- the body of a quantified text has lost the `∀` in front -/
theorem count_body_lt (h : step cs = .call .quantifier body) : body.count '∀' < cs.count '∀' := by
  obtain ⟨rest, hrest, hsub⟩ := shape_quantified (shape_of_step_quantifier h)
  calc body.count '∀' ≤ rest.count '∀' := hsub.count_le _
    _ < ('∀' :: rest).count '∀' := by rw [List.count_cons_self]; exact Nat.lt_succ_self _
    _ = (trim cs).count '∀' := by rw [hrest]
    _ ≤ cs.count '∀' := (trim_sublist cs).count_le _

/-- the sides of an implication are trimmed, and the one arrow is in neither -/
theorem sides_of_shape (h : shape cs = .ok (.implication left right)) :
    (trim left = left ∧ '→' ∉ left) ∧ trim right = right ∧ '→' ∉ right := by
  obtain ⟨hone, rfl, rfl⟩ := shape_implication h
  have hcs := eq_append_of_count_eq_one hone
  rw [hcs, List.count_append, List.count_cons_self] at hone
  have hbefore : '→' ∉ cs.takeWhile (· != '→') := List.count_eq_zero.1 (by omega)
  have hafter : '→' ∉ (cs.dropWhile (· != '→')).tail := List.count_eq_zero.1 (by omega)
  exact ⟨⟨trim_trim _, fun hm => hbefore ((trim_sublist _).subset hm)⟩, trim_trim _,
    fun hm => hafter ((trim_sublist _).subset hm)⟩

/-- the disjunction that stands for an implication is taken apart at `∨` only -/
theorem plain_of_implication (h : shape cs = .ok (.implication left right)) : Plain (trim (implicationText left right)) := by
  obtain ⟨⟨hleft, hl⟩, hright, hr⟩ := sides_of_shape h
  have hplain := plain_implicationText hl hr
  rwa [hleft, hright] at hplain

theorem Plain.not_quantified (h : Plain cs) (body : List Char) : Formula.shape cs ≠ .ok (.quantified body) := by
  rw [h.shape]
  exact splitDisjunction_ne_quantified

theorem Plain.not_implication (h : Plain cs) (left right : List Char) : Formula.shape cs ≠ .ok (.implication left right) := by
  rw [h.shape]
  exact splitDisjunction_ne_implication

/-- a plain text is read without another call -/
theorem Plain.step (h : Plain (trim cs)) : ∃ result, step cs = .done result := by
  cases hstep : Formula.step cs with
  | done result => exact ⟨result, rfl⟩
  | call cause next =>
    cases cause with
    | quantifier => exact absurd (shape_of_step_quantifier hstep) (h.not_quantified next)
    | implication =>
      obtain ⟨left, right, hshape, -⟩ := shape_of_step_implication hstep
      exact absurd hshape (h.not_implication left right)

theorem step_built (h : step cs = .call .implication built) : ∃ result, step built = .done result := by
  obtain ⟨left, right, hshape, rfl⟩ := shape_of_step_implication h
  exact (plain_of_implication hshape).step

/-- reading is a call after a call until there is a result -/
theorem readClause_step (cs : List Char) : readClause cs = (step cs).result := by
  unfold step
  rw [readClause_eq]
  split_ifs with hblank
  · rfl
  · split
    all_goals
      rename_i hshape
      rw [hshape]
      rfl

/-! ## Whole runs -/

theorem Run.unique (h : Run cs causes result) (h' : Run cs causes' result') : causes' = causes ∧ result' = result := by
  induction h generalizing causes' with
  | done hdone =>
    cases h' with
    | done hdone' =>
      rw [hdone] at hdone'
      cases hdone'
      exact ⟨rfl, rfl⟩
    | call hcall' _ =>
      rw [hdone] at hcall'
      cases hcall'
  | call hcall _ ih =>
    cases h' with
    | done hdone' =>
      rw [hcall] at hdone'
      cases hdone'
    | call hcall' rest' =>
      rw [hcall] at hcall'
      cases hcall'
      obtain ⟨rfl, rfl⟩ := ih rest'
      exact ⟨rfl, rfl⟩

/-- **Reading ends**, with the result that the reader gives: `∀`s get fewer, and an implication is the last call. -/
theorem exists_run (cs : List Char) : ∃ causes, Run cs causes (readClause cs) := by
  induction hcount : cs.count '∀' using Nat.strong_induction_on generalizing cs with
  | _ n ih =>
    rw [readClause_step]
    cases hstep : step cs with
    | done result => exact ⟨[], .done hstep⟩
    | call cause next =>
      cases cause with
      | quantifier =>
        obtain ⟨causes, hrun⟩ := ih _ (hcount ▸ count_body_lt hstep) next rfl
        exact ⟨_, .call hstep hrun⟩
      | implication =>
        obtain ⟨result, hlast⟩ := step_built hstep
        rw [Step.result, readClause_step, hlast]
        exact ⟨_, .call hstep (.done hlast)⟩

/-- **The calls of a run**: quantifiers, no more than the text has `∀`s, then an implication or none. -/
theorem Run.causes_eq (h : Run cs causes result) :
    ∃ k ≤ cs.count '∀', ∃ last : List Cause, (last = [] ∨ last = [.implication]) ∧
      causes = List.replicate k .quantifier ++ last := by
  induction h with
  | done _ => exact ⟨0, Nat.zero_le _, [], Or.inl rfl, rfl⟩
  | @call cs next cause causes result hstep rest ih =>
    cases cause with
    | quantifier =>
      obtain ⟨k, hk, last, hlast, rfl⟩ := ih
      exact ⟨k + 1, hk.trans_lt (count_body_lt hstep), last, hlast, rfl⟩
    | implication =>
      obtain ⟨result', hdone⟩ := step_built hstep
      obtain ⟨rfl, -⟩ := (Run.done hdone).unique rest
      exact ⟨0, Nat.zero_le _, [.implication], Or.inr rfl, rfl⟩

/-- **Reading makes few calls.** Reading a text has one run, which makes at most one call for an implication and at most one
call more than the text has `∀`s. A call for a quantifier is on a body with fewer `∀`s. A call for an implication is on a text
that is longer than the two sides with their arrow, starts with `¬`, and has a `∨` and no arrow, so that its shape is
neither quantified nor an implication. -/
theorem reading_calls_bounded (formula : String) :
    (∃ causes, (∀ causes' result, Run formula.toList causes' result ↔ causes' = causes ∧ result = read formula) ∧
        causes.count .implication ≤ 1 ∧ causes.length ≤ formula.toList.count '∀' + 1) ∧
      (∀ cs body, step cs = .call .quantifier body → body.count '∀' < cs.count '∀') ∧
      ∀ cs built, step cs = .call .implication built →
        (∃ left right, shape (trim cs) = .ok (.implication left right) ∧
            (left ++ '→' :: right).length < built.length) ∧
          built.head? = some '¬' ∧ '∨' ∈ built ∧ '→' ∉ built ∧
          (∀ body, shape (trim built) ≠ .ok (.quantified body)) ∧
          ∀ left right, shape (trim built) ≠ .ok (.implication left right) := by
  refine ⟨?_, fun cs body => count_body_lt, ?_⟩
  · obtain ⟨causes, hrun⟩ := exists_run formula.toList
    obtain ⟨k, hk, last, hlast, hcauses⟩ := hrun.causes_eq
    refine ⟨causes, fun causes' result => ⟨fun h => hrun.unique h, ?_⟩, ?_, ?_⟩
    · rintro ⟨rfl, rfl⟩
      exact hrun
    · rcases hlast with rfl | rfl <;> simp [hcauses, List.count_replicate]
    · rcases hlast with rfl | rfl <;> simp [hcauses] <;> omega
  · intro cs built hstep
    obtain ⟨left, right, hshape, rfl⟩ := shape_of_step_implication hstep
    obtain ⟨⟨-, hl⟩, -, hr⟩ := sides_of_shape hshape
    have hplain := plain_of_implication hshape
    refine ⟨⟨left, right, hshape, by simp [implicationText]⟩, rfl, by simp [implicationText], ?_,
      hplain.not_quantified, hplain.not_implication⟩
    simp [implicationText, hl, hr]

/-- Both quantifiers of a text are dropped, then its arrow is rewritten: the bound is reached. -/
theorem reading_calls_bounded_nested :
    Run "∀x (∀y (P(x)→Q(y)))".toList [.quantifier, .quantifier, .implication] (read "∀x (∀y (P(x)→Q(y)))") ∧
      "∀x (∀y (P(x)→Q(y)))".toList.count '∀' = 2 ∧
      step "P(x)→Q(y)".toList = .call .implication "¬P(x) ∨ Q(y)".toList ∧
      "P(x)→Q(y)".toList.length < "¬P(x) ∨ Q(y)".toList.length ∧ '→' ∉ "¬P(x) ∨ Q(y)".toList := by
  have houter : step "∀x (∀y (P(x)→Q(y)))".toList = .call .quantifier "∀y (P(x)→Q(y))".toList := by decide +kernel
  have hinner : step "∀y (P(x)→Q(y))".toList = .call .quantifier "P(x)→Q(y)".toList := by decide +kernel
  have harrow : step "P(x)→Q(y)".toList = .call .implication "¬P(x) ∨ Q(y)".toList := by decide +kernel
  obtain ⟨result, hlast⟩ := step_built harrow
  have hrun : Run "∀x (∀y (P(x)→Q(y)))".toList [.quantifier, .quantifier, .implication] result :=
    .call houter (.call hinner (.call harrow (.done hlast)))
  obtain ⟨⟨causes, hcauses, -⟩, -, hbuilt⟩ := reading_calls_bounded "∀x (∀y (P(x)→Q(y)))"
  obtain ⟨-, rfl⟩ := (hcauses _ _).1 hrun
  exact ⟨hrun, by decide +kernel, harrow, by decide +kernel, (hbuilt _ _ harrow).2.2.2.1⟩

end Refutation.Formula
