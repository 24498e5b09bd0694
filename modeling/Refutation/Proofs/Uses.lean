/-
What a search does with its working set, use by use.

A search offers clauses to its working set, which gives each an index or refuses it, and looks up clauses by their indices.
`State.uses` lists these uses in their order: each function of the search has a list beside it, made on the states that the
function goes through. `uses_along` says that every use listed is made at a point of the course of the search. The lists
leave no offer out: the input offers each clause that is read (`offers_inputUses`), and the search each resolvent that it
generates, but for the empty clause that ends it (`search_generated`).
-/
import Refutation.Proofs.Courses

namespace Refutation.Search

/-- a use of a working set: a clause is offered, and gets an index or none; or an index is looked up -/
inductive Use where
  | offer (w : WorkingSet) (c : Clause) (index : Option Nat)
  | lookUp (w : WorkingSet) (i : Nat)

def Use.isOffer : Use → Bool
  | .offer _ _ _ => true
  | .lookUp _ _ => false

/-- the number of offers among the uses -/
def offers (us : List Use) : Nat := us.countP Use.isOffer

@[simp] theorem offers_nil : offers [] = 0 := rfl

@[simp] theorem offers_append (us vs : List Use) : offers (us ++ vs) = offers us + offers vs := List.countP_append

@[simp] theorem offers_offer (w : WorkingSet) (c : Clause) (index : Option Nat) (us : List Use) :
    offers (.offer w c index :: us) = offers us + 1 := List.countP_cons_of_pos rfl

@[simp] theorem offers_lookUp (w : WorkingSet) (i : Nat) (us : List Use) : offers (.lookUp w i :: us) = offers us :=
  List.countP_cons_of_neg (by simp [Use.isOffer])

namespace State

/-- the uses while formulas are added -/
def inputUses : List String → State → List Use
  | [], _ => []
  | formula :: rest, s =>
    match Formula.read formula with
    | .ok c => .offer s.working c (s.working.insertInitial c).1 :: inputUses rest (s.addFormula formula)
    | .error _ => inputUses rest (s.addFormula formula)

/-- the uses while inferences are taken in -/
def absorbUses : List Inference → State → List Use
  | [], _ => []
  | x :: rest, s =>
    if x.resolvent.isEmpty then []
    else .offer s.working x.resolvent (s.working.insertDerived x.resolvent).1 :: absorbUses rest (absorb [x] s).1

/-- the uses while the inferences with one partner after the other are taken in -/
def partnersUses (settings : Settings) (w : WorkingSet) (pivot : Clause) : List Nat → State → List Use
  | [], _ => []
  | j :: rest, s =>
    .lookUp w j :: absorbUses (inferencesWith settings w pivot j) s ++
      match absorb (inferencesWith settings w pivot j) s with
      | (_, true) => []
      | (s, false) => partnersUses settings w pivot rest s

/-- the uses of a turn -/
def turnUses (settings : Settings) (s : State) (i : Nat) (w : WorkingSet) : List Use :=
  .lookUp w i ::
    match w.get? i with
    | none => []
    | some pivot => partnersUses settings w pivot (otherPartners w i pivot) (s.opened w pivot)

/-- the uses of at most `budget` turns -/
def saturateUses (settings : Settings) : Nat → State → List Use
  | 0, _ => []
  | budget + 1, s =>
    match s.working.nextPivot with
    | (none, _) => []
    | (some i, w) =>
      turnUses settings s i w ++
        match turn settings s i w with
        | (_, true) => []
        | (s, false) => saturateUses settings budget s

/-- the uses of a search from the input clauses -/
def uses (s : State) (settings : Settings) : List Use :=
  if s.working.isEmpty then []
  else if s.working.clauses.any Clause.isEmpty then []
  else saturateUses settings settings.maxSteps s.noteConflicts

end State

/-- the uses of an attempt on the formulas -/
def proveUses (settings : Settings) (formulas : List String) : List Use :=
  State.inputUses formulas (.start settings) ++ (ofFormulas settings formulas).uses settings

/-- the use is made in the course of the search from `input` -/
inductive Use.Along (settings : Settings) (input : State) : Use → Prop where
  | offer {s : State} {x : Inference} {rest : List Inference} (h : Course settings input s (x :: rest))
      (hne : x.resolvent.isEmpty = false) :
      Along settings input (.offer s.working x.resolvent (s.working.insertDerived x.resolvent).1)
  | pivot {s : State} {i : Nat} {w : WorkingSet} (h : Course settings input s [])
      (hpivot : s.working.nextPivot = (some i, w)) : Along settings input (.lookUp w i)
  | partner {s : State} {i j : Nat} {w : WorkingSet} {pivot : Clause} (h : Course settings input s [])
      (hpivot : s.working.nextPivot = (some i, w)) (hi : w.get? i = some pivot)
      (hj : j ∈ State.otherPartners w i pivot) : Along settings input (.lookUp w j)

variable {settings : Settings} {input s t : State} {u : Use}

/-- an inference of a clause with literals is taken in and counted, and the next one follows -/
theorem State.absorb_of_nonempty {x : Inference} (hne : x.resolvent.isEmpty = false) (s : State) :
    ∃ t, absorb [x] s = (t, false) ∧ t.generated = s.generated + 1 := by
  rcases absorb_cases x [] s with ⟨hempty, -⟩ | ⟨-, ⟨-, e⟩ | ⟨w, -, e⟩⟩
  · rw [hne] at hempty
    cases hempty
  · exact ⟨_, e, rfl⟩
  · exact ⟨_, e, rfl⟩

/-! ## Uses and the course of a search -/

namespace State

theorem absorbUses_along {xs more : List Inference} (h : Course settings input s (xs ++ more))
    (hu : u ∈ absorbUses xs s) : u.Along settings input := by
  induction xs generalizing s with
  | nil => cases hu
  | cons x xs ih =>
    rw [absorbUses] at hu
    split_ifs at hu with hempty
    · cases hu
    · have hne : x.resolvent.isEmpty = false := by simpa using hempty
      obtain ⟨s1, hx, -⟩ := absorb_of_nonempty hne s
      rcases List.mem_cons.1 hu with rfl | hu
      · exact .offer h hne
      · rw [hx] at hu
        exact ih (h.infer hx) hu

/-- one step for each partner; the inferences with the partners to come are still to be taken in -/
theorem partnersUses_along {s0 : State} {i : Nat} {w : WorkingSet} {pivot : Clause} (h : Course settings input s0 [])
    (hpivot : s0.working.nextPivot = (some i, w)) (hi : w.get? i = some pivot) {js : List Nat}
    (hjs : js ⊆ otherPartners w i pivot)
    (hs : Course settings input s (js.flatMap (inferencesWith settings w pivot)))
    (hu : u ∈ partnersUses settings w pivot js s) : u.Along settings input := by
  induction js generalizing s with
  | nil => cases hu
  | cons j js ih =>
    rw [List.flatMap_cons] at hs
    rw [partnersUses, List.cons_append, List.mem_cons, List.mem_append] at hu
    rcases hu with rfl | hu | hu
    · exact .partner h hpivot hi (hjs List.mem_cons_self)
    · exact absorbUses_along hs hu
    · rcases hresult : absorb (inferencesWith settings w pivot j) s with ⟨t, _ | _⟩
      · rw [hresult] at hu
        rcases hs.absorb hresult with ⟨-, ht⟩ | ⟨hfound, -⟩
        · exact ih (fun k hk => hjs (List.mem_cons_of_mem j hk)) ht hu
        · cases hfound
      · rw [hresult] at hu
        cases hu

theorem turnUses_along {i : Nat} {w : WorkingSet} (h : Course settings input s []) (hbudget : s.steps < settings.maxSteps)
    (hpivot : s.working.nextPivot = (some i, w)) (hu : u ∈ turnUses settings s i w) : u.Along settings input := by
  rcases List.mem_cons.1 hu with rfl | hu
  · exact .pivot h hpivot
  · cases hi : w.get? i with
    | none =>
      rw [hi] at hu
      cases hu
    | some pivot =>
      rw [hi] at hu
      exact partnersUses_along h hpivot hi (List.Subset.refl _) (h.turn hbudget hpivot hi) hu

theorem saturateUses_along {budget : Nat} (h : Course settings input s []) (hacc : s.Accounted)
    (hbudget : s.steps + budget = settings.maxSteps) (hu : u ∈ saturateUses settings budget s) :
    u.Along settings input := by
  induction budget generalizing s with
  | zero => cases hu
  | succ budget ih =>
    rw [saturateUses] at hu
    rcases hpivot : s.working.nextPivot with ⟨_ | i, w⟩
    · rw [hpivot] at hu
      cases hu
    · rw [hpivot] at hu
      rcases List.mem_append.1 hu with hu | hu
      · exact turnUses_along h (by omega) hpivot hu
      · rcases hresult : turn settings s i w with ⟨t, _ | _⟩
        · rw [hresult] at hu
          have hsteps := turn_steps hresult
          rcases h.turned hacc (by omega) hpivot hresult with ⟨-, ht⟩ | ⟨hfound, -⟩
          · exact ih ht (turn_accounted hacc hpivot hresult) (by omega) hu
          · cases hfound
        · rw [hresult] at hu
          cases hu

/-- **Every use of the working set is made in the course of the search.** -/
theorem uses_along (hsteps : input.steps = 0) (hacc : input.Accounted) (hu : u ∈ input.uses settings) :
    u.Along settings input := by
  rw [uses] at hu
  split_ifs at hu
  · cases hu
  · cases hu
  · refine saturateUses_along .start (noteConflicts_accounted hacc) ?_ hu
    rw [noteConflicts_steps, hsteps, Nat.zero_add]

/-- the clause of a formula is offered when the formulas before it have been added -/
theorem exists_of_mem_inputUses {formulas : List String} (hu : u ∈ inputUses formulas s) :
    ∃ before formula after c, formulas = before ++ formula :: after ∧ Formula.read formula = .ok c ∧
      u = .offer (before.foldl addFormula s).working c ((before.foldl addFormula s).working.insertInitial c).1 := by
  induction formulas generalizing s with
  | nil => cases hu
  | cons formula formulas ih =>
    have hlater (hu : u ∈ inputUses formulas (s.addFormula formula)) :
        ∃ before next after c, formula :: formulas = before ++ next :: after ∧ Formula.read next = .ok c ∧
          u = .offer (before.foldl addFormula s).working c
            ((before.foldl addFormula s).working.insertInitial c).1 := by
      obtain ⟨before, next, after, c, rfl, hread, rfl⟩ := ih hu
      exact ⟨formula :: before, next, after, c, rfl, hread, rfl⟩
    rw [inputUses] at hu
    cases hread : Formula.read formula with
    | error e =>
      rw [hread] at hu
      exact hlater hu
    | ok c =>
      rw [hread] at hu
      rcases List.mem_cons.1 hu with rfl | hu
      · exact ⟨[], formula, formulas, c, rfl, hread, rfl⟩
      · exact hlater hu

/-! ## No offer is left out -/

theorem absorb_generated (xs : List Inference) (s : State) :
    (absorb xs s).1.generated = s.generated + offers (absorbUses xs s) + (absorb xs s).2.toNat := by
  induction xs generalizing s with
  | nil => rfl
  | cons x xs ih =>
    cases hempty : x.resolvent.isEmpty with
    | true => simp [absorb, absorbUses, hempty, note]
    | false =>
      obtain ⟨t, hx, ht⟩ := absorb_of_nonempty hempty s
      have hcons : absorb (x :: xs) s = absorb xs t := by
        rw [← List.singleton_append, absorb_append, hx]
        rfl
      have huses : offers (absorbUses (x :: xs) s) = offers (absorbUses xs t) + 1 := by
        rw [absorbUses, if_neg (by simp [hempty]), hx, offers_offer]
      rw [hcons, huses, ih t, ht]
      omega

theorem absorbPartners_generated (w : WorkingSet) (pivot : Clause) (js : List Nat) (s : State) :
    (absorbPartners settings w pivot js s).1.generated =
      s.generated + offers (partnersUses settings w pivot js s) + (absorbPartners settings w pivot js s).2.toNat := by
  induction js generalizing s with
  | nil => rfl
  | cons j js ih =>
    have hfirst := absorb_generated (inferencesWith settings w pivot j) s
    rw [absorbPartners, partnersUses, List.cons_append, offers_lookUp, offers_append]
    rcases hresult : absorb (inferencesWith settings w pivot j) s with ⟨t, _ | _⟩
    · rw [hresult] at hfirst
      have hrest := ih t
      simp only [Bool.toNat_false] at hfirst
      simp only
      omega
    · rw [hresult] at hfirst
      simpa using hfirst

theorem turn_generated (settings : Settings) (s : State) (i : Nat) (w : WorkingSet) :
    (turn settings s i w).1.generated =
      s.generated + offers (turnUses settings s i w) + (turn settings s i w).2.toNat := by
  rw [turn, turnUses, offers_lookUp]
  cases w.get? i with
  | none => rfl
  | some pivot => exact absorbPartners_generated w pivot _ (s.opened w pivot)

/-- the empty clause, which ends the turns, is counted and not offered -/
theorem saturate_generated (budget : Nat) (s : State) :
    (saturate settings budget s).1.generated = s.generated + offers (saturateUses settings budget s) +
      if (saturate settings budget s).2 = .contradiction then 1 else 0 := by
  induction budget generalizing s with
  | zero =>
    rcases saturate_zero_cases settings s with ⟨-, e⟩ | ⟨-, e⟩
    · rw [e]
      rfl
    · rw [e]
      rfl
  | succ budget ih =>
    rw [saturate, saturateUses]
    rcases s.working.nextPivot with ⟨_ | i, w⟩
    · rfl
    · have hturn := turn_generated settings s i w
      rcases hresult : turn settings s i w with ⟨t, _ | _⟩
      · rw [hresult] at hturn
        have hrest := ih t
        simp only [Bool.toNat_false] at hturn
        simp only [hresult, offers_append]
        omega
      · rw [hresult] at hturn
        simpa [hresult] using hturn

theorem noteConflicts_generated (s : State) : s.noteConflicts.generated = s.generated := by
  rw [noteConflicts_eq]

theorem search_generated (settings : Settings) (hne : Clause.empty ∉ s.working.clauses) :
    (s.search settings).1.generated = s.generated + offers (s.uses settings) +
      if (s.search settings).2 = .contradiction then 1 else 0 := by
  have hany : ¬ s.working.clauses.any Clause.isEmpty = true := by
    intro hany
    obtain ⟨c, hc, hempty⟩ := Array.any_eq_true'.1 hany
    rw [Clause.isEmpty_iff.1 hempty] at hc
    exact hne hc
  rw [search, uses]
  by_cases hnone : s.working.isEmpty = true
  · rw [if_pos hnone, if_pos hnone]
    rfl
  · rw [if_neg hnone, if_neg hnone, if_neg hany, if_neg hany, saturate_generated, noteConflicts_generated]

theorem offers_inputUses (formulas : List String) (s : State) :
    offers (inputUses formulas s) = (Formula.readAll formulas).length := by
  induction formulas generalizing s with
  | nil => rfl
  | cons formula formulas ih =>
    rw [inputUses, Formula.readAll, List.filterMap_cons]
    cases Formula.read formula with
    | error e => exact ih _
    | ok c =>
      simp only [Except.toOption, offers_offer, List.length_cons]
      exact congrArg (· + 1) (ih _)

theorem addClause_generated (s : State) (c : Clause) : (s.addClause c).generated = s.generated := by
  rcases addClause_cases s c with ⟨-, e⟩ | ⟨w, -, e⟩
  · rw [e]
    rfl
  · rw [e]
    rfl

theorem addFormula_generated (s : State) (formula : String) : (s.addFormula formula).generated = s.generated := by
  simp only [addFormula]
  cases Formula.read formula with
  | error e => rfl
  | ok c => exact addClause_generated s c

end State

theorem ofFormulas_generated (settings : Settings) (formulas : List String) :
    (ofFormulas settings formulas).generated = 0 := by
  refine List.foldlRecOn (motive := fun s : State => s.generated = 0) formulas _ rfl fun s hs formula _ => ?_
  rw [State.addFormula_generated, hs]

end Refutation.Search
