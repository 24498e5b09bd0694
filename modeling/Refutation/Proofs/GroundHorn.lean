/-
Searches decide ground Horn clauses.

Without variables the two unifiers agree: two argument lists unify when they are equal, and nothing is bound. Resolution
then cancels a literal against its complement, so a resolvent is true wherever its parents are, and stays ground and Horn.
That gives one half: after a contradiction no valuation makes the input true.

For the other half take the atoms that are stored as positive unit clauses for true. When no clause waits and no empty
clause was found, every stored clause is true in that valuation (`trueIn_unitAtoms`), by induction on its size. A false
clause with a negative literal can be resolved with a stored unit; the resolvent is smaller, stored and still false. A
clause without negative literals is itself a positive unit. It does not matter which resolvent of the two clauses was
taken: each one leaves literals of the false clause only.
-/
import Refutation.Proofs.Derivations
import Refutation.Proofs.Saturation
import Refutation.Proofs.Truth
import Refutation.Proofs.UniqueText

namespace Refutation

/-- no argument is a variable -/
def Clause.IsGround (c : Clause) : Prop := ∀ t ∈ c.terms, t.isVar = false

instance (c : Clause) : Decidable c.IsGround := inferInstanceAs (Decidable (∀ t ∈ c.terms, t.isVar = false))

/-- at most one literal is positive, repetitions counted -/
def Clause.IsHorn (c : Clause) : Prop := c.literals.countP (fun l => l.positive) ≤ 1

instance (c : Clause) : Decidable c.IsHorn := inferInstanceAs (Decidable (c.literals.countP (fun l => l.positive) ≤ 1))

/-! ## Unification without variables -/

namespace Unifier

theorem overPairs_self (step : Substitution → Term → Term → Except UnifyError Substitution)
    (hstep : ∀ s a, step s a a = .ok s) (s : Substitution) (ts : List Term) :
    overPairs step s (ts.zip ts) = .ok s := by
  induction ts with
  | nil => rfl
  | cons t ts ih =>
    rw [List.zip_cons_cons, overPairs, hstep]
    exact ih

/-- a list unifies with itself -/
theorem unify_self (u : Unifier) (ts : List Term) : ∃ s, u.unify ts ts = .ok s := by
  cases u with
  | singlePass =>
    refine ⟨.empty, ?_⟩
    rw [unify, if_neg (by simp)]
    exact overPairs_self singlePassStep (fun s a => by simp [singlePassStep]) _ _
  | complete =>
    refine ⟨Substitution.empty.normalized, ?_⟩
    rw [unify, if_neg (by simp)]
    simp only [overPairs_self completeStep (fun s a => by simp [completeStep]), Except.map]

/-- without variables nothing is bound -/
theorem lookup_of_ground {u : Unifier} {left right : List Term} {s : Substitution} (h : u.unify left right = .ok s)
    (hground : ∀ t ∈ left ++ right, t.isVar = false) (x : String) : s.lookup x = none := by
  cases hx : s.lookup x with
  | none => rfl
  | some t => cases hground _ (mem_of_lookup h hx).1

/-- lists without variables unify only when they are equal -/
theorem eq_of_ground {u : Unifier} {left right : List Term} {s : Substitution} (h : u.unify left right = .ok s)
    (hground : ∀ t ∈ left ++ right, t.isVar = false) : left = right := by
  cases u with
  | singlePass =>
    simp only [unify] at h
    split_ifs at h with hlen
    have hpairs : ∀ p ∈ left.zip right, p.1 = p.2 := by
      refine overPairs_induction (I := fun done _ => ∀ p ∈ done, p.1 = p.2) ?_ (by simp) h
      intro done s s' a b hab hI hs
      rcases singlePassStep_ok hs with ⟨heq, -⟩ | ⟨x, t, -, -, -, hvar⟩
      · intro p hp
        rcases List.mem_append.1 hp with hp | hp
        · exact hI p hp
        · obtain rfl := List.mem_singleton.1 hp
          exact heq
      · obtain ⟨ha, hb⟩ := List.of_mem_zip hab
        rcases hvar with ⟨rfl, -⟩ | ⟨rfl, -⟩
        · cases hground _ (List.mem_append_left _ ha)
        · cases hground _ (List.mem_append_right _ hb)
    simpa using (map_eq_map_iff_zip (f := id) (by simpa using hlen)).2 hpairs
  | complete =>
    have hid : s.apply = id := funext (Substitution.apply_of_lookup (lookup_of_ground h hground))
    have hequal := complete_unifies h
    rw [Substitution.Unifies, hid] at hequal
    simpa using hequal

end Unifier

/-! ## Resolution without variables -/

section Resolution

variable {u : Unifier} {c d : Clause} {r : Resolvent} {V : Valuation}

theorem Clause.IsGround.args {l : Literal} (hc : c.IsGround) (hl : l ∈ c.literals) {t : Term} (ht : t ∈ l.atom.args) :
    t.isVar = false :=
  hc t (Clause.mem_terms.2 ⟨l, hl, ht⟩)

/-- a ground resolvent has the literals of the parents without a complementary pair -/
theorem ground_resolvent (hc : c.IsGround) (hd : d.IsGround) (h : r ∈ resolvents u c d) :
    ∃ i j l m, c.literals[i]? = some l ∧ d.literals[j]? = some m ∧ l.clashes m = true ∧ l.atom = m.atom ∧
      r.clause.literals.Sublist (sideLiterals c i d j) ∧ sideLiterals c i d j ⊆ r.clause.literals := by
  obtain ⟨i, j, l, m, s, hl, hm, hclash, hs, rfl⟩ := mem_resolvents.1 h
  have hground : ∀ t ∈ l.atom.args ++ m.atom.args, t.isVar = false := by
    intro t ht
    rcases List.mem_append.1 ht with ht | ht
    · exact hc.args (List.mem_of_getElem? hl) ht
    · exact hd.args (List.mem_of_getElem? hm) ht
  have hatom : l.atom = m.atom :=
    congrArg₂ Atom.mk (Literal.clashes_iff.1 hclash).2 (Unifier.eq_of_ground hs hground)
  have hid : ∀ k : Literal, k.apply s = k := Literal.apply_of_lookup (Unifier.lookup_of_ground hs hground)
  refine ⟨i, j, l, m, hl, hm, hclash, hatom, ?_, fun k hk => mem_resolventClause.2 ⟨k, hk, hid k⟩⟩
  have hsub := resolventClause_sublist c i d j s
  rwa [show Literal.apply s = id from funext hid, List.map_id] at hsub

theorem Clause.IsGround.resolvent (hc : c.IsGround) (hd : d.IsGround) (h : r ∈ resolvents u c d) :
    r.clause.IsGround := by
  intro t ht
  obtain ⟨k, hk, htk⟩ := Clause.mem_terms.1 ht
  obtain ⟨-, -, -, -, -, hterms⟩ := mem_literals_resolvent h hk
  rcases List.mem_append.1 (hterms t htk) with ht | ht
  · exact hc t ht
  · exact hd t ht

theorem countP_eraseIdx_add {ls : List Literal} {i : Nat} {l : Literal} (h : ls[i]? = some l) :
    (ls.eraseIdx i).countP (fun l => l.positive) + (if l.positive then 1 else 0) = ls.countP fun l => l.positive := by
  obtain ⟨hi, rfl⟩ := List.getElem?_eq_some_iff.1 h
  rw [← (List.getElem_cons_eraseIdx_perm hi).countP_eq, List.countP_cons]

/-- the pair resolved away takes one of at most two positive literals with it -/
theorem Clause.IsHorn.resolvent (hgc : c.IsGround) (hgd : d.IsGround) (hc : c.IsHorn) (hd : d.IsHorn)
    (h : r ∈ resolvents u c d) : r.clause.IsHorn := by
  obtain ⟨i, j, l, m, hl, hm, hclash, -, hsub, -⟩ := ground_resolvent hgc hgd h
  have hle := hsub.countP_le (p := fun l => l.positive)
  rw [sideLiterals, List.countP_append] at hle
  have hci := countP_eraseIdx_add hl
  have hdj := countP_eraseIdx_add hm
  have hone : (if l.positive then 1 else 0) + (if m.positive then 1 else 0) = 1 := by
    have hne := (Literal.clashes_iff.1 hclash).1
    cases hlp : l.positive <;> cases hmp : m.positive <;> simp_all
  simp only [IsHorn] at hc hd ⊢
  omega

/-- ground resolution is sound for valuations -/
theorem Clause.TrueIn.ground_resolvent (hgc : c.IsGround) (hgd : d.IsGround) (hc : c.TrueIn V) (hd : d.TrueIn V)
    (h : r ∈ resolvents u c d) : r.clause.TrueIn V := by
  obtain ⟨i, j, l, m, hl, hm, hclash, hatom, -, hside⟩ := Refutation.ground_resolvent hgc hgd h
  obtain ⟨k, hk, hkt⟩ := exists_side_trueIn hl hm (Literal.not_both_trueIn hclash (by rw [hatom])) hc hd
  exact ⟨k, hside hk, hkt⟩

/-- each of two complementary ground literals can be resolved away -/
theorem exists_resolvent {l m : Literal} (hl : l ∈ c.literals) (hm : m ∈ d.literals) (hsign : l.positive ≠ m.positive)
    (hatom : l.atom = m.atom) (u : Unifier) : ∃ r, r ∈ resolvents u c d := by
  obtain ⟨i, hi⟩ := List.mem_iff_getElem?.1 hl
  obtain ⟨j, hj⟩ := List.mem_iff_getElem?.1 hm
  obtain ⟨s, hs⟩ := u.unify_self l.atom.args
  have hclash : l.clashes m = true := Literal.clashes_iff.2 ⟨hsign, by rw [hatom]⟩
  exact ⟨_, mem_resolvents.2 ⟨i, j, l, m, s, hi, hj, hclash, by rw [← hatom]; exact hs, rfl⟩⟩

/-- what is left of a clause that is resolved with a unit -/
theorem subset_of_unit {p : Clause} (hp : p.isUnit = true) (hgp : p.IsGround) (hgc : c.IsGround)
    (h : r ∈ resolvents u p c ∨ r ∈ resolvents u c p) : r.clause.literals ⊆ c.literals := by
  intro k hk
  rcases h with h | h
  · obtain ⟨i, j, l, m, hl, -, -, -, hsub, -⟩ := ground_resolvent hgp hgc h
    have hside := hsub.subset hk
    rw [sideLiterals, eraseIdx_of_isUnit hp hl, List.nil_append] at hside
    exact List.mem_of_mem_eraseIdx hside
  · obtain ⟨i, j, l, m, -, hm, -, -, hsub, -⟩ := ground_resolvent hgc hgp h
    have hside := hsub.subset hk
    rw [sideLiterals, eraseIdx_of_isUnit hp hm, List.append_nil] at hside
    exact List.mem_of_mem_eraseIdx hside

end Resolution

/-! ## The valuation of the stored units -/

namespace Search

/-- an atom is true when it is stored as a unit clause -/
def unitAtoms (w : WorkingSet) : Valuation := fun a => ⟨[⟨true, a⟩]⟩ ∈ w.clauses

/-- a Horn clause with positive literals only is a positive unit -/
theorem trueIn_of_positive {w : WorkingSet} {c : Clause} (hc : c ∈ w.clauses) (hempty : Clause.empty ∉ w.clauses)
    (hhorn : c.IsHorn) (hpos : ∀ l ∈ c.literals, l.positive = true) : c.TrueIn (unitAtoms w) := by
  have hlen : c.literals.length ≤ 1 := by
    rw [← List.countP_eq_length.2 hpos]
    exact hhorn
  obtain ⟨ls⟩ := c
  cases ls with
  | nil => exact absurd hc hempty
  | cons l ls =>
    obtain rfl : ls = [] := by simpa using hlen
    obtain ⟨positive, a⟩ := l
    obtain rfl : positive = true := hpos _ List.mem_cons_self
    exact ⟨⟨true, a⟩, List.mem_cons_self, by simpa [Literal.TrueIn, unitAtoms] using hc⟩

variable {settings : Settings} {input : List Clause} {w : WorkingSet}

/-- of a stored unit and a stored clause in which it can be cancelled some resolvent was made, and is known; whichever of the
two was pivot later comes first in it -/
theorem Progress.exists_known (h : Progress settings input w) (hqueued : ∀ i, ¬ w.Queued i) {p c : Clause} {l m : Literal}
    (hp : p ∈ w.clauses) (hc : c ∈ w.clauses) (hne : p ≠ c) (hunit : p.isUnit = true) (hl : l ∈ p.literals)
    (hm : m ∈ c.literals) (hsign : l.positive ≠ m.positive) (hatom : l.atom = m.atom) :
    ∃ r, (r ∈ resolvents settings.unifier p c ∨ r ∈ resolvents settings.unifier c p) ∧ r.clause.isEmpty = false ∧
      w.knows r.clause = true := by
  obtain ⟨i, hi⟩ := WorkingSet.mem_clauses_iff.1 hp
  obtain ⟨j, hj⟩ := WorkingSet.mem_clauses_iff.1 hc
  have hij : i ≠ j := by
    rintro rfl
    exact hne (Option.some.inj (hi.symm.trans hj))
  rcases h.settled i j p c hij hi hj (hqueued i) (hqueued j) (Or.inl hunit) with hset | hset
  · obtain ⟨r0, hr0⟩ := exists_resolvent hl hm hsign hatom settings.unifier
    obtain ⟨r, hr⟩ := settings.pairSelection.exists_mem_resolvents hr0
    exact ⟨r, Or.inl (PairSelection.resolvents_subset _ _ _ _ hr), hset r hr⟩
  · obtain ⟨r0, hr0⟩ := exists_resolvent hm hl hsign.symm hatom.symm settings.unifier
    obtain ⟨r, hr⟩ := settings.pairSelection.exists_mem_resolvents hr0
    exact ⟨r, Or.inr (PairSelection.resolvents_subset _ _ _ _ hr), hset r hr⟩

/-- a clause in which a stored unit can be cancelled leaves a stored clause with fewer literals, all of them its own -/
theorem Progress.exists_smaller (h : Progress settings input w) (hdedup : settings.dedup = .canonical)
    (hqueued : ∀ i, ¬ w.Queued i) (hread : ∀ c ∈ w.clauses, c.Readable) (hground : ∀ c ∈ w.clauses, c.IsGround)
    {p c : Clause} {l m : Literal} (hp : p ∈ w.clauses) (hc : c ∈ w.clauses) (hne : p ≠ c) (hunit : p.isUnit = true)
    (hl : l ∈ p.literals) (hm : m ∈ c.literals) (hsign : l.positive ≠ m.positive) (hatom : l.atom = m.atom) :
    ∃ e ∈ w.clauses, e.size < c.size ∧ e.literals ⊆ c.literals := by
  have hpsize : p.size = 1 := by simpa [Clause.isUnit, Clause.size] using hunit
  obtain ⟨r, hr, hempty, hknown⟩ := h.exists_known hqueued hp hc hne hunit hl hm hsign hatom
  have hreadable : r.clause.Readable := by
    rcases hr with hr | hr
    · exact (hread p hp).resolvent (hread c hc) hr
    · exact (hread c hc).resolvent (hread p hp) hr
  have hsize : r.clause.size < c.size := by
    rcases hr with hr | hr
    · have := size_resolvent hr
      omega
    · have := size_resolvent hr
      omega
  exact ⟨r.clause, h.keys.mem_of_knows (h.dedup.trans hdedup) h.nonempty hread hreadable hempty hknown, hsize,
    subset_of_unit hunit (hground p hp) (hground c hc) hr⟩

/-- the negative literals of a false clause are denied by stored units, which the clause is not among -/
theorem unit_of_false {c : Clause} {m : Literal} (hfalse : ¬ c.TrueIn (unitAtoms w)) (hm : m ∈ c.literals)
    (hsign : m.positive = false) : ⟨[⟨true, m.atom⟩]⟩ ∈ w.clauses ∧ (⟨[⟨true, m.atom⟩]⟩ : Clause) ≠ c := by
  have hp : ⟨[⟨true, m.atom⟩]⟩ ∈ w.clauses := by
    by_contra hp
    exact hfalse ⟨m, hm, by simpa [Literal.TrueIn, hsign, unitAtoms] using hp⟩
  refine ⟨hp, ?_⟩
  rintro rfl
  exact hfalse ⟨_, List.mem_cons_self, by simpa [Literal.TrueIn, unitAtoms] using hp⟩

/-- Every stored clause is true when the stored units are, if below every false clause with a negative literal there is a
stored clause of its literals that is smaller by some measure. -/
theorem trueIn_of_descent (μ : Clause → Nat) (hempty : Clause.empty ∉ w.clauses) (hhorn : ∀ c ∈ w.clauses, c.IsHorn)
    (hdescent : ∀ c ∈ w.clauses, ¬ c.TrueIn (unitAtoms w) → ∀ m ∈ c.literals, m.positive = false →
      ∃ e ∈ w.clauses, μ e < μ c ∧ e.literals ⊆ c.literals) {c : Clause} (hc : c ∈ w.clauses) :
    c.TrueIn (unitAtoms w) := by
  induction hn : μ c using Nat.strong_induction_on generalizing c with
  | _ n ih =>
    by_contra hfalse
    by_cases hneg : ∃ l ∈ c.literals, l.positive = false
    · obtain ⟨m, hm, hsign⟩ := hneg
      obtain ⟨e, he, hlt, hsub⟩ := hdescent c hc hfalse m hm hsign
      obtain ⟨k, hk, hkt⟩ := ih (μ e) (hn ▸ hlt) he rfl
      exact hfalse ⟨k, hsub hk, hkt⟩
    · refine hfalse (trueIn_of_positive hc hempty (hhorn c hc) fun l hl => ?_)
      by_contra hl'
      exact hneg ⟨l, hl, by simpa using hl'⟩

/-- every stored clause is true when the stored units are -/
theorem Progress.trueIn_unitAtoms (h : Progress settings input w) (hdedup : settings.dedup = .canonical)
    (hqueued : ∀ i, ¬ w.Queued i) (hread : ∀ c ∈ w.clauses, c.Readable) (hground : ∀ c ∈ w.clauses, c.IsGround)
    (hhorn : ∀ c ∈ w.clauses, c.IsHorn) {c : Clause} (hc : c ∈ w.clauses) : c.TrueIn (unitAtoms w) := by
  refine trueIn_of_descent Clause.size h.nonempty hhorn (fun c hc hfalse m hm hsign => ?_) hc
  obtain ⟨hp, hne⟩ := unit_of_false hfalse hm hsign
  exact h.exists_smaller hdedup hqueued hread hground hp hc hne rfl List.mem_cons_self hm (by simp [hsign]) rfl

/-! ## Searches on formulas -/

section Formulas

variable {formulas : List String} {journal : List Journal.Entry} {c : Clause}

theorem Derivation.readable (h : Derivation settings (Formula.readAll formulas) journal c) : c.Readable := by
  refine h.invariant (fun c hc => ?_) fun c d r hc hd hr => hc.resolvent hd hr
  obtain ⟨f, -, hf⟩ := Formula.mem_readAll.1 hc
  exact (Formula.read_readable hf).2

theorem Derivation.ground (hinput : ∀ c ∈ input, c.IsGround) (h : Derivation settings input journal c) : c.IsGround :=
  h.invariant hinput fun _ _ _ hc hd hr => hc.resolvent hd hr

theorem Derivation.horn (hground : ∀ c ∈ input, c.IsGround) (hhorn : ∀ c ∈ input, c.IsHorn)
    (h : Derivation settings input journal c) : c.IsHorn := by
  refine (h.invariant (P := fun c => c.IsGround ∧ c.IsHorn) (fun c hc => ⟨hground c hc, hhorn c hc⟩) ?_).2
  intro c d r hc hd hr
  exact ⟨hc.1.resolvent hd.1 hr, hc.2.resolvent hc.1 hd.1 hd.2 hr⟩

theorem Derivation.trueIn {V : Valuation} (hground : ∀ c ∈ input, c.IsGround) (hV : ∀ c ∈ input, c.TrueIn V)
    (h : Derivation settings input journal c) : c.TrueIn V := by
  refine (h.invariant (P := fun c => c.IsGround ∧ c.TrueIn V) (fun c hc => ⟨hground c hc, hV c hc⟩) ?_).2
  intro c d r hc hd hr
  exact ⟨hc.1.resolvent hd.1 hr, hc.2.ground_resolvent hc.1 hd.1 hd.2 hr⟩

end Formulas

/-- **Ground Horn sets are decided.** With clauses known by their text, and for every unifier, pair selection and budget:
after a contradiction no valuation makes the clauses of the formulas true, and when the supply is exhausted one does. -/
theorem decides_groundHorn (settings : Settings) (formulas : List String) (hdedup : settings.dedup = .canonical)
    (hground : ∀ c ∈ Formula.readAll formulas, c.IsGround) (hhorn : ∀ c ∈ Formula.readAll formulas, c.IsHorn) :
    ((prove settings formulas).outcome.termination = .contradiction →
      ¬ ∃ V : Valuation, ∀ c ∈ Formula.readAll formulas, c.TrueIn V) ∧
    ((prove settings formulas).outcome.termination = .supplyExhausted →
      ∃ V : Valuation, ∀ c ∈ Formula.readAll formulas, c.TrueIn V) := by
  rcases hsearch : (ofFormulas settings formulas).search settings with ⟨t, τ⟩
  have hτ : (prove settings formulas).outcome.termination = τ := congrArg Prod.snd hsearch
  obtain ⟨hderived, hcontradiction⟩ := State.search_derived (ofFormulas_derived settings formulas) hsearch
  rw [hτ]
  constructor
  · rintro h ⟨V, hV⟩
    exact Clause.not_trueIn_empty V ((hcontradiction h).trueIn hground hV)
  · rintro rfl
    obtain ⟨hprogress, hqueued⟩ := State.progress_of_exhausted (ofFormulas_working settings formulas) hsearch
    have hread : ∀ c ∈ t.working.clauses, c.Readable := fun c hc => (hderived c hc).readable
    refine ⟨unitAtoms t.working, fun c hc => ?_⟩
    obtain ⟨f, -, hf⟩ := Formula.mem_readAll.1 hc
    obtain ⟨hliterals, hreadable⟩ := Formula.read_readable hf
    have hstored : c ∈ t.working.clauses :=
      hprogress.keys.mem_of_knows (hprogress.dedup.trans hdedup) hprogress.nonempty hread hreadable
        (by simpa [Clause.isEmpty] using hliterals) (hprogress.input c hc)
    exact hprogress.trueIn_unitAtoms hdedup hqueued hread (fun c hc => (hderived c hc).ground hground)
      (fun c hc => (hderived c hc).horn hground hhorn) hstored

/-- a fact, an implication and a denial are satisfiable; with the fact that they deny together they are not -/
theorem decides_groundHorn_chain :
    (∃ V : Valuation, ∀ c ∈ Formula.readAll ["P(A, B)", "P(A, B) → Q(B)", "¬R ∨ ¬Q(B)"], c.TrueIn V) ∧
      ¬ ∃ V : Valuation, ∀ c ∈ Formula.readAll ["P(A, B)", "P(A, B) → Q(B)", "¬R ∨ ¬Q(B)", "R"], c.TrueIn V :=
  ⟨(decides_groundHorn {} _ rfl (by decide +kernel) (by decide +kernel)).2 (by decide +kernel),
    (decides_groundHorn {} _ rfl (by decide +kernel) (by decide +kernel)).1 (by decide +kernel)⟩

end Search

end Refutation
