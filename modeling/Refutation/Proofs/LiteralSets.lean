/-
Searches that know clauses by their sets of literals.

Resolution cancels one occurrence of a literal, and a set of literals does not show how often a literal occurs. So a clause
whose negative literals are all repeated is a dead end: what a unit leaves of it has its own key and is dropped, and a
refutation can be lost (`denial_lost`). Resolvents repeat no literal, so only clauses of the input can be like that, and of
those only the first with its key is ever stored. When each of these has a negative literal that occurs once, unless it
has none, no refutation of ground Horn clauses is lost (`satisfiable_of_exhausted`). The argument is the one for keys that
show the whole clause, with the number of different literals in place of the size.
-/
import Refutation.Proofs.GroundHorn

namespace Refutation

/-- some negative literal occurs once, unless there are none -/
def Clause.SingleDenial (c : Clause) : Prop :=
  (∃ l ∈ c.literals, l.positive = false) → ∃ l ∈ c.literals, l.positive = false ∧ c.literals.count l = 1

instance (c : Clause) : Decidable c.SingleDenial :=
  inferInstanceAs (Decidable (_ → ∃ l ∈ c.literals, l.positive = false ∧ c.literals.count l = 1))

/-- how many different literals there are -/
def Clause.variety (c : Clause) : Nat := c.literals.toFinset.card

namespace Clause

variable {u : Unifier} {c d : Clause} {m : Literal} {r : Resolvent}

theorem singleDenial_of_nodup (h : c.literals.Nodup) : c.SingleDenial := by
  rintro ⟨l, hl, hsign⟩
  exact ⟨l, hl, hsign, List.count_eq_one_of_mem h hl⟩

theorem variety_lt (hsub : d.literals ⊆ c.literals) (hm : m ∈ c.literals) (hnot : m ∉ d.literals) :
    d.variety < c.variety := by
  refine Finset.card_lt_card ⟨fun l hl => ?_, fun hback => hnot ?_⟩
  · exact List.mem_toFinset.2 (hsub (List.mem_toFinset.1 hl))
  · exact List.mem_toFinset.1 (hback (List.mem_toFinset.2 hm))

theorem notMem_eraseIdx {ls : List Literal} {j : Nat} (hj : ls[j]? = some m) (hcount : ls.count m = 1) :
    m ∉ ls.eraseIdx j := by
  obtain ⟨hlt, rfl⟩ := List.getElem?_eq_some_iff.1 hj
  rw [← (List.getElem_cons_eraseIdx_perm hlt).count_eq, List.count_cons_self] at hcount
  exact List.count_eq_zero.1 (by omega)

/-- what clashes with a positive unit is its complement -/
theorem eq_of_clashes {i : Nat} {l k : Literal} (hl : [(⟨true, m.atom⟩ : Literal)][i]? = some l)
    (hsign : m.positive = false) (hne : l.positive ≠ k.positive) (hatom : l.atom = k.atom) : k = m := by
  obtain rfl : l = ⟨true, m.atom⟩ := by simpa using List.mem_of_getElem? hl
  obtain ⟨positive, a⟩ := k
  obtain ⟨positive', b⟩ := m
  obtain rfl : positive' = false := hsign
  obtain rfl : b = a := hatom
  obtain rfl : positive = false := by simpa using hne.symm
  rfl

/-- a unit takes a negative literal that occurs once out of a ground clause -/
theorem notMem_of_unit (hgc : c.IsGround) (hgp : (⟨[⟨true, m.atom⟩]⟩ : Clause).IsGround) (hsign : m.positive = false)
    (hcount : c.literals.count m = 1)
    (h : r ∈ resolvents u ⟨[⟨true, m.atom⟩]⟩ c ∨ r ∈ resolvents u c ⟨[⟨true, m.atom⟩]⟩) : m ∉ r.clause.literals := by
  intro hm
  rcases h with h | h
  · obtain ⟨i, j, l, k, hl, hk, hclash, hatom, hsub, -⟩ := ground_resolvent hgp hgc h
    obtain rfl : k = m := eq_of_clashes hl hsign (Literal.clashes_iff.1 hclash).1 hatom
    have hside := hsub.subset hm
    rw [sideLiterals, eraseIdx_of_isUnit rfl hl, List.nil_append] at hside
    exact notMem_eraseIdx hk hcount hside
  · obtain ⟨i, j, k, l, hk, hl, hclash, hatom, hsub, -⟩ := ground_resolvent hgc hgp h
    obtain rfl : k = m := eq_of_clashes hl hsign (Literal.clashes_iff.1 hclash).1.symm hatom.symm
    have hside := hsub.subset hm
    rw [sideLiterals, eraseIdx_of_isUnit rfl hl, List.append_nil] at hside
    exact notMem_eraseIdx hk hcount hside

end Clause

namespace Search

variable {settings : Settings} {input : List Clause} {w : WorkingSet}

/-- a clause that is false leaves a stored clause with fewer different literals, if it denies some atom just once -/
theorem Progress.exists_fewer (h : Progress settings input w) (hdedup : settings.dedup = .literalSet)
    (hqueued : ∀ i, ¬ w.Queued i) (hread : ∀ c ∈ w.clauses, c.Readable) (hground : ∀ c ∈ w.clauses, c.IsGround)
    {c : Clause} {m : Literal} (hc : c ∈ w.clauses) (hfalse : ¬ c.TrueIn (unitAtoms w)) (hm : m ∈ c.literals)
    (hsign : m.positive = false) (hcount : c.literals.count m = 1) :
    ∃ e ∈ w.clauses, e.variety < c.variety ∧ e.literals ⊆ c.literals := by
  obtain ⟨hp, hne⟩ := unit_of_false hfalse hm hsign
  obtain ⟨r, hr, hempty, hknown⟩ :=
    h.exists_known hqueued hp hc hne rfl List.mem_cons_self hm (by simp [hsign]) rfl
  have hreadable : r.clause.Readable := by
    rcases hr with hr | hr
    · exact (hread _ hp).resolvent (hread c hc) hr
    · exact (hread c hc).resolvent (hread _ hp) hr
  obtain ⟨e, he, hsame⟩ := h.keys.exists_same h.nonempty hread hreadable hempty hknown
  have hsame : ∀ l, l ∈ e.literals ↔ l ∈ r.clause.literals := by
    rwa [h.dedup, hdedup] at hsame
  have hsub : e.literals ⊆ c.literals := fun l hl =>
    subset_of_unit rfl (hground _ hp) (hground c hc) hr ((hsame l).1 hl)
  have hnot : m ∉ e.literals := by
    rw [hsame]
    exact Clause.notMem_of_unit (hground c hc) (hground _ hp) hsign hcount hr
  exact ⟨e, he, Clause.variety_lt hsub hm hnot, hsub⟩

/-- resolvents repeat no literal -/
theorem Derivation.singleDenial {journal : List Journal.Entry} {c : Clause} (hinput : ∀ c ∈ input, c.SingleDenial)
    (h : Derivation settings input journal c) : c.SingleDenial := by
  cases h with
  | input h => exact hinput c h
  | resolve _ _ h _ => exact Clause.singleDenial_of_nodup (nodup_resolvent (PairSelection.resolvents_subset _ _ _ _ h))

/-- what is stored is a resolvent or the first clause of the input with its key -/
theorem singleDenial_of_stored {formulas : List String} {t : State} {τ : Termination}
    (hdedup : settings.dedup = .literalSet)
    (hsingle : ∀ c ∈ Formula.readAll formulas,
      (Formula.readAll formulas).find? (fun d => d.literalSetKey == c.literalSetKey) = some c → c.SingleDenial)
    (hsearch : (ofFormulas settings formulas).search settings = (t, τ)) {c : Clause} (hc : c ∈ t.working.clauses) :
    c.SingleDenial := by
  have hstart : (ofFormulas settings formulas).Derived settings
      (ofFormulas settings formulas).working.clauses.toList := fun c hc => .input (by simpa using hc)
  refine ((State.search_derived hstart hsearch).1 c hc).singleDenial fun d hd => ?_
  rw [ofFormulas_working, Array.mem_toList_iff] at hd
  rcases WorkingSet.find?_of_mem_insertAll hd with hd | ⟨-, hfind⟩
  · simp [WorkingSet.empty] at hd
  · rw [hdedup] at hfind
    exact hsingle d (List.mem_of_find?_eq_some hfind) hfind

/-- **No refutation of ground Horn clauses is lost** to keys that show the set of literals, for every unifier, pair
selection and budget, if every clause that is the first with its key has a negative literal that occurs once, unless it has
none: when the supply is exhausted, a valuation makes the clauses of the formulas true. -/
theorem satisfiable_of_exhausted (settings : Settings) (formulas : List String) (hdedup : settings.dedup = .literalSet)
    (hground : ∀ c ∈ Formula.readAll formulas, c.IsGround) (hhorn : ∀ c ∈ Formula.readAll formulas, c.IsHorn)
    (hsingle : ∀ c ∈ Formula.readAll formulas,
      (Formula.readAll formulas).find? (fun d => d.literalSetKey == c.literalSetKey) = some c → c.SingleDenial)
    (h : (prove settings formulas).outcome.termination = .supplyExhausted) :
    ∃ V : Valuation, ∀ c ∈ Formula.readAll formulas, c.TrueIn V := by
  rcases hsearch : (ofFormulas settings formulas).search settings with ⟨t, τ⟩
  obtain rfl : τ = .supplyExhausted := by
    rw [← h]
    exact (congrArg Prod.snd hsearch).symm
  obtain ⟨hderived, -⟩ := State.search_derived (ofFormulas_derived settings formulas) hsearch
  obtain ⟨hprogress, hqueued⟩ := State.progress_of_exhausted (ofFormulas_working settings formulas) hsearch
  have hread : ∀ c ∈ t.working.clauses, c.Readable := fun c hc => (hderived c hc).readable
  have hgrounded : ∀ c ∈ t.working.clauses, c.IsGround := fun c hc => (hderived c hc).ground hground
  have htrue : ∀ c ∈ t.working.clauses, c.TrueIn (unitAtoms t.working) := by
    intro c hc
    refine trueIn_of_descent Clause.variety hprogress.nonempty (fun c hc => (hderived c hc).horn hground hhorn) ?_ hc
    intro c hc hfalse l hl hsign
    obtain ⟨m, hm, hmsign, hcount⟩ := singleDenial_of_stored hdedup hsingle hsearch hc ⟨l, hl, hsign⟩
    exact hprogress.exists_fewer hdedup hqueued hread hgrounded hc hfalse hm hmsign hcount
  refine ⟨unitAtoms t.working, fun c hc => ?_⟩
  obtain ⟨f, -, hf⟩ := Formula.mem_readAll.1 hc
  obtain ⟨hliterals, hreadable⟩ := Formula.read_readable hf
  -- a clause with the same literals is stored
  obtain ⟨d, hd, hsame⟩ := hprogress.keys.exists_same hprogress.nonempty hread hreadable
    (by simpa [Clause.isEmpty] using hliterals) (hprogress.input c hc)
  rw [hprogress.dedup, hdedup] at hsame
  obtain ⟨l, hl, hlt⟩ := htrue d hd
  exact ⟨l, (hsame l).1 hl, hlt⟩

/-- a denial that is written twice does no harm after the same denial -/
theorem satisfiable_repeated :
    (prove { dedup := .literalSet } ["¬P", "¬P ∨ ¬P", "Q"]).outcome.termination = .supplyExhausted ∧
      ∃ V : Valuation, ∀ c ∈ Formula.readAll ["¬P", "¬P ∨ ¬P", "Q"], c.TrueIn V := by
  have hexhausted : (prove { dedup := .literalSet } ["¬P", "¬P ∨ ¬P", "Q"]).outcome.termination = .supplyExhausted := by
    cbv
  refine ⟨hexhausted, satisfiable_of_exhausted _ _ rfl (by decide +kernel) (by decide +kernel) ?_ hexhausted⟩
  have hread : Formula.readAll ["¬P", "¬P ∨ ¬P", "Q"] =
      [⟨[⟨false, Atom.prop "P"⟩]⟩, ⟨[⟨false, Atom.prop "P"⟩, ⟨false, Atom.prop "P"⟩]⟩, ⟨[⟨true, Atom.prop "Q"⟩]⟩] := by
    decide +kernel
  rw [hread]
  intro c hc hfirst
  simp only [List.mem_cons, List.not_mem_nil, or_false] at hc
  rcases hc with rfl | rfl | rfl
  · decide
  · -- the clause before it has the same literals, so the same key
    have hkey : Clause.literalSetKey ⟨[⟨false, Atom.prop "P"⟩]⟩ =
        Clause.literalSetKey ⟨[⟨false, Atom.prop "P"⟩, ⟨false, Atom.prop "P"⟩]⟩ :=
      Clause.literalSetKey_congr fun l => by simp
    simp [hkey] at hfirst
  · decide

/-- `P` and a denial of `P` that is written twice: the search runs out of clauses, though no valuation makes both true -/
theorem denial_lost :
    (∀ c ∈ Formula.readAll ["P", "¬P ∨ ¬P"], c.IsGround ∧ c.IsHorn) ∧
      (prove { dedup := .literalSet } ["P", "¬P ∨ ¬P"]).outcome.termination = .supplyExhausted ∧
      ¬ ∃ V : Valuation, ∀ c ∈ Formula.readAll ["P", "¬P ∨ ¬P"], c.TrueIn V := by
  refine ⟨by decide +kernel, by cbv, ?_⟩
  rintro ⟨V, hV⟩
  have hread : Formula.readAll ["P", "¬P ∨ ¬P"] =
      [⟨[⟨true, Atom.prop "P"⟩]⟩, ⟨[⟨false, Atom.prop "P"⟩, ⟨false, Atom.prop "P"⟩]⟩] := by decide +kernel
  rw [hread] at hV
  have hfact := hV _ List.mem_cons_self
  have hdenial := hV _ (List.mem_cons_of_mem _ List.mem_cons_self)
  simp [Clause.TrueIn, Literal.TrueIn] at hfact hdenial
  exact hdenial hfact

end Search

end Refutation
