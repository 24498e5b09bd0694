/-
The list of the resolvents of two clauses, by its plain definition.

The resolvents come in the order of their pairs of literals, first by the literal of the first clause and then by that of
the second (`pairwise_resolvents`), one for each pair that resolves (`exists_mem_resolvents_iff`). A resolvent is what one
would write down: all literals of the parents but the pair, under the substitution, with repetitions dropped
(`literals_resolventClause`). The literals of the second parent that are skipped before the substitution is applied would
have been dropped after it (`eraseDups_map_addNew`), and a substitution without bindings does nothing.
-/
import Refutation.Proofs.CompleteResolution

namespace Refutation

/-! ## First occurrences -/

section Lists

variable {α : Type} [DecidableEq α]

/-- the items that do not occur earlier in the list -/
def firstOccurrences (as : List α) : List α := (as.zipIdx.filter fun p => p.1 ∉ as.take p.2).map Prod.fst

theorem firstOccurrences_concat (as : List α) (a : α) :
    firstOccurrences (as ++ [a]) = firstOccurrences as ++ if a ∈ as then [] else [a] := by
  have hold : (as.zipIdx.filter fun p => p.1 ∉ (as ++ [a]).take p.2) = as.zipIdx.filter fun p => p.1 ∉ as.take p.2 := by
    refine List.filter_congr fun p hp => ?_
    have hlt : p.2 < as.length := by simpa using List.snd_lt_of_mem_zipIdx hp
    rw [List.take_append_of_le_length hlt.le]
  unfold firstOccurrences
  rw [List.zipIdx_append, List.filter_append, List.map_append, hold]
  by_cases ha : a ∈ as
  · simp [ha]
  · simp [ha]

theorem eraseDups_concat (as : List α) (a : α) :
    (as ++ [a]).eraseDups = as.eraseDups ++ if a ∈ as then [] else [a] := by
  rw [List.eraseDups_append]
  by_cases ha : a ∈ as
  · simp [ha, List.removeAll]
  · simp [ha, List.removeAll, List.eraseDups_cons]

/-- dropping repetitions keeps the first occurrences, in their order -/
theorem eraseDups_eq_firstOccurrences (as : List α) : as.eraseDups = firstOccurrences as := by
  induction as using List.reverseRecOn with
  | nil => rfl
  | append_singleton as a ih => rw [eraseDups_concat, firstOccurrences_concat, ih]

/-- an item that repeats an earlier one may be dropped beforehand -/
theorem eraseDups_append_cons {as : List α} {a : α} (ha : a ∈ as) (bs : List α) :
    (as ++ a :: bs).eraseDups = (as ++ bs).eraseDups := by
  rw [List.eraseDups_append, List.eraseDups_append]
  simp [List.removeAll, ha]

end Lists

/-- **Skipping early changes nothing.** A literal that is there already is still there, and repeated, after any map. -/
theorem eraseDups_map_addNew {α : Type} [DecidableEq α] (f : Literal → α) (known new : List Literal) :
    ((addNew known new).map f).eraseDups = ((known ++ new).map f).eraseDups := by
  induction new generalizing known with
  | nil => simp [addNew]
  | cons l new ih =>
    rw [addNew_cons, ih]
    by_cases hl : l ∈ known
    · rw [if_pos hl, List.map_append, List.map_append, List.map_cons,
        eraseDups_append_cons (List.mem_map_of_mem hl)]
    · rw [if_neg hl, List.append_assoc, List.singleton_append]

/-- the literals of a resolvent: those of the parents without the pair, under the substitution, without repetitions -/
theorem literals_resolventClause (c : Clause) (i : Nat) (d : Clause) (j : Nat) (s : Substitution) :
    (resolventClause c i d j s).literals =
      firstOccurrences (((c.without i).literals ++ (d.without j).literals).map (Literal.apply s)) := by
  unfold resolventClause Clause.dedup
  rw [Clause.literals_apply, eraseDups_map_addNew, eraseDups_eq_firstOccurrences, Clause.without, Clause.without]

/-! ## The order of the resolvents -/

/-- the pair of the first resolvent comes before that of the second: by the literal of the first parent, then by the other -/
def Resolvent.Before (r s : Resolvent) : Prop :=
  r.leftIndex < s.leftIndex ∨ (r.leftIndex = s.leftIndex ∧ r.rightIndex < s.rightIndex)

variable {u : Unifier} {c d : Clause} {i j : Nat} {r : Resolvent}

theorem at_of_resolventAt {l m : Literal} (h : resolventAt? u c d i l j m = some r) : r.At i j := by
  unfold resolventAt? at h
  split at h
  · split at h
    · obtain rfl := Option.some.inj h
      exact ⟨rfl, rfl⟩
    · cases h
  · cases h

theorem pairwise_snd_zipIdx {α : Type} (as : List α) : as.zipIdx.Pairwise fun p q => p.2 < q.2 := by
  have hsnd : (as.zipIdx.map Prod.snd).Pairwise (· < ·) := by
    rw [List.zipIdx_map_snd]
    exact List.pairwise_lt_range'
  exact List.pairwise_map.1 hsnd

/-- **The resolvents come in strictly increasing order** of their pairs of literals. -/
theorem pairwise_resolvents (u : Unifier) (c d : Clause) : (resolvents u c d).Pairwise Resolvent.Before := by
  unfold resolvents
  rw [List.pairwise_flatMap]
  constructor
  · intro p _
    rw [List.pairwise_filterMap]
    refine (pairwise_snd_zipIdx d.literals).imp fun {q q'} hlt r hr r' hr' => ?_
    obtain ⟨hleft, hright⟩ := at_of_resolventAt hr
    obtain ⟨hleft', hright'⟩ := at_of_resolventAt hr'
    exact Or.inr ⟨hleft.trans hleft'.symm, by rw [hright, hright']; exact hlt⟩
  · refine (pairwise_snd_zipIdx c.literals).imp fun {p p'} hlt r hr r' hr' => ?_
    obtain ⟨q, -, hr⟩ := List.mem_filterMap.1 hr
    obtain ⟨q', -, hr'⟩ := List.mem_filterMap.1 hr'
    obtain ⟨hleft, -⟩ := at_of_resolventAt hr
    obtain ⟨hleft', -⟩ := at_of_resolventAt hr'
    exact Or.inl (by rw [hleft, hleft']; exact hlt)

/-- **Which pairs resolve, and with which substitution.** -/
theorem exists_mem_resolvents_iff {s : Substitution} :
    (∃ r ∈ resolvents u c d, r.At i j ∧ r.substitution = s) ↔
      ∃ l m, c.literals[i]? = some l ∧ d.literals[j]? = some m ∧ l.clashes m = true ∧
        u.unify l.atom.args m.atom.args = .ok s := by
  constructor
  · intro ⟨r, hr, ⟨hleft, hright⟩, hs⟩
    obtain ⟨l, m, hl, hm, hclash, hunify, -⟩ := exists_unify_of_mem hr
    rw [hleft] at hl
    rw [hright] at hm
    rw [hs] at hunify
    exact ⟨l, m, hl, hm, hclash, hunify⟩
  · intro ⟨l, m, hl, hm, hclash, hunify⟩
    exact ⟨_, mem_resolvents.2 ⟨i, j, l, m, s, hl, hm, hclash, hunify, rfl⟩, ⟨rfl, rfl⟩, rfl⟩

/-- **What a resolvent is.** The resolvents of two clauses come in strictly increasing order of their pairs of literals, one
for each pair that clashes and whose arguments unify, with the substitution found. A resolvent consists of the first
occurrences among the literals of the parents without the pair, under the substitution. So it repeats no literal and has at
least two literals less than its parents together. -/
theorem resolvents_plain (u : Unifier) (c d : Clause) :
    (resolvents u c d).Pairwise Resolvent.Before ∧
    (∀ i j s, (∃ r ∈ resolvents u c d, r.At i j ∧ r.substitution = s) ↔
      ∃ l m, c.literals[i]? = some l ∧ d.literals[j]? = some m ∧ l.clashes m = true ∧
        u.unify l.atom.args m.atom.args = .ok s) ∧
    ∀ r ∈ resolvents u c d,
      r.clause.literals = firstOccurrences
        (((c.without r.leftIndex).literals ++ (d.without r.rightIndex).literals).map (Literal.apply r.substitution)) ∧
      r.clause.literals.Nodup ∧ r.clause.size + 2 ≤ c.size + d.size := by
  refine ⟨pairwise_resolvents u c d, fun i j s => exists_mem_resolvents_iff, fun r hr => ⟨?_, ?_, ?_⟩⟩
  · obtain ⟨-, -, -, -, -, -, hclause⟩ := exists_unify_of_mem hr
    rw [hclause]
    exact literals_resolventClause c r.leftIndex d r.rightIndex r.substitution
  · exact nodup_resolvent hr
  · exact size_resolvent hr

/-- `P(x) ∨ Q(x) ∨ Q(x)` and `¬P(y) ∨ Q(y) ∨ Q(x) ∨ ¬P(A)` give `Q(y) ∨ ¬P(A)` on their first literals: of the five
literals that are left, one is repeated, one is skipped, and one is merged by the substitution -/
theorem resolvents_plain_merged :
    let c : Clause := ⟨[⟨true, "P", [.var "x"]⟩, ⟨true, "Q", [.var "x"]⟩, ⟨true, "Q", [.var "x"]⟩]⟩
    let d : Clause := ⟨[⟨false, "P", [.var "y"]⟩, ⟨true, "Q", [.var "y"]⟩, ⟨true, "Q", [.var "x"]⟩,
      ⟨false, "P", [.const "A"]⟩]⟩
    ∃ r ∈ resolvents .singlePass c d, r.At 0 0 ∧
      r.clause.literals = [⟨true, "Q", [.var "y"]⟩, ⟨false, "P", [.const "A"]⟩] ∧ r.clause.size + 2 ≤ c.size + d.size := by
  intro c d
  obtain ⟨-, hpairs, hplain⟩ := resolvents_plain .singlePass c d
  let σ : Substitution := Substitution.empty.bind "x" (.var "y")
  obtain ⟨r, hr, ⟨hleft, hright⟩, hσ⟩ := (hpairs 0 0 σ).2 ⟨_, _, rfl, rfl, by decide, rfl⟩
  obtain ⟨hliterals, -, hsize⟩ := hplain r hr
  rw [hleft, hright, hσ] at hliterals
  refine ⟨r, hr, ⟨hleft, hright⟩, ?_, hsize⟩
  rw [hliterals]
  decide +kernel

end Refutation
