/-
Explanations and derivations.

`Outcome.restatement` is what a faithful explanation says: the verdict, then the resolutions of the trace, numbered from 1.
The explanation of a report is made from the lines of the trace, by looking for a mark that stands before each resolution.
Lines quote the formulas, and a formula may hold the mark itself. `bears_inputEvent_iff` says which formulas put the mark on
their line (`Formula.Misleading`), and no other line bears it without a resolution. A misleading formula makes the
explanation longer than the restatement (`length_restatement_lt`), so an explanation is faithful exactly when no formula is
misleading (`explanation_faithful_iff`).
-/
import Refutation.Proofs.Tallies
import Refutation.Proofs.Texts
import Refutation.Report

namespace Refutation

/-! ## Phrases in a text -/

namespace Text

theorem afterPhrase_eq_none {phrase cs : List Char} : afterPhrase phrase cs = none ↔ ¬ phrase <:+: cs := by
  induction cs with
  | nil => cases phrase <;> simp [afterPhrase]
  | cons c rest ih =>
    rw [afterPhrase, List.infix_cons_iff, ← List.isPrefixOf_iff_prefix]
    by_cases hstart : phrase.isPrefixOf (c :: rest) = true
    · simp [hstart]
    · simp [hstart, ih]

theorem afterPhrase_self_append (phrase rest : List Char) : afterPhrase phrase (phrase ++ rest) = some rest := by
  cases phrase with
  | nil => cases rest <;> simp [afterPhrase]
  | cons c phrase => simp [afterPhrase]

/-- text without the first character of a phrase is skipped -/
theorem afterPhrase_append {c : Char} {phrase xs ys : List Char} (h : c ∉ xs) :
    afterPhrase (c :: phrase) (xs ++ ys) = afterPhrase (c :: phrase) ys := by
  induction xs with
  | nil => rfl
  | cons x xs ih =>
    obtain ⟨hx, hxs⟩ : c ≠ x ∧ c ∉ xs := by simpa using h
    simp [afterPhrase, hx, ih hxs]

theorem infix_append_of_notMem {c : Char} {phrase xs ys : List Char} (h : c ∉ xs) :
    c :: phrase <:+: xs ++ ys ↔ c :: phrase <:+: ys := by
  rw [← not_iff_not, ← afterPhrase_eq_none, afterPhrase_append h, afterPhrase_eq_none]

/-- a phrase lies on one side of a character that it does not hold -/
theorem infix_append_cons {d : Char} {phrase xs ys : List Char} (hd : d ∉ phrase) (hne : phrase ≠ []) :
    phrase <:+: xs ++ d :: ys ↔ phrase <:+: xs ∨ phrase <:+: ys := by
  have hstart {p : List Char} (hp : d ∉ p) (h : p <+: d :: ys) : p = [] := by
    obtain h | ⟨t, rfl, -⟩ := List.prefix_cons_iff.1 h
    · exact h
    · simp at hp
  rw [List.infix_append_iff, List.infix_cons_iff]
  constructor
  · rintro (h | (h | h) | ⟨p, q, rfl, hp, hq⟩)
    · exact .inl h
    · exact absurd (hstart hd h) hne
    · exact .inr h
    · obtain rfl : q = [] := hstart (fun hq => hd (List.mem_append_right _ hq)) hq
      rw [List.append_nil]
      exact .inl hp.isInfix
  · rintro (h | h)
    · exact .inl h
    · exact .inr (.inl (.inr h))

end Text

/-! ## The mark on the lines of a trace -/

/-- the text of the resolution that an event shows -/
def Trace.Event.resolution? : Trace.Event → Option String
  | .resolution left right resolvent => some (left ++ " and " ++ right ++ " -> " ++ resolvent)
  | _ => none

namespace Report

/-- the text holds the mark of a resolution -/
def Bears (text : String) : Prop := resolutionMark.toList <:+: text.toList

instance (text : String) : Decidable (Bears text) := inferInstanceAs (Decidable (_ <:+: _))

theorem resolutionOf?_eq_none {line : String} : resolutionOf? line = none ↔ ¬ Bears line := by
  rw [resolutionOf?, Option.map_eq_none_iff, Text.afterPhrase_eq_none, Bears]

theorem toList_mark : resolutionMark.toList = ':' :: " Resolution: ".toList := rfl

theorem notMem_digits (n : Nat) : ':' ∉ Nat.toDigits 10 n := Text.notMem_toDigits rfl n

theorem notMem_numbering (n : Nat) : ':' ∉ ("Step " ++ Nat.repr n).toList := by
  simp [notMem_digits]

theorem toList_line (s : Trace.Step) :
    s.line.toList = ("Step " ++ Nat.repr s.number).toList ++ (": " ++ s.event.message).toList := by
  simp only [Trace.Step.line, String.toList_append, List.append_assoc]

theorem bears_line (s : Trace.Step) : Bears s.line ↔ Bears (": " ++ s.event.message) := by
  rw [Bears, Bears, toList_line, toList_mark, Text.infix_append_of_notMem (notMem_numbering _)]

/-- the line of a resolution gives back its text -/
theorem resolutionOf?_line {s : Trace.Step} {step : String} (h : s.event.resolution? = some step) :
    resolutionOf? s.line = some step := by
  obtain ⟨n, e⟩ := s
  cases e with
  | resolution left right resolvent =>
    rw [Trace.Event.resolution?, Option.some.injEq] at h
    have hmessage : (Trace.Event.resolution left right resolvent).message = "Resolution: " ++ step := by
      rw [← h]
      show "Resolution: " ++ left ++ " and " ++ right ++ " -> " ++ resolvent = _
      simp only [String.append_assoc]
    have hmark : (": " ++ ("Resolution: " ++ step)).toList = resolutionMark.toList ++ step.toList := by
      simp [resolutionMark]
    rw [resolutionOf?, toList_line, toList_mark, Text.afterPhrase_append (notMem_numbering _), ← toList_mark, hmessage,
      hmark, Text.afterPhrase_self_append, Option.map_some, String.ofList_toList]
  | _ => cases h

theorem not_bears_of_notMem {text : String} (h : ':' ∉ text.toList) : ¬ Bears text := by
  intro hbears
  exact h (hbears.subset (by decide))

theorem bears_colon_iff {text : String} :
    Bears (": " ++ text) ↔ "Resolution: ".toList <+: text.toList ∨ Bears text := by
  simp [Bears, toList_mark, List.infix_cons_iff]

theorem bears_colon {text : String} (h : text.toList.head? ≠ some 'R') : Bears (": " ++ text) ↔ Bears text := by
  rw [bears_colon_iff, or_iff_right]
  rintro ⟨rest, hrest⟩
  exact h (by simp [← hrest])

/-- a heading without a colon does not matter -/
theorem bears_heading {heading text : String} (hhead : (heading ++ text).toList.head? ≠ some 'R')
    (hcolon : ':' ∉ heading.toList) : Bears (": " ++ (heading ++ text)) ↔ Bears text := by
  rw [bears_colon hhead, Bears, String.toList_append, toList_mark, Text.infix_append_of_notMem hcolon, Bears, toList_mark]

theorem not_bears_lastEvent (o : Outcome) (maxSteps : Nat) : ¬ Bears (": " ++ (o.lastEvent maxSteps).message) := by
  have hcount {heading rest : String} (n : Nat) (hhead : (heading ++ Nat.repr n ++ rest).toList.head? ≠ some 'R')
      (hheading : ':' ∉ heading.toList) (hrest : ':' ∉ rest.toList) :
      ¬ Bears (": " ++ (heading ++ Nat.repr n ++ rest)) := by
    rw [bears_colon hhead]
    refine not_bears_of_notMem ?_
    simp [hheading, hrest, notMem_digits]
  rw [Outcome.lastEvent]
  cases o.termination with
  | contradiction =>
    show ¬ Bears (": " ++ Trace.Event.contradiction.message)
    decide
  | noClauses =>
    show ¬ Bears (": " ++ Trace.Event.noUsableClauses.message)
    decide
  | supplyExhausted => exact hcount _ (by simp) (by decide) (by decide)
  | stepLimit => exact hcount _ (by simp) (by decide) (by decide)

end Report

/-- the line of the formula in a trace bears the mark of a resolution -/
def Formula.Misleading (formula : String) : Prop :=
  match Formula.read formula with
  | .ok c => "Resolution: ".toList <+: c.text.toList ∨ Report.Bears c.text
  | .error e => Report.Bears formula ∨ Report.Bears e.message

namespace Report

theorem inputEvent_resolution? (k : Dedup) (before : List Clause) (formula : String) :
    (inputEvent k before formula).resolution? = none := by
  rw [inputEvent]
  split
  · rfl
  · split <;> rfl

theorem bears_parseFailed (formula : String) (e : FormulaError) :
    Bears (": " ++ (Trace.Event.parseFailed formula e.message).message) ↔ Bears formula ∨ Bears e.message := by
  have hhead : e.message.toList.head? ≠ some 'R' := by
    cases e with
    | empty => decide
    | emptyOperand text =>
      show ("empty operand in '" ++ text ++ "'").toList.head? ≠ some 'R'
      simp
    | manyImplications text count =>
      show ("expected a single implication, found " ++ Nat.repr count ++ " in '" ++ text ++ "'").toList.head? ≠ some 'R'
      simp
  have hmessage : (Trace.Event.parseFailed formula e.message).message =
      "Failed to parse formula '" ++ (formula ++ ("'" ++ (": " ++ e.message))) := by
    show "Failed to parse formula '" ++ formula ++ ("'" ++ ": ") ++ e.message = _
    simp only [String.append_assoc]
  rw [hmessage, bears_heading (by simp) (by decide), ← bears_colon hhead, Bears, String.toList_append,
    String.toList_append]
  exact Text.infix_append_cons (by decide) (by decide)

theorem bears_inputEvent_iff (k : Dedup) (before : List Clause) (formula : String) :
    Bears (": " ++ (inputEvent k before formula).message) ↔ Formula.Misleading formula := by
  have hadded (text : String) : Bears (": " ++ (Trace.Event.clauseAdded text).message) ↔ Bears (": " ++ text) := by
    show Bears (": " ++ ("Added clause" ++ ": " ++ text)) ↔ _
    rw [String.append_assoc, bears_heading (by simp) (by decide)]
  have hrepeated (text : String) :
      Bears (": " ++ (Trace.Event.duplicateClause text).message) ↔ Bears (": " ++ text) := by
    show Bears (": " ++ ("Duplicate clause ignored" ++ ": " ++ text)) ↔ _
    rw [String.append_assoc, bears_heading (by simp) (by decide)]
  unfold inputEvent Formula.Misleading
  cases Formula.read formula with
  | error e => exact bears_parseFailed formula e
  | ok c =>
    simp only [← bears_colon_iff]
    split
    · exact hrepeated c.text
    · exact hadded c.text

/-! ## Lengths -/

/-- the verdict, then the steps under a heading and numbered from 1 if there are any -/
def restatement (proved : Bool) (steps : List String) : String :=
  "\n".intercalate (verdictSentence proved ::
    if steps.isEmpty then []
    else "Derivation:" :: (steps.zipIdx 1).map fun (step, n) => "  " ++ Nat.repr n ++ ". " ++ step)

theorem intercalate_feed (first : String) (lines : List String) :
    "\n".intercalate (first :: lines) = first ++ String.join (lines.map ("\n" ++ ·)) := by
  induction lines generalizing first with
  | nil => simp
  | cons line lines ih => rw [String.intercalate_cons_cons, ih, List.map_cons, String.join_cons, String.append_assoc,
      String.append_assoc]

/-- an explanation restates the steps that it finds on the lines -/
theorem explain_eq (request : ExplanationRequest) :
    explain request = restatement request.proved (request.trace.filterMap resolutionOf?) := by
  have hline (n : Nat) (step : String) :
      "\n  " ++ Nat.repr n ++ ". " ++ step = "\n" ++ ("  " ++ Nat.repr n ++ ". " ++ step) := by
    show "\n" ++ "  " ++ Nat.repr n ++ ". " ++ step = _
    simp only [String.append_assoc]
  rw [explain, restatement, intercalate_feed]
  split
  · rfl
  · simp only [List.map_cons, String.join_cons, List.map_map, Function.comp_def, hline]
    rfl

theorem length_numbered (steps : List String) (start : Nat) :
    (String.join ((steps.zipIdx start).map fun (step, n) => "\n" ++ ("  " ++ Nat.repr n ++ ". " ++ step))).length =
      ((List.range' start steps.length).map fun n => (Nat.repr n).length + 5).sum + (steps.map String.length).sum := by
  induction steps generalizing start with
  | nil => rfl
  | cons step steps ih =>
    have hline : ("\n" ++ ("  " ++ Nat.repr start ++ ". " ++ step)).length =
        (Nat.repr start).length + 5 + step.length := by
      simp only [String.length_append]
      show 1 + (2 + _ + 2 + _) = _
      omega
    simp only [List.zipIdx_cons, List.map_cons, String.join_cons, String.length_append, ih, List.length_cons,
      List.range'_succ, List.sum_cons] at hline ⊢
    omega

theorem length_restatement (proved : Bool) (steps : List String) :
    (restatement proved steps).length = (verdictSentence proved).length + (if steps.isEmpty then 0 else 12) +
      (((List.range' 1 steps.length).map fun n => (Nat.repr n).length + 5).sum + (steps.map String.length).sum) := by
  rw [restatement, intercalate_feed, String.length_append]
  cases steps with
  | nil => rfl
  | cons step steps =>
    have hheading : ("\n" ++ "Derivation:").length = 12 := rfl
    simp only [List.isEmpty_cons, Bool.false_eq_true, if_false]
    rw [← length_numbered, List.map_cons (a := "Derivation:"), String.join_cons, String.length_append, hheading,
      List.map_map, Nat.add_assoc]
    rfl

/-- a restatement gets longer with every step -/
theorem length_restatement_lt (proved : Bool) {shown told : List String} (hsub : shown.Sublist told)
    (hlt : shown.length < told.length) : (restatement proved shown).length < (restatement proved told).length := by
  have hheading : (if shown.isEmpty then 0 else 12) ≤ (if told.isEmpty then 0 else 12) := by
    cases told with
    | nil => simp at hlt
    | cons => cases shown <;> simp
  have hnumbers : ((List.range' 1 shown.length).map fun n => (Nat.repr n).length + 5).sum <
      ((List.range' 1 told.length).map fun n => (Nat.repr n).length + 5).sum := by
    have hrange : (List.range' 1 (shown.length + 1)).Sublist (List.range' 1 told.length) :=
      List.range'_sublist_right.2 hlt
    refine lt_of_lt_of_le ?_ ((hrange.map _).sum_le_sum fun _ _ => Nat.zero_le _)
    simp [List.range'_concat]
  have htexts : (shown.map String.length).sum ≤ (told.map String.length).sum :=
    (hsub.map _).sum_le_sum fun _ _ => Nat.zero_le _
  rw [length_restatement, length_restatement]
  omega

/-! ## Faithful explanations -/

section Selection

variable {α β : Type} {f g : α → Option β} {xs : List α}

/-- one selection is part of another that agrees with it wherever it selects -/
theorem filterMap_sublist_of_agree (h : ∀ a b, g a = some b → f a = some b) :
    (xs.filterMap g).Sublist (xs.filterMap f) := by
  induction xs with
  | nil => exact .slnil
  | cons x xs ih =>
    cases hg : g x with
    | none =>
      rw [List.filterMap_cons_none hg]
      exact ih.trans ((List.sublist_cons_self x xs).filterMap f)
    | some b =>
      rw [List.filterMap_cons_some hg, List.filterMap_cons_some (h x b hg)]
      exact ih.cons_cons b

theorem length_filterMap_lt_of_agree (h : ∀ a b, g a = some b → f a = some b) {x : α} (hx : x ∈ xs)
    (hg : g x = none) (hf : f x ≠ none) : (xs.filterMap g).length < (xs.filterMap f).length := by
  obtain ⟨before, after, rfl⟩ := List.append_of_mem hx
  obtain ⟨b, hb⟩ := Option.ne_none_iff_exists'.1 hf
  have hbefore : (before.filterMap g).Sublist (before.filterMap f) := filterMap_sublist_of_agree h
  have hafter : (after.filterMap g).Sublist (after.filterMap f) := filterMap_sublist_of_agree h
  rw [List.filterMap_append, List.filterMap_append, List.filterMap_cons_none hg, List.filterMap_cons_some hb,
    List.length_append, List.length_append, List.length_cons]
  exact Nat.add_lt_add_of_le_of_lt hbefore.length_le (Nat.lt_succ_of_le hafter.length_le)

end Selection

/-- the explanation made from the lines of a trace restates its resolutions exactly when no other line bears the mark -/
theorem explain_lines_iff (t : Trace) (text : String) (proved : Bool) :
    explain ⟨text, t.lines, proved⟩ = restatement proved (t.events.filterMap Trace.Event.resolution?) ↔
      ∀ e ∈ t.events, e.resolution? = none → ¬ Bears (": " ++ e.message) := by
  have hagree : ∀ s b, (Trace.Event.resolution? ∘ Trace.Step.event) s = some b →
      (resolutionOf? ∘ Trace.Step.line) s = some b := fun s b h => resolutionOf?_line h
  rw [explain_eq, Trace.lines, Trace.events, List.filterMap_map, List.filterMap_map, List.forall_mem_map]
  constructor
  · intro h s hs hnone hbears
    have hfound : resolutionOf? s.line ≠ none := by rwa [Ne, resolutionOf?_eq_none, not_not, bears_line]
    have hlt := length_restatement_lt proved (filterMap_sublist_of_agree hagree)
      (length_filterMap_lt_of_agree hagree hs hnone hfound)
    exact absurd (congrArg String.length h) hlt.ne'
  · intro h
    congr 1
    refine List.filterMap_congr fun s hs => ?_
    cases hevent : s.event.resolution? with
    | some step => rw [Function.comp_apply, Function.comp_apply, hevent, resolutionOf?_line hevent]
    | none =>
      rw [Function.comp_apply, Function.comp_apply, hevent, resolutionOf?_eq_none, bears_line]
      exact h s hs hevent

end Report

/-- the verdict of an outcome and the resolutions of its trace, numbered from 1 -/
def Outcome.restatement (o : Outcome) : String :=
  Report.restatement o.proved (o.trace.events.filterMap Trace.Event.resolution?)

namespace Report

/-- only the lines of misleading formulas bear the mark without a resolution -/
theorem not_bears_events_iff (settings : Settings) (formulas : List String) :
    (∀ e ∈ (Search.prove settings formulas).outcome.trace.events, e.resolution? = none → ¬ Bears (": " ++ e.message)) ↔
      ∀ f ∈ formulas, ¬ Formula.Misleading f := by
  obtain ⟨resolutions, hevents, hform⟩ := Search.prove_events settings formulas
  rw [hevents]
  constructor
  · intro h f hf
    obtain ⟨i, hi, rfl⟩ := List.getElem_of_mem hf
    have hmem : inputEvent settings.dedup (Formula.readAll (formulas.take i)) formulas[i] ∈
        inputEvents settings.dedup formulas := List.mem_mapIdx.2 ⟨i, hi, rfl⟩
    rw [← bears_inputEvent_iff settings.dedup (Formula.readAll (formulas.take i))]
    exact h _ (List.mem_append_left _ (List.mem_append_left _ hmem)) (inputEvent_resolution? _ _ _)
  · intro h e he hnone
    rcases List.mem_append.1 he with he | he
    · rcases List.mem_append.1 he with he | he
      · obtain ⟨i, hi, rfl⟩ := List.mem_mapIdx.1 he
        rw [bears_inputEvent_iff]
        exact h _ (List.getElem_mem hi)
      · obtain ⟨left, right, resolvent, rfl⟩ := hform e he
        cases hnone
    · rw [List.mem_singleton.1 he]
      exact not_bears_lastEvent _ _

theorem make_plain (settings : Settings) (text : String) :
    ∃ log, make plain settings text = (.ok ⟨formalize text, (Search.prove settings (formalize text)).outcome,
      explain ⟨text, (Search.prove settings (formalize text)).outcome.trace.lines,
        (Search.prove settings (formalize text)).outcome.proved⟩⟩, log) := by
  simp only [make, plain, Job.run, Prod.mk.injEq, true_and, exists_eq']

/-- **Explanations restate derivations, unless a formula misleads.** For all settings and every text there is a report, and
its explanation is the verdict followed by the numbered resolutions of its trace exactly when no formula of the text puts
the mark of a resolution on its own line. -/
theorem explanation_faithful_iff (settings : Settings) (text : String) :
    ∃ report log, make plain settings text = (.ok report, log) ∧ report.formulas = formalize text ∧
      report.outcome = (Search.prove settings (formalize text)).outcome ∧
      (report.explanation = report.outcome.restatement ↔ ∀ f ∈ report.formulas, ¬ Formula.Misleading f) := by
  obtain ⟨log, hmake⟩ := make_plain settings text
  refine ⟨_, log, hmake, ?_⟩
  dsimp only
  rw [Outcome.restatement, explain_lines_iff, not_bears_events_iff]
  exact ⟨rfl, rfl, Iff.rfl⟩

/-- a proposition that is named by the text of a resolution is taken for one -/
theorem explanation_misled : ∃ report log, make plain {} "P: Resolution: Q" = (.ok report, log) ∧
    report.outcome.trace.events.filterMap Trace.Event.resolution? = [] ∧
    report.explanation = report.outcome.restatement ++ "\nDerivation:\n  1. Q" := by
  obtain ⟨log, hmake⟩ := make_plain {} "P: Resolution: Q"
  refine ⟨_, log, hmake, ?_⟩
  decide +kernel

end Report

end Refutation
