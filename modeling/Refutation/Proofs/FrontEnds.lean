/-
Formulas and the ways in which they reach a search.

Formulas are tried at once, collected by calls on a session, entered in a console line by line, or written one a line in the
text of a report. On the way a session trims them, a console trims the line first, and a report cuts its text into lines,
trims these, cuts them at `;` and trims again. For formulas that mean the same to all of them (`Formula.Enterable`) a
session and a console end up with the trimmed formulas (`after_enter`), and so does a report (`formalize_intercalate`). An
attempt depends on readable formulas only through their clauses, so trimming does not show in it (`prove_stored`), and all
the ways give one outcome (`front_ends_agree`).
-/
import Refutation.Proofs.SessionRuns
import Refutation.Proofs.Shapes
import Refutation.Report

namespace Refutation

/-- The formula can be read, and it is one formula in every way of entering it: no command and no comment, on one line and
not cut in pieces. -/
structure Formula.Enterable (f : String) : Prop where
  read : ∃ clause, Formula.read f = .ok clause
  command : (Text.trim f.toList).head? ≠ some ':'
  comment : (Text.trim f.toList).head? ≠ some '#'
  line : '\n' ∉ f.toList
  piece : ';' ∉ f.toList

instance (f : String) : Decidable (∃ clause, Formula.read f = .ok clause) :=
  match h : Formula.read f with
  | .ok clause => isTrue ⟨clause, rfl⟩
  | .error _ => isFalse (by simp)

instance (f : String) : Decidable (Formula.Enterable f) :=
  decidable_of_iff ((∃ clause, Formula.read f = .ok clause) ∧ (Text.trim f.toList).head? ≠ some ':' ∧
      (Text.trim f.toList).head? ≠ some '#' ∧ '\n' ∉ f.toList ∧ ';' ∉ f.toList)
    ⟨fun ⟨hread, hcommand, hcomment, hline, hpiece⟩ => ⟨hread, hcommand, hcomment, hline, hpiece⟩,
      fun h => ⟨h.read, h.command, h.comment, h.line, h.piece⟩⟩

/-! ## Trimmed formulas -/

namespace Session

theorem stored_stored (f : String) : stored (stored f) = stored f := by
  rw [stored, trim_stored, String.ofList_toList]

theorem read_stored (f : String) : Formula.read (stored f) = Formula.read f := by
  rw [Formula.read, stored, String.toList_ofList, Formula.readClause_trim, Formula.read]

end Session

theorem Formula.trim_ne_nil_of_read {f : String} {clause : Clause} (h : Formula.read f = .ok clause) :
    Text.trim f.toList ≠ [] := by
  intro hblank
  rw [read, readClause_eq, if_pos (by simp [hblank])] at h
  cases h

namespace Search

/-- readable formulas may be trimmed before an attempt -/
theorem prove_stored (settings : Settings) {formulas : List String}
    (hread : ∀ f ∈ formulas, ∃ clause, Formula.read f = .ok clause) :
    prove settings (formulas.map Session.stored) = prove settings formulas := by
  have hinput : ofFormulas settings (formulas.map Session.stored) = ofFormulas settings formulas := by
    rw [ofFormulas, List.foldl_map, ofFormulas]
    refine List.foldl_ext _ _ _ fun s f hf => ?_
    obtain ⟨clause, hclause⟩ := hread f hf
    simp only [State.addFormula, Session.read_stored, hclause]
  rw [prove, hinput, prove]

end Search

/-! ## Sessions and consoles -/

namespace Console

variable {c c' : Console} {answer : Except Error Answer}

theorem Effect.formula {formula : String} {clause : Clause} (h : Effect c (.formula formula) answer c')
    (hread : Formula.read (Session.stored formula) = .ok clause) :
    c' = { c with session := { c.session with formulas := c.session.formulas ++ [Session.stored formula] } } := by
  cases h with
  | added _ _ => rfl
  | refused hrefused => exact absurd hread (hrefused clause)
  | unchanged _ _ hformula => exact absurd rfl (hformula formula)
  | set hset _ => cases hset

/-- **Entering formulas** in any one way collects them trimmed and in order. -/
theorem after_enter (settings : Settings) {enter : String → Call} {formulas : List String}
    (henter : ∀ f ∈ formulas, ∃ g, (enter f).command = .formula g ∧ Session.stored g = Session.stored f)
    (hread : ∀ f ∈ formulas, ∃ clause, Formula.read f = .ok clause) :
    after settings (formulas.map enter) = { session := { formulas := formulas.map Session.stored, settings } } := by
  induction formulas using List.reverseRecOn with
  | nil => rfl
  | append_singleton formulas f ih =>
    have ih := ih (fun f hf => henter f (List.mem_append_left _ hf)) fun f hf => hread f (List.mem_append_left _ hf)
    obtain ⟨g, hcommand, hg⟩ := henter f (by simp)
    obtain ⟨clause, hclause⟩ := hread f (by simp)
    have heffect := perform_effect (after settings (formulas.map enter)) (enter f)
    rw [hcommand] at heffect
    have hstored : Formula.read (Session.stored g) = .ok clause := by rw [hg, Session.read_stored, hclause]
    have hstep := heffect.formula hstored
    rw [List.map_append, List.map_singleton, after_concat, hstep, ih, hg, List.map_append, List.map_singleton]

/-- a line that is no command is a formula -/
theorem ofLine_formula {f : String} (h : Formula.Enterable f) : Command.ofLine f = .formula (Session.stored f) := by
  obtain ⟨clause, hclause⟩ := h.read
  have hne := Formula.trim_ne_nil_of_read hclause
  have hcommand := h.command
  rw [Command.ofLine, Session.stored]
  generalize Text.trim f.toList = text at hne hcommand
  split
  · exact absurd rfl hne
  · exact absurd rfl hcommand
  · rfl

end Console

/-! ## Reports -/

namespace Text

/-- trimming takes the carriage return at the end of a line away as well -/
theorem trim_dropReturn (line : List Char) : trim (dropReturn '\r' line) = trim line := by
  rw [dropReturn]
  split_ifs with hreturn
  · have hblank : Blanks ['\r'] := by decide
    have hline : line = line.dropLast ++ ['\r'] := by
      have hlast : line.getLast? = some '\r' := by simpa using hreturn
      exact (List.dropLast_append_getLast? _ hlast).symm
    conv_rhs => rw [hline, trim_append_blanks hblank]
  · rfl

/-- texts joined by line feeds are lines again, up to blanks at their ends -/
theorem map_trim_lines {texts : List (List Char)} (hfeed : ∀ text ∈ texts, '\n' ∉ text) (hne : ∀ text ∈ texts, text ≠ []) :
    (lines (['\n'].intercalate texts)).map trim = texts.map trim := by
  rcases List.eq_nil_or_concat texts with rfl | ⟨texts, last, rfl⟩
  · rfl
  · rw [List.concat_eq_append] at hfeed hne ⊢
    have hlast : last ≠ [] := hne last (by simp)
    have hsplit : (['\n'].intercalate (texts ++ [last])).splitOn '\n' = texts ++ [last] :=
      List.splitOn_intercalate '\n' hfeed (by simp)
    simp only [lines, linesAt, hsplit, List.dropLast_concat, List.getLastD_concat]
    rw [if_neg (by simpa using hlast), List.map_append, List.map_append, List.map_map]
    congr 1
    exact List.map_congr_left fun text _ => trim_dropReturn text

end Text

namespace Report

/-- trimmed lines that are neither blank nor comments, and are not cut in pieces, are the entries of a text -/
theorem entries_eq (texts : List (List Char)) (htrim : ∀ text ∈ texts, Text.trim text = text)
    (hne : ∀ text ∈ texts, text ≠ []) (hcomment : ∀ text ∈ texts, text.head? ≠ some '#')
    (hpiece : ∀ text ∈ texts, ';' ∉ text) :
    (((texts.filter (·.head? != some '#')).flatMap (·.splitOn ';')).map Text.trim).filter (!·.isEmpty) = texts := by
  have hcomments : texts.filter (·.head? != some '#') = texts :=
    List.filter_eq_self.2 fun text htext => bne_iff_ne.2 (hcomment text htext)
  have hpieces : texts.flatMap (·.splitOn ';') = texts := by
    rw [List.flatMap_congr fun text htext => List.splitOn_eq_singleton (hpiece text htext)]
    exact List.flatMap_singleton' texts
  have htrimmed : texts.map Text.trim = texts := (List.map_congr_left htrim).trans (List.map_id texts)
  have hblank : texts.filter (!·.isEmpty) = texts :=
    List.filter_eq_self.2 fun text htext => by simpa using hne text htext
  rw [hcomments, hpieces, htrimmed, hblank]

/-- **A report finds the formulas** that its text has one a line, and trims them. -/
theorem formalize_intercalate {formulas : List String} (h : ∀ f ∈ formulas, Formula.Enterable f) :
    formalize (String.intercalate "\n" formulas) = formulas.map Session.stored := by
  have hne : ∀ f ∈ formulas, Text.trim f.toList ≠ [] := fun f hf => by
    obtain ⟨clause, hclause⟩ := (h f hf).read
    exact Formula.trim_ne_nil_of_read hclause
  have hlines : (Text.lines (String.intercalate "\n" formulas).toList).map Text.trim =
      formulas.map fun f => Text.trim f.toList := by
    have hfeed : "\n".toList = ['\n'] := rfl
    rw [String.toList_intercalate, hfeed, Text.map_trim_lines, List.map_map]
    · rfl
    · exact List.forall_mem_map.2 fun f hf => (h f hf).line
    · refine List.forall_mem_map.2 fun f hf hnil => hne f hf ?_
      rw [hnil]
      rfl
  have hentries := entries_eq (formulas.map fun f => Text.trim f.toList)
    (List.forall_mem_map.2 fun f _ => Text.trim_trim _) (List.forall_mem_map.2 hne)
    (List.forall_mem_map.2 fun f hf => (h f hf).comment)
    (List.forall_mem_map.2 fun f hf hmem => (h f hf).piece ((Text.trim_sublist _).subset hmem))
  simp only [formalize, hlines, hentries, List.map_map]
  rfl

end Report

/-! ## All ways -/

namespace Console

/-- **All ways of entering formulas give one outcome,** whatever the settings: trying the formulas at once; adding them to a
new session and proving; entering them in a new console, line by line, and then `:prove`, which shows the text of the
outcome; and the report on the text that has them one a line. -/
theorem front_ends_agree (settings : Settings) (reader : FileReader) (formulas : List String)
    (h : ∀ f ∈ formulas, Formula.Enterable f) :
    let o := (Search.prove settings formulas).outcome
    let session := (after settings (formulas.map .add)).perform .prove
    let console := (after settings (formulas.map (.line reader))).perform (.line reader ":prove")
    (session.1 = .ok (.outcome o) ∧ session.2.session.last = some o) ∧
      (console.1 = .ok (.shown o.text) ∧ console.2.session.last = some o) ∧
      ∃ report log, Report.make Report.plain settings (String.intercalate "\n" formulas) = (.ok report, log) ∧
        report.outcome = o := by
  have hread : ∀ f ∈ formulas, ∃ clause, Formula.read f = .ok clause := fun f hf => (h f hf).read
  have houtcome : (Search.prove settings (formulas.map Session.stored)).outcome =
      (Search.prove settings formulas).outcome := by
    rw [Search.prove_stored settings hread]
  have hadded : after settings (formulas.map .add) =
      { session := { formulas := formulas.map Session.stored, settings } } :=
    after_enter settings (fun f _ => ⟨f, rfl, rfl⟩) hread
  have hentered : after settings (formulas.map (.line reader)) =
      { session := { formulas := formulas.map Session.stored, settings } } :=
    after_enter settings (fun f hf => ⟨_, ofLine_formula (h f hf), Session.stored_stored f⟩) hread
  have hprove : Command.ofLine ":prove" = .prove := by decide +kernel
  intro o session console
  refine ⟨⟨?_, ?_⟩, ⟨?_, ?_⟩, ?_⟩
  · simp only [session, hadded, perform, Session.prove, Session.attempt, houtcome, o]
  · simp only [session, hadded, perform, Session.prove, Session.attempt, houtcome, o]
  · simp only [console, hentered, perform, Console.line, hprove, exec, Session.prove, Session.attempt, houtcome, o]
    rfl
  · simp only [console, hentered, perform, Console.line, hprove, exec, Session.prove, Session.attempt, houtcome, o]
  · refine ⟨_, _, rfl, ?_⟩
    simp only [Job.run, Report.formalize_intercalate h, houtcome, o]

/-- formulas with blanks around them, one that is a proposition named by its text and one that is repeated -/
def paddedFormulas : List String := ["  ∀x (P(x) → Q(x))\t", "P(A) \r", "odd: text", "¬Q(A)", "P(A)"]

theorem paddedFormulas_agree :
    (∀ f ∈ paddedFormulas, Formula.Enterable f) ∧
      ((after {} (paddedFormulas.map .add)).perform .prove).2.session.last =
        some (Search.prove {} paddedFormulas).outcome := by
  have h : ∀ f ∈ paddedFormulas, Formula.Enterable f := by decide +kernel
  exact ⟨h, (front_ends_agree {} (Directory.read {}) paddedFormulas h).1.2⟩

end Console

end Refutation
