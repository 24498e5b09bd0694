/-
Sessions and consoles under every sequence of calls.

A session is driven by calls on it or, through a console, by lines. `Console.after settings calls` is a new console after
the calls, direct ones and lines in any order; a call that reads a file brings the reader that it finds the file with.

All that a call can do is listed once, by the command that it stands for (`perform_effect`): nothing, refuse a formula,
store a formula and announce its clause, put valid settings in place of the old ones, drop the formulas and the outcome, keep
an outcome, leave. What calls keep is read off this list (`Effect.sound`, `Effect.finished`), and so is what they leave
behind: the last outcome (`last_eq_some`) and the stored formulas, which are those that were announced since the last clearing
(`announced`, `stored_of_announced`). An attempt shows the texts that were announced, one for each formula, and rejects
nothing (`after_accountable`).
-/
import Refutation.Console
import Refutation.Proofs.Tallies
import Refutation.Proofs.Texts

namespace Refutation

/-! ## Actions of a session -/

namespace Settings

variable {s t : Settings}

theorem validate_eq_ok : s.validate = .ok t ↔ 1 ≤ s.maxSteps ∧ t = s := by
  rw [validate]
  split_ifs with hzero
  · simp [hzero]
  · simp only [Except.ok.injEq, eq_comm (a := s), Nat.one_le_iff_ne_zero]
    exact ⟨fun h => ⟨hzero, h⟩, fun h => h.2⟩

theorem budget_of_validate (h : s.validate = .ok t) : 1 ≤ t.maxSteps := by
  obtain ⟨hbudget, rfl⟩ := validate_eq_ok.1 h
  exact hbudget

theorem set_eq_ok {key value : String} : s.set key value = .ok t ↔ s.update key value = .ok t ∧ 1 ≤ t.maxSteps := by
  rw [set]
  cases s.update key value with
  | error e => simp
  | ok u =>
    simp only [validate_eq_ok, Except.ok.injEq]
    constructor
    · rintro ⟨hpositive, rfl⟩
      exact ⟨rfl, hpositive⟩
    · rintro ⟨rfl, hpositive⟩
      exact ⟨hpositive, rfl⟩

theorem budget_of_set {key value : String} (h : s.set key value = .ok t) : 1 ≤ t.maxSteps :=
  (set_eq_ok.1 h).2

theorem budget_of_ofFile {reader : FileReader} {path : String} (h : ofFile reader path = .ok t) : 1 ≤ t.maxSteps := by
  rw [ofFile] at h
  split at h
  · rw [ofDocument] at h
    split at h
    · exact budget_of_validate h
    · cases h
  · cases h

end Settings

namespace Session

/-- a formula as a session stores it -/
def stored (formula : String) : String := String.ofList (Text.trim formula.toList)

theorem trim_stored (formula : String) : Text.trim (stored formula).toList = (stored formula).toList := by
  rw [stored, String.toList_ofList, Text.trim_trim]

theorem add_cases (s : Session) (formula : String) :
    (∃ fault e, Formula.read (stored formula) = .error fault ∧ s.add formula = (.error e, s)) ∨
      ∃ clause, Formula.read (stored formula) = .ok clause ∧
        s.add formula = (.ok (.formulaAdded (s.formulas.length + 1) clause.text),
          { s with formulas := s.formulas ++ [stored formula] }) := by
  unfold add stored
  cases hread : Formula.read (String.ofList (Text.trim formula.toList)) with
  | error fault => exact Or.inl ⟨fault, .parse (stored formula) fault, rfl, by simp only [hread, stored]⟩
  | ok clause => exact Or.inr ⟨clause, rfl, by simp only [hread]⟩

/-- the index and the clause text can be read off the text of the reply -/
theorem Reply.formulaAdded_text_inj {i j : Nat} {t u : String}
    (h : (Reply.formulaAdded i t).text = (Reply.formulaAdded j u).text) : i = j ∧ t = u := by
  have htext (n : Nat) (clause : String) :
      (Reply.formulaAdded n clause).text.toList = '[' :: (Nat.toDigits 10 n ++ ']' :: ' ' :: clause.toList) := by
    show ("[" ++ Nat.repr n ++ "] " ++ clause).toList = _
    simp
  have hafter := congrArg String.toList h
  rw [htext, htext] at hafter
  have hcut (n : Nat) (rest : List Char) := Text.span_mark (Text.notMem_toDigits (c := ']') rfl n) rest
  have hdigits := congrArg (List.takeWhile (· != ']')) (List.cons.inj hafter).2
  have hrest := congrArg (List.dropWhile (· != ']')) (List.cons.inj hafter).2
  rw [(hcut _ _).1, (hcut _ _).1] at hdigits
  rw [(hcut _ _).2, (hcut _ _).2] at hrest
  constructor
  · rw [← Nat.ofDigitChars_ten_toDigits (n := i), hdigits, Nat.ofDigitChars_ten_toDigits]
  · exact String.toList_inj.1 (List.cons.inj (List.cons.inj hrest).2).2

theorem setOption_cases (s : Session) (key value : String) :
    (∃ e, s.setOption key value = (.error e, s)) ∨
      ∃ r settings, 1 ≤ settings.maxSteps ∧ s.setOption key value = (.ok r, { s with settings }) := by
  rw [setOption]
  cases hset : s.settings.set key value with
  | error e => exact Or.inl ⟨_, rfl⟩
  | ok settings => exact Or.inr ⟨_, settings, Settings.budget_of_set hset, rfl⟩

theorem load_cases (reader : FileReader) (s : Session) (path : String) :
    (∃ e, s.load reader path = (.error e, s)) ∨
      ∃ r settings, 1 ≤ settings.maxSteps ∧ s.load reader path = (.ok r, { s with settings }) := by
  rw [load]
  cases hload : Settings.ofFile reader path with
  | error e => exact Or.inl ⟨_, rfl⟩
  | ok settings => exact Or.inr ⟨_, settings, Settings.budget_of_ofFile hload, rfl⟩

end Session

namespace Console

/-! ## Calls -/

/-- a call on the session of a console, or a line for the console -/
inductive Call where
  | add (formula : String)
  | setOption (key value : String)
  | load (reader : FileReader) (path : String)
  | clear
  | prove
  | line (reader : FileReader) (text : String)

/-- the command that a call stands for -/
def Call.command : Call → Command
  | .add formula => .formula formula
  | .setOption key value => .set key value
  | .load _ path => .load path
  | .clear => .clear
  | .prove => .prove
  | .line _ text => Command.ofLine text

/-- what a call returns: the reply of an action, an outcome, or the text to show for a line -/
inductive Answer where
  | reply (reply : Session.Reply)
  | outcome (outcome : Outcome)
  | shown (text : String)

/-- the answer says that the formula stored under the index has the clause with the text -/
def Answer.Announces : Answer → Nat → String → Prop
  | .reply r, index, clause => r = .formulaAdded index clause
  | .shown text, index, clause => text = (Session.Reply.formulaAdded index clause).text
  | .outcome _, _, _ => False

/-- an answer announces at most one formula -/
theorem Answer.Announces.unique {a : Answer} {i j : Nat} {t u : String} (h : a.Announces i t) (h' : a.Announces j u) :
    i = j ∧ t = u := by
  cases a with
  | reply r => exact Session.Reply.formulaAdded.inj (h.symm.trans h')
  | shown text => exact Session.Reply.formulaAdded_text_inj (h.symm.trans h')
  | outcome o => exact h.elim

/-- the answer to an action of the session, and the console after it -/
def answered (c : Console) (present : Session.Reply → Answer) :
    Except Session.Error Session.Reply × Session → Except Error Answer × Console
  | (.ok r, s) => (.ok (present r), { c with session := s })
  | (.error e, s) => (.error (.session e), { c with session := s })

/-- makes a call -/
def perform (c : Console) : Call → Except Error Answer × Console
  | .add formula => c.answered .reply (c.session.add formula)
  | .setOption key value => c.answered .reply (c.session.setOption key value)
  | .load reader path => c.answered .reply (c.session.load reader path)
  | .clear => (.ok (.reply c.session.clear.1), { c with session := c.session.clear.2 })
  | .prove => (.ok (.outcome c.session.prove.1), { c with session := c.session.prove.2 })
  | .line reader text => ((c.line reader text).1.map .shown, (c.line reader text).2)

/-- a new console with the settings after the calls, one after the other -/
def after (settings : Settings) (calls : List Call) : Console :=
  calls.foldl (fun c call => (c.perform call).2) { session := { settings } }

theorem after_concat (settings : Settings) (calls : List Call) (call : Call) :
    after settings (calls ++ [call]) = ((after settings calls).perform call).2 := by
  rw [after, List.foldl_append]
  rfl

/-- `event` took place in one of the calls, and all calls after it are `quiet` -/
def Since (quiet : Call → Prop) (event : List Call → Call → Prop) (calls : List Call) : Prop :=
  ∃ before call later, calls = before ++ call :: later ∧ event before call ∧ ∀ l ∈ later, quiet l

theorem not_since_nil {quiet : Call → Prop} {event : List Call → Call → Prop} : ¬Since quiet event [] := by
  rintro ⟨before, call, later, hcalls, -⟩
  simp at hcalls

theorem since_concat {quiet : Call → Prop} {event : List Call → Call → Prop} {calls : List Call} {call : Call} :
    Since quiet event (calls ++ [call]) ↔ event calls call ∨ (quiet call ∧ Since quiet event calls) := by
  constructor
  · rintro ⟨before, other, later, hcalls, hevent, hlater⟩
    -- the call that matters is the last one, or the last one is among those after it
    rcases List.eq_nil_or_concat later with rfl | ⟨later, last, rfl⟩
    · obtain ⟨rfl, hlast⟩ := List.append_inj' hcalls rfl
      obtain rfl : call = other := by simpa using hlast
      exact Or.inl hevent
    · rw [List.concat_eq_append, ← List.cons_append, ← List.append_assoc] at hcalls
      obtain ⟨rfl, hlast⟩ := List.append_inj' hcalls rfl
      obtain rfl : call = last := by simpa using hlast
      exact Or.inr ⟨hlater call (by simp), before, other, later, rfl, hevent, fun l hl => hlater l (by simp [hl])⟩
  · rintro (hevent | ⟨hquiet, before, other, later, rfl, hevent, hlater⟩)
    · exact ⟨calls, call, [], rfl, hevent, by simp⟩
    · refine ⟨before, other, later ++ [call], by simp, hevent, fun l hl => ?_⟩
      rcases List.mem_append.1 hl with hl | hl
      · exact hlater l hl
      · rwa [List.mem_singleton.1 hl]

/-! ## What a call can do -/

/-- the command replaces settings -/
def Command.sets : Command → Bool
  | .set _ _ => true
  | .load _ => true
  | _ => false

/-- All that a command can do to a console, with the answer that it gives. A formula is stored whenever it can be read, and
refused otherwise. -/
inductive Effect (c : Console) : Command → Except Error Answer → Console → Prop where
  | unchanged {command : Command} {answer : Except Error Answer} (hprove : command ≠ .prove) (hclear : command ≠ .clear)
      (hformula : ∀ formula, command ≠ .formula formula) : Effect c command answer c
  | refused {formula : String} {e : Error} (hread : ∀ clause, Formula.read (Session.stored formula) ≠ .ok clause) :
      Effect c (.formula formula) (.error e) c
  | added {formula : String} {clause : Clause} {answer : Answer}
      (hread : Formula.read (Session.stored formula) = .ok clause)
      (hanswer : answer.Announces (c.session.formulas.length + 1) clause.text) :
      Effect c (.formula formula) (.ok answer)
        { c with session := { c.session with formulas := c.session.formulas ++ [Session.stored formula] } }
  | set {command : Command} {answer : Answer} {settings : Settings} (hset : command.sets = true)
      (hbudget : 1 ≤ settings.maxSteps) : Effect c command (.ok answer) { c with session := { c.session with settings } }
  | cleared {answer : Answer} :
      Effect c .clear (.ok answer) { c with session := { c.session with formulas := [], last := none } }
  | proved {answer : Answer} :
      Effect c .prove (.ok answer) { c with session := { c.session with last := some c.session.attempt.outcome } }
  | left {answer : Answer} : Effect c .quit (.ok answer) { c with finished := true }

variable {c c' : Console} {command : Command} {answer : Except Error Answer}

theorem add_effect (c : Console) (formula : String) {present : Session.Reply → Answer}
    (hpresent : ∀ index clause, (present (.formulaAdded index clause)).Announces index clause) :
    Effect c (.formula formula) (c.answered present (c.session.add formula)).1
      (c.answered present (c.session.add formula)).2 := by
  rcases c.session.add_cases formula with ⟨fault, e, hread, h⟩ | ⟨clause, hread, h⟩
  · rw [h]
    exact .refused (by simp [hread])
  · rw [h]
    exact .added hread (hpresent _ _)

theorem set_effect (present : Session.Reply → Answer) (hset : command.sets = true)
    {result : Except Session.Error Session.Reply × Session}
    (hresult : (∃ e, result = (.error e, c.session)) ∨
      ∃ r settings, 1 ≤ settings.maxSteps ∧ result = (.ok r, { c.session with settings })) :
    Effect c command (c.answered present result).1 (c.answered present result).2 := by
  rcases hresult with ⟨e, rfl⟩ | ⟨r, settings, hbudget, rfl⟩
  · refine .unchanged ?_ ?_ ?_
    · rintro rfl
      cases hset
    · rintro rfl
      cases hset
    · rintro _ rfl
      cases hset
  · exact .set hset hbudget

/-- a line shows the text of the reply -/
theorem map_reply (c : Console) (result : Except Session.Error Session.Reply × Session) :
    (c.reply result).1.map .shown = (c.answered (fun r => .shown r.text) result).1 := by
  obtain ⟨_ | r, s⟩ := result <;> rfl

theorem reply_snd (c : Console) (result : Except Session.Error Session.Reply × Session) :
    (c.reply result).2 = (c.answered (fun r => .shown r.text) result).2 := by
  obtain ⟨_ | r, s⟩ := result <;> rfl

theorem exec_effect (reader : FileReader) (c : Console) (command : Command) :
    Effect c command ((c.exec reader command).1.map .shown) (c.exec reader command).2 := by
  cases command with
  | formula text =>
    rw [exec, map_reply, reply_snd]
    exact add_effect c text fun _ _ => rfl
  | set key value =>
    rw [exec, map_reply, reply_snd]
    exact set_effect _ rfl (c.session.setOption_cases key value)
  | load path =>
    rw [exec, map_reply, reply_snd]
    exact set_effect _ rfl (c.session.load_cases reader path)
  | prove => exact .proved
  | clear => exact .cleared
  | quit => exact .left
  | blank | list | settings | document | help | misused | unknown => exact .unchanged (by simp) (by simp) (by simp)

/-- **All that a call can do,** by the command that it stands for. -/
theorem perform_effect (c : Console) (call : Call) : Effect c call.command (c.perform call).1 (c.perform call).2 := by
  cases call with
  | add formula => exact add_effect c formula fun _ _ => rfl
  | setOption key value => exact set_effect _ rfl (c.session.setOption_cases key value)
  | load reader path => exact set_effect _ rfl (c.session.load_cases reader path)
  | clear => exact .cleared
  | prove => exact .proved
  | line reader text => exact exec_effect reader c (Command.ofLine text)

/-! ## What calls keep -/

/-- the stored formulas are trimmed and can be read, and the step budget is positive -/
structure Sound (c : Console) : Prop where
  trimmed : ∀ f ∈ c.session.formulas, Text.trim f.toList = f.toList
  read : ∀ f ∈ c.session.formulas, ∃ clause, Formula.read f = .ok clause
  budget : 1 ≤ c.session.settings.maxSteps

theorem Effect.sound (h : Effect c command answer c') (hc : c.Sound) : c'.Sound := by
  cases h with
  | unchanged _ _ _ | refused _ => exact hc
  | @added formula clause _ hread _ =>
    refine ⟨fun f hf => ?_, fun f hf => ?_, hc.budget⟩
    · rcases List.mem_append.1 hf with hf | hf
      · exact hc.trimmed f hf
      · rw [List.mem_singleton.1 hf]
        exact Session.trim_stored formula
    · rcases List.mem_append.1 hf with hf | hf
      · exact hc.read f hf
      · rw [List.mem_singleton.1 hf]
        exact ⟨clause, hread⟩
  | set _ hbudget => exact ⟨hc.trimmed, hc.read, hbudget⟩
  | cleared => exact ⟨by simp, by simp, hc.budget⟩
  | proved => exact ⟨hc.trimmed, hc.read, hc.budget⟩
  | left => exact ⟨hc.trimmed, hc.read, hc.budget⟩

theorem after_sound {settings : Settings} (hvalid : 1 ≤ settings.maxSteps) (calls : List Call) :
    (after settings calls).Sound := by
  induction calls using List.reverseRecOn with
  | nil => exact ⟨by simp [after], by simp [after], hvalid⟩
  | append_singleton calls call ih =>
    rw [after_concat]
    exact (perform_effect _ call).sound ih

/-- a failure changes nothing -/
theorem Effect.failed {e : Error} (h : Effect c command (.error e) c') : c' = c := by
  cases h <;> rfl

theorem Effect.finished (h : Effect c command answer c') (hc : c.finished = true) : c'.finished = true := by
  cases h with
  | left => rfl
  | unchanged _ _ _ | refused _ | added _ _ | set _ _ | cleared | proved => exact hc

/-- only clearing drops formulas -/
theorem Effect.formulas_kept (h : Effect c command answer c') (hclear : command ≠ .clear) :
    c.session.formulas <+: c'.session.formulas := by
  cases h with
  | added _ _ => exact List.prefix_append _ _
  | cleared => exact absurd rfl hclear
  | unchanged _ _ _ | refused _ | set _ _ | proved | left => exact List.prefix_rfl

/-- a formula that is not refused is stored last, and the answer announces its clause -/
theorem Effect.entered {formula : String} {a : Answer} (h : Effect c (.formula formula) (.ok a) c') :
    ∃ clause, Formula.read (Session.stored formula) = .ok clause ∧
      a.Announces (c.session.formulas.length + 1) clause.text ∧
      c'.session.formulas = c.session.formulas ++ [Session.stored formula] := by
  cases h with
  | added hread hanswer => exact ⟨_, hread, hanswer, rfl⟩
  | unchanged _ _ hformula => exact absurd rfl (hformula formula)
  | set hset _ => cases hset

/-! ## What calls leave behind -/

/-- only commands for it change the last outcome -/
theorem Effect.last (h : Effect c command answer c') (hprove : command ≠ .prove) (hclear : command ≠ .clear) :
    c'.session.last = c.session.last := by
  cases h with
  | cleared => exact absurd rfl hclear
  | proved => exact absurd rfl hprove
  | unchanged _ _ _ | refused _ | added _ _ | set _ _ | left => rfl

theorem Effect.last_clear (h : Effect c .clear answer c') : c'.session.last = none := by
  cases h with
  | cleared => rfl
  | unchanged _ hclear _ => exact absurd rfl hclear
  | set hset _ => cases hset

theorem Effect.last_prove (h : Effect c .prove answer c') : c'.session.last = some c.session.attempt.outcome := by
  cases h with
  | proved => rfl
  | unchanged hprove _ _ => exact absurd rfl hprove
  | set hset _ => cases hset

/-- what one more call makes of the last outcome -/
theorem last_concat (settings : Settings) (calls : List Call) (call : Call) :
    (after settings (calls ++ [call])).session.last =
      if call.command = .prove then some (after settings calls).session.attempt.outcome
      else if call.command = .clear then none else (after settings calls).session.last := by
  have heffect := perform_effect (after settings calls) call
  rw [after_concat]
  split_ifs with hprove hclear
  · rw [hprove] at heffect
    exact heffect.last_prove
  · rw [hclear] at heffect
    exact heffect.last_clear
  · exact heffect.last hprove hclear

/-- **The last outcome** is that of the last attempt, if nothing has been cleared since, with the settings and formulas of
that moment. -/
theorem last_eq_some (settings : Settings) (calls : List Call) (o : Outcome) :
    (after settings calls).session.last = some o ↔
      Since (fun l => l.command ≠ .prove ∧ l.command ≠ .clear)
        (fun before call => call.command = .prove ∧ o = (after settings before).session.attempt.outcome) calls := by
  induction calls using List.reverseRecOn with
  | nil => exact iff_of_false (by simp [after]) not_since_nil
  | append_singleton calls call ih =>
    rw [last_concat, since_concat, ← ih]
    split_ifs with hprove hclear
    · simp [hprove, eq_comm]
    · simp [hclear]
    · simp [hprove, hclear]

/-- there is a last outcome exactly when an attempt was made and nothing has been cleared since -/
theorem last_isSome (settings : Settings) (calls : List Call) :
    (after settings calls).session.last.isSome = true ↔
      Since (fun l => l.command ≠ .clear) (fun _ call => call.command = .prove) calls := by
  induction calls using List.reverseRecOn with
  | nil => exact iff_of_false (by simp [after]) not_since_nil
  | append_singleton calls call ih =>
    rw [last_concat, since_concat, ← ih]
    split_ifs with hprove hclear
    · simp [hprove]
    · simp [hclear]
    · simp [hprove, hclear]

/-- the call stores the formula under the index and announces its clause with the text -/
def Enters (settings : Settings) (index : Nat) (f text : String) (before : List Call) (call : Call) : Prop :=
  (∃ formula, call.command = .formula formula ∧ f = Session.stored formula) ∧
    ∃ answer, ((after settings before).perform call).1 = .ok answer ∧ answer.Announces index text

/-- **The clause of every stored formula was announced** when the formula was added, after the last clearing. -/
theorem announced (settings : Settings) (calls : List Call) {i : Nat} {f : String}
    (hf : (after settings calls).session.formulas[i]? = some f) :
    ∃ clause, Formula.read f = .ok clause ∧
      Since (fun l => l.command ≠ .clear) (Enters settings (i + 1) f clause.text) calls := by
  induction calls using List.reverseRecOn with
  | nil => simp [after] at hf
  | append_singleton calls call ih =>
    have heffect := perform_effect (after settings calls) call
    have hold : (after settings calls).session.formulas[i]? = some f → call.command ≠ .clear →
        ∃ clause, Formula.read f = .ok clause ∧
          Since (fun l => l.command ≠ .clear) (Enters settings (i + 1) f clause.text) (calls ++ [call]) := by
      intro hf hclear
      obtain ⟨clause, hread, hsince⟩ := ih hf
      exact ⟨clause, hread, since_concat.2 (Or.inr ⟨hclear, hsince⟩)⟩
    rw [after_concat] at hf
    generalize hcommand : call.command = command at heffect
    generalize hanswer : ((after settings calls).perform call).1 = answer at heffect
    generalize ((after settings calls).perform call).2 = c' at heffect hf
    cases heffect with
    | unchanged _ hclear _ => exact hold hf (hcommand ▸ hclear)
    | refused _ => exact hold hf (by simp [hcommand])
    | set hset _ =>
      refine hold hf fun hclear => ?_
      rw [← hcommand, hclear] at hset
      cases hset
    | proved => exact hold hf (by simp [hcommand])
    | left => exact hold hf (by simp [hcommand])
    | cleared => simp at hf
    | @added formula clause answer hread hannounces =>
      rcases Nat.lt_or_ge i (after settings calls).session.formulas.length with hi | hi
      · rw [List.getElem?_append_left hi] at hf
        exact hold hf (by simp [hcommand])
      · obtain ⟨rfl, rfl⟩ : i = (after settings calls).session.formulas.length ∧ f = Session.stored formula := by
          rw [List.getElem?_append_right hi, List.getElem?_singleton] at hf
          split_ifs at hf with hzero
          exact ⟨by omega, (Option.some.inj hf).symm⟩
        exact ⟨clause, hread, since_concat.2 (Or.inl ⟨⟨formula, hcommand, rfl⟩, answer, hanswer, hannounces⟩)⟩

/-- **A formula that was announced since the last clearing is stored** under its index, and the text that was announced is
that of its clause. -/
theorem stored_of_announced (settings : Settings) {calls : List Call} {index : Nat} {f text : String}
    (h : Since (fun l => l.command ≠ .clear) (Enters settings index f text) calls) :
    ∃ i clause, index = i + 1 ∧ (after settings calls).session.formulas[i]? = some f ∧
      Formula.read f = .ok clause ∧ text = clause.text := by
  induction calls using List.reverseRecOn with
  | nil => exact absurd h not_since_nil
  | append_singleton calls call ih =>
    have heffect := perform_effect (after settings calls) call
    rw [after_concat]
    rcases since_concat.1 h with ⟨⟨formula, hcommand, rfl⟩, a, hanswer, hannounces⟩ | ⟨hclear, hsince⟩
    · rw [hcommand, hanswer] at heffect
      obtain ⟨clause, hread, hlast, hformulas⟩ := heffect.entered
      obtain ⟨rfl, rfl⟩ := hannounces.unique hlast
      exact ⟨_, clause, rfl, by rw [hformulas, List.getElem?_concat_length], hread, rfl⟩
    · obtain ⟨i, clause, hindex, hf, hclause⟩ := ih hsince
      obtain ⟨later, hlater⟩ := heffect.formulas_kept hclear
      have hi := (List.getElem?_eq_some_iff.1 hf).1
      exact ⟨i, clause, hindex, by rw [← hlater, List.getElem?_append_left hi, hf], hclause⟩

end Console

/-! ## Attempts on formulas that can be read -/

namespace Search

/-- the event of a formula shows its clause -/
theorem getElem?_inputEvents (k : Dedup) {formulas : List String} {i : Nat} {f : String} {clause : Clause}
    (hf : formulas[i]? = some f) (hread : Formula.read f = .ok clause) :
    ∃ e, (inputEvents k formulas)[i]? = some e ∧ (e = .clauseAdded clause.text ∨ e = .duplicateClause clause.text) := by
  refine ⟨inputEvent k (Formula.readAll (formulas.take i)) f, ?_, ?_⟩
  · rw [inputEvents, List.getElem?_mapIdx, hf]
    rfl
  · simp only [inputEvent, hread]
    split_ifs
    · exact Or.inr rfl
    · exact Or.inl rfl

theorem getElem?_prove_events (settings : Settings) {formulas : List String} {i : Nat} {f : String} {clause : Clause}
    (hf : formulas[i]? = some f) (hread : Formula.read f = .ok clause) :
    ∃ e, (prove settings formulas).outcome.trace.events[i]? = some e ∧
      (e = .clauseAdded clause.text ∨ e = .duplicateClause clause.text) := by
  obtain ⟨e, he, hshape⟩ := getElem?_inputEvents settings.dedup hf hread
  obtain ⟨resolutions, hevents, -⟩ := prove_events settings formulas
  have hi : i < (inputEvents settings.dedup formulas).length := (List.getElem?_eq_some_iff.1 he).1
  refine ⟨e, ?_, hshape⟩
  rw [hevents, List.append_assoc, List.getElem?_append_left hi, he]

/-- an attempt on formulas that can be read rejects nothing -/
theorem ne_parseFailed_of_read (settings : Settings) {formulas : List String}
    (hread : ∀ f ∈ formulas, ∃ clause, Formula.read f = .ok clause) :
    ∀ e ∈ (prove settings formulas).outcome.trace.events, ∀ formula error, e ≠ .parseFailed formula error := by
  obtain ⟨resolutions, hevents, hform⟩ := prove_events settings formulas
  rw [hevents]
  intro e he formula error
  rcases List.mem_append.1 he with he | he
  · rcases List.mem_append.1 he with he | he
    · obtain ⟨i, hi⟩ := List.getElem?_of_mem he
      have hlength : i < formulas.length := by simpa [inputEvents] using (List.getElem?_eq_some_iff.1 hi).1
      obtain ⟨clause, hclause⟩ := hread _ (List.getElem_mem hlength)
      obtain ⟨e', he', hshape⟩ :=
        getElem?_inputEvents settings.dedup (List.getElem?_eq_getElem hlength) hclause
      obtain rfl : e = e' := Option.some.inj (hi.symm.trans he')
      rcases hshape with rfl | rfl <;> simp
    · obtain ⟨left, right, resolvent, rfl⟩ := hform e he
      simp
  · rw [List.mem_singleton.1 he, Outcome.lastEvent]
    cases (prove settings formulas).outcome.termination <;> simp

end Search

namespace Console

/-- what holds of a console after calls -/
structure Accountable (settings : Settings) (calls : List Call) (c : Console) : Prop where
  trimmed : ∀ f ∈ c.session.formulas, Text.trim f.toList = f.toList
  read : ∀ f ∈ c.session.formulas, ∃ clause, Formula.read f = .ok clause
  budget : 1 ≤ c.session.settings.maxSteps
  failed : ∀ call e, (c.perform call).1 = .error e → (c.perform call).2 = c
  finished : c.finished = true → ∀ call, (c.perform call).2.finished = true
  /-- there is a last outcome exactly when there was an attempt since the last clearing -/
  present : c.session.last.isSome = true ↔
    Since (fun l => l.command ≠ .clear) (fun _ call => call.command = .prove) calls
  /-- it is the outcome of the last attempt, with the settings and the formulas of that moment -/
  last : ∀ o, c.session.last = some o ↔
    Since (fun l => l.command ≠ .prove ∧ l.command ≠ .clear)
      (fun before call => call.command = .prove ∧
        o = (Search.prove (after settings before).session.settings (after settings before).session.formulas).outcome) calls
  /-- an attempt shows, formula by formula, the text that was announced when the formula was stored -/
  shown : ∀ i f, c.session.formulas[i]? = some f → ∃ text,
    Since (fun l => l.command ≠ .clear) (Enters settings (i + 1) f text) calls ∧
      ∃ e, c.session.prove.1.trace.events[i]? = some e ∧ (e = .clauseAdded text ∨ e = .duplicateClause text)
  /-- a formula that was announced since the last clearing is stored, and an attempt shows the text that was announced -/
  kept : ∀ index f text, Since (fun l => l.command ≠ .clear) (Enters settings index f text) calls →
    ∃ i, index = i + 1 ∧ c.session.formulas[i]? = some f ∧
      ∃ e, c.session.prove.1.trace.events[i]? = some e ∧ (e = .clauseAdded text ∨ e = .duplicateClause text)
  rejected : ∀ e ∈ c.session.prove.1.trace.events, ∀ formula error, e ≠ .parseFailed formula error

/-- **Calls on a session, and lines for its console, leave nothing unaccounted for.** After any calls on a new console with
valid settings: the stored formulas are trimmed and can be read, and the step budget is positive. A call that fails changes
nothing, and a console that was left stays so. There is a last outcome exactly when there was an attempt since the last
clearing, and it is that of the last attempt. The formulas stored are those that were announced since the last clearing, each
under its index. An attempt shows first, formula by formula, the clause text that was announced for it, and rejects no
formula. -/
theorem after_accountable (settings : Settings) (hvalid : 1 ≤ settings.maxSteps) (calls : List Call) :
    (after settings calls).Accountable settings calls := by
  have hsound := after_sound hvalid calls
  refine {
    trimmed := hsound.trimmed
    read := hsound.read
    budget := hsound.budget
    failed := fun call e he => ?_
    finished := fun hc call => (perform_effect _ call).finished hc
    present := last_isSome settings calls
    last := last_eq_some settings calls
    shown := fun i f hf => ?_
    kept := fun index f text hsince => ?_
    rejected := Search.ne_parseFailed_of_read _ hsound.read }
  · have heffect := perform_effect (after settings calls) call
    rw [he] at heffect
    exact heffect.failed
  · obtain ⟨clause, hread, hsince⟩ := announced settings calls hf
    exact ⟨clause.text, hsince, Search.getElem?_prove_events _ hf hread⟩
  · obtain ⟨i, clause, hindex, hf, hread, rfl⟩ := stored_of_announced settings hsince
    exact ⟨i, hindex, hf, Search.getElem?_prove_events _ hf hread⟩

/-- a formula entered twice, a setting that is refused, an attempt, a text that is no formula -/
def mixedCalls : List Call :=
  [.line (Directory.read {}) " P ∨ Q", .add "P ∨ Q ", .setOption "max_steps" "0", .line (Directory.read {}) ":prove",
    .line (Directory.read {}) "A → B → C"]

theorem mixedCalls_accountable :
    (after {} mixedCalls).session.formulas = ["P ∨ Q", "P ∨ Q"] ∧ (after {} mixedCalls).Accountable {} mixedCalls := by
  exact ⟨by decide +kernel, after_accountable {} (by decide) mixedCalls⟩

end Console

end Refutation
