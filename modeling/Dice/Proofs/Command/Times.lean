import Dice.Proofs.Command.Runs

namespace Dice

open Dice.Calendar Dice.Random Dice.View

/-!
# Times make no difference

Records keep the time of their roll, and nothing else that the calculator does or shows depends on
it.  Here all times are set to the epoch, and every operation is shown to do the same before and
after that, so that two runs over the same texts at different times agree but for the times.

* `Record.untimed`, `Session.untimed`, `Prompt.untimed` — all times set to the epoch.
* `Prompt.answer_untimed`, `Prompt.step_untimed` — one entry, and one line.
* `Prompt.run_untimed` — several lines.
-/

/-! ### Setting all times to the epoch -/

/-- The record without its time. -/
def Record.untimed (r : Record) : Record := { r with rolledAt := .epoch }

/-- The records without their times. -/
def History.untimed (h : History) : History := { h with records := h.records.map Record.untimed }

/-- The session without the times of its records. -/
def Session.untimed (s : Session) : Session := { s with history := s.history.untimed }

namespace History

@[simp] theorem untimed_untimed (h : History) : h.untimed.untimed = h.untimed := by
  simp [untimed, Function.comp_def, Record.untimed]

@[simp] theorem clear_untimed (h : History) : h.untimed.clear = h.clear.untimed := rfl

/-- Records that differ in their time only are kept alike. -/
theorem push_untimed (h : History) {r r' : Record} (hr : r.untimed = r'.untimed) :
    (h.untimed.push r).untimed = (h.push r').untimed := by
  have hrecords : h.untimed.untimed.records = h.untimed.records := by rw [untimed_untimed]
  simp only [push, untimed, List.map_take, List.map_cons, hr]
  rw [show List.map Record.untimed (List.map Record.untimed h.records) =
    List.map Record.untimed h.records from hrecords]

end History

/-- The table does not show times. -/
@[simp] theorem View.historyTable_untimed (color : Bool) (h : History) :
    historyTable color h.untimed = historyTable color h := by
  simp only [historyTable, History.untimed, List.map_map]
  rfl

namespace Session

@[simp] theorem untimed_untimed (s : Session) : s.untimed.untimed = s.untimed := by
  simp [untimed]

@[simp] theorem clear_untimed (s : Session) : s.untimed.clear = s.clear.untimed := rfl

/-- A text is taken as it would be without times. -/
@[simp] theorem edit_untimed (s : Session) (text : String) :
    s.untimed.edit text = (s.edit text).untimed := by
  unfold edit
  cases Selection.read text <;> rfl

/-- Past dice are selected as they would be without times. -/
@[simp] theorem reselect_untimed (s : Session) (index : Nat) :
    s.untimed.reselect index = (s.reselect index).map untimed := by
  have hrecord : s.untimed.history.get? index = (s.history.get? index).map Record.untimed :=
    List.getElem?_map
  unfold reselect
  rw [hrecord]
  cases s.history.get? index with
  | none => rfl
  | some r => exact congrArg some (s.edit_untimed r.raw)

variable {S : Type}

/-- What comes back from a roll, without times. -/
def untimedRoll (r : Option Record × Session × S) : Option Record × Session × S :=
  (r.1.map Record.untimed, r.2.1.untimed, r.2.2)

/-- What comes back from a roll depends on the records kept, whatever their times. -/
theorem untimedRoll_eq (s : Session) (source : S) {h h' : History} (hh : h.untimed = h'.untimed) :
    untimedRoll (h.latest, { s.untimed with history := h }, source) =
      untimedRoll (h'.latest, { s with history := h' }, source) := by
  have hlatest : h.latest.map Record.untimed = h'.latest.map Record.untimed := by
    have hrecords : h.records.map Record.untimed = h'.records.map Record.untimed :=
      congrArg History.records hh
    rw [History.latest, History.latest, ← List.head?_map, hrecords, List.head?_map]
  simp only [untimedRoll, hlatest, untimed, hh]

variable [WordSource S]

/-- A roll shows the same faces at any time, whatever the times of the rolls before it. -/
theorem roll_untimed (s : Session) (now now' : Timestamp) (source : S) :
    (s.untimed.roll now' source).map untimedRoll = (s.roll now source).map untimedRoll := by
  have hrollable : s.untimed.rollable = s.rollable := rfl
  unfold roll
  rw [hrollable]
  cases s.rollable with
  | none => simp [Except.map, untimedRoll]
  | some d =>
    simp only
    cases d.pool.roll source with
    | error e => rfl
    | ok r =>
      obtain ⟨roll, source⟩ := r
      have hhistory : (s.untimed.history.push (d.record roll now')).untimed =
          (s.history.push (d.record roll now)).untimed := s.history.push_untimed rfl
      exact congrArg Except.ok (s.untimedRoll_eq source hhistory)

end Session

namespace Command

/-! ### The calculator -/

/-- The calculator without the times of its records. -/
def Prompt.untimed {S : Type} (p : Prompt S) : Prompt S := p.withSession p.session.untimed

/-- What happens at a line, without times. -/
def Step.untimed {S : Type} : Step S → Step S
  | .answered output next => .answered output next.untimed
  | .left => .left
  | .failed message => .failed message

/-- Two steps that agree without times are of one kind. -/
theorem Step.cases_of_untimed_eq {S : Type} {s t : Step S} (h : s.untimed = t.untimed) :
    (∃ output next next', s = .answered output next ∧ t = .answered output next' ∧
      next.untimed = next'.untimed) ∨
    (s = .left ∧ t = .left) ∨ ∃ message, s = .failed message ∧ t = .failed message := by
  cases s with
  | answered output next =>
    cases t with
    | answered output' next' =>
      obtain ⟨rfl, hnext⟩ := Step.answered.inj h
      exact .inl ⟨output, next, next', rfl, rfl, hnext⟩
    | left | failed _ => cases h
  | left =>
    cases t with
    | left => exact .inr (.inl ⟨rfl, rfl⟩)
    | answered _ _ | failed _ => cases h
  | failed message =>
    cases t with
    | failed message' =>
      obtain rfl := Step.failed.inj h
      exact .inr (.inr ⟨message, rfl, rfl⟩)
    | answered _ _ | left => cases h

/-- What happens at several lines, without times. -/
def Transcript.untimed {S : Type} (t : Transcript S) : Transcript S :=
  { t with final := t.final.untimed }

namespace Prompt

variable {S : Type}

@[simp] theorem untimed_untimed (p : Prompt S) : p.untimed.untimed = p.untimed := by
  simp [untimed, withSession]

/-- An answer, and the calculator after it without times. -/
def untimedAnswer (r : String × Prompt S) : String × Prompt S := (r.1, r.2.untimed)

variable [WordSource S]

/-- The answer to a roll does not show its time. -/
theorem answer_roll_untimed (style : Style) (now now' : Timestamp) (p : Prompt S) :
    (p.untimed.answer style now' .roll).map untimedAnswer =
      (p.answer style now .roll).map untimedAnswer := by
  -- The answer is a function of what comes back from the roll, taken without times.
  have hanswer : ∀ (q : Prompt S) (time : Timestamp),
      (q.answer style time .roll).map untimedAnswer =
        ((q.session.roll time q.source).map Session.untimedRoll).map fun r =>
          (rollText r.2.1 r.1, ⟨r.2.1, r.2.2⟩) := by
    intro q time
    simp only [answer]
    cases q.session.roll time q.source with
    | error e => rfl
    | ok r =>
      obtain ⟨record, session, source⟩ := r
      cases record <;> rfl
  rw [hanswer, hanswer]
  exact congrArg _ (p.session.roll_untimed now now' p.source)

/-- The answer to an entry does not depend on the times of past rolls, nor on the time at which it
    is given. -/
theorem answer_untimed (style : Style) (now now' : Timestamp) (p : Prompt S) (e : Entry) :
    (p.untimed.answer style now' e).map untimedAnswer =
      (p.answer style now e).map untimedAnswer := by
  cases e with
  | leave => exact congrArg (fun q => Except.ok ("", q)) p.untimed_untimed
  | help => exact congrArg (fun q => Except.ok (helpText, q)) p.untimed_untimed
  | clear => rfl
  | history =>
    simp only [answer, untimed, withSession, Except.map, untimedAnswer]
    rw [Session.untimed_untimed]
    exact congrArg (fun text => Except.ok (text, _)) (historyTable_untimed style.color _)
  | roll => exact p.answer_roll_untimed style now now'
  | past text =>
    have hreselect : (pastIndex? text).bind p.untimed.session.reselect =
        ((pastIndex? text).bind p.session.reselect).map Session.untimed := by
      cases pastIndex? text with
      | none => rfl
      | some index => exact p.session.reselect_untimed index
    simp only [answer, hreselect]
    cases (pastIndex? text).bind p.session.reselect with
    | none => exact congrArg (fun q => Except.ok (_, q)) p.untimed_untimed
    | some s =>
      simp only [Option.map_some, Except.map, untimedAnswer, untimed, withSession,
        Session.untimed_untimed]
      rfl
  | dice text =>
    simp only [answer, untimed, withSession, Session.edit_untimed, Except.map, untimedAnswer,
      Session.untimed_untimed]
    rfl

/-- Answers that are the same but for times make the same step but for times. -/
theorem ofAnswer_untimed {S : Type} {r r' : Except RollError (String × Prompt S)}
    (h : r.map untimedAnswer = r'.map untimedAnswer) :
    (Step.ofAnswer r).untimed = (Step.ofAnswer r').untimed := by
  have hanswer : ∀ r : Except RollError (String × Prompt S),
      (Step.ofAnswer r).untimed = Step.ofAnswer (r.map untimedAnswer) := by
    intro r
    cases r <;> rfl
  rw [hanswer, hanswer, h]

/-- What happens at a line depends on its text alone. -/
theorem step_untimed (style : Style) {p q : Prompt S} {line line' : Line}
    (hp : p.untimed = q.untimed) (htext : line.text = line'.text) :
    (p.step style line).untimed = (q.step style line').untimed := by
  cases hentry : line.text.map Entry.ofLine with
  | none =>
    have hline : line.text = none := by simpa using hentry
    rw [step_of_notUtf8 hline, step_of_notUtf8 (htext ▸ hline)]
  | some e =>
    by_cases hleave : e = .leave
    · rw [hleave] at hentry
      rw [step_of_leave hentry, step_of_leave (htext ▸ hentry)]
    · rw [step_of_entry hentry hleave, step_of_entry (htext ▸ hentry) hleave]
      apply ofAnswer_untimed
      rw [← p.answer_untimed style line.time line.time e, hp, q.answer_untimed]

/-- What happens at several lines depends on their texts alone. -/
theorem run_untimed (style : Style) {p q : Prompt S} {lines lines' : List Line}
    (hp : p.untimed = q.untimed) (htexts : lines.map (·.text) = lines'.map (·.text)) :
    (p.run style lines).untimed = (q.run style lines').untimed := by
  induction lines generalizing p q lines' with
  | nil =>
    obtain rfl : lines' = [] := by simpa using htexts.symm
    simp only [run_nil, Transcript.untimed, hp]
  | cons line rest ih =>
    cases lines' with
    | nil => simp at htexts
    | cons line' rest' =>
      obtain ⟨htext, hrest⟩ := List.cons.inj htexts
      -- Both runs take the same kind of step, and go on alike after an answer.
      rcases Step.cases_of_untimed_eq (step_untimed style hp htext) with
        ⟨output, next, next', hline, hline', hnext⟩ | ⟨hline, hline'⟩ | ⟨message, hline, hline'⟩
      · have hrun := ih hnext hrest
        rw [run_cons_of_answered rest hline, run_cons_of_answered rest' hline']
        simp only [Transcript.untimed, Transcript.mk.injEq] at hrun ⊢
        exact ⟨by rw [hrun.1], hrun.2⟩
      · rw [run_cons_of_left rest hline, run_cons_of_left rest' hline']
        simp only [Transcript.untimed, hp]
      · rw [run_cons_of_failed rest hline, run_cons_of_failed rest' hline']
        simp only [Transcript.untimed, hp]

end Prompt

end Command

end Dice
