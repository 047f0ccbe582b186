import Dice.Session.Session

namespace Dice

open Dice.Notation Dice.Random

/-!
# Whole runs of a session

A session is used by editing its text, rolling, going back to a past roll and forgetting the past
rolls, in any order.  A chronicle follows a session through such moves and writes down what the
session itself does not keep: every text it was given, and every record since the last clear.

* `Move`, `Session.after` — one use of a session, and the session it leaves.
* `Session.reach` — the session after a run of moves.
* `Chronicle`, `Chronicle.run` — a session with its past, and the chronicle of a run.
* `Chronicle.run_induction` — what a run keeps follows from what each move keeps.
* `Chronicle.Reflects` — how text, fault and selection follow from the texts given.
* `Chronicle.state_of_texts` — every session of a run is what the texts given to it say.
-/

variable {S : Type} [WordSource S]

/-! ### Moves -/

/-- One use of a session.  Every roll has a source of words of its own, in any state. -/
inductive Move (S : Type) where
  /-- The text is replaced. -/
  | edit (text : String)
  /-- The selected dice are rolled. -/
  | roll (now : Calendar.Timestamp) (source : S)
  /-- The dice of a past roll are selected again. -/
  | reselect (index : Nat)
  /-- All past rolls are forgotten. -/
  | clear

namespace Session

/-- The session after a move.  A roll that fails changes nothing, nor does a reselection where there
    is no record. -/
def after (s : Session) : Move S → Session
  | .edit text => s.edit text
  | .roll now source =>
    match s.roll now source with
    | .ok (_, s, _) => s
    | .error _ => s
  | .reselect index => (s.reselect index).getD s
  | .clear => s.clear

/-- The text that a move gives to the session, if it gives one. -/
def applied? (s : Session) : Move S → Option String
  | .edit text => some text
  | .reselect index => (s.history.get? index).map (·.raw)
  | .roll _ _ | .clear => none

/-- The record of the dice that a move draws, if it draws some. -/
def drawn? (s : Session) : Move S → Option Record
  | .roll now source =>
    match s.rollable with
    | none => none
    | some d =>
      match d.pool.roll source with
      | .ok (r, _) => some (d.record r now)
      | .error _ => none
  | .edit _ | .reselect _ | .clear => none

/-- The session that moves reach, one after the other, from the start. -/
def reach (c : Config) (moves : List (Move S)) : Session := moves.foldl after (start c)

end Session

/-! ### Chronicles -/

/-- A session and what happened to it. -/
structure Chronicle where
  /-- The session as it is now. -/
  session : Session
  /-- Every text given to the session, the latest first. -/
  texts : List String
  /-- The records of all rolls that drew dice since the records were last cleared, the latest
      first. -/
  drawn : List Record

namespace Chronicle

/-- The chronicle of a session that has just started. -/
def start (c : Config) : Chronicle := ⟨.start c, [c.initialText], []⟩

/-- The records drawn once a move has been made. -/
def drawnAfter (k : Chronicle) : Move S → List Record
  | .clear => []
  | m => (k.session.drawn? m).toList ++ k.drawn

/-- The chronicle with one more move. -/
def step (k : Chronicle) (m : Move S) : Chronicle where
  session := k.session.after m
  texts := (k.session.applied? m).toList ++ k.texts
  drawn := k.drawnAfter m

/-- The chronicle of a run. -/
def run (c : Config) (moves : List (Move S)) : Chronicle :=
  moves.foldl step (start c)

/-- The session of a chronicle is the one that the same moves reach without it. -/
theorem session_run (c : Config) (moves : List (Move S)) :
    (run c moves).session = Session.reach c moves := by
  -- The moves are followed from any chronicle, since the one they start from changes on the way.
  have hfold : ∀ k : Chronicle,
      (moves.foldl step k).session = moves.foldl Session.after k.session := by
    induction moves with
    | nil => exact fun _ => rfl
    | cons m moves ih => exact fun k => ih (k.step m)
  exact hfold (start c)

/-- What holds at the start and is kept by every move holds after every run. -/
theorem run_induction {P : Chronicle → Prop} {c : Config} (hstart : P (start c))
    (hstep : ∀ (k : Chronicle) (m : Move S), P k → P (k.step m)) (moves : List (Move S)) :
    P (run c moves) := by
  have hfold : ∀ k : Chronicle, P k → P (moves.foldl step k) := by
    induction moves with
    | nil => exact fun _ hk => hk
    | cons m moves ih => exact fun k hk => ih (k.step m) (hstep k m hk)
  exact hfold (start c) hstart

end Chronicle

/-! ### What a move does to text, fault and selection -/

/-- The fault of a text, if it is not notation. -/
def faultOf (text : String) : Option Fault :=
  match Pool.read text with
  | .ok _ => none
  | .error f => some f

/-- The dice that a text selects, if it is notation. -/
def selectionOf (text : String) : Option Selection :=
  match Pool.read text with
  | .ok p => some (.ofPool text p)
  | .error _ => none

/-- A text has the fault with which it is refused. -/
theorem faultOf_eq_some {text : String} {f : Fault} :
    faultOf text = some f ↔ Pool.read text = .error f := by
  unfold faultOf
  cases Pool.read text <;> simp

/-- A text has no fault if it is notation. -/
theorem faultOf_eq_none {text : String} : faultOf text = none ↔ ∃ p, Pool.read text = .ok p := by
  unfold faultOf
  cases Pool.read text <;> simp

/-- A text selects no dice if it is refused. -/
theorem selectionOf_eq_none {text : String} :
    selectionOf text = none ↔ ∃ f, Pool.read text = .error f := by
  unfold selectionOf
  cases Pool.read text <;> simp

/-- A text selects the pool that it is read as, with the law of that pool. -/
theorem selectionOf_eq_some {text : String} {d : Selection} :
    selectionOf text = some d ↔
      Pool.read text = .ok d.pool ∧ d.raw = text ∧ d.law = d.pool.law := by
  unfold selectionOf
  obtain ⟨raw, pool, law⟩ := d
  cases Pool.read text with
  | error f => simp
  | ok p =>
    simp only [Selection.ofPool, Option.some.injEq, Selection.mk.injEq, Except.ok.injEq]
    constructor
    · rintro ⟨rfl, rfl, rfl⟩
      exact ⟨rfl, rfl, rfl⟩
    · rintro ⟨rfl, rfl, rfl⟩
      exact ⟨rfl, rfl, rfl⟩

namespace Session

/-- Editing sets the text and its fault, and selects the dice of the text if there are some. -/
theorem edit_eq (s : Session) (text : String) :
    s.edit text = ⟨text, faultOf text, selectionOf text <|> s.selection, s.history⟩ := by
  unfold edit Selection.read faultOf selectionOf
  cases Pool.read text <;> rfl

/-- A roll of dice keeps its record and changes nothing else, and a roll that draws no dice changes
    nothing. -/
theorem after_roll (s : Session) (now : Calendar.Timestamp) (source : S) :
    s.after (.roll now source) =
      match s.drawn? (.roll now source) with
      | some r => { s with history := s.history.push r }
      | none => s := by
  simp only [after, roll, drawn?]
  cases s.rollable with
  | none => rfl
  | some d =>
    simp only
    cases d.pool.roll source <;> rfl

/-- Two sessions with the same text, the same fault and the same dice. -/
structure SameDice (s t : Session) : Prop where
  raw : t.raw = s.raw
  fault : t.fault = s.fault
  selection : t.selection = s.selection

/-- A roll leaves text, fault and dice alone. -/
theorem sameDice_roll (s : Session) (now : Calendar.Timestamp) (source : S) :
    s.SameDice (s.after (.roll now source)) := by
  rw [after_roll]
  cases s.drawn? (.roll now source) <;> exact ⟨rfl, rfl, rfl⟩

/-- Dropping the records leaves text, fault and dice alone. -/
theorem sameDice_clear (s : Session) : s.SameDice s.clear := ⟨rfl, rfl, rfl⟩

/-- A move either gives the session a text, or leaves text, fault and selection alone. -/
theorem after_cases (s : Session) (m : Move S) :
    (∃ text, s.applied? m = some text ∧ s.after m = s.edit text) ∨
    (s.applied? m = none ∧ s.SameDice (s.after m)) := by
  cases m with
  | edit text => exact .inl ⟨text, rfl, rfl⟩
  | roll now source => exact .inr ⟨rfl, s.sameDice_roll now source⟩
  | reselect index =>
    simp only [applied?, after, reselect]
    cases s.history.get? index with
    | none => exact .inr ⟨rfl, rfl, rfl, rfl⟩
    | some r => exact .inl ⟨r.raw, rfl, rfl⟩
  | clear => exact .inr ⟨rfl, s.sameDice_clear⟩

end Session

/-! ### Text, fault and selection follow from the texts given -/

namespace Chronicle

/-- The session has the text it was given last, the fault of that text, and the dice of the last
    text that was notation. -/
structure Reflects (k : Chronicle) : Prop where
  raw : k.texts.head? = some k.session.raw
  fault : k.session.fault = faultOf k.session.raw
  selection : k.session.selection = k.texts.findSome? selectionOf

/-- A session that has just started has the text it was started with. -/
theorem reflects_start (c : Config) : (start c).Reflects := by
  simp only [start, Session.start, Session.edit_eq]
  exact ⟨rfl, rfl, by cases h : selectionOf c.initialText <;> simp [h]⟩

/-- Every move keeps what the texts say: one that gives a text brings its fault and its dice, and
    any other changes none of the three. -/
theorem Reflects.step {k : Chronicle} (h : k.Reflects) (m : Move S) : (k.step m).Reflects := by
  obtain ⟨text, happlied, hafter⟩ | ⟨happlied, hsame⟩ := k.session.after_cases m
  · -- Edits and reselections: the new text is the latest, and the first that is asked for dice.
    have htexts : (k.step m).texts = text :: k.texts := by simp [Chronicle.step, happlied]
    have hsession : (k.step m).session = k.session.edit text := hafter
    refine ⟨?_, ?_, ?_⟩
    · rw [htexts, hsession, Session.raw_edit, List.head?_cons]
    · rw [hsession, Session.edit_eq]
    · rw [htexts, hsession, Session.edit_eq, List.findSome?_cons, h.selection]
      cases selectionOf text <;> rfl
  · -- Rolls, clears and reselections of nothing: the texts stay as they are.
    have htexts : (k.step m).texts = k.texts := by simp [Chronicle.step, happlied]
    refine ⟨?_, ?_, ?_⟩
    · rw [htexts, h.raw]
      exact congrArg some hsame.raw.symm
    · show (k.session.after m).fault = faultOf (k.session.after m).raw
      rw [hsame.fault, hsame.raw, h.fault]
    · rw [htexts, ← h.selection]
      exact hsame.selection

/-- After every run, text, fault and dice are what the texts given say. -/
theorem reflects_run (c : Config) (moves : List (Move S)) : (run c moves).Reflects :=
  run_induction (reflects_start c) (fun _ m h => h.step m) moves

/-- The latest text that is notation is the one whose dice are selected. -/
theorem Reflects.selection_eq_some {k : Chronicle} (h : k.Reflects) {d : Selection} :
    k.session.selection = some d ↔
      ∃ later text earlier, k.texts = later ++ text :: earlier ∧
        (∀ t ∈ later, ∃ f, Pool.read t = .error f) ∧
        Pool.read text = .ok d.pool ∧ d.raw = text ∧ d.law = d.pool.law := by
  rw [h.selection, List.findSome?_eq_some_iff]
  simp only [selectionOf_eq_none, selectionOf_eq_some]
  constructor
  · rintro ⟨later, text, earlier, htexts, hd, hlater⟩
    exact ⟨later, text, earlier, htexts, hlater, hd⟩
  · rintro ⟨later, text, earlier, htexts, hlater, hd⟩
    exact ⟨later, text, earlier, htexts, hd, hlater⟩

/-- A text without a fault has its own dice selected. -/
theorem Reflects.selected_of_no_fault {k : Chronicle} (h : k.Reflects)
    (hfault : k.session.fault = none) :
    ∃ d, k.session.selection = some d ∧ d.raw = k.session.raw ∧
      Pool.read k.session.raw = .ok d.pool := by
  rw [h.fault] at hfault
  obtain ⟨p, hp⟩ := faultOf_eq_none.mp hfault
  obtain ⟨earlier, htexts⟩ := List.head?_eq_some_iff.mp h.raw
  refine ⟨.ofPool k.session.raw p, ?_, rfl, hp⟩
  -- The latest text is notation itself, so no later one stands in its way.
  rw [h.selection_eq_some]
  exact ⟨[], _, earlier, htexts, by simp, hp, rfl, rfl⟩

/-- After any run the session has the text given last.  Its fault is the one that this text is read
    with.  Its dice are those of the latest text that was notation, with their law, and there are
    none exactly if no text was notation; so a text without a fault has its own dice.  Rolling and
    forgetting the past rolls leaves all of this alone. -/
theorem state_of_texts (c : Config) (moves : List (Move S)) :
    let s := Session.reach c moves
    let texts := (run c moves).texts
    texts.head? = some s.raw ∧
    (∀ f, s.fault = some f ↔ Pool.read s.raw = .error f) ∧
    (s.fault = none ↔ ∃ p, Pool.read s.raw = .ok p) ∧
    (s.selection = none ↔ ∀ t ∈ texts, ∃ f, Pool.read t = .error f) ∧
    (∀ d, s.selection = some d ↔
      ∃ later text earlier, texts = later ++ text :: earlier ∧
        (∀ t ∈ later, ∃ f, Pool.read t = .error f) ∧
        Pool.read text = .ok d.pool ∧ d.raw = text ∧ d.law = d.pool.law) ∧
    (s.fault = none → ∃ d, s.selection = some d ∧ d.raw = s.raw) ∧
    (∀ (now : Calendar.Timestamp) (source : S), s.SameDice (s.after (.roll now source))) ∧
    s.SameDice (s.after (Move.clear : Move S)) := by
  rw [← session_run]
  intro s texts
  have h : (run c moves).Reflects := reflects_run c moves
  refine ⟨h.raw, ?_, ?_, ?_, fun d => h.selection_eq_some, ?_, s.sameDice_roll, s.sameDice_clear⟩
  · intro f
    rw [h.fault, faultOf_eq_some]
  · rw [h.fault, faultOf_eq_none]
  · rw [h.selection, List.findSome?_eq_none_iff]
    simp only [selectionOf_eq_none, texts]
  · intro hfault
    obtain ⟨d, hd, hraw, -⟩ := h.selected_of_no_fault hfault
    exact ⟨d, hd, hraw⟩

end Chronicle

end Dice
