import Dice.Proofs.Notation.Grammar
import Dice.Proofs.Random.Draws
import Dice.Proofs.Session.Chronicle

namespace Dice

open Dice.Notation Dice.Random

/-!
# The past rolls of a run

A session keeps the newest of the records drawn since they were last cleared, as many as its limit
allows, and every record tells the truth about the roll that it is of.

* `Record.Truthful` — what a record says of its text, its pool, its faces and its probability.
* `Chronicle.Keeps` — the records kept are the newest ones drawn, and all drawn are truthful.
* `Chronicle.records_of_run` — both hold after every run.
-/

variable {S : Type} [WordSource S]

/-! ### Records -/

/-- The text of the record is notation of its pool, the faces are a roll of that pool with the
    outcome as their total, and the law of the pool lists the outcome with the probability. -/
structure Record.Truthful (r : Record) : Prop where
  read : Pool.read r.raw = .ok r.pool
  shows : r.pool.Shows r.faces
  outcome : r.outcome = r.pool.offset.toInt + faceSum r.faces
  probability : (r.outcome, r.probability) ∈ (r.pool.law : Law Float).distribution.entries

/-- Rolling dice selected by a text gives a truthful record. -/
theorem Selection.truthful_record {d : Selection} {text : String} {s s' : S} {r : Roll}
    (hd : selectionOf text = some d) (hroll : d.pool.roll s = .ok (r, s'))
    (now : Calendar.Timestamp) : (d.record r now).Truthful := by
  obtain ⟨hread, rfl, hlaw⟩ := selectionOf_eq_some.mp hd
  obtain ⟨hshows, htotal⟩ := Pool.shows_of_roll hroll
  obtain ⟨hcount, hfaces⟩ := positive_of_readChars hread
  refine ⟨hread, hshows, htotal, ?_⟩
  -- Whether an outcome is listed does not depend on how its weight was rounded.
  have hmem : r.total ∈ (d.pool.law : Law Float).distribution.outcomes := by
    rw [htotal]
    exact hshows.total_mem_outcomes hcount hfaces
  show (r.total, d.law.distribution.weightOf r.total) ∈ _
  rw [hlaw]
  exact Distribution.weightOf_mem_entries hmem

/-! ### What a move does to the past rolls -/

namespace Session

/-- Dice are rolled only if the text has no fault. -/
theorem rollable_eq_some {s : Session} {d : Selection} :
    s.rollable = some d ↔ s.fault = none ∧ s.selection = some d := by
  unfold rollable
  cases s.fault <;> simp

/-- A record is drawn by rolling the dice that can be rolled. -/
theorem drawn?_eq_some {s : Session} {m : Move S} {r : Record} :
    s.drawn? m = some r ↔
      ∃ now source d roll source', m = .roll now source ∧ s.rollable = some d ∧
        d.pool.roll source = .ok (roll, source') ∧ r = d.record roll now := by
  constructor
  · intro h
    cases m with
    | roll now source =>
      rw [drawn?] at h
      split at h
      · cases h
      · rename_i d hd
        split at h
        · rename_i roll source' hroll
          cases h
          exact ⟨now, source, d, roll, source', rfl, hd, hroll, rfl⟩
        · cases h
    | edit _ => cases h
    | reselect _ => cases h
    | clear => cases h
  · rintro ⟨now, source, d, roll, source', rfl, hd, hroll, rfl⟩
    simp only [drawn?, hd, hroll]

/-- A record that is drawn is put before the others. -/
theorem history_after_of_drawn {s : Session} {m : Move S} {r : Record}
    (h : s.drawn? m = some r) : (s.after m).history = s.history.push r := by
  cases m with
  | roll now source => rw [after_roll, h]
  | edit _ => cases h
  | reselect _ => cases h
  | clear => cases h

/-- Otherwise the past rolls stay unless they are forgotten. -/
theorem history_after_of_not_drawn {s : Session} {m : Move S} (h : s.drawn? m = none)
    (hm : m ≠ .clear) : (s.after m).history = s.history := by
  cases m with
  | roll now source => rw [after_roll, h]
  | edit text => exact s.history_edit text
  | reselect index =>
    simp only [after, reselect]
    cases s.history.get? index with
    | none => rfl
    | some r => exact s.history_edit r.raw
  | clear => exact absurd rfl hm

end Session

/-! ### The records of a run -/

namespace Chronicle

/-- Dropping the oldest records before one is added makes no difference to the newest. -/
theorem take_cons_take {α : Type} (a : α) (l : List α) (n : Nat) :
    (a :: l.take n).take n = (a :: l).take n := by
  cases n with
  | zero => rfl
  | succ n =>
    rw [List.take_succ_cons, List.take_succ_cons, List.take_take, Nat.min_eq_left n.le_succ]

/-- The records kept are the newest of those drawn, as many as the limit allows, and every record
    drawn is truthful. -/
structure Keeps (n : Nat) (k : Chronicle) : Prop where
  limit : k.session.history.limit = n
  records : k.session.history.records = k.drawn.take n
  truthful : ∀ r ∈ k.drawn, r.Truthful

/-- No records are kept, and none were drawn, at the start. -/
theorem keeps_start (c : Config) : (start c).Keeps c.historyLimit := by
  refine ⟨?_, ?_, ?_⟩
  · rw [start, Session.start, Session.history_edit, History.limit_empty]
  · rw [start, Session.start, Session.history_edit, History.records_empty, List.take_nil]
  · intro r hr
    cases hr

/-- The dice drawn by a move are those selected, so the record is truthful. -/
theorem Reflects.truthful_of_drawn {k : Chronicle} {m : Move S} {r : Record} (h : k.Reflects)
    (hr : k.session.drawn? m = some r) : r.Truthful := by
  obtain ⟨now, source, d, roll, source', rfl, hd, hroll, rfl⟩ := Session.drawn?_eq_some.mp hr
  obtain ⟨-, hselection⟩ := Session.rollable_eq_some.mp hd
  rw [h.selection] at hselection
  obtain ⟨text, -, htext⟩ := List.exists_of_findSome?_eq_some hselection
  exact Selection.truthful_record htext hroll now

/-- Only forgetting the past rolls takes records from those drawn. -/
theorem drawnAfter_of_ne_clear (k : Chronicle) {m : Move S} (hm : m ≠ .clear) :
    k.drawnAfter m = (k.session.drawn? m).toList ++ k.drawn := by
  cases m with
  | clear => exact absurd rfl hm
  | edit _ | roll _ _ | reselect _ => rfl

/-- Nothing is kept of what was drawn once the records are dropped. -/
theorem Keeps.clear {n : Nat} {k : Chronicle} (h : k.Keeps n) :
    (k.step (.clear : Move S)).Keeps n := by
  refine ⟨h.limit, List.take_nil.symm, ?_⟩
  intro r hr
  cases hr

/-- Every move keeps the records in step with those drawn, and all of them truthful. -/
theorem Keeps.step {n : Nat} {k : Chronicle} (h : k.Keeps n) (hk : k.Reflects) (m : Move S) :
    (k.step m).Keeps n := by
  by_cases hm : m = .clear
  · rw [hm]
    exact h.clear
  -- Any other move adds at most one record, to the past rolls and to those drawn alike.
  have hdrawn : (k.step m).drawn = (k.session.drawn? m).toList ++ k.drawn :=
    k.drawnAfter_of_ne_clear hm
  cases hr : k.session.drawn? m with
  | none =>
    have hhistory : (k.step m).session.history = k.session.history :=
      Session.history_after_of_not_drawn hr hm
    rw [hr, Option.toList_none, List.nil_append] at hdrawn
    refine ⟨?_, ?_, ?_⟩
    · rw [hhistory, h.limit]
    · rw [hhistory, hdrawn, h.records]
    · rw [hdrawn]
      exact h.truthful
  | some r =>
    have hhistory : (k.step m).session.history = k.session.history.push r :=
      Session.history_after_of_drawn hr
    rw [hr, Option.toList_some, List.singleton_append] at hdrawn
    refine ⟨?_, ?_, ?_⟩
    · rw [hhistory, History.limit_push, h.limit]
    · -- A record that was dropped earlier has only become older.
      rw [hhistory, hdrawn, History.records_push, h.records, h.limit, take_cons_take]
    · rw [hdrawn]
      intro r' hr'
      rcases List.mem_cons.mp hr' with rfl | hr'
      · exact hk.truthful_of_drawn hr
      · exact h.truthful r' hr'

/-- After every run the newest of the records drawn are kept, and all drawn are truthful. -/
theorem keeps_run (c : Config) (moves : List (Move S)) : (run c moves).Keeps c.historyLimit := by
  -- That the records are truthful needs the dice selected, so both invariants go through together.
  have hboth : (run c moves).Reflects ∧ (run c moves).Keeps c.historyLimit :=
    run_induction (P := fun k => k.Reflects ∧ k.Keeps c.historyLimit)
      ⟨reflects_start c, keeps_start c⟩ (fun _ m h => ⟨h.1.step m, h.2.step h.1 m⟩) moves
  exact hboth.2

/-- After any run the past rolls are the newest of the records drawn since the last clear, newest
    first and as many as the limit allows.  Each has notation of its pool as its text and shows as
    many faces as the pool has dice; its outcome is the total of the faces, which the pool's law
    lists, and its probability is the one listed. -/
theorem records_of_run (c : Config) (moves : List (Move S)) :
    let s := Session.reach c moves
    s.history.records = (run c moves).drawn.take c.historyLimit ∧
    ∀ r ∈ s.history.records,
      Pool.read r.raw = .ok r.pool ∧
      r.faces.length = r.pool.count.toNat ∧
      (∀ face ∈ r.faces, 1 ≤ face.toNat ∧ face.toNat ≤ r.pool.faces.toNat) ∧
      r.outcome = r.pool.offset.toInt + faceSum r.faces ∧
      (r.outcome, r.probability) ∈ (r.pool.law : Law Float).distribution.entries := by
  rw [← session_run]
  intro s
  have hkeeps : (run c moves).Keeps c.historyLimit := keeps_run c moves
  refine ⟨hkeeps.records, fun r hr => ?_⟩
  rw [show s.history.records = _ from hkeeps.records] at hr
  obtain ⟨hread, hshows, houtcome, hprobability⟩ := hkeeps.truthful r (List.mem_of_mem_take hr)
  exact ⟨hread, hshows.length, hshows.range, houtcome, hprobability⟩

end Chronicle

end Dice
