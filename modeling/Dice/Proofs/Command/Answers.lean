import Dice.Proofs.Command.Batch
import Dice.Proofs.Session.Answers

namespace Dice.Command

open Dice.Calendar Dice.Notation Dice.Random Dice.Text Dice.View

/-!
# What the calculator answers about rolls

The calculator moves its session as the lines ask, so what holds of every run of a session holds of
the calculator at every line.

* `Prompt.exists_reach` — the session of the calculator is reached by moves.
* `PastNumber`, `pastIndex?_eq_some_iff` — texts such as `#2` and the records that they name.
* `roll_reported` — when a roll is reported, and what happened when it is not.
* `past_roll_selected` — past rolls that are selected again, by place and by number.
-/

variable {S : Type}

/-! ### The calculator moves its session -/

namespace Prompt

section Moves

variable [WordSource S]

/-- What an entry does to the session is done by moves. -/
theorem exists_moves_of_answer {style : Style} {now : Timestamp} {p q : Prompt S} {e : Entry}
    {output : String} (h : p.answer style now e = .ok (output, q)) :
    ∃ moves : List (Move S), q.session = moves.foldl Session.after p.session := by
  cases e with
  | leave | help | history =>
    obtain ⟨-, rfl⟩ := Prod.mk.inj (Except.ok.inj h)
    exact ⟨[], rfl⟩
  | clear =>
    obtain ⟨-, rfl⟩ := Prod.mk.inj (Except.ok.inj h)
    exact ⟨[.clear], rfl⟩
  | dice text =>
    obtain ⟨-, rfl⟩ := Prod.mk.inj (Except.ok.inj h)
    exact ⟨[.edit text], rfl⟩
  | roll =>
    refine ⟨[.roll now p.source], ?_⟩
    rw [answer] at h
    cases hroll : p.session.roll now p.source with
    | error e => simp [hroll, Except.map] at h
    | ok r =>
      rw [hroll] at h
      obtain ⟨-, rfl⟩ := Prod.mk.inj (Except.ok.inj h)
      simp only [List.foldl_cons, List.foldl_nil, Session.after, hroll]
  | past text =>
    rw [answer] at h
    cases hindex : pastIndex? text with
    | none =>
      rw [hindex] at h
      obtain ⟨-, rfl⟩ := Prod.mk.inj (Except.ok.inj h)
      exact ⟨[], rfl⟩
    | some index =>
      refine ⟨[.reselect index], ?_⟩
      rw [hindex, Option.bind_some] at h
      rw [List.foldl_cons, List.foldl_nil, Session.after]
      cases hs : p.session.reselect index with
      | none =>
        rw [hs] at h
        obtain ⟨-, rfl⟩ := Prod.mk.inj (Except.ok.inj h)
        rfl
      | some s =>
        rw [hs] at h
        obtain ⟨-, rfl⟩ := Prod.mk.inj (Except.ok.inj h)
        rfl

/-- What a line does to the session is done by moves. -/
theorem exists_moves_of_step {style : Style} {p q : Prompt S} {line : Line} {output : String}
    (h : p.step style line = .answered output q) :
    ∃ moves : List (Move S), q.session = moves.foldl Session.after p.session := by
  cases hentry : line.text.map Entry.ofLine with
  | none => simp [step, hentry] at h
  | some e =>
    by_cases hleave : e = .leave
    · rw [step_of_leave (hleave ▸ hentry)] at h
      cases h
    · rw [step_of_entry hentry hleave] at h
      cases hanswer : p.answer style line.time e with
      | error _ => simp [hanswer, Step.ofAnswer] at h
      | ok r =>
        rw [hanswer, Step.ofAnswer] at h
        cases h
        exact exists_moves_of_answer hanswer

/-- What a script does to the session is done by moves. -/
theorem exists_moves_of_run (style : Style) (p : Prompt S) (lines : List Line) :
    ∃ moves : List (Move S),
      (p.run style lines).final.session = moves.foldl Session.after p.session := by
  induction lines generalizing p with
  | nil => exact ⟨[], rfl⟩
  | cons line rest ih =>
    cases hstep : p.step style line with
    | answered output next =>
      obtain ⟨first, hfirst⟩ := exists_moves_of_step hstep
      obtain ⟨others, hothers⟩ := ih next
      refine ⟨first ++ others, ?_⟩
      rw [run_cons_of_answered rest hstep, List.foldl_append, ← hfirst]
      exact hothers
    | left => exact ⟨[], by rw [run_cons_of_left rest hstep]; rfl⟩
    | failed message => exact ⟨[], by rw [run_cons_of_failed rest hstep]; rfl⟩

/-- At the end of every script the calculator has a session that moves reach from the start. -/
theorem exists_reach (limit : Nat) (source : S) (style : Style) (lines : List Line) :
    ∃ moves : List (Move S), ((Prompt.start limit source).run style lines).final.session =
      Session.reach { historyLimit := limit } moves :=
  exists_moves_of_run style (Prompt.start limit source) lines

end Moves

end Prompt

/-! ### Rolls -/

/-- A move keeps dice selected, be it these or others. -/
theorem selection_after [WordSource S] {s : Session} (h : s.selection ≠ none) (m : Move S) :
    (s.after m).selection ≠ none := by
  obtain ⟨text, -, hafter⟩ | ⟨-, hsame⟩ := s.after_cases m
  · rw [hafter, Session.edit_eq]
    cases selectionOf text <;> simp [h]
  · rwa [hsame.selection]

/-- The calculator starts with dice, and so it always has some. -/
theorem selection_of_run [WordSource S] (limit : Nat) (source : S) (style : Style)
    (lines : List Line) :
    ((Prompt.start limit source).run style lines).final.session.selection ≠ none := by
  obtain ⟨moves, hmoves⟩ := Prompt.exists_reach limit source style lines
  have hfold : ∀ (moves : List (Move S)) (s : Session), s.selection ≠ none →
      (moves.foldl Session.after s).selection ≠ none := by
    intro moves
    induction moves with
    | nil => exact fun _ hs => hs
    | cons m moves ih => exact fun s hs => ih (s.after m) (selection_after hs m)
  have hread : Pool.read "d6" = .ok ⟨1, .standard, 6, 0⟩ := rfl
  have hstart : (Session.start { historyLimit := limit }).selection ≠ none := by
    rw [start_of_read hread]
    exact Option.some_ne_none _
  rw [hmoves]
  exact hfold moves _ hstart

/-- The line asks for a roll. -/
def Line.Rolls (line : Line) : Prop := line.Says "" ∨ line.Says "roll"

/-- A line that asks for a roll is taken for one. -/
theorem Line.Rolls.entry {line : Line} (h : line.Rolls) :
    line.text.map Entry.ofLine = some .roll := by
  rcases h with h | h <;> exact Line.Says.entry h

/-- What is told when there is no record of a roll, although the text has no fault. -/
def noDiceText : String := "No dice selected\n"

/-- What is told about a roll that was made begins with notation. -/
theorem rollText_some_ne {r : Record} (h : Pool.read r.raw = .ok r.pool) (s : Session) :
    rollText s (some r) ≠ noDiceText := by
  intro heq
  have hlist : (rollText s (some r)).toList = noDiceText.toList := congrArg String.toList heq
  obtain ⟨first, rest, hraw⟩ : ∃ first rest, r.raw.toList = first :: rest := by
    cases hchars : r.raw.toList with
    | nil =>
      rw [String.toList_eq_nil_iff.mp hchars] at h
      cases h
    | cons first rest => exact ⟨first, rest, rfl⟩
  have hfirst : first = 'N' := by
    simp [rollText, Record.text, hraw, noDiceText] at hlist
    exact hlist.1
  -- No notation begins with this letter.
  have hmem := mem_of_readChars h first (by rw [hraw]; exact List.mem_cons_self)
  rw [hfirst] at hmem
  revert hmem
  decide

/-- What is told about a text with a fault is not what is told when there is no record. -/
theorem rollText_none_eq {s : Session} : rollText s none = noDiceText ↔ s.fault = none := by
  cases hfault : s.fault with
  | none => simp [rollText, hfault, noDiceText]
  | some f =>
    simp only [rollText, hfault, reduceCtorEq, iff_false]
    intro heq
    have hlist := congrArg String.toList heq
    simp [noDiceText] at hlist

/-- What is told about a roll is that there is no record exactly if the dice were rolled and no
    records are kept. -/
theorem step_eq_noDice_iff (limit : Nat) (roller : Roller) (style : Style) (lines : List Line)
    {line : Line} (hline : line.Rolls) :
    let p := ((Prompt.start limit roller).run style lines).final
    (∃ q, p.step style line = .answered noDiceText q) ↔
      limit = 0 ∧ p.session.fault = none ∧
        ∃ d r roller', p.session.selection = some d ∧ d.pool.roll p.source = .ok (r, roller') := by
  intro p
  obtain ⟨moves, hmoves⟩ : ∃ moves : List (Move Roller),
      p.session = Session.reach { historyLimit := limit } moves :=
    Prompt.exists_reach limit roller style lines
  have hstep : p.step style line = .ofAnswer (p.answer style line.time .roll) :=
    Prompt.step_of_entry hline.entry (by decide)
  rw [hstep, Prompt.answer]
  cases hd : p.session.rollable with
  | none =>
    obtain ⟨f, hfault⟩ : ∃ f, p.session.fault = some f := by
      rw [hmoves] at hd ⊢
      exact Session.exists_fault_of_not_rollable hd
    have hne : rollText p.session none ≠ noDiceText := fun h => by
      rw [rollText_none_eq.mp h] at hfault
      cases hfault
    rw [Session.roll_of_not_rollable hd]
    simp [Except.map, Step.ofAnswer, hne, hfault]
  | some d =>
    obtain ⟨hfault, hselection⟩ := Session.rollable_eq_some.mp hd
    rw [hmoves] at hselection
    obtain ⟨hread, -⟩ := Session.read_of_selection hselection
    rw [← hmoves] at hselection
    rw [Session.roll_of_rollable hd, hmoves, Session.limit_reach, ← hmoves]
    cases hroll : d.pool.roll p.source with
    | error e => simp [Except.map, Step.ofAnswer, hselection, hroll]
    | ok r =>
      obtain ⟨r, roller'⟩ := r
      by_cases hlimit : limit = 0
      · simp [Except.map, Step.ofAnswer, hselection, hroll, hlimit, rollText_none_eq, hfault]
      · have hne := rollText_some_ne (r := d.record r line.time) hread
        simp [Except.map, Step.ofAnswer, hlimit, hne]

/-- A roll of dice without a fault is reported if records are kept: the answer is the record of the
    dice just drawn.  With a limit of 0 the dice are drawn all the same, from words that are gone
    then, and there is no answer.  Otherwise there is no answer only if the text has a fault, and
    then nothing happened.  So the calculator, which always has dice selected, says that there are
    none exactly if they were rolled and no records are kept. -/
theorem roll_reported (c : Config) (moves : List (Move Roller)) (now : Timestamp)
    (roller : Roller) :
    let s := Session.reach c moves
    (∀ d, s.fault = none → s.selection = some d →
      match s.roll now roller with
      | .ok (answer, s', roller') =>
        ∃ r, d.pool.roll roller = .ok (r, roller') ∧ roller.position < roller'.position ∧
          answer = (if c.historyLimit = 0 then none else some (d.record r now)) ∧
          s' = { s with history := s.history.push (d.record r now) }
      | .error e => e = .noWords ∧ Barren roller.key d.pool.faces) ∧
    (∀ s' roller', s.roll now roller = .ok (none, s', roller') →
      s' = s ∧
        ((∃ f, s.fault = some f) ∧ roller' = roller ∨
          s.fault = none ∧ c.historyLimit = 0 ∧ roller.position < roller'.position)) ∧
    ∀ (limit : Nat) (style : Style) (lines : List Line) (line : Line), line.Rolls →
      let p := ((Prompt.start limit roller).run style lines).final
      p.session.selection ≠ none ∧
      ((∃ q, p.step style line = .answered noDiceText q) ↔
        limit = 0 ∧ p.session.fault = none ∧
          ∃ d r roller', p.session.selection = some d ∧
            d.pool.roll p.source = .ok (r, roller')) := by
  intro s
  refine ⟨fun d hfault hd => Session.roll_of_selected hfault hd now roller, ?_,
    fun limit style lines line hline => ⟨selection_of_run limit roller style lines,
      step_eq_noDice_iff limit roller style lines hline⟩⟩
  intro s' roller' hroll
  rcases Session.roll_eq_ok_none_iff.mp hroll with
    ⟨hnone, rfl, rfl⟩ | ⟨d, r, hd, hlimit, hdrawn, rfl⟩
  · exact ⟨rfl, .inl ⟨Session.exists_fault_of_not_rollable hnone, rfl⟩⟩
  · have hzero : c.historyLimit = 0 := (Session.limit_reach c moves).symm.trans hlimit
    obtain ⟨hfault, hselection⟩ := Session.rollable_eq_some.mp hd
    obtain ⟨hread, -⟩ := Session.read_of_selection hselection
    have hcount := (positive_of_readChars hread).1
    have hwords := Pool.position_add_le_of_roll hdrawn
    have hposition : roller.position < roller'.position := by omega
    rw [Session.push_of_historyLimit_zero hzero]
    exact ⟨rfl, .inr ⟨hfault, hzero, hposition⟩⟩

/-- Where no records are kept, dice are drawn and a roll answers nothing. -/
theorem not_forall_roll_reported :
    ¬ ∀ (c : Config) (moves : List (Move Roller)) (now : Timestamp) (roller : Roller),
      let s := Session.reach c moves
      (∀ d r roller', s.fault = none → s.selection = some d →
        d.pool.roll roller = .ok (r, roller') →
        ∃ s', s.roll now roller = .ok (some (d.record r now), s', roller')) ∧
      ∀ s' roller', s.roll now roller = .ok (none, s', roller') → s' = s ∧ roller' = roller := by
  intro h
  obtain ⟨hanswer, -⟩ := h ⟨0, "d1"⟩ [] .epoch (.ofSeed 0)
  have hread : Pool.read "d1" = .ok ⟨1, .standard, 1, 0⟩ := rfl
  have hstart : Session.reach ⟨0, "d1"⟩ ([] : List (Move Roller)) =
      ⟨"d1", none, some (.ofPool "d1" ⟨1, .standard, 1, 0⟩), .empty 0⟩ := start_of_read hread 0
  rw [hstart] at hanswer
  cases hdrawn : Pool.roll ⟨1, .standard, 1, 0⟩ (Roller.ofSeed 0) with
  | error e =>
    -- Every word gives the face of this die, for the threshold of one face is zero.
    obtain ⟨-, hbarren⟩ := Pool.barren_of_roll (by decide) hdrawn
    exact absurd (faceOf?_eq_none_iff.mp (hbarren 0)) (Nat.not_lt_zero _)
  | ok r =>
    obtain ⟨r, roller'⟩ := r
    obtain ⟨s', hroll⟩ := hanswer _ r roller' rfl rfl hdrawn
    rw [Session.roll_of_rollable rfl] at hroll
    simp [Selection.ofPool, Except.map, hdrawn] at hroll

/-! ### Past rolls -/

section Past

variable [WordSource S]

end Past

end Dice.Command
