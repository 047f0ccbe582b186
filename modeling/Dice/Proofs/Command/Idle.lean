import Dice.Proofs.Command.Entries
import Dice.Proofs.Command.Times
import Dice.Text.Lines

namespace Dice.Command

open Dice.Calendar Dice.Notation Dice.Random Dice.Text

/-!
# Lines that do nothing

Some lines may be put into a script, or taken out of it, and no other line is answered differently.
Some change little, and what they change is made good by a later line.  Some end the run, and no
line after them counts.

* `Idle`, `PutIn` — lines that only show something, and scripts into which such lines are put.
* `Prompt.run_of_putIn` — lines put in change neither the other answers nor the calculator.
* `Line.Refused`, `Line.Accepted` — lines with notation, and lines with what is not notation.
* `Prompt.run_drop_refused` — refused lines before an accepted one make no difference.
* `Prompt.run_of_leaves`, `Prompt.run_of_notUtf8` — lines that end the run.
* `Prompt.lines_without_effect` — all of this, for scripts whose lines come in at any times.
-/

variable {S : Type}

/-! ### Lines that only show something -/

/-- The line asks for the help text, for the table of past rolls, or for a past roll that is not
    there. -/
inductive Idle (p : Prompt S) (line : Line) : Prop where
  | help (h : line.Says "help")
  | history (h : line.Says "history")
  | past {text : String} (h : line.Says text) (hsign : text.toList.head? = some '#')
      (hnone : ∀ index, pastIndex? text = some index → p.session.history.size ≤ index)

/-- A line of a script that may have been put in. -/
structure Marked where
  /-- The line. -/
  line : Line
  /-- Whether the line has been put in. -/
  extra : Bool

/-- All lines of a script. -/
def allLines (script : List Marked) : List Line := script.map (·.line)

/-- The lines of a script without those put in. -/
def keptLines (script : List Marked) : List Line := (script.filter (!·.extra)).map (·.line)

/-- The answers to the lines of a script without those to the lines put in. -/
def keptAnswers (script : List Marked) (answers : List String) : List String :=
  ((script.zip answers).filter (!·.1.extra)).map (·.2)

variable [WordSource S]

/-- Every line that was put in does nothing where the run comes to it. -/
def PutIn (style : Style) : Prompt S → List Marked → Prop
  | _, [] => True
  | p, m :: rest =>
    (m.extra = true → Idle p m.line) ∧
    ∀ output next, p.step style m.line = .answered output next → PutIn style next rest

/-! ### Notation that is accepted or refused -/

/-- The line is taken for dice, and is not notation. -/
structure Line.Refused (line : Line) (text : String) (f : Fault) : Prop where
  typed : line.Says text
  word : text ∉ words
  sign : text.toList.head? ≠ some '#'
  read : Pool.read text = .error f

/-- The line is notation. -/
structure Line.Accepted (line : Line) (text : String) (pool : Pool) : Prop where
  typed : line.Says text
  read : Pool.read text = .ok pool

/-- The line ends the run. -/
def Line.Leaves (line : Line) : Prop := line.Says "quit" ∨ line.Says "exit"

namespace Prompt

variable {style : Style} {p : Prompt S}

/-! ### One line -/

/-- A line that does nothing is answered, and the calculator stays as it was. -/
theorem step_of_idle {line : Line} (h : Idle p line) :
    ∃ output, p.step style line = .answered output p := by
  cases h with
  | help h => exact ⟨_, step_of_entry h.entry (by decide)⟩
  | history h => exact ⟨_, step_of_entry h.entry (by decide)⟩
  | @past text h hsign hnone =>
    have hentry := h.entry
    rw [Entry.ofText_past hsign] at hentry
    -- There is no such record, so there is nothing to select.
    have hreselect : (pastIndex? text).bind p.session.reselect = none := by
      cases hindex : pastIndex? text with
      | none => rfl
      | some index =>
        have hget : p.session.history.get? index = none :=
          List.getElem?_eq_none (hnone index hindex)
        rw [Option.bind_some, Session.reselect, hget, Option.map_none]
    refine ⟨"No history entry " ++ text ++ "\n", ?_⟩
    rw [step_of_entry hentry (by simp), answer, hreselect]
    rfl

/-- Forgetting the past rolls changes nothing else, and says nothing. -/
theorem step_of_clear {line : Line} (h : line.Says "clear") :
    p.step style line =
      .answered "" (p.withSession { p.session with history := p.session.history.clear }) :=
  step_of_entry h.entry (by decide)

/-- A text that is refused becomes the text of the session, with its fault; nothing else changes. -/
theorem step_of_refused {line : Line} {text : String} {f : Fault} (h : line.Refused text f) :
    p.step style line =
      .answered (caretText text f)
        (p.withSession { p.session with raw := text, fault := some f }) := by
  have hentry := h.typed.entry
  rw [Entry.ofText_dice h.word h.sign] at hentry
  have hedit : p.session.edit text = { p.session with raw := text, fault := some f } := by
    simp only [Session.edit, Selection.read, h.read, Except.map]
  rw [step_of_entry hentry (by simp), answer, hedit]
  rfl

/-- The session after notation was accepted: only the past rolls are left from before. -/
def accepting (p : Prompt S) (text : String) (pool : Pool) : Prompt S :=
  p.withSession ⟨text, none, some (.ofPool text pool), p.session.history⟩

omit [WordSource S] in

/-- What is accepted does not depend on the text before, its fault and its dice. -/
theorem accepting_congr {q : Prompt S} {text : String} {pool : Pool}
    (hhistory : p.session.history = q.session.history) (hsource : p.source = q.source) :
    p.accepting text pool = q.accepting text pool := by
  simp only [accepting, withSession, hhistory, hsource]

/-- Notation selects its dice and shows their law. -/
theorem step_of_accepted {line : Line} {text : String} {pool : Pool}
    (h : line.Accepted text pool) :
    p.step style line =
      .answered ((pool.law : Law Float).shown pool style.width) (p.accepting text pool) := by
  have hentry := h.typed.entry
  rw [Entry.ofText_of_read h.read] at hentry
  have hedit : p.session.edit text =
      ⟨text, none, some (.ofPool text pool), p.session.history⟩ := by
    simp only [Session.edit, Selection.read, h.read, Except.map]
  rw [step_of_entry hentry (by simp), answer, hedit]
  rfl

/-- A line that leaves the calculator is not answered. -/
theorem step_of_leaves {line : Line} (h : line.Leaves) : p.step style line = .left := by
  rcases h with h | h <;> exact step_of_leave h.entry

/-- No other line ends the run without a failure. -/
theorem leaves_of_step {line : Line} (h : p.step style line = .left) : line.Leaves := by
  obtain ⟨time, text⟩ := line
  cases text with
  | none =>
    rw [step_of_notUtf8 rfl] at h
    cases h
  | some typed =>
    have hsays : Line.Says ⟨time, some typed⟩ (trim typed) := ⟨typed, rfl, rfl⟩
    by_cases hleave : Entry.ofText (trim typed) = .leave
    · rcases Entry.eq_of_ofText_eq_leave hleave with hword | hword
      · exact .inl (hword ▸ hsays)
      · exact .inr (hword ▸ hsays)
    · rw [step_of_entry hsays.entry hleave] at h
      cases hanswer : p.answer style time (Entry.ofText (trim typed)) <;>
        simp [hanswer, Step.ofAnswer] at h

/-! ### Lines put in -/

/-- Lines that do nothing, put into a script, change neither the answers to the other lines nor the
    calculator. -/
theorem run_of_putIn {script : List Marked} (h : PutIn style p script) :
    let t := p.run style (allLines script)
    p.run style (keptLines script) = { t with answers := keptAnswers script t.answers } := by
  induction script generalizing p with
  | nil => rfl
  | cons m rest ih =>
    obtain ⟨line, extra⟩ := m
    obtain ⟨hidle, hrest⟩ := h
    cases extra with
    | true =>
      -- The line put in leaves the calculator where it was, and its answer is left out.
      obtain ⟨output, hstep⟩ : ∃ output, p.step style line = .answered output p :=
        step_of_idle (hidle rfl)
      have hkept := ih (hrest output p hstep)
      simp only [allLines, keptLines, List.map_cons] at hkept ⊢
      rw [run_cons_of_answered _ hstep]
      exact hkept
    | false =>
      cases hstep : p.step style line with
      | answered output next =>
        have hkept := ih (hrest output next hstep)
        simp only [allLines, keptLines, List.map_cons, List.filter_cons] at hkept ⊢
        rw [run_cons_of_answered _ hstep, if_pos (by rfl), List.map_cons,
          run_cons_of_answered _ hstep, hkept]
        rfl
      | left =>
        simp only [allLines, keptLines, List.map_cons, List.filter_cons]
        rw [run_cons_of_left _ hstep, if_pos (by rfl), List.map_cons, run_cons_of_left _ hstep]
        rfl
      | failed message =>
        simp only [allLines, keptLines, List.map_cons, List.filter_cons]
        rw [run_cons_of_failed _ hstep, if_pos (by rfl), List.map_cons, run_cons_of_failed _ hstep]
        rfl

/-! ### Refused lines before an accepted one -/

/-- Lines that are refused are all answered, and past rolls and source stay as they were. -/
theorem reaches_of_refused {refused : List Line}
    (h : ∀ line ∈ refused, ∃ text f, line.Refused text f) :
    p.Reaches style refused ∧
      (p.run style refused).final.session.history = p.session.history ∧
      (p.run style refused).final.source = p.source := by
  induction refused generalizing p with
  | nil => exact ⟨reaches_nil, rfl, rfl⟩
  | cons line rest ih =>
    obtain ⟨text, f, hline⟩ := h line List.mem_cons_self
    have hstep : p.step style line = _ := step_of_refused hline
    obtain ⟨hreaches, hhistory, hsource⟩ :=
      ih (p := p.withSession _) fun l hl => h l (List.mem_cons_of_mem _ hl)
    rw [reaches_cons hstep, run_cons_of_answered rest hstep]
    exact ⟨hreaches, hhistory, hsource⟩

/-- Refused lines right before an accepted one add their answers, and make no other difference. -/
theorem run_refused_append {refused after : List Line} {accepted : Line} {text : String}
    {pool : Pool} (h : ∀ line ∈ refused, ∃ text f, line.Refused text f)
    (haccepted : accepted.Accepted text pool) :
    let t := p.run style (accepted :: after)
    p.run style (refused ++ accepted :: after) =
      { t with answers := (p.run style refused).answers ++ t.answers } := by
  obtain ⟨hreaches, hhistory, hsource⟩ : p.Reaches style refused ∧ _ := reaches_of_refused h
  intro t
  have hstep : p.step style accepted = _ := step_of_accepted haccepted
  have hstep' : (p.run style refused).final.step style accepted = _ := step_of_accepted haccepted
  rw [accepting_congr hhistory hsource] at hstep'
  rw [run_append_of_reaches _ hreaches, run_cons_of_answered after hstep',
    show t = _ from run_cons_of_answered after hstep]

/-- Refused lines right before an accepted one, taken out of a script, take their answers with them,
    and make no other difference. -/
theorem run_drop_refused (before : List Line) {refused after : List Line} {accepted : Line}
    {text : String} {pool : Pool} (h : ∀ line ∈ refused, ∃ text f, line.Refused text f)
    (haccepted : accepted.Accepted text pool) :
    let t := p.run style (before ++ (refused ++ accepted :: after))
    p.run style (before ++ accepted :: after) =
      { t with
        answers :=
          t.answers.take before.length ++ t.answers.drop (before.length + refused.length) } := by
  intro t
  by_cases hbefore : p.Reaches style before
  · have hlength : (p.run style before).answers.length = before.length := hbefore
    have hrefused : ((p.run style before).final.run style refused).answers.length =
        refused.length := (reaches_of_refused h).1
    have ht : t = _ := run_append_of_reaches (refused ++ accepted :: after) hbefore
    rw [run_refused_append h haccepted] at ht
    -- The answers stand in the order of the lines, so those to the refused ones can be cut out.
    have htake : t.answers.take before.length = (p.run style before).answers := by
      rw [ht, ← hlength]
      exact List.take_left
    have hdrop : t.answers.drop (before.length + refused.length) =
        ((p.run style before).final.run style (accepted :: after)).answers := by
      rw [ht, ← hlength, ← hrefused, ← List.length_append, ← List.append_assoc]
      exact List.drop_left
    rw [run_append_of_reaches _ hbefore, htake, hdrop, ht]
  · -- The run ends before it comes to the refused lines.
    have ht : t = p.run style before := run_append_of_not_reaches _ hbefore
    have hlength := length_answers_le style p before
    rw [run_append_of_not_reaches _ hbefore, ht, List.take_of_length_le hlength,
      List.drop_eq_nil_of_le (by omega), List.append_nil]

/-! ### Lines that end the run -/

/-- A line that ends the run ends it, whatever comes after the line. -/
theorem run_of_leaves (before after : List Line) {leaving : Line} (h : leaving.Leaves) :
    p.run style (before ++ leaving :: after) = p.run style before := by
  by_cases hbefore : p.Reaches style before
  · rw [run_append_of_reaches _ hbefore, run_cons_of_left after (step_of_leaves h),
      List.append_nil, ← failure_of_reaches hbefore]
  · exact run_append_of_not_reaches _ hbefore

/-- If no line leaves, a run that does not come to its end fails. -/
theorem failure_isSome_of_not_reaches {lines : List Line} (h : ¬ p.Reaches style lines)
    (hstay : ∀ line ∈ lines, ¬ line.Leaves) : (p.run style lines).failure.isSome := by
  induction lines generalizing p with
  | nil => exact absurd reaches_nil h
  | cons line rest ih =>
    cases hstep : p.step style line with
    | answered output next =>
      rw [run_cons_of_answered rest hstep]
      exact ih (mt (reaches_cons hstep).mpr h) fun l hl => hstay l (List.mem_cons_of_mem _ hl)
    | left => exact absurd (leaves_of_step hstep) (hstay line List.mem_cons_self)
    | failed message =>
      rw [run_cons_of_failed rest hstep]
      rfl

/-- A line that is not UTF-8 ends the run with a failure after the answers to the lines before it,
    unless one of these does so earlier. -/
theorem run_of_notUtf8 {before : List Line} (after : List Line) {bad : Line} (h : bad.text = none)
    (hstay : ∀ line ∈ before, ¬ line.Leaves) :
    p.run style (before ++ bad :: after) =
      { p.run style before with
        failure := some ((p.run style before).failure.getD notUtf8) } := by
  by_cases hbefore : p.Reaches style before
  · rw [run_append_of_reaches _ hbefore, run_cons_of_failed after (step_of_notUtf8 h),
      failure_of_reaches hbefore, List.append_nil]
    rfl
  · obtain ⟨message, hmessage⟩ :=
      Option.isSome_iff_exists.mp (failure_isSome_of_not_reaches hbefore hstay)
    rw [run_append_of_not_reaches _ hbefore, hmessage, Option.getD_some, ← hmessage]

end Prompt

/-! ### Scripts of bytes -/

/-- The bytes before a line feed and those after it are cut into lines apart. -/
theorem byteLines_append (bytes rest : List UInt8) :
    byteLines (bytes ++ 10 :: rest) = byteLines (bytes ++ [10]) ++ byteLines rest := by
  have hsplit : ∀ rest : List UInt8,
      (bytes ++ 10 :: rest).splitOn 10 = bytes.splitOn 10 ++ rest.splitOn 10 := by
    intro rest
    induction bytes with
    | nil => simp [List.splitOn, List.splitOnP_cons_eq_if_modifyHead]
    | cons byte bytes ih =>
      simp only [List.splitOn, List.cons_append, List.splitOnP_cons_eq_if_modifyHead] at ih ⊢
      rw [ih]
      split
      · rfl
      · obtain ⟨part, parts, hparts⟩ := List.exists_cons_of_ne_nil
          (List.splitOnP_ne_nil (fun x => x == 10) bytes)
        rw [hparts]
        rfl
  -- Whether the last line is left out is decided by the bytes after the line feed.
  have hlines : ∀ rest : List UInt8,
      byteLines (bytes ++ 10 :: rest) = bytes.splitOn 10 ++ byteLines rest := by
    intro rest
    have hne : rest.splitOn 10 ≠ [] := List.splitOnP_ne_nil _ _
    simp only [byteLines]
    rw [hsplit, List.getLast?_append_of_ne_nil _ hne, List.dropLast_append_of_ne_nil hne]
    split <;> rfl
  rw [hlines, hlines []]
  simp [byteLines]

/-- The lines of a script, each coming in at the time that a clock tells. -/
def scriptLines (clock : Nat → Timestamp) (bytes : List UInt8) : List Line :=
  (byteLines bytes).mapIdx fun n line => ⟨clock n, lineText? line⟩

/-- Bytes after a line feed add lines, and change none before them. -/
theorem exists_scriptLines_append (clock : Nat → Timestamp) (bytes rest : List UInt8) :
    ∃ after, scriptLines clock (bytes ++ 10 :: rest) =
      scriptLines clock (bytes ++ [10]) ++ after := by
  rw [scriptLines, byteLines_append, List.mapIdx_append]
  exact ⟨_, rfl⟩

namespace Prompt

variable {style : Style} {p : Prompt S}

/-- Bytes after the line feed of a line that ends the run do not count, whether they are UTF-8 or
    not. -/
theorem run_scriptLines_of_leaves (clock : Nat → Timestamp) (bytes rest : List UInt8)
    (h : ∃ line ∈ scriptLines clock (bytes ++ [10]), line.Leaves) :
    p.run style (scriptLines clock (bytes ++ 10 :: rest)) =
      p.run style (scriptLines clock (bytes ++ [10])) := by
  obtain ⟨leaving, hmem, hleaves⟩ := h
  obtain ⟨before, between, hlines⟩ := List.append_of_mem hmem
  obtain ⟨after, hafter⟩ := exists_scriptLines_append clock bytes rest
  rw [hafter, hlines, List.append_assoc, List.cons_append, run_of_leaves _ _ hleaves,
    run_of_leaves _ _ hleaves]

end Prompt

/-! ### Lines without effect -/

/-- The run ends as another one does: it fails alike, and leaves the same source and, but for the
    times of its records, the same session. -/
structure Transcript.EndsLike (t t' : Transcript S) : Prop where
  failure : t.failure = t'.failure
  session : t.final.session.untimed = t'.final.session.untimed
  source : t.final.source = t'.final.source

namespace Prompt

omit [WordSource S] in
/-- Runs that are the same but for times end alike. -/
theorem endsLike_of_untimed_eq {t t' : Transcript S} (h : t.untimed = t'.untimed) :
    t.EndsLike t' where
  failure := by rw [show t.failure = t.untimed.failure from rfl, h]; rfl
  session := by rw [show t.final.session.untimed = t.untimed.final.session from rfl, h]; rfl
  source := by rw [show t.final.source = t.untimed.final.source from rfl, h]; rfl

/-- Lines that come in at other times are answered alike, and end the run alike. -/
theorem run_of_texts_eq (style : Style) (p : Prompt S) {lines lines' : List Line}
    (h : lines.map (·.text) = lines'.map (·.text)) :
    (p.run style lines).answers = (p.run style lines').answers ∧
      (p.run style lines).EndsLike (p.run style lines') := by
  have hrun := p.run_untimed style rfl h
  refine ⟨?_, endsLike_of_untimed_eq hrun⟩
  rw [show (p.run style lines).answers = (p.run style lines).untimed.answers from rfl, hrun]
  rfl

/-- Lines that do nothing do nothing.  Help, the table and past rolls that are not there can be
    asked for anywhere, and neither the other answers nor the calculator change.  Forgetting the
    past rolls changes these only.  What is refused changes the text and its fault only, so that any
    number of refused lines right before an accepted one make no difference.  Nothing counts after a
    line that ends the run, not even bytes that are not UTF-8, and such bytes before it end the run
    with a failure after the answers to the lines before them. -/
theorem lines_without_effect (style : Style) (p : Prompt S) :
    (∀ (script : List Marked) (kept : List Line), PutIn style p script →
      kept.map (·.text) = (keptLines script).map (·.text) →
      let t := p.run style (allLines script)
      (p.run style kept).answers = keptAnswers script t.answers ∧ (p.run style kept).EndsLike t) ∧
    (∀ line : Line, line.Says "clear" →
      p.step style line =
        .answered "" ⟨{ p.session with history := p.session.history.clear }, p.source⟩) ∧
    (∀ (line : Line) (text : String) (f : Fault), line.Refused text f →
      p.step style line =
        .answered (caretText text f) ⟨{ p.session with raw := text, fault := some f }, p.source⟩) ∧
    (∀ (before refused after kept : List Line) (accepted : Line) (text : String) (pool : Pool),
      (∀ line ∈ refused, ∃ text f, line.Refused text f) → accepted.Accepted text pool →
      kept.map (·.text) = (before ++ accepted :: after).map (·.text) →
      let t := p.run style (before ++ (refused ++ accepted :: after))
      (p.run style kept).answers =
        t.answers.take before.length ++ t.answers.drop (before.length + refused.length) ∧
      (p.run style kept).EndsLike t) ∧
    (∀ (before after : List Line) (leaving : Line), leaving.Leaves →
      p.run style (before ++ leaving :: after) = p.run style before) ∧
    (∀ (clock : Nat → Timestamp) (bytes rest : List UInt8),
      (∃ line ∈ scriptLines clock (bytes ++ [10]), line.Leaves) →
      p.run style (scriptLines clock (bytes ++ 10 :: rest)) =
        p.run style (scriptLines clock (bytes ++ [10]))) ∧
    (∀ (before after : List Line) (bad : Line), bad.text = none →
      (∀ line ∈ before, ¬ line.Leaves) →
      let t := p.run style (before ++ bad :: after)
      t.answers = (p.run style before).answers ∧
      t.failure = some ((p.run style before).failure.getD notUtf8)) := by
  refine ⟨?_, fun _ h => step_of_clear h, fun _ _ _ h => step_of_refused h, ?_,
    fun before after _ h => run_of_leaves before after h, run_scriptLines_of_leaves, ?_⟩
  · intro script kept hscript hkept t
    obtain ⟨hanswers, hends⟩ := p.run_of_texts_eq style hkept
    rw [run_of_putIn hscript] at hanswers hends
    exact ⟨hanswers, hends.failure, hends.session, hends.source⟩
  · intro before refused after kept accepted text pool hrefused haccepted hkept t
    obtain ⟨hanswers, hends⟩ := p.run_of_texts_eq style hkept
    rw [run_drop_refused before hrefused haccepted] at hanswers hends
    exact ⟨hanswers, hends.failure, hends.session, hends.source⟩
  · intro before after bad hbad hstay t
    have ht : t = _ := run_of_notUtf8 after hbad hstay
    rw [ht]
    exact ⟨rfl, rfl⟩

/-- Help, and a past roll that is not there, can be asked for before the end; dice are refused twice
    and then accepted; and nothing counts after the end. -/
theorem lines_without_effect_d8 :
    let style : Style := ⟨false, 4⟩
    let p : Prompt (List UInt32) := .start 3 []
    let line (text : String) : Line := ⟨.epoch, some text⟩
    let script : List Marked := [⟨line "help", true⟩, ⟨line "#7", true⟩, ⟨line "exit", false⟩]
    (p.run style [line "exit"]).answers =
        keptAnswers script (p.run style (allLines script)).answers ∧
      (p.run style [line "d8", line "quit"]).answers =
        (p.run style [line "d", line "8", line "d8", line "quit"]).answers.drop 2 ∧
      p.run style [line "d8", line "quit", ⟨.epoch, none⟩] = p.run style [line "d8"] := by
  intro style p line script
  have hline : ∀ text, trim text = text → (line text).Says text :=
    fun text htrim => ⟨text, rfl, htrim⟩
  have hhelp : Idle p (line "help") := .help (hline "help" (by decide +kernel))
  have hpast : Idle p (line "#7") :=
    .past (hline "#7" (by decide +kernel)) rfl fun _ _ => Nat.zero_le _
  have hputIn : PutIn style p script := by
    refine ⟨fun _ => hhelp, fun _ _ hstep => ?_⟩
    obtain ⟨_, hstep'⟩ : ∃ output, p.step style (line "help") = .answered output p :=
      step_of_idle hhelp
    obtain ⟨-, rfl⟩ := Step.answered.inj (hstep'.symm.trans hstep)
    exact ⟨fun _ => hpast, fun _ _ _ => ⟨(nomatch ·), fun _ _ _ => trivial⟩⟩
  have hrefused : ∀ l ∈ [line "d", line "8"], ∃ text f, l.Refused text f := by
    simp only [List.mem_cons, List.not_mem_nil, or_false]
    rintro l (rfl | rfl)
    · exact ⟨"d", _, hline "d" (by decide +kernel), by decide, by decide, rfl⟩
    · exact ⟨"8", _, hline "8" (by decide +kernel), by decide, by decide, rfl⟩
  have haccepted : (line "d8").Accepted "d8" _ := ⟨hline "d8" (by decide +kernel), rfl⟩
  have hleaves : (line "quit").Leaves := .inl (hline "quit" (by decide +kernel))
  have h := lines_without_effect style p
  exact ⟨(h.1 script [line "exit"] hputIn rfl).1,
    (h.2.2.2.1 [] _ [line "quit"] _ (line "d8") "d8" _ hrefused haccepted rfl).1,
    h.2.2.2.2.1 [line "d8"] [⟨.epoch, none⟩] (line "quit") hleaves⟩

end Prompt

end Dice.Command
