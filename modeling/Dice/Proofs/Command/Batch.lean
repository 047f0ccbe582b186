import Dice.Command.Reply
import Dice.Proofs.Command.CommandLines
import Dice.Proofs.Command.Idle
import Dice.Proofs.Json.Sessions
import Dice.Proofs.Random.Streams
import Dice.Proofs.View.Table

namespace Dice

open Dice.Calendar Dice.Json Dice.Notation Dice.Random Dice.Text Dice.View

/-!
# Rolls by command and rolls by line

Some rolls asked for on the command line are the rolls that the interactive calculator makes when
the same notation is typed and then as many rolls are asked for: from the same seed, with a history
that keeps as many, the table and the records are the same.

* `recordsOf`, `rollTimes_eq` — the command keeps the record of every roll.
* `Prompt.run_of_rollTimes` — the lines make the same rolls as the command.
* `promptReply_of_rollTimes`, `historyTable_of_read` — the table that is printed of them.
* `Tells`, `tells_encode` — what the elements of an array say of the records.
* `roll_agrees_with_prompt` — whole command lines.
-/

variable {S : Type} [WordSource S]

namespace Command

/-- A history with room keeps one more record. -/
theorem push_of_room {h : History} (hroom : h.size < h.limit) (r : Record) :
    h.push r = { h with records := r :: h.records } := by
  rw [History.push, List.take_of_length_le]
  exact hroom

/-- The records of some rolls of the selected dice, the newest first.  The clock tells the time of
    each roll by the number of rolls made before. -/
def recordsOf (d : Selection) (clock : Nat → Timestamp) (made : Nat) (rolls : List Roll) :
    List Record :=
  (rolls.mapIdx fun n roll => d.record roll (clock (made + n))).reverse

/-- The first roll has the oldest record. -/
theorem recordsOf_cons (d : Selection) (clock : Nat → Timestamp) (made : Nat) (roll : Roll)
    (rolls : List Roll) :
    recordsOf d clock made (roll :: rolls) =
      recordsOf d clock (made + 1) rolls ++ [d.record roll (clock made)] := by
  simp only [recordsOf, List.mapIdx_cons, List.reverse_cons, Nat.add_zero, Nat.add_assoc,
    Nat.add_comm 1]

/-- There is a record of each roll. -/
@[simp] theorem length_recordsOf (d : Selection) (clock : Nat → Timestamp) (made : Nat)
    (rolls : List Roll) : (recordsOf d clock made rolls).length = rolls.length := by
  simp [recordsOf]

/-- Every record is that of a roll, made at some time. -/
theorem exists_roll_of_mem {d : Selection} {clock : Nat → Timestamp} {made : Nat}
    {rolls : List Roll} {r : Record} (h : r ∈ recordsOf d clock made rolls) :
    ∃ roll time, r = d.record roll time := by
  rw [recordsOf, List.mem_reverse, List.mem_mapIdx] at h
  obtain ⟨n, hn, rfl⟩ := h
  exact ⟨_, _, rfl⟩

/-- As long as the history has room, the record of every roll is kept, the newest first. -/
theorem rollTimes_eq (clock : Nat → Timestamp) (made count : Nat) {s : Session} {d : Selection}
    (h : s.rollable = some d) (hroom : s.history.size + count ≤ s.history.limit) (source : S) :
    rollTimes clock made count ⟨s, source⟩ =
      (d.pool.rolls count source).map fun r =>
        ⟨{ s with history := { s.history with
            records := recordsOf d clock made r.1 ++ s.history.records } }, r.2⟩ := by
  induction count generalizing s source made with
  | zero => rfl
  | succ count ih =>
    rw [rollTimes, Pool.rolls]
    simp only [Session.roll, h]
    cases hroll : d.pool.roll source with
    | error e => rfl
    | ok r =>
      obtain ⟨roll, next⟩ := r
      -- The other rolls start from the session that keeps the record of this one.
      have hrest := ih (made + 1)
        (s := { s with history := s.history.push (d.record roll (clock made)) }) h
        (by
          rw [push_of_room (by omega)]
          simp only [History.size, List.length_cons] at hroom ⊢
          omega) next
      simp only [Except.map, push_of_room (show s.history.size < s.history.limit by omega)]
        at hrest ⊢
      rw [hrest]
      cases d.pool.rolls count next with
      | error e => rfl
      | ok r => simp [recordsOf_cons]

/-- Notation that a session starts with is selected. -/
theorem start_of_read {text : String} {pool : Pool} (h : Pool.read text = .ok pool)
    (history : Nat) :
    Session.start ⟨history, text⟩ = ⟨text, none, some (.ofPool text pool), .empty history⟩ := by
  simp only [Session.start, Session.edit, Selection.read, h, Except.map]

/-- From the start, a history that keeps as many records as there are rolls keeps them all. -/
theorem rollTimes_start {text : String} {pool : Pool} (h : Pool.read text = .ok pool)
    (clock : Nat → Timestamp) (count : Nat) (source : S) :
    rollTimes clock 0 count ⟨Session.start ⟨count, text⟩, source⟩ =
      (pool.rolls count source).map fun r =>
        ⟨⟨text, none, some (.ofPool text pool),
          ⟨count, recordsOf (.ofPool text pool) clock 0 r.1⟩⟩, r.2⟩ := by
  have hroom : (History.empty count).size + count ≤ (History.empty count).limit :=
    Nat.le_of_eq (Nat.zero_add count)
  rw [start_of_read h, rollTimes_eq clock 0 count (d := .ofPool text pool) rfl hroom]
  simp only [History.records_empty, History.limit_empty, List.append_nil]
  rfl

/-- The reply to the command: the table or the array of the records of all rolls, or the reason why
    there are none. -/
theorem rollReply_of_read {text : String} {pool : Pool} (h : Pool.read text = .ok pool)
    (color : Bool) (clock : Nat → Timestamp) (count : Nat) (json : Bool) (source : S) :
    rollReply color clock text count json source =
      match pool.rolls count source with
      | .error e => .failed e.message
      | .ok (rolls, _) =>
        let records := recordsOf (.ofPool text pool) clock 0 rolls
        .done (if json then toJson .pretty records ++ "\n"
          else historyTable color ⟨count, records⟩) := by
  have hfault : (Session.start ⟨count, text⟩).fault = none := by rw [start_of_read h]
  simp only [rollReply, hfault, rollTimes_start h]
  cases pool.rolls count source <;> rfl

/-! ### The same rolls by line -/

/-- Lines with some texts, each coming in at the time that a clock tells. -/
def linesAt (clock : Nat → Timestamp) (texts : List String) : List Line :=
  texts.mapIdx fun n text => ⟨clock n, some text⟩

/-- The texts of the lines are those given. -/
theorem map_text_linesAt (clock : Nat → Timestamp) (texts : List String) :
    (linesAt clock texts).map (·.text) = texts.map some := by
  apply List.ext_getElem <;> simp [linesAt]

namespace Prompt

variable {style : Style} {p : Prompt S}

/-- A line that asks for a roll makes one. -/
theorem step_of_roll {line : Line} (h : line.Says "roll") :
    p.step style line =
      .ofAnswer ((p.session.roll line.time p.source).map fun r =>
        (rollText r.2.1 r.1, ⟨r.2.1, r.2.2⟩)) :=
  step_of_entry h.entry (by decide)

/-- Lines that ask for as many rolls, coming in at the times of the rolls of the command. -/
def rollLines (clock : Nat → Timestamp) (made count : Nat) : List Line :=
  (List.range' made count).map fun n => ⟨clock n, some "roll"⟩

omit [WordSource S] in
/-- One line more comes in first. -/
theorem rollLines_succ (clock : Nat → Timestamp) (made count : Nat) :
    rollLines clock made (count + 1) =
      ⟨clock made, some "roll"⟩ :: rollLines clock (made + 1) count := by
  rw [rollLines, List.range'_succ, List.map_cons]
  rfl

/-- Lines that ask for rolls make the rolls that the command makes, and leave the same
    calculator. -/
theorem run_of_rollTimes (style : Style) {clock : Nat → Timestamp} {made count : Nat}
    {p q : Prompt S} (h : rollTimes clock made count p = .ok q) :
    p.Reaches style (rollLines clock made count) ∧
      (p.run style (rollLines clock made count)).final = q := by
  induction count generalizing p made with
  | zero => exact ⟨reaches_nil, Except.ok.inj h⟩
  | succ count ih =>
    have hstep : p.step style ⟨clock made, some "roll"⟩ = _ :=
      step_of_roll ⟨"roll", rfl, by decide +kernel⟩
    rw [rollTimes] at h
    cases hroll : p.session.roll (clock made) p.source with
    | error e => simp [hroll] at h
    | ok r =>
      simp only [hroll] at h hstep
      obtain ⟨hreaches, hfinal⟩ := ih h
      rw [rollLines_succ, reaches_cons hstep, run_cons_of_answered _ hstep]
      exact ⟨hreaches, hfinal⟩

/-- Where the command cannot make its rolls, the run fails for the same reason. -/
theorem run_of_rollTimes_error (style : Style) {clock : Nat → Timestamp} {made count : Nat}
    {p : Prompt S} {e : RollError} (h : rollTimes clock made count p = .error e) :
    ¬ p.Reaches style (rollLines clock made count) ∧
      (p.run style (rollLines clock made count)).failure = some e.message := by
  induction count generalizing p made with
  | zero => cases h
  | succ count ih =>
    have hstep : p.step style ⟨clock made, some "roll"⟩ = _ :=
      step_of_roll ⟨"roll", rfl, by decide +kernel⟩
    rw [rollTimes] at h
    cases hroll : p.session.roll (clock made) p.source with
    | error e' =>
      simp only [hroll] at h hstep
      obtain rfl := Except.error.inj h
      rw [rollLines_succ, Reaches, run_cons_of_failed _ hstep]
      exact ⟨by simp, rfl⟩
    | ok r =>
      simp only [hroll] at h hstep
      obtain ⟨hreaches, hfailure⟩ := ih h
      rw [rollLines_succ, reaches_cons hstep, run_cons_of_answered _ hstep]
      exact ⟨hreaches, hfailure⟩

omit [WordSource S] in
/-- Notation that is typed first leaves the calculator as the command finds it. -/
theorem accepting_start {text : String} {pool : Pool} (h : Pool.read text = .ok pool)
    (history : Nat) (source : S) :
    (Prompt.start history source).accepting text pool =
      ⟨Session.start ⟨history, text⟩, source⟩ := by
  have hhistory : (Prompt.start history source).session.history = .empty history :=
    Session.history_edit _ _
  rw [accepting, hhistory, start_of_read h]
  rfl

end Prompt

/-! ### Whole runs -/

/-- What the calculator prints depends on the texts of the lines alone. -/
theorem promptReply_congr (style : Style) (history : Nat) (source : S) {lines lines' : List Line}
    (h : lines.map (·.text) = lines'.map (·.text)) :
    promptReply style history source lines = promptReply style history source lines' := by
  obtain ⟨hanswers, hends⟩ := (Prompt.start history source).run_of_texts_eq style h
  simp only [promptReply, Transcript.text, hanswers, hends.failure]

/-- What the calculator prints for more lines comes after what it prints for the lines before. -/
theorem promptReply_append {style : Style} {history : Nat} {source : S} {before : List Line}
    (after : List Line) (h : (Prompt.start history source).Reaches style before) :
    let t := ((Prompt.start history source).run style before).final.run style after
    promptReply style history source (before ++ after) =
      ⟨(promptReply style history source before).output ++ t.text, match t.failure with
        | some message => .failed message
        | none => .done⟩ := by
  intro t
  have hrun : _ = { t with answers := _ } := Prompt.run_append_of_reaches after h
  have htext : ((Prompt.start history source).run style (before ++ after)).text =
      ((Prompt.start history source).run style before).text ++ t.text := by
    rw [hrun, Transcript.text, List.map_append, String.join_append]
    rfl
  have hfailure : ((Prompt.start history source).run style (before ++ after)).failure =
      t.failure := by rw [hrun]
  refine congrArg₂ Reply.mk ?_ ?_
  · rw [htext]
    exact (String.append_assoc ..).symm
  · cases hending : t.failure <;> simp only [hfailure, hending]

/-- The table that is printed in answer to a line, with the mark for the next line. -/
theorem run_history (style : Style) (q : Prompt S) (now : Timestamp) :
    q.run style [⟨now, some "history"⟩] =
      ⟨[historyTable style.color q.session.history], none, q⟩ := by
  have hsays : Line.Says ⟨now, some "history"⟩ "history" := ⟨"history", rfl, by decide +kernel⟩
  have hstep : q.step style ⟨now, some "history"⟩ = _ :=
    Prompt.step_of_entry hsays.entry (by decide)
  rw [Prompt.run_cons_of_answered _ hstep]
  rfl

/-- The calculator is given notation, asked for as many rolls as its history keeps, and then asked
    for its history.  It prints the table of the rolls that the command makes, or fails as they
    do. -/
theorem promptReply_of_rollTimes (style : Style) {text : String} {pool : Pool}
    (h : Pool.read text = .ok pool) (count : Nat) (source : S) (clock : Nat → Timestamp)
    (now : Timestamp) :
    let lines : List Line := ⟨now, some text⟩ :: Prompt.rollLines clock 0 count
    let shown := promptReply style count source (lines ++ [⟨now, some "history"⟩])
    match rollTimes clock 0 count ⟨Session.start ⟨count, text⟩, source⟩ with
    | .error e => shown.ending = .failed e.message
    | .ok q => shown = .done ((promptReply style count source lines).output ++
        historyTable style.color q.session.history ++ promptMark) := by
  intro lines shown
  have haccepted : Line.Accepted ⟨now, some text⟩ text pool := ⟨⟨text, rfl, trim_of_read h⟩, h⟩
  have hstep : (Prompt.start count source).step style ⟨now, some text⟩ = _ :=
    Prompt.step_of_accepted haccepted
  rw [Prompt.accepting_start h] at hstep
  cases hrolls : rollTimes clock 0 count ⟨Session.start ⟨count, text⟩, source⟩ with
  | error e =>
    obtain ⟨hnot, hfailure⟩ := Prompt.run_of_rollTimes_error style hrolls
    have hrun : ((Prompt.start count source).run style (lines ++ [⟨now, some "history"⟩])).failure =
        some e.message := by
      rw [Prompt.run_append_of_not_reaches _ (mt (Prompt.reaches_cons hstep).mp hnot),
        Prompt.run_cons_of_answered _ hstep]
      exact hfailure
    show (promptReply style count source _).ending = _
    simp only [promptReply, hrun]
  | ok q =>
    obtain ⟨hreaches, hfinal⟩ := Prompt.run_of_rollTimes style hrolls
    have hlines : (Prompt.start count source).Reaches style lines :=
      (Prompt.reaches_cons hstep).mpr hreaches
    have hend : ((Prompt.start count source).run style lines).final = q := by
      rw [Prompt.run_cons_of_answered _ hstep]
      exact hfinal
    have hshown := promptReply_append [⟨now, some "history"⟩] hlines
    simp only [hend, run_history] at hshown
    show promptReply style count source _ = _
    rw [hshown]
    simp [Reply.done, Transcript.text, String.append_assoc]

/-! ### The table -/

/-- The table does not show when the rolls were made. -/
theorem map_recordLine_recordsOf (color : Bool) (diceWidth resultWidth : Nat) (d : Selection)
    (clock clock' : Nat → Timestamp) (made : Nat) (rolls : List Roll) :
    (recordsOf d clock made rolls).map (recordLine color diceWidth resultWidth) =
      (recordsOf d clock' made rolls).map (recordLine color diceWidth resultWidth) := by
  induction rolls generalizing made with
  | nil => rfl
  | cons roll rolls ih =>
    rw [recordsOf_cons, recordsOf_cons, List.map_append, List.map_append, ih]
    rfl

/-- The table of rolls of dice in notation has a line for each roll, whenever they were made. -/
theorem historyTable_of_read {text : String} {pool : Pool} (h : Pool.read text = .ok pool)
    (color : Bool) (limit : Nat) (rolls : List Roll) (clock clock' : Nat → Timestamp) :
    ∃ header diceWidth resultWidth,
      let rows := (recordsOf (.ofPool text pool) clock' 0 rolls).map
        (recordLine color diceWidth resultWidth)
      historyTable color ⟨limit, recordsOf (.ofPool text pool) clock 0 rolls⟩ =
          unlines (header :: rows) ∧
        ∀ line ∈ header :: rows, OneLine line := by
  obtain ⟨diceWidth, resultWidth, htable⟩ := historyTable_eq_unlines color
    ⟨limit, recordsOf (.ofPool text pool) clock 0 rolls⟩
  refine ⟨headerLine diceWidth resultWidth, diceWidth, resultWidth, ?_,
    oneLine_of_mem (fun r hr => ?_) color diceWidth resultWidth⟩
  · rw [htable, map_recordLine_recordsOf color diceWidth resultWidth _ clock clock']
  · obtain ⟨roll, time, rfl⟩ := exists_roll_of_mem hr
    exact oneLine_of_read h

/-! ### The array -/

/-- The array of records is read back as the array of their JSON. -/
theorem read?_records (records : List Record) :
    Value.read? (toJson .pretty records ++ "\n") = some (.array (records.map encode)) := by
  refine Value.read?_line (.array fun v hv => ?_) .pretty
  obtain ⟨r, -, rfl⟩ := List.mem_map.mp hv
  exact r.wellSpelled

/-- The texts of the values that an object has under a name. -/
def memberTexts (name : String) : Value → List String
  | .object members =>
    (members.filter fun m => m.1 == name.toList).map fun m => m.2.text .compact
  | _ => []

/-- An element of an array tells of a record what a row of the table shows of it: the text that was
    typed, the outcome, and the probability, each once and under its own name. -/
structure Tells (element : Value) (r : Record) : Prop where
  raw : memberTexts "raw" element = ["\"" ++ r.raw ++ "\""]
  outcome : memberTexts "outcome" element = [integer r.outcome]
  probability : memberTexts "probability" element = [toJson .compact r.probability]

/-- Notation is spelled as it is. -/
theorem spell_of_read {text : String} {pool : Pool} (h : Pool.read text = .ok pool) :
    spell text = text.toList := by
  have hplain : ∀ c ∈ text.toList, spellChar c = [c] := by
    intro c hc
    rcases mem_of_readChars h c hc with hdigit | hsign
    · have hlow : 48 ≤ c.toNat := (Char.isDigit_iff_toNat.mp hdigit).1
      exact spellChar_of_plain (by rintro rfl; cases hdigit) (by rintro rfl; cases hdigit) (by omega)
    · simp only [List.mem_cons, List.not_mem_nil, or_false] at hsign
      rcases hsign with rfl | rfl | rfl | rfl <;> rfl
  rw [spell, List.flatMap_congr hplain, List.flatMap_singleton']

/-- The texts under a name, where all names are spelled as they are. -/
theorem memberTexts_record {fields : List (String × Value)}
    (h : ∀ f ∈ fields, spell f.1 = f.1.toList) (name : String) :
    memberTexts name (.record fields) =
      (fields.filter fun f => f.1 == name).map fun f => f.2.text .compact := by
  have hnames : ∀ f ∈ fields, (spell f.1 == name.toList) = (f.1 == name) := by
    intro f hf
    rw [h f hf, Bool.eq_iff_iff, beq_iff_eq, beq_iff_eq, String.toList_inj]
  rw [Value.record, memberTexts, List.filter_map, List.map_map]
  exact congrArg (List.map _) (List.filter_congr hnames)

/-- A whole number is written as the table shows it. -/
theorem text_ofInt (n : Int) : (Value.ofInt n).text .compact = integer n := by
  refine String.toList_inj.mp ?_
  show (String.ofList (Numeral.ofInt n).print).toList = _
  by_cases hn : n < 0
  · simp [Numeral.print, Numeral.ofInt, integer, hn]
  · simp [Numeral.print, Numeral.ofInt, integer, hn]

/-- The JSON of a record of dice in notation tells of the record. -/
theorem tells_encode {text : String} {pool : Pool} (h : Pool.read text = .ok pool) {r : Record}
    (hraw : r.raw = text) : Tells (encode r) r := by
  have hspelled : spell "raw" = "raw".toList ∧ spell "spec" = "spec".toList ∧
      spell "outcome" = "outcome".toList ∧
      spell "individual_rolls" = "individual_rolls".toList ∧
      spell "probability" = "probability".toList ∧
      spell "rolled_at" = "rolled_at".toList := by decide +kernel
  have hmember := @memberTexts_record
    [("raw", encode r.raw), ("spec", encode r.pool), ("outcome", encode r.outcome),
     ("individual_rolls", encode r.faces), ("probability", encode r.probability),
     ("rolled_at", encode r.rolledAt)]
    (by simpa only [List.forall_mem_cons, List.not_mem_nil, false_imp_iff, implies_true,
      and_true] using hspelled)
  have htext : (encode r.raw).text .compact = "\"" ++ r.raw ++ "\"" := by
    refine String.toList_inj.mp ?_
    show (String.ofList (printString (spell r.raw))).toList = _
    rw [hraw, spell_of_read h]
    simp [printString]
  refine ⟨(hmember "raw").trans ?_, (hmember "outcome").trans ?_, (hmember "probability").trans ?_⟩
  · simp [htext]
  · simp [show (encode r.outcome).text .compact = _ from text_ofInt r.outcome]
  · simp [toJson]

/-! ### Command lines -/

/-- The command line for some rolls is answered with their records. -/
theorem reply_rollArguments {text : String} {pool : Pool} (h : Pool.read text = .ok pool)
    (count seed : UInt64) (color json : Bool) (fresh : Roller) (clock : Nat → Timestamp)
    (stdin : List Line) :
    reply (rollArguments text count seed color json) fresh clock stdin =
      rollReply color clock text count.toNat json (Roller.ofSeed seed) := by
  simp only [reply, Request.read_rollArguments (Shape.of_notation h)]
  rfl

/-- The command line for the calculator starts it. -/
theorem reply_promptArguments (seed history : UInt64) (color : Bool) (fresh : Roller)
    (clock : Nat → Timestamp) (lines : List Line) :
    reply (promptArguments seed history color) fresh clock lines =
      promptReply ⟨color, Request.defaultWidth⟩ history.toNat (Roller.ofSeed seed) lines := by
  simp only [reply, Request.read_promptArguments]
  rfl

/-- The rolls that a command line asks for are those that the calculator makes for as many lines,
    whenever the lines come in and the rolls are made.  Where all of them can be made, the command
    prints the table that the calculator prints when it is asked for its history: a header and a line
    for each roll, the last roll first.  The JSON that the command prints instead is an array with an
    element for each of these lines, in the same order, which tells the text, the outcome and the
    probability that the line shows.  The rolls cannot be made only if no word of the seed's stream
    gives a face, and then both end with the same complaint. -/
theorem roll_agrees_with_prompt {text : String} {pool : Pool} (h : Pool.read text = .ok pool)
    (count seed : UInt64) (color : Bool) (fresh : Roller) (stdin : List Line)
    (lineClock clock clock' : Nat → Timestamp) :
    let batch (json : Bool) (clock : Nat → Timestamp) :=
      reply (rollArguments text count seed color json) fresh clock stdin
    let calculator (texts : List String) :=
      reply (promptArguments seed count color) fresh clock (linesAt lineClock texts)
    let script := text :: List.replicate count.toNat "roll"
    match pool.rolls count.toNat (Roller.ofSeed seed) with
    | .error e =>
      e = .noWords ∧ Barren (Roller.keyOfSeed seed) pool.faces ∧
        (∀ json, batch json clock = .failed e.message) ∧
        (calculator (script ++ ["history"])).ending = .failed e.message
    | .ok (rolls, _) =>
      let records := recordsOf (.ofPool text pool) clock' 0 rolls
      records.length = count.toNat ∧
      calculator (script ++ ["history"]) =
        .done ((calculator script).output ++ (batch false clock).output ++ promptMark) ∧
      (∃ header diceWidth resultWidth,
        let rows := records.map (recordLine color diceWidth resultWidth)
        batch false clock = .done (String.join ((header :: rows).map (· ++ "\n"))) ∧
          ∀ line ∈ header :: rows, OneLine line) ∧
      batch true clock' = .done (toJson .pretty records ++ "\n") ∧
      Value.read? (batch true clock').output = some (.array (records.map encode)) ∧
      List.Forall₂ Tells (records.map encode) records := by
  intro batch calculator script
  have hbatch : ∀ json clock, batch json clock =
      rollReply color clock text count.toNat json (Roller.ofSeed seed) :=
    fun json clock => reply_rollArguments h count seed color json fresh clock stdin
  have hcalculator : ∀ texts, calculator texts = promptReply ⟨color, Request.defaultWidth⟩
      count.toNat (Roller.ofSeed seed) (linesAt lineClock texts) :=
    fun texts => reply_promptArguments seed count color fresh clock (linesAt lineClock texts)
  -- The lines come in at times of their own, which make no difference.
  have hrollTexts : (Prompt.rollLines clock 0 count.toNat).map (·.text) =
      List.replicate count.toNat (some "roll") := by
    simp [Prompt.rollLines, Function.comp_def]
  have htexts : (linesAt lineClock script).map (·.text) =
      (⟨clock 0, some text⟩ :: Prompt.rollLines clock 0 count.toNat : List Line).map (·.text) := by
    simp [map_text_linesAt, script, hrollTexts]
  have hall : (linesAt lineClock (script ++ ["history"])).map (·.text) =
      (⟨clock 0, some text⟩ :: Prompt.rollLines clock 0 count.toNat ++
        [⟨clock 0, some "history"⟩] : List Line).map (·.text) := by
    simp [map_text_linesAt, script, hrollTexts]
  have hshown := promptReply_of_rollTimes ⟨color, Request.defaultWidth⟩ h count.toNat
    (Roller.ofSeed seed) clock (clock 0)
  rw [rollTimes_start h] at hshown
  simp only [hbatch, hcalculator, promptReply_congr _ _ _ htexts, promptReply_congr _ _ _ hall,
    rollReply_of_read h]
  cases hrolls : pool.rolls count.toNat (Roller.ofSeed seed) with
  | error e =>
    rw [hrolls] at hshown
    obtain ⟨hwords, hbarren⟩ := Pool.barren_of_rolls (positive_of_readChars h).2 hrolls
    exact ⟨hwords, hbarren, fun _ => rfl, hshown⟩
  | ok r =>
    obtain ⟨rolls, last⟩ := r
    rw [hrolls] at hshown
    have hlength : rolls.length = count.toNat := Pool.length_rolls hrolls
    obtain ⟨header, diceWidth, resultWidth, htable, hlines⟩ :=
      historyTable_of_read h color count.toNat rolls clock clock'
    refine ⟨by simpa using hlength, hshown,
      ⟨header, diceWidth, resultWidth, congrArg Reply.done htable, hlines⟩, rfl,
      read?_records _, ?_⟩
    rw [List.forall₂_map_left_iff, List.forall₂_same]
    intro r hr
    obtain ⟨roll, time, rfl⟩ := exists_roll_of_mem hr
    exact tells_encode h rfl

/-- The first roll of a large die passes over a word, and the second over two more.  The calculator
    prints the table of both rolls that the command prints. -/
theorem roll_agrees_with_prompt_d3000000000 :
    let batch := reply ["roll", "d3000000000", "-n", "2", "--seed", "8"] (.ofSeed 0)
      (fun _ => .epoch) []
    let calculator (texts : List String) :=
      reply ["repl", "--seed", "8", "--history", "2"] (.ofSeed 0) (fun _ => .epoch)
        (linesAt (fun _ => .epoch) texts)
    (List.range 5).map (fun n =>
        (faceOf? 3000000000 (streamWord (Roller.keyOfSeed 8) n)).isSome) =
      [false, true, false, false, true] ∧
    calculator ["d3000000000", "roll", "roll", "history"] =
      .done ((calculator ["d3000000000", "roll", "roll"]).output ++ batch.output ++
        promptMark) := by
  obtain ⟨pool, hread, hfaces⟩ : ∃ pool,
      Pool.read "d3000000000" = .ok pool ∧ pool.faces = 3000000000 := ⟨_, rfl, rfl⟩
  have hwords : (List.range 5).map (fun n =>
      (faceOf? 3000000000 (streamWord (Roller.keyOfSeed 8) n)).isSome) =
        [false, true, false, false, true] := by decide +kernel
  have h := roll_agrees_with_prompt hread 2 8 true (.ofSeed 0) [] (fun _ => .epoch)
    (fun _ => .epoch) (fun _ => .epoch)
  have hroll : rollArguments "d3000000000" 2 8 true false =
      ["roll", "d3000000000", "-n", "2", "--seed", "8"] := by
    decide +kernel
  have hprompt : promptArguments 8 2 true = ["repl", "--seed", "8", "--history", "2"] := by
    decide +kernel
  rw [show (2 : UInt64).toNat = 2 from rfl] at h
  refine ⟨hwords, ?_⟩
  split at h
  · -- The second word gives a face, so the stream is not without any.
    obtain ⟨-, hbarren, -⟩ := h
    have hface : (faceOf? 3000000000 (streamWord (Roller.keyOfSeed 8) 1)).isSome = true := by
      decide +kernel
    rw [← hfaces, hbarren 1] at hface
    cases hface
  · obtain ⟨-, hcalculator, -⟩ := h
    simp only [hroll, hprompt] at hcalculator
    exact hcalculator

end Command

end Dice
