import Dice.Proofs.Notation.Letters
import Dice.Proofs.Session.Chronicle

namespace Dice

open Dice.Notation Dice.Random

/-!
# Sessions whose letters are exchanged

Two sessions are used side by side, with the same words to roll with.  The texts that one of them is
given are those of the other with the letters exchanged.  Everything that happens is the same, but
for the letters themselves.

* `Use`, `Response`, `Stage.use` — using a session whose rolls go on where the last one stopped, and
  what comes back.
* `Stage.trace` — all that comes back from several uses, and the sessions in between.
* `Record.swap`, `Session.swap`, `Response.swap` — the letters exchanged, and nothing else.
* `Stage.use_swap`, `Stage.trace_swap` — one use, and several.
* `Stage.indifferent_to_letters` — texts and whole runs.
-/

/-! ### Using a session -/

/-- A use of a session. -/
inductive Use where
  /-- The text is replaced. -/
  | edit (text : String)
  /-- The selected dice are rolled. -/
  | roll (now : Calendar.Timestamp)
  /-- The dice of a past roll are selected again. -/
  | reselect (index : Nat)
  /-- All past rolls are forgotten. -/
  | clear

/-- What comes back from a use of a session. -/
inductive Response where
  /-- The dice that an edited text stands for, or its fault. -/
  | edited (result : Except Fault (Option Selection))
  /-- The record of a roll, if one was made and kept. -/
  | rolled (result : Except RollError (Option Record))
  /-- The dice of a past roll, if there is one. -/
  | reselected (result : Option (Except Fault (Option Selection)))
  /-- Nothing. -/
  | cleared

/-- A session, and the source that its dice are rolled with. -/
structure Stage (S : Type) where
  /-- The session. -/
  session : Session
  /-- Where random words come from. -/
  source : S

namespace Stage

variable {S : Type}

/-- The session that a configuration starts, with a source. -/
def start (c : Config) (source : S) : Stage S := ⟨.start c, source⟩

variable [WordSource S]

/-- Uses a session.  A roll that fails changes nothing, nor does a reselection where there is no
    record. -/
def use (s : Stage S) : Use → Response × Stage S
  | .edit text =>
    let t := s.session.edit text
    (.edited t.selected, ⟨t, s.source⟩)
  | .roll now =>
    match s.session.roll now s.source with
    | .ok (r, t, source) => (.rolled (.ok r), ⟨t, source⟩)
    | .error e => (.rolled (.error e), s)
  | .reselect index =>
    match s.session.reselect index with
    | some t => (.reselected (some t.selected), ⟨t, s.source⟩)
    | none => (.reselected none, s)
  | .clear => (.cleared, ⟨s.session.clear, s.source⟩)

/-- What comes back from several uses, each with the session and the source after it. -/
def trace : Stage S → List Use → List (Response × Stage S)
  | _, [] => []
  | s, u :: rest => s.use u :: (s.use u).2.trace rest

end Stage

/-! ### The exchange of the letters -/

/-- The same dice with their law, written with the other letter. -/
def Selection.swap (d : Selection) : Selection :=
  { d with raw := swapText d.raw, pool := d.pool.swap }

/-- The same roll of dice that were written with the other letter. -/
def Roll.swap (r : Roll) : Roll := { r with pool := r.pool.swap }

/-- The same record of dice that were written with the other letter. -/
def Record.swap (r : Record) : Record :=
  { r with raw := swapText r.raw, pool := r.pool.swap }

/-- The same records with the letters exchanged in each. -/
def History.swap (h : History) : History := { h with records := h.records.map Record.swap }

/-- The same session with the letters exchanged in its text, its fault, its dice and its records. -/
def Session.swap (s : Session) : Session where
  raw := swapText s.raw
  fault := s.fault.map Fault.swap
  selection := s.selection.map Selection.swap
  history := s.history.swap

/-- The same start with the letters exchanged. -/
def Config.swap (c : Config) : Config := { c with initialText := swapText c.initialText }

/-- The same use; a text that is given has its letters exchanged. -/
def Use.swap : Use → Use
  | .edit text => .edit (swapText text)
  | .roll now => .roll now
  | .reselect index => .reselect index
  | .clear => .clear

/-- The same response with the letters exchanged. -/
def Response.swap : Response → Response
  | .edited result => .edited (swapRead (Option.map Selection.swap) result)
  | .rolled result => .rolled (result.map (Option.map Record.swap))
  | .reselected result => .reselected (result.map (swapRead (Option.map Selection.swap)))
  | .cleared => .cleared

/-- The same stage with the letters exchanged.  The source stays in its state. -/
def Stage.swap {S : Type} (s : Stage S) : Stage S := ⟨s.session.swap, s.source⟩

/-! ### The law and the rolls of a pool -/

/-- Which letter dice are written with makes no difference to their law. -/
theorem Pool.law_swap {W : Type} [Weight W] (p : Pool) : (p.swap.law : Law W) = p.law := rfl

/-- Dice of the other letter are selected with the same law. -/
theorem Selection.ofPool_swap (text : String) (p : Pool) :
    ofPool (swapText text) p.swap = (ofPool text p).swap := by
  rw [ofPool, p.law_swap]
  rfl

/-- A text with the letters exchanged selects the dice of the other letter, or has the fault with
    its letter exchanged. -/
theorem Selection.read_swapText (text : String) :
    Selection.read (swapText text) = swapRead Selection.swap (Selection.read text) := by
  unfold Selection.read
  rw [Pool.read_swapText]
  cases Pool.read text with
  | error f => rfl
  | ok p => exact congrArg Except.ok (ofPool_swap text p)

variable {S : Type} [WordSource S]

/-- Which letter dice are written with makes no difference to the words that are drawn. -/
theorem Pool.roll_swap (p : Pool) (source : S) :
    p.swap.roll source = (p.roll source).map fun r => (r.1.swap, r.2) := by
  have hfaces : p.swap.faces = p.faces := rfl
  have hcount : p.swap.count = p.count := rfl
  unfold Pool.roll
  rw [hfaces, hcount]
  split
  · rfl
  · cases drawFaces p.faces p.count.toNat source <;> rfl

/-! ### The operations of a session -/

namespace Session

/-- Giving the text with the letters exchanged gives the session with the letters exchanged. -/
theorem edit_swap (s : Session) (text : String) :
    s.swap.edit (swapText text) = (s.edit text).swap := by
  unfold edit
  rw [Selection.read_swapText]
  cases Selection.read text <;> rfl

/-- A session that starts with the letters exchanged is the session with the letters exchanged. -/
theorem start_swap (c : Config) : start c.swap = (start c).swap :=
  edit_swap ⟨"", none, none, .empty c.historyLimit⟩ c.initialText

/-- The dice of the other letter are selected, or the fault is the one with its letter exchanged. -/
theorem selected_swap (s : Session) :
    s.swap.selected = swapRead (Option.map Selection.swap) s.selected := by
  unfold selected
  cases hfault : s.fault <;> simp [swap, hfault, swapRead]

/-- The dice that can be rolled are those of the other letter. -/
theorem rollable_swap (s : Session) : s.swap.rollable = s.rollable.map Selection.swap := by
  unfold rollable
  cases hfault : s.fault <;> simp [swap, hfault]

/-- A record is kept with its letters exchanged. -/
theorem push_swap (h : History) (r : Record) : h.swap.push r.swap = (h.push r).swap := by
  simp [History.push, History.swap, List.map_take]

/-- What comes back from a roll, with the letters exchanged. -/
def swapRolled (r : Option Record × Session × S) : Option Record × Session × S :=
  (r.1.map Record.swap, r.2.1.swap, r.2.2)

/-- The same faces are rolled of the dice of the other letter, and the same words are left. -/
theorem roll_swap (s : Session) (now : Calendar.Timestamp) (source : S) :
    s.swap.roll now source = (s.roll now source).map swapRolled := by
  unfold roll
  rw [rollable_swap]
  cases s.rollable with
  | none => rfl
  | some d =>
    simp only [Option.map_some]
    rw [show d.swap.pool = d.pool.swap from rfl, Pool.roll_swap]
    cases d.pool.roll source with
    | error e => rfl
    | ok r =>
      -- The record of the exchanged dice is the exchanged record, and is kept like it.
      have hhistory : s.swap.history.push (d.swap.record r.1.swap now) =
          (s.history.push (d.record r.1 now)).swap := push_swap s.history (d.record r.1 now)
      simp only [Except.map, swapRolled, hhistory]
      congr 2
      exact List.head?_map

/-- Past dice are selected with their letters exchanged. -/
theorem reselect_swap (s : Session) (index : Nat) :
    s.swap.reselect index = (s.reselect index).map swap := by
  have hrecord : s.swap.history.get? index = (s.history.get? index).map Record.swap :=
    List.getElem?_map
  unfold reselect
  rw [hrecord]
  cases s.history.get? index with
  | none => rfl
  | some r => exact congrArg some (s.edit_swap r.raw)

/-- Dropping the records is the same with the letters exchanged. -/
theorem clear_swap (s : Session) : s.swap.clear = s.clear.swap := rfl

end Session

/-! ### Runs side by side -/

namespace Stage

/-- A use with exchanged letters gives back the same with exchanged letters. -/
theorem use_swap (s : Stage S) (u : Use) :
    s.swap.use u.swap = ((s.use u).1.swap, (s.use u).2.swap) := by
  cases u with
  | edit text =>
    simp only [Use.swap, use, swap, Session.edit_swap, Session.selected_swap, Response.swap]
  | roll now =>
    simp only [Use.swap, use, swap, Session.roll_swap]
    cases s.session.roll now s.source <;> rfl
  | reselect index =>
    simp only [Use.swap, use, swap, Session.reselect_swap]
    cases s.session.reselect index with
    | none => rfl
    | some t => simp only [Option.map_some, Session.selected_swap, Response.swap]
  | clear => simp only [Use.swap, use, swap, Session.clear_swap, Response.swap]

/-- Two runs stay side by side, from any stage on. -/
theorem trace_swap (s : Stage S) (uses : List Use) :
    s.swap.trace (uses.map Use.swap) = (s.trace uses).map fun r => (r.1.swap, r.2.swap) := by
  induction uses generalizing s with
  | nil => rfl
  | cons u rest ih =>
    rw [List.map_cons, trace, trace, List.map_cons, use_swap]
    exact congrArg _ (ih (s.use u).2)

/-- The letters make no difference.  A text with the letters exchanged is read as the same dice with
    the other letter, or has the same fault but for the character found.  A run whose texts have
    their letters exchanged gives back the same at every use and goes through the same sessions,
    with the source in the same states: only texts, modes and characters found have the letters
    exchanged. -/
theorem indifferent_to_letters :
    (∀ (text : String) (p : Pool),
      Pool.read text = .ok p ↔ Pool.read (swapText text) = .ok p.swap) ∧
    (∀ (text : String) (f : Fault),
      Pool.read text = .error f ↔ Pool.read (swapText text) = .error f.swap) ∧
    ∀ (c : Config) (source : S) (uses : List Use),
      start c.swap source = (start c source).swap ∧
      (start c.swap source).trace (uses.map Use.swap) =
        ((start c source).trace uses).map fun r => (r.1.swap, r.2.swap) := by
  refine ⟨fun _ _ => Pool.read_swapText_eq_ok.symm, fun _ _ => Pool.read_swapText_eq_error.symm, ?_⟩
  intro c source uses
  have hstart : start c.swap source = (start c source).swap :=
    congrArg (Stage.mk · source) (Session.start_swap c)
  exact ⟨hstart, by rw [hstart, trace_swap]⟩

end Stage

end Dice
