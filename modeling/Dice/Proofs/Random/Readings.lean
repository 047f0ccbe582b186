import Dice.Proofs.Pool.WordTotals
import Dice.Proofs.Random.Streams
import Mathlib.Data.List.Forall2

namespace Dice

open Dice.Random

/-!
# Rolls read a stream from left to right

Pools that are rolled in turn with one roller share the words of its stream.  Their dice, taken
together, read the stream word by word: each die passes over the words in excess, takes the first
word that gives it a face, and leaves the next word to the die after it.

* `Reads` — dice that read a stream from one place to another.
* `reads_cons_of_drawFace`, `reads_append_of_drawFaces` — a face, and several faces, read so.
* `Pool.rollInTurn` — some pools rolled in turn in words, of which some may have no faces.
* `Pool.reads_iff_of_rollInTurn` — the rolls show what the dice read.
* `Pool.exists_overflow_of_rollInTurn` — where the dice read the stream, only an overflow is in the
  way of the rolls.
* `Pool.rolls_read_stream` — what the rolls show, and that dice may be rolled in two parts.
-/

namespace Random

/-! ### Reading a stream -/

/-- Dice read the stream of a key from one place to another and get faces.  Each passes over words
    in excess, whose product with the number of its faces has a low half under the threshold, and
    takes the first other word, which gives the face after as many as the high half counts. -/
inductive Reads (key : Key) : Nat → List UInt32 → List UInt32 → Nat → Prop where
  /-- Without dice no word is read. -/
  | done (place : Nat) : Reads key place [] [] place
  /-- The first die passes over a word. -/
  | passes {place stop : Nat} {die : UInt32} {dice faces : List UInt32}
      (excess : (streamWord key place).toNat * die.toNat % 2 ^ 32 <
        (2 ^ 32 - die.toNat) % die.toNat)
      (rest : Reads key (place + 1) (die :: dice) faces stop) :
      Reads key place (die :: dice) faces stop
  /-- The first die takes a word. -/
  | takes {place stop : Nat} {die face : UInt32} {dice faces : List UInt32}
      (accepted : (2 ^ 32 - die.toNat) % die.toNat ≤
        (streamWord key place).toNat * die.toNat % 2 ^ 32)
      (shown : face.toNat = 1 + (streamWord key place).toNat * die.toNat / 2 ^ 32)
      (rest : Reads key (place + 1) dice faces stop) :
      Reads key place (die :: dice) (face :: faces) stop

variable {key : Key} {place stop : Nat} {die : UInt32} {dice faces : List UInt32}

/-- Without dice there are no faces, and the reading stops where it starts. -/
theorem reads_nil_iff : Reads key place [] faces stop ↔ faces = [] ∧ stop = place := by
  constructor
  · intro h
    cases h
    exact ⟨rfl, rfl⟩
  · rintro ⟨rfl, rfl⟩
    exact .done stop

/-- A word in excess is passed over. -/
theorem reads_cons_of_excess (h : faceOf? die (streamWord key place) = none) :
    Reads key place (die :: dice) faces stop ↔ Reads key (place + 1) (die :: dice) faces stop := by
  constructor
  · intro hreads
    cases hreads with
    | passes _ rest => exact rest
    | takes haccept hshown _ =>
      rw [faceOf?_eq_some_iff.mpr ⟨haccept, hshown⟩] at h
      cases h
  · exact .passes (faceOf?_eq_none_iff.mp h)

/-- A word that gives a face is taken. -/
theorem reads_cons_of_face {face : UInt32} (h : faceOf? die (streamWord key place) = some face) :
    Reads key place (die :: dice) faces stop ↔
      ∃ rest, faces = face :: rest ∧ Reads key (place + 1) dice rest stop := by
  constructor
  · intro hreads
    cases hreads with
    | passes hexcess _ =>
      rw [faceOf?_eq_none_iff.mpr hexcess] at h
      cases h
    | takes haccept hshown hrest =>
      rw [faceOf?_eq_some_iff.mpr ⟨haccept, hshown⟩] at h
      obtain rfl := Option.some.inj h
      exact ⟨_, rfl, hrest⟩
  · rintro ⟨rest, rfl, hrest⟩
    obtain ⟨haccept, hshown⟩ := faceOf?_eq_some_iff.mp h
    exact .takes haccept hshown hrest

/-- A die that reads comes to a word that gives a face, so the stream is not without any. -/
theorem not_barren_of_reads (h : Reads key place (die :: dice) faces stop) : ¬ Barren key die := by
  intro hbarren
  -- Every step passes over one more word, and only a word that is taken ends the reading.
  generalize hdice : die :: dice = all at h
  induction h with
  | done => cases hdice
  | passes _ _ ih => exact ih hdice
  | @takes place _ _ _ _ _ haccept hshown _ =>
    obtain ⟨rfl, -⟩ := List.cons.inj hdice
    have hface := faceOf?_eq_some_iff.mpr ⟨haccept, hshown⟩
    rw [hbarren place] at hface
    cases hface

/-! ### Faces are drawn as they are read -/

/-- The face that is drawn within some tries is that of the first die. -/
theorem reads_cons_of_drawWithin {tries : Nat} {r r' : Roller} {face : UInt32}
    (h : drawWithin die tries r = some (face, r')) :
    Reads r.key r.position (die :: dice) faces stop ↔
      ∃ rest, faces = face :: rest ∧ Reads r'.key r'.position dice rest stop := by
  -- Every try reads one word, as a step of the reading does.
  induction tries generalizing r with
  | zero => cases h
  | succ tries ih =>
    rw [drawWithin] at h
    simp only [WordSource.next?] at h
    cases hface : faceOf? die (streamWord r.key r.position) with
    | none =>
      simp only [hface] at h
      rw [reads_cons_of_excess hface]
      exact ih h
    | some first =>
      simp only [hface, Option.some.injEq, Prod.mk.injEq] at h
      obtain ⟨rfl, rfl⟩ := h
      exact reads_cons_of_face hface

/-- The first die gets the face that is drawn, and the other dice read on from there. -/
theorem reads_cons_of_drawFace {r r' : Roller} {face : UInt32}
    (h : drawFace die r = some (face, r')) :
    Reads r.key r.position (die :: dice) faces stop ↔
      ∃ rest, faces = face :: rest ∧ Reads r'.key r'.position dice rest stop :=
  reads_cons_of_drawWithin h

/-- The first dice get the faces that are drawn, and the other dice read on from there. -/
theorem reads_append_of_drawFaces {count : Nat} {r r' : Roller} {drawn : List UInt32}
    (h : drawFaces die count r = some (drawn, r')) :
    Reads r.key r.position (List.replicate count die ++ dice) faces stop ↔
      ∃ rest, faces = drawn ++ rest ∧ Reads r'.key r'.position dice rest stop := by
  induction count generalizing r drawn faces with
  | zero =>
    obtain ⟨rfl, rfl⟩ := Prod.mk.inj (Option.some.inj h)
    simp
  | succ count ih =>
    rw [drawFaces_succ] at h
    obtain ⟨⟨face, s⟩, hface, h⟩ := Option.bind_eq_some_iff.mp h
    obtain ⟨⟨others, s'⟩, hothers, h⟩ := Option.map_eq_some_iff.mp h
    obtain ⟨rfl, rfl⟩ := Prod.mk.inj h
    rw [List.replicate_succ, List.cons_append, reads_cons_of_drawFace hface]
    constructor
    · rintro ⟨more, rfl, hmore⟩
      obtain ⟨rest, rfl, hrest⟩ := (ih hothers).mp hmore
      exact ⟨rest, rfl, hrest⟩
    · rintro ⟨rest, rfl, hrest⟩
      exact ⟨others ++ rest, rfl, (ih hothers).mpr ⟨rest, rfl, hrest⟩⟩

/-- Where no face can be drawn, the dice cannot read the stream either. -/
theorem not_reads_of_drawFaces {count : Nat} {r : Roller} (h : drawFaces die count r = none) :
    ¬ Reads r.key r.position (List.replicate count die ++ dice) faces stop := by
  intro hreads
  cases count with
  | zero => cases h
  | succ count =>
    rw [List.replicate_succ, List.cons_append] at hreads
    exact not_barren_of_reads hreads (barren_of_drawFaces h)

end Random

namespace Pool

/-! ### Pools rolled in turn -/

/-- Rolls some pools in turn with one source, with their totals in words.  A pool whose dice have no
    faces is answered with its error, and the next pool is rolled with the source as it is.  Nothing
    comes back if a die gets no face or a total overflows. -/
def rollInTurn {S : Type} [WordSource S] :
    List Pool → S → Option (List (Except RollError Roll) × S)
  | [], s => some ([], s)
  | p :: rest, s =>
    match p.roll? s with
    | none => none
    | some (.ok (roll, s)) => (rollInTurn rest s).map fun more => (.ok roll :: more.1, more.2)
    | some (.error .noFaces) => (rollInTurn rest s).map fun more => (.error .noFaces :: more.1, more.2)
    | some (.error .noWords) => none

/-- One result more than there are for the pools that follow. -/
theorem map_cons_eq_some_iff {S : Type} {turns : Option (List (Except RollError Roll) × S)}
    {first : Except RollError Roll} {results : List (Except RollError Roll)} {s : S} :
    turns.map (fun more => (first :: more.1, more.2)) = some (results, s) ↔
      ∃ rest, turns = some (rest, s) ∧ results = first :: rest := by
  rw [Option.map_eq_some_iff]
  constructor
  · rintro ⟨⟨rest, s'⟩, rfl, h⟩
    obtain ⟨rfl, rfl⟩ := Prod.mk.inj h
    exact ⟨rest, rfl, rfl⟩
  · rintro ⟨rest, rfl, rfl⟩
    exact ⟨_, rfl, rfl⟩

/-- The number of faces of each die that is rolled.  Dice without faces are not rolled. -/
def dice (p : Pool) : List UInt32 :=
  if p.faces = 0 then [] else List.replicate p.count.toNat p.faces

/-- The faces shown where a pool was rolled. -/
def facesShown : Except RollError Roll → List UInt32
  | .ok roll => roll.faces
  | .error _ => []

/-- The faces that each of some pools has, where their dice got some faces one after the other. -/
def shares : List Pool → List UInt32 → List (List UInt32)
  | [], _ => []
  | p :: rest, faces => faces.take p.dice.length :: shares rest (faces.drop p.dice.length)

/-- What comes back for a pool: an error for dice without faces, and otherwise as many faces as
    there are dice, each of them a face of the die, and their sum with the offset, which is a word
    and lies between the pool's bounds. -/
def Answers (p : Pool) : Except RollError Roll → Prop
  | .error e => p.faces = 0 ∧ e = .noFaces
  | .ok roll =>
    p.faces ≠ 0 ∧ p.Shows roll.faces ∧ roll.total = p.offset.toInt + faceSum roll.faces ∧
      FitsWord roll.total ∧ p.lowest ≤ roll.total ∧ roll.total ≤ p.highest

/-- The dice of a pool that has faces are as many as it says. -/
theorem length_dice {p : Pool} (h : p.faces ≠ 0) : p.dice.length = p.count.toNat := by
  rw [dice, if_neg h, List.length_replicate]

/-- The first pool has the faces that it shows, if there are as many as it has dice. -/
theorem shares_cons {p : Pool} (pools : List Pool) {faces : List UInt32}
    (h : faces.length = p.dice.length) (rest : List UInt32) :
    shares (p :: pools) (faces ++ rest) = faces :: shares pools rest := by
  rw [shares, ← h, List.take_left, List.drop_left]

/-- The dice of two pools with equally many faces are the dice of one with as many as both. -/
theorem dice_append {p q both : Pool} (hq : q.faces = p.faces) (hboth : both.faces = p.faces)
    (hcount : both.count.toNat = p.count.toNat + q.count.toNat) :
    both.dice = p.dice ++ q.dice := by
  rw [dice, dice, dice, hq, hboth, hcount]
  by_cases hfaces : p.faces = 0
  · simp only [if_pos hfaces, List.append_nil]
  · simp only [if_neg hfaces, List.replicate_add]

/-! ### Rolls show what the dice read -/

section Turns

variable {p : Pool} {pools : List Pool} {r r' : Roller}

/-- The dice of a pool read the stream as the pool is rolled. -/
theorem reads_append_of_roll {roll : Roll} (h : p.roll r = .ok (roll, r'))
    {dice faces : List UInt32} {stop : Nat} :
    Reads r.key r.position (p.dice ++ dice) faces stop ↔
      ∃ rest, faces = roll.faces ++ rest ∧ Reads r'.key r'.position dice rest stop := by
  obtain ⟨hfaces, faces, hdrawn, rfl⟩ := drawn_of_roll h
  rw [Pool.dice, if_neg hfaces]
  exact reads_append_of_drawFaces hdrawn

/-- A roll that is made answers for its pool. -/
theorem answers_of_roll? {S : Type} [WordSource S] {s s' : S} {roll : Roll}
    (h : p.roll? s = some (.ok (roll, s'))) : p.Answers (.ok roll) := by
  obtain ⟨hroll, hfits⟩ := roll?_eq_ok_iff.mp h
  obtain ⟨hfaces, -⟩ := drawn_of_roll hroll
  obtain ⟨hshows, htotal⟩ := shows_of_roll hroll
  obtain ⟨hlow, hhigh⟩ := hshows.total_bounds
  rw [← htotal] at hlow hhigh
  exact ⟨hfaces, hshows, htotal, hfits, hlow, hhigh⟩

/-- Every pool that is rolled in turn is answered, and the roller goes on in the same stream. -/
theorem answers_of_rollInTurn {results : List (Except RollError Roll)}
    (h : rollInTurn pools r = some (results, r')) :
    List.Forall₂ Answers pools results ∧ r'.key = r.key := by
  induction pools generalizing r results with
  | nil =>
    obtain ⟨rfl, rfl⟩ := Prod.mk.inj (Option.some.inj h)
    exact ⟨.nil, rfl⟩
  | cons p pools ih =>
    rw [rollInTurn] at h
    split at h
    · cases h
    · next roll s hroll =>
      obtain ⟨more, hmore, rfl⟩ := map_cons_eq_some_iff.mp h
      obtain ⟨hanswers, hkey⟩ := ih hmore
      exact ⟨.cons (answers_of_roll? hroll) hanswers,
        hkey.trans (key_of_roll (roll?_eq_ok_iff.mp hroll).1)⟩
    · next hroll =>
      obtain ⟨more, hmore, rfl⟩ := map_cons_eq_some_iff.mp h
      obtain ⟨hanswers, hkey⟩ := ih hmore
      have hfaces := noFaces_of_roll (roll_of_roll?_error hroll)
      exact ⟨.cons ⟨hfaces, rfl⟩ hanswers, hkey⟩
    · cases h

/-- Pools that are rolled in turn show the faces that their dice, taken together, read from the
    stream, and the roller stops where the reading does. -/
theorem reads_iff_of_rollInTurn {results : List (Except RollError Roll)}
    (h : rollInTurn pools r = some (results, r')) (faces : List UInt32) (stop : Nat) :
    Reads r.key r.position (pools.flatMap dice) faces stop ↔
      faces = results.flatMap facesShown ∧ stop = r'.position := by
  -- The first pool takes its part of the stream, and the others go on where it stops.
  induction pools generalizing r results faces with
  | nil =>
    obtain ⟨rfl, rfl⟩ := Prod.mk.inj (Option.some.inj h)
    exact reads_nil_iff
  | cons p pools ih =>
    rw [rollInTurn] at h
    rw [List.flatMap_cons]
    split at h
    · cases h
    · next roll s hroll =>
      obtain ⟨more, hmore, rfl⟩ := map_cons_eq_some_iff.mp h
      rw [reads_append_of_roll (roll?_eq_ok_iff.mp hroll).1, List.flatMap_cons]
      simp only [ih hmore]
      constructor
      · rintro ⟨rest, rfl, rfl, rfl⟩
        exact ⟨rfl, rfl⟩
      · rintro ⟨rfl, rfl⟩
        exact ⟨_, rfl, rfl, rfl⟩
    · next hroll =>
      obtain ⟨more, hmore, rfl⟩ := map_cons_eq_some_iff.mp h
      have hfaces := noFaces_of_roll (roll_of_roll?_error hroll)
      rw [dice, if_pos hfaces, List.nil_append, ih hmore, List.flatMap_cons]
      rfl
    · cases h

/-- If the dice can read the stream but the rolls come to nothing, then the share of some pool in
    the faces read has a total that overflows. -/
theorem exists_overflow_of_rollInTurn (h : rollInTurn pools r = none) {faces : List UInt32}
    {stop : Nat} (hreads : Reads r.key r.position (pools.flatMap dice) faces stop) :
    ∃ turn ∈ pools.zip (shares pools faces),
      turn.1.Shows turn.2 ∧ ¬ FitsWord (turn.1.offset.toInt + faceSum turn.2) := by
  induction pools generalizing r faces with
  | nil => cases h
  | cons p pools ih =>
    rw [List.flatMap_cons] at hreads
    cases hroll : p.roll r with
    | ok made =>
      obtain ⟨roll, s⟩ := made
      obtain ⟨rest, rfl, hrest⟩ := (reads_append_of_roll hroll).mp hreads
      obtain ⟨hfaces, -⟩ := drawn_of_roll hroll
      obtain ⟨hshows, htotal⟩ := shows_of_roll hroll
      rw [shares_cons pools (hshows.length.trans (length_dice hfaces).symm)]
      by_cases hfits : FitsWord roll.total
      · rw [rollInTurn, roll?_eq_ok_iff.mpr ⟨hroll, hfits⟩] at h
        obtain ⟨turn, hmem, hturn⟩ := ih (Option.map_eq_none_iff.mp h) hrest
        exact ⟨turn, List.mem_cons_of_mem _ hmem, hturn⟩
      · exact ⟨(p, roll.faces), List.mem_cons_self, hshows, htotal ▸ hfits⟩
    | error e =>
      rcases error_of_roll hroll with ⟨hfaces, rfl⟩ | ⟨hfaces, hdrawn, rfl⟩
      · have hdice : p.dice = [] := if_pos hfaces
        have hnone : p.roll? r = some (.error .noFaces) := if_pos hfaces
        rw [rollInTurn, hnone] at h
        rw [hdice, List.nil_append] at hreads
        obtain ⟨turn, hmem, hturn⟩ := ih (Option.map_eq_none_iff.mp h) hreads
        rw [shares, hdice]
        exact ⟨turn, List.mem_cons_of_mem _ hmem, hturn⟩
      · -- The stream gives no face, so there is nothing to read.
        rw [dice, if_neg hfaces] at hreads
        exact absurd hreads (not_reads_of_drawFaces hdrawn)

/-- If the greatest totals fit, the rolls come to nothing exactly where the dice cannot read. -/
theorem rollInTurn_eq_none_iff (hfits : ∀ p ∈ pools, FitsWord p.highest) :
    rollInTurn pools r = none ↔
      ∀ faces stop, ¬ Reads r.key r.position (pools.flatMap dice) faces stop := by
  constructor
  · intro h faces stop hreads
    obtain ⟨⟨p, share⟩, hmem, hshows, hover⟩ := exists_overflow_of_rollInTurn h hreads
    obtain ⟨hlow, hhigh⟩ := hshows.total_bounds
    exact hover (p.fitsWord_lowest.of_between (hfits p (List.of_mem_zip hmem).1) hlow hhigh)
  · intro h
    refine Option.eq_none_iff_forall_ne_some.mpr fun turns hturns => ?_
    exact h _ _ ((reads_iff_of_rollInTurn hturns _ _).mpr ⟨rfl, rfl⟩)

end Turns

/-! ### What the rolls show -/

/-- Pools are rolled in turn with one roller, at the start of a seed's stream or anywhere else, and
    their totals are added up in words of 64 bits.  Every pool whose dice have faces shows as many
    faces as it has dice, with their total, and any other is answered with an error.  All faces
    together are what the dice get when they read the stream word by word from the roller's place,
    and the roller stops where the reading stops.  The rolls come to nothing only if the dice cannot
    read the stream or some pool has a share of the faces whose total overflows; this cannot be if
    the greatest totals fit a word.  So dice with equally many faces show the same, and leave the
    roller at the same place, whether they are rolled at once or in two parts. -/
theorem rolls_read_stream :
    (∀ (pools : List Pool) (r : Roller),
      match rollInTurn pools r with
      | some (results, r') =>
        List.Forall₂ Answers pools results ∧ r'.key = r.key ∧
          ∀ faces stop, Reads r.key r.position (pools.flatMap dice) faces stop ↔
            faces = results.flatMap facesShown ∧ stop = r'.position
      | none =>
        (∀ faces stop, Reads r.key r.position (pools.flatMap dice) faces stop →
          ∃ turn ∈ pools.zip (shares pools faces),
            turn.1.Shows turn.2 ∧ ¬ FitsWord (turn.1.offset.toInt + faceSum turn.2)) ∧
        ((∀ p ∈ pools, FitsWord p.highest) →
          ∀ faces stop, ¬ Reads r.key r.position (pools.flatMap dice) faces stop)) ∧
    (∀ (p q both : Pool) (r : Roller), q.faces = p.faces → both.faces = p.faces →
      both.count.toNat = p.count.toNat + q.count.toNat →
      (∀ parts whole r₁ r₂, rollInTurn [p, q] r = some (parts, r₁) →
        rollInTurn [both] r = some (whole, r₂) →
        whole.flatMap facesShown = parts.flatMap facesShown ∧ r₂ = r₁) ∧
      (FitsWord p.highest → FitsWord q.highest → FitsWord both.highest →
        (rollInTurn [both] r = none ↔ rollInTurn [p, q] r = none))) := by
  refine ⟨fun pools r => ?_, fun p q both r hq hboth hcount => ?_⟩
  · cases hturns : rollInTurn pools r with
    | none =>
      exact ⟨fun _ _ => exists_overflow_of_rollInTurn hturns,
        fun hfits => (rollInTurn_eq_none_iff hfits).mp hturns⟩
    | some turns =>
      obtain ⟨hanswers, hkey⟩ := answers_of_rollInTurn hturns
      exact ⟨hanswers, hkey, reads_iff_of_rollInTurn hturns⟩
  · have hdice : [both].flatMap dice = [p, q].flatMap dice := by
      simp [dice_append hq hboth hcount]
    refine ⟨fun parts whole r₁ r₂ hparts hwhole => ?_, fun hfitsp hfitsq hfitsboth => ?_⟩
    · -- Both read the same dice, and there is one reading of them only.
      have hread := (reads_iff_of_rollInTurn hwhole _ _).mpr ⟨rfl, rfl⟩
      rw [hdice, reads_iff_of_rollInTurn hparts] at hread
      have hkeys : r₂.key = r₁.key :=
        (answers_of_rollInTurn hwhole).2.trans (answers_of_rollInTurn hparts).2.symm
      refine ⟨hread.1, ?_⟩
      obtain ⟨key₁, place₁⟩ := r₁
      obtain ⟨key₂, place₂⟩ := r₂
      rw [Roller.mk.injEq]
      exact ⟨hkeys, hread.2⟩
    · have hfits : ∀ p' ∈ [p, q], FitsWord p'.highest := by simp [hfitsp, hfitsq]
      have hfits' : ∀ p' ∈ [both], FitsWord p'.highest := by simp [hfitsboth]
      rw [rollInTurn_eq_none_iff hfits, rollInTurn_eq_none_iff hfits', hdice]

end Pool

end Dice
