import Dice.Random.Roller
import Dice.Roll

namespace Dice

open Dice.Random

/-!
# Rolls from a stream

A roller draws words of its stream without end, so a roll of dice that have faces fails only if no
word of the whole stream gives a face.

* `Random.Barren` — streams that give no face of a die.
* `Random.barren_of_drawFaces` — the only streams from which faces cannot be drawn.
* `Pool.rolls` — several rolls of a pool, one after the other.
* `Pool.length_rolls`, `Pool.barren_of_rolls` — what comes of them, or why nothing does.
-/

namespace Random

/-! ### Faces -/

/-- No word of the stream gives a face of the die. -/
def Barren (key : Key) (faces : UInt32) : Prop :=
  ∀ position, faceOf? faces (streamWord key position) = none

/-- Words that are drawn in vain give no face. -/
theorem faceOf?_of_drawWithin {faces : UInt32} {tries : Nat} {r : Roller}
    (h : drawWithin faces tries r = none) {n : Nat} (hn : n < tries) :
    faceOf? faces (streamWord r.key (r.position + n)) = none := by
  induction tries generalizing r n with
  | zero => omega
  | succ tries ih =>
    rw [drawWithin] at h
    simp only [WordSource.next?] at h
    cases hface : faceOf? faces (streamWord r.key r.position) with
    | some face => simp [hface] at h
    | none =>
      simp only [hface] at h
      cases n with
      | zero => exact hface
      | succ n =>
        have hrest := ih h (n := n) (by omega)
        rwa [show r.position + 1 + n = r.position + (n + 1) by omega] at hrest

/-- Drawing goes on in the same stream. -/
theorem key_of_drawWithin {faces face : UInt32} {tries : Nat} {r r' : Roller}
    (h : drawWithin faces tries r = some (face, r')) : r'.key = r.key := by
  induction tries generalizing r with
  | zero => cases h
  | succ tries ih =>
    rw [drawWithin] at h
    simp only [WordSource.next?] at h
    cases hface : faceOf? faces (streamWord r.key r.position) with
    | some face =>
      simp only [hface, Option.some.injEq, Prod.mk.injEq] at h
      rw [← h.2]
    | none =>
      simp only [hface] at h
      have hkey := ih h
      exact hkey

/-- A face takes a word at least. -/
theorem position_lt_of_drawWithin {faces face : UInt32} {tries : Nat} {r r' : Roller}
    (h : drawWithin faces tries r = some (face, r')) : r.position < r'.position := by
  induction tries generalizing r with
  | zero => cases h
  | succ tries ih =>
    rw [drawWithin] at h
    simp only [WordSource.next?] at h
    cases hface : faceOf? faces (streamWord r.key r.position) with
    | some face =>
      simp only [hface, Option.some.injEq, Prod.mk.injEq] at h
      rw [← h.2]
      exact Nat.lt_succ_self _
    | none =>
      simp only [hface] at h
      exact Nat.lt_of_succ_lt (ih h)

/-- If a whole turn of the stream is drawn in vain, no word of it gives a face. -/
theorem barren_of_drawFace {faces : UInt32} {r : Roller} (h : drawFace faces r = none) :
    Barren r.key faces := by
  intro position
  -- Every place of the stream comes up once within a turn from the roller's place.
  have hperiod : streamPeriod = 295147905179352825856 := by decide
  let n := (position + (streamPeriod - r.position % streamPeriod)) % streamPeriod
  have hn : n < streamPeriod := Nat.mod_lt _ (by decide)
  have hplace : ∃ turns turns', r.position + n + turns * streamPeriod =
      position + turns' * streamPeriod := by
    refine ⟨(position + (streamPeriod - r.position % streamPeriod)) / streamPeriod,
      r.position / streamPeriod + 1, ?_⟩
    simp only [n, hperiod]
    omega
  obtain ⟨turns, turns', hplace⟩ := hplace
  have hface := faceOf?_of_drawWithin h hn
  rw [← streamWord_add_period _ _ turns, hplace, streamWord_add_period] at hface
  exact hface

/-- Faces cannot be drawn only from a stream that gives none. -/
theorem barren_of_drawFaces {faces : UInt32} {count : Nat} {r : Roller}
    (h : drawFaces faces count r = none) : Barren r.key faces := by
  induction count generalizing r with
  | zero => cases h
  | succ count ih =>
    rw [drawFaces_succ] at h
    cases hface : drawFace faces r with
    | none => exact barren_of_drawFace hface
    | some drawn =>
      rw [hface, Option.bind_some, Option.map_eq_none_iff] at h
      rw [← key_of_drawWithin hface]
      exact ih h

/-- Drawing faces leaves the key of the stream. -/
theorem key_of_drawFaces {faces : UInt32} {count : Nat} {r r' : Roller} {drawn : List UInt32}
    (h : drawFaces faces count r = some (drawn, r')) : r'.key = r.key := by
  induction count generalizing r drawn with
  | zero =>
    rw [drawFaces_zero] at h
    cases h
    rfl
  | succ count ih =>
    rw [drawFaces_succ] at h
    cases hface : drawFace faces r with
    | none =>
      rw [hface] at h
      cases h
    | some first =>
      rw [hface, Option.bind_some, Option.map_eq_some_iff] at h
      obtain ⟨⟨others, last⟩, hothers, heq⟩ := h
      cases heq
      exact (ih hothers).trans (key_of_drawWithin hface)

/-- Faces take one word each at least. -/
theorem position_add_le_of_drawFaces {faces : UInt32} {count : Nat} {r r' : Roller}
    {drawn : List UInt32} (h : drawFaces faces count r = some (drawn, r')) :
    r.position + count ≤ r'.position := by
  induction count generalizing r drawn with
  | zero =>
    rw [drawFaces_zero] at h
    cases h
    exact Nat.le_refl _
  | succ count ih =>
    rw [drawFaces_succ] at h
    obtain ⟨⟨face, next⟩, hface, h⟩ := Option.bind_eq_some_iff.mp h
    obtain ⟨⟨others, last⟩, hothers, heq⟩ := Option.map_eq_some_iff.mp h
    cases heq
    have hfirst : r.position < next.position := position_lt_of_drawWithin hface
    have hrest : next.position + count ≤ last.position := ih hothers
    show r.position + (count + 1) ≤ last.position
    omega

end Random

/-! ### Rolls one after the other -/

namespace Pool

section Rolls

variable {S : Type} [WordSource S]

/-- Some rolls of a pool, each from where the one before it has left the source. -/
def rolls (p : Pool) : Nat → S → Except RollError (List Roll × S)
  | 0, source => .ok ([], source)
  | count + 1, source =>
    match p.roll source with
    | .error e => .error e
    | .ok (roll, source) => (p.rolls count source).map fun r => (roll :: r.1, r.2)

/-- There are as many rolls as were asked for. -/
theorem length_rolls {p : Pool} {count : Nat} {source source' : S} {made : List Roll}
    (h : p.rolls count source = .ok (made, source')) : made.length = count := by
  induction count generalizing source made with
  | zero =>
    obtain ⟨rfl, -⟩ := Prod.mk.inj (Except.ok.inj h)
    rfl
  | succ count ih =>
    rw [rolls] at h
    cases hroll : p.roll source with
    | error e => simp [hroll] at h
    | ok r =>
      obtain ⟨roll, next⟩ := r
      simp only [hroll] at h
      cases hrest : p.rolls count next with
      | error e => simp [hrest, Except.map] at h
      | ok rest =>
        obtain ⟨others, last⟩ := rest
        simp only [hrest, Except.map, Except.ok.injEq, Prod.mk.injEq] at h
        obtain ⟨rfl, rfl⟩ := h
        rw [List.length_cons, ih hrest]

end Rolls

/-- A roll goes on in the same stream. -/
theorem key_of_roll {p : Pool} {r r' : Roller} {roll : Roll} (h : p.roll r = .ok (roll, r')) :
    r'.key = r.key := by
  unfold Pool.roll at h
  split at h
  · cases h
  · split at h
    · cases h
    · next hdrawn =>
      cases h
      exact key_of_drawFaces hdrawn

/-- A roll takes a word for every die at least. -/
theorem position_add_le_of_roll {p : Pool} {r r' : Roller} {roll : Roll}
    (h : p.roll r = .ok (roll, r')) : r.position + p.count.toNat ≤ r'.position := by
  unfold Pool.roll at h
  split at h
  · cases h
  · split at h
    · cases h
    · next hdrawn =>
      cases h
      exact position_add_le_of_drawFaces hdrawn

/-- Dice that have faces cannot be rolled only if no word of the stream gives a face. -/
theorem barren_of_roll {p : Pool} (hfaces : 1 ≤ p.faces.toNat) {r : Roller} {e : RollError}
    (h : p.roll r = .error e) : e = .noWords ∧ Barren r.key p.faces := by
  have hne : p.faces ≠ 0 := by
    intro hzero
    rw [hzero] at hfaces
    exact absurd hfaces (by decide)
  rw [Pool.roll, if_neg hne] at h
  split at h
  · next hdrawn => exact ⟨(Except.error.inj h).symm, barren_of_drawFaces hdrawn⟩
  · cases h

/-- The same is so for several rolls. -/
theorem barren_of_rolls {p : Pool} (hfaces : 1 ≤ p.faces.toNat) {count : Nat} {r : Roller}
    {e : RollError} (h : p.rolls count r = .error e) : e = .noWords ∧ Barren r.key p.faces := by
  induction count generalizing r with
  | zero => cases h
  | succ count ih =>
    rw [rolls] at h
    cases hroll : p.roll r with
    | error e' =>
      simp only [hroll, Except.error.injEq] at h
      exact h ▸ barren_of_roll hfaces hroll
    | ok first =>
      obtain ⟨roll, next⟩ := first
      simp only [hroll] at h
      cases hrest : p.rolls count next with
      | error e' =>
        simp only [hrest, Except.map, Except.error.injEq] at h
        obtain rfl := h
        rw [← key_of_roll hroll]
        exact ih hrest
      | ok rest => simp [hrest, Except.map] at h

end Pool

end Dice
