import Dice.Proofs.Distribution.Outcomes
import Dice.Roll
import Mathlib.Algebra.Order.Ring.Nat

namespace Dice

open Dice.Random

/-!
# What a roll shows

Whatever words a source gives, the faces drawn are faces of the die, there are as many as the pool
has dice, and their total is one of the pool's totals.

* `Random.faceOf?_eq_none_iff`, `Random.faceOf?_eq_some_iff` — the words in excess, and the faces of
  the others.
* `Random.faceOf?_range` — a word gives one of the faces.
* `Pool.drawn_of_roll`, `Pool.error_of_roll` — a roll that is made, and one that is not.
* `Pool.Shows` — as many faces as dice, each of them a face of the die.
* `Pool.shows_of_roll` — what a roll shows.
* `Pool.Shows.total_mem_outcomes` — the total shown is listed in the pool's law.
-/

namespace Random

/-- A word is in excess if the low half of its product with the number of faces is under the
    threshold. -/
theorem faceOf?_eq_none_iff {faces word : UInt32} :
    faceOf? faces word = none ↔
      word.toNat * faces.toNat % 2 ^ 32 < (2 ^ 32 - faces.toNat) % faces.toNat := by
  rw [show (2 ^ 32 - faces.toNat) % faces.toNat = threshold faces from rfl,
    show 2 ^ 32 = UInt32.size from rfl]
  simp only [faceOf?]
  split <;> simp_all

/-- The high half counts fewer faces than there are, for dice without faces accept no word. -/
theorem highHalf_lt {faces word : UInt32}
    (h : (2 ^ 32 - faces.toNat) % faces.toNat ≤ word.toNat * faces.toNat % 2 ^ 32) :
    word.toNat * faces.toNat / 2 ^ 32 < faces.toNat := by
  have hpos : 0 < faces.toNat := by
    by_contra hzero
    have hzero : faces.toNat = 0 := by omega
    simp [hzero] at h
  exact Nat.div_lt_of_lt_mul (Nat.mul_lt_mul_of_pos_right word.toNat_lt hpos)

/-- Any other word gives the face after as many as the high half of the product counts. -/
theorem faceOf?_eq_some_iff {faces word face : UInt32} :
    faceOf? faces word = some face ↔
      (2 ^ 32 - faces.toNat) % faces.toNat ≤ word.toNat * faces.toNat % 2 ^ 32 ∧
        face.toNat = 1 + word.toNat * faces.toNat / 2 ^ 32 := by
  by_cases hexcess : faceOf? faces word = none
  · rw [hexcess]
    refine iff_of_false nofun fun h => ?_
    exact absurd (faceOf?_eq_none_iff.mp hexcess) (Nat.not_lt.mpr h.1)
  · have haccept : (2 ^ 32 - faces.toNat) % faces.toNat ≤ word.toNat * faces.toNat % 2 ^ 32 :=
      Nat.not_lt.mp (mt faceOf?_eq_none_iff.mpr hexcess)
    have hface : faceOf? faces word = some (.ofNat (1 + word.toNat * faces.toNat / 2 ^ 32)) :=
      if_neg (Nat.not_lt.mpr haccept)
    have hsize : 1 + word.toNat * faces.toNat / 2 ^ 32 < UInt32.size := by
      rw [Nat.add_comm]
      exact (Nat.succ_le_of_lt (highHalf_lt haccept)).trans_lt faces.toNat_lt_size
    rw [hface, Option.some.injEq, ← UInt32.toNat_inj, UInt32.toNat_ofNat_of_lt' hsize,
      and_iff_right haccept]
    exact eq_comm

/-- A word that gives a face gives one of the faces of the die. -/
theorem faceOf?_range {faces word face : UInt32} (h : faceOf? faces word = some face) :
    1 ≤ face.toNat ∧ face.toNat ≤ faces.toNat := by
  obtain ⟨haccept, hface⟩ := faceOf?_eq_some_iff.mp h
  have hquot := highHalf_lt haccept
  omega

variable {S : Type} [WordSource S]

/-- A face that is drawn is the face of some word. -/
theorem exists_word_of_drawWithin {faces face : UInt32} {tries : Nat} {s s' : S}
    (h : drawWithin faces tries s = some (face, s')) : ∃ word, faceOf? faces word = some face := by
  induction tries generalizing s with
  | zero => cases h
  | succ tries ih =>
    rw [drawWithin] at h
    -- The source is empty, or its word is accepted, or the next word is tried.
    split at h
    · cases h
    · rename_i word _ _
      split at h
      · rename_i hface
        cases h
        exact ⟨word, hface⟩
      · exact ih h

/-- A face that is drawn is one of the faces of the die. -/
theorem drawFace_range {faces face : UInt32} {s s' : S} (h : drawFace faces s = some (face, s')) :
    1 ≤ face.toNat ∧ face.toNat ≤ faces.toNat := by
  obtain ⟨word, hword⟩ := exists_word_of_drawWithin h
  exact faceOf?_range hword

/-- As many faces are drawn as asked for, and each is a face of the die. -/
theorem drawFaces_range {faces : UInt32} {count : Nat} {s s' : S} {drawn : List UInt32}
    (h : drawFaces faces count s = some (drawn, s')) :
    drawn.length = count ∧ ∀ face ∈ drawn, 1 ≤ face.toNat ∧ face.toNat ≤ faces.toNat := by
  induction count generalizing s drawn with
  | zero =>
    cases h
    simp
  | succ count ih =>
    rw [drawFaces_succ] at h
    obtain ⟨⟨face, t⟩, hface, h⟩ := Option.bind_eq_some_iff.mp h
    obtain ⟨⟨rest, t'⟩, hrest, h⟩ := Option.map_eq_some_iff.mp h
    cases h
    obtain ⟨hlength, hrange⟩ := ih hrest
    refine ⟨by rw [List.length_cons, hlength], fun f hf => ?_⟩
    rcases List.mem_cons.mp hf with rfl | hf
    · exact drawFace_range hface
    · exact hrange f hf

end Random

namespace Pool

/-! ### Rolls and draws -/

section Rolls

variable {S : Type} [WordSource S]

/-- A roll draws the faces of its dice, unless they have none. -/
theorem roll_eq_of_faces {p : Pool} (h : p.faces ≠ 0) (s : S) :
    p.roll s =
      match drawFaces p.faces p.count.toNat s with
      | some (faces, s) => .ok (.ofFaces p faces, s)
      | none => .error .noWords := by
  rw [roll, if_neg h]
  cases drawFaces p.faces p.count.toNat s <;> rfl

/-- Dice without faces are not rolled. -/
theorem roll_of_noFaces {p : Pool} (h : p.faces = 0) (s : S) : p.roll s = .error .noFaces :=
  if_pos h

/-- A roll that is made shows the faces that are drawn. -/
theorem drawn_of_roll {p : Pool} {s s' : S} {roll : Roll} (h : p.roll s = .ok (roll, s')) :
    p.faces ≠ 0 ∧
      ∃ faces, drawFaces p.faces p.count.toNat s = some (faces, s') ∧ roll = .ofFaces p faces := by
  by_cases hfaces : p.faces = 0
  · rw [roll_of_noFaces hfaces] at h
    cases h
  · rw [roll_eq_of_faces hfaces] at h
    refine ⟨hfaces, ?_⟩
    cases hdrawn : drawFaces p.faces p.count.toNat s with
    | none => simp [hdrawn] at h
    | some drawn =>
      simp only [hdrawn, Except.ok.injEq, Prod.mk.injEq] at h
      exact ⟨drawn.1, by rw [← h.2], h.1.symm⟩

/-- A roll fails because the dice have no faces, or because none are drawn. -/
theorem error_of_roll {p : Pool} {s : S} {e : RollError} (h : p.roll s = .error e) :
    (p.faces = 0 ∧ e = .noFaces) ∨
      (p.faces ≠ 0 ∧ drawFaces p.faces p.count.toNat s = none ∧ e = .noWords) := by
  by_cases hfaces : p.faces = 0
  · rw [roll_of_noFaces hfaces] at h
    exact .inl ⟨hfaces, (Except.error.inj h).symm⟩
  · rw [roll_eq_of_faces hfaces] at h
    refine .inr ⟨hfaces, ?_⟩
    cases hdrawn : drawFaces p.faces p.count.toNat s with
    | none =>
      rw [hdrawn] at h
      exact ⟨rfl, (Except.error.inj h).symm⟩
    | some drawn => simp [hdrawn] at h

/-- Only dice without faces fail for having none. -/
theorem noFaces_of_roll {p : Pool} {s : S} (h : p.roll s = .error .noFaces) : p.faces = 0 := by
  rcases error_of_roll h with ⟨hfaces, -⟩ | ⟨-, -, he⟩
  · exact hfaces
  · cases he

end Rolls

/-! ### What is shown -/

/-- As many faces as the pool has dice, each of them a face of its die. -/
structure Shows (p : Pool) (faces : List UInt32) : Prop where
  length : faces.length = p.count.toNat
  range : ∀ face ∈ faces, 1 ≤ face.toNat ∧ face.toNat ≤ p.faces.toNat

/-- What a roll of a pool shows. -/
theorem shows_of_roll {S : Type} [WordSource S] {p : Pool} {s s' : S} {r : Roll}
    (h : p.roll s = .ok (r, s')) :
    p.Shows r.faces ∧ r.total = p.offset.toInt + faceSum r.faces := by
  obtain ⟨-, faces, hdrawn, rfl⟩ := drawn_of_roll h
  obtain ⟨hlength, hrange⟩ := drawFaces_range hdrawn
  exact ⟨⟨hlength, hrange⟩, rfl⟩

/-- The sum of some faces lies between one for each and the greatest for each. -/
theorem faceSum_bounds {faces : List UInt32} {n : Nat}
    (h : ∀ face ∈ faces, 1 ≤ face.toNat ∧ face.toNat ≤ n) :
    (faces.length : Int) ≤ faceSum faces ∧ faceSum faces ≤ faces.length * n := by
  induction faces with
  | nil => simp [faceSum]
  | cons face rest ih =>
    obtain ⟨hlow, hhigh⟩ := ih fun f hf => h f (List.mem_cons_of_mem _ hf)
    have hface := h face List.mem_cons_self
    have hsum : faceSum (face :: rest) = face.toNat + faceSum rest := by simp [faceSum]
    have hlength : ((rest.length + 1 : Nat) : Int) * n = rest.length * n + n := by
      push_cast
      ring
    rw [hsum, List.length_cons, hlength]
    push_cast
    omega

/-- The total of the faces shown lies between the bounds of the pool. -/
theorem Shows.total_bounds {p : Pool} {faces : List UInt32} (h : p.Shows faces) :
    p.lowest ≤ p.offset.toInt + faceSum faces ∧ p.offset.toInt + faceSum faces ≤ p.highest := by
  obtain ⟨hlow, hhigh⟩ := faceSum_bounds h.range
  rw [h.length] at hlow hhigh
  rw [lowest, highest]
  omega

/-- The total of the faces shown is listed in the pool's law, whatever the kind of weight. -/
theorem Shows.total_mem_outcomes {W : Type} [Weight W] {p : Pool} {faces : List UInt32}
    (h : p.Shows faces) (hc : 1 ≤ p.count.toNat) (hf : 1 ≤ p.faces.toNat) :
    p.offset.toInt + faceSum faces ∈ (p.totals : Distribution W).outcomes :=
  -- All numbers between the bounds are listed, so it is enough to stay between them.
  (mem_outcomes_totals hc hf).mpr h.total_bounds

end Pool

end Dice
