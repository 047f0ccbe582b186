import Dice.Overflow
import Dice.Proofs.Random.Draws

namespace Dice

open Dice.Random

/-!
# Rolls in words

A total that is added up face by face only grows.  So the sums on the way fit a word if the last one
does, and a roll in words is the roll with the exact total, unless this total does not fit.

* `computes_addFaces?` — the sum of some faces, whatever it starts from.
* `drawAdding?_of_drawn`, `drawAdding?_of_noWords` — faces that are added as they are drawn.
* `Pool.roll?_of_ok`, `Pool.roll?_of_error` — the roll in words beside the roll.
* `Pool.roll?_eq_some_roll` — both agree if the greatest total fits.
-/

/-- A number between two that fit fits. -/
theorem FitsWord.of_between {low high n : Int} (hlow : FitsWord low) (hhigh : FitsWord high)
    (h : low ≤ n) (h' : n ≤ high) : FitsWord n :=
  ⟨hlow.1.trans h, h'.trans hhigh.2⟩

/-- A number that is computed is missing exactly if it does not fit. -/
theorem Computes.eq_none_iff {result : Option Int64} {n : Int} (h : Computes result n) :
    result = none ↔ ¬ FitsWord n := by
  rw [Option.eq_none_iff_forall_ne_some, fitsWord_iff, not_exists]
  exact forall_congr' fun w => not_congr (h w)

/-! ### Adding faces -/

/-- A sum of faces is not negative. -/
theorem faceSum_nonneg (faces : List UInt32) : 0 ≤ faceSum faces := by
  induction faces with
  | nil => exact le_rfl
  | cons face rest ih => exact add_nonneg (Int.natCast_nonneg _) ih

/-- A face is added to a word as its number. -/
theorem computes_addWords?_wide (total : Int64) (face : UInt32) :
    Computes (addWords? total (wide face)) (total.toInt + face.toNat) := by
  simpa using computes_addWords? total (wide face)

/-- The first face is added first, the others to the sum. -/
theorem addFaces?_cons (total : Int64) (face : UInt32) (rest : List UInt32) :
    addFaces? total (face :: rest) =
      (addWords? total (wide face)).bind fun sum => addFaces? sum rest := by
  rw [addFaces?, List.foldlM_cons]
  rfl

/-- Faces are added exactly, and the sums on the way overflow only if the last one does not fit. -/
theorem computes_addFaces? (total : Int64) (faces : List UInt32) :
    Computes (addFaces? total faces) (total.toInt + faceSum faces) := by
  induction faces generalizing total with
  | nil =>
    intro w
    have hsum : total.toInt + faceSum [] = total.toInt := add_zero _
    rw [hsum, Int64.toInt_inj]
    exact Option.some_inj.trans eq_comm
  | cons face rest ih =>
    intro w
    have hsum : faceSum (face :: rest) = face.toNat + faceSum rest := rfl
    have hstep := computes_addWords?_wide total face
    rw [addFaces?_cons, Option.bind_eq_some_iff, hsum, ← add_assoc]
    constructor
    · rintro ⟨sum, hadded, hrest⟩
      rw [← (hstep sum).mp hadded]
      exact (ih sum w).mp hrest
    · intro hw
      -- The sum after the first face lies between the start and the end, which are words.
      have hrest := faceSum_nonneg rest
      have hfits : FitsWord (total.toInt + face.toNat) :=
        .of_between (fitsWord_iff.mpr ⟨total, rfl⟩) (fitsWord_iff.mpr ⟨w, hw⟩) (by omega) (by omega)
      obtain ⟨sum, hadded⟩ := fitsWord_iff.mp hfits
      exact ⟨sum, (hstep sum).mpr hadded, (ih sum w).mpr (hadded ▸ hw)⟩

/-- The total of some faces is found exactly if it fits. -/
theorem Pool.computes_total? (p : Pool) (faces : List UInt32) :
    Computes (p.total? faces) (p.offset.toInt + faceSum faces) := by
  simpa [total?] using computes_addFaces? p.offset.toInt64 faces

/-! ### Adding faces as they are drawn -/

section Drawing

variable {S : Type} [WordSource S] {faces : UInt32} {count : Nat} {s s' : S}

/-- Faces that are drawn are added as if all of them had been drawn first. -/
theorem drawAdding?_of_drawn {new : List UInt32} (h : drawFaces faces count s = some (new, s'))
    (total : Int64) (drawn : List UInt32) :
    drawAdding? faces count total drawn s =
      (addFaces? total new).map fun sum => .ok (sum, drawn.reverse ++ new, s') := by
  induction count generalizing s new total drawn with
  | zero =>
    obtain ⟨rfl, rfl⟩ := Prod.mk.inj (Option.some.inj h)
    rw [List.reverse_nil, List.append_nil]
    rfl
  | succ count ih =>
    rw [drawFaces_succ] at h
    obtain ⟨⟨face, t⟩, hface, h⟩ := Option.bind_eq_some_iff.mp h
    obtain ⟨⟨rest, t'⟩, hrest, h⟩ := Option.map_eq_some_iff.mp h
    obtain ⟨rfl, rfl⟩ := Prod.mk.inj h
    rw [drawAdding?, hface, addFaces?_cons]
    simp only
    cases addWords? total (wide face) with
    | none => rfl
    | some sum =>
      simp only [Option.bind_some]
      rw [ih hrest sum (face :: drawn), List.reverse_cons, List.append_assoc]
      rfl

/-- Where the words do not suffice there is an error, unless the faces before the end could be too
    great to be added. -/
theorem drawAdding?_of_noWords (h : drawFaces faces count s = none) (total : Int64)
    (drawn : List UInt32) :
    drawAdding? faces count total drawn s = some (.error .noWords) ∨
      drawAdding? faces count total drawn s = none ∧
        ¬ FitsWord (total.toInt + count * faces.toNat) := by
  induction count generalizing s total drawn with
  | zero => cases h
  | succ count ih =>
    have hstart : FitsWord total.toInt := fitsWord_iff.mpr ⟨total, rfl⟩
    have hmore : ((count + 1 : Nat) : Int) * faces.toNat = faces.toNat + count * faces.toNat := by
      push_cast
      ring
    have hrest : (0 : Int) ≤ count * faces.toNat :=
      mul_nonneg (Int.natCast_nonneg _) (Int.natCast_nonneg _)
    rw [drawFaces_succ] at h
    rw [drawAdding?]
    cases hface : drawFace faces s with
    | none => exact .inl rfl
    | some first =>
      obtain ⟨face, t⟩ := first
      obtain ⟨-, hle⟩ := drawFace_range hface
      rw [hface, Option.bind_some, Option.map_eq_none_iff] at h
      simp only
      have hadd := computes_addWords?_wide total face
      cases hsum : addWords? total (wide face) with
      | none =>
        -- The first face already overflows, so its greatest value and the others do too.
        refine .inr ⟨rfl, fun hfits => hadd.eq_none_iff.mp hsum ?_⟩
        exact hstart.of_between hfits (by omega) (by omega)
      | some sum =>
        rcases ih h sum (face :: drawn) with herror | ⟨hnone, hover⟩
        · exact .inl herror
        · refine .inr ⟨hnone, fun hfits => hover ?_⟩
          rw [(hadd sum).mp hsum]
          exact hstart.of_between hfits (by omega) (by omega)

end Drawing

namespace Pool

/-! ### The roll in words -/

/-- The least total always fits. -/
theorem fitsWord_lowest (p : Pool) : FitsWord p.lowest := by
  have hcount : p.count.toNat < 2 ^ 32 := p.count.toNat_lt
  have hlow := p.offset.le_toInt
  have hhigh := p.offset.toInt_lt
  rw [fitsWord_iff_between, lowest]
  omega

section Rolls

variable {S : Type} [WordSource S] {p : Pool} {s s' : S} {r : Roll}

/-- The total of a roll is found exactly if it fits. -/
theorem computes_total?_of_roll (h : p.roll s = .ok (r, s')) :
    Computes (p.total? r.faces) r.total := by
  rw [(shows_of_roll h).2]
  exact p.computes_total? r.faces

/-- The total of a roll fits if the greatest total of the pool does. -/
theorem fitsWord_total_of_roll (h : p.roll s = .ok (r, s')) (hfits : FitsWord p.highest) :
    FitsWord r.total := by
  obtain ⟨hshows, htotal⟩ := shows_of_roll h
  obtain ⟨hlow, hhigh⟩ := hshows.total_bounds
  rw [htotal]
  exact p.fitsWord_lowest.of_between hfits hlow hhigh

/-- A roll that is made is made in words too, unless its total does not fit. -/
theorem roll?_of_ok (h : p.roll s = .ok (r, s')) :
    p.roll? s = if FitsWord r.total then some (.ok (r, s')) else none := by
  have hcomputes := computes_total?_of_roll h
  obtain ⟨hfaces, drawn, hdrawn, rfl⟩ := drawn_of_roll h
  rw [roll?, if_neg hfaces, drawAdding?_of_drawn hdrawn]
  show Option.map _ ((p.total? drawn).map _) = _
  by_cases hfits : FitsWord (Roll.ofFaces p drawn).total
  · obtain ⟨w, hw⟩ := fitsWord_iff.mp hfits
    have htotal : p.total? drawn = some w := (hcomputes w).mpr hw
    rw [if_pos hfits, htotal]
    show some (Except.ok (_, s')) = some (.ok (_, s'))
    rw [hw]
    rfl
  · have hnone : p.total? drawn = none := hcomputes.eq_none_iff.mpr hfits
    rw [if_neg hfits, hnone]
    rfl

/-- A roll that fails in words fails alike, and overflows at most where the greatest total does. -/
theorem roll?_of_error {e : RollError} (h : p.roll s = .error e) :
    p.roll? s = some (.error e) ∨ p.roll? s = none ∧ ¬ FitsWord p.highest := by
  rcases error_of_roll h with ⟨hfaces, rfl⟩ | ⟨hfaces, hdrawn, rfl⟩
  · exact .inl (if_pos hfaces)
  · rw [roll?, if_neg hfaces, highest, add_comm]
    rcases drawAdding?_of_noWords hdrawn p.offset.toInt64 [] with herror | ⟨hnone, hover⟩
    · rw [herror]
      exact .inl rfl
    · rw [hnone]
      refine .inr ⟨rfl, ?_⟩
      rwa [Int32.toInt_toInt64] at hover

/-- The rolls made in words are those whose total fits. -/
theorem roll?_eq_ok_iff : p.roll? s = some (.ok (r, s')) ↔
    p.roll s = .ok (r, s') ∧ FitsWord r.total := by
  cases hroll : p.roll s with
  | error e =>
    rcases roll?_of_error hroll with herror | ⟨hnone, -⟩
    · simp [herror]
    · simp [hnone]
  | ok made =>
    obtain ⟨r', t⟩ := made
    rw [roll?_of_ok hroll]
    by_cases hfits : FitsWord r'.total
    · rw [if_pos hfits, Option.some.injEq, iff_self_and]
      intro h
      obtain ⟨rfl, -⟩ := Prod.mk.inj (Except.ok.inj h)
      exact hfits
    · rw [if_neg hfits]
      refine iff_of_false nofun ?_
      rintro ⟨h, hfits'⟩
      obtain ⟨rfl, -⟩ := Prod.mk.inj (Except.ok.inj h)
      exact hfits hfits'

/-- The rolls that fail in words are rolls that fail. -/
theorem roll_of_roll?_error {e : RollError} (h : p.roll? s = some (.error e)) :
    p.roll s = .error e := by
  cases hroll : p.roll s with
  | error e' =>
    rcases roll?_of_error hroll with herror | ⟨hnone, -⟩
    · rw [h] at herror
      rw [Except.error.inj (Option.some.inj herror)]
    · rw [h] at hnone
      cases hnone
  | ok made =>
    obtain ⟨r, s'⟩ := made
    rw [roll?_of_ok hroll] at h
    split at h <;> cases h

/-- If the greatest total fits, nothing overflows, and the roll in words is the roll. -/
theorem roll?_eq_some_roll (hfits : FitsWord p.highest) : p.roll? s = some (p.roll s) := by
  cases hroll : p.roll s with
  | error e =>
    rcases roll?_of_error hroll with herror | ⟨-, hover⟩
    · exact herror
    · exact absurd hfits hover
  | ok made => rw [roll?_of_ok hroll, if_pos (fitsWord_total_of_roll hroll hfits)]

end Rolls

end Pool

end Dice
