import Dice.Proofs.Distribution.Counting
import Dice.Proofs.Pool.WordTotals
import Dice.Proofs.Random.Words

namespace Dice

open Dice.Random
open scoped BigOperators

/-!
# Rolls follow the law

Every face has equally many words, so every sequence of faces has equally many tuples of words, and
the share of the tuples with a given total is the share of the face sequences with that total.

* `Random.drawFaces_accepted` — words in excess are passed over.
* `Random.card_acceptedTuples_filter` — tuples of words are counted by the faces they give.
* `Pool.rolledTotal?_ofFn_iff` — the total of a roll from accepted words.
* `Pool.exists_rolledTotal?_iff` — the totals that can be rolled are the words listed.
* `Pool.weightOf_law_eq_tuplesOf_div` — the probability of a total is its share of the tuples.
-/

namespace Random

/-! ### Drawing from a list of words -/

/-- The first word gives the face, or the next word is tried. -/
theorem drawFace_cons (faces word : UInt32) (rest : List UInt32) :
    drawFace faces (word :: rest) =
      match faceOf? faces word with
      | some face => some (face, rest)
      | none => drawFace faces rest := rfl

/-- The accepted ones of some words. -/
def accepted (faces : UInt32) (words : List UInt32) : List UInt32 :=
  words.filter fun word => (faceOf? faces word).isSome

/-- A face is drawn from the accepted words as from all words. -/
theorem drawFace_accepted (faces : UInt32) (words : List UInt32) :
    drawFace faces (accepted faces words) =
      (drawFace faces words).map fun r => (r.1, accepted faces r.2) := by
  induction words with
  | nil => rfl
  | cons word rest ih =>
    cases h : faceOf? faces word <;> simp_all [accepted, drawFace_cons]

/-- Faces are drawn from the accepted words as from all words. -/
theorem drawFaces_accepted (faces : UInt32) (count : Nat) (words : List UInt32) :
    drawFaces faces count (accepted faces words) =
      (drawFaces faces count words).map fun r => (r.1, accepted faces r.2) := by
  induction count generalizing words with
  | zero => rfl
  | succ count ih =>
    simp only [drawFaces_succ, drawFace_accepted]
    cases drawFace faces words with
    | none => rfl
    | some r => simp [ih, Function.comp_def]

/-- When all words are accepted, each of them gives the face of one die. -/
theorem drawFaces_of_accepted {faces : UInt32} {words : List UInt32}
    (h : ∀ word ∈ words, word ∈ acceptedWords faces) :
    drawFaces faces words.length words = some (words.filterMap (faceOf? faces), []) := by
  induction words with
  | nil => rfl
  | cons word rest ih =>
    obtain ⟨hword, hrest⟩ := List.forall_mem_cons.mp h
    obtain ⟨face, hface⟩ := Option.isSome_iff_exists.mp (mem_acceptedWords.mp hword)
    rw [List.length_cons, drawFaces_succ, drawFace_cons, hface]
    simp [ih hrest, hface]

/-- The sum of the faces that some words give. -/
theorem faceSum_filterMap (faces : UInt32) (words : List UInt32) :
    faceSum (words.filterMap (faceOf? faces)) =
      (words.map fun word => (faceNumber faces word : Int)).sum := by
  induction words with
  | nil => rfl
  | cons word rest ih =>
    cases h : faceOf? faces word <;> simp_all [faceSum, faceNumber]

/-! ### Counting tuples of words -/

section Tuples

variable (faces : UInt32) (count : Nat)

/-- The tuples that have an accepted word for each of several dice. -/
def acceptedTuples : Finset (Fin count → UInt32) :=
  Fintype.piFinset fun _ => acceptedWords faces

/-- The face sequence that a tuple of words gives. -/
def faceNumbers {count : Nat} (words : Fin count → UInt32) : Fin count → Nat :=
  fun i => faceNumber faces (words i)

/-- Accepted words give each die one of its faces. -/
theorem faceNumbers_mem_faceSequences {words : Fin count → UInt32}
    (h : words ∈ acceptedTuples faces count) :
    faceNumbers faces words ∈ faceSequences faces.toNat count :=
  Fintype.mem_piFinset.mpr fun i => faceNumber_mem_Icc (Fintype.mem_piFinset.mp h i)

/-- The tuples that give one face sequence choose a word of its face for each die. -/
theorem acceptedTuples_filter_eq (g : Fin count → Nat) :
    {words ∈ acceptedTuples faces count | faceNumbers faces words = g} =
      Fintype.piFinset fun i => wordsOf faces (g i) := by
  ext words
  simp only [acceptedTuples, Finset.mem_filter, Fintype.mem_piFinset, mem_wordsOf_iff_faceNumber,
    forall_and, faceNumbers, funext_iff]

/-- Every face sequence has equally many tuples. -/
theorem card_tuples_eq {g : Fin count → Nat} (h : g ∈ faceSequences faces.toNat count) :
    {words ∈ acceptedTuples faces count | faceNumbers faces words = g}.card =
      (UInt32.size / faces.toNat) ^ count := by
  have hcard : ∀ i, (wordsOf faces (g i)).card = UInt32.size / faces.toNat := fun i => by
    obtain ⟨hone, hface⟩ := Finset.mem_Icc.mp (Fintype.mem_piFinset.mp h i)
    exact card_wordsOf hone hface
  rw [acceptedTuples_filter_eq, Fintype.card_piFinset, Finset.prod_congr rfl fun i _ => hcard i,
    Finset.prod_const, Finset.card_fin]

/-- The tuples whose face sequence has some property are as many as the face sequences with the
    property, times the number of tuples of each. -/
theorem card_acceptedTuples_filter (P : (Fin count → Nat) → Prop) [DecidablePred P] :
    {words ∈ acceptedTuples faces count | P (faceNumbers faces words)}.card =
      {g ∈ faceSequences faces.toNat count | P g}.card * (UInt32.size / faces.toNat) ^ count := by
  have hmaps : ∀ words ∈ {words ∈ acceptedTuples faces count | P (faceNumbers faces words)},
      faceNumbers faces words ∈ {g ∈ faceSequences faces.toNat count | P g} := by
    intro words hwords
    obtain ⟨haccepted, hP⟩ := Finset.mem_filter.mp hwords
    exact Finset.mem_filter.mpr ⟨faceNumbers_mem_faceSequences faces count haccepted, hP⟩
  rw [Finset.card_eq_sum_card_fiberwise hmaps, ← smul_eq_mul, ← Finset.sum_const]
  refine Finset.sum_congr rfl fun g hg => ?_
  obtain ⟨hg, hP⟩ := Finset.mem_filter.mp hg
  rw [← card_tuples_eq faces count hg, Finset.filter_filter]
  -- Once the face sequence is fixed, its property is.
  refine congrArg Finset.card (Finset.filter_congr fun words _ => ?_)
  exact ⟨And.right, fun h => ⟨h ▸ hP, h⟩⟩

/-- Every die has all its faces, and each of them its words. -/
theorem card_acceptedTuples :
    (acceptedTuples faces count).card =
      faces.toNat ^ count * (UInt32.size / faces.toNat) ^ count := by
  have h := card_acceptedTuples_filter faces count fun _ => True
  rwa [Finset.filter_true, Finset.filter_true, card_faceSequences] at h

end Tuples

end Random

namespace Pool

/-! ### Totals of rolls -/

/-- The total that a pool has when it is rolled with some words, unless they do not suffice or the
    total overflows. -/
def rolledTotal? (p : Pool) (words : List UInt32) : Option Int :=
  match p.roll? words with
  | some (.ok (r, _)) => some r.total
  | _ => none

/-- The tuples of accepted words that a pool has a total with. -/
def tuplesOf (p : Pool) (t : Int64) : Finset (Fin p.count.toNat → UInt32) :=
  {words ∈ acceptedTuples p.faces p.count.toNat |
    p.rolledTotal? (List.ofFn words) = some t.toInt}

variable {p : Pool}

/-- The total of a roll is that of the faces drawn, if it fits. -/
theorem rolledTotal?_eq_some_iff (hf : 1 ≤ p.faces.toNat) {words : List UInt32} {t : Int} :
    p.rolledTotal? words = some t ↔
      FitsWord t ∧ ∃ drawn, (drawFaces p.faces p.count.toNat words).map Prod.fst = some drawn ∧
        p.offset.toInt + faceSum drawn = t := by
  have hfaces : p.faces ≠ 0 := by
    intro h
    simp [h] at hf
  have hrolled : p.rolledTotal? words = some t ↔
      ∃ r rest, p.roll? words = some (.ok (r, rest)) ∧ r.total = t := by
    rw [rolledTotal?]
    split <;> simp_all
  simp only [hrolled, roll?_eq_ok_iff, Option.map_eq_some_iff]
  constructor
  · rintro ⟨r, rest, ⟨hroll, hfits⟩, rfl⟩
    obtain ⟨-, drawn, hdrawn, rfl⟩ := drawn_of_roll hroll
    exact ⟨hfits, drawn, ⟨_, hdrawn, rfl⟩, rfl⟩
  · rintro ⟨hfits, -, ⟨⟨drawn, rest⟩, hdrawn, rfl⟩, rfl⟩
    refine ⟨.ofFaces p drawn, rest, ⟨?_, hfits⟩, rfl⟩
    rw [roll_eq_of_faces hfaces, hdrawn]

/-- Words in excess make no difference to the total. -/
theorem rolledTotal?_accepted (hf : 1 ≤ p.faces.toNat) (words : List UInt32) :
    p.rolledTotal? (accepted p.faces words) = p.rolledTotal? words := by
  refine Option.ext fun t => ?_
  rw [rolledTotal?_eq_some_iff hf, rolledTotal?_eq_some_iff hf, drawFaces_accepted,
    Option.map_map]
  rfl

/-- Accepted words give each die the face of its word, and these faces have their sum. -/
theorem drawFaces_ofFn {words : Fin p.count.toNat → UInt32}
    (h : words ∈ acceptedTuples p.faces p.count.toNat) :
    ∃ drawn, drawFaces p.faces p.count.toNat (List.ofFn words) = some (drawn, []) ∧
      faceSum drawn = ∑ i, (faceNumbers p.faces words i : Int) := by
  have hwords : ∀ word ∈ List.ofFn words, word ∈ acceptedWords p.faces := by
    intro word hword
    obtain ⟨i, rfl⟩ := List.mem_ofFn.mp hword
    exact Fintype.mem_piFinset.mp h i
  have hdrawn := drawFaces_of_accepted hwords
  rw [List.length_ofFn] at hdrawn
  refine ⟨_, hdrawn, ?_⟩
  rw [faceSum_filterMap, List.map_ofFn, List.sum_ofFn]
  rfl

/-- The total of a roll from accepted words is that of the face sequence they give, if it fits. -/
theorem rolledTotal?_ofFn_iff (hf : 1 ≤ p.faces.toNat) {words : Fin p.count.toNat → UInt32}
    (h : words ∈ acceptedTuples p.faces p.count.toNat) {t : Int} :
    p.rolledTotal? (List.ofFn words) = some t ↔
      FitsWord t ∧ (∑ i, (faceNumbers p.faces words i : Int)) + p.offset.toInt = t := by
  obtain ⟨drawn, hdrawn, hsum⟩ := drawFaces_ofFn h
  rw [rolledTotal?_eq_some_iff hf, hdrawn, Option.map_some, ← hsum, add_comm]
  simp

/-- A total has as many tuples of words as it has face sequences, times the number of tuples of
    each. -/
theorem card_tuplesOf (hf : 1 ≤ p.faces.toNat) (t : Int64) :
    (p.tuplesOf t).card = p.ways t.toInt * (UInt32.size / p.faces.toNat) ^ p.count.toNat := by
  rw [ways, ← card_acceptedTuples_filter, tuplesOf]
  refine congrArg Finset.card (Finset.filter_congr fun words hwords => ?_)
  rw [rolledTotal?_ofFn_iff hf hwords, and_iff_right (fitsWord_iff.mpr ⟨t, rfl⟩)]

/-- Every total listed in the law is the total of faces that some words give. -/
theorem exists_drawn_of_mem_outcomes {W : Type} [Weight W] (hc : 1 ≤ p.count.toNat)
    (hf : 1 ≤ p.faces.toNat) {t : Int} (h : t ∈ (p.totals : Distribution W).outcomes) :
    ∃ words drawn : List UInt32, drawFaces p.faces p.count.toNat words = some (drawn, []) ∧
      p.offset.toInt + faceSum drawn = t := by
  -- The total has face sequences, and each of them has tuples of words.
  have hways : 0 < p.ways t * (UInt32.size / p.faces.toNat) ^ p.count.toNat :=
    Nat.mul_pos (ways_pos_of_mem_outcomes hc hf h) (Nat.pow_pos (share_pos hf))
  rw [ways, ← card_acceptedTuples_filter] at hways
  obtain ⟨words, htuple⟩ := Finset.card_pos.mp hways
  obtain ⟨haccepted, hsum⟩ := Finset.mem_filter.mp htuple
  obtain ⟨drawn, hdrawn, hfaces⟩ := drawFaces_ofFn haccepted
  exact ⟨List.ofFn words, drawn, hdrawn, by rw [hfaces, add_comm, hsum]⟩

/-- The totals that a pool can be rolled with are those listed in its law that fit a word. -/
theorem exists_rolledTotal?_iff {W : Type} [Weight W] (hc : 1 ≤ p.count.toNat)
    (hf : 1 ≤ p.faces.toNat) {t : Int} :
    (∃ words, p.rolledTotal? words = some t) ↔
      FitsWord t ∧ t ∈ (p.totals : Distribution W).outcomes := by
  constructor
  · rintro ⟨words, h⟩
    obtain ⟨hfits, shown, hshown, rfl⟩ := (rolledTotal?_eq_some_iff hf).mp h
    obtain ⟨⟨drawn, rest⟩, hdrawn, rfl⟩ := Option.map_eq_some_iff.mp hshown
    obtain ⟨hlength, hrange⟩ := drawFaces_range hdrawn
    exact ⟨hfits, Shows.total_mem_outcomes ⟨hlength, hrange⟩ hc hf⟩
  · rintro ⟨hfits, h⟩
    obtain ⟨words, drawn, hdrawn, htotal⟩ := exists_drawn_of_mem_outcomes hc hf h
    exact ⟨words, (rolledTotal?_eq_some_iff hf).mpr ⟨hfits, drawn, by rw [hdrawn]; rfl, htotal⟩⟩

/-- A total has the same share of the tuples of words as of the face sequences. -/
theorem card_tuplesOf_div (hf : 1 ≤ p.faces.toNat) (t : Int64) :
    ((p.tuplesOf t).card : Rat) / (acceptedTuples p.faces p.count.toNat).card =
      (p.ways t.toInt : Rat) / (p.faces.toNat : Rat) ^ p.count.toNat := by
  rw [card_tuplesOf hf, card_acceptedTuples]
  push_cast
  exact mul_div_mul_right _ _ (pow_ne_zero _ (Nat.cast_ne_zero.mpr (share_pos hf).ne'))

/-- With exact weights, the probability of a total of a pool with dice and faces is the number of
    tuples of accepted words that the pool has the total with, divided by the number of all tuples
    of accepted words, one word for each die.  Every face has equally many words, and words in
    excess make no difference.  Totals are words of 64 bits: those that can be rolled are the words
    listed in the law, and if the greatest total is a word then all that are listed are, and no roll
    overflows. -/
theorem weightOf_law_eq_tuplesOf_div (p : Pool) (hc : 1 ≤ p.count.toNat)
    (hf : 1 ≤ p.faces.toNat) :
    (acceptedTuples p.faces p.count.toNat).Nonempty ∧
    (∀ t : Int64, (p.law : Law Rat).distribution.weightOf t.toInt =
      ((p.tuplesOf t).card : Rat) / (acceptedTuples p.faces p.count.toNat).card) ∧
    (∀ face, 1 ≤ face → face ≤ p.faces.toNat →
      (wordsOf p.faces face).card = 2 ^ 32 / p.faces.toNat) ∧
    (∀ words, p.rolledTotal? (accepted p.faces words) = p.rolledTotal? words) ∧
    (∀ (W : Type) [Weight W] (t : Int),
      (∃ words, p.rolledTotal? words = some t) ↔
        FitsWord t ∧ t ∈ (p.law : Law W).distribution.outcomes) ∧
    (FitsWord p.highest →
      (∀ (W : Type) [Weight W], ∀ t ∈ (p.law : Law W).distribution.outcomes, FitsWord t) ∧
      ∀ words : List UInt32, p.roll? words ≠ none) := by
  refine ⟨?_, fun t => ?_, fun face => card_wordsOf, rolledTotal?_accepted hf,
    fun W _ t => exists_rolledTotal?_iff hc hf, fun hfits => ⟨fun W _ t ht => ?_, fun words => ?_⟩⟩
  · rw [← Finset.card_pos, card_acceptedTuples]
    exact Nat.mul_pos (Nat.pow_pos hf) (Nat.pow_pos (share_pos hf))
  · rw [card_tuplesOf_div hf]
    exact weightOf_totals hc t.toInt
  · obtain ⟨hlow, hhigh⟩ := (mem_outcomes_totals hc hf).mp ht
    exact p.fitsWord_lowest.of_between hfits hlow hhigh
  · rw [roll?_eq_some_roll hfits]
    exact Option.some_ne_none _

/-- Two dice of six faces have a total of seven on one in six of the tuples of words. -/
theorem weightOf_law_twoSixes :
    1 ≤ (⟨2, .standard, 6, 0⟩ : Pool).count.toNat ∧ 1 ≤ (⟨2, .standard, 6, 0⟩ : Pool).faces.toNat ∧
      ((tuplesOf ⟨2, .standard, 6, 0⟩ 7).card : Rat) / (acceptedTuples 6 2).card = 6 / 6 ^ 2 ∧
      (wordsOf 6 6).card = 715827882 := by
  have hways : ways ⟨2, .standard, 6, 0⟩ 7 = 6 := by decide +kernel
  have hweight := weightOf_totals (p := ⟨2, .standard, 6, 0⟩) (by decide) 7
  rw [hways] at hweight
  obtain ⟨-, htuples, hwords, -⟩ :=
    weightOf_law_eq_tuplesOf_div ⟨2, .standard, 6, 0⟩ (by decide) (by decide)
  exact ⟨by decide, by decide, (htuples 7).symm.trans hweight,
    hwords 6 (by decide) (by decide)⟩

end Pool

end Dice
