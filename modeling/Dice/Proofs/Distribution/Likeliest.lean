import Dice.Proofs.Binary.Order
import Dice.Proofs.Distribution.Leading

namespace Dice.Distribution

open Dice.Binary

/-!
# The most likely outcome of floats

The weights of a distribution may be any floats: below zero, infinite, or a zero of either sign.  As
long as each of them is a number they have ranks in one order, and among the outcomes with the
highest rank one is the first.  It is the one at which both passes over the entries end, unless no
weight is above zero.

* `exists_first_max` — the first outcome that has the most.
* `Modal` — the outcomes whose weight no other one exceeds.
* `mostLikely_and_highest` — the most likely outcome and the highest weight.
-/

/-- Where outcomes are compared by a key, one of them has a key that none before it reaches and none
    after it exceeds. -/
theorem exists_first_max {W L : Type} [LinearOrder L] {d : Distribution W} (key : Int → L)
    (h : d.entries ≠ []) :
    ∃ o ∈ d.outcomes, (∀ k ∈ d.outcomes, k < o → key k < key o) ∧
      ∀ k ∈ d.outcomes, o < k → key k ≤ key o := by
  have hnonempty : d.outcomes.toFinset.Nonempty := by simpa [outcomes] using h
  -- Of outcomes with the same key the lesser one is preferred.
  obtain ⟨o, ho, hmax⟩ := d.outcomes.toFinset.exists_max_image
    (fun k => toLex (key k, OrderDual.toDual k)) hnonempty
  simp only [List.mem_toFinset, Prod.Lex.toLex_le_toLex, OrderDual.toDual_le_toDual] at ho hmax
  refine ⟨o, ho, fun k hk hlt => ?_, fun k hk hlt => ?_⟩
  · exact (hmax k hk).resolve_right fun heq => absurd heq.2 (not_le.mpr hlt)
  · rcases hmax k hk with hkey | hkey
    · exact hkey.le
    · exact hkey.1.le

/-- The outcome is listed, and no other one has more weight. -/
structure Modal (d : Distribution Float) (o : Int) : Prop where
  mem : o ∈ d.outcomes
  top : ∀ k ∈ d.outcomes, ¬ d.weightOf o < d.weightOf k

/-- The outcome is listed.  No weight before it reaches its own, and none after it exceeds it. -/
structure Ahead (d : Distribution Float) (o : Int) : Prop where
  mem : o ∈ d.outcomes
  before : ∀ k ∈ d.outcomes, k < o → d.weightOf k < d.weightOf o
  after : ∀ k ∈ d.outcomes, o < k → d.weightOf k ≤ d.weightOf o

/-- The weights are those of the outcomes. -/
theorem mem_weights {d : Distribution Float} {w : Float} :
    w ∈ d.weights ↔ ∃ o ∈ d.outcomes, d.weightOf o = w := by
  rw [weights, entries_eq_map, List.map_map, List.mem_map]
  rfl

section Numbers

variable {d : Distribution Float} (h : ∀ w ∈ d.weights, w.isNaN = false)

include h

/-- The weight of an outcome listed is a number. -/
theorem isNaN_weightOf {o : Int} (ho : o ∈ d.outcomes) : (d.weightOf o).isNaN = false :=
  h _ (mem_weights.mpr ⟨o, ho, rfl⟩)

/-- Where outcomes are listed, one of them is ahead of the others. -/
theorem exists_ahead (hentries : d.entries ≠ []) : ∃ o, d.Ahead o := by
  obtain ⟨o, ho, hbefore, hafter⟩ := exists_first_max (fun k => rank (d.weightOf k)) hentries
  have hnumber := fun k (hk : k ∈ d.outcomes) => isNaN_weightOf h hk
  exact ⟨o, ho,
    fun k hk hlt => (lt_iff_rank (hnumber k hk) (hnumber o ho)).mpr (hbefore k hk hlt),
    fun k hk hlt => (le_iff_rank (hnumber k hk) (hnumber o ho)).mpr (hafter k hk hlt)⟩

namespace Ahead

variable {o : Int} (ho : d.Ahead o)

include ho

/-- The outcome ahead of the others is the one found. -/
theorem mostLikely_eq : d.mostLikely = some o :=
  mostLikely_eq_some ho.mem
    (fun k hk hlt => (not_le_iff_lt (isNaN_weightOf h hk) (isNaN_weightOf h ho.mem)).mpr
      (ho.before k hk hlt))
    ho.after

/-- No outcome has more weight than the one ahead. -/
theorem modal : d.Modal o := by
  refine ⟨ho.mem, fun k hk => ?_⟩
  have hnumber := isNaN_weightOf h ho.mem
  rcases lt_trichotomy k o with hlt | rfl | hlt
  · rw [not_lt_iff_le (isNaN_weightOf h hk) hnumber, le_iff_rank (isNaN_weightOf h hk) hnumber]
    exact ((lt_iff_rank (isNaN_weightOf h hk) hnumber).mp (ho.before k hk hlt)).le
  · rw [lt_iff_rank hnumber hnumber]
    exact lt_irrefl _
  · exact (not_lt_iff_le (isNaN_weightOf h hk) hnumber).mpr (ho.after k hk hlt)

/-- It is the least of the outcomes that no other one exceeds. -/
theorem isLeast : IsLeast {k | d.Modal k} o := by
  refine ⟨ho.modal h, fun k hk => not_lt.mp fun hlt => ?_⟩
  exact hk.top o ho.mem (ho.before k hk.mem hlt)

/-- If any weight is above zero, so is that of the outcome. -/
theorem pos {w : Float} (hw : w ∈ d.weights) (hpos : 0 < w) : 0 < d.weightOf o := by
  obtain ⟨k, hk, rfl⟩ := mem_weights.mp hw
  have htop := (ho.modal h).top k hk
  rw [lt_iff_rank (isNaN_weightOf h ho.mem) (h _ hw), not_lt] at htop
  rw [lt_iff_rank isNaN_zero (h _ hw)] at hpos
  rw [lt_iff_rank isNaN_zero (isNaN_weightOf h ho.mem)]
  exact hpos.trans_le htop

/-- The highest weight is that of the outcome ahead, if it is above zero. -/
theorem highest_eq (hpos : 0 < d.weightOf o) : d.highest = d.weightOf o :=
  highest_eq_weightOf ho.mem hpos ho.before fun k hk _ => (ho.modal h).top k hk

end Ahead

end Numbers

/-- The most likely outcome and the highest weight agree, whatever numbers the weights are.  There is
    no most likely outcome only where nothing can happen, and otherwise it is the least of those that
    no other one exceeds in weight.  It has the highest weight, if any weight is above zero; if none
    is, the highest weight is zero. -/
theorem mostLikely_and_highest (d : Distribution Float) (h : ∀ w ∈ d.weights, w.isNaN = false) :
    (d.mostLikely = none ↔ d.entries = []) ∧
    (d.entries ≠ [] → ∃ o, d.mostLikely = some o ∧ IsLeast {k | d.Modal k} o) ∧
    ((∃ w ∈ d.weights, 0 < w) → ∃ o, d.mostLikely = some o ∧ d.weightOf o = d.highest) ∧
    ((∀ w ∈ d.weights, ¬ 0 < w) → d.highest = 0) := by
  have hsome : d.entries ≠ [] → ∃ o, d.mostLikely = some o ∧ IsLeast {k | d.Modal k} o := by
    intro hentries
    obtain ⟨o, ho⟩ := exists_ahead h hentries
    exact ⟨o, ho.mostLikely_eq h, ho.isLeast h⟩
  refine ⟨⟨fun hnone => ?_, fun hentries => ?_⟩, hsome, ?_, foldl_greater_of_not_lt⟩
  · by_contra hentries
    obtain ⟨o, ho, -⟩ := hsome hentries
    rw [hnone] at ho
    cases ho
  · rw [mostLikely, hentries]
    rfl
  · rintro ⟨w, hw, hpos⟩
    have hentries : d.entries ≠ [] := by
      rintro hnil
      simp [weights, hnil] at hw
    obtain ⟨o, ho⟩ := exists_ahead h hentries
    exact ⟨o, ho.mostLikely_eq h, (ho.highest_eq h (ho.pos h hw hpos)).symm⟩

/-- Of two infinite weights the first is the most likely and the highest, and where all weights are
    zeros or below zero the highest is zero. -/
theorem mostLikely_and_highest_infinite :
    let d : Distribution Float := .ofLast [(5, 1 / 0), (-3, 1 / 0), (-4, 2), (0, -0.0)]
    let e : Distribution Float := .ofLast [(2, -0.0), (1, -1)]
    (∀ w ∈ d.weights, w.isNaN = false) ∧
      (∃ o, d.mostLikely = some o ∧ IsLeast {k | d.Modal k} o) ∧
      (∃ o, d.mostLikely = some o ∧ d.weightOf o = d.highest) ∧
      (∀ w ∈ e.weights, w.isNaN = false) ∧ e.highest = 0 := by
  intro d e
  have hd : ∀ w ∈ d.weights, w.isNaN = false := by decide +kernel
  have he : ∀ w ∈ e.weights, w.isNaN = false := by decide +kernel
  obtain ⟨-, hleast, hhighest, -⟩ := mostLikely_and_highest d hd
  obtain ⟨-, -, -, hzero⟩ := mostLikely_and_highest e he
  exact ⟨hd, hleast (by decide +kernel), hhighest ⟨2, List.mem_cons_self, by decide +kernel⟩, he,
    hzero (by decide +kernel)⟩

end Dice.Distribution
