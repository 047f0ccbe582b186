import Dice.Proofs.Binary.Monotone
import Dice.Proofs.Decimal.Shortest
import Dice.Proofs.Distribution.Likeliest
import Dice.Proofs.View.Columns

namespace Dice.View

open Dice.Binary Dice.Decimal Dice.Distribution Dice.Text

/-!
# The bars of a histogram

The length of a bar is computed with floats, and each of the steps keeps the order of the weights: a
division, a multiplication, and the rounding to a whole number.  The highest weight is divided by
itself, so its bar has the width of the field, and no bar is longer.  That is why the percentages
after the bars start at one display column.

* `wholeWord_eq` — the whole number nearest to a float.
* `exists_filledCells` — the length of a bar.
* `LaidBar`, `laid_histogramLine` — a line whose bar and percentage start at given display columns.
* `histogram_in_columns` — the columns of a histogram and the lengths of its bars.
-/

/-! ### Whole numbers -/

/-- A half goes up. -/
theorem floor_add_half (num : ℕ) {den : ℕ} (h : 0 < den) :
    ⌊(num / den : ℚ) + 1 / 2⌋₊ = roundUp num den := by
  have hden : (den : ℚ) ≠ 0 := by exact_mod_cast h.ne'
  have hquotient : (num / den : ℚ) + 1 / 2 = ((2 * num + den : ℕ) : ℚ) / ((2 * den : ℕ) : ℚ) := by
    push_cast
    field_simp
  rw [hquotient, Nat.floor_div_eq_div, roundUp]

/-- A half added to a whole number does not reach the next one. -/
theorem floor_natCast_add_half (n : ℕ) : ⌊(n : ℚ) + 1 / 2⌋₊ = n := by
  rw [Nat.floor_eq_iff (by positivity)]
  constructor <;> linarith

/-- The whole number nearest to a float that has a value. -/
theorem wholeWord_eq {x : Float} {v : ℚ} (h : HasValue x v) :
    wholeWord x = min ⌊v + 1 / 2⌋₊ maxWord := by
  rcases h.zero_or_pos with ⟨rfl, rfl⟩ | ⟨m, e, hpos, hm, he, rfl, rfl⟩
  · rw [wholeWord, unpack_zero]
    norm_num
  · have hpow : 0 < 2 ^ (-e).toNat := by positivity
    have hvalue : (m : ℚ) * 2 ^ e = ((m * 2 ^ e.toNat : ℕ) : ℚ) / ((2 ^ (-e).toNat : ℕ) : ℚ) := by
      rw [eq_div_iff (by positivity)]
      push_cast
      rw [mul_assoc, zpow_mul_pow_toNat_neg two_ne_zero]
    rw [wholeWord, unpack_floatOf_of_pos hm hpos he, hvalue, floor_add_half _ hpow]
    rfl

/-! ### The length of a bar -/

theorem negZero_eq : Float.ofModel (.pack (.zero .negative)) = -0.0 := by decide +kernel

/-- The negative zero stays itself when it is divided by a value above zero. -/
theorem negZero_div_eq {y : Float} {b : ℚ} (h : HasValue y b) (hb : 0 < b) : -0.0 / y = -0.0 := by
  rcases h.zero_or_pos with ⟨-, rfl⟩ | ⟨m, e, hpos, hm, he, rfl, -⟩
  · exact absurd hb (lt_irrefl _)
  · rw [div_eq, unpack_negZero, unpack_floatOf_of_pos hm hpos he]
    exact negZero_eq

/-- The negative zero stays itself when it is multiplied by a value. -/
theorem negZero_mul_eq {y : Float} {b : ℚ} (h : HasValue y b) : -0.0 * y = -0.0 := by
  rcases h.zero_or_pos with ⟨rfl, -⟩ | ⟨m, e, hpos, hm, he, rfl, -⟩
  · decide +kernel
  · rw [mul_eq, unpack_negZero, unpack_floatOf_of_pos hm hpos he]
    exact negZero_eq

section Length

variable {highest : Float} {b : ℚ} (hhighest : HasValue highest b) {width : ℕ}

include hhighest

/-- Where there is weight, the bar is as long as the share of the highest weight, rounded. -/
theorem filledCells_of_pos (hb : 0 < b) (w : Float) :
    filledCells highest width w = wholeWord (w / highest * Float.ofNat width) := by
  have hpos : (Weight.zero : Float) < highest := (hasValue_zero.lt_iff hhighest).mpr hb
  simp only [filledCells, if_pos hpos]
  rfl

variable (hwidth : width < 2 ^ 53)

include hwidth

/-- Without a weight above zero no cell is filled. -/
theorem filledCells_of_zero (hb : b = 0) (w : Float) : filledCells highest width w = 0 := by
  have hzero : ¬ (Weight.zero : Float) < highest := fun hpos =>
    absurd ((hasValue_zero.lt_iff hhighest).mp hpos) hb.not_gt
  have hproduct : (Weight.zero : Float) * Weight.ofInt (width : ℤ) = 0 :=
    (hasValue_ofNat_of_lt hwidth).zero_mul_eq
  simp only [filledCells, if_neg hzero, hproduct]
  decide +kernel

/-- The part that a weight is of the highest one is rounded, then its product with the width, and
    then the cells are counted. -/
theorem exists_filledCells (hb : 0 < b) {w : Float} {a : ℚ} (hw : HasSize w a) (hab : a ≤ b) :
    ∃ p q, RoundsTo (a / b) p ∧ 0 ≤ p ∧ RoundsTo (p * width) q ∧
      filledCells highest width w = ⌊q + 1 / 2⌋₊ := by
  have hcount : HasValue (Float.ofNat width) width := hasValue_ofNat_of_lt hwidth
  have hlimit : (width : ℚ) < limit := calc
    (width : ℚ) < 2 ^ 53 := by exact_mod_cast hwidth
    _ < limit := pow_lt_limit (by decide)
  rw [filledCells_of_pos hhighest hb]
  rcases hw with hw | ⟨rfl, rfl⟩
  · -- Neither the part nor the product is rounded above what it cannot exceed.
    have hquotient : a / b ≤ 1 := (div_le_one hb).mpr hab
    obtain ⟨p, hp, hpart⟩ := hw.div hhighest hb (hquotient.trans_lt one_lt_limit)
    have hp1 : p ≤ 1 :=
      hpart.mono hasValue_one.roundsTo (div_nonneg hw.nonneg hb.le) hquotient
    have hproduct : p * width ≤ width := mul_le_of_le_one_left (Nat.cast_nonneg _) hp1
    obtain ⟨q, hq, hrounds⟩ := hp.mul hcount (hproduct.trans_lt hlimit)
    have hqwidth : q ≤ width :=
      hrounds.mono hcount.roundsTo (mul_nonneg hp.nonneg (Nat.cast_nonneg _)) hproduct
    refine ⟨p, q, hpart, hp.nonneg, hrounds, ?_⟩
    have hcells : ⌊q + 1 / 2⌋₊ < width + 1 := by
      rw [Nat.floor_lt (add_nonneg hq.nonneg (by norm_num))]
      push_cast
      linarith
    rw [wholeWord_eq hq, min_eq_left]
    exact (Nat.lt_succ_iff.mp hcells).trans (hwidth.le.trans (by decide))
  · -- The negative zero stays what it is.
    have hzero : RoundsTo 0 0 := hasValue_zero.roundsTo
    refine ⟨0, 0, by rwa [zero_div], le_rfl, by rwa [zero_mul], ?_⟩
    rw [negZero_div_eq hhighest hb, negZero_mul_eq hcount, wholeWord, unpack_negZero]
    norm_num

/-- A greater weight does not have a shorter bar. -/
theorem filledCells_mono {w w' : Float} {a a' : ℚ} (hw : HasSize w a) (hw' : HasSize w' a')
    (haa : a ≤ a') (hab : a' ≤ b) :
    filledCells highest width w ≤ filledCells highest width w' := by
  rcases hhighest.nonneg.eq_or_lt' with hb | hb
  · rw [filledCells_of_zero hhighest hwidth hb]
    exact Nat.zero_le _
  · obtain ⟨p, q, hp, hpos, hq, hfilled⟩ :=
      exists_filledCells hhighest hwidth hb hw (haa.trans hab)
    obtain ⟨p', q', hp', -, hq', hfilled'⟩ := exists_filledCells hhighest hwidth hb hw' hab
    have hpart : p ≤ p' :=
      hp.mono hp' (div_nonneg hw.nonneg hb.le) (div_le_div_of_nonneg_right haa hb.le)
    have hproduct : q ≤ q' := hq.mono hq' (mul_nonneg hpos (Nat.cast_nonneg _))
      (mul_le_mul_of_nonneg_right hpart (Nat.cast_nonneg _))
    rw [hfilled, hfilled']
    exact Nat.floor_mono (by linarith)

/-- The bar of the highest weight fills the field. -/
theorem filledCells_highest (hb : 0 < b) : filledCells highest width highest = width := by
  obtain ⟨p, q, hp, -, hq, hfilled⟩ :=
    exists_filledCells hhighest hwidth hb (.inl hhighest) le_rfl
  -- Neither the quotient nor the product has to be rounded.
  rw [div_self hb.ne'] at hp
  obtain rfl : p = 1 := hp.eq_of_hasValue hasValue_one
  rw [one_mul] at hq
  obtain rfl : q = width := hq.eq_of_hasValue (hasValue_ofNat_of_lt hwidth)
  rw [hfilled, floor_natCast_add_half]

/-- No bar is longer than the field. -/
theorem filledCells_le {w : Float} {a : ℚ} (hw : HasSize w a) (hab : a ≤ b) :
    filledCells highest width w ≤ width := by
  rcases hhighest.nonneg.eq_or_lt' with hb | hb
  · rw [filledCells_of_zero hhighest hwidth hb]
    exact Nat.zero_le _
  · calc
      filledCells highest width w ≤ filledCells highest width highest :=
        filledCells_mono hhighest hwidth hw (.inl hhighest) hab le_rfl
      _ = width := filledCells_highest hhighest hwidth hb

end Length

/-! ### Lines -/

/-- The line holds an outcome at the right end of its field, a bar of some filled cells, and a
    percentage, and the last two start at given display columns. -/
def LaidBar (labelWidth width : ℕ) (o : Int) (filled : ℕ) (percentage line : String) : Prop :=
  ∃ gap gap' : ℕ,
    line = repeated ' ' gap ++ integer o ++ " │" ++ (repeated '█' filled ++ repeated ' ' gap') ++
      " " ++ percentage ∧
    cells (repeated ' ' gap ++ integer o) = labelWidth ∧
    cells (repeated ' ' gap ++ integer o ++ " │") = labelWidth + 2 ∧
    cells (repeated ' ' gap ++ integer o ++ " │" ++
      (repeated '█' filled ++ repeated ' ' gap') ++ " ") = labelWidth + 2 + (width + 1)

/-- A line of a histogram whose label and bar fit their fields starts the bar and the percentage
    after these fields. -/
theorem laid_histogramLine {labelWidth width : ℕ} {highest : Float} {e : Int × Float}
    (hlabel : cells (integer e.1) ≤ labelWidth)
    (hfilled : filledCells highest width e.2 ≤ width) :
    LaidBar labelWidth width e.1 (filledCells highest width e.2) (Drawn.percentage e.2)
      (histogramLine labelWidth highest width e) := by
  have hblanks : ∀ n, cells (repeated ' ' n) = n := cells_repeated (by decide)
  have hbars : ∀ n, cells (repeated '█' n) = n := cells_repeated (by decide +kernel)
  have hfilled' : cells (bar (filledCells highest width e.2)) = filledCells highest width e.2 :=
    hbars _
  refine ⟨labelWidth - cells (integer e.1), width - filledCells highest width e.2, ?_, ?_, ?_, ?_⟩
  · rw [histogramLine, padLeft, padRight, hfilled']
    rfl
  all_goals
    have hborder : cells " │" = 2 := by decide +kernel
    have hblank : cells " " = 1 := by decide
    simp only [cells_append, hblanks, hbars, hborder, hblank]
    omega

/-- No line of a histogram breaks. -/
theorem oneLine_histogramLine (labelWidth : ℕ) (highest : Float) (width : ℕ) (e : Int × Float) :
    OneLine (histogramLine labelWidth highest width e) := by
  have hlabel : Lacks '\n' (padLeft labelWidth (integer e.1)) :=
    (foreign_lineEnd.lacks_blanks _).append (foreign_lineEnd.lacks_integer e.1)
  have hbar : Lacks '\n' (bar (filledCells highest width e.2)) := by
    simp [Lacks, bar, List.mem_replicate]
  have hborder : Lacks '\n' " │" := by decide
  have hblank : Lacks '\n' " " := by decide
  exact (((hlabel.append hborder).append (foreign_lineEnd.lacks_padRight hbar width)).append
    hblank).append (foreign_lineEnd.lacks_percentage e.2)

/-! ### Bars -/

/-- The highest weight as a value.  The values of all weights are up to it, and it is that of any
    outcome above zero that no other one exceeds. -/
structure HasHighest (d : Distribution Float) (b : ℚ) : Prop where
  value : HasValue d.highest b
  size : ∀ o ∈ d.outcomes, ∃ a, HasSize (d.weightOf o) a ∧ a ≤ b
  modal : ∀ o, d.Modal o → 0 < d.weightOf o → d.weightOf o = d.highest

section Highest

variable {d : Distribution Float} (hweights : ∀ w ∈ d.weights, w.isFinite = true ∧ 0 ≤ w)

include hweights

/-- The weight of an outcome listed has a size. -/
theorem exists_hasSize_weightOf {o : Int} (ho : o ∈ d.outcomes) :
    ∃ a, HasSize (d.weightOf o) a := by
  obtain ⟨hfinite, hnonneg⟩ := hweights _ (mem_weights.mpr ⟨o, ho, rfl⟩)
  exact exists_hasSize hfinite hnonneg

/-- Finite weights that are not below zero have a highest one. -/
theorem exists_hasHighest : ∃ b, HasHighest d b := by
  have hnumber : ∀ w ∈ d.weights, w.isNaN = false := fun w hw => isNaN_of_isFinite (hweights w hw).1
  by_cases hentries : d.entries = []
  · have houtcomes : ∀ o, o ∉ d.outcomes := by simp [outcomes, hentries]
    have hhighest : d.highest = 0 := by rw [highest, weights, hentries]; rfl
    exact ⟨0, hhighest ▸ hasValue_zero, fun o ho => absurd ho (houtcomes o),
      fun o ho => absurd ho.mem (houtcomes o)⟩
  · obtain ⟨o, ho⟩ := exists_ahead hnumber hentries
    obtain ⟨b, hb⟩ := exists_hasSize_weightOf hweights ho.mem
    have hle : ∀ k ∈ d.outcomes, ∀ a, HasSize (d.weightOf k) a → a ≤ b := fun k hk a ha =>
      not_lt.mp fun hlt => (ho.modal hnumber).top k hk ((hb.lt_iff ha).mpr hlt)
    have hvalue : HasValue d.highest b := by
      by_cases hpos : 0 < d.weightOf o
      · rw [ho.highest_eq hnumber hpos]
        exact hb.hasValue hpos
      · -- No weight is above zero then, and the values of all of them are zero.
        have hzero : b = 0 := le_antisymm
          (not_lt.mp fun hlt => hpos ((HasSize.lt_iff (.inl hasValue_zero) hb).mpr hlt)) hb.nonneg
        have hhighest : d.highest = 0 :=
          foldl_greater_of_not_lt fun w hw hlt => hpos (ho.pos hnumber hw hlt)
        rw [hhighest, hzero]
        exact hasValue_zero
    refine ⟨b, hvalue, fun k hk => ?_, fun k hk hpos => ?_⟩
    · obtain ⟨a, ha⟩ := exists_hasSize_weightOf hweights hk
      exact ⟨a, ha, hle k hk a ha⟩
    · obtain ⟨a, ha⟩ := exists_hasSize_weightOf hweights hk.mem
      have hba : b ≤ a := not_lt.mp fun hlt => hk.top o ho.mem ((ha.lt_iff hb).mpr hlt)
      obtain rfl : a = b := le_antisymm (hle k hk.mem a ha) hba
      exact (ha.hasValue hpos).unique hvalue

end Highest

/-- In a histogram each outcome has a line, in ascending order.  The outcomes end at one display
    column, and the bars and the percentages start at one each.  No bar is longer than the field,
    the bar of an outcome that no other one exceeds fills the field, if its weight is above zero, and
    an outcome with a greater weight does not have a shorter bar. -/
theorem histogram_in_columns (d : Distribution Float) (width : ℕ) (hwidth : width < 2 ^ 53)
    (hweights : ∀ w ∈ d.weights, w.isFinite = true ∧ 0 ≤ w) :
    ∃ (labelWidth : ℕ) (filled : Int → ℕ) (line : Int → String),
      (d.entries ≠ [] → IsWidth labelWidth (d.outcomes.map integer)) ∧
      histogram d width = String.join ((d.outcomes.map line).map (· ++ "\n")) ∧
      d.outcomes.Pairwise (· < ·) ∧
      (∀ o ∈ d.outcomes, OneLine (line o) ∧
        LaidBar labelWidth width o (filled o) (Drawn.percentage (d.weightOf o)) (line o)) ∧
      (∀ o ∈ d.outcomes, filled o ≤ width) ∧
      (∀ o, d.Modal o → 0 < d.weightOf o → filled o = width) ∧
      (∀ o ∈ d.outcomes, ∀ k ∈ d.outcomes, d.weightOf o ≤ d.weightOf k → filled o ≤ filled k) := by
  obtain ⟨b, hb⟩ := exists_hasHighest hweights
  obtain ⟨labelWidth, hlabels⟩ : ∃ n, widest (d.outcomes.map integer) = n := ⟨_, rfl⟩
  have hwidest : d.outcomes ≠ [] → IsWidth labelWidth (d.outcomes.map integer) := fun houtcomes =>
    hlabels ▸ isWidth_widest (by simpa using houtcomes)
  have hfits : ∀ o ∈ d.outcomes, filledCells d.highest width (d.weightOf o) ≤ width := by
    intro o ho
    obtain ⟨a, ha, hab⟩ := hb.size o ho
    exact filledCells_le hb.value hwidth ha hab
  refine ⟨labelWidth, fun o => filledCells d.highest width (d.weightOf o),
    fun o => histogramLine labelWidth d.highest width (o, d.weightOf o), ?labels, ?lines,
    ascending_outcomes d, ?laid, hfits, ?full, ?longer⟩
  case labels => exact fun hentries => hwidest (by simpa [outcomes] using hentries)
  case lines =>
    rw [histogram, histogramLines, entries_eq_map, List.map_map, hlabels]
    rfl
  case laid =>
    intro o ho
    have hlabel : cells (integer o) ≤ labelWidth :=
      (hwidest (List.ne_nil_of_mem ho)).le _ (List.mem_map_of_mem ho)
    exact ⟨oneLine_histogramLine _ _ _ _, laid_histogramLine hlabel (hfits o ho)⟩
  case full =>
    intro o ho hpos
    have hhighest := hb.modal o ho hpos
    have hb0 : 0 < b := (hasValue_zero.lt_iff hb.value).mp (hhighest ▸ hpos)
    show filledCells d.highest width (d.weightOf o) = width
    rw [hhighest, filledCells_highest hb.value hwidth hb0]
  case longer =>
    intro o ho k hk hle
    obtain ⟨a, ha, -⟩ := hb.size o ho
    obtain ⟨a', ha', hab'⟩ := hb.size k hk
    exact filledCells_mono hb.value hwidth ha ha' ((ha.le_iff ha').mp hle) hab'

/-- Labels of different lengths, one of them with a sign, and a weight that is the negative zero. -/
theorem histogram_in_columns_signed :
    let d : Distribution Float := .ofLast [(-10, 0.25), (3, 0.5), (12, -0.0)]
    (∀ w ∈ d.weights, w.isFinite = true ∧ 0 ≤ w) ∧ (6 : ℕ) < 2 ^ 53 ∧
      ∃ (labelWidth : ℕ) (filled : Int → ℕ) (line : Int → String),
        IsWidth labelWidth ["-10", "3", "12"] ∧
        histogram d 6 = String.join ((d.outcomes.map line).map (· ++ "\n")) ∧
        LaidBar labelWidth 6 (-10) (filled (-10)) "25.0%" (line (-10)) ∧
        filled (-10) ≤ filled 3 := by
  intro d
  have hweights : ∀ w ∈ d.weights, w.isFinite = true ∧ 0 ≤ w := by decide +kernel
  obtain ⟨labelWidth, filled, line, hlabels, hlines, -, hlaid, -, -, hlonger⟩ :=
    histogram_in_columns d 6 (by decide) hweights
  have hquarter : Drawn.percentage (d.weightOf (-10)) = "25.0%" := by decide +kernel
  exact ⟨hweights, by decide, labelWidth, filled, line, hlabels (by decide +kernel), hlines,
    hquarter ▸ (hlaid (-10) (by decide +kernel)).2,
    hlonger (-10) (by decide +kernel) 3 (by decide +kernel) (by decide +kernel)⟩

end Dice.View
