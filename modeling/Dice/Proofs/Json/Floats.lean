import Dice.Proofs.Binary.Errors
import Dice.Proofs.Decimal.Shortest
import Dice.Proofs.Json.Forms

namespace Dice.Json

open Dice.Binary Dice.Decimal Dice.Text

/-!
# Floats read from their own texts

The text of a float is read by taking in its digits as a whole number and scaling it by a power of
ten.  The whole number, the power and the result are each rounded, so the float that is read may
differ from the one that was written, but only in its last binary digits.

* `Numeral.float?_eq_assembled?` — the digits that are taken in.
* `Numeral.exists_taken_ofScientific` — the whole number and the power of ten of a decimal.
* `Numeral.exists_scaled?` — scaling.
* `Reread`, `exists_reread` — the float that the text of a float is read as.
-/

namespace Numeral

/-! ### Digits that are taken in -/

/-- Further digits make a number no smaller. -/
theorem le_ofDigitChars (digits : List Char) (n : ℕ) : n ≤ Nat.ofDigitChars 10 digits n := by
  induction digits generalizing n with
  | nil => exact le_rfl
  | cons c digits ih =>
    rw [Nat.ofDigitChars_cons]
    exact le_trans (by omega) (ih _)

/-- All digits before the point are taken in if the number they make fits a word. -/
theorem foldl_whole {digits : List Char} {n : ℕ} (e : ℤ)
    (h : Nat.ofDigitChars 10 digits n ≤ maxWord) :
    digits.foldl Intake.whole ⟨n, e, false⟩ = ⟨Nat.ofDigitChars 10 digits n, e, false⟩ := by
  induction digits generalizing n with
  | nil => rfl
  | cons c digits ih =>
    rw [Nat.ofDigitChars_cons] at h ⊢
    have hmore : 10 * n + digitValue c ≤ maxWord := le_trans (le_ofDigitChars digits _) h
    have hstep : Intake.whole ⟨n, e, false⟩ c = ⟨10 * n + digitValue c, e, false⟩ := by
      simp only [Intake.whole, Bool.not_false, Bool.true_and, decide_eq_true hmore, if_true]
    rw [List.foldl_cons, hstep]
    exact ih h

/-- So are the digits after the point, and each of them moves the point. -/
theorem foldl_fraction {digits : List Char} {n : ℕ} (e : ℤ)
    (h : Nat.ofDigitChars 10 digits n ≤ maxWord) :
    digits.foldl Intake.fraction ⟨n, e, false⟩ =
      ⟨Nat.ofDigitChars 10 digits n, e - digits.length, false⟩ := by
  induction digits generalizing n e with
  | nil => simp
  | cons c digits ih =>
    rw [Nat.ofDigitChars_cons] at h ⊢
    have hmore : 10 * n + digitValue c ≤ maxWord := le_trans (le_ofDigitChars digits _) h
    have hstep : Intake.fraction ⟨n, e, false⟩ c = ⟨10 * n + digitValue c, e - 1, false⟩ := by
      simp only [Intake.fraction, Bool.not_false, Bool.true_and, decide_eq_true hmore, if_true]
    rw [List.foldl_cons, hstep, List.length_cons, Nat.cast_succ, ← sub_sub, sub_right_comm]
    exact ih (e - 1) h

/-- A number with a point or an exponent is assembled from all its digits and the place of the
    point. -/
theorem float?_eq_assembled? {n : Numeral} (hlong : n.fraction ≠ [] ∨ n.exponent ≠ none)
    (h : value (n.whole ++ n.fraction) ≤ maxWord) :
    n.float? = assembled? n.negative ⟨value (n.whole ++ n.fraction), -n.fraction.length, false⟩
      n.exponent := by
  rw [value, Nat.ofDigitChars_append] at h ⊢
  have hwhole := foldl_whole 0 (le_trans (le_ofDigitChars n.fraction _) h)
  have hfraction := foldl_fraction 0 h
  rw [zero_sub] at hfraction
  have hnot : ¬ (n.fraction = [] ∧ n.exponent = none ∧ True) := by tauto
  simp only [float?, hwhole, hfraction]
  rw [if_neg hnot]

/-- Zeros behind the digits multiply the number by powers of ten. -/
theorem value_append_zeros (digits : List Char) (n : ℕ) :
    value (digits ++ zeros n) = value digits * 10 ^ n := by
  rw [value, Nat.ofDigitChars_append, zeros, Nat.ofDigitChars_replicate_zero, mul_comm]
  rfl

/-- Zeros before the digits do not count. -/
theorem value_zeros_append (digits : List Char) (n : ℕ) :
    value (zeros n ++ digits) = value digits := by
  rw [value, Nat.ofDigitChars_append, zeros, Nat.ofDigitChars_replicate_zero, mul_zero]
  rfl

section Spelling

variable (negative : Bool) {whole fraction : List Char} {n : ℕ}
  (hvalue : value (whole ++ fraction) = n) (hn : n < 2 ^ 64)

include hvalue hn

/-- The digits of a decimal with a point make a number that is scaled by as many places as come after
    the point. -/
theorem float?_of_fraction (hfraction : fraction ≠ []) {x : ℤ} (hplaces : fraction.length = -x) :
    (⟨negative, whole, fraction, none⟩ : Numeral).float? =
      (scaled? (Float.ofNat n) x).map (signed negative) := by
  have hmax : maxWord = 2 ^ 64 - 1 := by decide
  rw [float?_eq_assembled? (.inl hfraction) (by rw [hvalue, hmax]; omega), hvalue, hplaces, neg_neg]
  rfl

/-- A written exponent makes up for the digits after the point. -/
theorem float?_of_exponent {point x : ℤ} (hlow : -maxExponent ≤ point)
    (hhigh : point ≤ maxExponent) (hplaces : fraction.length = point - 1 - x)
    (hlow' : -maxExponent ≤ x) (hhigh' : x ≤ maxExponent) :
    (⟨negative, whole, fraction, some ⟨some (if point ≤ 0 then '-' else '+'),
        Nat.toDigits 10 (point - 1).natAbs⟩⟩ : Numeral).float? =
      (scaled? (Float.ofNat n) x).map (signed negative) := by
  have hmax : maxWord = 2 ^ 64 - 1 := by decide
  rw [float?_eq_assembled? (.inr (Option.some_ne_none _)) (by rw [hvalue, hmax]; omega), hvalue,
    hplaces]
  have hsize : ¬ maxExponent < ((value (Nat.toDigits 10 (point - 1).natAbs) : ℕ) : ℤ) := by
    rw [value_toDigits]
    omega
  have hsum : addExponent (-(point - 1 - x)) (point - 1) = x := by
    rw [addExponent]
    omega
  have hexponent : (if (some (if point ≤ 0 then '-' else '+') == some '-') = true then
      -((value (Nat.toDigits 10 (point - 1).natAbs) : ℕ) : ℤ)
      else ((value (Nat.toDigits 10 (point - 1).natAbs) : ℕ) : ℤ)) = point - 1 := by
    rw [value_toDigits]
    by_cases hdown : point ≤ 0
    · rw [if_pos hdown, if_pos (by decide)]
      omega
    · rw [if_neg hdown, if_neg (by decide)]
      omega
  simp only [assembled?, if_neg hsize]
  rw [hexponent, hsum]

end Spelling

/-! ### Decimals -/

/-- The whole number and the power of ten that are taken for a decimal: its own, or with a zero more
    after the digits where the digits end before the point. -/
inductive Taken (s : Scientific) : ℕ → ℤ → Prop where
  | asWritten : Taken s s.digits s.exponent
  | withZeros (h : 0 ≤ s.exponent) : Taken s (s.digits * 10 ^ (s.exponent.toNat + 1)) (-1)

/-- A written decimal is read as its digits, scaled by its power of ten. -/
theorem exists_taken_ofScientific (negative : Bool) {s : Scientific} (hdigits : s.digits < 2 ^ 64)
    (hlow : -327 ≤ s.exponent) (hhigh : s.exponent ≤ 308) :
    ∃ n x, Taken s n x ∧ n < 2 ^ 64 ∧
      (ofScientific negative s).float? = (scaled? (Float.ofNat n) x).map (signed negative) := by
  unfold ofScientific
  extract_lets digits point
  have hpoint : point = digits.length + s.exponent := rfl
  have hvalue : value digits = s.digits := value_toDigits _
  have hlength : 0 < digits.length := List.length_pos_iff.mpr Nat.toDigits_ne_nil
  have hlength' : digits.length ≤ 20 :=
    (Nat.length_toDigits_le_iff (by decide) (by decide)).mpr (by omega)
  have hsize : s.digits < 10 ^ digits.length :=
    (Nat.length_toDigits_le_iff (by decide) hlength).mp le_rfl
  clear_value digits point
  split
  · next hshort =>
    -- The zeros up to the point, and the one after it, are taken in with the digits.
    obtain ⟨hnonneg, hwidth⟩ := hshort
    have hall : value (digits ++ zeros s.exponent.toNat ++ ['0']) =
        s.digits * 10 ^ (s.exponent.toNat + 1) := by
      rw [List.append_assoc, show zeros s.exponent.toNat ++ ['0'] = zeros (s.exponent.toNat + 1)
        from List.replicate_succ'.symm, value_append_zeros, hvalue]
    have hbound : s.digits * 10 ^ (s.exponent.toNat + 1) < 10 ^ 17 := calc
      s.digits * 10 ^ (s.exponent.toNat + 1) < 10 ^ digits.length * 10 ^ (s.exponent.toNat + 1) :=
        Nat.mul_lt_mul_of_pos_right hsize (by positivity)
      _ = 10 ^ (digits.length + (s.exponent.toNat + 1)) := (pow_add ..).symm
      _ ≤ 10 ^ 17 := Nat.pow_le_pow_right (by decide) (by omega)
    have hfit : s.digits * 10 ^ (s.exponent.toNat + 1) < 2 ^ 64 := by omega
    exact ⟨_, _, .withZeros hnonneg, hfit,
      float?_of_fraction negative hall hfit (List.cons_ne_nil _ _) rfl⟩
  refine ⟨_, _, .asWritten, hdigits, ?_⟩
  split
  · next hlong hcut =>
    have hplaces : ((digits.drop point.toNat).length : ℤ) = -s.exponent := by
      rw [List.length_drop]
      omega
    refine float?_of_fraction negative ?_ hdigits (List.ne_nil_of_length_pos (by omega)) hplaces
    rw [List.take_append_drop, hvalue]
  split
  · next hsmall =>
    have hzeros : ['0'] ++ zeros (-point).toNat = zeros ((-point).toNat + 1) :=
      List.replicate_succ.symm
    have hplaces : ((zeros (-point).toNat ++ digits).length : ℤ) = -s.exponent := by
      rw [List.length_append, zeros, List.length_replicate]
      omega
    refine float?_of_fraction negative ?_ hdigits
      (List.append_ne_nil_of_right_ne_nil _ (List.length_pos_iff.mp hlength)) hplaces
    rw [← List.append_assoc, hzeros, value_zeros_append, hvalue]
  · have hmax : maxExponent = 2147483647 := by decide
    refine float?_of_exponent negative ?_ hdigits (by omega) (by omega) ?_ (by omega) (by omega)
    · rw [List.take_append_drop, hvalue]
    · rw [List.length_drop]
      omega

/-! ### Powers of ten -/

/-- A power of ten is the float that it is read as. -/
theorem powerOfTen_eq (n : ℕ) : powerOfTen n = .ofModel (.ofScientific 1 n) := by
  have hfew : ∀ n ≤ 22, powerOfTen n = .ofModel (.ofScientific 1 n) := by decide +kernel
  by_cases hn : n ≤ 22
  · exact hfew n hn
  · rw [powerOfTen, Float.ofScientific, dif_neg fun h => hn h.2]
    rfl

/-- The float of a power of ten is the one that it rounds to. -/
theorem exists_powerOfTen {n : ℕ} (h : n ≤ 308) :
    ∃ p, HasValue (powerOfTen n) p ∧ RoundsTo (10 ^ n) p := by
  have hround := hasValue_ofScientific one_pos (by omega : n ≤ 2048)
    (by rw [Nat.cast_one, one_mul]; exact ten_pow_lt_limit h)
  rwa [Nat.cast_one, one_mul, ← powerOfTen_eq] at hround

/-! ### Scaling -/

/-- What has a value is not infinite. -/
theorem isInf_eq_false {x : Float} {v : ℚ} (h : HasValue x v) : x.isInf = false := by
  show x.toModel.unpack.isInf = false
  rcases h.zero_or_pos with ⟨rfl, -⟩ | ⟨m, e, hpos, hm, he, rfl, -⟩
  · rw [unpack_zero]
    rfl
  · rw [unpack_floatOf_of_pos hm hpos he]
    rfl

/-- What has a value above zero is not zero. -/
theorem beq_zero_eq_false {x : Float} {v : ℚ} (h : HasValue x v) (hv : 0 < v) :
    (x == 0) = false := by
  show (x.toModel.unpack.compare (0 : Float).toModel.unpack == some .eq) = false
  rcases h.zero_or_pos with ⟨-, rfl⟩ | ⟨m, e, hpos, hm, he, rfl, -⟩
  · exact absurd hv (lt_irrefl _)
  · rw [unpack_zero, unpack_floatOf_of_pos hm hpos he]
    rfl

/-- Powers of ten that have a float are multiplied by at once, and what overflows is refused. -/
theorem scaled?_natCast (x : Float) {n : ℕ} (h : n ≤ 308) :
    scaled? x n = if (x * powerOfTen n).isInf then none else some (x * powerOfTen n) := by
  rw [scaled?]
  simp [h]

/-- Powers of ten that have a float are divided by at once. -/
theorem scaled?_neg (x : Float) {n : ℕ} (hpos : 0 < n) (h : n ≤ 308) :
    scaled? x (-n) = some (x / powerOfTen n) := by
  rw [scaled?]
  simp [h]
  omega

/-- Greater powers of ten are divided by in steps, the greatest one that has a float first. -/
theorem scaled?_neg_of_lt {x : Float} (hx : (x == 0) = false) {n : ℕ} (h : 308 < n) :
    scaled? x (-n) = scaled? (x / powerOfTen 308) (-(n - 308 : ℕ)) := by
  have hrest : -(n : ℤ) + 308 = -((n - 308 : ℕ) : ℤ) := by omega
  rw [scaled?, dif_neg (by simpa using h), hx, if_neg Bool.false_ne_true, if_neg (by omega), hrest]

/-- A float that is computed in several steps is rounded from a number that is close to the exact
    result, but for the error of one step next to zero. -/
def Computed (k : ℕ) (q : ℚ) (y : Float) : Prop :=
  ∃ r r' w, HasValue y w ∧ RoundsTo r w ∧ Close k q r' ∧ |r - r'| ≤ 1 / 2 ^ 1075

/-- What one step makes of a number close to the exact result is computed from that result. -/
theorem computed_of_close {j k : ℕ} {q r w : ℚ} {y : Float} (hw : HasValue y w)
    (hr : RoundsTo r w) (h : Close j q r) (hjk : j ≤ k) (hq : 0 ≤ q) (hr' : 0 ≤ r) :
    Computed k q y := by
  refine ⟨r, r, w, hw, hr, h.mono hjk hq hr', ?_⟩
  rw [sub_self, abs_zero]
  positivity

section Scaling

variable {x : Float} {a : ℚ} (hx : HasValue x a)

include hx

/-- A float multiplied by a power of ten has the value that the exact product rounds to. -/
theorem exists_mul_powerOfTen {n : ℕ} (hn : n ≤ 308) (hbound : 2 * (a * 10 ^ n) < limit) :
    ∃ p w, RoundsTo (10 ^ n) p ∧ HasValue (x * powerOfTen n) w ∧ RoundsTo (a * p) w := by
  obtain ⟨p, hp, hpower⟩ := exists_powerOfTen hn
  have hproduct : a * p < limit := calc
    a * p ≤ a * (2 * 10 ^ n) := mul_le_mul_of_nonneg_left hpower.le_ten_pow hx.nonneg
    _ = 2 * (a * 10 ^ n) := by ring
    _ < limit := hbound
  obtain ⟨w, hw, hround⟩ := hx.mul hp hproduct
  exact ⟨p, w, hpower, hw, hround⟩

/-- A float divided by a power of ten has the value that the exact quotient rounds to. -/
theorem exists_div_powerOfTen {n : ℕ} (hpos : 0 < n) (hn : n ≤ 308) (hbound : a < limit) :
    ∃ p w, RoundsTo (10 ^ n) p ∧ HasValue (x / powerOfTen n) w ∧ RoundsTo (a / p) w := by
  obtain ⟨p, hp, hpower⟩ := exists_powerOfTen hn
  have hquotient : a / p ≤ a := div_le_self hx.nonneg (hpower.one_le_ten_pow hpos)
  obtain ⟨w, hw, hround⟩ := hx.div hp hpower.ten_pow_pos (hquotient.trans_lt hbound)
  exact ⟨p, w, hpower, hw, hround⟩

/-- Beyond the powers of ten that are floats, the power is divided by in two steps.  Next to zero
    the first of them is off by as much as the second makes little of. -/
theorem computed_div_div (hpos : 0 < a) (ha : a ≤ 2 ^ 65) {n : ℕ} (hlow : 0 < n) (hn : n ≤ 308) :
    Computed 3 (a / 10 ^ 308 / 10 ^ n) (x / powerOfTen 308 / powerOfTen n) := by
  obtain ⟨p, v, hpower, hv, hround⟩ := exists_div_powerOfTen hx (by decide) le_rfl
    (ha.trans_lt (pow_lt_limit (by decide)))
  have hp := hpower.ten_pow_pos
  have hfit : v ≤ 2 ^ 67 := by
    have hquotient : a / p ≤ a := div_le_self hpos.le (hpower.one_le_ten_pow (by decide))
    linarith [hround.le_two_mul_add_one (by positivity)]
  obtain ⟨p', w, hpower', hw, hround'⟩ := exists_div_powerOfTen hv hlow hn
    (hfit.trans_lt (pow_lt_limit (by decide)))
  have hp' := hpower'.ten_pow_pos
  have hfirst : Close (0 + 1) (a / 10 ^ 308) (a / p) :=
    (Close.refl a).div hpower.close_ten_pow hpos.le (by positivity) hpos.le hp
  have hquotient : 0 ≤ a / 10 ^ 308 := div_nonneg hpos.le (by positivity)
  have hresult : 0 ≤ a / 10 ^ 308 / 10 ^ n := div_nonneg hquotient (by positivity)
  rcases le_or_gt (1 / 2 ^ 1022) (a / p) with hnormal | hsmall
  · have hsecond : Close (0 + 1 + 1 + 1) (a / 10 ^ 308 / 10 ^ n) (v / p') :=
      (hfirst.trans (hround.close hnormal)).div hpower'.close_ten_pow hquotient (by positivity)
        hv.nonneg hp'
    exact computed_of_close hw hround' hsecond le_rfl hresult (div_nonneg hv.nonneg hp'.le)
  · have hsecond : Close (0 + 1 + 1) (a / 10 ^ 308 / 10 ^ n) (a / p / p') :=
      hfirst.div hpower'.close_ten_pow hquotient (by positivity) (by positivity) hp'
    refine ⟨v / p', a / p / p', w, hw, hround', hsecond.mono (by decide) hresult
      (by positivity), ?_⟩
    rw [← sub_div, abs_div, abs_of_pos hp']
    exact (div_le_self (abs_nonneg _) (hpower'.one_le_ten_pow hlow)).trans
      (hround.near_of_lt hsmall)

/-- Scaling takes three steps at most. -/
theorem exists_scaled? (hpos : 0 < a) (ha : a ≤ 2 ^ 65) {k : ℤ} (hlow : -616 ≤ k)
    (hhigh : k ≤ 308) (hbound : 2 * (a * 10 ^ k) < limit) :
    ∃ y, scaled? x k = some y ∧ Computed 3 (a * 10 ^ k) y := by
  -- One multiplication, one division, or two divisions.
  rcases le_or_gt 0 k with hk | hk
  · obtain ⟨n, rfl⟩ := Int.eq_ofNat_of_zero_le hk
    have hn : n ≤ 308 := by omega
    rw [zpow_natCast] at hbound ⊢
    obtain ⟨p, w, hpower, hw, hround⟩ := exists_mul_powerOfTen hx hn hbound
    have hp := hpower.ten_pow_pos
    have hclose : Close (0 + 1) (a * 10 ^ n) (a * p) :=
      (Close.refl a).mul hpower.close_ten_pow hpos.le (by positivity) hpos.le hp.le
    refine ⟨x * powerOfTen n, ?_,
      computed_of_close hw hround hclose (by decide) (by positivity) (by positivity)⟩
    rw [scaled?_natCast x hn, isInf_eq_false hw, if_neg Bool.false_ne_true]
  · obtain ⟨n, rfl⟩ : ∃ n : ℕ, k = -n := ⟨k.natAbs, by omega⟩
    have hn : 0 < n := by omega
    rw [zpow_neg, zpow_natCast, ← div_eq_mul_inv] at hbound ⊢
    rcases le_or_gt n 308 with hsmall | hgreat
    · obtain ⟨p, w, hpower, hw, hround⟩ := exists_div_powerOfTen hx hn hsmall
        (ha.trans_lt (pow_lt_limit (by decide)))
      have hp := hpower.ten_pow_pos
      have hclose : Close (0 + 1) (a / 10 ^ n) (a / p) :=
        (Close.refl a).div hpower.close_ten_pow hpos.le (by positivity) hpos.le hp
      exact ⟨_, scaled?_neg x hn hsmall,
        computed_of_close hw hround hclose (by decide) (by positivity) (by positivity)⟩
    · refine ⟨_, (scaled?_neg_of_lt (beq_zero_eq_false hx hpos) hgreat).trans
        (scaled?_neg _ (by omega) (by omega)), ?_⟩
      have hsplit : a / 10 ^ n = a / 10 ^ 308 / 10 ^ (n - 308) := by
        rw [div_div, ← pow_add, Nat.add_sub_cancel' hgreat.le]
      rw [hsplit]
      exact computed_div_div hx hpos ha (by omega) (by omega)

end Scaling

/-- What is computed from a number that is close to the exact result is computed from that result,
    with the errors of both. -/
theorem Computed.trans {j k : ℕ} {q r : ℚ} {y : Float} (h : Close j q r) (hy : Computed k r y) :
    Computed (j + k) q y := by
  obtain ⟨r', r'', w, hw, hround, hclose, hleast⟩ := hy
  exact ⟨r', r'', w, hw, hround, h.trans hclose, hleast⟩

/-- A whole number is rounded before it is scaled. -/
theorem exists_scaled?_ofNat {n : ℕ} (hpos : 0 < n) (hn : n < 2 ^ 64) {k : ℤ} (hlow : -616 ≤ k)
    (hhigh : k ≤ 308) (hbound : (n : ℚ) * 10 ^ k ≤ 2 ^ 513) :
    ∃ y, scaled? (Float.ofNat n) k = some y ∧ Computed 4 (n * 10 ^ k) y := by
  have hpos' : (1 : ℚ) ≤ n := by exact_mod_cast hpos
  have hn' : (n : ℚ) ≤ 2 ^ 64 := by exact_mod_cast hn.le
  obtain ⟨a, ha, hround⟩ := hasValue_ofNat (hn'.trans_lt (pow_lt_limit (by decide)))
  have hleast : (1 : ℚ) / 2 ^ 1022 ≤ n :=
    ((div_le_one (by positivity)).mpr (one_le_pow₀ one_le_two)).trans hpos'
  have hclose : Close 1 n a := hround.close hleast
  have hlower : (n : ℚ) ≤ 2 * a := hclose.le_two_mul (by positivity)
  have hupper : a ≤ 2 * n := hclose.symm.le_two_mul ha.nonneg
  have hpower : (0 : ℚ) < 10 ^ k := by positivity
  have hscaled : Close (1 + 0) (n * 10 ^ k) (a * 10 ^ k) :=
    hclose.mul (Close.refl _) (by positivity) hpower.le ha.nonneg hpower.le
  have hfit : 2 * (a * 10 ^ k) < limit := calc
    2 * (a * 10 ^ k) ≤ 2 * (2 * n * 10 ^ k) := by gcongr
    _ = 4 * (n * 10 ^ k) := by ring
    _ ≤ 2 ^ 2 * 2 ^ 513 := by gcongr; norm_num
    _ = 2 ^ 515 := (pow_add 2 2 513).symm
    _ < limit := pow_lt_limit (by decide)
  obtain ⟨y, hy, hcomputed⟩ := exists_scaled? ha (by linarith) (by linarith) hlow hhigh hfit
  exact ⟨y, hy, hcomputed.trans hscaled⟩

/-- Few digits are scaled in a single step, if the power of ten is a float. -/
theorem exists_scaled?_of_few {n i : ℕ} (hn : n < 2 ^ 53) (hi : i ≤ 1) {k : ℤ} (hlow : -22 ≤ k)
    (hhigh : k ≤ 0) :
    ∃ y w, scaled? (Float.ofNat (n * 2 ^ i)) k = some y ∧ HasValue y w ∧
      RoundsTo ((n * 2 ^ i : ℕ) * 10 ^ k) w := by
  have hfit : 2 * ((n * 2 ^ i : ℕ) : ℚ) < limit := by
    have hbound : 2 * (n * 2 ^ i) ≤ 2 ^ 55 := calc
      2 * (n * 2 ^ i) ≤ 2 * (2 ^ 53 * 2 ^ 1) :=
        Nat.mul_le_mul_left _ (Nat.mul_le_mul hn.le (Nat.pow_le_pow_right (by decide) hi))
      _ = 2 ^ 55 := by decide
    exact lt_of_le_of_lt (by exact_mod_cast hbound) (pow_lt_limit (by decide : 55 ≤ 1023))
  have hfit' : ((n * 2 ^ i : ℕ) : ℚ) < limit :=
    (le_mul_of_one_le_left (Nat.cast_nonneg _) one_le_two).trans_lt hfit
  obtain ⟨a, ha, hround⟩ := hasValue_ofNat hfit'
  obtain ⟨m, e, hm, hq⟩ := exists_canonical_of_lt hn i
  rw [← Nat.cast_ofNat, ← Nat.cast_pow, ← Nat.cast_mul] at hq
  obtain rfl := hround.eq_of_canonical hm hq
  obtain ⟨j, rfl⟩ : ∃ j : ℕ, k = -j := ⟨k.natAbs, by omega⟩
  rcases Nat.eq_zero_or_pos j with rfl | hj
  · obtain ⟨p, w, hpower, hw, hround'⟩ := exists_mul_powerOfTen ha (Nat.zero_le 308)
      (by rwa [pow_zero, mul_one])
    obtain rfl := hpower.eq_ten_pow (by decide)
    refine ⟨_, w, ?_, hw, ?_⟩
    · rw [Nat.cast_zero, neg_zero, ← Nat.cast_zero, scaled?_natCast _ (by decide),
        isInf_eq_false hw, if_neg Bool.false_ne_true]
    · rwa [Nat.cast_zero, neg_zero, zpow_zero, ← pow_zero 10]
  · obtain ⟨p, w, hpower, hw, hround'⟩ := exists_div_powerOfTen ha hj (by omega) hfit'
    obtain rfl := hpower.eq_ten_pow (by omega)
    refine ⟨_, w, scaled?_neg _ hj (by omega), hw, ?_⟩
    rwa [zpow_neg, zpow_natCast, ← div_eq_mul_inv]

/-- What is computed for the decimal of a float is near to the float. -/
theorem Computed.near {q v : ℚ} {y : Float} (h : Computed 4 q y) (hv : 0 ≤ v) (hq : 0 ≤ q)
    (hdecimal : |q - v| ≤ max (v / 2 ^ 53) (1 / 2 ^ 1075)) :
    ∃ w, HasValue y w ∧ |w - v| ≤ v / 2 ^ 50 + 1 / 2 ^ 1073 := by
  obtain ⟨r, r', w, hw, hround, hclose, hr⟩ := h
  refine ⟨w, hw, ?_⟩
  have hround := hround.near
  have hclose := hclose.abs_sub_le hq
  have hleast : (0 : ℚ) ≤ 1 / 2 ^ 1075 := by positivity
  rw [← four_mul_least]
  generalize (1 / 2 ^ 1075 : ℚ) = least at hround hdecimal hr hleast ⊢
  -- The errors of the decimal, of the steps before the last, and of the last step add up.
  have hdecimal' : |q - v| ≤ v / 2 ^ 53 + least :=
    hdecimal.trans (max_le (by linarith) (by linarith))
  obtain ⟨hq₁, hq₂⟩ := abs_le.mp hdecimal'
  obtain ⟨hr₁, hr₂⟩ := abs_le.mp hclose
  obtain ⟨hs₁, hs₂⟩ := abs_le.mp hr
  have hround' : |w - r| ≤ (q + q * (5 / 2 ^ 53) + least) / 2 ^ 53 + least :=
    hround.trans (max_le (by linarith) (by linarith))
  obtain ⟨hw₁, hw₂⟩ := abs_le.mp hround'
  exact abs_le.mpr ⟨by linarith, by linarith⟩

namespace Taken

variable {s : Scientific} {n : ℕ} {k : ℤ} (h : Taken s n k)

include h

/-- What is taken for a decimal is the number of the decimal. -/
theorem number_eq : (n : ℚ) * 10 ^ k = s.number := by
  cases h with
  | asWritten => rfl
  | withZeros h =>
    have hexponent : ((s.exponent.toNat : ℤ) : ℤ) = s.exponent := Int.toNat_of_nonneg h
    rw [Scientific.number, ← hexponent, zpow_natCast, zpow_neg_one, pow_succ, Int.toNat_natCast]
    push_cast
    field_simp

/-- The power of ten taken for the decimal of a float is divided by in two steps at most. -/
theorem bounds (hlow : -327 ≤ s.exponent) (hhigh : s.exponent ≤ 308) : -616 ≤ k ∧ k ≤ 308 := by
  cases h <;> omega

/-- A short decimal makes a number of few digits, with a zero after them at most. -/
theorem exists_of_short (hs : s.Short) :
    ∃ m i, n = m * 2 ^ i ∧ m < 2 ^ 53 ∧ i ≤ 1 ∧ -22 ≤ k ∧ k ≤ 0 := by
  obtain ⟨hdigits, hlow, hhigh⟩ := hs
  cases h with
  | asWritten => exact ⟨s.digits, 0, by omega, by omega, by decide, hlow, hhigh⟩
  | withZeros h =>
    have hzero : s.exponent.toNat = 0 := by omega
    exact ⟨5 * s.digits, 1, by rw [hzero]; omega, by omega, le_rfl, by decide, by decide⟩

end Taken

end Numeral

/-! ### Floats -/

/-- Whether the shortest decimal of a float is short, or the float has none. -/
def isShort (x : Float) : Bool :=
  match x.toModel.unpack with
  | .finite _ m e _ => decide (shortest m e).Short
  | _ => true

/-- The float that the text of a float is read as.  It is off by a few units of the last binary digit
    at most, and not at all if the text is short. -/
structure Reread (x y : Float) : Prop where
  read : ofJson? Float (toJson .compact x) = some y
  near : ∃ v w, HasValue x v ∧ HasValue y w ∧ |w - v| ≤ v / 2 ^ 50 + 1 / 2 ^ 1073
  short : isShort x = true → y = x

/-- The text of a float is read as its JSON. -/
theorem ofJson?_toJson_float (x : Float) (l : Layout) :
    ofJson? Float (toJson l x) = decode? (encode x) := by
  have hread : Value.read? ((encode x).text l) = some (encode x) :=
    Value.read?_text (wellSpelled_ofFloat x) l
  rw [ofJson?, toJson, hread, Option.bind_some]

/-- Recovered floats are those that are read as themselves. -/
theorem Reread.recovered_iff {x y : Float} (h : Reread x y) : Recovered x ↔ y = x := by
  rw [Recovered, h.read, Option.some_inj]

/-- Zero is read as zero. -/
theorem reread_zero : Reread 0 0 := by
  have hread : Recovered 0 := by decide +kernel
  refine ⟨hread, ⟨0, 0, hasValue_zero, hasValue_zero, ?_⟩, fun _ => rfl⟩
  rw [sub_self, abs_zero]
  positivity

section Mantissas

variable {m : ℕ} {e : ℤ} (hm : Canonical m e) (hpos : 0 < m) (he : e ≤ 971)

include hm hpos he

/-- The text of a float is the shortest decimal of it, and is read as such. -/
theorem decode?_encode_floatOf :
    (decode? (encode (floatOf m e)) : Option Float) =
      (Numeral.ofScientific false (shortest m e)).float? := by
  show (Value.ofFloat (floatOf m e)).float? = _
  have hspelling : Numeral.ofFloat? (floatOf m e) =
      some (Numeral.ofScientific false (shortest m e)) := by
    rw [Numeral.ofFloat?, unpack_floatOf_of_pos hm hpos he]
    rfl
  rw [Value.ofFloat, hspelling]
  rfl

/-- The text of a float is short if its shortest decimal is. -/
theorem isShort_floatOf : isShort (floatOf m e) = true ↔ (shortest m e).Short := by
  rw [isShort, unpack_floatOf_of_pos hm hpos he, decide_eq_true_iff]

/-- The text of a float is read by scaling a whole number, which is not zero. -/
theorem exists_taken_floatOf (hv : (m : ℚ) * 2 ^ e ≤ 2 ^ 512) :
    ∃ n k, Numeral.Taken (shortest m e) n k ∧ 0 < n ∧ n < 2 ^ 64 ∧ -616 ≤ k ∧ k ≤ 308 ∧
      ofJson? Float (toJson .compact (floatOf m e)) = Numeral.scaled? (Float.ofNat n) k := by
  have hlow := le_exponent_shortest hm hpos he
  have hhigh := exponent_shortest_le hm hpos he hv
  obtain ⟨n, k, htaken, hn, hfloat⟩ :=
    Numeral.exists_taken_ofScientific false (digits_shortest_lt hm hpos he) hlow hhigh
  obtain ⟨hk, hk'⟩ := htaken.bounds hlow hhigh
  have hn' : 0 < n := by
    rw [Nat.pos_iff_ne_zero]
    rintro rfl
    have hnumber := htaken.number_eq
    rw [Nat.cast_zero, zero_mul] at hnumber
    exact (number_shortest_le hm hpos he).1.ne hnumber
  refine ⟨n, k, htaken, hn', hn, hk, hk', ?_⟩
  have hsigned : Numeral.signed false = id := rfl
  rw [ofJson?_toJson_float, decode?_encode_floatOf hm hpos he, hfloat, hsigned, Option.map_id, id]

end Mantissas

/-- The text of a float that is not too great is read as a float near to it. -/
theorem exists_reread {x : Float} {v : ℚ} (hx : HasValue x v) (hv : v ≤ 2 ^ 512) :
    ∃ y, Reread x y := by
  rcases hx.zero_or_pos with ⟨rfl, -⟩ | ⟨m, e, hpos, hm, he, rfl, rfl⟩
  · exact ⟨0, reread_zero⟩
  obtain ⟨n, k, htaken, hn, hn', hk, hk', hread⟩ := exists_taken_floatOf hm hpos he hv
  have hrounds := rounds_shortest hm hpos he
  have hnumber := htaken.number_eq
  obtain ⟨hdecimal, hdecimal'⟩ := number_shortest_le hm hpos he
  have hbound : (n : ℚ) * 10 ^ k ≤ 2 ^ 513 := by
    rw [hnumber, pow_succ' 2 512]
    exact hdecimal'.trans (mul_le_mul_of_nonneg_left hv two_pos.le)
  obtain ⟨y, hy, hcomputed⟩ := Numeral.exists_scaled?_ofNat hn hn' hk hk' hbound
  rw [hnumber] at hcomputed
  obtain ⟨w, hw, hnear⟩ := hcomputed.near hx.nonneg hdecimal.le (hrounds.near hm)
  refine ⟨y, hread.trans hy, ⟨_, w, hx, hw, hnear⟩, fun hshort => ?_⟩
  -- A short decimal is rounded only once, so the float to which it rounds comes out.
  obtain ⟨d, i, rfl, hd, hi, hk, hk'⟩ :=
    htaken.exists_of_short ((isShort_floatOf hm hpos he).mp hshort)
  obtain ⟨y', w', hy', hw', hround⟩ := Numeral.exists_scaled?_of_few hd hi hk hk'
  obtain rfl : y' = y := Option.some_inj.mp (hy'.symm.trans hy)
  rw [hnumber] at hround
  obtain rfl := hround.only m e hm hrounds
  exact hw'.unique hx

end Dice.Json
