import Dice.Proofs.Binary.Rounding

namespace Dice.Binary

open Float.Model Float.Model.UnpackedFloat

/-!
# Arithmetic of floats

A float that is not negative has a rational value, as long as it is finite.  Sums, products and
quotients of such floats have the values that the exact results are rounded to, unless these are too
great.

* `unpack_pack` — what is packed is unpacked again.
* `HasValue`, `HasValue.unique` — the value of a float, which determines it.
* `HasValue.zero_or_pos` — the mantissas of floats with a value.
* `RoundsTo` — the values that a number is rounded to.
* `HasValue.add`, `HasValue.mul`, `HasValue.div` — the operations.
* `hasValue_toFloat`, `hasValue_ofScientific`, `hasValue_ofNat` — whole numbers.
-/

/-! ### Packed floats -/

/-- A mantissa above zero makes a finite float. -/
theorem unpacked_of_pos {s : Sign} {m : ℕ} (h : 0 < m) (e : ℤ) :
    unpacked s m e = .finite s m e h := dif_neg h.ne'

/-- What is packed with an exponent that is not the greatest is unpacked with the leading digit put
    back, if the exponent is not the least. -/
theorem unpack_packComponents (s : Sign) {exponent : BitVec 11} (mantissa : BitVec 52)
    (h : exponent ≠ -1#11) :
    UnpackedFloat.unpack Format.binary64 (packComponents Format.binary64 s exponent mantissa) =
      if exponent = 0#11 then unpacked s mantissa.toNat (-1074)
      else unpacked s (2 ^ 52 + mantissa.toNat) (exponent.toNat - 1075) := by
  have hleading : (1#1 ++ mantissa).toNat = 2 ^ 52 + mantissa.toNat := by
    rw [BitVec.toNat_append, ← Nat.shiftLeft_add_eq_or_of_lt mantissa.isLt]
    rfl
  unfold UnpackedFloat.unpack
  simp only [unpackMantissa_packComponents, unpackExponent_packComponents,
    unpackSign_packComponents, Sign.ofBitVec_toBitVec, h, if_false, hleading]
  split
  · next hzero =>
    split
    · next hm => rw [hm]; rfl
    · next hm =>
      have hpos : 0 < mantissa.toNat := BitVec.toNat_pos_of_ne_zero hm
      rw [unpacked_of_pos hpos]
      simp [hzero, Format.exponentBias]
  · rw [unpacked_of_pos (by omega)]
    simp [Format.exponentBias]

/-- The leading digit is left out when 53 digits are packed. -/
theorem pack_unpacked {m : ℕ} (h : 0 < m) (s : Sign) (e : ℤ) :
    UnpackedFloat.pack Format.binary64 (unpacked s m e) =
      if 2 ^ 11 ≤ (e + 1023 + 52).toNat + 1 then packedInfinity Format.binary64 s
      else if m.log2 + 1 = 53 then
        packComponents Format.binary64 s (BitVec.ofNat 11 (e + 1023 + 52).toNat) (BitVec.ofNat 52 m)
      else packComponents Format.binary64 s 0#11 (BitVec.ofNat 52 m) := by
  rw [unpacked_of_pos h]
  rfl

/-- The exponent of a float with 53 digits is packed as neither the least nor the greatest one. -/
theorem packed_exponent {e : ℤ} (hleast : -1074 ≤ e) (he : e ≤ 971) {exponent : BitVec 11}
    (h : BitVec.ofNat 11 (e + 1023 + 52).toNat = exponent) :
    exponent.toNat = (e + 1075).toNat ∧ exponent ≠ 0#11 ∧ exponent ≠ -1#11 := by
  have hexponent : exponent.toNat = (e + 1075).toNat := by
    rw [← h, BitVec.toNat_ofNat, Nat.mod_eq_of_lt (by omega)]
    omega
  refine ⟨hexponent, ?_, ?_⟩ <;>
  · rintro rfl
    simp at hexponent
    omega

/-- Floats are unpacked as they were packed, unless they are too great. -/
theorem unpack_pack {m : ℕ} {e : ℤ} (h : Canonical m e) (he : e ≤ 971) (s : Sign) :
    (Float.Model.pack (unpacked s m e)).unpack = unpacked s m e := by
  show UnpackedFloat.unpack Format.binary64 (UnpackedFloat.pack Format.binary64 _) = _
  have hleast := h.exponent
  rcases Nat.eq_zero_or_pos m with rfl | hpos
  · have hzero : unpacked s 0 e = .zero s := rfl
    rw [hzero]
    exact unpack_packComponents s 0#52 (by decide)
  rw [pack_unpacked hpos, if_neg (by omega)]
  -- The leading digit of 53 is left out; fewer digits have the least exponent, packed as zero.
  by_cases hm : 2 ^ 52 ≤ m
  · have hlog : m.log2 + 1 = 53 := by
      have := (Nat.le_log2 hpos.ne').mpr hm
      have := (Nat.log2_lt hpos.ne').mpr h.digits
      omega
    have hleading : 2 ^ 52 + (BitVec.ofNat 52 m).toNat = m := by
      have := h.digits
      rw [BitVec.toNat_ofNat]
      omega
    obtain ⟨hexponent, hnonzero, hgreatest⟩ := packed_exponent hleast he rfl
    rw [if_pos hlog, unpack_packComponents _ _ hgreatest, if_neg hnonzero, hleading, hexponent]
    congr 1
    omega
  · obtain rfl : e = -1074 := h.normal.resolve_left hm
    have hlog : m.log2 + 1 ≠ 53 := by
      have := (Nat.log2_lt hpos.ne').mpr (not_le.mp hm)
      omega
    rw [if_neg hlog, unpack_packComponents _ _ (by decide), if_pos rfl, BitVec.toNat_ofNat,
      Nat.mod_eq_of_lt (not_le.mp hm)]

/-! ### Values -/

/-- The float of a mantissa and an exponent. -/
def floatOf (m : ℕ) (e : ℤ) : Float := .ofModel (.pack (unpacked .positive m e))

/-- A float is unpacked to the mantissa and the exponent that it is made of. -/
theorem unpack_floatOf {m : ℕ} {e : ℤ} (h : Canonical m e) (he : e ≤ 971) :
    (floatOf m e).toModel.unpack = unpacked .positive m e :=
  unpack_pack h he .positive

/-- The float is not negative and has a value. -/
def HasValue (x : Float) (v : ℚ) : Prop :=
  ∃ (m : ℕ) (e : ℤ), Canonical m e ∧ e ≤ 971 ∧ x = floatOf m e ∧ v = m * 2 ^ e

/-- The value is a number to which the other one rounds. -/
structure RoundsTo (q v : ℚ) : Prop where
  near : |v - q| ≤ max (q / 2 ^ 53) (1 / 2 ^ 1075)
  only : ∀ (k : ℕ) (t : ℤ), Canonical k t → Rounds k t q → v = k * 2 ^ t

/-- A float is determined by its value. -/
theorem Canonical.unique {m k : ℕ} {e t : ℤ} (hm : Canonical m e) (hk : Canonical k t)
    (h : (m : ℚ) * 2 ^ e = k * 2 ^ t) : m = k ∧ e = t := by
  -- A float rounds to itself, and to no float with a lower exponent.
  obtain rfl : e = t := le_antisymm (hm.placed.exponent_le hk (h ▸ rounds_self k t))
    (hk.placed.exponent_le hm (h ▸ rounds_self m e))
  have hunit : (2 : ℚ) ^ e ≠ 0 := by positivity
  exact ⟨by exact_mod_cast mul_right_cancel₀ hunit h, rfl⟩

/-- Zero has the least exponent. -/
theorem canonical_zero : Canonical 0 (-1074) := ⟨by decide, le_rfl, .inr rfl⟩

/-- Without a mantissa the float is zero, whatever the exponent. -/
theorem floatOf_zero (e : ℤ) : floatOf 0 e = 0 := by
  show floatOf 0 (-1074) = 0
  decide +kernel

/-- The value of zero is zero. -/
theorem hasValue_zero : HasValue 0 0 :=
  ⟨0, -1074, canonical_zero, by decide, (floatOf_zero _).symm, by simp⟩

/-- A float with a value is zero, or it has a mantissa with a first digit. -/
theorem HasValue.zero_or_pos {x : Float} {v : ℚ} (h : HasValue x v) :
    (x = 0 ∧ v = 0) ∨ ∃ (m : ℕ) (e : ℤ), 0 < m ∧ Canonical m e ∧ e ≤ 971 ∧ x = floatOf m e ∧
      v = m * 2 ^ e := by
  obtain ⟨m, e, hm, he, rfl, rfl⟩ := h
  rcases Nat.eq_zero_or_pos m with rfl | hpos
  · exact .inl ⟨floatOf_zero e, by simp⟩
  · exact .inr ⟨m, e, hpos, hm, he, rfl, rfl⟩

theorem unpack_zero : (0 : Float).toModel.unpack = .zero .positive := by
  rw [← floatOf_zero (-1074), unpack_floatOf canonical_zero (by decide)]
  rfl

theorem unpack_floatOf_of_pos {m : ℕ} {e : ℤ} (h : Canonical m e) (hpos : 0 < m) (he : e ≤ 971) :
    (floatOf m e).toModel.unpack = .finite .positive m e hpos := by
  rw [unpack_floatOf h he, unpacked_of_pos hpos]

/-- Floats with the same value are the same. -/
theorem HasValue.unique {x y : Float} {v : ℚ} (hx : HasValue x v) (hy : HasValue y v) : x = y := by
  obtain ⟨m, e, hm, -, rfl, rfl⟩ := hx
  obtain ⟨k, t, hk, -, rfl, heq⟩ := hy
  obtain ⟨rfl, rfl⟩ := hm.unique hk heq
  rfl

/-- Values are not negative. -/
theorem HasValue.nonneg {x : Float} {v : ℚ} (h : HasValue x v) : 0 ≤ v := by
  obtain ⟨m, e, -, -, -, rfl⟩ := h
  positivity

/-! ### Rounded results -/

/-- Numbers below the limit round to finite floats.  It is not the greatest number of this kind, but
    above all powers of ten that have a float. -/
def limit : ℚ := 3 * 2 ^ 1022

/-- The powers of two that have a float are below the limit. -/
theorem pow_lt_limit {n : ℕ} (h : n ≤ 1023) : (2 : ℚ) ^ n < limit := by
  calc
    (2 : ℚ) ^ n ≤ 2 ^ 1023 := pow_le_pow_right₀ one_le_two h
    _ = 2 * 2 ^ 1022 := pow_succ' 2 1022
    _ < limit := mul_lt_mul_of_pos_right (by norm_num) (by positivity)

theorem one_lt_limit : 1 < limit := pow_zero (2 : ℚ) ▸ pow_lt_limit (Nat.zero_le 1023)

theorem limit_pos : 0 < limit := zero_lt_one.trans one_lt_limit

/-- The nearest float of a number that is not too great has the value that the number is rounded
    to. -/
theorem Nearest.exists_hasValue {q : ℚ} {m : ℕ} {e : ℤ} (h : Nearest q m e) (hq : q < limit) :
    ∃ v, HasValue (floatOf m e) v ∧ RoundsTo q v := by
  have hgreatest : (1 : ℚ) ≤ 2 ^ 1022 := one_le_pow₀ one_le_two
  have hleast : (1 : ℚ) / 2 ^ 1075 ≤ 1 :=
    (div_le_one (by positivity)).mpr (one_le_pow₀ one_le_two)
  have hvalue : (m : ℚ) * 2 ^ e < 2 ^ 1024 := by
    have hdouble : (2 : ℚ) ^ 1024 = 2 ^ 1022 * 2 ^ 2 := pow_add 2 1022 2
    rw [hdouble]
    rw [limit] at hq
    generalize (2 : ℚ) ^ 1022 = bound at hq hgreatest
    have herror : max (q / 2 ^ 53) (1 / 2 ^ 1075) ≤ bound :=
      max_le (by linarith) (hleast.trans hgreatest)
    have hnear := (abs_le.mp h.near).2
    linarith
  have he : e ≤ 971 := by
    by_contra hgreat
    have hnormal : 2 ^ 52 ≤ m := h.canonical.normal.resolve_right (by omega)
    have hm : (2 : ℚ) ^ 52 ≤ m := by exact_mod_cast hnormal
    have hpow : (2 : ℚ) ^ 972 ≤ 2 ^ e := by
      rw [← zpow_natCast]
      exact zpow_le_zpow_right₀ one_le_two (by omega)
    have hproduct : (2 : ℚ) ^ 52 * 2 ^ 972 ≤ m * 2 ^ e := by gcongr
    rw [← pow_add] at hproduct
    exact absurd hproduct hvalue.not_ge
  refine ⟨_, ⟨m, e, h.canonical, he, rfl, rfl⟩, h.near, fun k t hk hrounds => ?_⟩
  obtain ⟨rfl, rfl⟩ := h.only k t hk hrounds
  rfl

/-- A float rounds to itself. -/
theorem Canonical.roundsTo {m : ℕ} {e : ℤ} (h : Canonical m e) :
    RoundsTo (m * 2 ^ e) (m * 2 ^ e) := by
  -- Whole numbers that are not further apart than one half are equal.
  have hwhole : ∀ k, Within m k → m = k := by
    intro k hk
    have hlt : |(m : ℚ) - k| < 1 := hk.near.trans_lt (by norm_num)
    have hlt' : |(m : ℤ) - k| < 1 := by exact_mod_cast hlt
    have hzero := Int.abs_lt_one_iff.mp hlt'
    omega
  refine ⟨?_, fun k t hk hrounds => ?_⟩
  · rw [sub_self, abs_zero]
    exact le_max_of_le_right (by positivity)
  · rcases h.placed.only hk hrounds hwhole with ⟨rfl, rfl⟩ | ⟨-, -, rfl⟩
    · rfl
    · exact absurd h.digits (lt_irrefl _)

/-- The value of a float rounds to itself. -/
theorem HasValue.roundsTo {x : Float} {v : ℚ} (h : HasValue x v) : RoundsTo v v := by
  obtain ⟨m, e, hm, -, -, rfl⟩ := h
  exact hm.roundsTo

/-- Zeros put behind the digits of a number make it longer by as many digits. -/
theorem log2_shiftLeft {m : ℕ} (hm : 0 < m) (n : ℕ) : (m <<< n).log2 = m.log2 + n := by
  induction n with
  | zero => rfl
  | succ n ih =>
    have hpos : 0 < m <<< n := Nat.shiftLeft_pos_iff.mpr hm
    rw [Nat.shiftLeft_succ, Nat.log2_two_mul hpos.ne', ih, Nat.add_assoc]

/-- Digits with an exponent are rounded to the nearest float. -/
theorem exists_nearest_round (s : Sign) {m : ℕ} (hm : 0 < m) (e : ℤ) :
    ∃ m' e', UnpackedFloat.round Format.binary64 s m e = unpacked s m' e' ∧
      Nearest (m * 2 ^ e) m' e' := by
  -- The digits are first moved so far to the left that there are enough of them.
  obtain ⟨n, hn⟩ : ∃ n, (e - max (m.log2 + e - 52) (-1074)).toNat = n := ⟨_, rfl⟩
  have hround : UnpackedFloat.round Format.binary64 s m e =
      roundWithAccuracy Format.binary64 s (m <<< n) (e - n) .exact := by
    simp only [UnpackedFloat.round, targetExponent_eq, decreaseExponent, hn]
  have hlog : (m <<< n).log2 = m.log2 + n := log2_shiftLeft hm n
  have hfit : 52 ≤ (m <<< n).log2 ∨ e - n ≤ -1074 := by omega
  obtain ⟨m', e', heq, hnearest⟩ := exists_nearest s (standsFor_exact (m <<< n)) hfit
  have hvalue : ((m <<< n : ℕ) : ℚ) * 2 ^ (e - n : ℤ) = m * 2 ^ e := by
    rw [Nat.shiftLeft_eq, zpow_sub₀ two_ne_zero, zpow_natCast]
    push_cast
    field_simp
  rw [hvalue] at hnearest
  exact ⟨m', e', hround.trans heq, hnearest⟩

/-- Moving the point to the right changes nothing. -/
theorem shiftLeft_mul_zpow {m : ℕ} {e t : ℤ} (h : t ≤ e) :
    ((m <<< (e - t).toNat : ℕ) : ℚ) * 2 ^ t = m * 2 ^ e := by
  obtain ⟨n, rfl⟩ := Int.exists_add_of_le h
  rw [show (t + n - t : ℤ).toNat = n by omega, Nat.shiftLeft_eq, zpow_add₀ two_ne_zero,
    zpow_natCast]
  push_cast
  ring

/-! ### Operations -/

/-- A result above zero is rounded as it is; the sign is one for zero only. -/
theorem normalize_of_pos {m : ℕ} (hm : 0 < m) (e : ℤ) (s : Sign) :
    UnpackedFloat.normalize Format.binary64 m e s =
      UnpackedFloat.round Format.binary64 .positive m e := by
  rw [UnpackedFloat.normalize, Int.compare_eq_gt.mpr (by omega)]
  rfl

/-- A sum of floats is computed on what they are unpacked to. -/
theorem add_eq (x y : Float) : x + y =
    .ofModel (.pack (UnpackedFloat.add Format.binary64 x.toModel.unpack y.toModel.unpack)) := rfl

/-- A product of floats is computed on what they are unpacked to. -/
theorem mul_eq (x y : Float) : x * y =
    .ofModel (.pack (UnpackedFloat.mul Format.binary64 x.toModel.unpack y.toModel.unpack)) := rfl

/-- A quotient of floats is computed on what they are unpacked to. -/
theorem div_eq (x y : Float) : x / y =
    .ofModel (.pack (UnpackedFloat.div Format.binary64 x.toModel.unpack y.toModel.unpack)) := rfl

section Zero

variable {x : Float} {a : ℚ} (h : HasValue x a)

include h

/-- Adding to zero changes nothing. -/
theorem HasValue.zero_add_eq : 0 + x = x := by
  rcases h.zero_or_pos with ⟨rfl, -⟩ | ⟨m, e, hpos, hm, he, rfl, -⟩
  · decide +kernel
  · rw [add_eq, unpack_zero, unpack_floatOf_of_pos hm hpos he, floatOf, unpacked_of_pos hpos]
    rfl

/-- Adding zero changes nothing. -/
theorem HasValue.add_zero_eq : x + 0 = x := by
  rcases h.zero_or_pos with ⟨rfl, -⟩ | ⟨m, e, hpos, hm, he, rfl, -⟩
  · decide +kernel
  · rw [add_eq, unpack_zero, unpack_floatOf_of_pos hm hpos he, floatOf, unpacked_of_pos hpos]
    rfl

/-- A product with zero is zero. -/
theorem HasValue.zero_mul_eq : 0 * x = 0 := by
  rcases h.zero_or_pos with ⟨rfl, -⟩ | ⟨m, e, hpos, hm, he, rfl, -⟩
  · decide +kernel
  · rw [mul_eq, unpack_zero, unpack_floatOf_of_pos hm hpos he, ← floatOf_zero e]
    rfl

theorem HasValue.mul_zero_eq : x * 0 = 0 := by
  rcases h.zero_or_pos with ⟨rfl, -⟩ | ⟨m, e, hpos, hm, he, rfl, -⟩
  · decide +kernel
  · rw [mul_eq, unpack_zero, unpack_floatOf_of_pos hm hpos he, ← floatOf_zero e]
    rfl

/-- Zero divided by anything else is zero. -/
theorem HasValue.zero_div_eq (ha : 0 < a) : 0 / x = 0 := by
  rcases h.zero_or_pos with ⟨-, rfl⟩ | ⟨m, e, hpos, hm, he, rfl, -⟩
  · exact absurd ha (lt_irrefl _)
  · rw [div_eq, unpack_zero, unpack_floatOf_of_pos hm hpos he, ← floatOf_zero e]
    rfl

end Zero

/-- The sum of two floats has the value that the sum of their values rounds to. -/
theorem HasValue.add {x y : Float} {a b : ℚ} (hx : HasValue x a) (hy : HasValue y b)
    (h : a + b < limit) : ∃ v, HasValue (x + y) v ∧ RoundsTo (a + b) v := by
  rcases hx.zero_or_pos with ⟨rfl, rfl⟩ | ⟨m, e, hmpos, hm, he, rfl, rfl⟩
  · rw [hy.zero_add_eq, zero_add]
    exact ⟨b, hy, hy.roundsTo⟩
  rcases hy.zero_or_pos with ⟨rfl, rfl⟩ | ⟨k, t, hkpos, hk, ht, rfl, rfl⟩
  · rw [hx.add_zero_eq, add_zero]
    exact ⟨_, hx, hx.roundsTo⟩
  -- The digits of both are placed alike and added.
  obtain ⟨sum, hsum⟩ : ∃ sum, m <<< (e - min e t).toNat + k <<< (t - min e t).toNat = sum :=
    ⟨_, rfl⟩
  have hpos : 0 < sum := by
    rw [← hsum]
    exact Nat.add_pos_left (Nat.shiftLeft_pos_iff.mpr hmpos) _
  have hround : UnpackedFloat.add Format.binary64 (.finite .positive m e hmpos)
      (.finite .positive k t hkpos) =
        UnpackedFloat.round Format.binary64 .positive sum (min e t) := by
    rw [← normalize_of_pos hpos, ← hsum]
    push_cast
    rfl
  have hvalue : (sum : ℚ) * 2 ^ min e t = m * 2 ^ e + k * 2 ^ t := by
    rw [← hsum, Nat.cast_add, add_mul, shiftLeft_mul_zpow (min_le_left e t),
      shiftLeft_mul_zpow (min_le_right e t)]
  obtain ⟨m', e', hresult, hnearest⟩ := exists_nearest_round .positive hpos (min e t)
  rw [hvalue] at hnearest
  rw [add_eq, unpack_floatOf_of_pos hm hmpos he, unpack_floatOf_of_pos hk hkpos ht, hround, hresult]
  exact hnearest.exists_hasValue h

/-- The product of two mantissas has enough digits, unless both have the least exponent. -/
theorem Canonical.le_log2_mul {m k : ℕ} {e t : ℤ} (hm : Canonical m e) (hk : Canonical k t)
    (hmpos : 0 < m) (hkpos : 0 < k) : 52 ≤ (m * k).log2 ∨ e + t ≤ -1074 := by
  rw [Nat.le_log2 (Nat.mul_pos hmpos hkpos).ne']
  rcases hm.normal with hm' | rfl
  · exact .inl (hm'.trans (Nat.le_mul_of_pos_right m hkpos))
  · rcases hk.normal with hk' | rfl
    · exact .inl (hk'.trans (Nat.le_mul_of_pos_left k hmpos))
    · exact .inr (by decide)

/-- The product of two floats has the value that the product of their values rounds to. -/
theorem HasValue.mul {x y : Float} {a b : ℚ} (hx : HasValue x a) (hy : HasValue y b)
    (h : a * b < limit) : ∃ v, HasValue (x * y) v ∧ RoundsTo (a * b) v := by
  rcases hx.zero_or_pos with ⟨rfl, rfl⟩ | ⟨m, e, hmpos, hm, he, rfl, rfl⟩
  · rw [hy.zero_mul_eq, zero_mul]
    exact ⟨0, hx, hx.roundsTo⟩
  rcases hy.zero_or_pos with ⟨rfl, rfl⟩ | ⟨k, t, hkpos, hk, ht, rfl, rfl⟩
  · rw [hx.mul_zero_eq, mul_zero]
    exact ⟨0, hy, hy.roundsTo⟩
  obtain ⟨m', e', hresult, hnearest⟩ :=
    exists_nearest .positive (standsFor_exact (m * k)) (hm.le_log2_mul hk hmpos hkpos)
  have hround : UnpackedFloat.mul Format.binary64 (.finite .positive m e hmpos)
      (.finite .positive k t hkpos) = unpacked .positive m' e' := by
    rw [← hresult]
    rfl
  have hvalue : ((m * k : ℕ) : ℚ) * 2 ^ (e + t) = m * 2 ^ e * (k * 2 ^ t) := by
    rw [zpow_add₀ two_ne_zero]
    push_cast
    ring
  rw [hvalue] at hnearest
  rw [mul_eq, unpack_floatOf_of_pos hm hmpos he, unpack_floatOf_of_pos hk hkpos ht, hround]
  exact hnearest.exists_hasValue h

/-- What follows the whole part is compared with one half. -/
theorem standsFor_inexact (m : ℕ) {f : ℚ} (hpos : 0 < f) (hone : f < 1) {o : Ordering}
    (hlt : o = .lt ↔ f < 1 / 2) (heq : o = .eq ↔ f = 1 / 2) :
    StandsFor (.ofMantissaAndAccuracy m (.inexact o)) (m + f) := by
  cases o with
  | lt =>
    have hf : f < 1 / 2 := hlt.mp rfl
    refine ⟨(le_add_iff_nonneg_right _).mpr hpos.le, add_lt_add_right hone _, ?_, ?_⟩
    · exact ⟨(nomatch ·), fun h => absurd (le_of_add_le_add_left h) hf.not_ge⟩
    · exact ⟨fun _ => ⟨(lt_add_of_pos_right _ hpos).ne', (add_lt_add_right hf _).ne⟩, fun _ => rfl⟩
  | eq =>
    have hf : f = 1 / 2 := heq.mp rfl
    refine ⟨(le_add_iff_nonneg_right _).mpr hpos.le, add_lt_add_right hone _, ?_, ?_⟩
    · exact ⟨fun _ => (congrArg _ hf).ge, fun _ => rfl⟩
    · exact ⟨(nomatch ·), fun h => absurd (congrArg _ hf) h.2⟩
  | gt =>
    have hf : 1 / 2 < f := by
      rcases lt_trichotomy f (1 / 2) with h | h | h
      · exact nomatch hlt.mpr h
      · exact nomatch heq.mpr h
      · exact h
    refine ⟨(le_add_iff_nonneg_right _).mpr hpos.le, add_lt_add_right hone _, ?_, ?_⟩
    · exact ⟨fun _ => (add_lt_add_right hf _).le, fun _ => rfl⟩
    · exact ⟨fun _ => ⟨(lt_add_of_pos_right _ hpos).ne', (add_lt_add_right hf _).ne'⟩,
        fun _ => rfl⟩

/-- The whole part of a quotient stands for the quotient with what the remainder tells. -/
theorem standsFor_div (n : ℕ) {d : ℕ} (hd : 0 < d) :
    StandsFor (.ofMantissaAndAccuracy (n / d) (accuracyOfFraction (n % d) d)) (n / d : ℚ) := by
  have hd' : (0 : ℚ) < d := by exact_mod_cast hd
  have hmod : n % d < d := Nat.mod_lt n hd
  have hquotient : (n / d : ℚ) = (n / d : ℕ) + (n % d : ℕ) / d := by
    have hn : (n : ℚ) = d * (n / d : ℕ) + (n % d : ℕ) := by
      exact_mod_cast (Nat.div_add_mod n d).symm
    rw [hn]
    field_simp
  -- What follows the whole part is the share of the remainder, which is compared with one half.
  rw [hquotient, accuracyOfFraction]
  have hone : ((n % d : ℕ) : ℚ) / d < 1 := (div_lt_one hd').mpr (by exact_mod_cast hmod)
  split
  · next hzero =>
    rw [hzero, Nat.cast_zero, zero_div, add_zero]
    exact standsFor_exact _
  · next hne =>
    have hpos : 0 < ((n % d : ℕ) : ℚ) / d :=
      div_pos (by exact_mod_cast Nat.pos_of_ne_zero hne) hd'
    have hf : ((n % d : ℕ) : ℚ) / d < 1 / 2 ↔ 2 * (n % d) < d := by
      rw [div_lt_div_iff₀ hd' two_pos, one_mul, mul_comm]
      exact_mod_cast Iff.rfl
    have hf' : ((n % d : ℕ) : ℚ) / d = 1 / 2 ↔ 2 * (n % d) = d := by
      rw [div_eq_div_iff hd'.ne' two_ne_zero, one_mul, mul_comm]
      exact_mod_cast Iff.rfl
    exact standsFor_inexact _ hpos hone (Nat.compare_eq_lt.trans hf.symm)
      (Nat.compare_eq_eq.trans hf'.symm)

/-- The quotient of two mantissas has enough digits once the dividend has been moved to the left, as
    far as the target of the quotient's exponent demands. -/
theorem le_log2_div {m k : ℕ} {e t s : ℤ} (hm : 0 < m) (hk : 0 < k)
    (hs : min (e - t) (Format.binary64.targetExponent
      (totalExponent m e - totalExponent k t)) = s) :
    52 ≤ (m <<< (e - t - s).toNat / k).log2 ∨ s ≤ -1074 := by
  refine or_iff_not_imp_right.mpr fun hleast => ?_
  obtain ⟨n, hn⟩ : ∃ n, m <<< (e - t - s).toNat = n := ⟨_, rfl⟩
  rw [hn]
  have hlog : n.log2 = m.log2 + (e - t - s).toNat := by rw [← hn, log2_shiftLeft hm]
  have hpos : 0 < n := hn ▸ Nat.shiftLeft_pos_iff.mpr hm
  have hdigits : k.log2 + 53 ≤ n.log2 := by
    simp only [Format.targetExponent, totalExponent, Format.mantissaBits, Format.minExponent] at hs
    norm_num at hs
    omega
  have hquotient : 2 ^ 52 ≤ n / k := by
    rw [Nat.le_div_iff_mul_le hk]
    calc
      2 ^ 52 * k ≤ 2 ^ 52 * 2 ^ (k.log2 + 1) := Nat.mul_le_mul_left _ Nat.lt_log2_self.le
      _ = 2 ^ (k.log2 + 53) := by rw [← pow_add]; congr 1; omega
      _ ≤ 2 ^ n.log2 := Nat.pow_le_pow_right (by decide) hdigits
      _ ≤ n := Nat.log2_self_le hpos.ne'
  exact (Nat.le_log2 (by omega)).mpr hquotient

/-- The quotient of two floats has the value that the quotient of their values rounds to. -/
theorem HasValue.div {x y : Float} {a b : ℚ} (hx : HasValue x a) (hy : HasValue y b) (hb : 0 < b)
    (h : a / b < limit) : ∃ v, HasValue (x / y) v ∧ RoundsTo (a / b) v := by
  rcases hx.zero_or_pos with ⟨rfl, rfl⟩ | ⟨m, e, hmpos, hm, he, rfl, rfl⟩
  · rw [hy.zero_div_eq hb, zero_div]
    exact ⟨0, hx, hx.roundsTo⟩
  rcases hy.zero_or_pos with ⟨-, rfl⟩ | ⟨k, t, hkpos, hk, ht, rfl, rfl⟩
  · exact absurd hb (lt_irrefl _)
  obtain ⟨s, hs⟩ : ∃ s, min (e - t) (Format.binary64.targetExponent
      (totalExponent m e - totalExponent k t)) = s := ⟨_, rfl⟩
  obtain ⟨m', e', hresult, hnearest⟩ :=
    exists_nearest .positive (standsFor_div (m <<< (e - t - s).toNat) hkpos)
      (le_log2_div hmpos hkpos hs)
  have hround : UnpackedFloat.div Format.binary64 (.finite .positive m e hmpos)
      (.finite .positive k t hkpos) = unpacked .positive m' e' := by
    rw [← hresult, ← hs]
    rfl
  have hvalue : ((m <<< (e - t - s).toNat : ℕ) / k : ℚ) * 2 ^ s = m * 2 ^ e / (k * 2 ^ t) := by
    rw [div_mul_eq_mul_div, shiftLeft_mul_zpow (by omega), zpow_sub₀ two_ne_zero]
    field_simp
  rw [hvalue] at hnearest
  rw [div_eq, unpack_floatOf_of_pos hm hmpos he, unpack_floatOf_of_pos hk hkpos ht, hround]
  exact hnearest.exists_hasValue h

/-! ### Whole numbers -/

/-- A number of few binary digits, with zeros after them, is the value of a float. -/
theorem exists_canonical_of_lt {n : ℕ} (h : n < 2 ^ 53) (i : ℕ) :
    ∃ m e, Canonical m e ∧ (n : ℚ) * 2 ^ i = m * 2 ^ e := by
  rcases Nat.eq_zero_or_pos n with rfl | hpos
  · exact ⟨0, -1074, canonical_zero, by simp⟩
  · have hlog : n.log2 ≤ 52 := Nat.lt_succ_iff.mp ((Nat.log2_lt hpos.ne').mpr h)
    obtain ⟨j, hj⟩ := Nat.exists_eq_add_of_le' hlog
    have hshift : 0 < n <<< j := Nat.shiftLeft_pos_iff.mpr hpos
    have hdigits : (n <<< j).log2 = 52 := by rw [log2_shiftLeft hpos]; omega
    obtain ⟨hlow, hhigh⟩ := (Nat.log2_eq_iff hshift.ne').mp hdigits
    refine ⟨n <<< j, i - j, ⟨hhigh, by omega, .inl hlow⟩, ?_⟩
    rw [Nat.shiftLeft_eq, zpow_sub₀ two_ne_zero, zpow_natCast, zpow_natCast]
    push_cast
    field_simp

/-- A float is exact where this is possible. -/
theorem RoundsTo.eq_of_canonical {q v : ℚ} (h : RoundsTo q v) {m : ℕ} {e : ℤ}
    (hm : Canonical m e) (hq : q = m * 2 ^ e) : v = q := by
  subst hq
  exact h.only m e hm (rounds_self m e)

/-- A number that is the value of a float rounds to nothing but itself. -/
theorem RoundsTo.eq_of_hasValue {q v : ℚ} {x : Float} (h : RoundsTo q v) (hx : HasValue x q) :
    v = q := by
  obtain ⟨m, e, hm, -, -, hq⟩ := hx
  exact h.eq_of_canonical hm hq

/-- A word becomes the float that its number rounds to. -/
theorem hasValue_toFloat (n : UInt64) : ∃ v, HasValue n.toFloat v ∧ RoundsTo n.toNat v := by
  have hfloat : n.toFloat =
      .ofModel (.pack (UnpackedFloat.normalize Format.binary64 n.toNat 0 .positive)) := rfl
  rw [hfloat]
  rcases Nat.eq_zero_or_pos n.toNat with hzero | hpos
  · have hvalue : HasValue (floatOf 0 0) 0 := (floatOf_zero 0).symm ▸ hasValue_zero
    simp only [hzero, Nat.cast_zero]
    exact ⟨0, hvalue, hasValue_zero.roundsTo⟩
  · obtain ⟨m, e, hround, hnearest⟩ := exists_nearest_round .positive hpos 0
    rw [zpow_zero, mul_one] at hnearest
    rw [normalize_of_pos hpos, hround]
    refine hnearest.exists_hasValue ?_
    have hword : (n.toNat : ℚ) < 2 ^ 64 := by exact_mod_cast n.toNat_lt
    exact hword.trans (pow_lt_limit (by decide))

/-- Digits with a power of ten are rounded at once. -/
theorem hasValue_ofScientific {m n : ℕ} (hm : 0 < m) (hn : n ≤ 2048)
    (h : (m : ℚ) * 10 ^ n < limit) :
    ∃ v, HasValue (.ofModel (.ofScientific m n)) v ∧ RoundsTo (m * 10 ^ n) v := by
  have hpow : 0 < 10 ^ n := by positivity
  -- Moved by 53 digits, even the number one has enough of them.
  have hshift : 0 < m <<< 53 := Nat.shiftLeft_pos_iff.mpr hm
  have hscientific : UnpackedFloat.ofScientific Format.binary64 m n =
      roundWithAccuracy Format.binary64 .positive (m <<< 53 * 10 ^ n) (-53) .exact := by
    rw [UnpackedFloat.ofScientific, dif_neg hm.ne', if_neg (by norm_num; omega),
      if_neg (by norm_num; omega), if_pos (by omega)]
    rfl
  have hfit : 52 ≤ (m <<< 53 * 10 ^ n).log2 ∨ (-53 : ℤ) ≤ -1074 := by
    refine .inl ((Nat.le_log2 (Nat.mul_pos hshift hpow).ne').mpr ?_)
    calc
      2 ^ 52 ≤ m * 2 ^ 53 := by omega
      _ = m <<< 53 := (Nat.shiftLeft_eq m 53).symm
      _ ≤ m <<< 53 * 10 ^ n := Nat.le_mul_of_pos_right _ hpow
  obtain ⟨m', e', hround, hnearest⟩ := exists_nearest .positive (standsFor_exact _) hfit
  have hvalue : ((m <<< 53 * 10 ^ n : ℕ) : ℚ) * 2 ^ (-53 : ℤ) = m * 10 ^ n := by
    rw [Nat.shiftLeft_eq, zpow_neg, show (2 : ℚ) ^ (53 : ℤ) = 2 ^ 53 from zpow_natCast 2 53]
    push_cast
    field_simp
    norm_num
  rw [hvalue] at hnearest
  have hfloat : Float.ofModel (.ofScientific m n) =
      .ofModel (.pack (UnpackedFloat.ofScientific Format.binary64 m n)) := rfl
  rw [hfloat, hscientific, hround]
  exact hnearest.exists_hasValue h

theorem hasValue_one : HasValue 1 1 :=
  ⟨2 ^ 52, -52, ⟨by decide, by decide, .inl le_rfl⟩, by decide, by decide +kernel, by norm_num⟩

/-- Multiplying by one changes nothing. -/
theorem HasValue.mul_one_eq {x : Float} {v : ℚ} (h : HasValue x v) (hv : v < limit) :
    x * 1 = x := by
  obtain ⟨w, hw, hrounds⟩ := h.mul hasValue_one (by rwa [mul_one v])
  obtain ⟨m, e, hm, he, rfl, rfl⟩ := h
  rw [mul_one] at hrounds
  obtain rfl := hrounds.eq_of_canonical hm rfl
  exact hw.unique ⟨m, e, hm, he, rfl, rfl⟩

/-- A whole number of 53 digits is a float. -/
theorem hasValue_ofNat_of_lt {n : ℕ} (h : n < 2 ^ 53) : HasValue (Float.ofNat n) n := by
  have hword : n.toUInt64.toNat = n := by
    show n % 2 ^ 64 = n
    omega
  have hfloat : Float.ofNat n = n.toUInt64.toFloat * 1 := by
    show Float.ofScientific n false 0 = _
    rw [Float.ofScientific, dif_pos ⟨h, by decide⟩]
    have hfirst : Float.exactlyRepresentablePowersOfTen[0] = 1 := by decide +kernel
    rw [hfirst]
    rfl
  obtain ⟨v, hv, hrounds⟩ := hasValue_toFloat n.toUInt64
  rw [hword] at hrounds
  obtain ⟨m, e, hm, hq⟩ := exists_canonical_of_lt h 0
  rw [pow_zero, mul_one] at hq
  obtain rfl := hrounds.eq_of_canonical hm hq
  have hlimit : (n : ℚ) < limit := calc
    (n : ℚ) < 2 ^ 53 := by exact_mod_cast h
    _ < limit := pow_lt_limit (by decide)
  rwa [hfloat, hv.mul_one_eq hlimit]

/-- A whole number that is not too great is rounded to a float. -/
theorem hasValue_ofNat {n : ℕ} (h : (n : ℚ) < limit) :
    ∃ v, HasValue (Float.ofNat n) v ∧ RoundsTo n v := by
  by_cases hn : n < 2 ^ 53
  · exact ⟨n, hasValue_ofNat_of_lt hn, (hasValue_ofNat_of_lt hn).roundsTo⟩
  · have hfloat : Float.ofNat n = .ofModel (.ofScientific n 0) := by
      show Float.ofScientific n false 0 = _
      rw [Float.ofScientific, dif_neg (fun h => hn h.1)]
      rfl
    have hround := hasValue_ofScientific (m := n) (n := 0) (by omega) (by decide)
      (by rwa [pow_zero, mul_one])
    rwa [pow_zero, mul_one, Nat.cast_zero, ← hfloat] at hround

/-- The powers of ten up to the greatest that has a float are below the limit. -/
theorem ten_pow_lt_limit {n : ℕ} (h : n ≤ 308) : (10 : ℚ) ^ n < limit := by
  have hgreatest : 10 ^ 308 < 3 * 2 ^ 1022 := by decide +kernel
  calc
    (10 : ℚ) ^ n ≤ 10 ^ 308 := pow_le_pow_right₀ (by norm_num) h
    _ = (10 ^ 308 : ℕ) := (Nat.cast_pow 10 308).symm
    _ < (3 * 2 ^ 1022 : ℕ) := Nat.cast_lt.mpr hgreatest
    _ = limit := by rw [Nat.cast_mul, Nat.cast_pow]; rfl

/-- Powers of ten with an exponent up to 22 are floats. -/
theorem RoundsTo.eq_ten_pow {n : ℕ} {p : ℚ} (h : RoundsTo (10 ^ n) p) (hn : n ≤ 22) :
    p = 10 ^ n := by
  have hfive : 5 ^ n < 2 ^ 53 := calc
    5 ^ n ≤ 5 ^ 22 := Nat.pow_le_pow_right (by decide) hn
    _ < 2 ^ 53 := by decide
  obtain ⟨m, e, hm, hq⟩ := exists_canonical_of_lt hfive n
  refine h.eq_of_canonical hm ?_
  rw [← hq, Nat.cast_pow, ← mul_pow]
  norm_num

end Dice.Binary
