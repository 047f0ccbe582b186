import Dice.Proofs.Binary.Operations

namespace Dice.Binary

open Float.Model Float.Model.UnpackedFloat

/-!
# The order of floats

Floats are compared by their sign, then by their exponent, then by their mantissa.  So all floats
but those that are not a number have a rank in one linear order, in which only the two zeros are at
the same place.  As mantissas have all their digits, the rank of a float that is not negative goes
with its value.

* `rank`, `lt_iff_rank`, `le_iff_rank` — the place of a float in the order.
* `HasValue.lt_iff` — the order of the values.
* `HasSize`, `exists_hasSize` — the values of all finite floats that are not below zero.
-/

/-! ### Ranks -/

/-- The place of an unpacked float in the order: first its sign, with the infinite floats outside of
    the finite ones, then its exponent, then its mantissa.  What is not a number has no place and is
    put at zero. -/
def place : UnpackedFloat → ℤ ×ₗ ℤ ×ₗ ℤ
  | .infinity .negative => toLex (-2, toLex (0, 0))
  | .finite .negative m e _ => toLex (-1, toLex (-e, -m))
  | .zero _ | .notANumber => toLex (0, toLex (0, 0))
  | .finite .positive m e _ => toLex (1, toLex (e, m))
  | .infinity .positive => toLex (2, toLex (0, 0))

/-- The place of a float in the order. -/
def rank (x : Float) : ℤ ×ₗ ℤ ×ₗ ℤ := place x.toModel.unpack

/-- Natural numbers compare as whole numbers do. -/
theorem compare_natCast (m k : ℕ) : compare (m : ℤ) k = compare m k := by
  rw [← cmp_eq_compare, ← cmp_eq_compare, Nat.strictMono_cast.cmp_map_eq]

/-- Signs turn the order around. -/
theorem compare_neg (a b : ℤ) : compare (-a) (-b) = (compare a b).swap := by
  have hanti : StrictAnti fun a : ℤ => -a := fun _ _ h => neg_lt_neg h
  rw [Int.compare_swap, ← cmp_eq_compare, ← cmp_eq_compare]
  exact hanti.cmp_map_eq a b

/-- Unpacked floats compare as their places do. -/
theorem compare_eq {x y : UnpackedFloat} (hx : x ≠ .notANumber) (hy : y ≠ .notANumber) :
    x.compare y = some (compare (place x) (place y)) := by
  -- Exponents and mantissas count only for two finite floats with the same sign.
  rcases x with (_ | _) | _ | _ | ⟨_ | _, m, e, hm⟩ <;>
    rcases y with (_ | _) | _ | _ | ⟨_ | _, k, t, hk⟩ <;>
    try first | rfl | exact absurd rfl hx | exact absurd rfl hy
  · show some ((compare e t).then (compare m k)).swap =
      some ((compare (-e) (-t)).then (compare (-(m : ℤ)) (-(k : ℤ))))
    rw [compare_neg, compare_neg, compare_natCast, Ordering.swap_then]
  · show some ((compare e t).then (compare m k)) =
      some ((compare e t).then (compare (m : ℤ) (k : ℤ)))
    rw [compare_natCast]

section Numbers

variable {x y : Float} (hx : x.isNaN = false) (hy : y.isNaN = false)

/-- A float that is a number is unpacked to one. -/
theorem unpack_ne_notANumber {x : Float} (hx : x.isNaN = false) :
    x.toModel.unpack ≠ .notANumber := by
  intro hunpack
  have hnan : x.isNaN = x.toModel.unpack.isNaN := rfl
  rw [hnan, hunpack] at hx
  cases hx

include hx hy

/-- Floats are less where they have a lower rank. -/
theorem lt_iff_rank : x < y ↔ rank x < rank y := by
  have hlt : x < y ↔ (x.toModel.unpack.compare y.toModel.unpack == some .lt) = true :=
    decide_eq_true_iff
  rw [hlt, compare_eq (unpack_ne_notANumber hx) (unpack_ne_notANumber hy), beq_iff_eq,
    Option.some_inj, compare_lt_iff_lt]
  rfl

/-- Numbers are ordered as their ranks are. -/
theorem le_iff_rank : x ≤ y ↔ rank x ≤ rank y := by
  have hle : x ≤ y ↔ (x.toModel.unpack.compare y.toModel.unpack).any (·.isLE) = true :=
    decide_eq_true_iff
  rw [hle, compare_eq (unpack_ne_notANumber hx) (unpack_ne_notANumber hy), Option.any_some,
    Ordering.isLE_iff_ne_gt]
  exact compare_le_iff_le

/-- Of two numbers one is below the other or no less than it. -/
theorem not_le_iff_lt : ¬ y ≤ x ↔ x < y := by
  rw [le_iff_rank hy hx, lt_iff_rank hx hy, not_le]

/-- Of two numbers one is at most the other unless it is above it. -/
theorem not_lt_iff_le : ¬ y < x ↔ x ≤ y := by
  rw [lt_iff_rank hy hx, le_iff_rank hx hy, not_lt]

end Numbers

/-! ### Zero -/

theorem isNaN_zero : (0 : Float).isNaN = false := by decide +kernel

theorem rank_zero : rank 0 = toLex (0, toLex (0, 0)) := by rw [rank, unpack_zero]; rfl

/-- Floats are determined by what they are unpacked to. -/
theorem eq_of_unpack_eq {x y : Float} (h : x.toModel.unpack = y.toModel.unpack) : x = y := by
  obtain ⟨⟨⟨b⟩, hb⟩⟩ := x
  obtain ⟨⟨⟨c⟩, hc⟩⟩ := y
  obtain rfl : b = c := (UnpackedFloat.unpack_inj_of_valid hb hc (by decide)).mp h
  rfl

/-! ### Values -/

/-- Unpacked mantissas have all their digits. -/
theorem canonical_of_unpack {b : BitVec Format.binary64.numBits} {s : Sign} {m : ℕ} {e : ℤ}
    {hpos : 0 < m} (h : UnpackedFloat.unpack Format.binary64 b = .finite s m e hpos) :
    Canonical m e ∧ e ≤ 971 := by
  have hmantissa : (unpackMantissa b).toNat < 2 ^ 52 := (unpackMantissa b).isLt
  have hexponent : (unpackExponent b).toNat < 2 ^ 11 := (unpackExponent b).isLt
  have hbias : (Format.binary64.exponentBias : ℤ) = 1023 := rfl
  unfold UnpackedFloat.unpack at h
  simp only [hbias] at h
  split at h
  · split at h <;> cases h
  · next hgreatest =>
    split at h
    · next hzero =>
      split at h
      · cases h
      · -- With the least exponent nothing is put in front of the mantissa.
        injection h with _ hm he
        rw [hzero] at he
        obtain rfl : -1074 = e := he
        exact ⟨⟨by omega, le_rfl, .inr rfl⟩, by decide⟩
    · next hnonzero =>
      injection h with _ hm he
      rw [BitVec.toNat_append, ← Nat.shiftLeft_add_eq_or_of_lt hmantissa] at hm
      have hleading : 2 ^ 52 + (unpackMantissa b).toNat = m := hm
      have hlow : (unpackExponent b).toNat ≠ 0 := fun hlow => hnonzero (BitVec.eq_of_toNat_eq hlow)
      have hhigh : (unpackExponent b).toNat ≠ 2047 := fun hhigh =>
        hgreatest (BitVec.eq_of_toNat_eq hhigh)
      exact ⟨⟨by omega, by omega, .inl (by omega)⟩, by omega⟩

/-- What is finite is a number. -/
theorem isNaN_of_isFinite {x : Float} (h : x.isFinite = true) : x.isNaN = false := by
  have hfinite : x.toModel.unpack.isFinite = true := h
  show x.toModel.unpack.isNaN = false
  cases hx : x.toModel.unpack with
  | notANumber => rw [hx] at hfinite; cases hfinite
  | infinity | zero | finite => rfl

/-- What has a value is a number. -/
theorem HasValue.isNaN_eq {x : Float} {a : ℚ} (h : HasValue x a) : x.isNaN = false := by
  obtain ⟨rfl, -⟩ | ⟨m, e, hpos, hm, he, rfl, -⟩ := h.zero_or_pos
  · exact isNaN_zero
  · show (floatOf m e).toModel.unpack.isNaN = false
    rw [unpack_floatOf_of_pos hm hpos he]
    rfl

/-- Mantissas with a lower exponent make lesser values. -/
theorem Canonical.lt_of_exponent_lt {m k : ℕ} {e t : ℤ} (hm : Canonical m e) (hk : Canonical k t)
    (h : e < t) : (m : ℚ) * 2 ^ e < k * 2 ^ t := by
  have hnormal : 2 ^ 52 ≤ k := hk.normal.resolve_right (by have := hm.exponent; omega)
  have hk' : (2 : ℚ) ^ 52 ≤ k := by exact_mod_cast hnormal
  have hm' : (m : ℚ) < 2 ^ 53 := by exact_mod_cast hm.digits
  have hunit : (0 : ℚ) < 2 ^ e := by positivity
  calc
    (m : ℚ) * 2 ^ e < 2 ^ 53 * 2 ^ e := mul_lt_mul_of_pos_right hm' hunit
    _ = 2 ^ 52 * (2 ^ e * 2) := by ring
    _ ≤ k * 2 ^ t := mul_le_mul hk' (two_zpow_mul_two_le h) (by positivity) (by positivity)

section Order

variable {x y : Float} {a b : ℚ} (hx : HasValue x a) (hy : HasValue y b)

include hx hy

/-- Floats with lesser values have a lower rank. -/
theorem HasValue.rank_lt (h : a < b) : rank x < rank y := by
  rcases hx.zero_or_pos with ⟨rfl, rfl⟩ | ⟨m, e, hmpos, hm, he, rfl, rfl⟩ <;>
    rcases hy.zero_or_pos with ⟨rfl, rfl⟩ | ⟨k, t, hkpos, hk, ht, rfl, rfl⟩
  · exact absurd h (lt_irrefl _)
  · rw [rank_zero, rank, unpack_floatOf_of_pos hk hkpos ht]
    exact Prod.Lex.toLex_lt_toLex.mpr (.inl zero_lt_one)
  · exact absurd h (by positivity : (0 : ℚ) ≤ m * 2 ^ e).not_gt
  · rw [rank, rank, unpack_floatOf_of_pos hm hmpos he, unpack_floatOf_of_pos hk hkpos ht]
    refine Prod.Lex.toLex_lt_toLex.mpr (.inr ⟨rfl, Prod.Lex.toLex_lt_toLex.mpr ?_⟩)
    rcases lt_trichotomy e t with hexponent | rfl | hexponent
    · exact .inl hexponent
    · have hmantissa : (m : ℚ) < k := lt_of_mul_lt_mul_right h (by positivity)
      have hmantissa' : (m : ℤ) < k := by exact_mod_cast hmantissa
      exact .inr ⟨rfl, hmantissa'⟩
    · exact absurd h (hk.lt_of_exponent_lt hm hexponent).not_gt

/-- Ranks go with values. -/
theorem HasValue.rank_lt_iff : rank x < rank y ↔ a < b := by
  refine ⟨fun hrank => ?_, hx.rank_lt hy⟩
  rcases lt_trichotomy a b with h | rfl | h
  · exact h
  · exact absurd hrank (hx.unique hy ▸ lt_irrefl _)
  · exact absurd hrank (hy.rank_lt hx h).not_gt

/-- Floats are ordered as their values are. -/
theorem HasValue.lt_iff : x < y ↔ a < b := by
  rw [lt_iff_rank hx.isNaN_eq hy.isNaN_eq, hx.rank_lt_iff hy]

end Order

/-- A float has one value. -/
theorem HasValue.value_unique {x : Float} {a b : ℚ} (ha : HasValue x a) (hb : HasValue x b) :
    a = b :=
  le_antisymm (not_lt.mp fun h => lt_irrefl _ (hb.rank_lt ha h))
    (not_lt.mp fun h => lt_irrefl _ (ha.rank_lt hb h))

/-! ### Zeros of either sign -/

/-- The value of a float that is not below zero, where zero may have either sign. -/
def HasSize (x : Float) (a : ℚ) : Prop := HasValue x a ∨ x = -0.0 ∧ a = 0

theorem unpack_negZero : (-0.0 : Float).toModel.unpack = .zero .negative := by
  have hzero : (-0.0 : Float) = .ofModel (.pack (.zero .negative)) := by decide +kernel
  rw [hzero]
  exact unpack_packComponents .negative 0#52 (by decide)

/-- Zeros of either sign have the same rank. -/
theorem rank_negZero : rank (-0.0) = rank 0 := by
  rw [rank_zero, rank, unpack_negZero]
  rfl

/-- Every finite float that is not below zero has a value in this sense. -/
theorem exists_hasSize {x : Float} (h : x.isFinite = true) (hnonneg : 0 ≤ x) :
    ∃ a, HasSize x a := by
  have hfinite : x.toModel.unpack.isFinite = true := h
  rw [le_iff_rank isNaN_zero (isNaN_of_isFinite h), rank_zero, rank] at hnonneg
  rcases hx : x.toModel.unpack with _ | _ | (_ | _) | ⟨_ | _, m, e, hm⟩ <;>
    rw [hx] at hfinite hnonneg
  · cases hfinite
  · cases hfinite
  · exact ⟨0, .inr ⟨eq_of_unpack_eq (hx.trans unpack_negZero.symm), rfl⟩⟩
  · have hzero : x = 0 := eq_of_unpack_eq (hx.trans unpack_zero.symm)
    exact ⟨0, .inl (hzero ▸ hasValue_zero)⟩
  · exact absurd hnonneg (by simp [place, Prod.Lex.toLex_le_toLex])
  · obtain ⟨hcanonical, he⟩ := canonical_of_unpack hx
    refine ⟨_, .inl ⟨m, e, hcanonical, he, eq_of_unpack_eq ?_, rfl⟩⟩
    rw [hx, unpack_floatOf_of_pos hcanonical hm he]

namespace HasSize

variable {x y : Float} {a b : ℚ}

/-- In the order there is no difference between the two zeros. -/
theorem exists_hasValue (h : HasSize x a) :
    x.isNaN = false ∧ ∃ y, HasValue y a ∧ rank x = rank y := by
  rcases h with h | ⟨rfl, rfl⟩
  · exact ⟨h.isNaN_eq, x, h, rfl⟩
  · exact ⟨by decide +kernel, 0, hasValue_zero, rank_negZero⟩

/-- Sizes are not negative. -/
theorem nonneg (h : HasSize x a) : 0 ≤ a := by
  rcases h with h | ⟨-, rfl⟩
  · exact h.nonneg
  · exact le_rfl

/-- Floats are ordered as their sizes are. -/
theorem lt_iff (hx : HasSize x a) (hy : HasSize y b) : x < y ↔ a < b := by
  obtain ⟨hxnan, x', hx', hxrank⟩ := hx.exists_hasValue
  obtain ⟨hynan, y', hy', hyrank⟩ := hy.exists_hasValue
  rw [lt_iff_rank hxnan hynan, hxrank, hyrank, hx'.rank_lt_iff hy']

/-- Floats are at most as great as others if their sizes are. -/
theorem le_iff (hx : HasSize x a) (hy : HasSize y b) : x ≤ y ↔ a ≤ b := by
  rw [← not_lt_iff_le hx.exists_hasValue.1 hy.exists_hasValue.1, hy.lt_iff hx, not_lt]

/-- Above zero it is the value of the float itself. -/
theorem hasValue (h : HasSize x a) (hpos : 0 < x) : HasValue x a := by
  have ha : 0 < a := (lt_iff (.inl hasValue_zero) h).mp hpos
  exact h.resolve_right fun hzero => ha.ne' hzero.2

end HasSize

end Dice.Binary
