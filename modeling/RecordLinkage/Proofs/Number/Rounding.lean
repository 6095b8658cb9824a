import Mathlib.Algebra.Order.Field.Power
import Mathlib.Data.Rat.Cast.Order
import Mathlib.Tactic.FieldSimp
import Mathlib.Tactic.Linarith
import Mathlib.Tactic.Positivity
import Mathlib.Tactic.Ring
import RecordLinkage.Number.Double

/-!
# How far rounding goes

The double nearest to a quotient has a mantissa of 53 bits and is off by half a unit at most. Such
a double exists as long as the quotient stays below `overflow`, which is half a unit past the
greatest double. For the product of two rounded numbers both errors count, and so the numbers that
can be scaled by a power of ten without becoming infinite end a little earlier, at `safe`.
-/

namespace RecordLinkage.Number

variable {num den : ℕ}

theorem roundDiv_mul_le (num den : ℕ) : 2 * (roundDiv num den * den) ≤ 2 * num + den := by
  have hdiv := Nat.div_add_mod' num den
  simp only [roundDiv]
  split_ifs <;> (try rw [Nat.add_mul, Nat.one_mul]) <;> omega

theorem le_roundDiv_mul (num : ℕ) (hden : 0 < den) :
    2 * num ≤ 2 * (roundDiv num den * den) + den := by
  have hdiv := Nat.div_add_mod' num den
  have hmod := Nat.mod_lt num hden
  simp only [roundDiv]
  split_ifs <;> (try rw [Nat.add_mul, Nat.one_mul]) <;> omega

namespace Double

/-- The magnitude of a double as a rational number. -/
def magnitude (d : Double) : ℚ := d.mantissa * (2 : ℚ) ^ d.exponent

/-- A double whose magnitude is that of a binary64 number. -/
structure InRange (d : Double) : Prop where
  mantissa_lt : d.mantissa < 2 ^ 53
  le_exponent : leastExponent ≤ d.exponent
  exponent_le : d.exponent ≤ greatestExponent

/-- The numbers from here on round to an infinite one. -/
def overflow : ℚ := (2 ^ 54 - 1) * (2 : ℚ) ^ (970 : ℤ)

/-! ## The parts of a quotient -/

/-- A whole number as a quotient of two by a power of two. -/
theorem two_zpow_eq (e : ℤ) : (2 : ℚ) ^ e = (2 ^ e.toNat : ℕ) / (2 ^ (-e).toNat : ℕ) := by
  push_cast
  rw [← zpow_natCast, ← zpow_natCast, ← zpow_sub₀ two_ne_zero]
  congr 1
  omega

theorem denominator_pos (d : Double) : 0 < d.denominator := Nat.pow_pos (by decide)

theorem numerator_eq (d : Double) : d.numerator = d.mantissa * 2 ^ d.exponent.toNat := rfl

theorem magnitude_eq (d : Double) : d.magnitude = d.numerator / d.denominator := by
  rw [magnitude, two_zpow_eq, numerator_eq, Nat.cast_mul, ← mul_div_assoc]
  rfl

/-! ## The exponent of a quotient -/

/-- The quotient in units of `2 ^ e`, as a quotient of whole numbers again. -/
def scaledBy (num den : ℕ) (e : ℤ) : ℕ × ℕ :=
  (num * Nat.pow 2 (-e).toNat, den * Nat.pow 2 e.toNat)

theorem snd_scaledBy_pos (hden : 0 < den) (num : ℕ) (e : ℤ) : 0 < (scaledBy num den e).2 :=
  Nat.mul_pos hden (Nat.pow_pos (by decide))

theorem scaledBy_eq (num den : ℕ) (e : ℤ) :
    ((scaledBy num den e).1 : ℚ) / (scaledBy num den e).2 = num / den / (2 : ℚ) ^ e := by
  rw [two_zpow_eq, scaledBy, ← Nat.pow_eq, ← Nat.pow_eq]
  push_cast
  field_simp

theorem scaledBy_div_lt_iff (hden : 0 < den) (e : ℤ) (k : ℕ) :
    (scaledBy num den e).1 / (scaledBy num den e).2 < k ↔ (num : ℚ) / den < k * (2 : ℚ) ^ e := by
  have hpos : (0 : ℚ) < (scaledBy num den e).2 := by exact_mod_cast snd_scaledBy_pos hden num e
  have hscaled : (num : ℚ) / den < k * (2 : ℚ) ^ e
      ↔ ((scaledBy num den e).1 : ℚ) / (scaledBy num den e).2 < k := by
    rw [scaledBy_eq, div_lt_iff₀ (zpow_pos two_pos e)]
  rw [hscaled, div_lt_iff₀ hpos, Nat.div_lt_iff_lt_mul (snd_scaledBy_pos hden num e)]
  exact_mod_cast Iff.rfl

/-- An exponent for a quotient: the mantissa has 53 bits at most, and it has fewer only where the
exponent cannot be less. -/
structure Suits (num den : ℕ) (e : ℤ) : Prop where
  le_exponent : leastExponent ≤ e
  div_lt : (scaledBy num den e).1 / (scaledBy num den e).2 < 2 ^ 53
  le_div : e ≠ leastExponent → 0 < den → 2 ^ 52 * (2 : ℚ) ^ e ≤ num / den

theorem two_zpow_log2_le (hnum : num ≠ 0) : (2 : ℚ) ^ (num.log2 : ℤ) ≤ num := by
  rw [zpow_natCast]
  exact_mod_cast Nat.log2_self_le hnum

theorem lt_two_zpow_log2 (num : ℕ) : (num : ℚ) < (2 : ℚ) ^ (num.log2 + 1 : ℤ) := by
  have h : num < 2 ^ (num.log2 + 1) := Nat.lt_log2_self
  rw [← Nat.cast_add_one, zpow_natCast]
  exact_mod_cast h

/-- The numbers of binary digits tell a quotient up to a factor of four. -/
theorem ratio_bounds (hnum : num ≠ 0) (hden : 0 < den) :
    (2 : ℚ) ^ (num.log2 - den.log2 - 1 : ℤ) ≤ num / den ∧
      (num : ℚ) / den < (2 : ℚ) ^ (num.log2 - den.log2 + 1 : ℤ) := by
  have hpos : (0 : ℚ) < den := by exact_mod_cast hden
  constructor
  · rw [le_div_iff₀ hpos]
    calc (2 : ℚ) ^ (num.log2 - den.log2 - 1 : ℤ) * den
        ≤ (2 : ℚ) ^ (num.log2 - den.log2 - 1 : ℤ) * (2 : ℚ) ^ (den.log2 + 1 : ℤ) := by
          gcongr
          exact (lt_two_zpow_log2 den).le
      _ = (2 : ℚ) ^ (num.log2 : ℤ) := by
          rw [← zpow_add₀ two_ne_zero]
          congr 1
          ring
      _ ≤ num := two_zpow_log2_le hnum
  · rw [div_lt_iff₀ hpos]
    calc (num : ℚ) < (2 : ℚ) ^ (num.log2 + 1 : ℤ) := lt_two_zpow_log2 num
      _ = (2 : ℚ) ^ (num.log2 - den.log2 + 1 : ℤ) * (2 : ℚ) ^ (den.log2 : ℤ) := by
          rw [← zpow_add₀ two_ne_zero]
          congr 1
          ring
      _ ≤ (2 : ℚ) ^ (num.log2 - den.log2 + 1 : ℤ) * den := by
          gcongr
          exact two_zpow_log2_le hden.ne'

/-- Of the exponent that is guessed and the next one, the right one is taken. -/
theorem suits_guess (hnum : num ≠ 0) {low : ℤ}
    (hlow : low = max (num.log2 - den.log2 - 53 : ℤ) leastExponent) :
    Suits num den
      (if (scaledBy num den low).1 / (scaledBy num den low).2 < 2 ^ 53 then low else low + 1) := by
  have hleast : leastExponent ≤ low := hlow ▸ le_max_right _ _
  have hguess : (num.log2 - den.log2 - 53 : ℤ) ≤ low := hlow ▸ le_max_left _ _
  split_ifs with hlt
  · -- The guess is right. Unless it is the least exponent, it has not been raised.
    refine ⟨hleast, hlt, fun hne hden ↦ ?_⟩
    have hlow : low = num.log2 - den.log2 - 53 := by omega
    calc (2 : ℚ) ^ 52 * (2 : ℚ) ^ low = (2 : ℚ) ^ (num.log2 - den.log2 - 1 : ℤ) := by
          rw [← zpow_natCast, ← zpow_add₀ two_ne_zero, hlow]
          congr 1
          push_cast
          ring
      _ ≤ num / den := (ratio_bounds hnum hden).1
  · rcases Nat.eq_zero_or_pos den with rfl | hden
    · simp [scaledBy] at hlt
    -- The mantissa has a bit too many, and the next exponent takes it away.
    rw [scaledBy_div_lt_iff hden, not_lt] at hlt
    have hdouble : (2 : ℚ) ^ (low + 1) = 2 * (2 : ℚ) ^ low := by
      rw [zpow_add₀ two_ne_zero, zpow_one, mul_comm]
    push_cast at hlt
    refine ⟨by omega, (scaledBy_div_lt_iff hden _ _).mpr ?_, fun _ _ ↦ ?_⟩
    · calc (num : ℚ) / den < (2 : ℚ) ^ (num.log2 - den.log2 + 1 : ℤ) := (ratio_bounds hnum hden).2
        _ ≤ (2 : ℚ) ^ (54 + low) := zpow_le_zpow_right₀ one_le_two (by omega)
        _ = (2 ^ 53 : ℕ) * (2 : ℚ) ^ (low + 1) := by
            rw [zpow_add₀ two_ne_zero, hdouble]
            norm_num
            ring
    · rw [hdouble]
      linarith

/-- A mantissa that has become too long moves on to the next exponent. -/
def carried (q : ℕ) (e : ℤ) : ℕ × ℤ := if q = 2 ^ 53 then (2 ^ 52, e + 1) else (q, e)

/-- The double of a quotient, written with the exponent that suits. -/
theorem exists_suits (hnum : num ≠ 0) (den : ℕ) : ∃ e q, Suits num den e ∧
    q = roundDiv (scaledBy num den e).1 (scaledBy num den e).2 ∧
    ofRatio num den = if greatestExponent < (carried q e).2 then none
      else some ⟨false, (carried q e).1, (carried q e).2⟩ := by
  refine ⟨_, _, suits_guess hnum rfl, rfl, ?_⟩
  unfold ofRatio
  rw [if_neg hnum]
  rfl

section

variable {q : ℕ} {e : ℤ} {d : Double}

theorem carried_magnitude (q : ℕ) (e : ℤ) :
    ((carried q e).1 : ℚ) * (2 : ℚ) ^ (carried q e).2 = q * (2 : ℚ) ^ e := by
  unfold carried
  split_ifs with hq
  · rw [hq, zpow_add₀ two_ne_zero]
    norm_num
    ring
  · rfl

theorem Suits.carried_lt (h : Suits num den e)
    (hq : q = roundDiv (scaledBy num den e).1 (scaledBy num den e).2) :
    (carried q e).1 < 2 ^ 53 := by
  have hle := roundDiv_le (scaledBy num den e).1 (scaledBy num den e).2
  have hlt := h.div_lt
  unfold carried
  split_ifs with heq
  · norm_num
  · omega

/-- A rounded number is in the range of doubles. -/
theorem inRange_ofRatio (h : ofRatio num den = some d) : d.InRange := by
  rcases eq_or_ne num 0 with rfl | hnum
  · obtain rfl : zero false = d := Option.some.inj h
    exact ⟨by decide, le_refl _, by decide⟩
  obtain ⟨e, q, hsuits, hq, heq⟩ := exists_suits hnum den
  rw [heq] at h
  split_ifs at h with hfinite
  obtain rfl := Option.some.inj h
  refine ⟨hsuits.carried_lt hq, ?_, not_lt.mp hfinite⟩
  have hleast := hsuits.le_exponent
  dsimp only [carried]
  split_ifs
  · exact hleast.trans (Int.le_add_one le_rfl)
  · exact hleast

/-- Rounding to a multiple of a unit is off by half a unit at most. -/
theorem rounded_bounds (hden : 0 < den)
    (hq : q = roundDiv (scaledBy num den e).1 (scaledBy num den e).2) :
    2 * q * (2 : ℚ) ^ e ≤ 2 * (num / den) + (2 : ℚ) ^ e ∧
      2 * ((num : ℚ) / den) ≤ (2 * q + 1) * (2 : ℚ) ^ e := by
  have hpos : (0 : ℚ) < (scaledBy num den e).2 := by exact_mod_cast snd_scaledBy_pos hden num e
  have hunit : (0 : ℚ) < (2 : ℚ) ^ e := zpow_pos two_pos e
  have hvalue : ((scaledBy num den e).1 : ℚ)
      = num / den / (2 : ℚ) ^ e * (scaledBy num den e).2 := by
    rw [← scaledBy_eq, div_mul_cancel₀ _ hpos.ne']
  have hcancel : (num : ℚ) / den / (2 : ℚ) ^ e * (2 : ℚ) ^ e = num / den :=
    div_mul_cancel₀ _ hunit.ne'
  have hupper := roundDiv_mul_le (scaledBy num den e).1 (scaledBy num den e).2
  have hlower := le_roundDiv_mul (scaledBy num den e).1 (snd_scaledBy_pos hden num e)
  rw [← hq] at hupper hlower
  have hupper' : 2 * (q : ℚ) ≤ 2 * (num / den / (2 : ℚ) ^ e) + 1 := by
    refine le_of_mul_le_mul_right ?_ hpos
    have h : 2 * ((q : ℚ) * (scaledBy num den e).2)
        ≤ 2 * (scaledBy num den e).1 + (scaledBy num den e).2 := by exact_mod_cast hupper
    linarith
  have hlower' : 2 * ((num : ℚ) / den / (2 : ℚ) ^ e) ≤ 2 * q + 1 := by
    refine le_of_mul_le_mul_right ?_ hpos
    have h : 2 * ((scaledBy num den e).1 : ℚ)
        ≤ 2 * (q * (scaledBy num den e).2) + (scaledBy num den e).2 := by exact_mod_cast hlower
    linarith
  constructor
  · have h := mul_le_mul_of_nonneg_right hupper' hunit.le
    linarith
  · have h := mul_le_mul_of_nonneg_right hlower' hunit.le
    linarith

/-- **A quotient below the overflow threshold has a nearest double.** -/
theorem isSome_ofRatio (hden : 0 < den) (h : (num : ℚ) / den < overflow) :
    (ofRatio num den).isSome := by
  rcases eq_or_ne num 0 with rfl | hnum
  · rfl
  obtain ⟨e, q, hsuits, hq, heq⟩ := exists_suits hnum den
  rw [heq, if_neg]
  · rfl
  intro hgreat
  have hpow (m : ℤ) (hm : m ≤ e) : (2 : ℚ) ^ m ≤ (2 : ℚ) ^ e := zpow_le_zpow_right₀ one_le_two hm
  have hpos : (0 : ℚ) < (2 : ℚ) ^ (970 : ℤ) := zpow_pos two_pos _
  have htwice : (2 : ℚ) ^ (971 : ℤ) = (2 : ℚ) ^ (970 : ℤ) * 2 := zpow_add_one₀ two_ne_zero 970
  have hfour : (2 : ℚ) ^ (972 : ℤ) = (2 : ℚ) ^ (971 : ℤ) * 2 := zpow_add_one₀ two_ne_zero 971
  unfold carried greatestExponent at hgreat
  unfold overflow at h
  split_ifs at hgreat with hcarry
  · -- The mantissa was rounded up to a power of two, at the greatest exponent.
    have hlower := hpow 971 (by omega)
    have hupper := (rounded_bounds hden hq).1
    rw [hcarry] at hupper
    push_cast at hupper
    rw [htwice] at hlower
    generalize (2 : ℚ) ^ (970 : ℤ) = unit, (2 : ℚ) ^ e = top at hlower hupper h
    linarith only [hlower, hupper, h]
  · -- The exponent is too great, and the mantissa has all its bits.
    have hlower := hpow 972 (by omega)
    have hnormal := hsuits.le_div (by unfold leastExponent; omega) hden
    rw [hfour, htwice] at hlower
    generalize (2 : ℚ) ^ (970 : ℤ) = unit, (2 : ℚ) ^ e = top at hlower hnormal h hpos
    linarith only [hlower, hnormal, h, hpos]

/-- A whole number is rounded up by a part in `2 ^ 53` at most. -/
theorem magnitude_ofNat_le (n : ℕ) : (ofNat n).magnitude ≤ n * (1 + 1 / 2 ^ 53) := by
  rcases eq_or_ne n 0 with rfl | hn
  · simp [ofNat, ofRatio, zero, magnitude]
  obtain ⟨e, q, hsuits, hq, heq⟩ := exists_suits hn 1
  rw [ofNat, heq]
  split_ifs
  · have hzero : (zero false).magnitude = 0 := by simp [zero, magnitude]
    rw [Option.getD_none, hzero]
    positivity
  rw [Option.getD_some, magnitude, carried_magnitude]
  have hupper := (rounded_bounds one_pos hq).1
  -- Half a unit is a small part of the number, because all bits of the mantissa are in use.
  have hleast : e ≠ leastExponent := by
    rintro rfl
    have hlt := (scaledBy_div_lt_iff one_pos _ _).mp hsuits.div_lt
    have hone : (1 : ℚ) ≤ n := by exact_mod_cast Nat.one_le_iff_ne_zero.mpr hn
    have hsmall : ((2 ^ 53 : ℕ) : ℚ) * (2 : ℚ) ^ leastExponent < 1 := by
      rw [Nat.cast_pow, ← zpow_natCast, Nat.cast_ofNat, ← zpow_add₀ two_ne_zero]
      exact zpow_lt_one_of_neg₀ one_lt_two (by decide)
    rw [Nat.cast_one, div_one] at hlt
    linarith
  have hnormal := hsuits.le_div hleast one_pos
  rw [Nat.cast_one, div_one] at hupper hnormal
  linarith

end

/-! ## Scaling by a power of ten -/

section

variable {d d' : Double} {n : ℕ} {k : ℤ}

theorem inRange_zero (negative : Bool) : (zero negative).InRange :=
  ⟨Nat.two_pow_pos 53, le_refl _, show leastExponent ≤ greatestExponent by decide⟩

theorem InRange.withSign (h : d.InRange) (negative : Bool) : (d.withSign negative).InRange :=
  ⟨h.mantissa_lt, h.le_exponent, h.exponent_le⟩

theorem inRange_ofNat (n : ℕ) : (ofNat n).InRange := by
  rw [ofNat]
  cases h : ofRatio n 1 with
  | none => exact inRange_zero false
  | some d => exact inRange_ofRatio h

theorem inRange_overTen (d : Double) (k : ℕ) : (d.overTen k).InRange := by
  unfold overTen
  dsimp only
  cases h : ofRatio _ _ with
  | none => exact inRange_zero d.negative
  | some d' => exact (inRange_ofRatio h).withSign d.negative

/-- Scaling stays in the range of doubles. -/
theorem InRange.scaleByTen (hd : d.InRange) (h : d.scaleByTen k = some d') : d'.InRange := by
  unfold Double.scaleByTen at h
  split_ifs at h
  · obtain ⟨p, hp, rfl⟩ := Option.map_eq_some_iff.mp h
    exact (inRange_ofRatio hp).withSign d.negative
  · exact Option.some.inj h ▸ hd
  · obtain rfl := Option.some.inj h
    unfold overTens
    split_ifs <;> exact inRange_overTen _ _

/-- Whole numbers scaled up to here stay below `overflow` although they are rounded twice. -/
def safe : ℚ := (2 ^ 54 - 5) * (2 : ℚ) ^ (970 : ℤ)

theorem safe_lt_ten_pow : safe < 10 ^ 309 := by
  have h : (2 ^ 54 - 5) * 2 ^ 970 < 10 ^ 309 := by decide +kernel
  have hten : (10 : ℚ) ^ 309 = (10 ^ 309 : ℕ) := by
    simp only [Nat.cast_pow, Nat.cast_ofNat]
  have hpow : (2 : ℚ) ^ (970 : ℤ) = (2 ^ 970 : ℕ) := by
    simp only [Nat.cast_pow, Nat.cast_ofNat]
    exact zpow_natCast 2 970
  have hfactor : (2 ^ 54 - 5 : ℚ) = (2 ^ 54 - 5 : ℕ) := by norm_num
  rw [safe, hpow, hfactor, ← Nat.cast_mul, hten]
  exact Nat.cast_lt.mpr h

theorem safe_rounded_lt : safe * (1 + 1 / 2 ^ 53) * (1 + 1 / 2 ^ 53) < overflow := by
  have hpos : (0 : ℚ) < (2 : ℚ) ^ (970 : ℤ) := zpow_pos two_pos _
  unfold safe overflow
  generalize (2 : ℚ) ^ (970 : ℤ) = unit at hpos ⊢
  linarith

/-- **A whole number scaled by a power of ten is a double**, if it stays within `safe`. -/
theorem isSome_scaleByTen (h : (n : ℚ) * 10 ^ k ≤ safe) : ((ofNat n).scaleByTen k).isSome := by
  unfold Double.scaleByTen
  split_ifs with hk hpower hzero
  · obtain ⟨k, rfl⟩ := Int.eq_ofNat_of_zero_le hk
    rw [Int.toNat_natCast, timesTen, Option.isSome_map]
    refine isSome_ofRatio (Nat.mul_pos (denominator_pos _) (denominator_pos _)) ?_
    rw [zpow_natCast] at h
    have hpow : (ofNat (Nat.pow 10 k)).magnitude ≤ 10 ^ k * (1 + 1 / 2 ^ 53) := by
      have hle := magnitude_ofNat_le (10 ^ k)
      rwa [Nat.cast_pow, Nat.cast_ofNat] at hle
    rw [Nat.cast_mul, Nat.cast_mul, mul_div_mul_comm, ← magnitude_eq, ← magnitude_eq]
    calc (ofNat n).magnitude * (ofNat (Nat.pow 10 k)).magnitude
        ≤ n * (1 + 1 / 2 ^ 53) * (10 ^ k * (1 + 1 / 2 ^ 53)) :=
          mul_le_mul (magnitude_ofNat_le n) hpow (by rw [magnitude]; positivity) (by positivity)
      _ = n * 10 ^ k * (1 + 1 / 2 ^ 53) * (1 + 1 / 2 ^ 53) := by ring
      _ ≤ safe * (1 + 1 / 2 ^ 53) * (1 + 1 / 2 ^ 53) := by gcongr
      _ < overflow := safe_rounded_lt
  · rfl
  · -- No number but zero can be scaled by so great a power and stay within the limit.
    refine absurd h (not_le.mpr (safe_lt_ten_pow.trans_le ?_))
    have hn : n ≠ 0 := fun h0 ↦ hzero (by rw [h0]; decide)
    have hone : (1 : ℚ) ≤ n := by exact_mod_cast Nat.one_le_iff_ne_zero.mpr hn
    have hgreat : (10 : ℚ) ^ 309 ≤ 10 ^ k := by
      rw [← zpow_natCast]
      refine zpow_le_zpow_right₀ (by norm_num) ?_
      unfold greatestPower at hpower
      omega
    exact hgreat.trans (le_mul_of_one_le_left (by positivity) hone)
  · rfl

end

end Double

end RecordLinkage.Number
