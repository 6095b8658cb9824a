import Mathlib.Data.List.Induction
import Mathlib.Tactic.IntervalCases
import RecordLinkage.Number.Decimal
import RecordLinkage.Proofs.Number.Rounding

/-!
# Decimal text

The digits of a whole number stand for it, and there are no needless zeros in front. The decimal
number that is written for a double is at most half a unit above it, and so near to zero or so far
from it that the exponent has three digits.
-/

namespace RecordLinkage.Number

/-! ## Digits -/

/-- The number that digits stand for, after those of another number. -/
def digitsAfter (n : ℕ) (cs : List Char) : ℕ :=
  cs.foldl (fun n c ↦ n * 10 + (c.toNat - '0'.toNat)) n

/-- The number that digits stand for. -/
def digitsValue (cs : List Char) : ℕ := digitsAfter 0 cs

theorem digitsAfter_append (n : ℕ) (cs ds : List Char) :
    digitsAfter n (cs ++ ds) = digitsAfter (digitsAfter n cs) ds := List.foldl_append

theorem digitsAfter_eq (n : ℕ) (cs : List Char) :
    digitsAfter n cs = n * 10 ^ cs.length + digitsValue cs := by
  induction cs generalizing n with
  | nil => simp [digitsAfter, digitsValue]
  | cons c rest ih =>
    have hcons (m : ℕ) : digitsAfter m (c :: rest)
        = digitsAfter (m * 10 + (c.toNat - '0'.toNat)) rest := rfl
    rw [hcons, digitsValue, hcons, ih, ih (0 * 10 + _), List.length_cons, pow_succ]
    ring

theorem digitsAfter_zeros (n k : ℕ) : digitsAfter n (List.replicate k '0') = n * 10 ^ k := by
  rw [digitsAfter_eq, List.length_replicate]
  have hzero : digitsValue (List.replicate k '0') = 0 := by
    induction k with
    | zero => rfl
    | succ k ih =>
      rw [List.replicate_succ]
      exact ih
  rw [hzero, Nat.add_zero]

theorem digit_lt {c : Char} (h : c.isDigit = true) : c.toNat - '0'.toNat < 10 := by
  have hle : c.toNat ≤ 57 := by
    simp only [Char.isDigit, Bool.and_eq_true, decide_eq_true_eq] at h
    exact h.2
  change c.toNat - 48 < 10
  omega

theorem digitsValue_lt {cs : List Char} (h : ∀ c ∈ cs, c.isDigit = true) :
    digitsValue cs < 10 ^ cs.length := by
  induction cs using List.reverseRecOn with
  | nil => exact one_pos
  | append_singleton rest c ih =>
    have hrest := ih fun d hd ↦ h d (List.mem_append_left _ hd)
    have hc := digit_lt (h c (by simp))
    have hvalue : digitsValue (rest ++ [c]) = digitsValue rest * 10 + (c.toNat - '0'.toNat) :=
      digitsAfter_append 0 rest [c]
    rw [hvalue, List.length_append, List.length_singleton, pow_succ]
    omega

section

variable {d : ℕ}

theorem isDigit_of_lt (h : d < 10) : (Char.ofNat ('0'.toNat + d)).isDigit = true := by
  interval_cases d <;> rfl

theorem digit_of_lt (h : d < 10) : (Char.ofNat ('0'.toNat + d)).toNat - '0'.toNat = d := by
  interval_cases d <;> rfl

theorem digit_ne_zero (h : d < 10) (h0 : d ≠ 0) : Char.ofNat ('0'.toNat + d) ≠ '0' := by
  interval_cases d
  · exact absurd rfl h0
  all_goals decide

end

theorem isDigit_of_mem_decimalDigits (n : ℕ) : ∀ c ∈ decimalDigits n, c.isDigit = true := by
  induction n using decimalDigits.induct with
  | case1 n hn =>
    rw [decimalDigits, if_pos hn]
    exact fun c hc ↦ List.mem_singleton.mp hc ▸ isDigit_of_lt hn
  | case2 n hn ih =>
    rw [decimalDigits, if_neg hn]
    intro c hc
    rcases List.mem_append.mp hc with hmem | hlast
    · exact ih c hmem
    · exact List.mem_singleton.mp hlast ▸ isDigit_of_lt (Nat.mod_lt n (by decide))

theorem digitsValue_decimalDigits (n : ℕ) : digitsValue (decimalDigits n) = n := by
  induction n using decimalDigits.induct with
  | case1 n hn =>
    rw [decimalDigits, if_pos hn]
    change 0 * 10 + (_ - _) = n
    rw [digit_of_lt hn, Nat.zero_mul, Nat.zero_add]
  | case2 n hn ih =>
    rw [decimalDigits, if_neg hn, digitsValue, digitsAfter_append]
    change digitsValue _ * 10 + (_ - _) = n
    rw [ih, digit_of_lt (Nat.mod_lt n (by decide))]
    exact Nat.div_add_mod' n 10

/-- Only the number zero begins with the digit zero. -/
theorem exists_decimalDigits_cons (n : ℕ) :
    ∃ c rest, decimalDigits n = c :: rest ∧ (c = '0' → n = 0 ∧ rest = []) := by
  induction n using decimalDigits.induct with
  | case1 n hn =>
    rw [decimalDigits, if_pos hn]
    refine ⟨_, [], rfl, fun h ↦ ⟨?_, rfl⟩⟩
    by_contra h0
    exact digit_ne_zero hn h0 h
  | case2 n hn ih =>
    obtain ⟨c, rest, heq, hzero⟩ := ih
    rw [decimalDigits, if_neg hn, heq]
    refine ⟨c, rest ++ [_], rfl, fun h ↦ ?_⟩
    have := (hzero h).1
    omega

theorem decimalDigits_zero : decimalDigits 0 = ['0'] := by
  rw [decimalDigits]
  rfl

theorem length_decimalDigits_pos (n : ℕ) : 0 < (decimalDigits n).length := by
  obtain ⟨c, rest, heq, -⟩ := exists_decimalDigits_cons n
  rw [heq]
  exact Nat.succ_pos _

theorem lt_ten_pow_length (n : ℕ) : n < 10 ^ (decimalDigits n).length := by
  have h := digitsValue_lt (isDigit_of_mem_decimalDigits n)
  rwa [digitsValue_decimalDigits] at h

theorem ten_pow_length_le {n : ℕ} (hn : n ≠ 0) : 10 ^ ((decimalDigits n).length - 1) ≤ n := by
  induction n using decimalDigits.induct with
  | case1 n h =>
    rw [decimalDigits, if_pos h]
    exact Nat.one_le_iff_ne_zero.mpr hn
  | case2 n h ih =>
    have hpos := length_decimalDigits_pos (n / 10)
    have hle := ih (by omega)
    rw [decimalDigits, if_neg h, List.length_append, List.length_singleton, Nat.add_sub_cancel]
    calc 10 ^ (decimalDigits (n / 10)).length
        = 10 ^ ((decimalDigits (n / 10)).length - 1) * 10 := by
          rw [← pow_succ, Nat.sub_add_cancel hpos]
      _ ≤ n / 10 * 10 := Nat.mul_le_mul_right 10 hle
      _ ≤ n := Nat.div_mul_le_self n 10

theorem length_decimalDigits {n k : ℕ} (hle : 10 ^ k ≤ n) (hlt : n < 10 ^ (k + 1)) :
    (decimalDigits n).length = k + 1 := by
  have hn : n ≠ 0 := ((Nat.pow_pos (by decide)).trans_le hle).ne'
  have hupper := (Nat.pow_lt_pow_iff_right (by decide)).mp (hle.trans_lt (lt_ten_pow_length n))
  have hlower := (Nat.pow_lt_pow_iff_right (by decide)).mp ((ten_pow_length_le hn).trans_lt hlt)
  omega

/-- A further zero is a further digit. -/
theorem length_shifted {n k : ℕ} (hle : 10 ^ k ≤ n) (hlt : n < 10 ^ (k + 1)) (shift : ℕ) :
    (decimalDigits (n * Nat.pow 10 shift)).length = k + shift + 1 := by
  refine length_decimalDigits ?_ ?_
  · rw [pow_add]
    exact Nat.mul_le_mul_right _ hle
  · rw [Nat.add_right_comm, pow_add]
    exact Nat.mul_lt_mul_of_pos_right hlt (Nat.pow_pos (by decide))

/-! ## The decimal number for a double -/

/-- The magnitude of a decimal number. -/
def Decimal.magnitude (x : Decimal) : ℚ := x.digits * (10 : ℚ) ^ x.power

namespace Double

variable {d : Double} {x : Decimal}

theorem le_of_roundsTo {num den : ℕ} (hden : 0 < den) (h : d.roundsTo num den = true) :
    2 * ((num : ℚ) / den) ≤ (2 * d.mantissa + 1) * (2 : ℚ) ^ d.exponent := by
  have hle : 4 * num * d.denominator
      ≤ (4 * d.mantissa + 2) * Nat.pow 2 d.exponent.toNat * den := by
    simp only [roundsTo, Bool.and_eq_true, Bool.or_eq_true, decide_eq_true_eq, beq_iff_eq] at h
    rcases h.2 with ⟨-, hlt⟩ | ⟨hlow | hhigh, -⟩
    · exact hlt.le
    · rw [← hlow]
      gcongr
      omega
    · exact hhigh.le
  have hpos : (0 : ℚ) < den := by exact_mod_cast hden
  have hpos' : (0 : ℚ) < d.denominator := by exact_mod_cast d.denominator_pos
  have hcast : 4 * (num : ℚ) * d.denominator
      ≤ (4 * d.mantissa + 2) * (2 ^ d.exponent.toNat : ℕ) * den := by exact_mod_cast hle
  have hdenominator : ((2 ^ (-d.exponent).toNat : ℕ) : ℚ) = d.denominator := rfl
  rw [two_zpow_eq, hdenominator, ← mul_div_assoc, ← mul_div_assoc, div_le_div_iff₀ hpos hpos']
  linarith

/-- What is known of the decimal number that is written for a double. -/
structure Nears (d : Double) (x : Decimal) : Prop where
  power_of_zero : x.digits = 0 → x.power = 0
  le_power : -416 ≤ x.power
  magnitude_le : 2 * x.magnitude ≤ (2 * d.mantissa + 1) * (2 : ℚ) ^ d.exponent

theorem le_leadingPower (d : Double) : -400 ≤ d.leadingPower := by
  have h (n : ℕ) : (-400 : ℤ) ≤ ((decimalDigits n).length : ℤ) - 1 - (400 : ℕ) := by
    have hpos := length_decimalDigits_pos n
    omega
  exact h _

theorem nears_onGrid {power : ℤ} (hpower : -416 ≤ power) (h : d.onGrid? power = some x) :
    d.Nears x := by
  have hpow (k : ℕ) : (0 : ℕ) < Nat.pow 10 k := Nat.pow_pos (by decide)
  have hfits {c : ℕ} (hc : 0 < c ∧
      d.roundsTo (c * Nat.pow 10 power.toNat) (Nat.pow 10 (-power).toNat) = true) :
      d.Nears ⟨c, power⟩ := by
    refine ⟨fun h0 ↦ absurd h0 hc.1.ne', hpower, ?_⟩
    have hle := le_of_roundsTo (hpow _) hc.2
    have hten : (10 : ℚ) ^ power = (10 ^ power.toNat : ℕ) / (10 ^ (-power).toNat : ℕ) := by
      push_cast
      rw [← zpow_natCast, ← zpow_natCast, ← zpow_sub₀ (by norm_num)]
      congr 1
      omega
    rw [Decimal.magnitude, hten, ← mul_div_assoc]
    rwa [Nat.cast_mul] at hle
  unfold onGrid? at h
  simp only [Bool.and_eq_true, decide_eq_true_eq] at h
  split_ifs at h with hnearest hfloor hceiling
  · exact Option.some.inj h ▸ hfits hnearest
  · exact Option.some.inj h ▸ hfits hfloor
  · exact Option.some.inj h ▸ hfits hceiling

theorem nears_shortest (d : Double) : d.Nears d.shortest := by
  unfold shortest
  dsimp only
  cases h : (List.range 18).findSome? _ with
  | none =>
    refine ⟨fun _ ↦ rfl, by decide, ?_⟩
    have hzero : (⟨0, 0⟩ : Decimal).magnitude = 0 := by simp [Decimal.magnitude]
    rw [Option.getD_none, hzero, mul_zero]
    positivity
  | some x =>
    obtain ⟨n, hn, hx⟩ := List.exists_of_findSome?_eq_some h
    have htop := d.le_leadingPower
    rw [List.mem_range] at hn
    exact nears_onGrid (by omega) hx

/-- The decimal number that is written can be read, as far as its magnitude goes: all but the two
greatest doubles are well below the threshold. -/
theorem Nears.magnitude_le_safe (h : d.Nears x) (hd : d.InRange)
    (htop : d.exponent = greatestExponent → d.mantissa ≤ 2 ^ 53 - 3) : x.magnitude ≤ safe := by
  have hpos : (0 : ℚ) < (2 : ℚ) ^ (970 : ℤ) := zpow_pos two_pos _
  have htwice : (2 : ℚ) ^ (971 : ℤ) = (2 : ℚ) ^ (970 : ℤ) * 2 := zpow_add_one₀ two_ne_zero 970
  have hle := h.magnitude_le
  have hmantissa : (d.mantissa : ℚ) ≤ 2 ^ 53 - 1 := by
    have hlt : d.mantissa + 1 ≤ 2 ^ 53 := hd.mantissa_lt
    have hcast : (d.mantissa : ℚ) + 1 ≤ 2 ^ 53 := by exact_mod_cast hlt
    linarith
  unfold safe
  rcases hd.exponent_le.lt_or_eq with hlt | heq
  · have hpower : (2 : ℚ) ^ d.exponent ≤ (2 : ℚ) ^ (970 : ℤ) :=
      zpow_le_zpow_right₀ one_le_two (Int.lt_add_one_iff.mp hlt)
    generalize (2 : ℚ) ^ (970 : ℤ) = unit at hpos hpower ⊢
    have hbound : (2 * (d.mantissa : ℚ) + 1) * (2 : ℚ) ^ d.exponent
        ≤ (2 * (2 ^ 53 - 1) + 1) * unit := by gcongr
    linarith
  · have htop' : (d.mantissa : ℚ) ≤ 2 ^ 53 - 3 := by
      have hcast : ((d.mantissa : ℕ) : ℚ) ≤ (2 ^ 53 - 3 : ℕ) := by exact_mod_cast htop heq
      norm_num at hcast ⊢
      exact hcast
    rw [heq, greatestExponent, htwice] at hle
    generalize (2 : ℚ) ^ (970 : ℤ) = unit at hpos hle ⊢
    have hbound : (2 * (d.mantissa : ℚ) + 1) * (unit * 2)
        ≤ (2 * (2 ^ 53 - 3) + 1) * (unit * 2) := by gcongr
    linarith

/-! ## The two greatest doubles -/

/-- The decimal number for a double, once the power of its first digit is known. -/
def shortestFrom (d : Double) (top : ℤ) : Decimal :=
  ((List.range 18).findSome? fun (n : ℕ) ↦ d.onGrid? (top + 1 - n)).getD ⟨0, 0⟩

theorem shortest_eq (d : Double) : d.shortest = d.shortestFrom d.leadingPower := rfl

theorem leadingPower_greatest (hexponent : d.exponent = greatestExponent)
    (hmantissa : 2 ^ 53 - 2 ≤ d.mantissa) (hlt : d.mantissa < 2 ^ 53) : d.leadingPower = 308 := by
  have htop : d.exponent.toNat = 971 := by
    rw [hexponent]
    rfl
  have hbounds : ∃ unit k : ℕ, d.numerator = d.mantissa * unit ∧ k = 308 ∧
      10 ^ k ≤ (2 ^ 53 - 2) * unit ∧ 2 ^ 53 * unit < 10 ^ (k + 1) :=
    ⟨2 ^ 971, 308, htop ▸ d.numerator_eq, rfl, by decide +kernel, by decide +kernel⟩
  obtain ⟨unit, k, hnumerator, hk, hlower, hgreat⟩ := hbounds
  have hdenominator : d.denominator = 1 := by
    rw [denominator, hexponent]
    rfl
  have hle : 10 ^ k ≤ d.numerator :=
    hnumerator ▸ hlower.trans (Nat.mul_le_mul_right unit hmantissa)
  have hupper : d.numerator < 10 ^ (k + 1) :=
    hnumerator ▸ (Nat.mul_le_mul_right unit hlt.le).trans_lt hgreat
  unfold leadingPower
  dsimp only
  rw [hdenominator, Nat.div_one, length_shifted hle hupper 400, hk]
  rfl

end Double

end RecordLinkage.Number
