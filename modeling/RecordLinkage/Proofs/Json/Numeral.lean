import RecordLinkage.Json.Numeral
import RecordLinkage.Proofs.Number.Decimal

/-!
# Numbers and their text

A number that was read is written with digits, a point and an exponent, and what is written can be
read again. An integer comes back as it was. A double may come back as one of its neighbours, as
reading rounds twice; but it does come back, also where a neighbour would be infinite.

For a double, what is gathered of the digits is never more than the decimal number that they stand
for: digits that do not fit are dropped from a fraction, and the whole part always fits.
-/

namespace RecordLinkage

open Number

/-- A number that the text of a batch or of parameters can give. -/
def JsonNumber.InRange : JsonNumber → Prop
  | .int i => -2 ^ 63 ≤ i ∧ i < 2 ^ 64
  | .double d => d.InRange

namespace Numeral

variable {n m : Numeral}

/-! ## What is read is in range -/

/-- The gathered digits fit. -/
def Fits (n : Numeral) : Prop := n.significand < 2 ^ 64

theorem digit_lt_of_digit? {c : Char} {d : ℕ} (h : digit? c = some d) : d < 10 := by
  unfold digit? at h
  split_ifs at h with hc
  exact Option.some.inj h ▸ digit_lt hc

theorem fits_first {c : Char} (h : first? c = some n) : n.Fits := by
  unfold first? at h
  split_ifs at h
  · exact Option.some.inj h ▸ Nat.two_pow_pos 64
  · exact Option.some.inj h ▸ Nat.two_pow_pos 64
  · obtain ⟨d, hd, rfl⟩ := Option.map_eq_some_iff.mp h
    exact (digit_lt_of_digit? hd).trans (by decide)

theorem fits_pushWhole (h : n.Fits) (d : ℕ) : (n.pushWhole d).Fits := by
  unfold pushWhole limit
  split_ifs with hfull
  · exact h
  · simp only [Bool.or_eq_true, decide_eq_true_eq, not_or, not_le] at hfull
    exact hfull.2

theorem fits_pushFraction (h : n.Fits) (d : ℕ) : (n.pushFraction d).Fits := by
  unfold pushFraction limit
  split_ifs with hfull
  · exact h
  · simp only [Bool.or_eq_true, decide_eq_true_eq, not_or, not_le] at hfull
    exact hfull.2

theorem fits_pushMark (h : n.Fits) {c : Char} {otherwise : Push}
    (ho : ∀ m, otherwise = .more m → m.Fits) (hm : n.pushMark c otherwise = .more m) : m.Fits := by
  unfold pushMark at hm
  split_ifs at hm
  · exact Push.more.inj hm ▸ h
  · exact ho m hm

/-- The gathered digits go on to fit. -/
theorem fits_push (h : n.Fits) {c : Char} (hm : n.push c = .more m) : m.Fits := by
  have hended : ∀ m : Numeral, Push.ended = .more m → m.Fits := fun _ ↦ nofun
  unfold push at hm
  split at hm
  · exact Push.more.inj hm ▸ h
  · next hdigit => exact Push.more.inj hm ▸ (digit_lt_of_digit? hdigit).trans (by decide)
  · cases hm
  · cases hm
  · split_ifs at hm
    · exact Push.more.inj hm ▸ h
    · exact fits_pushMark h hended hm
  · exact Push.more.inj hm ▸ fits_pushWhole h _
  · split_ifs at hm
    · exact Push.more.inj hm ▸ h
    · exact fits_pushMark h hended hm
  · exact Push.more.inj hm ▸ fits_pushFraction h _
  · cases hm
  · exact Push.more.inj hm ▸ fits_pushFraction h _
  · exact fits_pushMark h hended hm
  · exact Push.more.inj hm ▸ h
  · split_ifs at hm
    · exact Push.more.inj hm ▸ h
    · exact Push.more.inj hm ▸ h
  · exact Push.more.inj hm ▸ h
  · cases hm
  · exact Push.more.inj hm ▸ h
  · cases hm

/-- **A number that is read is in range.** -/
theorem inRange_value (h : n.Fits) {v : JsonNumber} (hv : n.value? = some v) : v.InRange := by
  unfold value? at hv
  split_ifs at hv with _ _ _ hbound
  · obtain ⟨d, hd, rfl⟩ := Option.map_eq_some_iff.mp hv
    unfold double? at hd
    split at hd
    · split_ifs at hd
      exact Option.some.inj hd ▸ Double.inRange_zero n.negative
    · obtain ⟨p, hp, rfl⟩ := Option.map_eq_some_iff.mp hd
      exact ((Double.inRange_ofNat _).scaleByTen hp).withSign n.negative
  · obtain rfl := Option.some.inj hv
    exact ⟨by omega, by exact_mod_cast h⟩
  · obtain rfl := Option.some.inj hv
    exact (Double.inRange_ofNat _).withSign true
  · obtain rfl := Option.some.inj hv
    simp only [Bool.or_eq_true, decide_eq_true_eq, not_or, not_lt] at hbound
    exact ⟨by omega, by omega⟩

/-! ## Reading several characters -/

/-- Reads more characters that all belong to the number. -/
def pushAll (n : Numeral) : List Char → Option Numeral
  | [] => some n
  | c :: cs =>
    match n.push c with
    | .more n => n.pushAll cs
    | _ => none

/-- Reads the characters of a number. -/
def ofChars? : List Char → Option Numeral
  | [] => none
  | c :: cs => (first? c).bind fun n ↦ n.pushAll cs

theorem pushAll_cons {c : Char} (h : n.push c = .more m) (cs : List Char) :
    n.pushAll (c :: cs) = m.pushAll cs := by
  rw [pushAll, h]

theorem pushAll_append (n : Numeral) (cs ds : List Char) :
    n.pushAll (cs ++ ds) = (n.pushAll cs).bind fun m ↦ m.pushAll ds := by
  induction cs generalizing n with
  | nil => rfl
  | cons c rest ih =>
    rw [List.cons_append, pushAll, pushAll]
    cases n.push c with
    | more m => exact ih m
    | ended | broken => rfl

theorem digit?_eq {c : Char} (h : c.isDigit = true) : digit? c = some (c.toNat - '0'.toNat) :=
  if_pos h

/-- Digits of the whole part are gathered as long as they fit. -/
theorem pushAll_whole {cs : List Char} (hcs : ∀ c ∈ cs, c.isDigit = true)
    (hphase : n.phase = .whole) (hover : n.overflown = false)
    (hfit : digitsAfter n.significand cs < 2 ^ 64) :
    n.pushAll cs = some { n with significand := digitsAfter n.significand cs } := by
  induction cs generalizing n with
  | nil => rfl
  | cons c rest ih =>
    obtain ⟨hc, hrest⟩ := List.forall_mem_cons.mp hcs
    have hle : n.significand * 10 + (c.toNat - '0'.toNat) < 2 ^ 64 := by
      change digitsAfter (n.significand * 10 + (c.toNat - '0'.toNat)) rest < 2 ^ 64 at hfit
      rw [digitsAfter_eq] at hfit
      exact (Nat.le_mul_of_pos_right _ (Nat.pow_pos (by decide))).trans
        (Nat.le_add_right _ _) |>.trans_lt hfit
    have hpush : n.push c = .more
        { n with significand := n.significand * 10 + (c.toNat - '0'.toNat) } := by
      have hno : ¬(limit ≤ n.significand * 10 + (c.toNat - '0'.toNat)) := not_le.mpr hle
      simp only [push, hphase, digit?_eq hc, pushWhole, hover, hno, Bool.false_or, decide_false,
        Bool.false_eq_true, if_false]
    rw [pushAll_cons hpush]
    exact ih hrest hphase hover hfit

/-- The decimal number that has been gathered. -/
def magnitude (n : Numeral) : ℚ := n.significand * (10 : ℚ) ^ n.scale

/-- What digits of a fraction do: what is gathered is not more than they stand for, and nothing else
changes. -/
structure Extends (n : Numeral) (cs : List Char) (m : Numeral) : Prop where
  phase : m.phase = .fraction
  negative : m.negative = n.negative
  exponentNegative : m.exponentNegative = n.exponentNegative
  exponentDigits : m.exponentDigits = n.exponentDigits
  magnitude_le : m.magnitude
    ≤ digitsAfter n.significand cs * (10 : ℚ) ^ (n.scale - cs.length)

theorem magnitude_le_digitsAfter (n : Numeral) (cs : List Char) :
    n.magnitude ≤ digitsAfter n.significand cs * (10 : ℚ) ^ (n.scale - cs.length) := by
  have hcast : (n.significand * 10 ^ cs.length : ℚ) ≤ digitsAfter n.significand cs := by
    rw [digitsAfter_eq]
    exact_mod_cast Nat.le_add_right _ _
  calc n.magnitude = n.significand * 10 ^ cs.length * (10 : ℚ) ^ (n.scale - cs.length) := by
        rw [magnitude, mul_assoc, ← zpow_natCast, ← zpow_add₀ (by norm_num)]
        congr 2
        ring
    _ ≤ digitsAfter n.significand cs * (10 : ℚ) ^ (n.scale - cs.length) := by gcongr

/-- Once a digit of the fraction has not fitted, no further one counts. -/
theorem pushAll_full {cs : List Char} (hcs : ∀ c ∈ cs, c.isDigit = true)
    (hphase : n.phase = .fraction) (hfull : n.full = true) : n.pushAll cs = some n := by
  induction cs with
  | nil => rfl
  | cons c rest ih =>
    obtain ⟨hc, hrest⟩ := List.forall_mem_cons.mp hcs
    have hpush : n.push c = .more n := by
      obtain ⟨negative, phase, significand, scale, overflown, full, marked, digits⟩ := n
      obtain rfl : phase = .fraction := hphase
      obtain rfl : full = true := hfull
      simp only [push, digit?_eq hc, pushFraction, Bool.true_or, if_true]
    rw [pushAll_cons hpush]
    exact ih hrest

theorem exists_extends {cs : List Char} (hcs : ∀ c ∈ cs, c.isDigit = true)
    (hphase : n.phase = .fraction) : ∃ m, n.pushAll cs = some m ∧ n.Extends cs m := by
  induction cs generalizing n with
  | nil => exact ⟨n, rfl, hphase, rfl, rfl, rfl, n.magnitude_le_digitsAfter []⟩
  | cons c rest ih =>
    obtain ⟨hc, hrest⟩ := List.forall_mem_cons.mp hcs
    have hpush : n.push c = .more (n.pushFraction (c.toNat - '0'.toNat)) := by
      simp only [push, hphase, digit?_eq hc]
    rw [pushAll_cons hpush]
    unfold pushFraction
    split_ifs with hfull
    · -- This digit does not fit, and so none after it counts.
      refine ⟨{ n with full := true }, pushAll_full hrest hphase rfl, hphase, rfl, rfl, rfl, ?_⟩
      exact n.magnitude_le_digitsAfter (c :: rest)
    · obtain ⟨m, hm, hext⟩ := ih (n := { n with
        significand := n.significand * 10 + (c.toNat - '0'.toNat), scale := n.scale - 1 })
        hrest hphase
      refine ⟨m, hm, hext.phase, hext.negative, hext.exponentNegative, hext.exponentDigits, ?_⟩
      have hle := hext.magnitude_le
      have hscale : n.scale - 1 - (rest.length : ℤ) = n.scale - ((c :: rest).length : ℤ) := by
        rw [List.length_cons]
        push_cast
        ring
      rw [hscale] at hle
      exact hle

/-- The digits of an exponent are gathered all. -/
theorem pushAll_exponent {cs : List Char} (hcs : ∀ c ∈ cs, c.isDigit = true)
    (hphase : n.phase = .exponent) :
    n.pushAll cs = some { n with exponentDigits := digitsAfter n.exponentDigits cs } := by
  induction cs generalizing n with
  | nil => rfl
  | cons c rest ih =>
    obtain ⟨hc, hrest⟩ := List.forall_mem_cons.mp hcs
    have hpush : n.push c = .more
        { n with exponentDigits := n.exponentDigits * 10 + (c.toNat - '0'.toNat) } := by
      simp only [push, hphase, digit?_eq hc, pushExponent]
    rw [pushAll_cons hpush]
    exact ih hrest hphase

/-! ## The parts of a number -/

/-- A sign in front of a number. -/
def signText (negative : Bool) : List Char := if negative then ['-'] else []

/-- Digits without needless zeros in front, and not too many. -/
structure Whole (cs : List Char) : Prop where
  digits : ∀ c ∈ cs, c.isDigit = true
  head : ∃ c rest, cs = c :: rest ∧ (c = '0' → rest = [])
  fits : digitsValue cs < 2 ^ 64

/-- What has been read of a number after its whole part. -/
def ofWhole (negative : Bool) (cs : List Char) : Numeral :=
  start negative (if cs.head? = some '0' then .zero else .whole) (digitsValue cs)

theorem digit_eq_zero_iff {c : Char} (hc : c.isDigit = true) :
    c.toNat - '0'.toNat = 0 ↔ c = '0' := by
  have hle : 48 ≤ c.toNat := by
    simp only [Char.isDigit, Bool.and_eq_true, decide_eq_true_eq] at hc
    exact hc.1
  change c.toNat - 48 = 0 ↔ _
  rw [← Char.toNat_inj]
  change _ ↔ c.toNat = 48
  omega

theorem ofChars?_digit (negative : Bool) {c : Char} (hc : c.isDigit = true) (cs : List Char) :
    ofChars? (signText negative ++ c :: cs)
      = (start negative (if c = '0' then .zero else .whole) (c.toNat - '0'.toNat)).pushAll cs := by
  cases negative with
  | false =>
    have hminus : c ≠ '-' := by
      rintro rfl
      cases hc
    change (first? c).bind _ = _
    unfold first?
    by_cases hzero : c = '0'
    · subst hzero
      rfl
    · rw [if_neg hminus, if_neg hzero, if_neg hzero, digit?_eq hc]
      rfl
  | true =>
    change (start true .sign 0).pushAll (c :: cs) = _
    refine pushAll_cons ?_ cs
    by_cases hzero : c = '0'
    · subst hzero
      rfl
    · have hpos : c.toNat - '0'.toNat ≠ 0 := fun h ↦ hzero ((digit_eq_zero_iff hc).mp h)
      obtain ⟨d, hd⟩ := Nat.exists_eq_succ_of_ne_zero hpos
      rw [if_neg hzero, push, digit?_eq hc, hd]
      rfl

/-- The whole part of a number is read as it is. -/
theorem ofChars?_whole (negative : Bool) {cs : List Char} (h : Whole cs) (tail : List Char) :
    ofChars? (signText negative ++ cs ++ tail) = (ofWhole negative cs).pushAll tail := by
  obtain ⟨hdigits, ⟨c, rest, rfl, hhead⟩, hfits⟩ := h
  obtain ⟨hc, hrest⟩ := List.forall_mem_cons.mp hdigits
  have hvalue : digitsValue (c :: rest) = digitsAfter (c.toNat - '0'.toNat) rest := by
    change digitsAfter (0 * 10 + (c.toNat - '0'.toNat)) rest = _
    rw [Nat.zero_mul, Nat.zero_add]
  rw [List.append_assoc, List.cons_append, ofChars?_digit negative hc, ofWhole]
  by_cases hzero : c = '0'
  · rw [hhead hzero, hzero]
    rfl
  · have hsome : ¬((c :: rest).head? = some '0') := fun h ↦ hzero (Option.some.inj h)
    rw [hvalue] at hfits
    rw [if_neg hzero, if_neg hsome, pushAll_append, pushAll_whole hrest rfl rfl hfits, hvalue]
    rfl

theorem whole_decimalDigits {n : ℕ} (hn : n < 2 ^ 64) : Whole (decimalDigits n) := by
  obtain ⟨c, rest, heq, hzero⟩ := exists_decimalDigits_cons n
  refine ⟨isDigit_of_mem_decimalDigits n, ⟨c, rest, heq, fun h ↦ (hzero h).2⟩, ?_⟩
  rwa [digitsValue_decimalDigits]

theorem integerText_eq (i : ℤ) :
    integerText i = signText (decide (i < 0)) ++ decimalDigits i.natAbs := by
  unfold integerText
  split_ifs with h
  · rw [decide_eq_true h]
    rfl
  · rw [decide_eq_false h]
    rfl

/-- **An integer is read as it is.** -/
theorem exists_read_int {i : ℤ} (h : (JsonNumber.int i).InRange) :
    ∃ m, ofChars? (integerText i) = some m ∧ m.value? = some (.int i) := by
  obtain ⟨hleast, hgreatest⟩ := h
  have hwhole : Whole (decimalDigits i.natAbs) := whole_decimalDigits (by omega)
  refine ⟨ofWhole (decide (i < 0)) (decimalDigits i.natAbs), ?_, ?_⟩
  · have hread := ofChars?_whole (decide (i < 0)) hwhole []
    rwa [List.append_nil, ← integerText_eq] at hread
  · have hmay : (ofWhole (decide (i < 0)) (decimalDigits i.natAbs)).mayEnd = true := by
      unfold ofWhole
      split_ifs <;> rfl
    have hint : (ofWhole (decide (i < 0)) (decimalDigits i.natAbs)).isDouble = false := by
      unfold ofWhole
      split_ifs <;> rfl
    have hsignificand :
        (ofWhole (decide (i < 0)) (decimalDigits i.natAbs)).significand = i.natAbs :=
      digitsValue_decimalDigits _
    have hnegative : (ofWhole (decide (i < 0)) (decimalDigits i.natAbs)).negative
        = decide (i < 0) := rfl
    rw [value?, hmay, hint, hsignificand, hnegative]
    rcases lt_or_ge i 0 with hneg | hnonneg
    · have hno : ¬(i.natAbs = 0 ∨ 2 ^ 63 < i.natAbs) := by omega
      have heq : -(i.natAbs : ℤ) = i := by omega
      simp only [decide_eq_true hneg, Bool.not_true, Bool.false_eq_true, if_false,
        Bool.or_eq_true, decide_eq_true_eq, if_neg hno, heq]
    · have heq : (i.natAbs : ℤ) = i := by omega
      simp [not_lt.mpr hnonneg, heq]

/-! ## Doubles -/

/-- The exponent of a number as it is written. -/
def exponent (n : Numeral) : ℤ :=
  if n.exponentNegative then -(n.exponentDigits : ℤ) else n.exponentDigits

/-- A number that has been read up to where it may end, and not as an integer: what was gathered is
not more than some decimal number. -/
structure Renders (x : Decimal) (n : Numeral) : Prop where
  phase : n.phase = .fraction ∨ n.phase = .exponent
  digits_lt : n.exponentDigits < exponentLimit
  le : n.significand * (10 : ℚ) ^ (n.scale + n.exponent) ≤ x.magnitude

theorem Renders.exists_value {x : Decimal} (h : n.Renders x) (hx : x.magnitude ≤ Double.safe) :
    ∃ d, n.value? = some (.double d) := by
  have hmay : n.mayEnd = true := by
    rcases h.phase with hphase | hphase <;> rw [mayEnd, hphase]
  have hdouble : n.isDouble = true := by
    rcases h.phase with hphase | hphase <;> rw [isDouble, hphase]
  obtain ⟨d, hd⟩ := Option.isSome_iff_exists.mp (Double.isSome_scaleByTen (h.le.trans hx))
  rw [exponent] at hd
  refine ⟨d.withSign n.negative, ?_⟩
  rw [value?, hmay, hdouble, double?, if_neg (not_le.mpr h.digits_lt)]
  dsimp only
  rw [hd]
  rfl

/-- A point and a fraction after the whole part. -/
theorem exists_point {cs : List Char} (hcs : ∀ c ∈ cs, c.isDigit = true) (hne : cs ≠ [])
    (hphase : n.phase = .zero ∨ n.phase = .whole) :
    ∃ m, n.pushAll ('.' :: cs) = some m ∧ n.Extends cs m := by
  obtain ⟨c, rest, rfl⟩ := List.exists_cons_of_ne_nil hne
  obtain ⟨m, hm, hext⟩ := exists_extends (n := { n with phase := .fraction }) hcs rfl
  have hpoint : n.push '.' = .more { n with phase := .point } := by
    rcases hphase with hphase | hphase <;> rw [push, hphase] <;> rfl
  refine ⟨m, ?_, ⟨hext.phase, hext.negative, hext.exponentNegative, hext.exponentDigits,
    hext.magnitude_le⟩⟩
  rw [pushAll_cons hpoint, ← hm]
  have hc := digit?_eq (List.forall_mem_cons.mp hcs).1
  have hfirst : push { n with phase := .point } c = push { n with phase := .fraction } c := by
    simp only [push, hc, pushFraction]
    split_ifs <;> rfl
  rw [pushAll, pushAll, hfirst]

/-- A number with an exponent after its digits. -/
def withExponent (n : Numeral) (e : ℤ) : Numeral :=
  { n with phase := .exponent, exponentNegative := decide (e < 0), exponentDigits := e.natAbs }

theorem exponent_withExponent (n : Numeral) (e : ℤ) : (n.withExponent e).exponent = e := by
  unfold exponent withExponent
  dsimp only
  split_ifs with hneg
  · have := of_decide_eq_true hneg
    omega
  · have := of_decide_eq_false (Bool.not_eq_true _ ▸ hneg)
    omega

theorem pushAll_mark (hphase : n.phase = .zero ∨ n.phase = .whole ∨ n.phase = .fraction)
    (hnegative : n.exponentNegative = false) (hdigits : n.exponentDigits = 0) (e : ℤ) :
    n.pushAll ('e' :: integerText e) = some (n.withExponent e) := by
  unfold withExponent
  have hmark : n.push 'e' = .more { n with phase := .mark } := by
    rcases hphase with hphase | hphase | hphase <;> rw [push, hphase] <;> rfl
  obtain ⟨c, rest, heq, -⟩ := exists_decimalDigits_cons e.natAbs
  have hall := isDigit_of_mem_decimalDigits e.natAbs
  have hvalue := digitsValue_decimalDigits e.natAbs
  rw [heq] at hall hvalue
  obtain ⟨hc, hrest⟩ := List.forall_mem_cons.mp hall
  have hfirst (k : Numeral) (hk : k.phase = .mark ∨ k.phase = .markSign)
      (hk0 : k.exponentDigits = 0) : k.pushAll (c :: rest)
        = some { k with phase := .exponent, exponentDigits := e.natAbs } := by
    have hpush : k.push c = .more
        { k with phase := .exponent, exponentDigits := c.toNat - '0'.toNat } := by
      rcases hk with hk | hk <;>
        simp only [push, hk, digit?_eq hc, pushExponent, hk0, Nat.zero_mul, Nat.zero_add]
    rw [pushAll_cons hpush, pushAll_exponent hrest rfl]
    have hdigits : digitsAfter (c.toNat - '0'.toNat) rest = e.natAbs := by
      rw [← hvalue]
      change _ = digitsAfter (0 * 10 + (c.toNat - '0'.toNat)) rest
      rw [Nat.zero_mul, Nat.zero_add]
    rw [hdigits]
  rw [pushAll_cons hmark, integerText_eq, heq]
  rcases lt_or_ge e 0 with hneg | hnonneg
  · have hsign : push { n with phase := .mark } '-'
        = .more { n with phase := .markSign, exponentNegative := true } := rfl
    rw [decide_eq_true hneg]
    exact (pushAll_cons hsign _).trans (hfirst _ (.inr rfl) hdigits)
  · rw [decide_eq_false (not_lt.mpr hnonneg)]
    refine (hfirst { n with phase := .mark } (.inl rfl) hdigits).trans ?_
    rw [hnegative]

/-! ## Layouts -/

section

variable {x : Decimal}

theorem digitsValue_lt_of_length {cs : List Char} (h : ∀ c ∈ cs, c.isDigit = true)
    (hlength : cs.length ≤ 16) : digitsValue cs < 2 ^ 64 :=
  calc digitsValue cs < 10 ^ cs.length := digitsValue_lt h
    _ ≤ 10 ^ 16 := Nat.pow_le_pow_right (by decide) hlength
    _ < 2 ^ 64 := by decide

theorem ofWhole_phase (negative : Bool) (cs : List Char) :
    (ofWhole negative cs).phase = .zero ∨ (ofWhole negative cs).phase = .whole := by
  unfold ofWhole start
  dsimp only
  split_ifs
  · exact .inl rfl
  · exact .inr rfl

/-- Digits with a point among them. -/
theorem renders_plain (negative : Bool) {cs ds : List Char} (hwhole : Whole cs)
    (hds : ∀ c ∈ ds, c.isDigit = true) (hne : ds ≠ [])
    (hle : digitsAfter (digitsValue cs) ds * (10 : ℚ) ^ (-ds.length : ℤ) ≤ x.magnitude) :
    ∃ m, ofChars? (signText negative ++ (cs ++ '.' :: ds)) = some m ∧ m.Renders x := by
  obtain ⟨m, hm, hext⟩ := exists_point hds hne (ofWhole_phase negative cs)
  refine ⟨m, ?_, .inl hext.phase, ?_, ?_⟩
  · rw [← List.append_assoc, ofChars?_whole negative hwhole, hm]
  · rw [hext.exponentDigits]
    exact Nat.two_pow_pos 31
  · have hexponent : m.exponent = 0 := by
      rw [Numeral.exponent, hext.exponentNegative, hext.exponentDigits]
      rfl
    have hbound := hext.magnitude_le
    rw [show (ofWhole negative cs).scale = 0 from rfl, zero_sub] at hbound
    rw [hexponent, add_zero]
    exact hbound.trans hle

/-- One digit, perhaps a fraction, and an exponent. -/
theorem renders_scientific (negative : Bool) {c : Char} {rest : List Char} {e : ℤ}
    (hdigits : ∀ d ∈ c :: rest, d.isDigit = true) (he : e.natAbs < exponentLimit)
    (hle : digitsValue (c :: rest) * (10 : ℚ) ^ (e - rest.length) ≤ x.magnitude) :
    ∃ m, ofChars? (signText negative ++ (c :: (if rest = [] then [] else '.' :: rest)
      ++ 'e' :: integerText e)) = some m ∧ m.Renders x := by
  obtain ⟨hc, hrest⟩ := List.forall_mem_cons.mp hdigits
  have hsingle : ∀ d ∈ [c], d.isDigit = true := fun d hd ↦ List.mem_singleton.mp hd ▸ hc
  have hwhole : Whole [c] :=
    ⟨hsingle, ⟨c, [], rfl, fun _ ↦ rfl⟩, digitsValue_lt_of_length hsingle (Nat.le_add_left 1 15)⟩
  have hread (tail : List Char) := ofChars?_whole negative hwhole tail
  split_ifs with hnil
  · -- There is no fraction.
    subst hnil
    have hmark := pushAll_mark ((ofWhole_phase negative [c]).imp_right Or.inl) rfl rfl e
    refine ⟨(ofWhole negative [c]).withExponent e, ?_, .inr rfl, he, ?_⟩
    · rw [List.cons_append, List.nil_append, ← List.singleton_append, ← List.append_assoc, hread,
        hmark]
    · rw [List.length_nil, Nat.cast_zero, sub_zero] at hle
      have hscale : ((ofWhole negative [c]).withExponent e).scale = 0 := rfl
      rw [exponent_withExponent, hscale, zero_add]
      exact hle
  · obtain ⟨m, hm, hext⟩ := exists_point hrest hnil (ofWhole_phase negative [c])
    have hmark := pushAll_mark (.inr (.inr hext.phase)) hext.exponentNegative hext.exponentDigits e
    refine ⟨m.withExponent e, ?_, .inr rfl, he, ?_⟩
    · rw [List.cons_append, ← List.singleton_append, ← List.append_assoc, hread, pushAll_append,
        hm]
      exact hmark
    · rw [exponent_withExponent]
      have hbound := hext.magnitude_le
      rw [show (ofWhole negative [c]).scale = 0 from rfl, zero_sub] at hbound
      have hvalue : digitsAfter (ofWhole negative [c]).significand rest
          = digitsValue (c :: rest) := rfl
      rw [hvalue] at hbound
      calc m.significand * (10 : ℚ) ^ (m.scale + e) = m.magnitude * (10 : ℚ) ^ e := by
            rw [Numeral.magnitude, mul_assoc, ← zpow_add₀ (by norm_num)]
        _ ≤ digitsValue (c :: rest) * (10 : ℚ) ^ (-rest.length : ℤ) * (10 : ℚ) ^ e := by gcongr
        _ = digitsValue (c :: rest) * (10 : ℚ) ^ (e - rest.length) := by
            rw [mul_assoc, ← zpow_add₀ (by norm_num), neg_add_eq_sub]
        _ ≤ x.magnitude := hle

/-- The exponent of a number that is not too great is small. -/
theorem power_lt (hsafe : x.magnitude ≤ Double.safe) {k : ℕ} (h : 10 ^ k ≤ x.digits) :
    k + x.power < 309 := by
  have hpow : (10 : ℚ) ^ (k + x.power) ≤ x.magnitude := by
    rw [zpow_add₀ (by norm_num), zpow_natCast, Decimal.magnitude]
    gcongr
    exact_mod_cast h
  have hlt := (hpow.trans hsafe).trans_lt Double.safe_lt_ten_pow
  rw [← zpow_natCast] at hlt
  exact (zpow_lt_zpow_iff_right₀ (by norm_num)).mp hlt

/-- The digits that a decimal number is written with. Only zero begins with a zero. -/
structure Spells (x : Decimal) (c : Char) (rest : List Char) : Prop where
  digits : ∀ d ∈ c :: rest, d.isDigit = true
  value : digitsValue (c :: rest) = x.digits
  zero : c = '0' → x.digits = 0 ∧ rest = []

theorem exists_spells (x : Decimal) :
    ∃ c rest, decimalDigits x.digits = c :: rest ∧ Spells x c rest := by
  have hall := isDigit_of_mem_decimalDigits x.digits
  have hvalue := digitsValue_decimalDigits x.digits
  obtain ⟨c, rest, heq, hzero⟩ := exists_decimalDigits_cons x.digits
  rw [heq] at hall hvalue
  exact ⟨c, rest, heq, hall, hvalue, hzero⟩

namespace Spells

variable {c : Char} {rest : List Char} (h : Spells x c rest) (negative : Bool)

include h

/-- The point is behind all digits, and perhaps zeros. -/
theorem renders_behind (hzero : x.digits = 0 → x.power = 0) (hpower : 0 ≤ x.power)
    (hpoint : (c :: rest).length + x.power ≤ 16) :
    ∃ m, ofChars? (signText negative ++
      (c :: rest ++ List.replicate x.power.toNat '0' ++ ['.', '0'])) = some m ∧ m.Renders x := by
  obtain ⟨k, hk⟩ := Int.eq_ofNat_of_zero_le hpower
  have hdigits : ∀ d ∈ c :: rest ++ List.replicate x.power.toNat '0', d.isDigit = true := by
    intro d hd
    rcases List.mem_append.mp hd with hd | hd
    · exact h.digits d hd
    · exact List.eq_of_mem_replicate hd ▸ rfl
  have hwhole : Whole (c :: rest ++ List.replicate x.power.toNat '0') := by
    refine ⟨hdigits, ⟨c, _, rfl, fun hc ↦ ?_⟩, digitsValue_lt_of_length hdigits ?_⟩
    · obtain ⟨h0, hnil⟩ := h.zero hc
      rw [hzero h0, hnil]
      rfl
    · rw [List.length_append, List.length_replicate]
      omega
  have hvalue : digitsValue (c :: rest ++ List.replicate x.power.toNat '0')
      = x.digits * 10 ^ k := by
    rw [digitsValue, digitsAfter_append, ← digitsValue, h.value, digitsAfter_zeros, hk,
      Int.toNat_natCast]
  have hlast : digitsAfter (x.digits * 10 ^ k) ['0'] = x.digits * 10 ^ k * 10 := rfl
  refine renders_plain negative hwhole (fun d hd ↦ List.mem_singleton.mp hd ▸ rfl)
    (List.cons_ne_nil _ _) (le_of_eq ?_)
  rw [hvalue, hlast, Decimal.magnitude, hk, zpow_natCast]
  push_cast
  norm_num
  ring

/-- The point is among the digits. -/
theorem renders_among (hpower : x.power < 0) (hpos : 0 < (c :: rest).length + x.power)
    (hpoint : (c :: rest).length + x.power ≤ 16) :
    ∃ m, ofChars? (signText negative ++
      ((c :: rest).take ((c :: rest).length + x.power).toNat ++
        '.' :: (c :: rest).drop ((c :: rest).length + x.power).toNat)) = some m ∧
      m.Renders x := by
  obtain ⟨p, hp⟩ : ∃ p : ℕ, ((c :: rest).length + x.power).toNat = p + 1 :=
    Nat.exists_eq_succ_of_ne_zero (by omega)
  rw [hp]
  have hdigits : ∀ d ∈ (c :: rest).take (p + 1), d.isDigit = true :=
    fun d hd ↦ h.digits d (List.mem_of_mem_take hd)
  have hwhole : Whole ((c :: rest).take (p + 1)) := by
    refine ⟨hdigits, ⟨c, rest.take p, List.take_succ_cons, fun hc ↦ ?_⟩,
      digitsValue_lt_of_length hdigits ?_⟩
    · rw [(h.zero hc).2, List.take_nil]
    · rw [List.length_take]
      omega
  refine renders_plain negative hwhole (fun d hd ↦ h.digits d (List.mem_of_mem_drop hd)) ?_
    (le_of_eq ?_)
  · rw [ne_eq, List.drop_eq_nil_iff]
    omega
  · rw [digitsValue, ← digitsAfter_append, List.take_append_drop, ← digitsValue, h.value,
      Decimal.magnitude, List.length_drop]
    congr 2
    omega

/-- The point is in front of all digits, and perhaps zeros. -/
theorem renders_before (hpoint : (c :: rest).length + x.power ≤ 0) :
    ∃ m, ofChars? (signText negative ++
      (['0', '.'] ++ List.replicate (-((c :: rest).length + x.power)).toNat '0' ++ c :: rest))
        = some m ∧ m.Renders x := by
  have hdigits : ∀ d ∈ List.replicate (-((c :: rest).length + x.power)).toNat '0' ++ (c :: rest),
      d.isDigit = true := by
    intro d hd
    rcases List.mem_append.mp hd with hd | hd
    · exact List.eq_of_mem_replicate hd ▸ rfl
    · exact h.digits d hd
  have hwhole : Whole ['0'] := decimalDigits_zero ▸ whole_decimalDigits (Nat.two_pow_pos 64)
  have hnull : digitsValue ['0'] = 0 := rfl
  change ∃ m,
    ofChars? (signText negative ++ (['0'] ++ '.' :: (List.replicate _ '0' ++ _))) = _ ∧ _
  refine renders_plain negative hwhole hdigits (List.append_ne_nil_of_right_ne_nil _
    (List.cons_ne_nil _ _)) (le_of_eq ?_)
  rw [digitsAfter_append, digitsAfter_zeros, hnull, Nat.zero_mul, ← digitsValue, h.value,
    Decimal.magnitude, List.length_append, List.length_replicate]
  congr 2
  omega

end Spells

/-- **The layout of a decimal number is read**, and what is gathered is not more than the number. -/
theorem exists_renders (negative : Bool) (hzero : x.digits = 0 → x.power = 0)
    (hpower : -416 ≤ x.power) (hsafe : x.magnitude ≤ Double.safe) :
    ∃ m, ofChars? (signText negative ++ Double.layout x) = some m ∧ m.Renders x := by
  obtain ⟨c, rest, hds, h⟩ := exists_spells x
  unfold Double.layout
  dsimp only
  rw [hds]
  simp only [Bool.and_eq_true, decide_eq_true_eq]
  split_ifs with hplain hpoint hsmall
  · exact h.renders_behind negative hzero hplain.1 hplain.2
  · have hneg : x.power < 0 := not_le.mp fun hle ↦ hplain ⟨hle, hpoint.2⟩
    exact h.renders_among negative hneg hpoint.1 hpoint.2
  · exact h.renders_before negative hsmall.2
  · -- Only here the number may be great. Zero is laid out with a point.
    have h0 : x.digits ≠ 0 := by
      intro h0
      have hone : decimalDigits 0 = c :: rest := h0 ▸ hds
      rw [decimalDigits_zero] at hone
      rw [hzero h0, ← hone] at hplain
      exact hplain (by decide)
    have hlt := power_lt hsafe (ten_pow_length_le h0)
    rw [hds] at hlt
    have hlength : (c :: rest).length = rest.length + 1 := List.length_cons
    have he : ((c :: rest).length + x.power - 1).natAbs < exponentLimit := by
      change _ < 2 ^ 31
      omega
    have hle : digitsValue (c :: rest)
        * (10 : ℚ) ^ ((c :: rest).length + x.power - 1 - rest.length) ≤ x.magnitude := by
      refine le_of_eq ?_
      rw [h.value, Decimal.magnitude, hlength]
      congr 2
      push_cast
      ring
    have hread := renders_scientific negative h.digits he hle
    cases rest with
    | nil => exact hread
    | cons d rest =>
      rw [if_neg (List.cons_ne_nil d rest)] at hread
      exact hread

/-- What is read of a decimal number with a sign. -/
def reread? (negative : Bool) (x : Decimal) : Option JsonNumber :=
  (ofChars? (signText negative ++ Double.layout x)).bind value?

/-- The two greatest doubles come back, although they are past the threshold: reading their text
happens to round them down. -/
theorem isSome_reread_greatest : ∀ negative : Bool,
    (reread? negative
      (Double.shortestFrom ⟨negative, 2 ^ 53 - 2, Double.greatestExponent⟩ 308)).isSome ∧
    (reread? negative
      (Double.shortestFrom ⟨negative, 2 ^ 53 - 1, Double.greatestExponent⟩ 308)).isSome := by
  decide +kernel

theorem isSome_reread_shortest {d : Double} (h : d.InRange) :
    (reread? d.negative d.shortest).isSome := by
  by_cases htop : d.exponent = Double.greatestExponent → d.mantissa ≤ 2 ^ 53 - 3
  · have hnears := d.nears_shortest
    have hsafe := hnears.magnitude_le_safe h htop
    obtain ⟨m, hm, hrenders⟩ :=
      exists_renders d.negative hnears.power_of_zero hnears.le_power hsafe
    obtain ⟨e, he⟩ := hrenders.exists_value hsafe
    rw [reread?, hm, Option.bind_some, he]
    rfl
  · obtain ⟨hexponent, hmantissa⟩ := Classical.not_imp.mp htop
    have hlt : d.mantissa < 2 ^ 53 := h.mantissa_lt
    rw [Double.shortest_eq, Double.leadingPower_greatest hexponent (by omega) hlt]
    obtain ⟨negative, mantissa, exponent⟩ := d
    obtain rfl : exponent = Double.greatestExponent := hexponent
    obtain ⟨hsecond, hfirst⟩ := isSome_reread_greatest negative
    have hcases : mantissa = 2 ^ 53 - 2 ∨ mantissa = 2 ^ 53 - 1 := by
      dsimp only at hmantissa hlt
      omega
    rcases hcases with rfl | rfl
    · exact hsecond
    · exact hfirst

theorem signed_eq (negative : Bool) (cs : List Char) :
    (if negative then '-' :: cs else cs) = signText negative ++ cs := by
  cases negative <;> rfl

theorem text_of_zero {d : Double} (h : d.mantissa = 0) :
    d.text = signText d.negative ++ ['0', '.', '0'] := by
  simp only [Double.text, if_pos h, signed_eq]

theorem text_of_ne_zero {d : Double} (h : d.mantissa ≠ 0) :
    d.text = signText d.negative ++ Double.layout d.shortest := by
  simp only [Double.text, if_neg h, signed_eq]

theorem isSome_read_zero : ∀ negative : Bool,
    ((ofChars? (signText negative ++ ['0', '.', '0'])).bind value?).isSome := by
  decide +kernel

/-- The text of a double is read. -/
theorem exists_read_double {d : Double} (h : d.InRange) :
    ∃ m w, ofChars? d.text = some m ∧ m.value? = some w := by
  have hread : ((ofChars? d.text).bind value?).isSome := by
    by_cases hzero : d.mantissa = 0
    · rw [text_of_zero hzero]
      exact isSome_read_zero d.negative
    · rw [text_of_ne_zero hzero]
      exact isSome_reread_shortest h
  obtain ⟨w, hw⟩ := Option.isSome_iff_exists.mp hread
  obtain ⟨m, hm, hvalue⟩ := Option.bind_eq_some_iff.mp hw
  exact ⟨m, w, hm, hvalue⟩

end

end Numeral

/-- **A number is read from its own text**, and an integer is read as it is. -/
theorem JsonNumber.exists_read {v : JsonNumber} (h : v.InRange) :
    ∃ m w, Numeral.ofChars? v.text = some m ∧ m.value? = some w ∧ ∀ i, v = .int i → w = v := by
  cases v with
  | int i =>
    obtain ⟨m, hm, hvalue⟩ := Numeral.exists_read_int h
    exact ⟨m, .int i, hm, hvalue, fun _ _ ↦ rfl⟩
  | double d =>
    obtain ⟨m, w, hm, hvalue⟩ := Numeral.exists_read_double h
    exact ⟨m, w, hm, hvalue, fun _ hi ↦ nomatch hi⟩

end RecordLinkage
