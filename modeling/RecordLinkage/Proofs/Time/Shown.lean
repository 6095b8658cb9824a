import RecordLinkage.Cluster.View
import RecordLinkage.Proofs.Histogram
import RecordLinkage.Proofs.Number.Decimal
import RecordLinkage.Proofs.Time.Calendar

/-!
# Datestamps that are shown

A datestamp is a moment: a day of the calendar and a time of that day. The view of a cluster shows
the moment, with as many digits of the fraction as it takes, and a harvester that gives the text
back continues at the same datestamp. The writer and the reader have no code in common, so between
them stands the form of the text: which digits there are, and what they stand for.

A harvester may as well give a number of microseconds. A date is not taken for a number, because of
the hyphen after the year.
-/

namespace RecordLinkage

open Time (Day)
open Number (decimalDigits digitsValue digitsAfter)

/-! ## Moments -/

/-- A point in time as a calendar and a clock tell it. -/
structure Moment where
  day : Day
  hour : ℕ
  minute : ℕ
  second : ℕ
  micros : ℕ

namespace Moment

/-- A datestamp is that of a moment: days are counted from 1 January 1970 on, and a day has 24 hours
of 60 minutes of 60 seconds of a million microseconds. -/
structure IsAt (m : Moment) (stamp : Datestamp) : Prop where
  hour_lt : m.hour < 24
  minute_lt : m.minute < 60
  second_lt : m.second < 60
  micros_lt : m.micros < 1000000
  counted : ∃ n : ℤ, m.day.Counted n ∧
    (((n * 24 + m.hour) * 60 + m.minute) * 60 + m.second) * 1000000 + m.micros = stamp

/-- The moment of a datestamp. -/
def of (stamp : Datestamp) : Moment :=
  let seconds := stamp / Datestamp.perSecond
  let time := (seconds % Datestamp.secondsPerDay).toNat
  ⟨Day.ofNumber (seconds / Datestamp.secondsPerDay), time / 3600, time / 60 % 60, time % 60,
    (stamp % Datestamp.perSecond).toNat⟩

variable {m : Moment} {stamp : Datestamp}

theorem isAt_of (stamp : Datestamp) : (of stamp).IsAt stamp := by
  constructor
  case counted =>
    refine ⟨_, Day.counted_iff.mpr rfl, ?_⟩
    simp only [of, Datestamp.perSecond, Datestamp.secondsPerDay]
    omega
  all_goals
    simp only [of, Datestamp.perSecond, Datestamp.secondsPerDay]
    omega

/-- **A datestamp is that of one moment.** -/
theorem IsAt.eq_of (h : m.IsAt stamp) : m = of stamp := by
  obtain ⟨hhour, hminute, hsecond, hmicros, n, hday, rfl⟩ := h
  obtain ⟨day, hour, minute, second, micros⟩ := m
  obtain rfl := Day.counted_iff.mp hday
  simp only [of, Datestamp.perSecond, Datestamp.secondsPerDay, Moment.mk.injEq] at *
  refine ⟨congrArg Day.ofNumber ?_, ?_, ?_, ?_, ?_⟩ <;> omega

theorem existsUnique_isAt (stamp : Datestamp) : ∃! m : Moment, m.IsAt stamp :=
  ⟨of stamp, isAt_of stamp, fun _ h ↦ h.eq_of⟩

end Moment

namespace Datestamp

/-! ## Digits -/

/-- Decimal digits of a number, as many as given. -/
structure IsPadded (width n : ℕ) (cs : List Char) : Prop where
  length_eq : cs.length = width
  isDigit : ∀ c ∈ cs, c.isDigit = true
  value : digitsValue cs = n

theorem isPadded_padded {width n : ℕ} (hwidth : 0 < width) (hn : n < 10 ^ width) :
    IsPadded width n (padded width n) := by
  have hlength : (decimalDigits n).length ≤ width := by
    rcases Nat.eq_zero_or_pos n with rfl | hpos
    · rw [Number.decimalDigits_zero]
      exact hwidth
    · have hpow := (Number.ten_pow_length_le hpos.ne').trans_lt hn
      have := (Nat.pow_lt_pow_iff_right (by decide)).mp hpow
      omega
  constructor
  · rw [padded, List.length_append, List.length_replicate, Nat.sub_add_cancel hlength]
  · intro c hc
    rcases List.mem_append.mp hc with hzero | hdigit
    · rw [(List.mem_replicate.mp hzero).2]
      rfl
    · exact Number.isDigit_of_mem_decimalDigits n c hdigit
  · rw [padded, digitsValue, Number.digitsAfter_append, Number.digitsAfter_zeros, Nat.zero_mul]
    exact Number.digitsValue_decimalDigits n

theorem ofDigits?_eq {cs : List Char} (hne : cs ≠ []) (hdigits : ∀ c ∈ cs, c.isDigit = true) :
    Number.ofDigits? cs = some (digitsValue cs) := by
  have hempty : cs.isEmpty = false := by simpa using hne
  have hall : cs.all Char.isDigit = true := List.all_eq_true.mpr hdigits
  rw [Number.ofDigits?, hempty, hall]
  rfl

theorem number?_append {width n : ℕ} {cs : List Char} (hwidth : 0 < width)
    (h : IsPadded width n cs) (rest : List Char) :
    number? width (cs ++ rest) = some (n, rest) := by
  have hne : cs ≠ [] := by
    rintro rfl
    exact hwidth.ne h.length_eq
  rw [number?, List.take_left' h.length_eq, List.drop_left' h.length_eq, if_pos h.length_eq,
    ofDigits?_eq hne h.isDigit, h.value]
  rfl

/-! ## Fractions -/

/-- A fraction of a second in microseconds, and its text. -/
inductive IsFraction : ℕ → List Char → Prop
  | whole : IsFraction 0 []
  | millis {n : ℕ} {cs : List Char} (h : IsPadded 3 n cs) (h0 : n ≠ 0) :
      IsFraction (n * 1000) ('.' :: cs)
  | micros {n : ℕ} {cs : List Char} (h : IsPadded 6 n cs) (h0 : n % 1000 ≠ 0) :
      IsFraction n ('.' :: cs)

theorem isFraction_fractionChars {micros : ℕ} (h : micros < 1000000) :
    IsFraction micros (fractionChars micros) := by
  unfold fractionChars
  split_ifs with hwhole hmillis
  · rw [hwhole]
    exact .whole
  · have hdiv : micros / 1000 * 1000 = micros := Nat.div_mul_cancel (Nat.dvd_of_mod_eq_zero hmillis)
    have hpadded : IsPadded 3 (micros / 1000) (padded 3 (micros / 1000)) :=
      isPadded_padded (by decide) (by omega)
    have hfraction := IsFraction.millis hpadded (by omega)
    rwa [hdiv] at hfraction
  · exact .micros (isPadded_padded (by decide) h) hmillis

theorem fraction?_digits {cs : List Char} (hne : cs ≠ []) (hdigits : ∀ c ∈ cs, c.isDigit = true) :
    fraction? ('.' :: cs ++ ['Z'])
      = (Number.ofDigits? ((cs ++ List.replicate 6 '0').take 6)).map fun n ↦ (n, ['Z']) := by
  have htake : (cs ++ ['Z']).takeWhile Char.isDigit = cs := by
    rw [List.takeWhile_append_of_pos hdigits]
    exact List.append_nil cs
  have hdrop : (cs ++ ['Z']).dropWhile Char.isDigit = ['Z'] :=
    List.dropWhile_append_of_pos hdigits
  have hempty : cs.isEmpty = false := by simpa using hne
  simp only [List.cons_append, fraction?, htake, hdrop, hempty]
  rfl

theorem fraction?_append {micros : ℕ} {cs : List Char} (h : IsFraction micros cs) :
    fraction? (cs ++ ['Z']) = some (micros, ['Z']) := by
  cases h with
  | whole => rfl
  | @millis n cs h h0 =>
    have hne : cs ≠ [] := List.ne_nil_of_length_eq_add_one h.length_eq
    have hsix : (cs ++ List.replicate 6 '0').take 6 = cs ++ List.replicate 3 '0' := by
      rw [List.take_append, h.length_eq, List.take_of_length_le (h.length_eq.trans_le (by decide))]
      rfl
    have hdigits : ∀ c ∈ cs ++ List.replicate 3 '0', c.isDigit = true := by
      intro c hc
      rcases List.mem_append.mp hc with hdigit | hzero
      · exact h.isDigit c hdigit
      · rw [(List.mem_replicate.mp hzero).2]
        rfl
    have hvalue : digitsValue (cs ++ List.replicate 3 '0') = n * 1000 := by
      rw [digitsValue, Number.digitsAfter_append, Number.digitsAfter_zeros]
      exact congrArg (· * 1000) h.value
    rw [fraction?_digits hne h.isDigit, hsix,
      ofDigits?_eq (List.append_ne_nil_of_left_ne_nil hne _) hdigits, hvalue]
    rfl
  | @micros n cs h h0 =>
    have hne : cs ≠ [] := List.ne_nil_of_length_eq_add_one h.length_eq
    rw [fraction?_digits hne h.isDigit, List.take_left' h.length_eq, ofDigits?_eq hne h.isDigit,
      h.value]
    rfl

end Datestamp

/-! ## The form of the text -/

open Datestamp in
/-- The text of a moment within the years of four digits. -/
inductive Moment.IsShownAs (m : Moment) : List Char → Prop
  | mk {year month day hour minute second fraction : List Char}
      (hyear : IsPadded 4 m.day.year.toNat year) (hmonth : IsPadded 2 m.day.month month)
      (hday : IsPadded 2 m.day.day day) (hhour : IsPadded 2 m.hour hour)
      (hminute : IsPadded 2 m.minute minute) (hsecond : IsPadded 2 m.second second)
      (hfraction : IsFraction m.micros fraction) :
      m.IsShownAs (year ++ '-' :: month ++ '-' :: day ++ 'T' :: hour ++ ':' :: minute ++
        ':' :: second ++ fraction ++ ['Z'])

namespace Datestamp

variable {m : Moment} {stamp : Datestamp} {cs : List Char}

theorem monthLength_lt (year : ℤ) (month : ℕ) : Time.monthLength year month < 32 := by
  rw [Time.monthLength]
  split_ifs <;> decide

theorem isShownAs_chars (hlow : 0 ≤ (Moment.of stamp).day.year)
    (hhigh : (Moment.of stamp).day.year ≤ 9999) :
    ∃ cs, chars? stamp = some cs ∧ (Moment.of stamp).IsShownAs cs := by
  have hat := Moment.isAt_of stamp
  have hvalid : (Moment.of stamp).day.isValid = true := Day.isValid_ofNumber _
  obtain ⟨hmonth, hday, hlength⟩ := (Day.isValid_iff _).mp hvalid
  have hlast := hlength.trans_lt (monthLength_lt _ _)
  have hyear : yearChars (Moment.of stamp).day.year
      = padded 4 (Moment.of stamp).day.year.toNat := by
    rw [yearChars, if_pos (by simp [hlow, hhigh])]
  have hshown := Moment.IsShownAs.mk (m := Moment.of stamp)
    (isPadded_padded (by decide) (by omega)) (isPadded_padded (by decide) (by omega))
    (isPadded_padded (by decide) (by omega))
    (isPadded_padded (by decide) (hat.hour_lt.trans (by decide)))
    (isPadded_padded (by decide) (hat.minute_lt.trans (by decide)))
    (isPadded_padded (by decide) (hat.second_lt.trans (by decide)))
    (isFraction_fractionChars hat.micros_lt)
  rw [← hyear] at hshown
  have hrange : ¬((Moment.of stamp).day.year < firstYear ||
      lastYear < (Moment.of stamp).day.year) = true := by
    rw [Bool.or_eq_true, decide_eq_true_eq, decide_eq_true_eq, firstYear, lastYear]
    omega
  exact ⟨_, if_neg hrange, hshown⟩

theorem expect?_cons (c : Char) (rest : List Char) : expect? c (c :: rest) = some rest := if_pos rfl

theorem timeMark?_cons (rest : List Char) : timeMark? ('T' :: rest) = some rest := rfl

theorem offset?_utc : offset? ['Z'] = some (0, []) := rfl

/-- **A date with a time is read as the datestamp of its moment.** -/
theorem ofDate?_of_isShownAs (h : m.IsShownAs cs) (hat : m.IsAt stamp) (hyear : 0 ≤ m.day.year) :
    ofDate? cs = some stamp := by
  obtain ⟨n, hcounted, rfl⟩ := hat.counted
  have hday := Day.counted_iff.mp hcounted
  have hvalid : m.day.isValid = true := hday ▸ Day.isValid_ofNumber n
  have hnumber : m.day.toNumber = n := hday ▸ Day.toNumber_ofNumber n
  cases h with
  | mk year month day hour minute second fraction =>
    simp only [List.append_assoc, List.cons_append]
    refine Option.bind_eq_some_iff.mpr ⟨_, number?_append (by decide) year _, ?_⟩
    refine Option.bind_eq_some_iff.mpr ⟨_, expect?_cons _ _, ?_⟩
    refine Option.bind_eq_some_iff.mpr ⟨_, number?_append (by decide) month _, ?_⟩
    refine Option.bind_eq_some_iff.mpr ⟨_, expect?_cons _ _, ?_⟩
    refine Option.bind_eq_some_iff.mpr ⟨_, number?_append (by decide) day _, ?_⟩
    refine Option.bind_eq_some_iff.mpr ⟨_, timeMark?_cons _, ?_⟩
    refine Option.bind_eq_some_iff.mpr ⟨_, number?_append (by decide) hour _, ?_⟩
    refine Option.bind_eq_some_iff.mpr ⟨_, expect?_cons _ _, ?_⟩
    refine Option.bind_eq_some_iff.mpr ⟨_, number?_append (by decide) minute _, ?_⟩
    refine Option.bind_eq_some_iff.mpr ⟨_, expect?_cons _ _, ?_⟩
    refine Option.bind_eq_some_iff.mpr ⟨_, number?_append (by decide) second _, ?_⟩
    refine Option.bind_eq_some_iff.mpr ⟨_, fraction?_append fraction, ?_⟩
    refine Option.bind_eq_some_iff.mpr ⟨_, offset?_utc, ?_⟩
    have hdate : (⟨(m.day.year.toNat : ℤ), m.day.month, m.day.day⟩ : Day) = m.day := by
      rw [Int.toNat_of_nonneg hyear]
    have hclock : (decide (24 ≤ m.hour) || decide (60 ≤ m.minute) || decide (61 ≤ m.second))
        = false := by
      simp only [Bool.or_eq_false_iff, decide_eq_false_iff_not]
      have := hat.hour_lt
      have := hat.minute_lt
      have := hat.second_lt
      omega
    rw [Bool.or_eq_false_iff, Bool.or_eq_false_iff] at hclock
    simp only [hdate, hvalid, hnumber, hclock, List.isEmpty_nil, Bool.not_true, Bool.or_false,
      Bool.false_eq_true, if_false, perSecond, secondsPerDay]
    refine congrArg some ?_
    push_cast
    ring

/-! ## Numbers -/

theorem signed?_digits {c : Char} {rest : List Char} (hc : c.isDigit = true) :
    Number.signed? (c :: rest) = (Number.ofDigits? (c :: rest)).map fun n : ℕ ↦ (n : ℤ) := by
  unfold Number.signed?
  split
  next h =>
    obtain ⟨rfl, -⟩ := List.cons.inj h
    exact absurd hc (by decide)
  next h =>
    obtain ⟨rfl, -⟩ := List.cons.inj h
    exact absurd hc (by decide)
  next => cases Number.ofDigits? (c :: rest) <;> rfl

theorem signed?_minus (cs : List Char) :
    Number.signed? ('-' :: cs) = (Number.ofDigits? cs).map fun n : ℕ ↦ -(n : ℤ) := by
  have hminus : Number.signed? ('-' :: cs)
      = ((Number.ofDigits? cs).bind fun n : ℕ ↦ some (n : ℤ)).map fun i ↦ -i := rfl
  rw [hminus]
  cases Number.ofDigits? cs <;> rfl

theorem signed?_integerText (i : ℤ) : Number.signed? (Number.integerText i) = some i := by
  obtain ⟨c, rest, heq, -⟩ := Number.exists_decimalDigits_cons i.natAbs
  have hdigits := Number.isDigit_of_mem_decimalDigits i.natAbs
  have hread := Number.digitsValue_decimalDigits i.natAbs ▸
    ofDigits?_eq (heq ▸ List.cons_ne_nil c rest) hdigits
  rw [Number.integerText]
  split_ifs with hnegative
  · rw [signed?_minus, hread, Option.map_some]
    exact congrArg some (by omega)
  · have hc : c.isDigit = true := hdigits c (heq ▸ List.mem_cons_self)
    rw [heq, signed?_digits hc, ← heq, hread, Option.map_some]
    exact congrArg some (by omega)

/-- **The decimal text of a number is read as the number.** -/
theorem parse?_integerText {i : ℤ} (hlow : Number.leastSigned ≤ i)
    (hhigh : i ≤ Number.greatestSigned) :
    parse? (String.ofList (Number.integerText i)) = some i := by
  have hsigned : Number.signed64? (String.ofList (Number.integerText i)) = some i := by
    rw [Number.signed64?, String.toList_ofList, signed?_integerText, Option.filter_some, if_pos]
    simp [hlow, hhigh]
  rw [parse?, hsigned]

theorem ofDigits?_eq_none {c : Char} (hmem : c ∈ cs) (hc : c.isDigit = false) :
    Number.ofDigits? cs = none := by
  have hall : cs.all Char.isDigit = false :=
    List.all_eq_false.mpr ⟨c, hmem, Bool.not_eq_true _ ▸ hc⟩
  rw [Number.ofDigits?, hall, Bool.not_false, Bool.or_true]
  rfl

/-- A date is not a number, because of the hyphen after the year. -/
theorem signed?_of_isShownAs (h : m.IsShownAs cs) : Number.signed? cs = none := by
  have hdash : '-' ∈ cs := by
    cases h
    simp only [List.mem_append, List.mem_cons, true_or, or_true]
  have hfirst : ∃ c rest, cs = c :: rest ∧ c.isDigit = true := by
    cases h with
    | mk hyear =>
      obtain ⟨c, rest, rfl⟩ := List.exists_cons_of_length_eq_add_one hyear.length_eq
      exact ⟨c, _, rfl, hyear.isDigit c List.mem_cons_self⟩
  obtain ⟨c, rest, rfl, hc⟩ := hfirst
  rw [signed?_digits hc, ofDigits?_eq_none hdash (by decide)]
  rfl

/-- **A date is read as the datestamp of its moment.** -/
theorem parse?_of_isShownAs (h : m.IsShownAs cs) (hat : m.IsAt stamp) (hyear : 0 ≤ m.day.year) :
    parse? (String.ofList cs) = some stamp := by
  have hsigned : Number.signed64? (String.ofList cs) = none := by
    rw [Number.signed64?, String.toList_ofList, signed?_of_isShownAs h]
    rfl
  rw [parse?, hsigned, String.toList_ofList]
  exact ofDate?_of_isShownAs h hat hyear

end Datestamp

/-! ## The view of a cluster -/

theorem ClusterView.get?_datestamp {stamp : Datestamp} {text : String}
    (h : stamp.text? = some text) (cluster : ClusterId) (records : List Record)
    (values : List String) :
    (ClusterView.of cluster (some stamp) records values).toJson.get? "datestamp"
      = some (.string text) := by
  simp only [ClusterView.of, ClusterView.toJson, Option.bind_some, h, Option.map_some,
    Option.toList_some]
  rfl

namespace Datestamp

/-- **A datestamp that is shown can be given back.** Every datestamp is that of one moment; within
the years of four digits the view of a cluster shows that moment, with no digits of a fraction,
three or six, and its text is read as the datestamp. So is the decimal text of every number of 64
bits. -/
theorem shown_datestamp_reads_back :
    (∀ stamp : Datestamp, ∃! m : Moment, m.IsAt stamp) ∧
    (∀ (stamp : Datestamp) (m : Moment), m.IsAt stamp → 0 ≤ m.day.year → m.day.year ≤ 9999 →
      ∃ text : String,
        (∀ cluster records values,
          (ClusterView.of cluster (some stamp) records values).toJson.get? "datestamp"
            = some (.string text)) ∧
        m.IsShownAs text.toList ∧ parse? text = some stamp) ∧
    (∀ i : ℤ, Number.leastSigned ≤ i → i ≤ Number.greatestSigned →
      parse? (String.ofList (Number.integerText i)) = some i) := by
  refine ⟨Moment.existsUnique_isAt, fun stamp m hat hlow hhigh ↦ ?_,
    fun i hlow hhigh ↦ parse?_integerText hlow hhigh⟩
  obtain rfl := hat.eq_of
  obtain ⟨cs, hchars, hshown⟩ := isShownAs_chars hlow hhigh
  have htext : stamp.text? = some (String.ofList cs) := by rw [text?, hchars, Option.map_some]
  refine ⟨String.ofList cs, ClusterView.get?_datestamp htext, ?_,
    parse?_of_isShownAs hshown hat hlow⟩
  rwa [String.toList_ofList]

/-- The last microsecond before 1970 has a fraction of six digits. -/
theorem before_epoch_reads_back :
    (Moment.mk ⟨1969, 12, 31⟩ 23 59 59 999999).IsAt (-1) ∧
    (∃ text : String,
      (∀ cluster records values,
        (ClusterView.of cluster (some (-1)) records values).toJson.get? "datestamp"
          = some (.string text)) ∧
      (Moment.mk ⟨1969, 12, 31⟩ 23 59 59 999999).IsShownAs text.toList ∧ parse? text = some (-1)) ∧
    parse? (String.ofList (Number.integerText (-1))) = some (-1) := by
  have hat : (Moment.mk ⟨1969, 12, 31⟩ 23 59 59 999999).IsAt (-1) :=
    ⟨by decide, by decide, by decide, by decide, -1, Day.counted_iff.mpr (by decide), by decide⟩
  exact ⟨hat, shown_datestamp_reads_back.2.1 (-1) _ hat (by decide) (by decide),
    shown_datestamp_reads_back.2.2 (-1) (by decide) (by decide)⟩

end Datestamp

end RecordLinkage
