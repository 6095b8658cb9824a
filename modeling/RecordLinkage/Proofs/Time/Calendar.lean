import Mathlib.Data.Int.Order.Basic
import Mathlib.Tactic.IntervalCases
import Mathlib.Tactic.Ring
import RecordLinkage.Time.Calendar

/-!
# Days and their numbers

A calendar is fixed by the rule that says which day comes after which, and by the number of one day.
The arithmetic in closed form finds the day of a number and the number of a day without walking
there, and this is that it arrives at the same place.

## Years of an era

Counted from 1 March, an era of four hundred years consists of centuries, a century of cycles of
four years, a cycle of years, and of these all but the last one of a cycle have 365 days. The last
one has a day more, except at the end of a century that is not the last one of the era. So the
number of a day within its era is split once into its parts, and all divisions are read off the
parts.
-/

namespace RecordLinkage.Time

/-! ## Eras -/

/-- A day of an era, by century, cycle, year of the cycle and day of the year. -/
structure EraDay where
  century : ℤ
  cycle : ℤ
  year : ℤ
  day : ℤ

namespace EraDay

/-- The parts are within their bounds, and years that are not longer have no further day. -/
structure IsValid (p : EraDay) : Prop where
  century : 0 ≤ p.century ∧ p.century ≤ 3
  cycle : 0 ≤ p.cycle ∧ p.cycle ≤ 24
  year : 0 ≤ p.year ∧ p.year ≤ 3
  day : 0 ≤ p.day ∧ p.day ≤ 365
  leap : p.day = 365 → p.year = 3 ∧ (p.cycle = 24 → p.century = 3)

/-- The year of the era. -/
def yearOfEra (p : EraDay) : ℤ := 100 * p.century + 4 * p.cycle + p.year

/-- The number of the day within the era. -/
def number (p : EraDay) : ℤ := 36524 * p.century + 1461 * p.cycle + 365 * p.year + p.day

variable {p : EraDay}

theorem IsValid.number_bounds (h : p.IsValid) : 0 ≤ p.number ∧ p.number < 146097 := by
  obtain ⟨century, cycle, year, day⟩ := p
  obtain ⟨hcentury, hcycle, hyear, hday, hleap⟩ := h
  simp only [number] at *
  omega

theorem exists_number_eq {n : ℤ} (h0 : 0 ≤ n) (hn : n < 146097) :
    ∃ p : EraDay, p.IsValid ∧ p.number = n := by
  let century := min (n / 36524) 3
  let cycle := (n - 36524 * century) / 1461
  let rest := (n - 36524 * century) % 1461
  let year := min (rest / 365) 3
  refine ⟨⟨century, cycle, year, rest - 365 * year⟩, ⟨?_, ?_, ?_, ?_, ?_⟩, ?_⟩ <;>
    simp only [number, century, cycle, year, rest] <;> omega

/-- **The closed form finds the year of the era.** The day that an era has in excess of its
centuries is the only one that is not told from the others by its century. -/
theorem IsValid.yearOfEra_eq (h : p.IsValid) :
    (p.number - p.number / 1460 + p.number / 36524 - p.number / 146096) / 365 = p.yearOfEra := by
  obtain ⟨century, cycle, year, day⟩ := p
  obtain ⟨hcentury, hcycle, hyear, hday, hleap⟩ := h
  simp only [number, yearOfEra] at *
  generalize hn : 36524 * century + 1461 * cycle + 365 * year + day = n
  by_cases hlast : n = 146096
  · omega
  · have hera : n / 146096 = 0 := by omega
    have hcenturies : n / 36524 = century := by omega
    -- Years are counted too often by one where the days of the cycles add up to four of them.
    have hcycles : n / 1460
        = 25 * century + cycle + (24 * century + cycle + 365 * year + day) / 1460 := by omega
    rw [hera, hcenturies, hcycles]
    omega

theorem IsValid.yearOfEra_bounds (h : p.IsValid) : 0 ≤ p.yearOfEra ∧ p.yearOfEra < 400 := by
  obtain ⟨hcentury, hcycle, hyear, -, -⟩ := h
  rw [yearOfEra]
  omega

/-- The years before a year of an era, in days. -/
theorem IsValid.number_eq (h : p.IsValid) :
    p.number = 365 * p.yearOfEra + p.yearOfEra / 4 - p.yearOfEra / 100 + p.day := by
  obtain ⟨century, cycle, year, day⟩ := p
  obtain ⟨hcentury, hcycle, hyear, hday, hleap⟩ := h
  simp only [number, yearOfEra] at *
  omega

end EraDay

/-! ## Days -/

theorem isLeap_iff (year : ℤ) :
    isLeap year = true ↔ year % 4 = 0 ∧ (year % 100 = 0 → year % 400 = 0) := by
  simp only [isLeap, Bool.and_eq_true, Bool.or_eq_true, decide_eq_true_eq, ne_eq]
  tauto

/-- A year ends with a leap day if it is the last one of a cycle, and does not end a century other
than the last one. -/
theorem isLeap_parts {era century cycle year : ℤ} (hcentury : 0 ≤ century ∧ century ≤ 3)
    (hcycle : 0 ≤ cycle ∧ cycle ≤ 24) (hyear : 0 ≤ year ∧ year ≤ 3) :
    isLeap (400 * era + (100 * century + 4 * cycle + year) + 1) = true ↔
      year = 3 ∧ (cycle = 24 → century = 3) := by
  rw [isLeap_iff]
  omega

theorem monthLength_february (year : ℤ) : monthLength year 2 = if isLeap year then 29 else 28 :=
  if_pos rfl

namespace Day

/-- The year of a day, when years begin with March. -/
def marchYear (d : Day) : ℤ := if d.month ≤ 2 then d.year - 1 else d.year

/-- The month of a day, counted from March on. -/
def marchMonth (d : Day) : ℤ := if d.month ≤ 2 then d.month + 9 else d.month - 3

/-- The lengths of the months follow one linear rule, except for February. -/
theorem monthLength_eq {d : Day} (hmonth : 1 ≤ d.month ∧ d.month ≤ 12) (hfebruary : d.month ≠ 2) :
    (monthLength d.year d.month : ℤ)
      = (153 * (d.marchMonth + 1) + 2) / 5 - (153 * d.marchMonth + 2) / 5 := by
  obtain ⟨year, month, day⟩ := d
  obtain ⟨hlow, hhigh⟩ := hmonth
  interval_cases month
  · simp [monthLength, marchMonth]
  · exact absurd rfl hfebruary
  all_goals simp [monthLength, marchMonth]

theorem isValid_iff (d : Day) : d.isValid = true ↔ (1 ≤ d.month ∧ d.month ≤ 12) ∧
    1 ≤ d.day ∧ d.day ≤ monthLength d.year d.month := by
  simp only [isValid, Bool.and_eq_true, decide_eq_true_eq]
  tauto

theorem toNumber_eq (d : Day) : d.toNumber = d.marchYear / 400 * eraLength +
    (d.marchYear % 400 * 365 + d.marchYear % 400 / 4 - d.marchYear % 400 / 100 +
      ((153 * d.marchMonth + 2) / 5 + d.day - 1)) - epochShift := rfl

/-- The day with given parts in an era. -/
def ofParts (era : ℤ) (p : EraDay) : Day :=
  let month := (5 * p.day + 2) / 153
  let year := 400 * era + p.yearOfEra
  ⟨if month < 10 then year else year + 1, (if month < 10 then month + 3 else month - 9).toNat,
    (p.day - (153 * month + 2) / 5 + 1).toNat⟩

variable {era : ℤ} {p : EraDay} {d : Day}

theorem ofNumber_eq (h : p.IsValid) :
    ofNumber (eraLength * era + p.number - epochShift) = ofParts era p := by
  obtain ⟨hlow, hhigh⟩ := h.number_bounds
  have hera : (eraLength * era + p.number - epochShift + epochShift) / eraLength = era := by
    simp only [eraLength, epochShift]
    omega
  have hday : (eraLength * era + p.number - epochShift + epochShift) % eraLength = p.number := by
    simp only [eraLength, epochShift]
    omega
  have hrest : p.number
      - (365 * p.yearOfEra + p.yearOfEra / 4 - p.yearOfEra / 100) = p.day := by
    rw [h.number_eq]
    omega
  have hmonth : 0 ≤ (5 * p.day + 2) / 153 ∧ (5 * p.day + 2) / 153 ≤ 11 := by
    have := h.day
    omega
  simp only [ofNumber, hera, hday, h.yearOfEra_eq, hrest, ofParts, Day.mk.injEq, and_true]
  split_ifs <;> omega

section OfParts

variable (h : p.IsValid)

include h

theorem marchMonth_ofParts : (ofParts era p).marchMonth = (5 * p.day + 2) / 153 := by
  have hday := h.day
  simp only [marchMonth, ofParts]
  split_ifs <;> omega

theorem marchYear_ofParts : (ofParts era p).marchYear = 400 * era + p.yearOfEra := by
  have hday := h.day
  simp only [marchYear, ofParts]
  split_ifs <;> omega

theorem day_ofParts :
    ((ofParts era p).day : ℤ) = p.day - (153 * ((5 * p.day + 2) / 153) + 2) / 5 + 1 := by
  have hday := h.day
  simp only [ofParts]
  omega

theorem toNumber_ofParts :
    (ofParts era p).toNumber = eraLength * era + p.number - epochShift := by
  have hyear : 0 ≤ p.yearOfEra ∧ p.yearOfEra < 400 := h.yearOfEra_bounds
  have hera : (400 * era + p.yearOfEra) / 400 = era := by omega
  have hrest : (400 * era + p.yearOfEra) % 400 = p.yearOfEra := by omega
  rw [toNumber_eq, marchYear_ofParts h, marchMonth_ofParts h, day_ofParts h, hera, hrest,
    h.number_eq]
  ring

theorem isValid_ofParts : (ofParts era p).isValid = true := by
  have hday := h.day
  have hmonth : 1 ≤ (ofParts era p).month ∧ (ofParts era p).month ≤ 12 := by
    simp only [ofParts]
    split_ifs <;> omega
  have hday' := @day_ofParts era p h
  have hmarch := @marchMonth_ofParts era p h
  refine (isValid_iff _).mpr ⟨hmonth, by omega, ?_⟩
  by_cases hfebruary : (ofParts era p).month = 2
  · rw [marchMonth, if_pos (by omega), hfebruary] at hmarch
    rw [hfebruary, monthLength_february]
    have hyear : (ofParts era p).year = 400 * era + p.yearOfEra + 1 := if_neg (by omega)
    have hleap : isLeap (ofParts era p).year = true ↔
        p.year = 3 ∧ (p.cycle = 24 → p.century = 3) := by
      rw [hyear]
      exact isLeap_parts h.century h.cycle h.year
    by_cases hlast : p.day = 365
    · rw [if_pos (hleap.mpr (h.leap hlast))]
      omega
    · split_ifs <;> omega
  · have hlength := monthLength_eq hmonth hfebruary
    rw [← hmarch] at hday'
    omega

end OfParts

/-- The day of a year that begins with March. -/
def dayOfYear (d : Day) : ℤ := (153 * d.marchMonth + 2) / 5 + d.day - 1

/-- The parts of a day, in its era. -/
def parts (d : Day) : EraDay where
  century := d.marchYear % 400 / 100
  cycle := d.marchYear % 100 / 4
  year := d.marchYear % 4
  day := d.dayOfYear

theorem yearOfEra_parts (d : Day) : d.parts.yearOfEra = d.marchYear % 400 := by
  simp only [EraDay.yearOfEra, parts]
  omega

section Parts

variable (hd : d.isValid = true)

include hd

theorem marchMonth_bounds : 0 ≤ d.marchMonth ∧ d.marchMonth ≤ 11 := by
  have hmonth := ((isValid_iff d).mp hd).1
  rw [marchMonth]
  split_ifs <;> omega

/-- The days of a month are those from its first one up to that of the next month, and February has
up to 29 of them. -/
theorem dayOfYear_bounds : (153 * d.marchMonth + 2) / 5 ≤ d.dayOfYear ∧
    d.dayOfYear < (153 * (d.marchMonth + 1) + 2) / 5 ∧
    (d.dayOfYear ≤ 364 ∨ d.dayOfYear = 365 ∧ d.month = 2 ∧ isLeap d.year) := by
  obtain ⟨hmonth, hday, hlength⟩ := (isValid_iff d).mp hd
  rw [dayOfYear]
  by_cases hfebruary : d.month = 2
  · have hmarch : d.marchMonth = 11 := by
      rw [marchMonth, if_pos (by omega), hfebruary]
      rfl
    rw [hfebruary, monthLength_february] at hlength
    split_ifs at hlength with hleap
    · simp only [hmarch, hleap, hfebruary, and_self, and_true]
      omega
    · omega
  · have hlast : d.marchMonth ≤ 10 := by
      rw [marchMonth]
      split_ifs <;> omega
    have hrule := monthLength_eq hmonth hfebruary
    omega

theorem isValid_parts : d.parts.IsValid := by
  have hmarch := marchMonth_bounds hd
  obtain ⟨hfirst, -, hlast⟩ := dayOfYear_bounds hd
  have hcentury : 0 ≤ d.parts.century ∧ d.parts.century ≤ 3 := by
    simp only [parts]
    omega
  have hcycle : 0 ≤ d.parts.cycle ∧ d.parts.cycle ≤ 24 := by
    simp only [parts]
    omega
  have hyear : 0 ≤ d.parts.year ∧ d.parts.year ≤ 3 := by
    simp only [parts]
    omega
  refine ⟨hcentury, hcycle, hyear, ?_, fun hday ↦ ?_⟩
  · simp only [parts]
    omega
  · change d.dayOfYear = 365 at hday
    obtain ⟨-, hfebruary, hleap⟩ := hlast.resolve_left (by omega)
    have hmarchYear : d.marchYear = d.year - 1 := if_pos (by omega)
    have hsplit : d.year = 400 * (d.marchYear / 400) + d.parts.yearOfEra + 1 := by
      rw [yearOfEra_parts]
      omega
    rw [hsplit] at hleap
    exact (isLeap_parts hcentury hcycle hyear).mp hleap

/-- **A day is the one with its parts.** -/
theorem ofParts_parts : ofParts (d.marchYear / 400) d.parts = d := by
  have hmonth := ((isValid_iff d).mp hd).1
  have hday := ((isValid_iff d).mp hd).2.1
  obtain ⟨hfirst, hlast, -⟩ := dayOfYear_bounds hd
  have hmarch : (5 * d.parts.day + 2) / 153 = d.marchMonth := by
    change (5 * d.dayOfYear + 2) / 153 = d.marchMonth
    omega
  have hyear : 400 * (d.marchYear / 400) + d.parts.yearOfEra = d.marchYear := by
    rw [yearOfEra_parts]
    omega
  have hrest : (d.parts.day - (153 * d.marchMonth + 2) / 5 + 1).toNat = d.day := by
    change (d.dayOfYear - (153 * d.marchMonth + 2) / 5 + 1).toNat = d.day
    rw [dayOfYear]
    omega
  simp only [ofParts, hmarch, hyear, hrest]
  obtain ⟨year, month, day⟩ := d
  simp only [marchMonth, marchYear, Day.mk.injEq, and_true] at *
  split_ifs <;> omega

end Parts

/-! ## Days and numbers -/

theorem exists_eq_number (n : ℤ) :
    ∃ era p, EraDay.IsValid p ∧ n = eraLength * era + p.number - epochShift := by
  have hrest : 0 ≤ (n + epochShift) % eraLength ∧ (n + epochShift) % eraLength < 146097 := by
    simp only [epochShift, eraLength]
    omega
  obtain ⟨p, hp, hnumber⟩ := EraDay.exists_number_eq hrest.1 hrest.2
  refine ⟨(n + epochShift) / eraLength, p, hp, ?_⟩
  rw [hnumber, Int.mul_ediv_add_emod, Int.add_sub_cancel]

/-- **The day of a number has that number.** -/
theorem toNumber_ofNumber (n : ℤ) : (ofNumber n).toNumber = n := by
  obtain ⟨era, p, hp, rfl⟩ := exists_eq_number n
  rw [ofNumber_eq hp, toNumber_ofParts hp]

theorem isValid_ofNumber (n : ℤ) : (ofNumber n).isValid = true := by
  obtain ⟨era, p, hp, rfl⟩ := exists_eq_number n
  rw [ofNumber_eq hp]
  exact isValid_ofParts hp

/-- **A day is the one of its number.** -/
theorem ofNumber_toNumber (hd : d.isValid = true) : ofNumber d.toNumber = d := by
  rw [← ofParts_parts hd, toNumber_ofParts (isValid_parts hd), ofNumber_eq (isValid_parts hd)]

/-! ## The day after -/

/-- The day after a day. -/
def next (d : Day) : Day :=
  if d.day < monthLength d.year d.month then { d with day := d.day + 1 }
  else if d.month < 12 then ⟨d.year, d.month + 1, 1⟩
  else ⟨d.year + 1, 1, 1⟩

/-- The days from the beginning of an era to 1 March of a year. -/
def yearStart (year : ℤ) : ℤ :=
  year / 400 * eraLength + (year % 400 * 365 + year % 400 / 4 - year % 400 / 100)

theorem yearStart_eq (year : ℤ) :
    yearStart year = 365 * year + year / 4 - year / 100 + year / 400 := by
  have hfour : year / 4 = 100 * (year / 400) + year % 400 / 4 := by omega
  have hhundred : year / 100 = 4 * (year / 400) + year % 400 / 100 := by omega
  rw [yearStart, eraLength, hfour, hhundred]
  omega

theorem yearStart_succ (year : ℤ) :
    yearStart (year + 1) = yearStart year + if isLeap (year + 1) then 366 else 365 := by
  rw [yearStart_eq, yearStart_eq]
  split_ifs with h
  · have hleap := (isLeap_iff _).mp h
    omega
  · have hleap := mt (isLeap_iff _).mpr h
    omega

theorem toNumber_eq_yearStart (d : Day) :
    d.toNumber = yearStart d.marchYear + d.dayOfYear - epochShift := by
  rw [toNumber_eq, yearStart, dayOfYear]
  ring

theorem monthLength_pos (year : ℤ) (month : ℕ) : 1 ≤ monthLength year month := by
  rw [monthLength]
  split_ifs <;> decide

theorem isValid_next (hd : d.isValid = true) : d.next.isValid = true := by
  obtain ⟨hmonth, hday, hlength⟩ := (isValid_iff d).mp hd
  rw [isValid_iff, next]
  split_ifs with hlast hdecember
  · exact ⟨hmonth, by simp, hlast⟩
  · exact ⟨⟨by simp, hdecember⟩, le_rfl, monthLength_pos _ _⟩
  · exact ⟨⟨le_rfl, by simp⟩, le_rfl, monthLength_pos _ _⟩

section Next

variable (hlast : ¬d.day < monthLength d.year d.month)

include hlast

/-- After February a year begins that is counted from March on. -/
theorem next_of_february (hfebruary : d.month = 2) :
    d.next.marchYear = d.year ∧ d.next.dayOfYear = 0 := by
  have hnext : d.next = ⟨d.year, 3, 1⟩ := by
    rw [next, if_neg hlast, if_pos (by omega), hfebruary]
  rw [hnext]
  exact ⟨rfl, by simp [dayOfYear, marchMonth]⟩

/-- After another month the same year goes on. -/
theorem next_of_ne_february (hmonth : 1 ≤ d.month ∧ d.month ≤ 12) (hfebruary : d.month ≠ 2) :
    d.next.marchYear = d.marchYear ∧
      d.next.dayOfYear = (153 * (d.marchMonth + 1) + 2) / 5 := by
  have hmarch : d.next.marchYear = d.marchYear ∧ d.next.marchMonth = d.marchMonth + 1 ∧
      d.next.day = 1 := by
    rw [next, if_neg hlast]
    split_ifs with hdecember
    all_goals
      simp only [marchYear, marchMonth, and_true]
      split_ifs <;> omega
  obtain ⟨hyear, hnext, hday⟩ := hmarch
  rw [dayOfYear, hnext, hday]
  exact ⟨hyear, by omega⟩

end Next

/-- **Numbers count the days.** -/
theorem toNumber_next (hd : d.isValid = true) : d.next.toNumber = d.toNumber + 1 := by
  obtain ⟨hmonth, hday, hlength⟩ := (isValid_iff d).mp hd
  rw [toNumber_eq_yearStart, toNumber_eq_yearStart]
  by_cases hlast : d.day < monthLength d.year d.month
  · have hnext : d.next = { d with day := d.day + 1 } := if_pos hlast
    rw [hnext]
    simp only [marchYear, dayOfYear, marchMonth, Nat.cast_add, Nat.cast_one]
    ring
  · have hend : d.day = monthLength d.year d.month := by omega
    by_cases hfebruary : d.month = 2
    · obtain ⟨hyear, hfirst⟩ := next_of_february hlast hfebruary
      have hmarchYear : d.marchYear = d.year - 1 := if_pos (by omega)
      have hmarchMonth : d.marchMonth = 11 := by
        rw [marchMonth, if_pos (by omega), hfebruary]
        rfl
      have hstart := yearStart_succ (d.year - 1)
      rw [Int.sub_add_cancel] at hstart
      rw [hfebruary, monthLength_february] at hend
      rw [hyear, hfirst, hstart, hmarchYear, dayOfYear, hmarchMonth, hend]
      split_ifs <;> omega
    · obtain ⟨hyear, hfirst⟩ := next_of_ne_february hlast hmonth hfebruary
      have hrule := monthLength_eq hmonth hfebruary
      rw [hyear, hfirst, dayOfYear, hend]
      omega

theorem ofNumber_succ (n : ℤ) : ofNumber (n + 1) = (ofNumber n).next := by
  have hvalid := isValid_ofNumber n
  rw [← ofNumber_toNumber (isValid_next hvalid), toNumber_next hvalid, toNumber_ofNumber]

/-- Days are counted from 1 January 1970 on, forwards and backwards. -/
inductive Counted : Day → ℤ → Prop
  | epoch : Counted ⟨1970, 1, 1⟩ 0
  | next {d : Day} {n : ℤ} (h : Counted d n) : Counted d.next (n + 1)
  | previous {d : Day} {n : ℤ} (hd : d.isValid = true) (h : Counted d.next (n + 1)) : Counted d n

/-- **The arithmetic counts the days.** -/
theorem counted_iff {n : ℤ} : Counted d n ↔ d = ofNumber n := by
  constructor
  · intro h
    induction h with
    | epoch => decide
    | next h ih => rw [ih, ofNumber_succ]
    | @previous d n hd h ih =>
      have hnumber := toNumber_next hd
      rw [ih, toNumber_ofNumber] at hnumber
      rw [← ofNumber_toNumber hd, ← add_right_cancel hnumber]
  · rintro rfl
    induction n with
    | zero => exact .epoch
    | succ n ih =>
      rw [ofNumber_succ]
      exact ih.next
    | pred n ih =>
      refine .previous (isValid_ofNumber _) ?_
      rw [← ofNumber_succ, Int.sub_add_cancel]
      exact ih

end Day

end RecordLinkage.Time
