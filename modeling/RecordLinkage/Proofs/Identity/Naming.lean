import Mathlib
import RecordLinkage.Identity.Name

/-!
# What names the same source

A text either names a source or it does not, and two texts that do name the same source if they
differ in nothing but the case of letters. Names are kept in upper case, so the name that is kept
names its own source.

Case is a matter of ASCII. Other letters have no case here, and there is none of them in the name of
a source, since the texts that differ from it only in case consist of the same letters.
-/

namespace RecordLinkage.SourceId

/-- The characters that a source may be named with. -/
def IsNameChar (c : Char) : Prop :=
  'a' ≤ c ∧ c ≤ 'z' ∨ 'A' ≤ c ∧ c ≤ 'Z' ∨ '0' ≤ c ∧ c ≤ '9' ∨ c = ':' ∨ c = '/' ∨ c = '-'

/-- A text names a source. -/
structure IsName (s : String) : Prop where
  length_pos : 1 ≤ s.toList.length
  length_le : s.toList.length ≤ 16
  isNameChar : ∀ c ∈ s.toList, IsNameChar c

/-- Two texts differ in the case of ASCII letters at most. -/
def SameName (s t : String) : Prop := s.toList.map Char.toLower = t.toList.map Char.toLower

instance (s t : String) : Decidable (SameName s t) := inferInstanceAs (Decidable (_ = _))

variable {s t u : String}

theorem SameName.trans (h : SameName s t) (h' : SameName t u) : SameName s u := Eq.trans h h'

/-! ## Characters -/

theorem isAllowed_iff (c : Char) : isAllowed c = true ↔ IsNameChar c := by
  simp only [isAllowed, Char.isAlphanum, Char.isAlpha, Char.isUpper, Char.isLower, Char.isDigit,
    Bool.or_eq_true, Bool.and_eq_true, decide_eq_true_eq, IsNameChar, Char.le_def]
  tauto

theorem isAllowed_toLower (c : Char) : isAllowed c.toLower = isAllowed c := by
  by_cases hupper : c.isUpper
  · have hlower : c.toLower.isAlpha = true := by
      rw [Char.isAlpha_toLower_eq_isAlpha, Char.isAlpha, hupper, Bool.true_or]
    have hletter : c.isAlpha = true := by rw [Char.isAlpha, hupper, Bool.true_or]
    rw [isAllowed, isAllowed, Char.isAlphanum, Char.isAlphanum, hlower, hletter]
    rfl
  · rw [Char.toLower_eq_of_not_isUpper hupper]

/-! ## Names -/

theorem accepts_iff (s : String) : accepts s = true ↔ IsName s := by
  simp only [accepts, Bool.and_eq_true, decide_eq_true_eq, List.all_eq_true, isAllowed_iff]
  constructor
  · rintro ⟨⟨hpos, hle⟩, hall⟩
    exact ⟨hpos, hle, hall⟩
  · intro h
    exact ⟨⟨h.length_pos, h.length_le⟩, h.isNameChar⟩

theorem SameName.accepts_eq (h : SameName s t) : accepts s = accepts t := by
  have hlength : s.toList.length = t.toList.length := by
    rw [← List.length_map Char.toLower, h, List.length_map]
  have hall (cs : List Char) : cs.all isAllowed = (cs.map Char.toLower).all isAllowed := by
    rw [List.all_map]
    exact congrArg (cs.all ·) (funext fun c ↦ (isAllowed_toLower c).symm)
  rw [accepts, accepts, hlength, hall, h, ← hall]

theorem SameName.isName_iff (h : SameName s t) : IsName s ↔ IsName t := by
  rw [← accepts_iff, ← accepts_iff, h.accepts_eq]

theorem upper_eq_upper_iff : upper s = upper t ↔ SameName s t := by
  rw [upper, upper, String.ofList_inj, SameName]
  constructor <;> intro h
  · have hlower := congrArg (List.map Char.toLower) h
    simpa only [List.map_map, Function.comp_def, Char.toLower_toUpper_eq_toLower] using hlower
  · have hupper := congrArg (List.map Char.toUpper) h
    simpa only [List.map_map, Function.comp_def, Char.toUpper_toLower_eq_toUpper] using hupper

/-! ## Reading names -/

variable {a b : SourceId}

theorem parse_eq_ok_iff : parse s = .ok a ↔ IsName s ∧ upper s = a.text := by
  rw [← accepts_iff, parse]
  split_ifs with h
  · obtain ⟨text, haccepts, hupper⟩ := a
    rw [Except.ok.injEq, SourceId.mk.injEq]
    exact ⟨fun heq ↦ ⟨h, heq⟩, And.right⟩
  · constructor
    · rintro ⟨⟩
    · intro hname
      exact absurd hname.1 h

/-- **What can be read** is what names a source. -/
theorem exists_parse_iff : (∃ a, parse s = .ok a) ↔ IsName s := by
  constructor
  · rintro ⟨a, h⟩
    exact (parse_eq_ok_iff.mp h).1
  · intro h
    have haccepts := (accepts_iff s).mpr h
    exact ⟨⟨upper s, accepts_upper haccepts, upper_upper haccepts⟩, parse_eq_ok_iff.mpr ⟨h, rfl⟩⟩

/-- Anything else is refused, with the rule for names. -/
theorem parse_of_not_isName (h : ¬IsName s) :
    parse s = .error (.validation ("sourceId '" ++ s ++ "' does not match " ++ pattern)) :=
  dif_neg (mt (accepts_iff s).mp h)

/-- Whatever differs from a name only in case is read as the same name. -/
theorem SameName.parse_eq (h : SameName s t) (hs : parse s = .ok a) : parse t = .ok a := by
  obtain ⟨hname, htext⟩ := parse_eq_ok_iff.mp hs
  exact parse_eq_ok_iff.mpr ⟨h.isName_iff.mp hname, (upper_eq_upper_iff.mpr h).symm.trans htext⟩

/-- **Names are the same up to case.** -/
theorem eq_iff_sameName (hs : parse s = .ok a) (ht : parse t = .ok b) : a = b ↔ SameName s t := by
  have hupper : upper s = a.text ∧ upper t = b.text :=
    ⟨(parse_eq_ok_iff.mp hs).2, (parse_eq_ok_iff.mp ht).2⟩
  rw [← upper_eq_upper_iff, hupper.1, hupper.2]
  constructor
  · rintro rfl
    rfl
  · intro htext
    exact Except.ok.inj ((parse_text a).symm.trans ((congrArg parse htext).trans (parse_text b)))

end RecordLinkage.SourceId
