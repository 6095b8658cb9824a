import RecordLinkage.Fault

/-!
# Names of sources and tenants

A source is a contributing library. Its name is short, made of letters, digits and three marks, and
the case of its letters does not matter: names are kept in upper case. A tenant is the owner of a
database, and its name becomes part of a file name, so it is stricter.

Only ASCII counts here. Letters of other alphabets are refused in both kinds of names, those that
look like an ASCII letter included.
-/

namespace RecordLinkage

namespace SourceId

/-- The characters of a source name. -/
def isAllowed (c : Char) : Bool := c.isAlphanum || c = ':' || c = '/' || c = '-'

/-- The texts that name a source: 1 to 16 allowed characters. -/
def accepts (s : String) : Bool :=
  1 ≤ s.toList.length && s.toList.length ≤ 16 && s.toList.all isAllowed

def upper (s : String) : String := String.ofList (s.toList.map Char.toUpper)

/-- The rule for source names, as messages give it. -/
def pattern : String := "^[a-zA-Z0-9:/-]\x7b1,16\x7d$"

/-! ### Upper case stays within the allowed characters -/

private theorem toNat_lt_of_isAllowed {c : Char} (h : isAllowed c = true) : c.toNat < 128 := by
  delta isAllowed Char.isAlphanum Char.isAlpha Char.isUpper Char.isLower Char.isDigit at h
  simp only [Bool.or_eq_true, Bool.and_eq_true, decide_eq_true_eq, ge_iff_le,
    UInt32.le_iff_toNat_le] at h
  have e : c.val.toNat = c.toNat := rfl
  rcases h with (((h | h) | h) | h) | h
  all_goals first | (subst h; decide) | skip
  all_goals
    simp at h
    omega

private theorem upper_of_ascii : ∀ n, n < 128 → isAllowed (Char.ofNat n) = true →
    isAllowed (Char.ofNat n).toUpper = true ∧
      (Char.ofNat n).toUpper.toUpper = (Char.ofNat n).toUpper := by
  decide

theorem isAllowed_toUpper {c : Char} (h : isAllowed c = true) : isAllowed c.toUpper = true := by
  have := (upper_of_ascii c.toNat (toNat_lt_of_isAllowed h) (by simpa using h)).1
  simpa using this

theorem toUpper_toUpper {c : Char} (h : isAllowed c = true) : c.toUpper.toUpper = c.toUpper := by
  have := (upper_of_ascii c.toNat (toNat_lt_of_isAllowed h) (by simpa using h)).2
  rwa [Char.ofNat_toNat] at this

theorem accepts_upper {s : String} (h : accepts s = true) : accepts (upper s) = true := by
  simp only [accepts, upper, String.toList_ofList, List.length_map, Bool.and_eq_true,
    List.all_eq_true, List.mem_map, forall_exists_index, and_imp] at h ⊢
  refine ⟨h.1, ?_⟩
  rintro _ c hc rfl
  exact isAllowed_toUpper (h.2 c hc)

theorem upper_upper {s : String} (h : accepts s = true) : upper (upper s) = upper s := by
  simp only [accepts, Bool.and_eq_true, List.all_eq_true] at h
  simp only [upper, String.toList_ofList, List.map_map]
  congr 1
  exact List.map_congr_left fun c hc ↦ toUpper_toUpper (h.2 c hc)

end SourceId

structure SourceId where
  text : String
  accepts_text : SourceId.accepts text = true
  /-- It is in upper case. -/
  upper_text : SourceId.upper text = text
  deriving DecidableEq, Repr

namespace SourceId

def parse (s : String) : Except Fault SourceId :=
  if h : accepts s then .ok ⟨upper s, accepts_upper h, upper_upper h⟩
  else .error (.validation ("sourceId '" ++ s ++ "' does not match " ++ pattern))

/-- What is read from a name that has been read is that name. -/
theorem parse_text (id : SourceId) : parse id.text = .ok id := by
  obtain ⟨text, ha, hu⟩ := id
  simp [parse, ha, hu]

end SourceId

namespace TenantId

/-- The characters after the first one of a tenant name. -/
def isAllowed (c : Char) : Bool := c.isLower || c.isDigit || c = '_'

/-- The texts that name a tenant: a lower-case letter, then up to 62 allowed characters. -/
def accepts (s : String) : Bool :=
  match s.toList with
  | [] => false
  | c :: rest => c.isLower && rest.length ≤ 62 && rest.all isAllowed

/-- The rule for tenant names, as messages give it. -/
def pattern : String := "^[a-z][a-z0-9_]\x7b0,62\x7d$"

end TenantId

structure TenantId where
  text : String
  accepts_text : TenantId.accepts text = true
  deriving DecidableEq, Repr

namespace TenantId

def parse (s : String) : Except Fault TenantId :=
  if h : accepts s then .ok ⟨s, h⟩
  else .error (.validation ("tenant '" ++ s ++ "' does not match " ++ pattern))

end TenantId

end RecordLinkage
