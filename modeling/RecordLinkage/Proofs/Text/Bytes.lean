import Mathlib.Data.String.Basic

/-!
# Texts and their bytes

A character has one to four bytes in UTF-8, so the place where a character of a text begins is the
number of bytes of the characters before it.

## The order of bytes

Texts are compared character by character, and a database compares the bytes that it stores. In
UTF-8 both come to the same. The first byte of a character says how many others follow it, and grows
with their number; among characters of one length, the bytes are digits of the code point, the
most significant one first. So where two texts first differ in a character, their bytes first differ
within that character, and in the same direction.
-/

namespace RecordLinkage.Text

/-- The bytes of a text. -/
def bytes (s : String) : List UInt8 := s.toUTF8.data.toList

theorem bytes_eq (s : String) : bytes s = s.toList.flatMap String.utf8EncodeChar := by
  rw [bytes, String.toUTF8, ← String.ofList_toList (s := s), String.toByteArray_ofList]
  simp [List.utf8Encode]

theorem bytes_append (s t : String) : bytes (s ++ t) = bytes s ++ bytes t := by
  rw [bytes_eq, bytes_eq, bytes_eq, String.toList_append, List.flatMap_append]

theorem bytes_injective : Function.Injective bytes := fun _ _ h ↦
  String.toByteArray_inj.mp (ByteArray.ext (Array.toList_inj.mp h))

theorem length_bytes (s : String) : (bytes s).length = s.utf8ByteSize := rfl

/-! ## Where characters begin -/

/-- The bytes at which characters begin, counted from a place at which the first of them does. -/
def starts (first : ℕ) : List Char → List ℕ
  | [] => []
  | c :: cs => first :: starts (first + c.utf8Size) cs

theorem length_starts (first : ℕ) (cs : List Char) : (starts first cs).length = cs.length := by
  induction cs generalizing first with
  | nil => rfl
  | cons c cs ih => rw [starts, List.length_cons, List.length_cons, ih]

/-- A character begins where the characters before it end. -/
theorem eq_of_starts {first n k : ℕ} {cs : List Char} (h : (starts first cs)[n]? = some k) :
    k = first + (String.ofList (cs.take n)).utf8ByteSize := by
  induction cs generalizing first n with
  | nil => cases h
  | cons c cs ih =>
    cases n with
    | zero =>
      rw [List.take_zero]
      exact (Option.some.inj h).symm
    | succ n =>
      rw [ih h, List.take_succ_cons, String.ofList_cons, String.utf8ByteSize_append,
        String.utf8ByteSize_singleton, Nat.add_assoc]

/-! ## Which text comes first -/

/-- A smaller character decides, whatever follows. -/
theorem encoded_lt {c d : Char} (h : c < d) (xs ys : List UInt8) :
    String.utf8EncodeChar c ++ xs < String.utf8EncodeChar d ++ ys := by
  have hlt : c.val.toNat < d.val.toNat := h
  have hd : d.val.toNat < 0x110000 := by
    rcases d.valid with h | h
    · exact h.trans (by decide)
    · exact h.2
  simp only [String.utf8EncodeChar]
  generalize c.val.toNat = v at hlt
  generalize d.val.toNat = w at hlt hd
  split_ifs <;> simp only [List.cons_append, List.nil_append, List.cons_lt_cons_iff,
    UInt8.lt_iff_toNat_lt, ← UInt8.toNat_inj, UInt8.toNat_ofNat'] <;>
    simp (disch := omega) only [Nat.mod_eq_of_lt] <;> omega

theorem encoded_ne_nil (c : Char) : String.utf8EncodeChar c ≠ [] := by
  simp only [String.utf8EncodeChar]
  split_ifs <;> exact List.cons_ne_nil _ _

theorem encoded_lt_encoded {cs ds : List Char} (h : cs < ds) :
    cs.flatMap String.utf8EncodeChar < ds.flatMap String.utf8EncodeChar := by
  induction cs generalizing ds with
  | nil =>
    rcases ds with - | ⟨d, ds⟩
    · exact absurd h (List.not_lt_nil _)
    · obtain ⟨b, bs, hb⟩ := List.exists_cons_of_ne_nil (encoded_ne_nil d)
      rw [List.flatMap_nil, List.flatMap_cons, hb]
      exact List.nil_lt_cons _ _
  | cons c cs ih =>
    rcases ds with - | ⟨d, ds⟩
    · exact absurd h (List.not_lt_nil _)
    · rw [List.flatMap_cons, List.flatMap_cons]
      rcases List.cons_lt_cons_iff.mp h with hlt | ⟨rfl, hlt⟩
      · exact encoded_lt hlt _ _
      · exact List.append_left_lt (ih hlt)

theorem bytes_lt_bytes {s t : String} (h : s < t) : bytes s < bytes t := by
  rw [bytes_eq, bytes_eq]
  exact encoded_lt_encoded (String.lt_iff_toList_lt.mp h)

/-- **The order of texts is that of their bytes.** -/
theorem lt_iff_bytes_lt {s t : String} : s < t ↔ bytes s < bytes t := by
  refine ⟨bytes_lt_bytes, fun h ↦ ?_⟩
  rcases lt_trichotomy s t with hlt | rfl | hgt
  · exact hlt
  · exact absurd h (List.lt_irrefl _)
  · exact absurd h (List.lt_asymm (bytes_lt_bytes hgt))

end RecordLinkage.Text
