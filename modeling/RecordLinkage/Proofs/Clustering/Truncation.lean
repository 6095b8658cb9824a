import RecordLinkage.Clustering.Truncate
import RecordLinkage.Proofs.Order
import RecordLinkage.Proofs.Text.Bytes

/-!
# Laws of cutting match values

A value that is cut keeps its first characters, as many as the limit allows. So cutting twice is
cutting once to the smaller limit, a set is cut value by value, and no value is cut away.

## Cutting bytes

A text is kept as bytes, and it is cut by finding the byte at which the first superfluous character
begins. The characters before it have one to four bytes each, so that byte cannot be told from the
limit alone, and one byte too many or too few would leave a piece of a character behind. Both views
of a cut are therefore compared: in front of the place that is found stand exactly the characters
that are kept, and what is left on either side is text.
-/

namespace RecordLinkage

variable {v : String} {V : List String} {n k : ℕ}

namespace Clustering

open Text (bytes starts)

/-! ## One value -/

theorem toList_cut (n : ℕ) (v : String) : (cut n v).toList = v.toList.take n :=
  String.toList_ofList

theorem length_cut (n : ℕ) (v : String) : (cut n v).length = min n v.length := by
  rw [cut, String.length_ofList, List.length_take, String.length_toList]

theorem cut_prefix (n : ℕ) (v : String) : (cut n v).toList <+: v.toList := by
  rw [toList_cut]
  exact List.take_prefix n v.toList

theorem cut_of_length_le (h : v.length ≤ n) : cut n v = v := by
  rw [cut, List.take_of_length_le (String.length_toList.trans_le h), String.ofList_toList]

theorem cut_cut (m n : ℕ) (v : String) : cut m (cut n v) = cut (min m n) v := by
  rw [cut, cut, cut, String.toList_ofList, List.take_take]

/-- What is cut off is text again. -/
theorem cut_append (n : ℕ) (v : String) : cut n v ++ String.ofList (v.toList.drop n) = v := by
  rw [cut, ← String.ofList_append, List.take_append_drop, String.ofList_toList]

/-- The bytes of a value in front of the one at which the first superfluous character begins, or all
of them if there is no superfluous character. -/
def cutBytes (n : ℕ) (v : String) : List UInt8 :=
  match (starts 0 v.toList)[n]? with
  | some k => (bytes v).take k
  | none => bytes v

/-- The first superfluous character begins where the value that is kept ends. -/
theorem eq_of_starts (h : (starts 0 v.toList)[n]? = some k) : k = (cut n v).utf8ByteSize := by
  rw [Text.eq_of_starts h, Nat.zero_add, cut]

/-- **Cutting characters is cutting bytes** at the place where a character begins. -/
theorem bytes_cut (n : ℕ) (v : String) : bytes (cut n v) = cutBytes n v := by
  rw [cutBytes]
  rcases hk : (starts 0 v.toList)[n]? with - | k
  · -- There are no more characters than are allowed.
    have hlength : v.length ≤ n := by
      rw [← String.length_toList, ← Text.length_starts 0]
      exact List.getElem?_eq_none_iff.mp hk
    rw [cut_of_length_le hlength]
  · have hsplit : bytes v = bytes (cut n v) ++ bytes (.ofList (v.toList.drop n)) := by
      rw [← Text.bytes_append, cut_append]
    rw [hsplit, eq_of_starts hk, ← Text.length_bytes]
    exact List.take_left.symm

/-- The place of a cut lies between two characters. -/
theorem isValid_of_starts (h : (starts 0 v.toList)[n]? = some k) :
    (String.Pos.Raw.mk k).IsValid v := by
  apply String.Pos.Raw.isValid_iff_exists_append.mpr
  refine ⟨cut n v, .ofList (v.toList.drop n), (cut_append n v).symm, ?_⟩
  rw [eq_of_starts h]
  rfl

/-! ## Sets of values -/

theorem mem_truncate : v ∈ truncate n V ↔ ∃ w ∈ V, v = cut n w := by
  rw [truncate, Sorted.mem_ofList, List.mem_map]
  exact exists_congr fun w ↦ and_congr_right fun _ ↦ eq_comm

theorem cut_mem_truncate (h : v ∈ V) : cut n v ∈ truncate n V := mem_truncate.mpr ⟨v, h, rfl⟩

theorem truncate_eq_nil_iff : truncate n V = [] ↔ V = [] := by
  simp only [List.eq_nil_iff_forall_not_mem, mem_truncate, not_exists, not_and]
  exact ⟨fun h w hw ↦ h _ w hw rfl, fun h v w hw ↦ absurd hw (h w)⟩

/-- Cutting to one length and then to another is cutting to the smaller of the two. -/
theorem truncate_truncate (m n : ℕ) (V : List String) :
    truncate m (truncate n V) = truncate (min m n) V := by
  refine Sorted.ofList_congr fun v ↦ ?_
  simp only [List.mem_map, mem_truncate]
  constructor
  · rintro ⟨-, ⟨w, hw, rfl⟩, rfl⟩
    exact ⟨w, hw, (cut_cut m n w).symm⟩
  · rintro ⟨w, hw, rfl⟩
    exact ⟨cut n w, ⟨w, hw, rfl⟩, cut_cut m n w⟩

/-- A union is cut by cutting its parts. -/
theorem truncate_union (n : ℕ) (V W : List String) :
    truncate n (Sorted.ofList (V ++ W)) = Sorted.ofList (truncate n V ++ truncate n W) := by
  refine Sorted.ofList_congr fun v ↦ ?_
  simp only [List.mem_map, Sorted.mem_ofList, List.mem_append, mem_truncate]
  constructor
  · rintro ⟨w, hw | hw, rfl⟩
    · exact .inl ⟨w, hw, rfl⟩
    · exact .inr ⟨w, hw, rfl⟩
  · rintro (⟨w, hw, rfl⟩ | ⟨w, hw, rfl⟩)
    · exact ⟨w, .inl hw, rfl⟩
    · exact ⟨w, .inr hw, rfl⟩

/-- What is left of a set of values when each is cut to a number of characters. -/
structure CutTo (n : ℕ) (V W : List String) : Prop where
  /-- What is left is a set, in ascending order. -/
  ascending : W.Pairwise (· < ·)
  /-- No value is too long. -/
  length_le : ∀ w ∈ W, w.length ≤ n
  /-- No value is made up. -/
  begins : ∀ w ∈ W, ∃ v ∈ V, w.toList <+: v.toList
  /-- Of each value there is the beginning, with all the characters that are allowed. -/
  begun : ∀ v ∈ V, ∃ w ∈ W, w.toList <+: v.toList ∧ w.length = min n v.length
  /-- A value that is short enough stays as it is. -/
  short : ∀ v ∈ V, v.length ≤ n → v ∈ W
  /-- No set becomes empty. -/
  eq_nil_iff : W = [] ↔ V = []
  /-- The bytes of what is left are those in front of the first superfluous character. -/
  bytewise : ∀ w, w ∈ W ↔ ∃ v ∈ V, bytes w = cutBytes n v
  /-- The place where a value is cut lies between two characters. -/
  whole : ∀ v ∈ V, ∀ k, (starts 0 v.toList)[n]? = some k → (String.Pos.Raw.mk k).IsValid v

theorem cutTo_truncate (n : ℕ) (V : List String) : CutTo n V (truncate n V) where
  ascending := Sorted.pairwise_ofList _
  length_le := by
    intro w hw
    obtain ⟨v, -, rfl⟩ := mem_truncate.mp hw
    exact (length_cut n v).trans_le (min_le_left n v.length)
  begins := by
    intro w hw
    obtain ⟨v, hv, rfl⟩ := mem_truncate.mp hw
    exact ⟨v, hv, cut_prefix n v⟩
  begun := by
    intro v hv
    exact ⟨cut n v, cut_mem_truncate hv, cut_prefix n v, length_cut n v⟩
  short := by
    intro v hv hle
    have hmem : cut n v ∈ truncate n V := cut_mem_truncate hv
    rwa [cut_of_length_le hle] at hmem
  eq_nil_iff := truncate_eq_nil_iff
  bytewise := by
    intro w
    simp only [mem_truncate, ← bytes_cut, Text.bytes_injective.eq_iff]
  whole := fun v _ k ↦ isValid_of_starts

/-- **Laws of cutting.** Cutting a set of values to a number of characters leaves the beginning of
each value, of that length or the value itself if it is shorter, and nothing else. The values are
cut between characters, whatever number of bytes the characters have. Of two cuts the one to the
smaller length decides, and a union may be cut before or after it is formed. -/
theorem truncation_laws (m n : ℕ) (V W : List String) :
    CutTo n V (truncate n V) ∧
    truncate m (truncate n V) = truncate (min m n) V ∧
    truncate n (Sorted.ofList (V ++ W)) = Sorted.ofList (truncate n V ++ truncate n W) :=
  ⟨cutTo_truncate n V, truncate_truncate m n V, truncate_union n V W⟩

/-- Values of one length in characters and another in bytes, two of which become one. -/
example : truncate 3 ["abcdef", "abcxyz", "åäöåäö", "ab"] = ["ab", "abc", "åäö"] := by
  decide +kernel

end Clustering

end RecordLinkage
