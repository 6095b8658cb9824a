import RecordLinkage.Proofs.Order
import RecordLinkage.Proofs.Text.Bytes
import RecordLinkage.Store.Cell

/-!
# Identifiers as values and as text

The engine compares identifiers as numbers, and the database compares what is stored of them, which
is text. The winner of a merge is the least identifier in the first order, and places in a listing
are found in the second one, so the two have to agree.

Digits are written from the most significant one on, and all identifiers have the same number of
them, so what decides is the first digit in which two numbers differ. Hyphens do not matter, because
they stand at the same places in all texts: whether they are there or not, the same digit decides.

## Reading

Reading takes the hyphens out again and does not mind the case of a digit. So the written form is
read back, and so it is in upper case and without hyphens.
-/

namespace RecordLinkage

/-! ## Lists of one length -/

section Lists

variable {α β : Type} [LT α] [LT β] {a b x y : List α}

/-- Of lists that begin with as many elements, the first part decides before the second one. -/
theorem append_lt_append_iff [Std.Irrefl (· < · : α → α → Prop)] (hlen : a.length = b.length) :
    a ++ x < b ++ y ↔ a < b ∨ a = b ∧ x < y := by
  induction a generalizing b with
  | nil =>
    obtain rfl := List.length_eq_zero_iff.mp hlen.symm
    simp
  | cons c a ih =>
    rcases b with - | ⟨d, b⟩
    · simp at hlen
    · have hrest := ih (Nat.succ.inj hlen)
      simp only [List.cons_append, List.cons_lt_cons_iff, List.cons.injEq, hrest]
      tauto

/-- A function that keeps the order of elements keeps that of lists. -/
theorem map_lt_map {f : α → β} (hf : ∀ c ∈ a, ∀ d ∈ b, c < d → f c < f d) (h : a < b) :
    a.map f < b.map f := by
  induction a generalizing b with
  | nil =>
    rcases b with - | ⟨d, b⟩
    · exact absurd h (List.not_lt_nil _)
    · exact List.nil_lt_cons _ _
  | cons c a ih =>
    rcases b with - | ⟨d, b⟩
    · exact absurd h (List.not_lt_nil _)
    · refine List.cons_lt_cons_iff.mpr ?_
      rcases List.cons_lt_cons_iff.mp h with hlt | ⟨rfl, hlt⟩
      · exact Or.inl (hf c List.mem_cons_self d List.mem_cons_self hlt)
      · refine Or.inr ⟨rfl, ih (fun c' hc d' hd ↦ ?_) hlt⟩
        exact hf c' (List.mem_cons_of_mem _ hc) d' (List.mem_cons_of_mem _ hd)

end Lists

namespace Uuid

/-! ## Digits -/

theorem length_digits (count n : ℕ) : (digits count n).length = count := by
  induction count generalizing n with
  | zero => rfl
  | succ count ih => rw [digits, List.length_append, ih, List.length_singleton]

theorem digit_lt_of_mem {count n d : ℕ} (h : d ∈ digits count n) : d < 16 := by
  induction count generalizing n with
  | zero => exact absurd h List.not_mem_nil
  | succ count ih =>
    rcases List.mem_append.mp h with h | h
    · exact ih h
    · rw [List.mem_singleton.mp h]
      exact Nat.mod_lt _ (by decide)

/-- **The digits ascend with the number.** -/
theorem digits_lt_digits {count m n : ℕ} (hn : n < 16 ^ count) (h : m < n) :
    digits count m < digits count n := by
  induction count generalizing m n with
  | zero => omega
  | succ count ih =>
    rw [digits, digits, append_lt_append_iff (by rw [length_digits, length_digits])]
    rcases (Nat.div_le_div_right h.le : m / 16 ≤ n / 16).lt_or_eq with hlt | heq
    · exact Or.inl (ih (Nat.div_lt_of_lt_mul (by rwa [Nat.mul_comm, ← Nat.pow_succ])) hlt)
    · refine Or.inr ⟨by rw [heq], List.cons_lt_cons_iff.mpr (Or.inl ?_)⟩
      omega

theorem digitChar_lt : ∀ d < 16, ∀ c < d, digitChar c < digitChar d := by decide

/-! ## Hyphens -/

/-- A text with a hyphen after each of some groups. -/
def hyphened : List ℕ → List Char → List Char
  | [], cs => cs
  | count :: counts, cs => cs.take count ++ '-' :: hyphened counts (cs.drop count)

theorem grouped_eq (cs : List Char) : grouped cs = hyphened [8, 4, 4, 4] cs := by
  simp [grouped, hyphened, List.drop_drop]

/-- Hyphens after as many characters do not change what decides. -/
theorem hyphened_lt_hyphened (counts : List ℕ) {cs ds : List Char} (hlen : cs.length = ds.length)
    (h : cs < ds) : hyphened counts cs < hyphened counts ds := by
  induction counts generalizing cs ds with
  | nil => exact h
  | cons count counts ih =>
    have htake : (cs.take count).length = (ds.take count).length := by
      rw [List.length_take, List.length_take, hlen]
    have hdrop : (cs.drop count).length = (ds.drop count).length := by
      rw [List.length_drop, List.length_drop, hlen]
    rw [← List.take_append_drop count cs, ← List.take_append_drop count ds,
      append_lt_append_iff htake] at h
    rw [hyphened, hyphened, append_lt_append_iff htake]
    rcases h with hlt | ⟨heq, hlt⟩
    · exact Or.inl hlt
    · exact Or.inr ⟨heq, List.cons_lt_cons_iff.mpr (Or.inr ⟨rfl, ih hdrop hlt⟩)⟩

/-! ## Written forms -/

/-- The digits of an identifier as characters, in a given alphabet. -/
def spelled (digit : ℕ → Char) (u : Uuid) : List Char := (digits 32 u.toNat).map digit

theorem chars_eq (u : Uuid) : u.chars = grouped (u.spelled digitChar) := rfl

theorem length_spelled (digit : ℕ → Char) (u : Uuid) : (u.spelled digit).length = 32 := by
  rw [spelled, List.length_map, length_digits]

theorem text_lt_text {u v : Uuid} (h : u < v) : u.text < v.text := by
  have hdigits : digits 32 u.toNat < digits 32 v.toNat := digits_lt_digits v.value.isLt h
  have hspelled : u.spelled digitChar < v.spelled digitChar := by
    refine map_lt_map (fun c _ d hd hcd ↦ ?_) hdigits
    exact digitChar_lt d (digit_lt_of_mem hd) c hcd
  rw [text, text, String.lt_iff_toList_lt, String.toList_ofList, String.toList_ofList, chars_eq,
    chars_eq, grouped_eq, grouped_eq]
  exact hyphened_lt_hyphened _ (by rw [length_spelled, length_spelled]) hspelled

/-- **The order of identifiers is that of their texts.** -/
theorem lt_iff_text_lt {u v : Uuid} : u < v ↔ u.text < v.text := by
  refine ⟨text_lt_text, fun h ↦ ?_⟩
  rcases trichotomous_of (fun a b : Uuid ↦ a < b) u v with hlt | rfl | hgt
  · exact hlt
  · exact absurd h (lt_irrefl _)
  · exact absurd h (lt_asymm (text_lt_text hgt))

/-! ## Reading -/

theorem ofDigits?_map {digit : ℕ → Char} (hdigit : ∀ d < 16, digit? (digit d) = some d)
    {count n : ℕ} (hn : n < 16 ^ count) : ofDigits? ((digits count n).map digit) = some n := by
  rw [ofDigits?]
  induction count generalizing n with
  | zero =>
    rw [Nat.lt_one_iff.mp hn]
    rfl
  | succ count ih =>
    rw [digits, List.map_append, List.foldlM_append,
      ih (Nat.div_lt_of_lt_mul (by rwa [Nat.mul_comm, ← Nat.pow_succ]))]
    simp only [List.map_cons, List.map_nil, List.foldlM_cons, List.foldlM_nil, Option.bind_eq_bind,
      Option.bind_some, hdigit _ (Nat.mod_lt n (by decide : 0 < 16)), Option.map_some]
    exact congrArg some (Nat.div_add_mod' n 16)

theorem ofNat_toNat (u : Uuid) : ofNat u.toNat = u :=
  toNat_injective (toNat_ofNat u.value.isLt)

section Alphabets

variable {digit : ℕ → Char} (hdigit : ∀ d < 16, digit? (digit d) = some d) (u : Uuid)

include hdigit

theorem ofDigits?_spelled : (ofDigits? (u.spelled digit)).map ofNat = some u := by
  rw [spelled, ofDigits?_map hdigit u.value.isLt, Option.map_some, ofNat_toNat]

theorem hyphen_notMem_spelled : '-' ∉ u.spelled digit := by
  intro h
  obtain ⟨d, hd, hhyphen⟩ := List.mem_map.mp h
  have hread := hdigit d (digit_lt_of_mem hd)
  rw [hhyphen, show digit? '-' = none from rfl] at hread
  exact nomatch hread

/-- An identifier is read without hyphens, whatever the alphabet. -/
theorem ofChars?_spelled : ofChars? (u.spelled digit) = some u := by
  rw [ofChars?_plain (u.length_spelled digit), ofDigits?_spelled hdigit]

/-- An identifier is read with hyphens, whatever the alphabet. -/
theorem ofChars?_grouped_spelled : ofChars? (grouped (u.spelled digit)) = some u := by
  rw [ofChars?_grouped (u.length_spelled digit) (u.hyphen_notMem_spelled hdigit),
    ofDigits?_spelled hdigit]

end Alphabets

theorem digit?_digitChar : ∀ d < 16, digit? (digitChar d) = some d := by decide

theorem digit?_toUpper_digitChar : ∀ d < 16, digit? (digitChar d).toUpper = some d := by decide

theorem map_spelled (f : Char → Char) (u : Uuid) :
    (u.spelled digitChar).map f = u.spelled fun d ↦ f (digitChar d) := by
  rw [spelled, List.map_map]
  rfl

theorem map_grouped {f : Char → Char} (hf : f '-' = '-') (cs : List Char) :
    (grouped cs).map f = grouped (cs.map f) := by
  simp [grouped, hf]

/-- Groups of 8, 4, 4, 4 and 12 hexadecimal digits in lower case, with hyphens between them. -/
def IsHyphenated (cs : List Char) : Prop :=
  ∃ a b c d e : List Char, cs = a ++ '-' :: b ++ '-' :: c ++ '-' :: d ++ '-' :: e ∧
    a.length = 8 ∧ b.length = 4 ∧ c.length = 4 ∧ d.length = 4 ∧ e.length = 12 ∧
    ∀ x ∈ a ++ b ++ c ++ d ++ e, x.isDigit = true ∨ 'a' ≤ x ∧ x ≤ 'f'

theorem isHyphenated_grouped {cs : List Char} (hlen : cs.length = 32)
    (hlower : ∀ x ∈ cs, x.isDigit = true ∨ 'a' ≤ x ∧ x ≤ 'f') : IsHyphenated (grouped cs) := by
  refine ⟨_, _, _, _, _, rfl, by simp [hlen], by simp [hlen], by simp [hlen], by simp [hlen],
    by simp [hlen], fun x hx ↦ hlower x ?_⟩
  simp only [List.mem_append] at hx
  rcases hx with (((hx | hx) | hx) | hx) | hx
  · exact List.mem_of_mem_take hx
  · exact List.mem_of_mem_drop (List.mem_of_mem_take hx)
  · exact List.mem_of_mem_drop (List.mem_of_mem_take hx)
  · exact List.mem_of_mem_drop (List.mem_of_mem_take hx)
  · exact List.mem_of_mem_drop hx

theorem isHyphenated_chars (u : Uuid) : IsHyphenated u.chars := by
  have hlower : ∀ d < 16, (digitChar d).isDigit = true ∨ 'a' ≤ digitChar d ∧ digitChar d ≤ 'f' := by
    decide
  refine isHyphenated_grouped (u.length_spelled digitChar) fun x hx ↦ ?_
  obtain ⟨d, hd, rfl⟩ := List.mem_map.mp hx
  exact hlower d (digit_lt_of_mem hd)

end Uuid

/-! ## Records and clusters -/

/-- **What is written of identifiers stands for them.** -/
structure Identifier.Faithful (α : Type) [Identifier α] [LT α] [DecidableLT α] : Prop where
  hyphenated : ∀ x : α, Uuid.IsHyphenated (text x).toList
  /-- The order of identifiers is the order of the bytes that are stored. -/
  lt_iff : ∀ x y : α, x < y ↔ Text.bytes (text x) < Text.bytes (text y)
  /-- So is the order of cells, whatever they hold. -/
  before_iff : ∀ c d : Cell α, c.before d = true ↔ Text.bytes c.text < Text.bytes d.text
  injective : Function.Injective (text : α → String)
  read : ∀ x : α, ofText? (text x) = some x
  read_upper : ∀ x : α, ofText? (.ofList ((text x).toList.map Char.toUpper)) = some x
  read_plain : ∀ x : α, ofText? (.ofList ((text x).toList.filter (· != '-'))) = some x
  read_plain_upper : ∀ x : α,
    ofText? (.ofList (((text x).toList.filter (· != '-')).map Char.toUpper)) = some x

/-- Identifiers that are written, read and compared as those of 128 bits are faithful. -/
theorem Identifier.Faithful.of_uuid {α : Type} [Identifier α] [LT α] [DecidableLT α]
    (uuid : α → Uuid) (make : Uuid → α) (hmake : ∀ x, make (uuid x) = x)
    (htext : ∀ x : α, text x = (uuid x).text)
    (hread : ∀ s, ofText? s = (Uuid.ofText? s).map make)
    (hlt : ∀ x y : α, x < y ↔ uuid x < uuid y) : Faithful α := by
  have htoList : ∀ x : α, (text x).toList = Uuid.grouped ((uuid x).spelled Uuid.digitChar) := by
    intro x
    rw [htext, Uuid.text, String.toList_ofList, Uuid.chars_eq]
  have hplain : ∀ x : α, (text x).toList.filter (· != '-') = (uuid x).spelled Uuid.digitChar := by
    intro x
    rw [htoList, Uuid.filter_grouped ((uuid x).hyphen_notMem_spelled Uuid.digit?_digitChar)]
  have hread' : ∀ (x : α) (cs : List Char), Uuid.ofChars? cs = some (uuid x) →
      ofText? (.ofList cs) = some x := by
    intro x cs hcs
    rw [hread, Uuid.ofText?, String.toList_ofList, hcs, Option.map_some, hmake]
  have hlt' : ∀ x y : α, x < y ↔ text x < text y := by
    intro x y
    rw [hlt, htext, htext, Uuid.lt_iff_text_lt]
  have hself : ∀ x : α, ofText? (text x) = some x := by
    intro x
    rw [← String.ofList_toList (s := text x), htoList]
    exact hread' x _ ((uuid x).ofChars?_grouped_spelled Uuid.digit?_digitChar)
  constructor
  case hyphenated =>
    intro x
    rw [htoList]
    exact (uuid x).isHyphenated_chars
  case lt_iff =>
    intro x y
    exact (hlt' x y).trans Text.lt_iff_bytes_lt
  case before_iff =>
    intro c d
    rw [← Text.lt_iff_bytes_lt]
    rcases c with x | s <;> rcases d with y | t
    · exact decide_eq_true_iff.trans (hlt' x y)
    · exact decide_eq_true_iff
    · exact decide_eq_true_iff
    · exact decide_eq_true_iff
  case injective =>
    intro x y hxy
    have hread := hself x
    rw [hxy, hself] at hread
    exact (Option.some.inj hread).symm
  case read => exact hself
  case read_upper =>
    intro x
    rw [htoList, Uuid.map_grouped (by decide), Uuid.map_spelled]
    exact hread' x _ ((uuid x).ofChars?_grouped_spelled Uuid.digit?_toUpper_digitChar)
  case read_plain =>
    intro x
    rw [hplain]
    exact hread' x _ ((uuid x).ofChars?_spelled Uuid.digit?_digitChar)
  case read_plain_upper =>
    intro x
    rw [hplain, Uuid.map_spelled]
    exact hread' x _ ((uuid x).ofChars?_spelled Uuid.digit?_toUpper_digitChar)

/-- **Identifiers sort alike as values and as text.** One identifier is less than another exactly if
the bytes of its text come first, and the same holds for whatever else a column may hold in their
place. Different identifiers have different texts, which are hyphenated and in lower case, and an
identifier is read from its text in either case, with hyphens and without. -/
theorem identifiers_sort_alike : Identifier.Faithful RecordId ∧ Identifier.Faithful ClusterId := by
  constructor
  · exact .of_uuid RecordId.uuid .mk (fun _ ↦ rfl) (fun _ ↦ rfl) (fun _ ↦ rfl) fun _ _ ↦ .rfl
  · exact .of_uuid ClusterId.uuid .mk (fun _ ↦ rfl) (fun _ ↦ rfl) (fun _ ↦ rfl) fun _ _ ↦ .rfl

end RecordLinkage
