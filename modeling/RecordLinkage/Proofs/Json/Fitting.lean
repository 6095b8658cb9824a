import RecordLinkage.Json.Scanner
import RecordLinkage.Proofs.Histogram
import RecordLinkage.Proofs.Json.Numeral

/-!
# What a text can hold

A value that was read has at most `Scanner.depthLimit` arrays and objects around one another, its
objects ascend by key, and its numbers are in range. The scanner keeps this up character by
character: the items of an open array or object have as many levels left as are not used up by the
arrays and objects that are open around them.
-/

namespace RecordLinkage

namespace Json

mutual

/-- A value that a text can hold, with so many levels of arrays and objects at most. -/
def Fits : Json → ℕ → Prop
  | null, _ => True
  | bool _, _ => True
  | number n, _ => n.InRange
  | string _, _ => True
  | array items, room => 0 < room ∧ ItemsFit items (room - 1)
  | object fields, room =>
    0 < room ∧ (fields.map Prod.fst).Pairwise (· < ·) ∧ FieldsFit fields (room - 1)

/-- Items that a text can hold. -/
def ItemsFit : List Json → ℕ → Prop
  | [], _ => True
  | v :: rest, room => Fits v room ∧ ItemsFit rest room

/-- Fields that a text can hold. -/
def FieldsFit : List (String × Json) → ℕ → Prop
  | [], _ => True
  | (_, v) :: rest, room => Fits v room ∧ FieldsFit rest room

end

variable {room : ℕ}

theorem itemsFit_iff {items : List Json} : ItemsFit items room ↔ ∀ v ∈ items, v.Fits room := by
  induction items with
  | nil => simp [ItemsFit]
  | cons v rest ih => rw [ItemsFit, List.forall_mem_cons, ih]

theorem fieldsFit_iff {fields : List (String × Json)} :
    FieldsFit fields room ↔ ∀ field ∈ fields, field.2.Fits room := by
  induction fields with
  | nil => simp [FieldsFit]
  | cons field rest ih => rw [FieldsFit, List.forall_mem_cons, ih]

theorem fits_number {n : JsonNumber} : (number n).Fits room ↔ n.InRange := by rw [Fits]

theorem fits_array {items : List Json} :
    (array items).Fits room ↔ 0 < room ∧ ∀ v ∈ items, v.Fits (room - 1) := by
  rw [Fits, itemsFit_iff]

theorem fits_object {fields : List (String × Json)} : (object fields).Fits room ↔
    0 < room ∧ (fields.map Prod.fst).Pairwise (· < ·) ∧
      ∀ field ∈ fields, field.2.Fits (room - 1) := by
  rw [Fits, fieldsFit_iff]

mutual

/-- A value may be put where there is more room. -/
theorem Fits.mono : ∀ {v : Json} {room room' : ℕ}, v.Fits room → room ≤ room' → v.Fits room'
  | null, _, _, _, _ | bool _, _, _, _, _ | string _, _, _, _, _ => by simp only [Fits]
  | number _, _, _, h, _ => fits_number.mpr (fits_number.mp h)
  | array items, room, room', h, hle => by
    rw [Fits] at h ⊢
    exact ⟨h.1.trans_le hle, ItemsFit.mono h.2 (Nat.sub_le_sub_right hle 1)⟩
  | object fields, room, room', h, hle => by
    rw [Fits] at h ⊢
    exact ⟨h.1.trans_le hle, h.2.1, FieldsFit.mono h.2.2 (Nat.sub_le_sub_right hle 1)⟩

theorem ItemsFit.mono : ∀ {items : List Json} {room room' : ℕ}, ItemsFit items room →
    room ≤ room' → ItemsFit items room'
  | [], _, _, _, _ => by rw [ItemsFit]; trivial
  | _ :: _, _, _, h, hle => by
    rw [ItemsFit] at h ⊢
    exact ⟨Fits.mono h.1 hle, ItemsFit.mono h.2 hle⟩

theorem FieldsFit.mono : ∀ {fields : List (String × Json)} {room room' : ℕ},
    FieldsFit fields room → room ≤ room' → FieldsFit fields room'
  | [], _, _, _, _ => by rw [FieldsFit]; trivial
  | _ :: _, _, _, h, hle => by
    rw [FieldsFit] at h ⊢
    exact ⟨Fits.mono h.1 hle, FieldsFit.mono h.2 hle⟩

end

/-- A value that the text of a batch or of parameters can give. -/
def Storable (v : Json) : Prop := v.Fits Scanner.depthLimit

/-- The values of the fields of an object are values that a text can give, each by itself. -/
theorem Storable.field {fields : List (String × Json)} (h : (object fields).Storable)
    {field : String × Json} (hfield : field ∈ fields) : field.2.Storable :=
  ((fits_object.mp h).2.2 field hfield).mono (Nat.sub_le _ _)

/-- And so are the items of an array. -/
theorem Storable.item {items : List Json} (h : (array items).Storable) {v : Json}
    (hv : v ∈ items) : v.Storable :=
  ((fits_array.mp h).2 v hv).mono (Nat.sub_le _ _)

end Json

theorem Sorted.mem_put {κ ν : Type} [LT κ] [DecidableLT κ] [DecidableEq κ] {key : κ} {value : ν}
    {entries : List (κ × ν)} {entry : κ × ν} (h : entry ∈ put key value entries) :
    entry = (key, value) ∨ entry ∈ entries := by
  induction entries with
  | nil => exact .inl (List.mem_singleton.mp h)
  | cons first rest ih =>
    obtain ⟨k, v⟩ := first
    rw [put] at h
    split_ifs at h with hlt heq
    · exact List.mem_cons.mp h
    · exact (List.mem_cons.mp h).imp_right fun hmem ↦ List.mem_cons_of_mem _ hmem
    · rcases List.mem_cons.mp h with rfl | hmem
      · exact .inr List.mem_cons_self
      · exact (ih hmem).imp_right fun hmem ↦ List.mem_cons_of_mem _ hmem

namespace Scanner

/-- An open array or object whose values have so many levels at most. -/
def Frame.Fits (room : ℕ) : Frame → Prop
  | .array items => ∀ v ∈ items, v.Fits room
  | .object fields _ =>
    (fields.map Prod.fst).Pairwise (· < ·) ∧ ∀ field ∈ fields, field.2.Fits room

/-- The arrays and objects that are open leave room for what is in them. -/
def StackFits : List Frame → Prop
  | [] => True
  | frame :: rest =>
    rest.length < depthLimit ∧ frame.Fits (depthLimit - 1 - rest.length) ∧ StackFits rest

/-- What the scanner is in the middle of can become a value that fits, however little room there
is. -/
def Mode.Fits : Mode → Prop
  | .word _ v => ∀ room, v.Fits room
  | .settled v => ∀ room, v.Fits room
  | .numeral n => n.Fits
  | _ => True

/-- All that a scanner has read fits. -/
structure Fitting (s : Scanner) : Prop where
  stack : StackFits s.stack
  mode : s.mode.Fits
  values : ∀ v ∈ s.values, v.Storable

section Steps

variable {s : Scanner} (h : s.Fitting)

include h

theorem Fitting.enter {mode : Mode} (hmode : mode.Fits) : (s.enter mode).Fitting :=
  ⟨h.stack, hmode, h.values⟩

theorem Fitting.fail : s.fail.Fitting := ⟨h.stack, trivial, h.values⟩

theorem Fitting.complete {v : Json} (hv : v.Fits (depthLimit - s.stack.length)) :
    (s.complete v).Fitting := by
  obtain ⟨stack, mode, values⟩ := s
  cases stack with
  | nil => exact ⟨trivial, trivial, List.forall_mem_cons.mpr ⟨hv, h.values⟩⟩
  | cons frame rest =>
    obtain ⟨hlength, hframe, hrest⟩ := h.stack
    -- What is in the innermost frame has as much room as is left below it.
    have hroom : depthLimit - (frame :: rest).length = depthLimit - 1 - rest.length := by
      rw [List.length_cons]
      omega
    rw [hroom] at hv
    cases frame with
    | array items =>
      exact ⟨⟨hlength, List.forall_mem_cons.mpr ⟨hv, hframe⟩, hrest⟩, trivial, h.values⟩
    | object fields key =>
      refine ⟨⟨hlength, ⟨?_, fun field hfield ↦ ?_⟩, hrest⟩, trivial, h.values⟩
      · rw [Sorted.keys_put]
        exact Sorted.pairwise_insert hframe.1
      · rcases Sorted.mem_put hfield with rfl | hmem
        · exact hv
        · exact hframe.2 field hmem

theorem Fitting.openFrame {frame : Frame} {mode : Mode} (hframe : ∀ room, frame.Fits room)
    (hmode : mode.Fits) : (s.openFrame frame mode).Fitting := by
  unfold Scanner.openFrame
  split_ifs with hlength
  · exact ⟨⟨hlength, hframe _, h.stack⟩, hmode, h.values⟩
  · exact h.fail

theorem Fitting.closeArray : s.closeArray.Fitting := by
  obtain ⟨stack, mode, values⟩ := s
  cases stack with
  | nil => exact h.fail
  | cons frame rest =>
    obtain ⟨hlength, hframe, hrest⟩ := h.stack
    cases frame with
    | object fields key => exact h.fail
    | array items =>
      have hbelow : Fitting ⟨rest, mode, values⟩ := ⟨hrest, h.mode, h.values⟩
      refine hbelow.complete (Json.fits_array.mpr ⟨Nat.sub_pos_of_lt hlength, fun v hv ↦ ?_⟩)
      rw [Nat.sub_right_comm]
      exact hframe v (List.mem_reverse.mp hv)

theorem Fitting.closeObject : s.closeObject.Fitting := by
  obtain ⟨stack, mode, values⟩ := s
  cases stack with
  | nil => exact h.fail
  | cons frame rest =>
    obtain ⟨hlength, hframe, hrest⟩ := h.stack
    cases frame with
    | array items => exact h.fail
    | object fields key =>
      have hbelow : Fitting ⟨rest, mode, values⟩ := ⟨hrest, h.mode, h.values⟩
      refine hbelow.complete
        (Json.fits_object.mpr ⟨Nat.sub_pos_of_lt hlength, hframe.1, fun field hfield ↦ ?_⟩)
      rw [Nat.sub_right_comm]
      exact hframe.2 field hfield

theorem Fitting.beginValue (c : Char) : (s.beginValue c).Fitting := by
  have harray (room : ℕ) : (Frame.array []).Fits room := fun v hv ↦ nomatch hv
  have hobject (room : ℕ) : (Frame.object [] "").Fits room :=
    ⟨List.Pairwise.nil, fun field hfield ↦ nomatch hfield⟩
  unfold Scanner.beginValue
  split
  · exact h.enter trivial
  · exact h.openFrame harray trivial
  · exact h.openFrame hobject trivial
  · exact h.enter fun _ ↦ trivial
  · exact h.enter fun _ ↦ trivial
  · exact h.enter fun _ ↦ trivial
  · cases hfirst : Numeral.first? c with
    | some n => exact h.enter (Numeral.fits_first hfirst)
    | none => exact h.fail

theorem Fitting.stepBetween (c : Char) : (s.stepBetween c).Fitting := by
  unfold Scanner.stepBetween
  split
  · exact h
  · split
    · exact h.beginValue c
    · split
      · exact h.closeArray
      · exact h.beginValue c
    · split
      · exact h.closeObject
      · split
        · exact h.enter trivial
        · exact h.fail
    · split
      · exact h.enter trivial
      · exact h.fail
    · split
      · exact h.enter trivial
      · exact h.fail
    · split
      · exact h.enter trivial
      · exact h.enter trivial
      · exact h.closeArray
      · exact h.closeObject
      · exact h.fail
    · exact h.fail

theorem Fitting.endQuote (isKey : Bool) (chars : List Char) : (s.endQuote isKey chars).Fitting := by
  cases isKey with
  | false => exact h.complete trivial
  | true =>
    obtain ⟨stack, mode, values⟩ := s
    cases stack with
    | nil => exact h.fail
    | cons frame rest =>
      obtain ⟨hlength, hframe, hrest⟩ := h.stack
      cases frame with
      | array items => exact h.fail
      | object fields key => exact ⟨⟨hlength, hframe, hrest⟩, trivial, h.values⟩

theorem Fitting.endCode (isKey : Bool) (chars : List Char) (leading : Option ℕ) (n : ℕ) :
    (s.endCode isKey chars leading n).Fitting := by
  unfold Scanner.endCode
  repeat' split
  all_goals exact h.enter trivial

theorem Fitting.stepQuote (isKey : Bool) (chars : List Char) (state : Quote) (c : Char) :
    (s.stepQuote isKey chars state c).Fitting := by
  unfold Scanner.stepQuote
  cases state with
  | plain =>
    dsimp only
    split
    · exact h.endQuote isKey chars
    · repeat' split
      all_goals exact h.enter trivial
  | escape =>
    dsimp only
    split
    · exact h.enter trivial
    · split
      · exact h.enter trivial
      · exact h.fail
  | code leading digits value =>
    dsimp only
    split
    · exact h.fail
    · split
      · exact h.enter trivial
      · exact h.endCode isKey chars leading _
  | halfway leading | halfwayEscape leading =>
    dsimp only
    split
    · exact h.enter trivial
    · exact h.fail

theorem Fitting.endScalar {v : Json} (hv : ∀ room, v.Fits room) (c : Char) :
    (s.endScalar v c).Fitting := by
  unfold Scanner.endScalar
  split
  · exact h.fail
  · exact (h.complete (hv _)).stepBetween c

theorem Fitting.endWord {v : Json} (hv : ∀ room, v.Fits room) : (s.endWord v).Fitting := by
  unfold Scanner.endWord
  split
  · exact h.enter hv
  · exact h.complete (hv _)

theorem Fitting.endNumeral {n : Numeral} (hn : n.Fits) (c : Char) : (s.endNumeral n c).Fitting := by
  unfold Scanner.endNumeral
  split
  · next v hv => exact h.endScalar (fun _ ↦ Json.fits_number.mpr (Numeral.inRange_value hn hv)) c
  · exact h.fail

/-- **Each character keeps up that all fits.** -/
theorem Fitting.step (c : Char) : (s.step c).Fitting := by
  have hmode := h.mode
  unfold Scanner.step
  split
  · exact h
  · exact h.stepQuote _ _ _ c
  · next hword =>
    rw [hword] at hmode
    exact h.endScalar hmode c
  · next hword =>
    rw [hword] at hmode
    split
    · split
      · exact h.endWord hmode
      · exact h.enter hmode
    · exact h.fail
  · next n hnumeral =>
    rw [hnumeral] at hmode
    split
    · next hpush => exact h.enter (Numeral.fits_push hmode hpush)
    · exact h.endNumeral hmode c
    · exact h.fail
  · next hsettled =>
    rw [hsettled] at hmode
    exact h.endScalar hmode c
  · exact h.stepBetween c

theorem Fitting.run (cs : List Char) : (s.run cs).Fitting := by
  induction cs generalizing s with
  | nil => exact h
  | cons c rest ih => exact ih (h.step c)

theorem Fitting.atEnd : s.atEnd.Fitting := by
  obtain ⟨stack, mode, values⟩ := s
  cases stack with
  | cons => exact h.fail
  | nil =>
    have hmode := h.mode
    cases mode with
    | value => exact h
    | settled v => exact h.complete (hmode _)
    | numeral n =>
      dsimp only [Scanner.atEnd]
      cases hv : n.value? with
      | some v => exact h.complete (Json.fits_number.mpr (Numeral.inRange_value hmode hv))
      | none => exact h.fail
    | _ => exact h.fail

end Steps

theorem fitting_start : start.Fitting := ⟨trivial, trivial, fun _ hv ↦ nomatch hv⟩

end Scanner

namespace Json

/-- **What a stream holds fits.** -/
theorem storable_of_mem_stream {cs : List Char} {v : Json} (h : v ∈ (readStream cs).values) :
    v.Storable :=
  (Scanner.fitting_start.run cs).atEnd.values v (List.mem_reverse.mp h)

theorem storable_of_parse {text : String} {v : Json} (h : parse? text = some v) : v.Storable := by
  unfold parse? at h
  split at h
  · next u hread =>
    obtain rfl := Option.some.inj h
    have hmem : u ∈ (readStream text.toList).values := by
      rw [hread]
      exact List.mem_singleton_self u
    exact storable_of_mem_stream hmem
  · cases h

end Json

end RecordLinkage
