import RecordLinkage.Json.Printer
import RecordLinkage.Proofs.Json.Fitting

/-!
# Values and their text

What was read can be written, and what is written can be read again. Only numbers need not come back
as they were: reading rounds a double twice, and may end up at a neighbour. So a value comes back
with its numbers read again, and with everything else as it is.

Arrays, objects and strings are complete with their last character, wherever they stand. A number
within an array or object is complete with the comma or bracket after it.
-/

namespace RecordLinkage

/-- A number that has been written and read again. -/
def JsonNumber.reread (n : JsonNumber) : JsonNumber :=
  ((Numeral.ofChars? n.text).bind Numeral.value?).getD n

theorem JsonNumber.exists_reread {n : JsonNumber} (h : n.InRange) :
    ∃ m, Numeral.ofChars? n.text = some m ∧ m.value? = some n.reread := by
  obtain ⟨m, w, hm, hw, -⟩ := n.exists_read h
  refine ⟨m, hm, ?_⟩
  rw [reread, hm, Option.bind_some, hw]
  rfl

namespace Json

mutual

/-- A value that has been written and read again. -/
def reread : Json → Json
  | null => null
  | bool b => bool b
  | number n => number n.reread
  | string s => string s
  | array items => array (rereadItems items)
  | object fields => object (rereadFields fields)

/-- Items that have been written and read again. -/
def rereadItems : List Json → List Json
  | [] => []
  | v :: rest => reread v :: rereadItems rest

/-- Fields that have been written and read again. -/
def rereadFields : List (String × Json) → List (String × Json)
  | [] => []
  | (k, v) :: rest => (k, reread v) :: rereadFields rest

end

end Json

namespace Sorted

variable {κ ν : Type} [LT κ] [DecidableLT κ] [DecidableEq κ] [IsStrictTotalOrder κ (· < ·)]

/-- A key that comes after all others is put at the end. -/
theorem put_of_forall_lt {key : κ} {entries : List (κ × ν)}
    (h : ∀ k ∈ entries.map Prod.fst, k < key) (value : ν) :
    put key value entries = entries ++ [(key, value)] := by
  induction entries with
  | nil => rfl
  | cons entry rest ih =>
    obtain ⟨k, v⟩ := entry
    rw [List.map_cons, List.forall_mem_cons] at h
    have hno : ¬key < k := asymm_of (· < ·) h.1
    have hne : key ≠ k := (ne_of_irrefl h.1).symm
    rw [put, if_neg hno, if_neg hne, ih h.2]
    rfl

end Sorted

namespace Scanner

open Json

variable {stack : List Frame} {values : List Json} {c : Char} {cs : List Char}

/-! ## Strings -/

/-- The way in which a character is written in a string stands for it. -/
theorem run_escapedChar (stack : List Frame) (values : List Json) (isKey : Bool)
    (chars : List Char) (c : Char) :
    Scanner.run ⟨stack, .quote isKey chars .plain, values⟩ (escapedChar c)
      = ⟨stack, .quote isKey (c :: chars) .plain, values⟩ := by
  have hofNat {n : ℕ} (h : c.toNat = n) : c = Char.ofNat n := by rw [← h, Char.ofNat_toNat]
  unfold escapedChar
  split_ifs with hquote hslash hline hreturn htab hback hfeed hcontrol
  · subst hquote
    rfl
  · subst hslash
    rfl
  · subst hline
    rfl
  · subst hreturn
    rfl
  · subst htab
    rfl
  · exact hofNat hback ▸ rfl
  · exact hofNat hfeed ▸ rfl
  · -- One of the other control characters, by its code.
    obtain ⟨n, hn⟩ : ∃ n, c.toNat = n := ⟨_, rfl⟩
    rw [hofNat hn]
    rw [hn] at hcontrol
    interval_cases n <;> rfl
  · simp only [run_cons, run_nil, step, stepQuote, if_neg hquote, if_neg hslash, if_neg hcontrol]
    rfl

theorem run_escapedChars (stack : List Frame) (values : List Json) (isKey : Bool)
    (chars text : List Char) :
    Scanner.run ⟨stack, .quote isKey chars .plain, values⟩ (text.flatMap escapedChar)
      = ⟨stack, .quote isKey (text.reverse ++ chars) .plain, values⟩ := by
  induction text generalizing chars with
  | nil => rfl
  | cons c rest ih =>
    rw [List.flatMap_cons, run_append, run_escapedChar, ih, List.reverse_cons, List.append_assoc]
    rfl

/-- A scanner at which a value begins. -/
def Ready (s : Scanner) : Prop := s.mode = .value ∨ s.mode = .firstItem

theorem run_quotedText (stack : List Frame) (values : List Json) (isKey : Bool) (mode : Mode)
    (text : String)
    (hstep : step ⟨stack, mode, values⟩ '"' = ⟨stack, .quote isKey [] .plain, values⟩)
    (cs : List Char) :
    Scanner.run ⟨stack, mode, values⟩ (quotedText text ++ cs)
      = (endQuote ⟨stack, .quote isKey text.toList.reverse .plain, values⟩ isKey
          text.toList.reverse).run cs := by
  have hclose : quotedText text ++ cs
      = '"' :: (text.toList.flatMap escapedChar ++ '"' :: cs) := by
    simp only [quotedText, List.cons_append, List.append_assoc, List.nil_append]
  rw [hclose, run_cons, hstep, run_append, run_escapedChars, List.append_nil, run_cons]
  rfl

/-- Completing a value does not depend on what the scanner was in the middle of. -/
theorem complete_congr (mode mode' : Mode) (v : Json) :
    complete ⟨stack, mode, values⟩ v = complete ⟨stack, mode', values⟩ v := by
  cases stack with
  | nil => rfl
  | cons frame rest => cases frame <;> rfl

theorem run_string {s : Scanner} (hs : s.Ready) (text : String) (cs : List Char) :
    s.run ((string text).chars ++ cs) = (s.complete (string text).reread).run cs := by
  obtain ⟨stack, mode, values⟩ := s
  have hstep : step ⟨stack, mode, values⟩ '"' = ⟨stack, .quote false [] .plain, values⟩ := by
    rcases hs with hmode | hmode <;>
    · obtain rfl : mode = _ := hmode
      rfl
  rw [chars, run_quotedText stack values false mode text hstep]
  have hend : endQuote ⟨stack, .quote false text.toList.reverse .plain, values⟩ false
      text.toList.reverse = complete ⟨stack, mode, values⟩ (string text) := by
    rw [complete_congr mode (.quote false text.toList.reverse .plain)]
    simp only [endQuote, List.reverse_reverse, String.ofList_toList]
    rfl
  rw [hend, reread]

/-- A key and its colon. -/
theorem run_key {fields : List (String × Json)} {before : String} {mode : Mode}
    (hmode : mode = .firstKey ∨ mode = .key) (key : String) (cs : List Char) :
    Scanner.run ⟨.object fields before :: stack, mode, values⟩ (quotedText key ++ ':' :: cs)
      = Scanner.run ⟨.object fields key :: stack, .value, values⟩ cs := by
  have hstep : step ⟨.object fields before :: stack, mode, values⟩ '"'
      = ⟨.object fields before :: stack, .quote true [] .plain, values⟩ := by
    rcases hmode with rfl | rfl <;> rfl
  rw [run_quotedText _ values true mode key hstep, run_cons]
  have hend : endQuote ⟨.object fields before :: stack, .quote true key.toList.reverse .plain,
      values⟩ true key.toList.reverse = ⟨.object fields key :: stack, .colon, values⟩ := by
    simp only [endQuote, List.reverse_reverse, String.ofList_toList]
    rfl
  rw [hend]
  rfl

/-! ## Numbers and words within arrays and objects -/

/-- A character that may follow a value within an array or object. -/
def Closes (c : Char) : Prop := c = ',' ∨ c = ']' ∨ c = '\x7d'

theorem push_of_closes {n : Numeral} {v : JsonNumber} (h : n.value? = some v) (hc : Closes c) :
    n.push c = .ended := by
  rcases hc with rfl | rfl | rfl <;>
    exact Numeral.push_of_foreign h (by decide) (by decide) (by decide)

theorem run_pushAll {n m : Numeral} (h : n.pushAll cs = some m) :
    Scanner.run ⟨stack, .numeral n, values⟩ cs = ⟨stack, .numeral m, values⟩ := by
  induction cs generalizing n with
  | nil => exact Option.some.inj h ▸ rfl
  | cons c rest ih =>
    rw [Numeral.pushAll] at h
    cases hpush : n.push c with
    | more k =>
      rw [hpush] at h
      have hstep : step ⟨stack, .numeral n, values⟩ c = ⟨stack, .numeral k, values⟩ := by
        simp only [step, hpush]
        rfl
      rw [run_cons, hstep]
      exact ih h
    | ended | broken =>
      rw [hpush] at h
      cases h

/-- The first character of a number. -/
theorem step_first {s : Scanner} (hs : s.Ready) {n : Numeral} (h : Numeral.first? c = some n) :
    s.step c = s.enter (.numeral n) := by
  have hbegin : s.beginValue c = s.enter (.numeral n) := by
    unfold beginValue
    split
    · cases h
    · cases h
    · cases h
    · cases h
    · cases h
    · cases h
    · rw [h]
  -- No blank begins a number, and no bracket does.
  have hblank : isBlank c = false := by
    by_contra hblank
    rw [Bool.not_eq_false] at hblank
    have hcases : c = ' ' ∨ c = '\n' ∨ c = '\t' ∨ c = '\r' := by
      simpa [isBlank, or_assoc] using hblank
    rcases hcases with rfl | rfl | rfl | rfl <;> cases h
  have hbracket : c ≠ ']' := by
    rintro rfl
    cases h
  have hbetween : s.step c = s.stepBetween c := by
    rcases hs with hmode | hmode <;> simp only [step, hmode]
  rw [hbetween]
  unfold stepBetween
  rcases hs with hmode | hmode
  · simp only [hblank, hmode, Bool.false_eq_true, if_false, hbegin]
  · simp only [hblank, hmode, Bool.false_eq_true, if_false, hbracket, hbegin]

/-- The text of a number leaves the scanner at its end. -/
theorem exists_run_number {s : Scanner} (hs : s.Ready) {n : JsonNumber} (hn : n.InRange) :
    ∃ m, s.run n.text = s.enter (.numeral m) ∧ m.value? = some n.reread := by
  obtain ⟨m, hm, hvalue⟩ := n.exists_reread hn
  refine ⟨m, ?_, hvalue⟩
  cases htext : n.text with
  | nil =>
    rw [htext] at hm
    cases hm
  | cons c rest =>
    rw [htext] at hm
    obtain ⟨k, hfirst, hrest⟩ := Option.bind_eq_some_iff.mp hm
    rw [run_cons, step_first hs hfirst]
    exact run_pushAll hrest

end Scanner

namespace Json

open Scanner

/-- What reading the text of a value does, within an array or object. -/
def Runs (v : Json) : Prop :=
  ∀ (s : Scanner), s.Ready → s.stack ≠ [] → v.Fits (depthLimit - s.stack.length) →
    ∀ c cs, Closes c → s.run (v.chars ++ c :: cs) = (s.complete v.reread).run (c :: cs)

theorem runs_number (n : JsonNumber) : (number n).Runs := by
  rintro ⟨stack, mode, values⟩ hs hstack hfits c cs hc
  obtain ⟨m, hrun, hvalue⟩ := exists_run_number hs (fits_number.mp hfits)
  obtain ⟨frame, rest, rfl⟩ := List.exists_cons_of_ne_nil hstack
  have hstep (v : Json) : step (complete ⟨frame :: rest, mode, values⟩ v) c
      = stepBetween (complete ⟨frame :: rest, mode, values⟩ v) c := by
    cases frame <;> rfl
  rw [chars, run_append, hrun, run_cons, run_cons, reread, hstep]
  congr 1
  simp only [step, enter, push_of_closes hvalue hc, endNumeral, hvalue, endScalar,
    List.isEmpty_cons, Bool.false_and, Bool.false_eq_true, if_false]
  rw [complete_congr]

theorem runs_null : null.Runs := by
  rintro ⟨stack, mode, values⟩ hs hstack - c cs -
  obtain ⟨frame, rest, rfl⟩ := List.exists_cons_of_ne_nil hstack
  rcases hs with rfl | rfl <;> cases frame <;> rfl

theorem runs_bool (b : Bool) : (bool b).Runs := by
  rintro ⟨stack, mode, values⟩ hs hstack - c cs -
  obtain ⟨frame, rest, rfl⟩ := List.exists_cons_of_ne_nil hstack
  rcases hs with rfl | rfl <;> cases b <;> cases frame <;> rfl

/-! ## Arrays -/

variable {stack : List Frame} {values : List Json}

theorem exists_closes_itemChars (rest : List Json) (cs : List Char) :
    ∃ c cs', itemChars rest ++ ']' :: cs = c :: cs' ∧ Closes c := by
  cases rest with
  | nil => exact ⟨']', cs, rfl, .inr (.inl rfl)⟩
  | cons v rest =>
    rw [itemChars]
    exact ⟨',', _, rfl, .inl rfl⟩

/-- The items after the first one, and the closing bracket. -/
theorem run_itemChars {rest : List Json} (h : ∀ v ∈ rest, v.Runs) (before : List Json)
    (hfits : ∀ v ∈ rest, v.Fits (depthLimit - (stack.length + 1))) (cs : List Char) :
    Scanner.run ⟨.array before :: stack, .after, values⟩ (itemChars rest ++ ']' :: cs)
      = (complete ⟨stack, .after, values⟩ (array (before.reverse ++ rereadItems rest))).run cs := by
  induction rest generalizing before with
  | nil =>
    rw [rereadItems, List.append_nil]
    rfl
  | cons v rest ih =>
    obtain ⟨hv, hrest⟩ := List.forall_mem_cons.mp h
    obtain ⟨hvfits, hrestfits⟩ := List.forall_mem_cons.mp hfits
    -- A number ends only where something else begins, so what follows the item matters.
    have hcomma : itemChars (v :: rest) ++ ']' :: cs
        = ',' :: (v.chars ++ (itemChars rest ++ ']' :: cs)) := by
      simp only [itemChars, List.cons_append, List.append_assoc]
    obtain ⟨c, cs', hnext, hc⟩ := exists_closes_itemChars rest cs
    have hstep : step ⟨.array before :: stack, .after, values⟩ ','
        = ⟨.array before :: stack, .value, values⟩ := rfl
    rw [hcomma, run_cons, hstep, hnext,
      hv ⟨.array before :: stack, .value, values⟩ (.inl rfl) (List.cons_ne_nil _ _) hvfits c cs' hc,
      ← hnext, rereadItems]
    refine (ih hrest (v.reread :: before) hrestfits).trans ?_
    rw [List.reverse_cons, List.append_assoc]
    rfl

theorem run_array {items : List Json} (h : ∀ v ∈ items, v.Runs) {s : Scanner} (hs : s.Ready)
    (hfits : (array items).Fits (depthLimit - s.stack.length)) (cs : List Char) :
    s.run ((array items).chars ++ cs) = (s.complete (array items).reread).run cs := by
  obtain ⟨stack, mode, values⟩ := s
  obtain ⟨hroom, hitems⟩ := fits_array.mp hfits
  have hlength : stack.length < depthLimit := Nat.lt_of_sub_pos hroom
  have hopen : step ⟨stack, mode, values⟩ '[' = ⟨.array [] :: stack, .firstItem, values⟩ := by
    have hbegin : openFrame ⟨stack, mode, values⟩ (.array []) .firstItem
        = ⟨.array [] :: stack, .firstItem, values⟩ := if_pos hlength
    rcases hs with rfl | rfl <;> exact hbegin
  rw [reread, complete_congr mode .after]
  cases items with
  | nil =>
    rw [chars, rereadItems, List.cons_append, run_cons, hopen]
    rfl
  | cons v rest =>
    obtain ⟨hv, hrest⟩ := List.forall_mem_cons.mp h
    have hroom' : depthLimit - stack.length - 1 = depthLimit - (stack.length + 1) := by omega
    rw [hroom'] at hitems
    obtain ⟨hvfits, hrestfits⟩ := List.forall_mem_cons.mp hitems
    have htext : (array (v :: rest)).chars ++ cs
        = '[' :: (v.chars ++ (itemChars rest ++ ']' :: cs)) := by
      simp only [chars, List.cons_append, List.append_assoc, List.nil_append]
    obtain ⟨c, cs', hnext, hc⟩ := exists_closes_itemChars rest cs
    rw [htext, run_cons, hopen, hnext,
      hv ⟨.array [] :: stack, .firstItem, values⟩ (.inr rfl) (List.cons_ne_nil _ _) hvfits c cs' hc,
      ← hnext, rereadItems]
    exact run_itemChars hrest [v.reread] hrestfits cs

/-! ## Objects -/

theorem exists_closes_fieldChars (rest : List (String × Json)) (cs : List Char) :
    ∃ c cs', fieldChars rest ++ '\x7d' :: cs = c :: cs' ∧ Closes c := by
  cases rest with
  | nil => exact ⟨'\x7d', cs, rfl, .inr (.inr rfl)⟩
  | cons field rest =>
    rw [fieldChars]
    exact ⟨',', _, rfl, .inl rfl⟩

/-- One field, after a brace or a comma. -/
theorem run_field {v : Json} (hv : v.Runs) (hvfits : v.Fits (depthLimit - (stack.length + 1)))
    {before : List (String × Json)} {k : String} {mode : Mode}
    (hmode : mode = .firstKey ∨ mode = .key) {key : String}
    (hlast : ∀ k ∈ before.map Prod.fst, k < key) {c : Char} (hc : Closes c) (cs : List Char) :
    Scanner.run ⟨.object before k :: stack, mode, values⟩
        (quotedText key ++ ':' :: (v.chars ++ c :: cs))
      = Scanner.run ⟨.object (before ++ [(key, v.reread)]) key :: stack, .after, values⟩
        (c :: cs) := by
  rw [run_key hmode, hv ⟨.object before key :: stack, .value, values⟩ (.inl rfl)
    (List.cons_ne_nil _ _) hvfits c cs hc, ← Sorted.put_of_forall_lt hlast]
  rfl

/-- The fields after the first one, and the closing brace. -/
theorem run_fieldChars {rest : List (String × Json)} (h : ∀ field ∈ rest, field.2.Runs)
    (before : List (String × Json)) (k : String)
    (hkeys : ((before ++ rest).map Prod.fst).Pairwise (· < ·))
    (hfits : ∀ field ∈ rest, field.2.Fits (depthLimit - (stack.length + 1))) (cs : List Char) :
    Scanner.run ⟨.object before k :: stack, .after, values⟩ (fieldChars rest ++ '\x7d' :: cs)
      = (complete ⟨stack, .after, values⟩ (object (before ++ rereadFields rest))).run cs := by
  induction rest generalizing before k with
  | nil =>
    rw [rereadFields, List.append_nil]
    rfl
  | cons field rest ih =>
    obtain ⟨key, v⟩ := field
    obtain ⟨hv, hrest⟩ := List.forall_mem_cons.mp h
    obtain ⟨hvfits, hrestfits⟩ := List.forall_mem_cons.mp hfits
    have hcomma : fieldChars ((key, v) :: rest) ++ '\x7d' :: cs
        = ',' :: (quotedText key ++ ':' :: (v.chars ++ (fieldChars rest ++ '\x7d' :: cs))) := by
      simp only [fieldChars, List.cons_append, List.append_assoc]
    have hlast : ∀ k ∈ before.map Prod.fst, k < key := by
      rw [List.map_append, List.pairwise_append] at hkeys
      exact fun k hk ↦ hkeys.2.2 k hk key List.mem_cons_self
    have hkeys' : ((before ++ [(key, v.reread)] ++ rest).map Prod.fst).Pairwise (· < ·) := by
      simpa using hkeys
    obtain ⟨c, cs', hnext, hc⟩ := exists_closes_fieldChars rest cs
    have hstep : step ⟨.object before k :: stack, .after, values⟩ ','
        = ⟨.object before k :: stack, .key, values⟩ := rfl
    rw [hcomma, run_cons, hstep, hnext, run_field hv hvfits (.inr rfl) hlast hc, ← hnext,
      ih hrest _ key hkeys' hrestfits, rereadFields, List.append_assoc]
    rfl

theorem run_object {fields : List (String × Json)} (h : ∀ field ∈ fields, field.2.Runs)
    {s : Scanner} (hs : s.Ready) (hfits : (object fields).Fits (depthLimit - s.stack.length))
    (cs : List Char) :
    s.run ((object fields).chars ++ cs) = (s.complete (object fields).reread).run cs := by
  obtain ⟨stack, mode, values⟩ := s
  obtain ⟨hroom, hkeys, hfields⟩ := fits_object.mp hfits
  have hlength : stack.length < depthLimit := Nat.lt_of_sub_pos hroom
  have hopen : step ⟨stack, mode, values⟩ '\x7b'
      = ⟨.object [] "" :: stack, .firstKey, values⟩ := by
    have hbegin : openFrame ⟨stack, mode, values⟩ (.object [] "") .firstKey
        = ⟨.object [] "" :: stack, .firstKey, values⟩ := if_pos hlength
    rcases hs with rfl | rfl <;> exact hbegin
  rw [reread, complete_congr mode .after]
  cases fields with
  | nil =>
    rw [chars, rereadFields, List.cons_append, run_cons, hopen]
    rfl
  | cons field rest =>
    obtain ⟨key, v⟩ := field
    obtain ⟨hv, hrest⟩ := List.forall_mem_cons.mp h
    have hroom' : depthLimit - stack.length - 1 = depthLimit - (stack.length + 1) := by omega
    rw [hroom'] at hfields
    obtain ⟨hvfits, hrestfits⟩ := List.forall_mem_cons.mp hfields
    have htext : (object ((key, v) :: rest)).chars ++ cs
        = '\x7b' :: (quotedText key ++ ':' :: (v.chars ++ (fieldChars rest ++ '\x7d' :: cs))) := by
      simp only [chars, List.cons_append, List.append_assoc, List.nil_append]
    have hnone : ∀ k ∈ ([] : List (String × Json)).map Prod.fst, k < key := fun _ hk ↦ nomatch hk
    obtain ⟨c, cs', hnext, hc⟩ := exists_closes_fieldChars rest cs
    rw [htext, run_cons, hopen, hnext, run_field hv hvfits (.inl rfl) hnone hc, ← hnext,
      rereadFields]
    exact run_fieldChars hrest [(key, v.reread)] key hkeys hrestfits cs

/-! ## Values -/

mutual

/-- **Reading the text of a value completes the value**, within an array or object. -/
theorem runs : ∀ v : Json, v.Runs
  | null => runs_null
  | bool b => runs_bool b
  | number n => runs_number n
  | string text => fun _ hs _ _ c cs _ ↦ run_string hs text (c :: cs)
  | array items => fun _ hs _ hfits c cs _ ↦ run_array (runs_items items) hs hfits (c :: cs)
  | object fields => fun _ hs _ hfits c cs _ ↦ run_object (runs_fields fields) hs hfits (c :: cs)

theorem runs_items : ∀ items : List Json, ∀ v ∈ items, v.Runs
  | [] => nofun
  | v :: rest => List.forall_mem_cons.mpr ⟨runs v, runs_items rest⟩

theorem runs_fields : ∀ fields : List (String × Json), ∀ field ∈ fields, field.2.Runs
  | [] => nofun
  | (_, v) :: rest => List.forall_mem_cons.mpr ⟨runs v, runs_fields rest⟩

end

/-- **A value is read from its own text**, but for the last digit of its doubles. -/
theorem readStream_chars {v : Json} (h : v.Storable) : readStream v.chars = ⟨[v.reread], true⟩ := by
  have hready : start.Ready := .inl rfl
  have hend (hrun : start.run v.chars = start.complete v.reread) :
      readStream v.chars = ⟨[v.reread], true⟩ := by
    rw [readStream, hrun]
    rfl
  have hwhole (hrun : start.run (v.chars ++ []) = (start.complete v.reread).run []) :
      start.run v.chars = start.complete v.reread := by
    rwa [List.append_nil] at hrun
  cases v with
  | null => rfl
  | bool b => cases b <;> rfl
  | string text => exact hend (hwhole (run_string hready text []))
  | array items => exact hend (hwhole (run_array (runs_items items) hready h []))
  | object fields => exact hend (hwhole (run_object (runs_fields fields) hready h []))
  | number n =>
    obtain ⟨m, hrun, hvalue⟩ := exists_run_number hready (fits_number.mp h)
    rw [readStream, chars, hrun, reread]
    simp only [enter, start, atEnd, hvalue]
    rfl

/-- **What was stored as text can be read**. -/
theorem parse_text {v : Json} (h : v.Storable) : parse? v.text = some v.reread := by
  rw [parse?, text, String.toList_ofList, readStream_chars h]

/-! ## Strings come back as they were -/

theorem string?_reread (v : Json) : v.reread.string? = v.string? := by
  cases v <;> rfl

theorem get?_rereadFields (key : String) (fields : List (String × Json)) :
    Sorted.get? key (rereadFields fields) = (Sorted.get? key fields).map reread := by
  induction fields with
  | nil => rfl
  | cons field rest ih =>
    obtain ⟨k, v⟩ := field
    rw [Sorted.get?, Sorted.get?] at ih
    rw [rereadFields, Sorted.get?, Sorted.get?, List.find?_cons, List.find?_cons]
    by_cases hkey : k = key
    · simp [hkey]
    · simpa [hkey] using ih

theorem get?_reread (key : String) (v : Json) : v.reread.get? key = (v.get? key).map reread := by
  cases v with
  | object fields =>
    rw [reread]
    exact get?_rereadFields key fields
  | _ => rfl

theorem text_of_reread (key : String) (v : Json) :
    (v.reread.get? key).bind string? = (v.get? key).bind string? := by
  rw [get?_reread]
  cases v.get? key with
  | none => rfl
  | some w => exact string?_reread w

end Json

end RecordLinkage
