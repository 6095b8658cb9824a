import Mathlib.Data.List.Induction
import RecordLinkage.Json.Scanner

/-!
# Streams of values

The values that are complete are written only, never read. So whatever a scanner does, it does in
the same way after other values. One character completes one value at most, and then nothing else is
left of the text so far, except that a number or a word is only complete with the character after
it.

From this follows what a stream is: texts of one value each. Texts may be joined, with a blank in
between, and every value of a stream can be written for itself.
-/

namespace RecordLinkage

namespace Scanner

/-- A scanner that has read some values before, the newest first. -/
def preceded (s : Scanner) (earlier : List Json) : Scanner :=
  { s with values := s.values ++ earlier }

theorem preceded_preceded (s : Scanner) (a b : List Json) :
    (s.preceded a).preceded b = s.preceded (a ++ b) := by
  rw [preceded, preceded, preceded, List.append_assoc]

/-- What a scanner becomes, after earlier values and without them: the same but for these values. At
most one value becomes complete, and then the scanner stands between two values. -/
structure Moves (earlier : List Json) (s t t' : Scanner) : Prop where
  frame : t = t'.preceded earlier
  emits : t'.values = s.values ∨ ∃ v, t' = start.preceded (v :: s.values)

section Moves

variable (s : Scanner) (earlier : List Json)

theorem moves_complete (v : Json) :
    Moves earlier s ((s.preceded earlier).complete v) (s.complete v) := by
  obtain ⟨stack, mode, values⟩ := s
  cases stack with
  | nil => exact ⟨rfl, .inr ⟨v, rfl⟩⟩
  | cons frame rest => cases frame <;> exact ⟨rfl, .inl rfl⟩

theorem moves_openFrame (frame : Frame) (mode : Mode) :
    Moves earlier s ((s.preceded earlier).openFrame frame mode) (s.openFrame frame mode) := by
  change Moves earlier s (if s.stack.length < depthLimit then _ else _) _
  rw [openFrame]
  split <;> exact ⟨rfl, .inl rfl⟩

theorem moves_closeArray :
    Moves earlier s (s.preceded earlier).closeArray s.closeArray := by
  obtain ⟨stack, mode, values⟩ := s
  cases stack with
  | nil => exact ⟨rfl, .inl rfl⟩
  | cons frame rest =>
    cases frame with
    | array items =>
      have h := moves_complete ⟨rest, mode, values⟩ earlier (.array items.reverse)
      exact ⟨h.frame, h.emits⟩
    | object fields key => exact ⟨rfl, .inl rfl⟩

theorem moves_closeObject :
    Moves earlier s (s.preceded earlier).closeObject s.closeObject := by
  obtain ⟨stack, mode, values⟩ := s
  cases stack with
  | nil => exact ⟨rfl, .inl rfl⟩
  | cons frame rest =>
    cases frame with
    | array items => exact ⟨rfl, .inl rfl⟩
    | object fields key =>
      have h := moves_complete ⟨rest, mode, values⟩ earlier (.object fields)
      exact ⟨h.frame, h.emits⟩

theorem moves_beginValue (c : Char) :
    Moves earlier s ((s.preceded earlier).beginValue c) (s.beginValue c) := by
  unfold beginValue
  split
  · exact ⟨rfl, .inl rfl⟩
  · exact moves_openFrame s earlier _ _
  · exact moves_openFrame s earlier _ _
  · exact ⟨rfl, .inl rfl⟩
  · exact ⟨rfl, .inl rfl⟩
  · exact ⟨rfl, .inl rfl⟩
  · cases Numeral.first? c <;> exact ⟨rfl, .inl rfl⟩

theorem moves_stepBetween (c : Char) :
    Moves earlier s ((s.preceded earlier).stepBetween c) (s.stepBetween c) := by
  obtain ⟨stack, mode, values⟩ := s
  unfold stepBetween
  split
  · exact ⟨rfl, .inl rfl⟩
  · cases mode with
    | value => exact moves_beginValue _ earlier c
    | firstItem =>
      dsimp only [preceded]
      split
      · exact moves_closeArray ⟨stack, .firstItem, values⟩ earlier
      · exact moves_beginValue ⟨stack, .firstItem, values⟩ earlier c
    | firstKey =>
      dsimp only [preceded]
      split
      · exact moves_closeObject ⟨stack, .firstKey, values⟩ earlier
      · split <;> exact ⟨rfl, .inl rfl⟩
    | key | colon =>
      dsimp only [preceded]
      split <;> exact ⟨rfl, .inl rfl⟩
    | after =>
      dsimp only [preceded]
      split
      · exact ⟨rfl, .inl rfl⟩
      · exact ⟨rfl, .inl rfl⟩
      · exact moves_closeArray ⟨_, .after, values⟩ earlier
      · exact moves_closeObject ⟨_, .after, values⟩ earlier
      · exact ⟨rfl, .inl rfl⟩
    | _ => exact ⟨rfl, .inl rfl⟩

theorem moves_endQuote (isKey : Bool) (chars : List Char) :
    Moves earlier s ((s.preceded earlier).endQuote isKey chars) (s.endQuote isKey chars) := by
  obtain ⟨stack, mode, values⟩ := s
  cases isKey with
  | false => exact moves_complete ⟨stack, mode, values⟩ earlier _
  | true =>
    cases stack with
    | nil => exact ⟨rfl, .inl rfl⟩
    | cons frame rest => cases frame <;> exact ⟨rfl, .inl rfl⟩

theorem moves_endCode (isKey : Bool) (chars : List Char) (leading : Option Nat) (n : Nat) :
    Moves earlier s ((s.preceded earlier).endCode isKey chars leading n)
      (s.endCode isKey chars leading n) := by
  unfold endCode
  cases leading with
  | some h =>
    dsimp only
    split <;> exact ⟨rfl, .inl rfl⟩
  | none =>
    dsimp only
    repeat' split
    all_goals exact ⟨rfl, .inl rfl⟩

theorem moves_stepQuote (isKey : Bool) (chars : List Char) (state : Quote) (c : Char) :
    Moves earlier s ((s.preceded earlier).stepQuote isKey chars state c)
      (s.stepQuote isKey chars state c) := by
  unfold stepQuote
  cases state with
  | plain =>
    dsimp only
    split
    · exact moves_endQuote s earlier isKey chars
    · repeat' split
      all_goals exact ⟨rfl, .inl rfl⟩
  | escape =>
    dsimp only
    split
    · exact ⟨rfl, .inl rfl⟩
    · cases escaped? c <;> exact ⟨rfl, .inl rfl⟩
  | code leading digits value =>
    dsimp only
    cases hexValue? c with
    | none => exact ⟨rfl, .inl rfl⟩
    | some d =>
      dsimp only
      split
      · exact ⟨rfl, .inl rfl⟩
      · exact moves_endCode s earlier isKey chars leading _
  | halfway leading | halfwayEscape leading =>
    dsimp only
    split <;> exact ⟨rfl, .inl rfl⟩

theorem moves_endWord (v : Json) :
    Moves earlier s ((s.preceded earlier).endWord v) (s.endWord v) := by
  change Moves earlier s (if s.stack.isEmpty then _ else _) _
  rw [endWord]
  split
  · exact ⟨rfl, .inl rfl⟩
  · exact moves_complete s earlier v

/-- One character moves the scanner, or ends a number or a word as a blank would. -/
theorem step_cases (c : Char) : Moves earlier s ((s.preceded earlier).step c) (s.step c) ∨
    ∃ v, (s.preceded earlier).step c = (s.preceded earlier).endScalar v c ∧
      s.step c = s.endScalar v c ∧ s.step ' ' = s.endScalar v ' ' := by
  obtain ⟨stack, mode, values⟩ := s
  cases mode with
  | failed => exact .inl ⟨rfl, .inl rfl⟩
  | quote isKey chars state => exact .inl (moves_stepQuote _ earlier isKey chars state c)
  | word rest v =>
    cases rest with
    | nil => exact .inr ⟨v, rfl, rfl, rfl⟩
    | cons expected rest =>
      refine .inl ?_
      dsimp only [step, preceded]
      split
      · cases rest with
        | nil => exact moves_endWord ⟨stack, _, values⟩ earlier v
        | cons => exact ⟨rfl, .inl rfl⟩
      · exact ⟨rfl, .inl rfl⟩
  | numeral n =>
    dsimp only [step, preceded]
    cases n.push c with
    | more n => exact .inl ⟨rfl, .inl rfl⟩
    | broken => exact .inl ⟨rfl, .inl rfl⟩
    | ended =>
      dsimp only [endNumeral]
      cases hv : n.value? with
      | none => exact .inl ⟨rfl, .inl rfl⟩
      | some v =>
        refine .inr ⟨.number v, rfl, rfl, ?_⟩
        rw [Numeral.push_eq_ended hv (.inl rfl)]
  | settled v => exact .inr ⟨v, rfl, rfl, rfl⟩
  | _ => exact .inl (moves_stepBetween _ earlier c)

theorem endScalar_preceded (v : Json) (c : Char) :
    (s.preceded earlier).endScalar v c = (s.endScalar v c).preceded earlier := by
  change (if s.stack.isEmpty && !isDelimiter c then _ else _) = _
  rw [endScalar]
  split
  · rfl
  · rw [(moves_complete s earlier v).frame, (moves_stepBetween _ earlier c).frame]

theorem step_preceded (c : Char) :
    (s.preceded earlier).step c = (s.step c).preceded earlier := by
  rcases s.step_cases earlier c with h | ⟨v, hbefore, hstep, -⟩
  · exact h.frame
  · rw [hbefore, hstep, endScalar_preceded]

theorem run_preceded (cs : List Char) :
    (s.preceded earlier).run cs = (s.run cs).preceded earlier := by
  induction cs generalizing s with
  | nil => rfl
  | cons c rest ih => rw [run_cons, run_cons, step_preceded, ih]

theorem atEnd_preceded : (s.preceded earlier).atEnd = s.atEnd.preceded earlier := by
  obtain ⟨stack, mode, values⟩ := s
  cases stack with
  | cons => rfl
  | nil =>
    cases mode with
    | numeral n =>
      dsimp only [preceded, atEnd]
      cases n.value? <;> rfl
    | _ => rfl

end Moves

/-! ## One text after another -/

variable {s : Scanner} {c : Char}

/-- After a number or a word, a blank ends it. -/
theorem endScalar_blank (hstack : s.stack = []) (hc : isBlank c = true) (v : Json) :
    s.endScalar v c = start.preceded (v :: s.values) := by
  obtain ⟨stack, mode, values⟩ := s
  obtain rfl : stack = [] := hstack
  have hdelimiter : isDelimiter c = true := by simp only [isDelimiter, hc, Bool.true_or]
  simp only [endScalar, hdelimiter, complete, stepBetween, hc, Bool.not_true, Bool.and_false,
    Bool.false_eq_true, if_false, if_true]
  rfl

/-- A text that ends well ends between two values. -/
theorem atEnd_eq (h : s.atEnd.hasFailed = false) : s.atEnd = start.preceded s.atEnd.values := by
  obtain ⟨stack, mode, values⟩ := s
  cases stack with
  | cons => exact Bool.noConfusion h
  | nil =>
    cases mode with
    | value => rfl
    | settled v => rfl
    | numeral n =>
      dsimp only [atEnd] at h ⊢
      cases hv : n.value? with
      | some v => rfl
      | none =>
        rw [hv] at h
        exact Bool.noConfusion h
    | _ => exact Bool.noConfusion h

/-- A blank ends what the end of the input would end. -/
theorem step_blank (h : s.atEnd.hasFailed = false) (hc : isBlank c = true) :
    s.step c = s.atEnd := by
  obtain ⟨stack, mode, values⟩ := s
  cases stack with
  | cons => exact Bool.noConfusion h
  | nil =>
    cases mode with
    | value => exact if_pos hc
    | settled v => exact endScalar_blank rfl hc v
    | numeral n =>
      dsimp only [atEnd] at h ⊢
      cases hv : n.value? with
      | none =>
        rw [hv] at h
        exact Bool.noConfusion h
      | some v =>
        have hblank : c = ' ' ∨ c = '\n' ∨ c = '\t' ∨ c = '\r' := by
          simpa [isBlank, or_assoc] using hc
        dsimp only [step]
        rw [Numeral.push_eq_ended hv hblank]
        dsimp only [endNumeral]
        rw [hv]
        exact endScalar_blank rfl hc (.number v)
    | _ => exact Bool.noConfusion h

/-- Between two values, blanks are passed over. -/
theorem run_blanks (h : s.mode = .value) {cs : List Char} (hcs : ∀ c ∈ cs, isBlank c = true) :
    s.run cs = s := by
  induction cs with
  | nil => rfl
  | cons c rest ih =>
    have hstep : s.step c = s := by
      simp only [step, h]
      exact if_pos (hcs c List.mem_cons_self)
    rw [run_cons, hstep]
    exact ih fun c' hc' ↦ hcs c' (List.mem_cons_of_mem c hc')

/-- After a text that ends well and a blank, the next text is read as by itself. -/
theorem run_append_blank {a blank : List Char} (ha : (start.run a).atEnd.hasFailed = false)
    (hblank : ∀ c ∈ blank, isBlank c = true) (hsome : blank ≠ []) (b : List Char) :
    (start.run (a ++ blank ++ b)).atEnd
      = (start.run b).atEnd.preceded (start.run a).atEnd.values := by
  obtain ⟨c, rest, rfl⟩ := List.exists_cons_of_ne_nil hsome
  have hstart := atEnd_eq ha
  rw [run_append, run_append, run_cons, step_blank ha (hblank c List.mem_cons_self), hstart,
    run_blanks rfl fun c' hc' ↦ hblank c' (List.mem_cons_of_mem c hc'), run_preceded,
    atEnd_preceded]
  rfl

end Scanner

/-- **Reading one text after another is reading both**, if there is a blank between them. -/
theorem Json.readStream_append {a blank : List Char} (ha : (readStream a).isComplete = true)
    (hblank : ∀ c ∈ blank, Scanner.isBlank c = true) (hsome : blank ≠ []) (b : List Char) :
    readStream (a ++ blank ++ b)
      = ⟨(readStream a).values ++ (readStream b).values, (readStream b).isComplete⟩ := by
  have hend : (Scanner.start.run a).atEnd.hasFailed = false := by
    simpa [readStream] using ha
  rw [readStream, Scanner.run_append_blank hend hblank hsome]
  simp only [readStream, Scanner.preceded, List.reverse_append, Scanner.hasFailed]

/-! ## One value at a time -/

/-- A value has a text of its own. -/
def Json.Written (v : Json) : Prop := ∃ text, readStream text = ⟨[v], true⟩

namespace Scanner

/-- What one character completes: nothing, a value that it ends, or a value that had ended before
it, as it would have before a blank. -/
inductive Completes (s : Scanner) (c : Char) : Prop where
  | nothing (h : (s.step c).values = s.values)
  | here (v : Json) (h : s.step c = start.preceded (v :: s.values))
  | before (v : Json) (hblank : s.step ' ' = start.preceded (v :: s.values))
      (h : s.step c = (start.preceded (v :: s.values)).step c)

theorem completes_step (s : Scanner) (c : Char) : s.Completes c := by
  have hemits {t : Scanner} (heq : s.step c = t)
      (h : t.values = s.values ∨ ∃ v, t = start.preceded (v :: s.values)) : s.Completes c := by
    rcases h with h | ⟨v, h⟩
    · exact .nothing (heq ▸ h)
    · exact .here v (heq ▸ h)
  rcases s.step_cases [] c with h | ⟨v, -, hstep, hspace⟩
  · exact hemits rfl h.emits
  rw [endScalar] at hstep
  rcases hstack : s.stack with - | ⟨frame, rest⟩
  · rw [endScalar_blank hstack rfl] at hspace
    rw [hstack] at hstep
    split at hstep
    · exact .nothing (hstep ▸ rfl)
    · refine .before v hspace (hstep.trans ?_)
      rw [complete, hstack]
      rfl
  · -- Within an array or object, the value is no value of the stream.
    rw [hstack] at hstep
    have hvalues : (s.complete v).values = s.values := by
      rw [complete, hstack]
      cases frame <;> rfl
    refine hemits hstep ?_
    rw [← hvalues]
    exact (moves_stepBetween _ [] c).emits

theorem values_beginValue (s : Scanner) (c : Char) : (s.beginValue c).values = s.values := by
  have hopen (frame : Frame) (mode : Mode) : (s.openFrame frame mode).values = s.values := by
    rw [openFrame]
    split <;> rfl
  unfold beginValue
  split
  · rfl
  · exact hopen _ _
  · exact hopen _ _
  · rfl
  · rfl
  · rfl
  · cases Numeral.first? c <;> rfl

/-- The first character of a text completes nothing. -/
theorem values_step_start (c : Char) : (start.step c).values = [] := by
  change (if isBlank c then start else start.beginValue c).values = []
  split
  · rfl
  · exact values_beginValue start c

theorem atEnd_cases (s : Scanner) :
    s.atEnd.values = s.values ∨ ∃ v, s.atEnd = start.preceded (v :: s.values) := by
  obtain ⟨stack, mode, values⟩ := s
  cases stack with
  | cons => exact .inl rfl
  | nil =>
    cases mode with
    | settled v => exact .inr ⟨v, rfl⟩
    | numeral n =>
      dsimp only [atEnd]
      cases n.value? with
      | none => exact .inl rfl
      | some v => exact .inr ⟨.number v, rfl⟩
    | _ => exact .inl rfl

theorem written_of_atEnd {text : List Char} {v : Json}
    (h : (start.run text).atEnd = start.preceded [v]) : v.Written := by
  refine ⟨text, ?_⟩
  rw [Json.readStream, h]
  rfl

/-- Where a value has just become complete, the text may end. -/
theorem written_of_run {text : List Char} {v : Json} (h : start.run text = start.preceded [v]) :
    v.Written :=
  written_of_atEnd (congrArg atEnd h)

/-- What is complete of a text can be written by itself, and the rest of the text is there. -/
theorem exists_rest (text : List Char) : ∃ rest values,
    start.run text = (start.run rest).preceded values ∧ (start.run rest).values = [] ∧
      ∀ v ∈ values, v.Written := by
  induction text using List.reverseRecOn with
  | nil => exact ⟨[], [], rfl, rfl, by simp⟩
  | append_singleton text c ih =>
    obtain ⟨rest, values, hrun, hnone, hwritten⟩ := ih
    have hsnoc (text : List Char) (c : Char) : start.run (text ++ [c]) = (start.run text).step c :=
      run_append start text [c]
    have hmore {v : Json} (hv : v.Written) : ∀ u ∈ v :: values, u.Written :=
      List.forall_mem_cons.mpr ⟨hv, hwritten⟩
    have hcompletes := (start.run rest).completes_step c
    rw [hsnoc, hrun, step_preceded]
    rcases hcompletes with h | ⟨v, h⟩ | ⟨v, hblank, h⟩
    · refine ⟨rest ++ [c], values, ?_, ?_, hwritten⟩
      · rw [hsnoc]
      · rw [hsnoc, h, hnone]
    · rw [hnone] at h
      rw [h, preceded_preceded]
      exact ⟨[], v :: values, rfl, rfl, hmore (written_of_run ((hsnoc rest c).trans h))⟩
    · -- The character belongs to the next value. Before it, the text could have ended.
      rw [hnone] at h hblank
      rw [h, step_preceded, preceded_preceded]
      refine ⟨[c], v :: values, rfl, values_step_start c, ?_⟩
      exact hmore (written_of_run ((hsnoc rest ' ').trans hblank))

end Scanner

namespace Json

/-- Every value of a stream can be written by itself. -/
theorem written_of_mem {input : List Char} {v : Json} (h : v ∈ (readStream input).values) :
    v.Written := by
  obtain ⟨rest, values, hrun, hnone, hwritten⟩ := Scanner.exists_rest input
  rw [readStream, hrun, Scanner.atEnd_preceded] at h
  rcases List.mem_append.mp (List.mem_reverse.mp h) with hlast | hmem
  · rcases (Scanner.start.run rest).atEnd_cases with hsame | ⟨u, hu⟩
    · rw [hsame, hnone] at hlast
      cases hlast
    · rw [hnone] at hu
      rw [hu] at hlast
      rw [List.mem_singleton.mp hlast]
      exact Scanner.written_of_atEnd hu
  · exact hwritten v hmem

/-- Texts that are read to the end, and that have these values together. -/
structure Divided (values : List Json) (parts : List (List Char)) : Prop where
  complete : ∀ part ∈ parts, (readStream part).isComplete = true
  values_eq : values = parts.flatMap fun part ↦ (readStream part).values

/-- **The values of a stream can be written one by one.** -/
theorem exists_pieces (input : List Char) : ∃ pieces,
    Divided (readStream input).values pieces ∧
      ∀ piece ∈ pieces, (readStream piece).values.length = 1 := by
  have hwritten : ∀ v ∈ (readStream input).values, v.Written := fun v ↦ written_of_mem
  generalize (readStream input).values = values at hwritten ⊢
  induction values with
  | nil => exact ⟨[], ⟨by simp, rfl⟩, by simp⟩
  | cons v rest ih =>
    obtain ⟨⟨piece, hpiece⟩, hrest⟩ := List.forall_mem_cons.mp hwritten
    obtain ⟨pieces, ⟨hcomplete, hvalues⟩, hone⟩ := ih hrest
    refine ⟨piece :: pieces, ⟨List.forall_mem_cons.mpr ⟨?_, hcomplete⟩, ?_⟩,
      List.forall_mem_cons.mpr ⟨?_, hone⟩⟩
    · rw [hpiece]
    · rw [List.flatMap_cons, hpiece, ← hvalues]
      rfl
    · rw [hpiece]
      rfl

end Json

end RecordLinkage
