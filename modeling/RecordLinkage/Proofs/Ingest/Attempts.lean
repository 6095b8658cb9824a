import Mathlib.Data.List.Range
import RecordLinkage.Ingest.Retry

/-!
# Which attempts are made

An operation that is tried again is told the number of the attempt, and may change a state on the
way, so each attempt finds what the ones before it have left. What all of them would answer is fixed
before any is made: the answer of an attempt depends on the attempts before it and on nothing else.

The attempts that are made are those up to the first one whose answer is final, or to the last one
that is allowed. A failure of the storage and a conflict are not final, and everything else is. So
where the first final answer comes early enough, it does not matter how many attempts are allowed.

## How attempts are counted

A recorded operation does what the operation does and notes the number of each attempt in a list
that it carries along. Its answers are those of the operation, so what holds of operations in
general says which numbers are noted.
-/

namespace RecordLinkage

variable {σ α : Type}

/-- Another attempt may end differently. -/
def Fault.MayPass (f : Fault) : Prop := (∃ cause, f = storage cause) ∨ ∃ cause, f = conflict cause

/-- An operation that is told the number of the attempt. -/
abbrev Attempted (σ α : Type) := ℕ → StateM σ (Except Fault α)

namespace Attempted

variable (op : Attempted σ α) (s : σ)

/-- The state when a number of attempts have been made. -/
def after : ℕ → σ
  | 0 => s
  | attempt + 1 => ((op attempt).run (after attempt)).2

/-- The answer of an attempt, when all those before it have been made. -/
def answer (attempt : ℕ) : Except Fault α := ((op attempt).run (op.after s attempt)).1

/-- The same operation, which also lists the numbers of the attempts. -/
def recorded : Attempted (σ × List ℕ) α := fun attempt (s, attempts) ↦
  let (answer, s') := (op attempt).run s
  (answer, s', attempts ++ [attempt])

/-- **The attempt that decides**, when some further ones after the first are allowed. -/
structure Decides (retries last : ℕ) : Prop where
  le_retries : last ≤ retries
  /-- The attempts before it failed, and the failures may pass. -/
  passing : ∀ attempt < last, ∃ f : Fault, op.answer s attempt = .error f ∧ f.MayPass
  /-- It succeeds, or its failure does not pass, or there are no further attempts. -/
  final : (∃ a, op.answer s last = .ok a) ∨
    (∃ f : Fault, op.answer s last = .error f ∧ ¬f.MayPass) ∨ last = retries

variable {op : Attempted σ α} {s : σ} {retries last : ℕ}

theorem run_op (attempt : ℕ) : (op attempt).run (op.after s attempt)
    = (op.answer s attempt, op.after s (attempt + 1)) := rfl

/-- What an attempt answers decides whether there is another one. -/
theorem retryFrom_succ (attempt left : ℕ) :
    (retryFrom op attempt (left + 1)).run (op.after s attempt) = match op.answer s attempt with
      | .ok a => (.ok a, op.after s (attempt + 1))
      | .error f =>
        if f.isRetryable then (retryFrom op (attempt + 1) left).run (op.after s (attempt + 1))
        else (.error f, op.after s (attempt + 1)) := by
  rw [retryFrom, StateT.run_bind, run_op]
  rcases op.answer s attempt with f | a
  · change (if f.isRetryable then retryFrom op (attempt + 1) left
      else pure (.error f)).run (op.after s (attempt + 1)) = if f.isRetryable then _ else _
    split_ifs
    · rfl
    · rfl
  · rfl

theorem Decides.retryFrom_eq (h : op.Decides s retries last) {attempt left : ℕ}
    (hle : attempt ≤ last) (hleft : attempt + left = retries) :
    (retryFrom op attempt left).run (op.after s attempt)
      = (op.answer s last, op.after s (last + 1)) := by
  have hretries := h.le_retries
  induction left generalizing attempt with
  | zero =>
    obtain rfl : attempt = last := by omega
    rfl
  | succ left ih =>
    rw [retryFrom_succ]
    rcases hle.lt_or_eq with hlt | rfl
    · obtain ⟨f, hanswer, hf⟩ := h.passing attempt hlt
      rw [hanswer]
      simp only [f.isRetryable_iff.mpr hf, if_true]
      exact ih hlt (by omega)
    · rcases h.final with ⟨a, ha⟩ | ⟨f, hanswer, hf⟩ | hlast
      · rw [ha]
      · rw [hanswer]
        simp only [mt f.isRetryable_iff.mp hf]
        rfl
      · omega

/-- **The attempt that decides gives the result**, and no attempt comes after it. -/
theorem Decides.retry_eq (h : op.Decides s retries last) :
    (retry retries op).run s = (op.answer s last, op.after s (last + 1)) :=
  h.retryFrom_eq (Nat.zero_le last) (Nat.zero_add retries)

/-- A final answer stays the result when more attempts are allowed. -/
theorem Decides.mono (h : op.Decides s retries last) {more : ℕ} (hmore : retries ≤ more)
    (hfinal : ∀ f, op.answer s last = .error f → ¬f.MayPass) : op.Decides s more last where
  le_retries := h.le_retries.trans hmore
  passing := h.passing
  final := by
    rcases hanswer : op.answer s last with f | a
    · exact Or.inr (Or.inl ⟨f, rfl, hfinal f hanswer⟩)
    · exact Or.inl ⟨a, rfl⟩

theorem exists_decides (op : Attempted σ α) (s : σ) (retries : ℕ) :
    ∃ last, op.Decides s retries last := by
  induction retries with
  | zero => exact ⟨0, le_rfl, fun _ h ↦ absurd h (Nat.not_lt_zero _), Or.inr (Or.inr rfl)⟩
  | succ retries ih =>
    obtain ⟨last, h⟩ := ih
    by_cases hfinal : ∀ f, op.answer s last = .error f → ¬f.MayPass
    · exact ⟨last, h.mono (Nat.le_succ retries) hfinal⟩
    · -- The last attempt that was allowed may pass, so the further one is made.
      push Not at hfinal
      obtain ⟨f, hanswer, hf⟩ := hfinal
      have hlast : last = retries := by
        rcases h.final with ⟨a, ha⟩ | ⟨f', hanswer', hf'⟩ | hlast
        · exact nomatch ha.symm.trans hanswer
        · obtain rfl := Except.error.inj (hanswer'.symm.trans hanswer)
          exact absurd hf hf'
        · exact hlast
      subst hlast
      refine ⟨last + 1, le_rfl, fun attempt hlt ↦ ?_, Or.inr (Or.inr rfl)⟩
      rcases (Nat.lt_succ_iff.mp hlt).lt_or_eq with hlt | rfl
      · exact h.passing attempt hlt
      · exact ⟨f, hanswer, hf⟩

/-! ## Recorded attempts -/

theorem after_recorded (op : Attempted σ α) (s : σ) (attempt : ℕ) :
    op.recorded.after (s, []) attempt = (op.after s attempt, List.range attempt) := by
  induction attempt with
  | zero => rfl
  | succ attempt ih =>
    rw [after, ih, List.range_succ]
    rfl

theorem answer_recorded (op : Attempted σ α) (s : σ) (attempt : ℕ) :
    op.recorded.answer (s, []) attempt = op.answer s attempt := by
  rw [answer, after_recorded]
  rfl

theorem Decides.recorded (h : op.Decides s retries last) :
    op.recorded.Decides (s, []) retries last := by
  obtain ⟨hle, hpassing, hfinal⟩ := h
  exact ⟨hle, by simpa only [answer_recorded], by simpa only [answer_recorded]⟩

/-- The attempts that are made are those up to the one that decides, in order and once each. -/
theorem Decides.retry_recorded (h : op.Decides s retries last) :
    (retry retries op.recorded).run (s, [])
      = (op.answer s last, op.after s (last + 1), List.range (last + 1)) := by
  rw [h.recorded.retry_eq, answer_recorded, after_recorded]

/-- **Exactly the needed attempts are made.** One attempt decides: it comes within the number of
retries, all attempts before it failed for reasons that may pass, and it succeeds, or fails for
another reason, or is the last one that is allowed. Its result is the result of the whole, and the
attempts that are made are those up to it, in order and once each. Without retries there is one
attempt, and a result that is final stays what it is however many retries there are. -/
theorem retry_makes_needed_attempts (op : Attempted σ α) (s : σ) (retries : ℕ) :
    ∃ last, op.Decides s retries last ∧
      (retry retries op).run s = (op.answer s last, op.after s (last + 1)) ∧
      (retry retries op.recorded).run (s, [])
        = (op.answer s last, op.after s (last + 1), List.range (last + 1)) ∧
      (retries = 0 → last = 0) ∧
      ((∀ f, op.answer s last = .error f → ¬f.MayPass) → ∀ more, retries ≤ more →
        (retry more op.recorded).run (s, []) = (retry retries op.recorded).run (s, [])) := by
  obtain ⟨last, h⟩ := exists_decides op s retries
  refine ⟨last, h, h.retry_eq, h.retry_recorded, fun hzero ↦ ?_, fun hfinal more hmore ↦ ?_⟩
  · exact Nat.le_zero.mp (hzero ▸ h.le_retries)
  · rw [h.retry_recorded, (h.mono hmore hfinal).retry_recorded]

end Attempted

/-- The first attempt meets another writer, and the ones after it do not. -/
def Sample.contested : Attempted Unit ℕ := fun attempt ↦
  pure (if attempt = 0 then .error (.conflict "duplicate") else .ok attempt)

open Sample in
/-- The second attempt decides, and allowing more of them changes nothing. -/
theorem contested_tried_twice :
    (retry 1 contested.recorded).run ((), []) = (.ok 1, (), [0, 1]) ∧
      (retry 5 contested.recorded).run ((), []) = (.ok 1, (), [0, 1]) := by
  have hgo : (retry 1 contested.recorded).run ((), []) = (.ok 1, (), [0, 1]) := rfl
  obtain ⟨last, -, -, hlast, -, hmore⟩ := Attempted.retry_makes_needed_attempts contested () 1
  have hanswer : contested.answer () last = .ok 1 := congrArg Prod.fst (hlast.symm.trans hgo)
  refine ⟨hgo, (hmore (fun f hf ↦ ?_) 5 (by decide)).trans hgo⟩
  exact nomatch hanswer.symm.trans hf

end RecordLinkage
