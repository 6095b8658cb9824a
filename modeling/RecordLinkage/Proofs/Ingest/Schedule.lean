import Mathlib.Data.List.Perm.Basic
import Mathlib.Order.Lattice
import RecordLinkage.Ingest.Batch

/-!
# The order in which a batch is carried out

A schedule, a window and the values of a stream determine in which order the submissions among the
values are carried out, whatever comes of them. `Batch.order` is this order. Whatever the schedule
is, each submission is carried out exactly once. They are carried out in the order of the stream if
nobody is carried out early, and also if the window has room for one submission only, since there is
nobody to overtake then.

## Runs in a row

Two streams that are run one after the other, each with its own schedule, are carried out like the
joint stream, with a schedule that leaves nothing outstanding between the two. So whatever parts of
a stream can lead to, the whole stream can lead to as well.
-/

namespace RecordLinkage

namespace Batch

variable {window n : ℕ} {places : List ℕ} {waiting : List Submission} {values : List Json}

/-! ## Submissions among values -/

/-- The submissions among the values of a stream. -/
def submissions (values : List Json) : List Submission :=
  values.filterMap fun v ↦ (Submission.ofJson v).toOption

theorem submissions_append (values values' : List Json) :
    submissions (values ++ values') = submissions values ++ submissions values' :=
  List.filterMap_append

theorem submissions_cons (v : Json) (rest : List Json) :
    submissions (v :: rest) = submissions [v] ++ submissions rest :=
  submissions_append [v] rest

theorem submissions_singleton (v : Json) :
    submissions [v] = (Submission.ofJson v).toOption.toList := by
  rw [submissions, List.filterMap_cons]
  rcases (Submission.ofJson v).toOption with - | s <;> rfl

theorem length_submissions_singleton (v : Json) : (submissions [v]).length ≤ 1 :=
  List.length_filterMap_le _ _

/-! ## Those whose turn it is -/

/-- Nobody is lost, and nobody is picked twice. -/
theorem pick_perm (places : List ℕ) (waiting : List Submission) :
    ((pick places waiting).1 ++ (pick places waiting).2).Perm waiting := by
  induction places generalizing waiting with
  | nil => exact .refl _
  | cons place rest ih =>
    rw [pick]
    rcases hplace : waiting[place]? with - | s
    · exact ih waiting
    · obtain ⟨hlt, rfl⟩ := List.getElem?_eq_some_iff.mp hplace
      exact ((ih _).cons _).trans (List.getElem_cons_eraseIdx_perm hlt)

theorem length_pick (places : List ℕ) (waiting : List Submission) :
    (pick places waiting).2.length ≤ waiting.length := by
  rw [← (pick_perm places waiting).length_eq, List.length_append]
  exact Nat.le_add_left _ _

/-- Where at most one waits there is nobody to overtake. -/
theorem pick_of_length_le_one (h : waiting.length ≤ 1) (places : List ℕ) :
    (pick places waiting).1 ++ (pick places waiting).2 = waiting := by
  have hperm := pick_perm places waiting
  rcases waiting with - | ⟨s, - | ⟨t, rest⟩⟩
  · exact hperm.eq_nil
  · exact hperm.eq_singleton
  · exact absurd h (by simp)

theorem pick_nil (places : List ℕ) : pick places [] = ([], []) := by
  obtain ⟨hpicked, hleft⟩ := List.append_eq_nil_iff.mp (pick_perm places []).eq_nil
  exact Prod.ext hpicked hleft

theorem pick_append (a b : List ℕ) (waiting : List Submission) :
    pick (a ++ b) waiting = ((pick a waiting).1 ++ (pick b (pick a waiting).2).1,
      (pick b (pick a waiting).2).2) := by
  induction a generalizing waiting with
  | nil => rfl
  | cons place rest ih =>
    rw [List.cons_append, pick, pick]
    rcases waiting[place]? with - | s
    · exact ih waiting
    · dsimp only
      rw [ih, List.cons_append]

/-- The oldest goes first until nobody waits. -/
theorem pick_oldest (h : waiting.length ≤ n) : pick (List.replicate n 0) waiting = (waiting, []) := by
  induction n generalizing waiting with
  | zero =>
    obtain rfl := List.length_eq_zero_iff.mp (Nat.le_zero.mp h)
    rfl
  | succ n ih =>
    rcases waiting with - | ⟨s, rest⟩
    · exact pick_nil _
    · have hrest : pick (List.replicate n 0) rest = (rest, []) := ih (Nat.le_of_succ_le_succ h)
      rw [List.replicate_succ, pick]
      simp [hrest]

/-! ## The order -/

/-- What a value does to those that wait: where it is a submission and finds no room, all of them are
carried out before it starts. -/
def receive (window : ℕ) (waiting : List Submission) (v : Json) :
    List Submission × List Submission :=
  match Submission.ofJson v with
  | .error _ => ([], waiting)
  | .ok s => if waiting.length < max window 1 then ([], waiting ++ [s]) else (waiting, [s])

/-- One value after so many others: those that are carried out, and those that wait then. -/
def turn (schedule : Schedule) (window n : ℕ) (waiting : List Submission) (v : Json) :
    List Submission × List Submission :=
  let after := receive window (pick (schedule n) waiting).2 v
  ((pick (schedule n) waiting).1 ++ after.1, after.2)

/-- The order in which the submissions are carried out that wait when so many values were handed on,
together with those that follow. -/
def orderFrom (schedule : Schedule) (window n : ℕ) (waiting : List Submission) :
    List Json → List Submission
  | [] => (pick (schedule n) waiting).1 ++ (pick (schedule n) waiting).2
  | v :: rest => (turn schedule window n waiting v).1
      ++ orderFrom schedule window (n + 1) (turn schedule window n waiting v).2 rest

/-- **The order in which the submissions of a stream are carried out.** -/
def order (schedule : Schedule) (window : ℕ) (values : List Json) : List Submission :=
  orderFrom schedule window 0 [] values

variable (schedule : Schedule)

theorem receive_append (window : ℕ) (waiting : List Submission) (v : Json) :
    (receive window waiting v).1 ++ (receive window waiting v).2 = waiting ++ submissions [v] := by
  rw [receive, submissions_singleton]
  rcases Submission.ofJson v with f | s
  · exact (List.append_nil waiting).symm
  · dsimp only
    split_ifs <;> rfl

theorem length_receive (h : waiting.length ≤ max window 1) (v : Json) :
    (receive window waiting v).2.length ≤ max window 1 := by
  rw [receive]
  rcases Submission.ofJson v with f | s
  · exact h
  · dsimp only
    split_ifs with hroom
    · rw [List.length_append]
      exact hroom
    · exact Nat.le_max_right window 1

theorem turn_append (window n : ℕ) (waiting : List Submission) (v : Json) :
    (turn schedule window n waiting v).1 ++ (turn schedule window n waiting v).2
      = (pick (schedule n) waiting).1 ++ (pick (schedule n) waiting).2 ++ submissions [v] := by
  rw [turn, List.append_assoc, receive_append, List.append_assoc]

/-- **Each submission is carried out once**, those that waited and those that follow. -/
theorem orderFrom_perm (window n : ℕ) (waiting : List Submission) (values : List Json) :
    (orderFrom schedule window n waiting values).Perm (waiting ++ submissions values) := by
  induction values generalizing n waiting with
  | nil =>
    rw [submissions, List.filterMap_nil, List.append_nil]
    exact pick_perm _ _
  | cons v rest ih =>
    rw [orderFrom, submissions_cons, ← List.append_assoc]
    refine ((ih _ _).append_left _).trans ?_
    rw [← List.append_assoc, turn_append]
    exact ((pick_perm _ _).append_right _).append_right _

theorem order_perm (window : ℕ) (values : List Json) :
    (order schedule window values).Perm (submissions values) :=
  orderFrom_perm schedule window 0 [] values

/-- Where those whose turn it is never overtake, nobody does. -/
theorem orderFrom_eq (hpick : ∀ k (w : List Submission), w.length ≤ max window 1 →
      (pick (schedule k) w).1 ++ (pick (schedule k) w).2 = w)
    (h : waiting.length ≤ max window 1) (n : ℕ) (values : List Json) :
    orderFrom schedule window n waiting values = waiting ++ submissions values := by
  induction values generalizing n waiting with
  | nil =>
    rw [orderFrom, hpick n waiting h, submissions, List.filterMap_nil, List.append_nil]
  | cons v rest ih =>
    have hleft : (turn schedule window n waiting v).2.length ≤ max window 1 :=
      length_receive ((length_pick _ _).trans h) v
    rw [orderFrom, ih hleft, ← List.append_assoc, turn_append, hpick n waiting h, List.append_assoc,
      ← submissions_cons]

/-- **Submissions are carried out in the order of the stream if nobody is carried out early.** -/
theorem order_inOrder (window : ℕ) (values : List Json) :
    order .inOrder window values = submissions values :=
  orderFrom_eq .inOrder (fun _ _ _ ↦ rfl) (Nat.zero_le _) 0 values

/-- **So they are if the window has room for one of them only.** -/
theorem order_of_window (h : window ≤ 1) (values : List Json) :
    order schedule window values = submissions values := by
  refine orderFrom_eq schedule (fun k w hw ↦ ?_) (Nat.zero_le _) 0 values
  exact pick_of_length_le_one (hw.trans (max_le h (Nat.le_refl 1))) _

/-- One value has one order. -/
theorem order_of_length (window : ℕ) (h : values.length ≤ 1) :
    order schedule window values = submissions values := by
  have hperm := order_perm schedule window values
  have hone : (submissions values).length ≤ 1 := (List.length_filterMap_le _ _).trans h
  rcases hsubs : submissions values with - | ⟨s, - | ⟨t, rest⟩⟩ <;> rw [hsubs] at hperm hone
  · exact hperm.eq_nil
  · exact hperm.eq_singleton
  · exact absurd hone (by simp)

/-- Three reasons why nobody overtakes. -/
theorem order_eq {schedule : Schedule}
    (h : window ≤ 1 ∨ schedule = .inOrder ∨ values.length ≤ 1) :
    order schedule window values = submissions values := by
  rcases h with hwindow | rfl | hlength
  · exact order_of_window schedule hwindow values
  · exact order_inOrder window values
  · exact order_of_length schedule window hlength

/-! ## One stream after the other -/

variable {schedule}

/-- What the schedule says of values that were handed on before does not matter. -/
theorem orderFrom_congr {σ τ : Schedule} {m : ℕ} (h : ∀ k, σ (m + k) = τ (n + k)) :
    orderFrom σ window m waiting values = orderFrom τ window n waiting values := by
  have hnow : σ m = τ n := h 0
  induction values generalizing m n waiting with
  | nil => rw [orderFrom, orderFrom, hnow]
  | cons v rest ih =>
    have hlater : ∀ k, σ (m + 1 + k) = τ (n + 1 + k) := by
      intro k
      rw [Nat.add_assoc, h, Nat.add_assoc]
    rw [orderFrom, orderFrom, turn, turn, hnow, ih hlater (hlater 0)]

end Batch

/-- One schedule for so many values, and another one for those that follow. Between the two all that
is outstanding is carried out. -/
def Schedule.andThen (σ : Schedule) (n : ℕ) (τ : Schedule) : Schedule := fun k ↦
  if k < n then σ k else if k = n then σ n ++ List.replicate n 0 else τ (k - n)

namespace Batch

variable {window n : ℕ} {waiting : List Submission} {values : List Json} (σ τ : Schedule)

theorem length_turn (window : ℕ) (waiting : List Submission) (v : Json) :
    (turn σ window n waiting v).2.length ≤ waiting.length + 1 := by
  have happend := congrArg List.length (turn_append σ window n waiting v)
  have hperm := (pick_perm (σ n) waiting).length_eq
  have hone := length_submissions_singleton v
  simp only [List.length_append] at happend hperm
  omega

/-- Where one stream ends and the next one begins, nothing is outstanding. -/
theorem orderFrom_andThen_start (h : waiting.length ≤ n) (values : List Json) :
    orderFrom (σ.andThen n τ) window n waiting values
      = orderFrom σ window n waiting [] ++ order τ window values := by
  have hpick : pick (σ.andThen n τ n) waiting
      = ((pick (σ n) waiting).1 ++ (pick (σ n) waiting).2, []) := by
    rw [Schedule.andThen, if_neg (Nat.lt_irrefl n), if_pos rfl, pick_append,
      pick_oldest ((length_pick _ _).trans h)]
  rcases values with - | ⟨v, rest⟩
  · simp only [orderFrom, order, hpick, pick_nil, List.append_nil]
  · have hlater : ∀ k, σ.andThen n τ (n + 1 + k) = τ (0 + 1 + k) := by
      intro k
      rw [Schedule.andThen, if_neg (by omega), if_neg (by omega)]
      exact congrArg τ (by omega)
    simp only [orderFrom, order, turn, hpick, pick_nil, List.nil_append]
    rw [orderFrom_congr hlater, List.append_assoc]

/-- **Two runs in a row are a run of the joint stream.** -/
theorem orderFrom_andThen {m : ℕ} (values values' : List Json) (h : waiting.length ≤ m)
    (hn : m + values.length = n) : orderFrom (σ.andThen n τ) window m waiting (values ++ values')
      = orderFrom σ window m waiting values ++ order τ window values' := by
  induction values generalizing m waiting with
  | nil =>
    obtain rfl : m = n := hn
    exact orderFrom_andThen_start σ τ h values'
  | cons v rest ih =>
    rw [List.length_cons] at hn
    have hsame : σ.andThen n τ m = σ m := if_pos (by omega)
    have hturn : turn (σ.andThen n τ) window m waiting v = turn σ window m waiting v := by
      rw [turn, turn, hsame]
    have hwaiting := (length_turn (n := m) σ window waiting v).trans (Nat.succ_le_succ h)
    rw [List.cons_append, orderFrom, hturn, ih hwaiting (by omega), orderFrom, List.append_assoc]

theorem order_andThen (window : ℕ) (values values' : List Json) :
    order (σ.andThen values.length τ) window (values ++ values')
      = order σ window values ++ order τ window values' :=
  orderFrom_andThen σ τ values values' (Nat.le_refl 0) (Nat.zero_add _)

/-- The order in which the submissions of several texts are carried out, one text after the other,
each with its own schedule. -/
def orderInTurn (window : ℕ) (parts : List (Schedule × List Char)) : List Submission :=
  parts.flatMap fun p ↦ order p.1 window (Json.readStream p.2).values

variable {parts : List (Schedule × List Char)}

theorem orderInTurn_perm (window : ℕ) (parts : List (Schedule × List Char)) :
    (orderInTurn window parts).Perm
      (submissions (parts.flatMap fun p ↦ (Json.readStream p.2).values)) := by
  induction parts with
  | nil => exact .refl _
  | cons p rest ih =>
    rw [List.flatMap_cons, submissions_append]
    exact (order_perm _ _ _).append ih

/-- If nobody overtakes in any of the parts, nobody does. -/
theorem orderInTurn_eq (h : ∀ p ∈ parts, order p.1 window (Json.readStream p.2).values
      = submissions (Json.readStream p.2).values) :
    orderInTurn window parts
      = submissions (parts.flatMap fun p ↦ (Json.readStream p.2).values) := by
  induction parts with
  | nil => rfl
  | cons p rest ih =>
    obtain ⟨hp, hrest⟩ := List.forall_mem_cons.mp h
    rw [List.flatMap_cons, submissions_append, ← ih hrest, ← hp]
    rfl

/-- **Any number of runs in a row are a run of the joint stream.** -/
theorem exists_order_inTurn (window : ℕ) (parts : List (Schedule × List Char)) : ∃ schedule,
    order schedule window (parts.flatMap fun p ↦ (Json.readStream p.2).values)
      = orderInTurn window parts := by
  induction parts with
  | nil => exact ⟨.inOrder, rfl⟩
  | cons p rest ih =>
    obtain ⟨schedule, hrest⟩ := ih
    refine ⟨p.1.andThen (Json.readStream p.2).values.length schedule, ?_⟩
    rw [List.flatMap_cons, order_andThen, hrest]
    rfl

end Batch

end RecordLinkage
