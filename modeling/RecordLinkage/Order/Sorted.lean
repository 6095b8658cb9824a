/-!
# Sorted lists as sets and maps

Answers list the elements of a set and the keys of a map in ascending order. Sets and maps are
therefore kept as ascending lists without repetition: equal sets are then equal lists, and there is
no iteration order to speak of besides the one that is shown.

Insertion is by comparison with `<`, which has to be a decidable linear order for the results to be
ascending. Text is ordered by code points. That is also the order of its bytes in UTF-8.

## Sorting by a key

`sortBy` is insertion sort and stable: elements that the given test does not tell apart stay in the
order in which they came.
-/

namespace RecordLinkage.Sorted

section Sets

variable {α : Type} [LT α] [DecidableLT α] [DecidableEq α]

/-- Adds an element to an ascending list, unless it is there. -/
def insert (a : α) : List α → List α
  | [] => [a]
  | b :: rest =>
    if a < b then a :: b :: rest
    else if a = b then b :: rest
    else b :: insert a rest

/-- The elements of a list, ascending and each once. -/
def ofList (xs : List α) : List α := xs.foldr insert []

@[simp] theorem mem_insert {a x : α} {xs : List α} : x ∈ insert a xs ↔ x = a ∨ x ∈ xs := by
  induction xs with
  | nil => simp [insert]
  | cons b rest ih =>
    by_cases hlt : a < b
    · simp [insert, hlt]
    · by_cases heq : a = b
      · subst heq; simp [insert, hlt]
      · simp only [insert, hlt, heq, if_false, List.mem_cons, ih]
        constructor <;> rintro (h | h | h) <;> simp [h]

@[simp] theorem mem_ofList {x : α} {xs : List α} : x ∈ ofList xs ↔ x ∈ xs := by
  induction xs with
  | nil => simp [ofList]
  | cons a rest ih =>
    change x ∈ insert a (ofList rest) ↔ x ∈ a :: rest
    rw [mem_insert, ih, List.mem_cons]

end Sets

section Maps

variable {κ : Type} {ν : Type} [LT κ] [DecidableLT κ] [DecidableEq κ]

/-- Sets the value of a key in a list that ascends by key. -/
def put (key : κ) (value : ν) : List (κ × ν) → List (κ × ν)
  | [] => [(key, value)]
  | (k, v) :: rest =>
    if key < k then (key, value) :: (k, v) :: rest
    else if key = k then (key, value) :: rest
    else (k, v) :: put key value rest

def get? (key : κ) (entries : List (κ × ν)) : Option ν :=
  (entries.find? fun entry ↦ entry.1 = key).map (·.2)

/-- Changes the value of a key, which is `fallback` as long as it has none. -/
def update (key : κ) (fallback : ν) (f : ν → ν) (entries : List (κ × ν)) : List (κ × ν) :=
  put key (f ((get? key entries).getD fallback)) entries

end Maps

section Sorting

variable {α : Type}

/-- Puts an element in front of the first one that it does not come after. -/
def insertBy (before : α → α → Bool) (a : α) : List α → List α
  | [] => [a]
  | b :: rest => if before b a then b :: insertBy before a rest else a :: b :: rest

/-- A stable sort; `before` is a strict order. -/
def sortBy (before : α → α → Bool) (xs : List α) : List α := xs.foldr (insertBy before) []

@[simp] theorem mem_insertBy {before : α → α → Bool} {a x : α} {xs : List α} :
    x ∈ insertBy before a xs ↔ x = a ∨ x ∈ xs := by
  induction xs with
  | nil => simp [insertBy]
  | cons b rest ih =>
    by_cases h : before b a
    · simp only [insertBy, h, if_true, List.mem_cons, ih]
      constructor <;> rintro (h | h | h) <;> simp [h]
    · simp [insertBy, h]

@[simp] theorem mem_sortBy {before : α → α → Bool} {x : α} {xs : List α} :
    x ∈ sortBy before xs ↔ x ∈ xs := by
  induction xs with
  | nil => simp [sortBy]
  | cons a rest ih =>
    change x ∈ insertBy before a (sortBy before rest) ↔ x ∈ a :: rest
    rw [mem_insertBy, ih, List.mem_cons]

end Sorting

end RecordLinkage.Sorted
