import Mathlib.Algebra.BigOperators.Group.List.Basic
import Mathlib.Algebra.Ring.Nat
import Mathlib.Data.List.Induction
import RecordLinkage.Proofs.Order

/-!
# Maps that are collected from lists

A map is kept as a list of entries that ascends by key. Elements of a list are collected in a map by
changing, for one element after the other, the entry of its key. What is found under a key is then
what comes of the elements of that key, in their order, and nothing is found where there are none.

A histogram counts the elements of each key. Weighted by anything that depends on the key, its
numbers add up to the weights of all elements.
-/

namespace RecordLinkage.Sorted

/-! ## Entries -/

section Entries

variable {κ ν : Type} [DecidableEq κ] {entries : List (κ × ν)} {k : κ}

theorem get?_cons (key k : κ) (v : ν) (rest : List (κ × ν)) :
    get? key ((k, v) :: rest) = if k = key then some v else get? key rest := by
  rw [get?, get?, List.find?_cons]
  by_cases h : k = key
  · simp [h]
  · simp [h]

/-- Where no key is there twice, the value of a key is the one that is there. -/
theorem get?_eq_some_iff (h : (entries.map Prod.fst).Nodup) {v : ν} :
    get? k entries = some v ↔ (k, v) ∈ entries := by
  induction entries with
  | nil => simp [get?]
  | cons entry rest ih =>
    obtain ⟨k', v'⟩ := entry
    rw [List.map_cons, List.nodup_cons] at h
    rw [get?_cons, List.mem_cons, Prod.mk.injEq]
    by_cases heq : k' = k
    · subst heq
      have hno : ∀ w, (k', w) ∉ rest := fun w hmem ↦
        h.1 (List.mem_map.mpr ⟨(k', w), hmem, rfl⟩)
      simp [hno, eq_comm]
    · rw [if_neg heq, ih h.2]
      simp [Ne.symm heq]

variable [LT κ] [DecidableLT κ]

theorem get?_put (key k : κ) (value : ν) (entries : List (κ × ν)) :
    get? k (put key value entries) = if key = k then some value else get? k entries := by
  induction entries with
  | nil => rw [put, get?_cons]
  | cons entry rest ih =>
    obtain ⟨k', v⟩ := entry
    by_cases hlt : key < k'
    · rw [put, if_pos hlt, get?_cons]
    · by_cases heq : key = k'
      · subst heq
        rw [put, if_neg hlt, if_pos rfl, get?_cons, get?_cons]
        by_cases hk : key = k
        · rw [if_pos hk, if_pos hk]
        · rw [if_neg hk, if_neg hk, if_neg hk]
      · rw [put, if_neg hlt, if_neg heq, get?_cons, get?_cons, ih]
        by_cases hk : key = k
        · subst hk
          rw [if_neg (Ne.symm heq), if_pos rfl, if_pos rfl]
        · rw [if_neg hk, if_neg hk]

/-- The keys of a map are a set. -/
theorem keys_put (key : κ) (value : ν) (entries : List (κ × ν)) :
    (put key value entries).map Prod.fst = insert key (entries.map Prod.fst) := by
  induction entries with
  | nil => rfl
  | cons entry rest ih =>
    obtain ⟨k, v⟩ := entry
    rw [put, List.map_cons, insert]
    split_ifs with hlt heq
    · rfl
    · rw [List.map_cons, heq]
    · rw [List.map_cons, ih]

end Entries

/-! ## Collecting -/

section Collecting

variable {α κ ν : Type} [LT κ] [DecidableLT κ] [DecidableEq κ]

/-- Collects the elements of a list: each changes the value of its key, which is `fallback` before
the first one. -/
def collect (key : α → κ) (fallback : ν) (add : ν → α → ν) (xs : List α) : List (κ × ν) :=
  xs.foldl (fun entries a ↦ update (key a) fallback (add · a) entries) []

variable (key : α → κ) (fallback : ν) (add : ν → α → ν)

theorem collect_concat (xs : List α) (a : α) : collect key fallback add (xs ++ [a])
    = update (key a) fallback (add · a) (collect key fallback add xs) := by
  rw [collect, List.foldl_append]
  rfl

/-- **What is collected under a key** comes of the elements of that key, in their order. -/
theorem get?_collect (k : κ) (xs : List α) : get? k (collect key fallback add xs)
    = if (xs.filter fun a ↦ key a = k) = [] then none
      else some ((xs.filter fun a ↦ key a = k).foldl add fallback) := by
  induction xs using List.reverseRecOn with
  | nil => rfl
  | append_singleton xs a ih =>
    rw [collect_concat, update, get?_put, List.filter_append]
    by_cases hk : key a = k
    · subst hk
      have hself : [a].filter (fun b ↦ key b = key a) = [a] := by simp
      have hsome : (xs.filter fun b ↦ key b = key a) ++ [a] ≠ [] := by simp
      rw [if_pos rfl, ih, hself, if_neg hsome, List.foldl_append]
      split_ifs with hnil
      · rw [hnil]
        rfl
      · rfl
    · have hother : [a].filter (fun b ↦ key b = k) = [] := by simp [hk]
      rw [if_neg hk, ih, hother, List.append_nil]

/-- The keys are the same, whatever is collected under them. -/
theorem keys_collect (xs : List α) :
    (collect key fallback add xs).map Prod.fst = xs.foldl (fun keys a ↦ insert (key a) keys) [] := by
  induction xs using List.reverseRecOn with
  | nil => rfl
  | append_singleton xs a ih =>
    rw [collect_concat, update, keys_put, ih, List.foldl_append]
    rfl

variable [IsStrictTotalOrder κ (· < ·)]

/-- Keys ascend. -/
theorem pairwise_keys_collect (xs : List α) :
    ((collect key fallback add xs).map Prod.fst).Pairwise (· < ·) := by
  rw [keys_collect]
  induction xs using List.reverseRecOn with
  | nil => exact List.Pairwise.nil
  | append_singleton xs a ih =>
    rw [List.foldl_append]
    exact pairwise_insert ih

theorem nodup_keys_collect (xs : List α) : ((collect key fallback add xs).map Prod.fst).Nodup :=
  (pairwise_keys_collect key fallback add xs).nodup

/-- The entries are what is found under their keys. -/
theorem mem_collect_iff {xs : List α} {k : κ} {v : ν} : (k, v) ∈ collect key fallback add xs ↔
    (xs.filter fun a ↦ key a = k) ≠ [] ∧
      (xs.filter fun a ↦ key a = k).foldl add fallback = v := by
  rw [← get?_eq_some_iff (nodup_keys_collect key fallback add xs), get?_collect]
  split_ifs with h
  · simp [h]
  · simp [h]

end Collecting

/-! ## Histograms -/

section Histograms

variable {α κ : Type} [DecidableEq κ] {ks : List κ} {xs : List α} (key : α → κ) (weight : κ → ℕ)

/-- Elements are counted key by key. -/
theorem sum_countP_key (hks : ks.Nodup) (hall : ∀ a ∈ xs, key a ∈ ks) :
    (ks.map fun k ↦ weight k * xs.countP fun a ↦ key a = k).sum
      = (xs.map fun a ↦ weight (key a)).sum := by
  induction xs with
  | nil => simp
  | cons a rest ih =>
    obtain ⟨ha, hrest⟩ := List.forall_mem_cons.mp hall
    have hone : (ks.map fun k ↦ weight k * if key a = k then 1 else 0).sum = weight (key a) := by
      rw [List.sum_map_eq_nsmul_single (key a) _ fun k hk _ ↦ by rw [if_neg (Ne.symm hk), mul_zero],
        List.count_eq_one_of_mem hks ha, one_nsmul, if_pos rfl, mul_one]
    simp only [List.countP_cons, decide_eq_true_eq, Nat.mul_add, List.sum_map_add, hone, ih hrest,
      List.map_cons, List.sum_cons]
    exact Nat.add_comm _ _

/-- Some elements are counted key by key, as far as these are all their keys. -/
theorem sum_countP (hks : ks.Nodup) (p : α → Bool) (xs : List α) :
    (ks.map fun k ↦ xs.countP fun a ↦ p a && key a = k).sum
      = xs.countP fun a ↦ p a && ks.contains (key a) := by
  have hall : ∀ a ∈ xs.filter (fun a ↦ p a && ks.contains (key a)), key a ∈ ks := by
    intro a ha
    rw [List.mem_filter, Bool.and_eq_true, List.contains_iff_mem] at ha
    exact ha.2.2
  have hsum := sum_countP_key key (fun _ ↦ 1) hks hall
  simp only [Nat.one_mul, List.map_const', List.sum_replicate, Nat.nsmul_eq_mul, Nat.mul_one,
    ← List.countP_eq_length_filter, List.countP_filter] at hsum
  rw [← hsum]
  refine congrArg List.sum (List.map_congr_left fun k hk ↦ List.countP_congr fun a _ ↦ ?_)
  simp only [Bool.and_eq_true, decide_eq_true_eq, List.contains_iff_mem]
  constructor
  · rintro ⟨hp, rfl⟩
    exact ⟨rfl, hp, hk⟩
  · rintro ⟨hkey, hp, -⟩
    exact ⟨hp, hkey⟩

variable [LT κ] [DecidableLT κ]

/-- How many elements of a list have each key. -/
def histogram (xs : List α) : List (κ × ℕ) := collect key 0 (fun n _ ↦ n + 1) xs

variable [IsStrictTotalOrder κ (· < ·)]

theorem mem_histogram_iff {k : κ} {n : ℕ} :
    (k, n) ∈ histogram key xs ↔ 0 < n ∧ (xs.countP fun a ↦ key a = k) = n := by
  rw [histogram, mem_collect_iff, List.foldl_add_const, Nat.zero_add, Nat.one_mul,
    List.countP_eq_length_filter, ← List.length_pos_iff]
  exact ⟨fun ⟨hpos, hn⟩ ↦ ⟨hn ▸ hpos, hn⟩, fun ⟨hpos, hn⟩ ↦ ⟨hn ▸ hpos, hn⟩⟩

/-- **The numbers of a histogram add up**, weighted by their keys. -/
theorem sum_histogram (xs : List α) : ((histogram key xs).map fun e ↦ weight e.1 * e.2).sum
    = (xs.map fun a ↦ weight (key a)).sum := by
  have hkeys : ∀ a ∈ xs, key a ∈ (histogram key xs).map Prod.fst := by
    intro a ha
    refine List.mem_map_of_mem (f := Prod.fst) ((mem_histogram_iff key).mpr ⟨?_, rfl⟩)
    exact List.countP_pos_iff.mpr ⟨a, ha, decide_eq_true rfl⟩
  rw [← sum_countP_key key weight (nodup_keys_collect key 0 _ xs) hkeys, List.map_map]
  refine congrArg List.sum (List.map_congr_left fun e he ↦ ?_)
  rw [Function.comp_apply, ((mem_histogram_iff key).mp he).2]

/-- The numbers of a histogram add up to that of all elements. -/
theorem sum_snd_histogram (xs : List α) :
    ((histogram key xs).map Prod.snd).sum = xs.length := by
  have h := sum_histogram key (fun _ ↦ 1) xs
  simp only [Nat.one_mul, List.map_const', List.sum_replicate, Nat.nsmul_eq_mul, Nat.mul_one] at h
  exact h

end Histograms

end RecordLinkage.Sorted
