import Mathlib.Data.List.Nodup
import Mathlib.Data.String.Basic
import Mathlib.Order.Fin.Basic
import Mathlib.Order.RelClasses
import RecordLinkage.Identity.Uuid
import RecordLinkage.Order.Sorted

/-!
# Ascending lists and the order of identifiers

Sets are kept as ascending lists, so the first element of a set is its least one, and a set has no
element twice. Both facts need the order to be total, which texts and identifiers satisfy.

## Identifiers as numbers

An identifier that is handed out by a supply is the number that the supply has reached, as long as
that number still fits. Being older is then being smaller.
-/

namespace RecordLinkage

/-! ## The order of identifiers -/

namespace Uuid

/-- The identifier as a natural number. -/
def toNat (u : Uuid) : Nat := u.value.val

theorem lt_iff_toNat {a b : Uuid} : a < b ↔ a.toNat < b.toNat := Iff.rfl

theorem toNat_injective : Function.Injective toNat := by
  rintro ⟨a⟩ ⟨b⟩ h
  exact congrArg Uuid.mk (Fin.ext h)

theorem toNat_ofNat {n : Nat} (h : n < 2 ^ 128) : (ofNat n).toNat = n := Nat.mod_eq_of_lt h

instance : IsStrictTotalOrder Uuid (· < ·) where
  irrefl a := lt_irrefl a.toNat
  trans a b c := fun hab hbc ↦ lt_trans (a := a.toNat) (b := b.toNat) (c := c.toNat) hab hbc
  trichotomous _ _ := fun hab hba ↦
    toNat_injective (le_antisymm (not_lt.mp hba) (not_lt.mp hab))

end Uuid

namespace ClusterId

/-- The identifier as a natural number. -/
def toNat (x : ClusterId) : Nat := x.uuid.toNat

theorem lt_iff_toNat {x y : ClusterId} : x < y ↔ x.toNat < y.toNat := Iff.rfl

theorem toNat_injective : Function.Injective toNat := by
  rintro ⟨a⟩ ⟨b⟩ h
  exact congrArg ClusterId.mk (Uuid.toNat_injective h)

instance : IsStrictTotalOrder ClusterId (· < ·) where
  irrefl x := irrefl_of (· < ·) x.uuid
  trans x y z := fun hxy hyz ↦
    trans_of (a := x.uuid) (b := y.uuid) (c := z.uuid) (· < ·) hxy hyz
  trichotomous _ _ := fun hxy hyx ↦
    toNat_injective (le_antisymm (not_lt.mp hyx) (not_lt.mp hxy))

end ClusterId

namespace RecordId

/-- The identifier as a natural number. -/
def toNat (r : RecordId) : Nat := r.uuid.toNat

theorem toNat_injective : Function.Injective toNat := by
  rintro ⟨a⟩ ⟨b⟩ h
  exact congrArg RecordId.mk (Uuid.toNat_injective h)

end RecordId

/-! ## Sets -/

namespace Sorted

section Sets

variable {α : Type} [LT α] [DecidableLT α] [DecidableEq α] [IsStrictTotalOrder α (· < ·)]

theorem pairwise_insert {a : α} {xs : List α} (h : xs.Pairwise (· < ·)) :
    (insert a xs).Pairwise (· < ·) := by
  induction xs with
  | nil => exact List.pairwise_singleton _ _
  | cons b rest ih =>
    obtain ⟨hb, hrest⟩ := List.pairwise_cons.mp h
    rw [insert]
    split_ifs with hlt heq
    · refine List.pairwise_cons.mpr ⟨fun x hx ↦ ?_, h⟩
      rcases List.mem_cons.mp hx with rfl | hx
      · exact hlt
      · exact trans_of (· < ·) hlt (hb x hx)
    · exact h
    · refine List.pairwise_cons.mpr ⟨fun x hx ↦ ?_, ih hrest⟩
      rcases mem_insert.mp hx with rfl | hx
      · rcases trichotomous_of (· < ·) b x with h1 | h1 | h1
        · exact h1
        · exact absurd h1.symm heq
        · exact absurd h1 hlt
      · exact hb x hx

theorem pairwise_ofList (xs : List α) : (ofList xs).Pairwise (· < ·) := by
  induction xs with
  | nil => exact List.Pairwise.nil
  | cons a rest ih => exact pairwise_insert ih

theorem nodup_ofList (xs : List α) : (ofList xs).Nodup := (pairwise_ofList xs).nodup

/-- A set is known by its elements. -/
theorem ofList_congr {xs ys : List α} (h : ∀ x, x ∈ xs ↔ x ∈ ys) : ofList xs = ofList ys := by
  refine List.Perm.eq_of_pairwise (fun a b _ _ hab hba ↦ absurd hba (asymm_of (· < ·) hab))
    (pairwise_ofList xs) (pairwise_ofList ys) ?_
  rw [List.perm_ext_iff_of_nodup (nodup_ofList xs) (nodup_ofList ys)]
  intro x
  rw [mem_ofList, mem_ofList, h]

theorem ofList_ofList (xs : List α) : ofList (ofList xs) = ofList xs :=
  ofList_congr fun _ ↦ mem_ofList

end Sets

/-! ## Sorting -/

section Sorting

variable {α : Type} {before : α → α → Bool}

theorem insertBy_perm (a : α) (xs : List α) : (insertBy before a xs).Perm (a :: xs) := by
  induction xs with
  | nil => exact List.Perm.refl _
  | cons b rest ih =>
    rw [insertBy]
    split_ifs
    · exact (ih.cons b).trans (List.Perm.swap a b rest)
    · exact List.Perm.refl _

theorem sortBy_perm (xs : List α) : (sortBy before xs).Perm xs := by
  induction xs with
  | nil => exact List.Perm.refl _
  | cons a rest ih => exact (insertBy_perm a _).trans (ih.cons a)

theorem insertBy_map {β : Type} (f : β → α) (b : β) (bs : List β) :
    insertBy before (f b) (bs.map f)
      = (insertBy (fun b b' ↦ before (f b) (f b')) b bs).map f := by
  induction bs with
  | nil => rfl
  | cons b' rest ih =>
    rw [List.map_cons, insertBy, insertBy]
    split_ifs
    · rw [ih, List.map_cons]
    · rfl

/-- Images are sorted as they are compared. -/
theorem sortBy_map {β : Type} (f : β → α) (bs : List β) :
    sortBy before (bs.map f) = (sortBy (fun b b' ↦ before (f b) (f b')) bs).map f := by
  induction bs with
  | nil => rfl
  | cons b rest ih =>
    change insertBy before (f b) (sortBy before (rest.map f)) = _
    rw [ih, insertBy_map]
    rfl

/-- A strict order whose negation is transitive: what insertion needs to leave no element behind
one that it comes before. -/
structure IsWeakOrder (before : α → α → Bool) : Prop where
  asymm : ∀ {a b}, before a b → ¬before b a
  trans : ∀ {a b c}, ¬before b a → ¬before c b → ¬before c a

theorem pairwise_insertBy (ho : IsWeakOrder before) {a : α} {xs : List α}
    (h : xs.Pairwise fun a b ↦ ¬before b a) :
    (insertBy before a xs).Pairwise fun a b ↦ ¬before b a := by
  induction xs with
  | nil => exact List.pairwise_singleton _ _
  | cons b rest ih =>
    obtain ⟨hb, hrest⟩ := List.pairwise_cons.mp h
    rw [insertBy]
    split_ifs with hba
    · refine List.pairwise_cons.mpr ⟨fun x hx ↦ ?_, ih hrest⟩
      rcases mem_insertBy.mp hx with rfl | hx
      · exact ho.asymm hba
      · exact hb x hx
    · refine List.pairwise_cons.mpr ⟨fun x hx ↦ ?_, h⟩
      rcases List.mem_cons.mp hx with rfl | hx
      · exact hba
      · exact ho.trans hba (hb x hx)

theorem pairwise_sortBy (ho : IsWeakOrder before) (xs : List α) :
    (sortBy before xs).Pairwise fun a b ↦ ¬before b a := by
  induction xs with
  | nil => exact List.Pairwise.nil
  | cons a rest ih => exact pairwise_insertBy ho ih

end Sorting

end Sorted

end RecordLinkage
