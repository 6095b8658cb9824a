import Mathlib.Data.List.Basic
import RecordLinkage.MatchKey.Cache

/-!
# What is kept is what would be set up

A cache answers with a method that it set up earlier, for parameters that compare as the same. They
need not be written alike: numbers compare by value. A method is set up from one text among its
parameters, and texts compare character by character, so nothing that matters can differ. Whatever
was asked of a cache before, its answer is the method that would be set up now.
-/

namespace RecordLinkage

/-! ## Parameters that are the same -/

namespace Json

theorem string?_of_same {a b : Json} (h : same a b = true) : a.string? = b.string? := by
  cases a <;> cases b <;> simp_all [same, string?]

/-- Objects that are the same have the same texts. -/
theorem string?_of_sameFields {as bs : List (String × Json)} (h : sameFields as bs = true)
    (key : String) :
    (Sorted.get? key as).bind string? = (Sorted.get? key bs).bind string? := by
  induction as generalizing bs with
  | nil =>
    cases bs with
    | nil => rfl
    | cons b bs => cases h
  | cons a as ih =>
    cases bs with
    | nil => cases h
    | cons b bs =>
      obtain ⟨k, v⟩ := a
      obtain ⟨l, w⟩ := b
      simp only [sameFields, Bool.and_eq_true, beq_iff_eq] at h
      obtain ⟨⟨rfl, hvalue⟩, hrest⟩ := h
      rw [Sorted.get?, Sorted.get?, List.find?_cons, List.find?_cons]
      by_cases hkey : k = key
      · simpa [hkey] using string?_of_same hvalue
      · simpa [hkey, Sorted.get?] using ih hrest

theorem text_of_same {a b : Json} (h : same a b = true) (key : String) :
    (a.get? key).bind string? = (b.get? key).bind string? := by
  cases a with
  | object fields =>
    cases b with
    | object fields' => exact string?_of_sameFields (by simpa [same] using h) key
    | _ => simp [same] at h
  | _ => cases b <;> first | rfl | simp [same] at h

end Json

/-- A method depends on its parameters as far as they compare. -/
theorem Method.create_congr {a b : Json} (h : a.same b = true) (name : String) :
    create name a = create name b := by
  rw [create, create, Json.text_of_same h]

/-! ## Caches -/

namespace MethodCache

/-- The caches that there are: whatever was kept was set up by somebody who asked for it. -/
inductive Made : MethodCache → Prop where
  | empty : Made .empty
  | get {c} (h : Made c) (tenant : TenantId) (k : MatchKey) : Made (c.get tenant k).2
  | purge {c} (h : Made c) (tenant : TenantId) (id : String) : Made (c.purge tenant id).2
  | purgeAll {c} (h : Made c) : Made c.purgeAll

theorem Made.of_isEmpty {c : MethodCache} (hentries : c.entries.isEmpty = true)
    (hcreated : c.created = 0) : c.Made := by
  obtain ⟨entries, created⟩ := c
  obtain rfl : entries = [] := List.isEmpty_iff.mp hentries
  obtain rfl : created = 0 := hcreated
  exact .empty

/-- An entry keeps the method that it says it does. -/
def Entry.Faithful (e : Entry) : Prop := Method.create e.methodName e.params = .ok e.kept.method

variable {c : MethodCache} {tenant : TenantId} {k : MatchKey}

theorem Entry.Faithful.createMethod {e : Entry} (h : e.Faithful) (hfits : e.fits k = true) :
    k.createMethod = .ok e.kept.method := by
  rw [fits, Bool.and_eq_true, decide_eq_true_iff] at hfits
  rw [MatchKey.createMethod, ← hfits.1, ← Method.create_congr hfits.2]
  exact h

/-- A cache answers from what it keeps, or sets the method up. -/
theorem get_cases (c : MethodCache) (tenant : TenantId) (k : MatchKey) :
    (∃ e, ((tenant, k.id), e) ∈ c.entries ∧ e.fits k = true ∧ c.get tenant k = (.ok e.kept, c)) ∨
      c.get tenant k = c.build (tenant, k.id) k := by
  rw [get]
  rcases hentry : c.entry? (tenant, k.id) with _ | e
  · exact Or.inr rfl
  · simp only
    split_ifs with hfits
    · obtain ⟨⟨key, e'⟩, hfind, rfl⟩ := Option.map_eq_some_iff.mp hentry
      obtain rfl : key = (tenant, k.id) := by simpa using List.find?_some hfind
      exact Or.inl ⟨e', List.mem_of_find?_eq_some hfind, hfits, rfl⟩
    · exact Or.inr rfl

theorem build_faithful (h : ∀ e ∈ c.entries, e.2.Faithful) (key : TenantId × String) :
    ∀ e ∈ (c.build key k).2.entries, e.2.Faithful := by
  rw [build]
  rcases hcreate : k.createMethod with f | method
  · exact h
  · intro e he
    rcases List.mem_cons.mp he with rfl | he
    · exact hcreate
    · exact h e (List.mem_of_mem_filter he)

theorem Made.faithful (h : c.Made) : ∀ e ∈ c.entries, e.2.Faithful := by
  induction h with
  | empty => exact fun e he ↦ absurd he List.not_mem_nil
  | @get c _ tenant k ih =>
    rcases c.get_cases tenant k with ⟨e, -, -, hget⟩ | hget
    · rw [hget]
      exact ih
    · rw [hget]
      exact build_faithful ih _
  | purge _ tenant id ih => exact fun e he ↦ ih e (List.mem_of_mem_filter he)
  | purgeAll => exact fun e he ↦ absurd he List.not_mem_nil

/-- **A cache answers with the method that would be set up.** -/
theorem Made.get_method (h : c.Made) (tenant : TenantId) (k : MatchKey) :
    (c.get tenant k).1.map MethodInstance.method = k.createMethod := by
  rcases c.get_cases tenant k with ⟨e, he, hfits, hget⟩ | hget
  · rw [hget, (h.faithful _ he).createMethod hfits]
    rfl
  · rw [hget, build]
    rcases k.createMethod with f | method <;> rfl

/-! ## What is kept -/

/-- A method is kept for a match key as it is. -/
def Keeps (c : MethodCache) (tenant : TenantId) (k : MatchKey) (m : Method) : Prop :=
  ∃ e, c.entry? (tenant, k.id) = some e ∧ e.fits k = true ∧ e.kept.method = m

variable {m : Method}

/-- What is kept is answered, and nothing is set up. -/
theorem Keeps.get (h : c.Keeps tenant k m) : ∃ kept,
    c.get tenant k = (.ok kept, c) ∧ kept.method = m := by
  obtain ⟨e, hentry, hfits, hmethod⟩ := h
  refine ⟨e.kept, ?_, hmethod⟩
  rw [MethodCache.get, hentry]
  exact if_pos hfits

/-- What is answered is kept. -/
theorem keeps_of_get {c' : MethodCache} {kept : MethodInstance}
    (h : c.get tenant k = (.ok kept, c')) : c'.Keeps tenant k kept.method := by
  have hbuild (hget : c.build (tenant, k.id) k = (.ok kept, c')) :
      c'.Keeps tenant k kept.method := by
    rw [build] at hget
    rcases hcreate : k.createMethod with f | method
    · rw [hcreate] at hget
      cases hget
    · rw [hcreate] at hget
      obtain ⟨hkept, rfl⟩ := Prod.mk.inj hget
      obtain rfl := Except.ok.inj hkept
      refine ⟨⟨k.method, k.params, ⟨c.created, method⟩⟩, ?_, ?_, rfl⟩
      · simp [MethodCache.entry?]
      · simp [Entry.fits, Json.same_self]
  rw [MethodCache.get] at h
  rcases hentry : c.entry? (tenant, k.id) with - | e
  · rw [hentry] at h
    exact hbuild h
  · rw [hentry] at h
    dsimp only at h
    split_ifs at h with hfits
    · obtain ⟨hkept, rfl⟩ := Prod.mk.inj h
      exact ⟨e, hentry, hfits, congrArg _ (Except.ok.inj hkept)⟩
    · exact hbuild h

/-- What is kept for a match key stays when another one is asked for. -/
theorem Keeps.get_other (h : c.Keeps tenant k m) {k' : MatchKey} (hne : k.id ≠ k'.id) :
    (c.get tenant k').2.Keeps tenant k m := by
  rcases c.get_cases tenant k' with ⟨e, -, -, hget⟩ | hget
  · rw [hget]
    exact h
  · rw [hget, build]
    rcases k'.createMethod with f | method
    · exact h
    · obtain ⟨e, hentry, hfits, hmethod⟩ := h
      refine ⟨e, ?_, hfits, hmethod⟩
      rw [← hentry, entry?, entry?, without, List.find?_cons_of_neg, List.find?_filter]
      · refine congrArg _ (congrArg (List.find? · c.entries) (funext fun e ↦ ?_))
        by_cases hkey : e.1 = (tenant, k.id)
        · simp [hkey, hne]
        · simp [hkey]
      · simp [Ne.symm hne]

end MethodCache

/-- A method that was set up computes a set for every payload. -/
theorem Method.exists_matchValues {name : String} {params : Json} {m : Method}
    (h : create name params = .ok m) (payload : Json) :
    ∃ values, m.matchValues payload = .ok values := by
  rw [create] at h
  split_ifs at h with hname
  split at h
  · next text _ =>
    rcases hparse : Extractor.parse text with f | e
    · rw [hparse] at h
      cases h
    · rw [hparse] at h
      obtain rfl := Except.ok.inj h
      exact ⟨_, rfl⟩
  · cases h

end RecordLinkage
