import Mathlib.Data.Set.List
import RecordLinkage.Ingest.Ingester
import RecordLinkage.Proofs.Order

/-!
# What a query extracts from a payload

A query names some values inside a payload. Two things are made of them. As a match key, the query
yields a set of strings, and only if there is nothing but strings. To identify a record, it yields
one string, and whatever else is named is passed over.

The two look into arrays in different ways. An array counts as its items among the match values only
if it is the single value that is named, whereas an identifier may be an item of any array that is
named. Yet they never contradict each other: where there are match values, the identifier is one of
them. An array that is named beside something else is no string, so there are no match values then.

Match values depend on which values are named and not on their order, nor on how many times one is
named. The one exception is that a single array is opened and two of the same are not.
-/

namespace RecordLinkage

variable {nodes items : List Json} {v : Json} {s : String} {e : Extractor} {payload : Json}

theorem Json.string?_eq_some_iff : v.string? = some s ↔ v = .string s := by
  cases v <;> simp [Json.string?]

namespace Extractor

/-! ## Opening a single array -/

/-- The members that a list of named values stands for. -/
inductive StandsFor : List Json → List Json → Prop where
  /-- A single array stands for its items. -/
  | array (items : List Json) : StandsFor [.array items] items
  /-- Other values stand for themselves. -/
  | nodes {nodes : List Json} (h : ∀ items, nodes ≠ [.array items]) : StandsFor nodes nodes

theorem standsFor_flattened (nodes : List Json) : StandsFor nodes (flattened nodes) := by
  fun_cases flattened nodes with
  | case1 items => exact .array items
  | case2 _ hne => exact .nodes hne

theorem flattened_of_two_le (h : 2 ≤ nodes.length) : flattened nodes = nodes := by
  fun_cases flattened nodes with
  | case1 items => exact absurd h (Nat.lt_irrefl 1)
  | case2 => rfl

/-- The query for all children of a value. -/
def ofChildren : Extractor := ⟨.mk .root [.child [.wildcard]]⟩

/-- Any list of values is named by some query somewhere. -/
theorem select_ofChildren (nodes : List Json) : ofChildren.path.select (.array nodes) = nodes := by
  simp [ofChildren, Query.Path.select, Query.Path.nodes, Query.segmentNodes, Query.Segment.nodes,
    Query.selectorNodes, Query.Selector.nodes, Json.children]

/-! ## All strings or none -/

theorem allStrings?_cons (v : Json) (rest : List Json) :
    allStrings? (v :: rest) = v.string?.bind fun s ↦ (allStrings? rest).map (s :: ·) := by
  rw [allStrings?, allStrings?, List.mapM_cons]
  cases v.string? with
  | none => rfl
  | some s => exact Option.map_eq_bind.symm

theorem allStrings?_eq_some_iff {ss : List String} :
    allStrings? items = some ss ↔ items = ss.map .string := by
  induction items generalizing ss with
  | nil => simp [allStrings?, eq_comm]
  | cons v rest ih =>
    simp only [allStrings?_cons, Option.bind_eq_some_iff, Option.map_eq_some_iff,
      Json.string?_eq_some_iff, ih]
    constructor
    · rintro ⟨s, rfl, ss, rfl, rfl⟩
      rfl
    · intro h
      obtain ⟨s, ss, rfl, rfl, rfl⟩ := List.map_eq_cons_iff.mp h.symm
      exact ⟨s, rfl, ss, rfl, rfl⟩

/-- One member that is no string takes all the others with it. -/
theorem mem_allStrings? :
    s ∈ (allStrings? items).getD [] ↔ .string s ∈ items ∧ ∀ v ∈ items, ∃ t, v = .string t := by
  rcases hall : allStrings? items with - | ss
  · refine iff_of_false List.not_mem_nil ?_
    rintro ⟨-, hstrings⟩
    -- A list of nothing but strings would have been read.
    have hrange : items ∈ Set.range (List.map Json.string) := by
      rw [Set.range_list_map]
      intro v hv
      obtain ⟨t, rfl⟩ := hstrings v hv
      exact ⟨t, rfl⟩
    obtain ⟨ss, rfl⟩ := hrange
    rw [allStrings?_eq_some_iff.mpr rfl] at hall
    cases hall
  · obtain rfl := allStrings?_eq_some_iff.mp hall
    simp

theorem mem_matchValues : s ∈ e.matchValues payload ↔
    .string s ∈ flattened (e.path.select payload) ∧
      ∀ v ∈ flattened (e.path.select payload), ∃ t, v = .string t := by
  rw [matchValues, Sorted.mem_ofList, mem_allStrings?]

/-- Only the set of named values counts, as long as there are two of them. -/
theorem matchValues_congr {e' : Extractor} {payload' : Json}
    (h : 2 ≤ (e.path.select payload).length) (h' : 2 ≤ (e'.path.select payload').length)
    (hsame : ∀ v, v ∈ e'.path.select payload' ↔ v ∈ e.path.select payload) :
    e'.matchValues payload' = e.matchValues payload := by
  rw [matchValues, matchValues, flattened_of_two_le h, flattened_of_two_le h']
  apply Sorted.ofList_congr
  intro s
  simp only [mem_allStrings?, hsame]

/-! ## The first string -/

/-- A named value offers a string. -/
inductive Offers : Json → String → Prop where
  /-- A string offers itself. -/
  | string (s : String) : Offers (.string s) s
  /-- An array offers the strings among its items. -/
  | item {items : List Json} {s : String} (h : .string s ∈ items) : Offers (.array items) s

theorem offers_of_stringOf? (h : stringOf? v = some s) : Offers v s := by
  cases v with
  | string t =>
    obtain rfl := Option.some.inj h
    exact .string t
  | array items =>
    obtain ⟨w, hw, hs⟩ := List.exists_of_findSome?_eq_some h
    obtain rfl := Json.string?_eq_some_iff.mp hs
    exact .item hw
  | _ => cases h

theorem exists_stringOf? (h : Offers v s) : ∃ t, stringOf? v = some t := by
  cases h with
  | string => exact ⟨s, rfl⟩
  | @item items _ hs =>
    have hsome : (items.findSome? Json.string?).isSome := by
      rw [List.isSome_findSome?]
      exact List.any_eq_true.mpr ⟨.string s, hs, rfl⟩
    exact Option.isSome_iff_exists.mp hsome

theorem exists_offers_of_firstString? (h : e.firstString? payload = some s) :
    ∃ v ∈ e.path.select payload, Offers v s := by
  obtain ⟨v, hv, hs⟩ := List.exists_of_findSome?_eq_some h
  exact ⟨v, hv, offers_of_stringOf? hs⟩

theorem firstString?_eq_none_iff :
    e.firstString? payload = none ↔ ∀ v ∈ e.path.select payload, ∀ s, ¬Offers v s := by
  rw [firstString?, List.findSome?_eq_none_iff]
  constructor
  · intro h v hv s hs
    obtain ⟨t, ht⟩ := exists_stringOf? hs
    rw [h v hv] at ht
    cases ht
  · intro h v hv
    rw [Option.eq_none_iff_forall_ne_some]
    exact fun s hs ↦ h v hv s (offers_of_stringOf? hs)

/-! ## Match values and the first string -/

theorem StandsFor.exists_offers (h : StandsFor nodes items) (hs : .string s ∈ items) :
    ∃ v ∈ nodes, Offers v s := by
  cases h with
  | array => exact ⟨.array items, List.mem_cons_self, .item hs⟩
  | nodes => exact ⟨.string s, hs, .string s⟩

/-- Where there is nothing but strings, only members are offered. -/
theorem StandsFor.mem_of_offers (h : StandsFor nodes items)
    (hstrings : ∀ w ∈ items, ∃ t, w = .string t) (hv : v ∈ nodes) (hs : Offers v s) :
    .string s ∈ items := by
  cases h with
  | array =>
    obtain rfl := List.mem_singleton.mp hv
    cases hs with
    | item hs => exact hs
  | nodes =>
    obtain ⟨t, rfl⟩ := hstrings v hv
    cases hs
    exact hv

/-- **Where there are match values, the first string is one of them.** -/
theorem exists_firstString? (h : e.matchValues payload ≠ []) :
    ∃ s ∈ e.matchValues payload, e.firstString? payload = some s := by
  obtain ⟨t, ht⟩ := List.exists_mem_of_ne_nil _ h
  obtain ⟨htmem, hstrings⟩ := mem_matchValues.mp ht
  have hstands := standsFor_flattened (e.path.select payload)
  -- Every match value is offered, so a string is found. What is found is offered, and where there
  -- is nothing but strings, what is offered is a match value.
  rcases hfirst : e.firstString? payload with - | s
  · obtain ⟨v, hv, hoffers⟩ := hstands.exists_offers htmem
    exact absurd hoffers (firstString?_eq_none_iff.mp hfirst v hv t)
  · obtain ⟨v, hv, hoffers⟩ := exists_offers_of_firstString? hfirst
    exact ⟨s, mem_matchValues.mpr ⟨hstands.mem_of_offers hstrings hv hoffers, hstrings⟩, rfl⟩

/-- What is extracted where a query names some values, which stand for some members. -/
structure Extracts (nodes items : List Json) (values : List String) (first : Option String) :
    Prop where
  /-- The match values form a set, in ascending order. -/
  ascending : values.Pairwise (· < ·)
  /-- If there are only strings, they are the match values. -/
  mem_values : (∀ v ∈ items, ∃ s, v = .string s) → ∀ s, s ∈ values ↔ .string s ∈ items
  /-- If anything is not a string, there are no match values. -/
  values_eq_nil : (∃ v ∈ items, ∀ s, v ≠ .string s) → values = []
  /-- If there are match values, the first string is one of them. -/
  first_mem : values ≠ [] → ∃ s ∈ values, first = some s
  /-- The first string is offered by a value that is named. -/
  offered : ∀ s, first = some s → ∃ v ∈ nodes, Offers v s
  /-- There is no first string only if no value that is named offers any. -/
  first_eq_none_iff : first = none ↔ ∀ v ∈ nodes, ∀ s, ¬Offers v s

theorem extracts_flattened (e : Extractor) (payload : Json) :
    Extracts (e.path.select payload) (flattened (e.path.select payload)) (e.matchValues payload)
      (e.firstString? payload) where
  ascending := Sorted.pairwise_ofList _
  mem_values hstrings s := mem_matchValues.trans (and_iff_left hstrings)
  values_eq_nil := by
    rintro ⟨v, hv, hne⟩
    rw [List.eq_nil_iff_forall_not_mem]
    intro s hs
    obtain ⟨t, rfl⟩ := (mem_matchValues.mp hs).2 v hv
    exact hne t rfl
  first_mem := exists_firstString?
  offered s := exists_offers_of_firstString?
  first_eq_none_iff := firstString?_eq_none_iff

/-- **Extraction is all or nothing.** A method that applies a query does not fail. The match values
are all the strings that the named values stand for, or none if they stand for anything else. The
first string is one of the match values where there are any, and it is missing only where nothing
that is named is a string or an array with a string in it. Where two or more values are named, the
same values in another order, or another number of times, have the same match values. -/
theorem extraction_all_or_nothing (e : Extractor) (payload : Json) :
    e.toMethod.matchValues payload = .ok (e.matchValues payload) ∧
    (∃ items, StandsFor (e.path.select payload) items ∧
      Extracts (e.path.select payload) items (e.matchValues payload) (e.firstString? payload)) ∧
    ∀ nodes : List Json, 2 ≤ (e.path.select payload).length → 2 ≤ nodes.length →
      (∀ v, v ∈ nodes ↔ v ∈ e.path.select payload) →
      (∃ (e' : Extractor) (payload' : Json), e'.path.select payload' = nodes) ∧
      ∀ (e' : Extractor) (payload' : Json), e'.path.select payload' = nodes →
        e'.matchValues payload' = e.matchValues payload := by
  refine ⟨rfl, ⟨_, standsFor_flattened _, extracts_flattened e payload⟩, ?_⟩
  intro nodes htwo htwo' hsame
  refine ⟨⟨ofChildren, .array nodes, select_ofChildren nodes⟩, ?_⟩
  rintro e' payload' rfl
  exact matchValues_congr htwo htwo' hsame

/-- An array that is named alone is opened for its items, and the same array named twice is not. The
first string is found in either case. -/
example :
    let shelf : Json := .array [.string "b", .string "a"]
    (ofChildren.matchValues (.array [shelf]), ofChildren.firstString? (.array [shelf]))
        = (["a", "b"], some "b") ∧
      (ofChildren.matchValues (.array [shelf, shelf]),
        ofChildren.firstString? (.array [shelf, shelf])) = ([], some "b") := by
  decide +kernel

end Extractor

end RecordLinkage
