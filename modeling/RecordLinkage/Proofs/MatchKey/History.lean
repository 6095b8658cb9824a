import Mathlib.Data.Set.Card
import Mathlib.Tactic.Ring
import RecordLinkage.Proofs.MatchKey.Cache

/-!
# The history of a cache

Whoever asks a cache for methods cannot tell it from setting up a method each time, except by the
numbers: a method has the number of an earlier answer when it is that very method. The history says
when this is so. The last answer that was given for a match key stands until somebody drops the
methods of that match key, or all methods; it is given again as long as the same is asked for, and a
question that fails does not count.

Each entry was set up for the question that was answered with it first. Later questions had
parameters that compare as the same, which is enough because comparison is an equivalence.
-/

namespace RecordLinkage

/-! ## Comparison is an equivalence -/

theorem Number.Double.same_trans {a b c : Number.Double} (h : a.same b = true)
    (h' : b.same c = true) : a.same c = true := by
  rw [same, beq_iff_eq] at h h' ⊢
  have hpos : (b.denominator : ℤ) ≠ 0 := by
    rw [denominator]
    exact_mod_cast (Nat.pow_pos two_pos).ne'
  refine mul_right_cancel₀ hpos ?_
  calc a.signedNumerator * c.denominator * b.denominator
      = a.signedNumerator * b.denominator * c.denominator := by ring
    _ = b.signedNumerator * c.denominator * a.denominator := by rw [h]; ring
    _ = c.signedNumerator * a.denominator * b.denominator := by rw [h']; ring

namespace JsonNumber

theorem same_comm (a b : JsonNumber) : a.same b = b.same a := by
  cases a <;> cases b
  · exact Bool.beq_comm
  · rfl
  · rfl
  · exact Number.Double.same_comm _ _

theorem same_trans {a b c : JsonNumber} (h : a.same b = true) (h' : b.same c = true) :
    a.same c = true := by
  cases a <;> cases b <;> cases c <;> first | cases h | cases h' | skip
  · rw [same, beq_iff_eq] at h h' ⊢
    exact h.trans h'
  · exact Number.Double.same_trans h h'

end JsonNumber

namespace Json

mutual

theorem same_comm : ∀ a b : Json, same a b = same b a
  | null, b => by cases b <;> rfl
  | bool a, b => by
    cases b with
    | bool b => exact Bool.beq_comm
    | _ => rfl
  | number a, b => by
    cases b with
    | number b => exact a.same_comm b
    | _ => rfl
  | string a, b => by
    cases b with
    | string b => exact Bool.beq_comm
    | _ => rfl
  | array a, b => by
    cases b with
    | array b => rw [same, same, sameItems_comm a b]
    | _ => rfl
  | object a, b => by
    cases b with
    | object b => rw [same, same, sameFields_comm a b]
    | _ => rfl

theorem sameItems_comm : ∀ as bs : List Json, sameItems as bs = sameItems bs as
  | [], [] => rfl
  | [], _ :: _ => rfl
  | _ :: _, [] => rfl
  | a :: as, b :: bs => by rw [sameItems, sameItems, same_comm a b, sameItems_comm as bs]

theorem sameFields_comm : ∀ as bs : List (String × Json), sameFields as bs = sameFields bs as
  | [], [] => rfl
  | [], _ :: _ => rfl
  | _ :: _, [] => rfl
  | (k, a) :: as, (l, b) :: bs => by
    rw [sameFields, sameFields, same_comm a b, sameFields_comm as bs, Bool.beq_comm]

end

mutual

theorem same_trans : ∀ (a : Json) {b c : Json}, same a b = true → same b c = true →
    same a c = true
  | null, b, c, h, h' => by cases b <;> first | exact h' | cases h
  | bool a, b, c, h, h' => by
    cases b with
    | bool b =>
      obtain rfl : a = b := by simpa [same] using h
      exact h'
    | _ => cases h
  | number a, b, c, h, h' => by
    cases b with
    | number b =>
      cases c with
      | number c => exact JsonNumber.same_trans (b := b) h h'
      | _ => cases h'
    | _ => cases h
  | string a, b, c, h, h' => by
    cases b with
    | string b =>
      obtain rfl : a = b := by simpa [same] using h
      exact h'
    | _ => cases h
  | array a, b, c, h, h' => by
    cases b with
    | array b =>
      cases c with
      | array c =>
        rw [same] at h h' ⊢
        exact sameItems_trans a h h'
      | _ => cases h'
    | _ => cases h
  | object a, b, c, h, h' => by
    cases b with
    | object b =>
      cases c with
      | object c =>
        rw [same] at h h' ⊢
        exact sameFields_trans a h h'
      | _ => cases h'
    | _ => cases h

theorem sameItems_trans : ∀ (as : List Json) {bs cs : List Json}, sameItems as bs = true →
    sameItems bs cs = true → sameItems as cs = true
  | [], [], _, _, h' => h'
  | a :: as, b :: bs, c :: cs, h, h' => by
    rw [sameItems, Bool.and_eq_true] at h h' ⊢
    exact ⟨same_trans a h.1 h'.1, sameItems_trans as h.2 h'.2⟩

theorem sameFields_trans : ∀ (as : List (String × Json)) {bs cs : List (String × Json)},
    sameFields as bs = true → sameFields bs cs = true → sameFields as cs = true
  | [], [], _, _, h' => h'
  | (k, a) :: as, (l, b) :: bs, (m, c) :: cs, h, h' => by
    rw [sameFields, Bool.and_eq_true, Bool.and_eq_true, beq_iff_eq] at h h' ⊢
    exact ⟨⟨h.1.1.trans h'.1.1, same_trans a h.1.2 h'.1.2⟩, sameFields_trans as h.2 h'.2⟩

end

end Json

namespace MethodCache

/-! ## What is asked and answered -/

/-- Something that is asked of a cache. -/
inductive Request where
  | get (tenant : TenantId) (k : MatchKey)
  | purge (tenant : TenantId) (id : String)
  | purgeAll

/-- A request and its answer. -/
inductive Event where
  | got (tenant : TenantId) (k : MatchKey) (answer : Except Fault MethodInstance)
  | purged (tenant : TenantId) (id : String) (present : Bool)
  | purgedAll

/-- A request is about a match key of a tenant. -/
def Request.Concerns (key : TenantId × String) : Request → Prop
  | get tenant k => (tenant, k.id) = key
  | purge tenant id => (tenant, id) = key
  | purgeAll => True

/-- Answers a request. -/
def perform (c : MethodCache) : Request → Event × MethodCache
  | .get tenant k => (.got tenant k (c.get tenant k).1, (c.get tenant k).2)
  | .purge tenant id => (.purged tenant id (c.purge tenant id).1, (c.purge tenant id).2)
  | .purgeAll => (.purgedAll, c.purgeAll)

/-- The history of an empty cache that answers some requests, the last one first, and the cache
after them. -/
def session (requests : List Request) : List Event × MethodCache :=
  requests.foldl (fun s r ↦ ((s.2.perform r).1 :: s.1, (s.2.perform r).2)) ([], .empty)

theorem session_concat (requests : List Request) (r : Request) :
    session (requests ++ [r]) = (((session requests).2.perform r).1 :: (session requests).1,
      ((session requests).2.perform r).2) := by
  rw [session, List.foldl_append]
  rfl

/-- The answer that stands for a match key: the last one that was given for it, with the match key
as it was then, unless it was dropped since. -/
def standing? (key : TenantId × String) : List Event → Option (MatchKey × MethodInstance)
  | [] => none
  | .got tenant k (.ok kept) :: earlier =>
    if (tenant, k.id) = key then some (k, kept) else standing? key earlier
  | .got _ _ (.error _) :: earlier => standing? key earlier
  | .purged tenant id _ :: earlier => if (tenant, id) = key then none else standing? key earlier
  | .purgedAll :: _ => none

theorem got_of_standing? {key : TenantId × String} {k : MatchKey} {kept : MethodInstance}
    {events : List Event} (h : standing? key events = some (k, kept)) :
    .got key.1 k (.ok kept) ∈ events ∧ k.id = key.2 := by
  induction events with
  | nil => cases h
  | cons e earlier ih =>
    rcases e with ⟨tenant, k', f | kept'⟩ | ⟨tenant, id, present⟩ | -
    · exact (ih h).imp_left (List.mem_cons_of_mem _)
    · rw [standing?] at h
      split_ifs at h with hkey
      · obtain ⟨rfl, rfl⟩ := Prod.mk.inj (Option.some.inj h)
        rw [← hkey]
        exact ⟨List.mem_cons_self, rfl⟩
      · exact (ih h).imp_left (List.mem_cons_of_mem _)
    · rw [standing?] at h
      split_ifs at h with hkey
      exact (ih h).imp_left (List.mem_cons_of_mem _)
    · cases h

/-! ## Entries -/

variable {c : MethodCache} {tenant : TenantId} {k : MatchKey} {key : TenantId × String}
  {e : Entry} {m : Method} {f : Fault} {kept : MethodInstance} {events : List Event}

theorem get_of_fits (hentry : c.entry? (tenant, k.id) = some e) (hfits : e.fits k = true) :
    c.get tenant k = (.ok e.kept, c) := by
  rw [get, hentry]
  exact if_pos hfits

theorem get_of_not_fits (h : ∀ e, c.entry? (tenant, k.id) = some e → e.fits k = false) :
    c.get tenant k = c.build (tenant, k.id) k := by
  rw [get]
  rcases hentry : c.entry? (tenant, k.id) with - | e
  · rfl
  · simp [h e hentry]

theorem get_snd_of_error (h : (c.get tenant k).1 = .error f) : (c.get tenant k).2 = c := by
  rcases c.get_cases tenant k with ⟨e, -, -, hget⟩ | hget
  · rw [hget]
  · rw [hget] at h ⊢
    rw [build] at h ⊢
    rcases hcreate : k.createMethod with f' | m
    · rfl
    · rw [hcreate] at h
      cases h

theorem entry_without (key : TenantId × String) (created : ℕ) (key' : TenantId × String) :
    entry? ⟨c.without key, created⟩ key' = if key = key' then none else c.entry? key' := by
  rw [without, entry?, List.find?_filter]
  split_ifs with hkey
  · subst hkey
    rw [Option.map_eq_none_iff, List.find?_eq_none]
    simp
  · refine congrArg (Option.map _) (congrArg (List.find? · c.entries) (funext fun e ↦ ?_))
    by_cases he : e.1 = key'
    · simp [he, Ne.symm hkey]
    · simp [he]

theorem entry_cons (key : TenantId × String) (e : Entry) (created : ℕ)
    (key' : TenantId × String) :
    entry? ⟨(key, e) :: c.without key, created⟩ key' = if key = key' then some e
      else c.entry? key' := by
  have hrest := entry_without (c := c) key created key'
  unfold entry? at hrest ⊢
  rw [List.find?_cons]
  split_ifs with hkey
  · simp [hkey]
  · rw [if_neg hkey] at hrest
    simpa [hkey] using hrest

/-! ## The cache and its history -/

/-- A history tells what a cache keeps. -/
structure Reflects (c : MethodCache) (events : List Event) : Prop where
  /-- A match key has one entry at most. -/
  nodup : (c.entries.map Prod.fst).Nodup
  /-- What is kept for a match key is the answer that stands, for parameters that compare as the
  same. -/
  entry : ∀ key, Option.Rel (fun e s ↦ e.kept = s.2 ∧ e.methodName = s.1.method ∧
    e.params.same s.1.params = true) (c.entry? key) (standing? key events)
  /-- The number that comes next is new. -/
  serial_lt : ∀ tenant k kept, .got tenant k (.ok kept) ∈ events → kept.serial < c.created

namespace Reflects

theorem empty : Reflects .empty [] where
  nodup := List.nodup_nil
  entry _ := .none
  serial_lt _ _ _ h := absurd h List.not_mem_nil

/-- An entry fits a match key when the answer that stands was for the same method and parameters. -/
theorem exists_fits_iff (h : c.Reflects events) {kept : MethodInstance} :
    (∃ e, c.entry? (tenant, k.id) = some e ∧ e.fits k = true ∧ e.kept = kept) ↔
      ∃ k', standing? (tenant, k.id) events = some (k', kept) ∧ k'.method = k.method ∧
        k'.params.same k.params = true := by
  have hrel := h.entry (tenant, k.id)
  constructor
  · rintro ⟨e, hentry, hfits, rfl⟩
    rw [hentry] at hrel
    rcases hstanding : standing? (tenant, k.id) events with - | ⟨k', kept'⟩
    · rw [hstanding] at hrel
      cases hrel
    · rw [hstanding] at hrel
      obtain ⟨rfl, hname, hparams⟩ := Option.rel_some_some.mp hrel
      rw [Entry.fits, Bool.and_eq_true, decide_eq_true_iff] at hfits
      refine ⟨k', rfl, hname.symm.trans hfits.1, Json.same_trans _ ?_ hfits.2⟩
      rw [Json.same_comm]
      exact hparams
  · rintro ⟨k', hstanding, hname', hparams'⟩
    rw [hstanding] at hrel
    rcases hentry : c.entry? (tenant, k.id) with - | e
    · rw [hentry] at hrel
      cases hrel
    · rw [hentry] at hrel
      obtain ⟨hkept, hname, hparams⟩ := Option.rel_some_some.mp hrel
      refine ⟨e, rfl, ?_, hkept⟩
      rw [Entry.fits, Bool.and_eq_true, decide_eq_true_iff]
      exact ⟨hname.trans hname', Json.same_trans _ hparams hparams'⟩

/-- Numbers that were given out stay given out. -/
theorem serial_lt_of_le (h : c.Reflects events) {n : ℕ} (hn : c.created ≤ n) {event : Event}
    (hevent : ∀ tenant k kept, event = .got tenant k (.ok kept) → kept.serial < n) :
    ∀ tenant k kept, .got tenant k (.ok kept) ∈ event :: events → kept.serial < n := by
  intro tenant k kept hmem
  rcases List.mem_cons.mp hmem with heq | hmem
  · exact hevent tenant k kept heq.symm
  · exact (h.serial_lt tenant k kept hmem).trans_le hn

/-- A method that is set up takes the place of the one that was kept. -/
theorem built (h : c.Reflects events) (hcreate : k.createMethod = .ok m) :
    Reflects (c.build (tenant, k.id) k).2
      (.got tenant k (c.build (tenant, k.id) k).1 :: events) := by
  rw [build, hcreate]
  refine ⟨?_, fun key ↦ ?_, h.serial_lt_of_le (Nat.le_succ _) ?_⟩
  · refine List.nodup_cons.mpr ⟨?_, h.nodup.sublist (List.filter_sublist.map _)⟩
    simp [without]
  · rw [entry_cons, standing?]
    split_ifs with hkey
    · exact .some ⟨rfl, rfl, Json.same_self _⟩
    · exact h.entry key
  · rintro tenant' k' kept heq
    obtain rfl := Except.ok.inj (Event.got.inj heq).2.2
    exact Nat.lt_succ_self _

theorem get (h : c.Reflects events) (tenant : TenantId) (k : MatchKey) :
    Reflects (c.get tenant k).2 (.got tenant k (c.get tenant k).1 :: events) := by
  by_cases hfits : ∃ e, c.entry? (tenant, k.id) = some e ∧ e.fits k = true
  · obtain ⟨e, hentry, hfits⟩ := hfits
    rw [get_of_fits hentry hfits]
    refine ⟨h.nodup, fun key ↦ ?_, h.serial_lt_of_le le_rfl ?_⟩
    · rw [standing?]
      split_ifs with hkey
      · subst hkey
        rw [Entry.fits, Bool.and_eq_true, decide_eq_true_iff] at hfits
        rw [hentry]
        exact .some ⟨rfl, hfits⟩
      · exact h.entry key
    · -- The number was given out when the entry was set up.
      obtain ⟨k', hstanding, -⟩ := h.exists_fits_iff.mp ⟨e, hentry, hfits, rfl⟩
      rintro tenant' k'' kept heq
      obtain rfl := Except.ok.inj (Event.got.inj heq).2.2
      exact h.serial_lt _ _ _ (got_of_standing? hstanding).1
  · have hmiss : ∀ e, c.entry? (tenant, k.id) = some e → e.fits k = false := fun e hentry ↦
      Bool.eq_false_iff.mpr fun hfit ↦ hfits ⟨e, hentry, hfit⟩
    rw [get_of_not_fits hmiss]
    rcases hcreate : k.createMethod with f | m
    · have hbuild : c.build (tenant, k.id) k = (.error f, c) := by rw [build, hcreate]
      rw [hbuild]
      refine ⟨h.nodup, h.entry, h.serial_lt_of_le le_rfl ?_⟩
      rintro _ _ _ ⟨⟩
    · exact h.built hcreate

/-- **What a history tells stays right**, whatever is asked. -/
theorem perform (h : c.Reflects events) (r : Request) :
    Reflects (c.perform r).2 ((c.perform r).1 :: events) := by
  cases r with
  | get tenant k => exact h.get tenant k
  | purge tenant id =>
    refine ⟨h.nodup.sublist (List.filter_sublist.map _), fun key ↦ ?_,
      h.serial_lt_of_le le_rfl fun _ _ _ heq ↦ nomatch heq⟩
    change Option.Rel _ (MethodCache.entry? ⟨c.without (tenant, id), c.created⟩ key) _
    rw [entry_without, MethodCache.perform, standing?]
    split_ifs
    · exact .none
    · exact h.entry key
  | purgeAll =>
    exact ⟨List.nodup_nil, fun _ ↦ .none, h.serial_lt_of_le le_rfl fun _ _ _ heq ↦ nomatch heq⟩

theorem isSome_entry (h : c.Reflects events) (key : TenantId × String) :
    (c.entry? key).isSome = (standing? key events).isSome := by
  have hrel := h.entry key
  generalize c.entry? key = e, standing? key events = s at hrel
  cases hrel <;> rfl

/-- As many methods are kept as answers stand. -/
theorem encard_standing (h : c.Reflects events) :
    {key | (standing? key events).isSome}.encard = c.size := by
  classical
  have hset :
      {key | (standing? key events).isSome} = ((c.entries.map Prod.fst).toFinset : Set _) := by
    ext key
    rw [Set.mem_ofPred_eq, ← h.isSome_entry key, entry?, Option.isSome_map, List.find?_isSome]
    simp
  rw [hset, Set.encard_coe_eq_coe_finsetCard, List.toFinset_card_of_nodup h.nodup,
    List.length_map, size]

end Reflects

theorem reflects_session (requests : List Request) :
    (session requests).2.Reflects (session requests).1 := by
  -- The cache has answered the last request last, so requests are taken off at the end.
  induction requests using List.reverseRecOn with
  | nil => exact .empty
  | append_singleton requests r ih =>
    rw [session_concat]
    exact ih.perform r

theorem made_session (requests : List Request) : (session requests).2.Made := by
  induction requests using List.reverseRecOn with
  | nil => exact .empty
  | append_singleton requests r ih =>
    rw [session_concat]
    cases r with
    | get tenant k => exact ih.get tenant k
    | purge tenant id => exact ih.purge tenant id
    | purgeAll => exact ih.purgeAll

/-- What is kept for other match keys is not touched. -/
theorem entry_perform (c : MethodCache) {r : Request} (hkey : ¬r.Concerns key) :
    MethodCache.entry? (c.perform r).2 key = c.entry? key := by
  cases r with
  | get tenant k =>
    rw [perform]
    rcases c.get_cases tenant k with ⟨e, -, -, hget⟩ | hget
    · rw [hget]
    · rw [hget, build]
      rcases k.createMethod with f | m
      · rfl
      · exact (entry_cons ..).trans (if_neg hkey)
  | purge tenant id => exact (entry_without ..).trans (if_neg hkey)
  | purgeAll => exact absurd trivial hkey

/-- What can be seen of a cache after some history. -/
structure Transparent (events : List Event) (c : MethodCache) : Prop where
  /-- The answer is the method that would be set up, or the fault. -/
  get : ∀ tenant k, (c.get tenant k).1.map MethodInstance.method = k.createMethod
  /-- An answer is one that was given before for the match key exactly when it is the one that
  stands, and the method and the parameters are the same. -/
  again : ∀ tenant k kept, (c.get tenant k).1 = .ok kept →
    ((∃ k' kept', .got tenant k' (.ok kept') ∈ events ∧ k'.id = k.id ∧
        kept'.serial = kept.serial) ↔
      ∃ k', standing? (tenant, k.id) events = some (k', kept) ∧ k'.method = k.method ∧
        k'.params.same k.params = true)
  /-- What fails changes nothing. -/
  failed : ∀ tenant k f, (c.get tenant k).1 = .error f → (c.get tenant k).2 = c
  /-- Dropping a method says whether there was one. -/
  purge : ∀ tenant id, (c.purge tenant id).1 = (standing? (tenant, id) events).isSome
  /-- Other match keys are not touched. -/
  others : ∀ (r : Request) key, ¬r.Concerns key →
    MethodCache.entry? (c.perform r).2 key = c.entry? key
  /-- As many methods are kept as answers stand. -/
  size : {key | (standing? key events).isSome}.encard = c.size

/-- **A cache is transparent.** Whatever was asked of it before, it answers with the method that
would be set up, and gives an earlier answer again exactly when that is the last one for the match
key, was not dropped since, and was for the same method and parameters. -/
theorem cache_transparent (requests : List Request) :
    Transparent (session requests).1 (session requests).2 := by
  have h := reflects_session requests
  generalize hc : (session requests).2 = c, (session requests).1 = events at h
  have hmade : c.Made := hc ▸ made_session requests
  refine ⟨hmade.get_method, fun tenant k kept hget ↦ ⟨?_, ?_⟩, fun _ _ _ ↦ get_snd_of_error,
    fun tenant id ↦ h.isSome_entry (tenant, id), fun r key ↦ c.entry_perform,
    h.encard_standing⟩
  · rintro ⟨k', kept', hgot, -, hserial⟩
    by_cases hfits : ∃ e, c.entry? (tenant, k.id) = some e ∧ e.fits k = true
    · obtain ⟨e, hentry, hfits⟩ := hfits
      rw [get_of_fits hentry hfits] at hget
      exact h.exists_fits_iff.mp ⟨e, hentry, hfits, Except.ok.inj hget⟩
    · -- A method that was just set up has a number of its own.
      have hmiss : ∀ e, c.entry? (tenant, k.id) = some e → e.fits k = false := fun e hentry ↦
        Bool.eq_false_iff.mpr fun hfit ↦ hfits ⟨e, hentry, hfit⟩
      rw [get_of_not_fits hmiss, build] at hget
      rcases hcreate : k.createMethod with f | m
      · rw [hcreate] at hget
        cases hget
      · rw [hcreate] at hget
        obtain rfl := Except.ok.inj hget
        exact absurd hserial (h.serial_lt _ _ _ hgot).ne
  · rintro ⟨k', hstanding, -, -⟩
    obtain ⟨hgot, hid⟩ := got_of_standing? hstanding
    exact ⟨k', kept, hgot, hid, rfl⟩

end MethodCache

end RecordLinkage
