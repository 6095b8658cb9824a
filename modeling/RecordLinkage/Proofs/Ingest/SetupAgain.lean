import RecordLinkage.Proofs.History.Runs
import RecordLinkage.Proofs.Ingest.Sequence
import RecordLinkage.Proofs.Ingest.Setup
import RecordLinkage.Proofs.MatchKey.Cache

/-!
# Setting up the same ingester again

An ingester takes its methods from the cache, so a second one could differ from the first one
because of what was kept in between. It does not: the cache answers with the methods that would be
set up, and what would be set up is read off the match keys. So the same request gives the same
ingester as long as the match keys are the same.

Carrying out submissions uses the methods that the ingester has, and leaves the cache alone. So they
are all kept when the ingester is set up once more, and nothing happens at all then.
-/

namespace RecordLinkage

open Clustering

variable {s : World}

/-! ## Work that uses no method -/

namespace Work

variable {α β : Type} {w : Work α}

/-- Work that leaves the cache alone. -/
def Uncached (w : Work α) : Prop := Respects (fun s s' ↦ s'.cache = s.cache) w

namespace Uncached

theorem pure (a : α) : Uncached (Pure.pure a : Work α) := fun _ ↦ rfl

theorem fail (f : Fault) : Uncached (Work.fail f : Work α) := fun _ ↦ rfl

theorem ofExcept (x : Except Fault α) : Uncached (Work.ofExcept x) := by
  intro s
  rw [go_ofExcept]

theorem query (q : Tables → Except Fault α) : Uncached (Work.query q) := by
  intro s
  rw [go_query]

theorem mint : Uncached Work.mint := fun _ ↦ rfl

theorem change (f : Tables → Tables) : Uncached (Work.change f) := fun _ ↦ rfl

theorem statement (st : Statement α) : Uncached (Work.statement st) := by
  intro s
  rw [go_statement]
  rcases st s.tables with f | ⟨a, t⟩ <;> rfl

theorem bind {f : α → Work β} (hw : Uncached w) (hf : ∀ a, Uncached (f a)) :
    Uncached (w >>= f) := by
  intro s
  have hs := hw s
  rw [go_bind]
  rcases hgo : w.go s with ⟨e | a, s'⟩
  · rwa [hgo] at hs
  · rw [hgo] at hs
    exact (hf a s').trans hs

theorem forM {f : β → Work Unit} (xs : List β) (hf : ∀ x, Uncached (f x)) :
    Uncached (xs.forM f) := by
  induction xs with
  | nil => exact pure ()
  | cons x rest ih => exact bind (hf x) fun _ ↦ ih

theorem atomically (hw : Uncached w) : Uncached (Work.atomically w) := by
  intro s
  have hs := hw s
  rw [go_atomically]
  rcases hgo : w.go s with ⟨e | a, s'⟩
  · rwa [hgo] at hs
  · rwa [hgo] at hs

theorem outcome (hw : Uncached w) : Uncached (Work.outcome w) := fun s ↦ hw s

theorem transaction (hw : Uncached w) (access : Access) : Uncached (Work.transaction access w) :=
  bind (ofExcept _) fun _ ↦ hw.atomically

theorem retry (hw : Uncached w) (retries : Nat) :
    Uncached (ExceptT.mk (RecordLinkage.retry retries fun _ ↦ w.run)) := by
  change ∀ s, (retryFrom (fun _ ↦ w.run) 0 retries s).2.cache = s.cache
  generalize 0 = attempt
  -- A retry starts from where the attempt before it failed, whatever its number.
  induction retries generalizing attempt with
  | zero => exact hw
  | succ left ih =>
    intro s
    have hs := hw s
    rw [retryFrom_succ]
    rcases hgo : w.go s with ⟨f | a, s'⟩
    · rw [hgo] at hs
      dsimp only
      split_ifs
      · exact (ih (attempt + 1) s').trans hs
      · exact hs
    · rwa [hgo] at hs

end Uncached

end Work

open Work

theorem Clustering.uncached_assign (now : Datestamp) (r : RecordId) (config : String)
    (values : List String) : Uncached (assign now r config values) := by
  refine .bind (.bind (.query _) fun _ ↦ .bind (.query _) fun _ ↦ .pure _) fun found ↦ ?_
  rw [settle_eq]
  refine .bind ?_ fun a ↦ .bind ?_ fun _ ↦ .pure _
  · rw [gather]
    split
    · exact .bind .mint fun _ ↦ .bind (.statement _) fun _ ↦ .pure _
    · exact .bind (.change _) fun _ ↦ .bind (.change _) fun _ ↦ .pure _
  · refine .bind ?_ fun _ ↦ .bind (.forM _ fun _ ↦ .statement _) fun _ ↦ .statement _
    rw [leave]
    split
    · split_ifs
      · exact .change _
      · exact .pure ()
    · exact .pure ()

namespace Ingester

theorem uncached_store (i : Ingester) (now : Datestamp) (localId : String) (payload : Json) :
    Uncached (i.store now localId payload) := by
  refine .bind .mint fun _ ↦ .bind (.statement _) fun _ ↦ .bind (.ofExcept _) fun record ↦ ?_
  refine .bind (.forM _ fun ⟨k, method⟩ ↦ ?_) fun _ ↦ .pure _
  exact .bind (.ofExcept _) fun values ↦ .bind (uncached_assign _ _ _ _) fun _ ↦ .pure _

theorem uncached_ingest (i : Ingester) (now : Datestamp) (submission : Submission) :
    Uncached (i.ingest now submission) := by
  refine .bind (.ofExcept _) fun localId ↦ ?_
  split_ifs
  · exact .fail _
  · refine .retry ?_ i.retries
    rw [attempt_eq]
    refine .transaction ?_ i.access
    rw [act]
    split_ifs
    · exact .bind (.statement _) fun _ ↦ .pure _
    · split
      · exact i.uncached_store now localId _
      · exact .fail _

theorem cache_carry (i : Ingester) (now : Datestamp) (submissions : List Submission) (s : World) :
    (i.carry now submissions s).2.cache = s.cache := by
  induction submissions generalizing s with
  | nil => rfl
  | cons submission rest ih =>
    rw [carry_cons]
    exact (ih _).trans (i.uncached_ingest now submission s)

/-! ## Ingesters from match keys -/

/-- A match key with its method, set up. -/
def withMethod (k : MatchKey) : Except Fault (MatchKey × Method) := k.createMethod.map (k, ·)

/-- The ingester that is set up when no method is kept. -/
def design (access : Access) (request : IngestRequest) (settings : IngestSettings)
    (t : Tables) : Except Fault Ingester := do
  let localIdPath ← extractor? request.localIdPath
  let all ← t.listMatchKeys
  let keys ← (all.filter MatchKey.isAutomatic).mapM withMethod
  return {
    access
    source := request.source
    version := request.version
    localIdPath
    keys
    limit := settings.matchValueMaxLength
    retries := settings.retries }

theorem design_congr {t t' : Tables} (h : t'.matchKeys = t.matchKeys) (access : Access)
    (request : IngestRequest) (settings : IngestSettings) :
    design access request settings t' = design access request settings t := by
  simp only [design, Tables.listMatchKeys, h]

/-- The methods that the cache answers with are those that would be set up. -/
private theorem go_takeMethods (hcache : s.cache.Made) (tenant : TenantId)
    (keys : List MatchKey) : ∃ c : MethodCache, c.Made ∧
      go (keys.mapM fun k ↦ do
        let kept ← Work.method tenant k
        return (k, kept.method)) s
        = (keys.mapM withMethod, { s with cache := c }) := by
  induction keys generalizing s with
  | nil => exact ⟨s.cache, hcache, rfl⟩
  | cons k rest ih =>
    -- Taking a method changes what is kept, but only methods that would be set up are kept.
    have hmade : (s.cache.get tenant k).2.Made := hcache.get tenant k
    obtain ⟨c, hc, hgo⟩ := ih (s := { s with cache := (s.cache.get tenant k).2 }) hmade
    rw [List.mapM_cons, List.mapM_cons, withMethod, ← hcache.get_method tenant k, go_bind, go_bind,
      go_method]
    rcases (s.cache.get tenant k).1 with f | kept
    · exact ⟨_, hmade, rfl⟩
    · refine ⟨c, hc, ?_⟩
      simp only [go_pure, go_bind, hgo]
      rcases rest.mapM withMethod with f | found <;> rfl

/-- **What is set up is read off the match keys.** -/
theorem go_create (hcache : s.cache.Made) (access : Access) (tenant : TenantId)
    (request : IngestRequest) (settings : IngestSettings) : ∃ c : MethodCache, c.Made ∧
      (create access tenant request settings).go s
        = (design access request settings s.tables, { s with cache := c }) := by
  rw [create, design]
  rcases extractor? request.localIdPath with f | path
  · refine ⟨s.cache, hcache, ?_⟩
    rw [go_bind, go_ofExcept]
    rfl
  rcases hall : s.tables.listMatchKeys with f | all
  · refine ⟨s.cache, hcache, ?_⟩
    simp only [go_bind, go_ofExcept, go_query, hall]
    rfl
  · obtain ⟨c, hc, hgo⟩ := go_takeMethods hcache tenant (all.filter MatchKey.isAutomatic)
    refine ⟨c, hc, ?_⟩
    simp only [go_bind, go_ofExcept, go_query, hall, hgo]
    simp only [bind, Except.bind]
    rcases (all.filter MatchKey.isAutomatic).mapM withMethod with f | keys <;> rfl

/-! ## Once more -/

/-- Takes the method of a match key. -/
private def takeMethod (tenant : TenantId) (k : MatchKey) : Work (MatchKey × Method) := do
  let kept ← Work.method tenant k
  return (k, kept.method)

variable {tenant : TenantId} {k : MatchKey} {m : Method} {keys : List MatchKey}
  {found : List (MatchKey × Method)} {s' : World}

private theorem takeMethod_ok {p : MatchKey × Method}
    (hgo : (takeMethod tenant k).go s = (.ok p, s')) :
    p.1 = k ∧ s' = { s with cache := (s.cache.get tenant k).2 } ∧
      s'.cache.Keeps tenant k p.2 := by
  obtain ⟨kept, s₁, hmethod, hgo⟩ := go_bind_ok.mp hgo
  obtain ⟨hp, rfl⟩ := Prod.mk.inj hgo
  rw [go_method, Prod.mk.injEq] at hmethod
  obtain ⟨hget, rfl⟩ := hmethod
  rw [← Except.ok.inj hp]
  exact ⟨rfl, rfl, MethodCache.keeps_of_get (Prod.ext hget rfl)⟩

private theorem takeMethods_ok (hgo : (keys.mapM (takeMethod tenant)).go s = (.ok found, s')) :
    ∃ c, s' = { s with cache := c } := by
  induction keys generalizing s found with
  | nil => exact ⟨s.cache, (Prod.mk.inj hgo).2.symm⟩
  | cons first rest ih =>
    obtain ⟨p, s₁, found', hfirst, hrest, rfl⟩ := go_mapM_cons_ok.mp hgo
    obtain ⟨c, hc⟩ := ih hrest
    rw [(takeMethod_ok hfirst).2.1] at hc
    exact ⟨c, hc⟩

/-- Methods of other match keys do not displace one. -/
private theorem keeps_takeMethods (hgo : (keys.mapM (takeMethod tenant)).go s = (.ok found, s'))
    (hother : k.id ∉ keys.map MatchKey.id) (h : s.cache.Keeps tenant k m) :
    s'.cache.Keeps tenant k m := by
  induction keys generalizing s found with
  | nil =>
    obtain ⟨-, rfl⟩ := Prod.mk.inj hgo
    exact h
  | cons first rest ih =>
    obtain ⟨p, s₁, found', hfirst, hrest, rfl⟩ := go_mapM_cons_ok.mp hgo
    rw [List.map_cons, List.mem_cons, not_or] at hother
    refine ih hrest hother.2 ?_
    rw [(takeMethod_ok hfirst).2.1]
    exact h.get_other hother.1

/-- Methods that were taken for different match keys are all kept. -/
private theorem forall₂_keeps (hnodup : (keys.map MatchKey.id).Nodup)
    (hgo : (keys.mapM (takeMethod tenant)).go s = (.ok found, s')) :
    List.Forall₂ (fun k p ↦ p.1 = k ∧ s'.cache.Keeps tenant k p.2) keys found := by
  induction keys generalizing s found with
  | nil =>
    obtain ⟨hfound, -⟩ := Prod.mk.inj hgo
    rw [← Except.ok.inj hfound]
    exact .nil
  | cons first rest ih =>
    obtain ⟨p, s₁, found', hfirst, hrest, rfl⟩ := go_mapM_cons_ok.mp hgo
    obtain ⟨hnew, hnodup⟩ := List.nodup_cons.mp hnodup
    obtain ⟨hkey, -, hkeeps⟩ := takeMethod_ok hfirst
    exact .cons ⟨hkey, keeps_takeMethods hrest hnew hkeeps⟩ (ih hnodup hrest)

/-- Methods that are kept are taken without setting anything up. -/
private theorem go_takeMethods_of_keeps
    (h : List.Forall₂ (fun k p ↦ p.1 = k ∧ s.cache.Keeps tenant k p.2) keys found) :
    (keys.mapM (takeMethod tenant)).go s = (.ok found, s) := by
  induction h with
  | nil => rfl
  | @cons k p rest found hfirst _ ih =>
    obtain ⟨rfl, hkeeps⟩ := hfirst
    obtain ⟨kept, hget, hmethod⟩ := hkeeps.get
    have htake : (takeMethod tenant p.1).go s = (.ok p, s) := by
      rw [takeMethod, go_bind, go_method, hget]
      simp only [go_pure, hmethod]
    rw [List.mapM_cons, go_bind, htake]
    simp only [go_bind, ih, go_pure]

section Create

variable {access : Access} {request : IngestRequest} {settings : IngestSettings} {i : Ingester}

/-- An ingester that is set up has taken its methods, one after the other. -/
private theorem takeMethods_of_create
    (hcreate : (create access tenant request settings).go s = (.ok i, s')) :
    ∃ path all found, extractor? request.localIdPath = .ok path ∧
      s.tables.listMatchKeys = .ok all ∧
      ((all.filter MatchKey.isAutomatic).mapM (takeMethod tenant)).go s = (.ok found, s') ∧
      i = ⟨access, request.source, request.version, path, found, settings.matchValueMaxLength,
        settings.retries⟩ := by
  obtain ⟨path, s₂, hpath, hgo⟩ := go_bind_ok.mp hcreate
  rw [go_ofExcept, Prod.mk.injEq] at hpath
  obtain ⟨hpath, rfl⟩ := hpath
  obtain ⟨all, s₃, hall, hgo⟩ := go_bind_ok.mp hgo
  rw [go_query, Prod.mk.injEq] at hall
  obtain ⟨hall, rfl⟩ := hall
  obtain ⟨found, s₄, hfound, hgo⟩ := go_bind_ok.mp hgo
  obtain ⟨hi, rfl⟩ := Prod.mk.inj hgo
  exact ⟨path, all, found, hpath, hall, hfound, (Except.ok.inj hi).symm⟩

/-- Setting up an ingester writes nothing but the cache. -/
theorem exists_cache_of_create
    (hcreate : (create access tenant request settings).go s = (.ok i, s')) :
    ∃ c, s' = { s with cache := c } := by
  obtain ⟨_, _, _, -, -, hfound, -⟩ := takeMethods_of_create hcreate
  exact takeMethods_ok hfound

/-- **An ingester is set up once more without anything happening**, as long as the match keys and
what is kept are as the first time left them. -/
theorem create_again (hform : s.tables.Wellformed)
    (hcreate : (create access tenant request settings).go s = (.ok i, s')) {s₁ : World}
    (hkeys : s₁.tables.matchKeys = s.tables.matchKeys) (hcache : s₁.cache = s'.cache) :
    (create access tenant request settings).go s₁ = (.ok i, s₁) := by
  obtain ⟨path, all, found, hpath, hall, hfound, rfl⟩ := takeMethods_of_create hcreate
  have hnodup : ((all.filter MatchKey.isAutomatic).map MatchKey.id).Nodup :=
    (hform.names_nodup hall).sublist (List.filter_sublist.map _)
  have hkeeps := forall₂_keeps hnodup hfound
  rw [← hcache] at hkeeps
  have hall₁ : s₁.tables.listMatchKeys = .ok all := by
    rw [Tables.listMatchKeys, hkeys]
    exact hall
  have hfound₁ : ((all.filter MatchKey.isAutomatic).mapM fun k ↦ do
      let kept ← Work.method tenant k
      return (k, kept.method)).go s₁ = (.ok found, s₁) := go_takeMethods_of_keeps hkeeps
  rw [create, go_bind, go_ofExcept, hpath]
  dsimp only
  rw [go_bind, go_query, hall₁]
  dsimp only
  rw [go_bind, hfound₁]
  rfl

end Create

end Ingester

end RecordLinkage
