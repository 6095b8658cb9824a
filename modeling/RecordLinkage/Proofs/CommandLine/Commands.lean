import RecordLinkage.Proofs.CommandLine.Steps

/-!
# What commands do

Commands that look something up leave their surroundings alone. The others change one database, and
keep it usable: match keys are checked before they are stored, and what is stored comes from a text.

A command that fails has changed no database, unless it has ingested a batch. For most commands this
is because they are one piece of work that happens or does not. Computing a match key anew after it
was cleared is two; but once it was cleared the second cannot fail, and where there is no such match
key there was nothing to clear.
-/

namespace RecordLinkage.CommandLine

open Clustering Tables

variable {α β : Type} {c : Context} {s s' : Surroundings}

/-! ## Steps that leave their surroundings alone -/

namespace Step

/-- The step leaves its surroundings alone. -/
def Quiet (w : Step α) : Prop := ∀ s, (w.go s).2 = s

namespace Quiet

variable {w : Step α}

theorem pure (a : α) : Quiet (Pure.pure a : Step α) := fun _ ↦ rfl

theorem throw (f : Failure) : Quiet (MonadExcept.throw f : Step α) := fun _ ↦ rfl

theorem refuse (reason : String) : Quiet (Step.refuse reason : Step α) := fun _ ↦ rfl

theorem get : Quiet (MonadState.get : Step Surroundings) := fun _ ↦ rfl

theorem ofExcept (x : Except Fault α) : Quiet (Step.ofExcept x) := by
  intro s
  rw [go_ofExcept]

theorem require (value : Option α) (reason : String) : Quiet (Step.require value reason) := by
  cases value with
  | none => exact refuse reason
  | some a => exact pure a

theorem bind {f : α → Step β} (hw : Quiet w) (hf : ∀ a, Quiet (f a)) : Quiet (w >>= f) := by
  intro s
  have hs := hw s
  rw [go_bind]
  rcases hgo : w.go s with ⟨e | a, s₁⟩
  · rwa [hgo] at hs
  · rw [hgo] at hs
    exact (hf a s₁).trans hs

theorem optional (value : Option α) {f : α → Step β} (hf : ∀ a, Quiet (f a)) :
    Quiet (Step.optional value f) := by
  cases value with
  | none => exact pure none
  | some a => exact bind (hf a) fun b ↦ pure (some b)

/-- After a quiet step everything is as it was. -/
theorem eq (hw : Quiet w) {result : Except Failure α} (hgo : w.go s = (result, s')) : s' = s := by
  have hs := hw s
  rwa [hgo] at hs

end Quiet

end Step

open CommandLine.Step

theorem Context.quiet_create (i : Invocation) : Quiet (Context.create i) :=
  .bind .get fun _ ↦ .bind (.ofExcept _) fun _ ↦ .bind (.ofExcept _) fun _ ↦ .pure _

theorem Context.quiet_read (c : Context) (table : String) (q : Tables → Except Fault α) :
    Quiet (c.read table q) := by
  refine .bind (.bind .get fun s ↦ ?_) fun _ ↦ .ofExcept _
  split
  · exact .refuse _
  · exact .throw _
  · exact .throw _
  · exact .throw _
  · exact .pure _

/-- The parameters that were given. -/
def KeyForm.readParams (f : KeyForm) : Step Json :=
  match f.params, f.expr with
  | some text, _ => Step.require (Json.parse? text) "--params is not valid JSON"
  | none, some expr => pure (Json.object [("expr", .string expr)])
  | none, none => pure (Json.object [])

theorem KeyForm.toMatchKey_eq (f : KeyForm) : f.toMatchKey = (do
    let params ← f.readParams
    let key : MatchKey := ⟨f.id, f.method, params, f.update⟩
    Step.ofExcept key.validate
    return key) := by
  rw [toMatchKey, readParams]
  rcases f.params with - | text
  · rcases f.expr with - | expr <;> rfl
  · rfl

theorem KeyForm.quiet_readParams (f : KeyForm) : Quiet f.readParams := by
  rw [readParams]
  split
  · exact .require _ _
  · exact .pure _
  · exact .pure _

theorem KeyForm.quiet_toMatchKey (f : KeyForm) : Quiet f.toMatchKey := by
  rw [toMatchKey_eq]
  exact .bind f.quiet_readParams fun _ ↦ .bind (.ofExcept _) fun _ ↦ .pure _

/-- The parameters that were given are such as a text can give. -/
theorem KeyForm.storable_of_readParams {f : KeyForm} {params : Json}
    (h : f.readParams.go s = (.ok params, s')) : params.Storable := by
  rw [readParams] at h
  split at h
  · next text _ =>
    rcases hparse : Json.parse? text with - | v
    · rw [hparse] at h
      cases (Prod.mk.inj h).1
    · rw [hparse] at h
      obtain rfl := Except.ok.inj (Prod.mk.inj h).1
      exact Json.storable_of_parse hparse
  · next expr _ _ =>
    obtain rfl := Except.ok.inj (Prod.mk.inj h).1
    refine Json.fits_object.mpr ⟨by decide, List.pairwise_singleton _ _, fun field hfield ↦ ?_⟩
    rw [List.mem_singleton.mp hfield, Json.Fits]
    trivial
  · obtain rfl := Except.ok.inj (Prod.mk.inj h).1
    exact Json.fits_object.mpr ⟨by decide, List.Pairwise.nil, fun field hfield ↦ nomatch hfield⟩

/-- **A match key that was given is checked**, and its parameters come from a text. -/
theorem KeyForm.valid_of_toMatchKey {f : KeyForm} {key : MatchKey}
    (h : f.toMatchKey.go s = (.ok key, s')) : key.validate = .ok () ∧ key.params.Storable := by
  rw [toMatchKey_eq] at h
  obtain ⟨params, s₁, hparams, h⟩ := go_bind_ok.mp h
  obtain ⟨⟨⟩, s₂, hvalid, h⟩ := go_bind_ok.mp h
  obtain rfl := Except.ok.inj (Prod.mk.inj h).1
  refine ⟨?_, storable_of_readParams hparams⟩
  rw [go_ofExcept] at hvalid
  rcases hcheck : MatchKey.validate ⟨f.id, f.method, params, f.update⟩ with e | ⟨⟩
  · rw [hcheck] at hvalid
    cases (Prod.mk.inj hvalid).1
  · rfl

/-- A command that only looks something up. -/
def Command.IsReading : Command → Prop
  | .listKeys | .showKey _ | .showStats _ | .getCluster _ | .listChanged .. | .listRecords _
  | .showSettings => True
  | _ => False

theorem Command.quiet_run {command : Command} (h : command.IsReading) (c : Context) :
    Quiet (command.run c) := by
  cases command with
  | listKeys => exact .bind (c.quiet_read _ _) fun _ ↦ .pure _
  | showKey id =>
    refine .bind (c.quiet_read _ _) fun found ↦ ?_
    cases found with
    | none => exact .throw _
    | some key => exact .pure _
  | showStats id =>
    refine .bind (c.quiet_read _ _) fun found ↦ ?_
    cases found with
    | none => exact .throw _
    | some key => exact .bind (c.quiet_read _ _) fun _ ↦ .pure _
  | getCluster id =>
    refine .bind (.require _ _) fun cluster ↦ .bind (c.quiet_read _ _) fun found ↦ ?_
    cases found with
    | none => exact .throw _
    | some view => exact .pure _
  | listChanged key since place limit =>
    have hrest (since : Datestamp) : Quiet (Step.optional place (fun text ↦
        Step.require (ClusterId.ofText? text) ("invalid --after '" ++ text ++ "'")) >>= fun place ↦
          c.read markTable (fun t ↦ t.changedSince key since place limit) >>= fun marks ↦
            pure (shown (.array (marks.map ClusterMark.toJson)))) :=
      .bind (.optional _ fun _ ↦ .require _ _) fun _ ↦ .bind (c.quiet_read _ _) fun _ ↦ .pure _
    cases since with
    | none => exact .bind (.pure _) hrest
    | some text => exact .bind (.require _ _) hrest
  | listRecords source =>
    exact .bind (.optional _ fun _ ↦ .ofExcept _) fun _ ↦ .bind (c.quiet_read _ _) fun _ ↦ .pure _
  | showSettings => exact .pure _
  | _ => exact h.elim

/-! ## Databases that can be used -/

/-- Every database can be used. -/
def Surroundings.Usable (s : Surroundings) : Prop :=
  ∀ t, s.files.HasDatabase t → (⟨t, s.ids, .empty⟩ : World).Usable

/-- Databases that can be used stay so, as long as identifiers fit into their columns. -/
def Keeps (s s' : Surroundings) : Prop :=
  s.ids.next ≤ s'.ids.next ∧ (s'.ids.next ≤ idLimit → s.Usable → s'.Usable)

namespace Keeps

theorem refl (s : Surroundings) : Keeps s s := ⟨Nat.le_refl _, fun _ hu ↦ hu⟩

theorem trans {s'' : Surroundings} (h : Keeps s s') (h' : Keeps s' s'') : Keeps s s'' :=
  ⟨h.1.trans h'.1, fun hb hu ↦ h'.2 hb (h.2 (h'.1.trans hb) hu)⟩

end Keeps

/-- A database can be used as long as more identifiers are taken, and whatever is kept. -/
theorem usable_later {w w' : World} (h : w.Usable) (htables : w'.tables = w.tables)
    (hgrows : Grows w w') (hb : w'.ids.next ≤ idLimit) : w'.Usable :=
  (lasting_keepsUsable.idle htables hgrows).2 hb h

theorem Surroundings.Usable.start (h : s.Usable) (c : Context) : (c.start s).Usable := by
  have hstart : c.stored s.files = .empty ∨ s.files.HasDatabase (c.stored s.files) := by
    rw [Context.stored]
    split
    · next tables hnode => exact .inr (FileTree.hasDatabase_of_node? hnode)
    · exact .inl rfl
  rcases hstart with hempty | hthere
  · exact World.usable_of_empty hempty
  · exact h _ hthere

/-- The databases of a later moment are databases of an earlier one, empty, or one more that can be
used. -/
theorem keeps_of_hasDatabase (hgrows : s.ids.next ≤ s'.ids.next)
    (h : s'.ids.next ≤ idLimit → s.Usable → ∀ t, s'.files.HasDatabase t →
      s.files.HasDatabase t ∨ t = .empty ∨ (⟨t, s'.ids, .empty⟩ : World).Usable) :
    Keeps s s' := by
  refine ⟨hgrows, fun hb hu t ht ↦ ?_⟩
  rcases h hb hu t ht with hthere | rfl | hnew
  · exact usable_later (hu t hthere) rfl hgrows hb
  · exact World.usable_of_empty rfl
  · exact hnew

theorem keeps_of_spares (hgrows : s.ids.next ≤ s'.ids.next) (h : s.files.Spares s'.files) :
    Keeps s s' :=
  keeps_of_hasDatabase hgrows fun _ _ _ ht ↦ (h.hasDatabase ht).imp id .inl

/-- A step keeps databases usable. -/
def Step.Keeping (w : Step α) : Prop := ∀ s, Keeps s (w.go s).2

namespace Step

theorem Quiet.keeping {w : Step α} (hw : Quiet w) : w.Keeping := fun s ↦ (hw s).symm ▸ Keeps.refl s

/-- What comes after a step only has to do with answers that the step can have. -/
theorem Keeping.bind_of_ok {w : Step α} {f : α → Step β} (hw : w.Keeping)
    (hf : ∀ a, (∃ s s', w.go s = (.ok a, s')) → (f a).Keeping) : (w >>= f).Keeping := by
  intro s
  have hs := hw s
  rw [Step.go_bind]
  rcases hgo : w.go s with ⟨e | a, s₁⟩
  · rwa [hgo] at hs
  · rw [hgo] at hs
    exact hs.trans (hf a ⟨s, s₁, hgo⟩ s₁)

theorem Keeping.bind {w : Step α} {f : α → Step β} (hw : w.Keeping) (hf : ∀ a, (f a).Keeping) :
    (w >>= f).Keeping :=
  hw.bind_of_ok fun a _ ↦ hf a

end Step

/-- **Work that keeps its tables usable keeps all databases usable.** -/
theorem Context.keeping_write (c : Context) {w : Work α} (hw : Work.Respects KeepsUsable w) :
    (c.write w).Keeping := by
  intro s
  obtain ⟨hgrows, hkeep⟩ := hw (c.start s)
  by_cases hwritable : c.Writable s
  · obtain ⟨files, hgo, hwrote⟩ := c.go_write hwritable w
    rw [hgo]
    refine keeps_of_hasDatabase hgrows fun hb hu t ht ↦ ?_
    refine (hwrote.hasDatabase t ht).imp id (Or.imp id ?_)
    rintro rfl
    exact usable_later (hkeep hb (hu.start c)) rfl (Nat.le_refl _) hb
  · obtain ⟨f, s', hgo, hspares, hids⟩ := c.go_write_error hwritable w
    rw [hgo]
    refine keeps_of_spares ?_ hspares
    rcases hids with hids | hids
    · exact (congrArg IdSupply.next hids).ge
    · exact hids ▸ hgrows

/-! ## Commands keep databases usable -/

/-- The work of ingesting a batch. -/
def Context.batching (c : Context) (request : IngestRequest) (window : Option Nat)
    (schedule : Schedule) (now : Datestamp) (input : String) : Work BatchReport :=
  ingestBatch .free c.tenant request
    { c.settings.ingest with window := window.getD c.settings.ingest.window } schedule now
    input.toList

/-- What is said of a batch. -/
def batchAnswer (report : BatchReport) : Step String := do
  let summary ← Step.ofExcept report.result
  return shown summary.toJson

theorem ingest_eq (c : Context) (source : String) (version : Int) (path : Option String)
    (window : Option Nat) (file : String) :
    CommandLine.ingest c source version path window file = (do
      let source ← Step.ofExcept (SourceId.parse source)
      if window = some 0 then Step.refuse "--window must be at least 1"
      let s ← get
      let input ← Step.require (s.files.read? file) ("cannot read " ++ file)
      let report ← c.write (c.batching ⟨source, version, path⟩ window s.schedule s.now input)
      batchAnswer report) := by
  simp only [CommandLine.ingest, Context.write, bind_assoc]
  rfl

/-- The work of clearing a match key. -/
def clearWork (id : String) : Work Unit := Work.change fun t ↦ t.clear id

/-- The work of computing a match key anew. -/
def Context.rebuilding (c : Context) (id : String) (now : Datestamp) : Work (Option ReindexStats) :=
  rebuild .free c.handle id c.settings.ingest.matchValueMaxLength now

/-- What is said of a match key that was computed anew. -/
def rebuildAnswer (id : String) : Option ReindexStats → Step String
  | some stats => return shown stats.toJson
  | none => throw (.fault (missingKey id))

theorem initKey_eq (c : Context) (id : String) (clean : Bool) : initKey c id clean = (do
    let s ← get
    if clean then c.write (clearWork id)
    let stats ← c.write (c.rebuilding id s.now)
    rebuildAnswer id stats) := by
  cases clean <;> rfl

theorem quiet_batchAnswer (report : BatchReport) : Quiet (batchAnswer report) :=
  .bind (.ofExcept _) fun _ ↦ .pure _

theorem quiet_rebuildAnswer (id : String) (stats : Option ReindexStats) :
    Quiet (rebuildAnswer id stats) := by
  cases stats with
  | none => exact .throw _
  | some stats => exact .pure _

/-- The settings are written as a text. -/
theorem hasDatabase_of_init {files files' : FileTree} {home path : String} {t : Tables}
    (h : Settings.init files home = .ok (path, files')) (ht : files'.HasDatabase t) :
    files.HasDatabase t := by
  rw [Settings.init] at h
  split at h
  · cases h
  · next made hmade =>
    split at h
    · cases h
    · next written hwritten =>
      obtain ⟨-, rfl⟩ := Prod.mk.inj (Except.ok.inj h)
      by_cases hadmits : made.Admits (Settings.file home)
      · rw [hadmits.write_eq] at hwritten
        obtain rfl := Option.some.inj hwritten
        obtain ⟨q, hq⟩ := ht
        rw [FileTree.nodeAt?_putAt hadmits.place_ne_nil] at hq
        split_ifs at hq with hplace
        · cases hq
        · have hspares := (FileTree.extends_of_makeDirectories hmade).nodeAt q
          rcases hspares with hsame | ⟨-, hdirectory⟩
          · exact ⟨q, hsame ▸ hq⟩
          · rw [hdirectory] at hq
            cases hq
      · rw [FileTree.write_eq_none hadmits] at hwritten
        cases hwritten

theorem go_initSettings (s : Surroundings) :
    initSettings.go s = match Settings.init s.files s.home with
      | .ok (path, files) =>
        (.ok ("Config initialized at: " ++ path ++ "\n"), { s with files })
      | .error f => (.error (.fault f), s) := by
  rw [initSettings, go_bind, go_get]
  dsimp only
  rw [go_bind, go_ofExcept]
  rcases Settings.init s.files s.home with f | ⟨path, files⟩ <;> rfl

theorem keeping_initSettings : Keeping initSettings := by
  intro s
  rw [go_initSettings]
  rcases hinit : Settings.init s.files s.home with f | ⟨path, files⟩
  · exact .refl s
  · exact keeps_of_hasDatabase (Nat.le_refl _) fun _ _ t ht ↦ .inl (hasDatabase_of_init hinit ht)

theorem keeping_ingest (c : Context) (source : String) (version : Int) (path : Option String)
    (window : Option Nat) (file : String) :
    Keeping (CommandLine.ingest c source version path window file) := by
  rw [ingest_eq]
  refine (Quiet.ofExcept _).keeping.bind fun source ↦ ?_
  have hrest (s : Surroundings) : Keeping (do
      let input ← Step.require (s.files.read? file) ("cannot read " ++ file)
      let report ← c.write (c.batching ⟨source, version, path⟩ window s.schedule s.now input)
      batchAnswer report) := by
    refine (Quiet.require _ _).keeping.bind fun input ↦ ?_
    exact (c.keeping_write (ingestBatch_keepsUsable _ _ _ _ _ _ _)).bind fun report ↦
      (quiet_batchAnswer report).keeping
  split_ifs
  · exact (Quiet.refuse _).keeping.bind fun _ ↦ Quiet.get.keeping.bind hrest
  · exact Quiet.get.keeping.bind hrest

theorem keeping_initKey (c : Context) (id : String) (clean : Bool) :
    Keeping (initKey c id clean) := by
  rw [initKey_eq]
  refine Quiet.get.keeping.bind fun s ↦ ?_
  have hrest : Keeping (c.write (c.rebuilding id s.now) >>= rebuildAnswer id) :=
    (c.keeping_write (rebuild_keepsUsable _ _ _ _ _)).bind fun stats ↦
      (quiet_rebuildAnswer id stats).keeping
  split_ifs
  · exact (c.keeping_write (clear_keepsUsable id)).bind fun _ ↦ hrest
  · exact hrest

/-- **Every command keeps databases usable.** -/
theorem Command.keeping_run (command : Command) (c : Context) : Keeping (command.run c) := by
  cases command with
  | ingest source version path window file => exact keeping_ingest c source version path window file
  | addKey form =>
    -- That the match key is valid is known only of one that the form has given.
    refine form.quiet_toMatchKey.keeping.bind_of_ok fun key ⟨s, s', hgo⟩ ↦ ?_
    obtain ⟨hvalid, hparams⟩ := KeyForm.valid_of_toMatchKey hgo
    exact (c.keeping_write (insertMatchKey_keepsUsable hvalid hparams)).bind fun _ ↦
      (Quiet.pure _).keeping
  | updateKey form =>
    refine form.quiet_toMatchKey.keeping.bind_of_ok fun key ⟨s, s', hgo⟩ ↦ ?_
    obtain ⟨hvalid, hparams⟩ := KeyForm.valid_of_toMatchKey hgo
    refine (c.keeping_write (updateMatchKey_keepsUsable hvalid hparams)).bind fun found ↦ ?_
    cases found with
    | false => exact (Quiet.throw _).keeping
    | true => exact (Quiet.pure _).keeping
  | deleteKey id =>
    refine (c.keeping_write (deleteMatchKey_keepsUsable id)).bind fun found ↦ ?_
    cases found with
    | false => exact (Quiet.throw _).keeping
    | true => exact (Quiet.pure _).keeping
  | initKey id clean => exact keeping_initKey c id clean
  | deleteSource source =>
    refine (Quiet.ofExcept _).keeping.bind fun source ↦ Quiet.get.keeping.bind fun s ↦ ?_
    exact (c.keeping_write (deleteRecords_keepsUsable _ s.now fun _ ↦ rfl)).bind fun _ ↦
      (Quiet.pure _).keeping
  | initSettings => exact keeping_initSettings
  | listKeys | showKey | showStats | getCluster | listChanged | listRecords | showSettings =>
    refine Quiet.keeping (Command.quiet_run ?_ c)
    trivial

theorem Invocation.keeping_run (i : Invocation) : Keeping i.run :=
  (Context.quiet_create i).keeping.bind fun c ↦ i.command.keeping_run c

/-! ## What fails changes no database -/

namespace Context

variable {w : Work α} {a : α} {f : Failure}

/-- Work that leaves its tables alone spares the databases. -/
theorem spares_of_write (h : (w.go (c.start s)).2.tables = c.stored s.files) :
    s.files.Spares ((c.write w).go s).2.files := by
  by_cases hwritable : c.Writable s
  · obtain ⟨files, hgo, hwrote⟩ := c.go_write hwritable w
    rw [hgo]
    exact hwrote.spares h
  · obtain ⟨f, s', hgo, hspares, -⟩ := c.go_write_error hwritable w
    rw [hgo]
    exact hspares

theorem go_write_ok (h : (c.write w).go s = (.ok a, s')) :
    c.Writable s ∧ (w.go (c.start s)).1 = .ok a := by
  by_cases hwritable : c.Writable s
  · obtain ⟨files, hgo, -⟩ := c.go_write hwritable w
    rw [hgo] at h
    refine ⟨hwritable, ?_⟩
    rcases hresult : (w.go (c.start s)).1 with e | a'
    · rw [hresult] at h
      cases (Prod.mk.inj h).1
    · rw [hresult] at h
      exact congrArg _ (Except.ok.inj (Prod.mk.inj h).1)
  · obtain ⟨f, s₁, hgo, -⟩ := c.go_write_error hwritable w
    rw [hgo] at h
    cases (Prod.mk.inj h).1

/-- A command that fails while it writes spares the databases if its work leaves no trace when it
fails. -/
theorem spares_of_write_error (h : (c.write w).go s = (.error f, s'))
    (hw : ∀ e world, w.go (c.start s) = (.error e, world) → world.tables = c.stored s.files) :
    s.files.Spares s'.files := by
  by_cases hwritable : c.Writable s
  · obtain ⟨files, hgo, hwrote⟩ := c.go_write hwritable w
    rw [hgo] at h
    obtain ⟨hresult, rfl⟩ := Prod.mk.inj h
    rcases hrun : w.go (c.start s) with ⟨e | a, world⟩
    · rw [hrun] at hwrote
      exact hwrote.spares (hw e world hrun)
    · rw [hrun] at hresult
      cases hresult
  · obtain ⟨f', s₁, hgo, hspares, -⟩ := c.go_write_error hwritable w
    rw [hgo] at h
    obtain ⟨-, rfl⟩ := Prod.mk.inj h
    exact hspares

/-- A change that has an answer does not fail by itself. -/
theorem spares_of_update_error {u : Tables → α × Tables}
    (h : (c.write (Work.update u)).go s = (.error f, s')) : s.files.Spares s'.files := by
  refine spares_of_write_error h fun e world hgo ↦ ?_
  rw [Work.go_update] at hgo
  cases (Prod.mk.inj hgo).1

end Context

/-- A match key that is there already is not added. -/
theorem spares_of_addKey {form : KeyForm} {f : Failure}
    (h : (addKey c form).go s = (.error f, s')) : s.files.Spares s'.files := by
  rcases go_bind_error.mp h with hform | ⟨key, s₁, hform, hadd⟩
  · rw [form.quiet_toMatchKey.eq hform]
    exact .refl _
  rw [form.quiet_toMatchKey.eq hform] at hadd
  rcases go_bind_error.mp hadd with hwrite | ⟨⟨⟩, s₂, -, hshow⟩
  · refine Context.spares_of_write_error hwrite fun e world hgo ↦ ?_
    rw [Work.go_statement] at hgo
    split at hgo
    · cases (Prod.mk.inj hgo).1
    · rw [← (Prod.mk.inj hgo).2]
      rfl
  · cases (Prod.mk.inj hshow).1

/-- A change that finds nothing to change leaves everything as it was. -/
theorem spares_of_found {u : Tables → Bool × Tables} {answer : Step String} {f : Failure}
    {fault : Failure} (hanswer : ∀ f s s', answer.go s ≠ (.error f, s'))
    (hnot : (u (c.stored s.files)).1 = false → (u (c.stored s.files)).2 = c.stored s.files)
    (h : (do
      let found ← c.write (Work.update u)
      if found then answer else throw fault).go s = (.error f, s')) : s.files.Spares s'.files := by
  rcases go_bind_error.mp h with hwrite | ⟨found, s₁, hwrite, hrest⟩
  · exact Context.spares_of_update_error hwrite
  · cases found with
    | true => exact absurd hrest (hanswer f s₁ s')
    | false =>
      obtain ⟨-, hfound⟩ := Context.go_write_ok hwrite
      have hsame : ((Work.update u).go (c.start s)).2.tables = c.stored s.files := by
        rw [Work.go_update] at hfound ⊢
        exact hnot (Except.ok.inj hfound)
      have hspares := Context.spares_of_write hsame
      rw [hwrite] at hspares
      obtain rfl := (Prod.mk.inj hrest).2
      exact hspares

theorem spares_of_updateKey {form : KeyForm} {f : Failure}
    (h : (updateKey c form).go s = (.error f, s')) : s.files.Spares s'.files := by
  rcases go_bind_error.mp h with hform | ⟨key, s₁, hform, hupdate⟩
  · rw [form.quiet_toMatchKey.eq hform]
    exact .refl _
  · rw [form.quiet_toMatchKey.eq hform] at hupdate
    refine spares_of_found (fun f s s' hgo ↦ ?_) (fun hmissing ↦ ?_) hupdate
    · cases (Prod.mk.inj hgo).1
    · exact updateMatchKey_eq_self hmissing rfl

theorem spares_of_deleteKey {id : String} {f : Failure} (hform : (c.stored s.files).Wellformed)
    (h : (deleteKey c id).go s = (.error f, s')) : s.files.Spares s'.files := by
  refine spares_of_found (fun f s s' hgo ↦ ?_) (fun hmissing ↦ ?_) h
  · cases (Prod.mk.inj hgo).1
  · exact hform.deleteMatchKey_eq_self hmissing

theorem spares_of_deleteSource {source : String} {f : Failure}
    (h : (deleteSource c source).go s = (.error f, s')) : s.files.Spares s'.files := by
  rcases go_bind_error.mp h with hsource | ⟨source, s₁, hsource, hdelete⟩
  · rw [(Quiet.ofExcept _).eq hsource]
    exact .refl _
  rw [(Quiet.ofExcept _).eq hsource] at hdelete
  rcases go_bind_error.mp hdelete with hnow | ⟨now, s₂, hnow, hdelete⟩
  · cases (Prod.mk.inj hnow).1
  rw [Quiet.get.eq hnow] at hdelete
  rcases go_bind_error.mp hdelete with hwrite | ⟨count, s₃, -, hshow⟩
  · exact Context.spares_of_update_error hwrite
  · cases (Prod.mk.inj hshow).1

theorem spares_of_initSettings {f : Failure} (h : initSettings.go s = (.error f, s')) :
    s.files.Spares s'.files := by
  rw [go_initSettings] at h
  split at h
  · cases (Prod.mk.inj h).1
  · obtain rfl := (Prod.mk.inj h).2
    exact .refl _

end RecordLinkage.CommandLine
