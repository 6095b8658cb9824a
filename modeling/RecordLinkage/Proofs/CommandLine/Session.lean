import RecordLinkage.Proofs.CommandLine.Commands
import RecordLinkage.Proofs.History.Failure

/-!
# Sessions

A session begins with files among which there is no database. Commands are carried out one after the
other, and between them other things may happen: files come and go, time passes, identifiers are
taken. Only nobody else makes or changes a database.

Whatever commands are given, with whatever arguments, every match key that is stored can be used.
So a batch is never refused because of a match key, a match key that is there can always be computed
anew, and no command that fails leaves a trace in a database, unless it has ingested something.
-/

namespace RecordLinkage.CommandLine

open Clustering Tables CommandLine.Step

variable {c : Context} {s s' : Surroundings} {id : String} {clean : Bool} {f : Failure}

/-! ## Ingesting -/

/-- What work and its answer come to where the work does not fail by itself. -/
theorem Context.isOk_write_then {α β : Type} {w : Work α} {post : α → Step β} {a : α} {p : Prop}
    (hw : (w.go (c.start s)).1 = .ok a) (hpost : ∀ s, ((post a).go s).1.isOk = true ↔ p) :
    ((c.write w >>= post).go s).1.isOk = true ↔ p ∧ c.Writable s := by
  rw [go_bind]
  by_cases hwritable : c.Writable s
  · obtain ⟨files, hgo, -⟩ := c.go_write hwritable w
    rw [hgo, hw]
    exact (hpost _).trans (and_iff_left hwritable).symm
  · obtain ⟨e, s', hgo, -⟩ := c.go_write_error hwritable w
    rw [hgo]
    exact iff_of_false (by simp [Except.isOk, Except.toBool]) fun hboth ↦ hwritable hboth.2

/-- **Ingesting a batch does not depend on match keys.** It succeeds when it is asked for in the
right way, its file is there and complete, and the database can be written. -/
theorem isOk_ingest_iff (h : s.Usable) (source : String) (version : Int) (path : Option String)
    (window : Option Nat) (file : String) :
    ((CommandLine.ingest c source version path window file).go s).1.isOk = true ↔
      (SourceId.parse source).isOk = true ∧ window ≠ some 0 ∧
      (∃ input, s.files.read? file = some input ∧
        (Json.readStream input.toList).isComplete = true) ∧
      (Ingester.extractor? path).isOk = true ∧ c.Writable s := by
  have hno {α : Type} (e : α) : (Except.error e : Except α String).isOk = true ↔ False := by
    simp [Except.isOk, Except.toBool]
  -- What can go wrong is taken in the order in which it is checked.
  rw [ingest_eq, go_bind, go_ofExcept]
  rcases SourceId.parse source with e | source
  · exact (hno _).trans (by simp [Except.isOk, Except.toBool])
  dsimp only [Except.mapError]
  split_ifs with hwindow
  · exact (hno _).trans (by simp [hwindow])
  rw [go_bind, go_get]
  dsimp only
  rw [go_bind]
  rcases s.files.read? file with - | input
  · exact (hno _).trans (by simp)
  obtain ⟨report, world, hgo, hreport⟩ := (h.start c).exists_report .empty .free c.tenant
    ⟨source, version, path⟩
    { c.settings.ingest with window := window.getD c.settings.ingest.window } s.schedule s.now
    input.toList
  have hanswer (s : Surroundings) : ((batchAnswer report).go s).1.isOk = true ↔
      (Ingester.extractor? path).isOk = true ∧
        (Json.readStream input.toList).isComplete = true := by
    rw [← hreport, batchAnswer, go_bind, go_ofExcept]
    rcases report.result with e | summary <;> rfl
  refine (Context.isOk_write_then (congrArg Prod.fst hgo) hanswer).trans ?_
  simp only [Option.some.injEq, exists_eq_left']
  constructor
  · rintro ⟨⟨hpath, hcomplete⟩, hw⟩
    exact ⟨rfl, hwindow, hcomplete, hpath, hw⟩
  · rintro ⟨-, -, hcomplete, hpath, hw⟩
    exact ⟨⟨hpath, hcomplete⟩, hw⟩

/-! ## Computing a match key anew -/

/-- The last piece of work of computing a match key anew, and its answer. -/
def Context.rebuildAndAnswer (c : Context) (id : String) (now : Datestamp) : Step String :=
  c.write (c.rebuilding id now) >>= rebuildAnswer id

theorem go_initKey_false (c : Context) (id : String) (s : Surroundings) :
    (initKey c id false).go s = (c.rebuildAndAnswer id s.now).go s := by
  rw [initKey_eq, go_bind, go_get]
  rfl

theorem go_initKey_true (c : Context) (id : String) (s : Surroundings) :
    (initKey c id true).go s
      = (c.write (clearWork id) >>= fun _ ↦ c.rebuildAndAnswer id s.now).go s := by
  rw [initKey_eq, go_bind, go_get]
  rfl

section Rebuild

variable (hwritable : c.Writable s) {now : Datestamp}

include hwritable

/-- What is said depends on whether the match key is there. -/
theorem Context.go_rebuildAndAnswer {stats : Option ReindexStats} {world : World}
    (h : (c.rebuilding id now).go (c.start s) = (.ok stats, world)) : ∃ s',
    (c.rebuildAndAnswer id now).go s = ((match stats with
      | some stats => .ok (shown stats.toJson)
      | none => .error (.fault (missingKey id))), s') ∧ c.Wrote s.files world.tables s'.files := by
  obtain ⟨files, hgo, hwrote⟩ := c.go_write hwritable (c.rebuilding id now)
  rw [h] at hgo hwrote
  refine ⟨{ s with ids := world.ids, files }, ?_, hwrote⟩
  rw [rebuildAndAnswer, go_bind, hgo]
  cases stats <;> rfl

theorem Context.ids_rebuildAndAnswer :
    ((c.rebuildAndAnswer id now).go s).2.ids = ((c.rebuilding id now).go (c.start s)).2.ids := by
  obtain ⟨files, hgo, -⟩ := c.go_write hwritable (c.rebuilding id now)
  rw [rebuildAndAnswer, go_bind, hgo]
  rcases ((c.rebuilding id now).go (c.start s)).1 with e | stats
  · rfl
  · exact congrArg Surroundings.ids (quiet_rebuildAnswer id stats _)

/-- Clearing a match key leaves a database that can be written. -/
theorem Context.go_clearWork (id : String) : ∃ s₁, (c.write (clearWork id)).go s = (.ok (), s₁) ∧
    c.Writable s₁ ∧ c.Wrote s.files ((c.stored s.files).clear id) s₁.files ∧
    c.start s₁ = (clearing id).perform (c.start s) := by
  obtain ⟨files, hgo, hwrote⟩ := c.go_write hwritable (clearWork id)
  refine ⟨{ s with files }, hgo, hwrote.ready.writable, hwrote, ?_⟩
  have hstored : c.stored files = (c.stored s.files).clear id := hwrote.ready.stored_eq
  rw [start, hstored]
  rfl

end Rebuild

/-- A match key was computed anew from the stored records: from nothing, if it was cleared first. -/
structure Renewed (id : String) (clean : Bool) (limit : ℕ) (before after : Tables) : Prop where
  records : after.records = before.records
  complete : clean = true → ∃ k m, before.matchKey? id = .ok (some k) ∧ k.createMethod = .ok m ∧
    Components id (Bears before m limit) after

/-- **A match key that is there can be computed anew**, whether it is cleared first or not, if only
the database can be written. No record fails. -/
theorem go_initKey (h : s.Usable) (hwritable : c.Writable s)
    (hthere : (c.stored s.files).hasMatchKey id = true)
    (hids : ((initKey c id clean).go s).2.ids.next < idLimit) : ∃ s' t,
    (initKey c id clean).go s
      = (.ok (shown (ReindexStats.toJson ⟨(c.stored s.files).records.length, 0⟩)), s') ∧
    s'.files.node? c.database = some (.database t) ∧
    Renewed id clean c.settings.ingest.matchValueMaxLength (c.stored s.files) t := by
  have hstart := h.start c
  cases clean with
  | false =>
    rw [go_initKey_false] at hids ⊢
    rw [Context.ids_rebuildAndAnswer hwritable] at hids
    obtain ⟨world, hgo, hrecords⟩ := hstart.go_rebuild .empty hthere hids
    obtain ⟨s', hanswer, hwrote⟩ := Context.go_rebuildAndAnswer hwritable hgo
    exact ⟨s', world.tables, hanswer, hwrote.ready.node, hrecords, fun hclean ↦ nomatch hclean⟩
  | true =>
    obtain ⟨s₁, hclear, hwritable₁, -, hstart₁⟩ := Context.go_clearWork hwritable id
    rw [go_initKey_true, go_bind, hclear] at hids ⊢
    dsimp only at hids ⊢
    rw [Context.ids_rebuildAndAnswer hwritable₁, hstart₁] at hids
    -- What the second piece of work starts from is what the first has left.
    obtain ⟨world, k, m, hkey, hmethod, hgo, hrecords, hcomponents⟩ :=
      hstart.go_cleanRebuild .empty hthere hids
    have hgo₁ : (c.rebuilding id s.now).go (c.start s₁)
        = (.ok (some ⟨(c.stored s.files).records.length, 0⟩), world) := by
      rw [hstart₁]
      exact hgo
    obtain ⟨s', hanswer, hwrote⟩ := Context.go_rebuildAndAnswer hwritable₁ hgo₁
    exact ⟨s', world.tables, hanswer, hwrote.ready.node, hrecords,
      fun _ ↦ ⟨k, m, hkey, hmethod, hcomponents⟩⟩

/-- A match key that is not there is not computed, and nothing happens. -/
theorem Context.spares_rebuildAndAnswer (c : Context) (now : Datestamp)
    (hmissing : (c.stored s.files).hasMatchKey id = false) :
    ∃ f s', (c.rebuildAndAnswer id now).go s = (.error f, s') ∧ s.files.Spares s'.files := by
  by_cases hwritable : c.Writable s
  · have hgo : (c.rebuilding id now).go (c.start s) = (.ok none, c.start s) :=
      go_rebuild_none (matchKey?_eq_none hmissing)
    obtain ⟨s', hanswer, hwrote⟩ := go_rebuildAndAnswer hwritable hgo
    exact ⟨_, s', hanswer, hwrote.spares rfl⟩
  · obtain ⟨f, s', hgo, hspares, -⟩ := c.go_write_error hwritable (c.rebuilding id now)
    refine ⟨f, s', ?_, hspares⟩
    rw [rebuildAndAnswer, go_bind, hgo]

/-- **Otherwise it is not**, and nothing happens either. -/
theorem go_initKey_error (h : s.Usable) (clean : Bool)
    (hnot : ¬(c.Writable s ∧ (c.stored s.files).hasMatchKey id = true)) :
    ∃ f s', (initKey c id clean).go s = (.error f, s') ∧ s.files.Spares s'.files := by
  by_cases hwritable : c.Writable s
  · have hmissing : (c.stored s.files).hasMatchKey id = false :=
      Bool.eq_false_iff.mpr fun hthere ↦ hnot ⟨hwritable, hthere⟩
    cases clean with
    | false =>
      rw [go_initKey_false]
      exact c.spares_rebuildAndAnswer s.now hmissing
    | true =>
      obtain ⟨s₁, hclear, -, hwrote, -⟩ := Context.go_clearWork hwritable id
      have hsame := (h.start c).orderly.form.clear_eq_self hmissing
      have hmissing₁ : (c.stored s₁.files).hasMatchKey id = false := by
        rw [hwrote.ready.stored_eq, hsame]
        exact hmissing
      obtain ⟨f, s', hgo, hspares⟩ := c.spares_rebuildAndAnswer s.now hmissing₁
      rw [go_initKey_true, go_bind, hclear]
      exact ⟨f, s', hgo, (hwrote.spares hsame).trans hspares⟩
  · -- Whatever comes first cannot be written.
    have hfirst {α : Type} (w : Work α) (post : α → Step String) :
        ∃ f s', (c.write w >>= post).go s = (.error f, s') ∧ s.files.Spares s'.files := by
      obtain ⟨f, s', hgo, hspares, -⟩ := c.go_write_error hwritable w
      exact ⟨f, s', by rw [go_bind, hgo], hspares⟩
    cases clean with
    | false =>
      rw [go_initKey_false]
      exact hfirst _ _
    | true =>
      rw [go_initKey_true]
      exact hfirst _ _

theorem spares_of_initKey (h : s.Usable) (hids : s'.ids.next < idLimit)
    (hgo : (initKey c id clean).go s = (.error f, s')) : s.files.Spares s'.files := by
  by_cases hready : c.Writable s ∧ (c.stored s.files).hasMatchKey id = true
  · have hids' : ((initKey c id clean).go s).2.ids.next < idLimit := by
      rw [hgo]
      exact hids
    obtain ⟨s₁, t, hanswer, -⟩ := go_initKey h hready.1 hready.2 hids'
    rw [hgo] at hanswer
    cases (Prod.mk.inj hanswer).1
  · obtain ⟨f', s₁, hanswer, hspares⟩ := go_initKey_error h clean hready
    rw [hgo] at hanswer
    rw [(Prod.mk.inj hanswer).2]
    exact hspares

/-! ## Commands that fail -/

/-- A command ingests a batch. -/
def Command.IsIngest : Command → Prop
  | .ingest .. => True
  | _ => False

/-- **A command that fails spares all databases**, unless it ingests a batch. -/
theorem Command.spares_of_error {command : Command} (h : s.Usable) (hids : s'.ids.next < idLimit)
    (hcommand : ¬command.IsIngest) (hgo : (command.run c).go s = (.error f, s')) :
    s.files.Spares s'.files := by
  cases command with
  | ingest => exact absurd trivial hcommand
  | addKey form => exact spares_of_addKey hgo
  | updateKey form => exact spares_of_updateKey hgo
  | deleteKey id => exact spares_of_deleteKey (h.start c).orderly.form hgo
  | initKey id clean => exact spares_of_initKey h hids hgo
  | deleteSource source => exact spares_of_deleteSource hgo
  | initSettings => exact spares_of_initSettings hgo
  | listKeys | showKey | showStats | getCluster | listChanged | listRecords | showSettings =>
    rw [Quiet.eq (Command.quiet_run (by trivial) c) hgo]
    exact .refl _

/-! ## Sequences of commands -/

/-- Surroundings that come about as commands are carried out one after the other. -/
inductive Session : Surroundings → Prop
  /-- At first there is no database. -/
  | start {s : Surroundings} (h : ∀ t, ¬s.files.HasDatabase t) : Session s
  /-- Other things may happen, but no database is made or changed. -/
  | outside {s s' : Surroundings} (h : Session s)
      (hfiles : ∀ t, s'.files.HasDatabase t → s.files.HasDatabase t)
      (hids : s.ids.next ≤ s'.ids.next) : Session s'
  /-- A command is carried out, and succeeds or fails. -/
  | command {s : Surroundings} (h : Session s) (i : Invocation) : Session (i.run.go s).2

/-- **In a session every database can be used.** -/
theorem Session.usable (h : Session s) (hids : s.ids.next ≤ idLimit) : s.Usable := by
  induction h with
  | start h => exact fun t ht ↦ absurd ht (h t)
  | outside _ hfiles hgrows ih =>
    have hkeeps := keeps_of_hasDatabase hgrows fun _ _ t ht ↦ .inl (hfiles t ht)
    exact hkeeps.2 hids (ih (hgrows.trans hids))
  | command _ i ih =>
    obtain ⟨hgrows, hkeep⟩ := i.keeping_run _
    exact hkeep hids (ih (hgrows.trans hids))

/-- What a command does once the settings were read and the database was found. -/
theorem go_run {i : Invocation} (h : (Context.create i).go s = (.ok c, s')) :
    i.run.go s = (i.command.run c).go s := by
  rw [Invocation.run, go_bind, h, (Context.quiet_create i).eq h]

/-- **Commands keep every match key usable.** In a session a command is carried out, and identifiers
have not run out. Every match key that is stored afterwards can be read and is valid, and its method
computes a set for every payload. So whether a batch can be ingested has nothing to do with match
keys. A match key can be computed anew if it is there and the database can be written, and only
then; no record fails, and what was cleared first is computed completely, as the connected
components of the stored records. A command that fails leaves all databases as they were, unless it
was to ingest a batch. -/
theorem commands_keep_match_keys_usable (h : Session s) (i : Invocation)
    (hids : (i.run.go s).2.ids.next < idLimit) :
    (∀ t, (i.run.go s).2.files.HasDatabase t → ∀ row ∈ t.matchKeys, ∃ k m,
      row.read = .ok k ∧ k.validate = .ok () ∧ k.createMethod = .ok m ∧
      ∀ payload, ∃ values, m.matchValues payload = .ok values) ∧
    (∀ c, (Context.create i).go s = (.ok c, s) →
      (∀ source version path window file,
        i.command = .ingest source version path window file →
        ((i.run.go s).1.isOk = true ↔
          (SourceId.parse source).isOk = true ∧ window ≠ some 0 ∧
          (∃ input, s.files.read? file = some input ∧
            (Json.readStream input.toList).isComplete = true) ∧
          (Ingester.extractor? path).isOk = true ∧ c.Writable s)) ∧
      ∀ id clean, i.command = .initKey id clean →
        ((i.run.go s).1.isOk = true ↔
          c.Writable s ∧ (c.stored s.files).hasMatchKey id = true) ∧
        ((i.run.go s).1.isOk = true → ∃ s' t,
          i.run.go s
            = (.ok (shown (ReindexStats.toJson ⟨(c.stored s.files).records.length, 0⟩)), s') ∧
          s'.files.node? c.database = some (.database t) ∧
          Renewed id clean c.settings.ingest.matchValueMaxLength (c.stored s.files) t)) ∧
    (¬i.command.IsIngest → ∀ f s', i.run.go s = (.error f, s') → s.files.Spares s'.files) := by
  -- Identifiers are only ever taken, so they had not run out before either.
  obtain ⟨hgrows, -⟩ := i.keeping_run s
  have hbefore : s.Usable := h.usable (hgrows.trans hids.le)
  have hafter := (h.command i).usable hids.le
  refine ⟨fun t ht row hrow ↦ ?_, fun c hc ↦ ⟨?_, ?_⟩, fun hcommand f s' hgo ↦ ?_⟩
  · obtain ⟨k, hread, hvalid⟩ := (hafter t ht).valid row hrow
    obtain ⟨m, hmethod⟩ := MatchKey.exists_method hvalid
    exact ⟨k, m, hread, hvalid, hmethod, Method.exists_matchValues hmethod⟩
  · intro source version path window file hcommand
    rw [go_run hc, hcommand]
    exact isOk_ingest_iff hbefore source version path window file
  · intro id clean hcommand
    rw [go_run hc, hcommand] at hids ⊢
    change ((initKey c id clean).go s).2.ids.next < idLimit at hids
    change (((initKey c id clean).go s).1.isOk = true ↔ _) ∧
      (((initKey c id clean).go s).1.isOk = true → ∃ s' t, (initKey c id clean).go s = _ ∧ _)
    by_cases hready : c.Writable s ∧ (c.stored s.files).hasMatchKey id = true
    · obtain ⟨s', t, hgo, hrest⟩ := go_initKey hbefore hready.1 hready.2 hids
      exact ⟨iff_of_true (by rw [hgo]; rfl) hready, fun _ ↦ ⟨s', t, hgo, hrest⟩⟩
    · obtain ⟨f, s', hgo, -⟩ := go_initKey_error hbefore clean hready
      rw [hgo]
      exact ⟨iff_of_false Bool.false_ne_true hready, fun hok ↦ absurd hok Bool.false_ne_true⟩
  · rw [hgo] at hids
    rcases go_bind_error.mp hgo with hcreate | ⟨c, s₁, hcreate, hrun⟩
    · rw [(Context.quiet_create i).eq hcreate]
      exact .refl _
    · rw [(Context.quiet_create i).eq hcreate] at hrun
      exact Command.spares_of_error hbefore hids hcommand hrun

namespace Bookshop

/-- Three books in a file, and no database. The first two have a number in common. -/
def premises : Surroundings where
  files := (FileTree.empty "/w").putAt ["w", "books"]
    (.text "[\"a\",[\"x\",\"y\"]] [\"b\",[\"y\"]] [\"c\",[\"z\"]]")
  home := "/h"
  now := 5
  schedule := .inOrder
  ids := ⟨0⟩

/-- What is asked for is asked for about one database. -/
def asking (command : Command) : Invocation := ⟨"t", some "db", none, command⟩

/-- The values of a match key are the payload itself. -/
def adding : Invocation := asking (.addKey ⟨"isbn", "jsonpath", some "$", none, "ingest"⟩)

def ingesting : Invocation := asking (.ingest "A" 1 none none "books")

def renewing : Invocation := asking (.initKey "isbn" true)

/-- There is no such match key. -/
def removing : Invocation := asking (.deleteKey "issn")

/-- After the match key was added and the books were ingested. -/
def stocked : Surroundings := (ingesting.run.go (adding.run.go premises).2).2

theorem session_stocked : Session stocked := by
  refine .command (.command (.start (FileTree.not_hasDatabase fun n hn ↦ ?_)) adding) ingesting
  have hnodes : premises.files.nodes.map Prod.snd
      = [.text "[\"a\",[\"x\",\"y\"]] [\"b\",[\"y\"]] [\"c\",[\"z\"]]", .directory] := by
    decide +kernel
  have hmem := List.mem_map_of_mem (f := Prod.snd) hn
  rw [hnodes] at hmem
  simp only [List.mem_cons, List.not_mem_nil, or_false] at hmem
  exact hmem.symm.imp id fun htext ↦ ⟨_, htext⟩

end Bookshop

open Bookshop in
/-- The match key is cleared and computed anew from all three books. A match key that is not there
is not removed, and nothing happens. -/
theorem stocked_renewed : ∃ (c : Context) (s' : Surroundings) (t : Tables) (f : Failure)
    (s'' : Surroundings),
    renewing.run.go stocked = (.ok (shown (ReindexStats.toJson ⟨3, 0⟩)), s') ∧
    s'.files.node? c.database = some (.database t) ∧
    Renewed "isbn" true 600 (c.stored stocked.files) t ∧
    (∀ row ∈ t.matchKeys, row.Valid) ∧
    removing.run.go stocked = (.error f, s'') ∧ stocked.files.Spares s''.files := by
  have hids : (renewing.run.go stocked).2.ids.next < idLimit := by decide +kernel
  have hids' : (removing.run.go stocked).2.ids.next < idLimit := by decide +kernel
  have hok : (renewing.run.go stocked).1.isOk = true := by decide +kernel
  have hfails : (removing.run.go stocked).1.isOk = false := by decide +kernel
  have hcreated : ((Context.create renewing).go stocked).1.toOption.any (fun c ↦
      (c.stored stocked.files).records.length = 3 ∧
        c.settings.ingest.matchValueMaxLength = 600) = true := by
    decide +kernel
  obtain ⟨hvalid, hcontext, -⟩ := commands_keep_match_keys_usable session_stocked renewing hids
  obtain ⟨-, -, hspares⟩ := commands_keep_match_keys_usable session_stocked removing hids'
  rcases hcreate : (Context.create renewing).go stocked with ⟨e | c, s₁⟩
  · rw [hcreate] at hcreated
    cases hcreated
  obtain rfl := (Context.quiet_create renewing).eq hcreate
  rw [hcreate] at hcreated
  simp only [Except.toOption, Option.any_some, decide_eq_true_eq] at hcreated
  obtain ⟨s', t, hgo, hnode, hrenewed⟩ := ((hcontext c hcreate).2 "isbn" true rfl).2 hok
  rw [hcreated.1] at hgo
  rw [hcreated.2] at hrenewed
  rcases hremove : removing.run.go stocked with ⟨f | answer, s''⟩
  · refine ⟨c, s', t, f, s'', hgo, hnode, hrenewed, ?_, rfl, hspares id f s'' hremove⟩
    rw [hgo] at hvalid
    intro row hrow
    obtain ⟨k, m, hread, hkey, -⟩ := hvalid t (FileTree.hasDatabase_of_node? hnode) row hrow
    exact ⟨k, hread, hkey⟩
  · rw [hremove] at hfails
    cases hfails

end RecordLinkage.CommandLine
