import RecordLinkage.Proofs.History.Operation

/-!
# The integrity of a database

A database is more than its tables. A transaction has tables of its own, and for each of its
savepoints it keeps those that it may have to return to. Whatever ends up as committed has been
among them before. So the constraints of the schema hold of what is committed, because they hold of
all tables that a database keeps anywhere.

Nothing else is asked for. The statements come in any order and about anything, inside of a
transaction or outside, through the handle or by the connection, and they may fail.
-/

namespace RecordLinkage

open Work Clustering

/-! ## Statements -/

/-- A statement by itself, as the connection is given it. -/
inductive RawStatement where
  | storeRecord (key : RecordKey) (payload : Json)
  | deleteRecord (key : RecordKey) (now : Datestamp)
  | deleteSource (source : SourceId) (now : Datestamp)
  | createMark (cluster : ClusterId) (config : String) (now : Datestamp)
  | advance (clusters : List ClusterId) (now : Datestamp)
  | merge (config : String) (winner : ClusterId) (losers : List ClusterId)
  | insertValues (config : String) (cluster : ClusterId) (values : List String)
  | setMember (record : RecordId) (config : String) (cluster : ClusterId)
  | clear (config : String)

namespace RawStatement

open Operation (quietly)

/-- What a statement does. Values are inserted one by one, until one of them fails. -/
def work : RawStatement → Work Unit
  | storeRecord key payload => quietly do
    let (_, cell) ← Ingester.enroll key payload
    Work.ofExcept cell.read
  | deleteRecord key now => quietly (update (·.deleteRecord key now))
  | deleteSource source now => quietly (update (·.deleteSource source now))
  | createMark cluster config now => statement (Tables.createMark cluster config now)
  | advance clusters now => change (·.advance clusters now)
  | merge config winner losers => change (·.merge config winner losers)
  | insertValues config cluster values =>
    values.forM fun v ↦ statement (Tables.insertValue config cluster v)
  | setMember record config cluster => statement (Tables.setMember record config cluster)
  | clear config => change (·.clear config)

end RawStatement

/-! ## What keeps tables well formed -/

section KeepsForm

variable {α : Type} {w : Work α}

theorem keepsForm_statement {st : Statement α}
    (h : ∀ t a t', t.Wellformed → st t = .ok (a, t') → t'.Wellformed) :
    Respects KeepsForm (statement st) :=
  .statement lasting_keepsForm fun s a t hst hform ↦ h s.tables a t hform hst

theorem keepsForm_update {f : Tables → α × Tables}
    (h : ∀ t, t.Wellformed → (f t).2.Wellformed) : Respects KeepsForm (update f) := by
  refine keepsForm_statement fun t a t' hform hst ↦ ?_
  obtain rfl := (Prod.mk.inj (Except.ok.inj hst)).2
  exact h t hform

theorem keepsForm_change {f : Tables → Tables} (h : ∀ t, t.Wellformed → (f t).Wellformed) :
    Respects KeepsForm (change f) :=
  .change fun s ↦ h s.tables

theorem keepsForm_enroll (key : RecordKey) (payload : Json) :
    Respects KeepsForm (Ingester.enroll key payload) := by
  have hL := lasting_keepsForm
  refine .bind hL (.mint hL) fun id ↦ .bind hL ?_ fun _ ↦ .pure hL _
  exact keepsForm_statement fun _ _ _ hform hst ↦ hform.storeRecord hst

theorem keepsForm_start (now : Datestamp) (config : String) :
    Respects KeepsForm (Clustering.start now config) := by
  have hL := lasting_keepsForm
  refine .bind hL (.mint hL) fun id ↦ .bind hL ?_ fun _ ↦ .pure hL _
  exact keepsForm_statement fun _ _ _ hform hst ↦ hform.createMark hst

/-- Of work that fails atomically, nothing is left in the tables. -/
theorem keepsForm_transaction (h : Respects KeepsForm w) (access : Access) :
    Respects KeepsForm (transaction access w) := by
  refine .transaction lasting_keepsForm fun s hform ↦ ?_
  have hs := h s hform
  rw [go_atomically]
  rcases hgo : w.go s with ⟨f | a, s'⟩
  · exact hform
  · rwa [hgo] at hs

end KeepsForm

/-- **Every operation keeps tables well formed**, whether it succeeds or not. -/
theorem Operation.respects_keepsForm (op : Operation) (access : Access) :
    Respects KeepsForm (op.work access) := by
  have hL := lasting_keepsForm
  have hassign (now : Datestamp) (config : String) (r : RecordId) (values : List String) :
      Achieves KeepsForm (Clustering.assign now r config values) :=
    (assign_keepsForm now r config values).achieves
  cases op with
  | insertMatchKey k =>
    exact keepsForm_transaction
      (keepsForm_statement fun _ _ _ hform hst ↦ hform.insertMatchKey hst) access
  | updateMatchKey k =>
    exact keepsForm_transaction
      (respects_quietly hL (keepsForm_update fun _ hform ↦ hform.updateMatchKey k)) access
  | deleteMatchKey id =>
    exact keepsForm_transaction
      (respects_quietly hL (keepsForm_update fun _ hform ↦ hform.deleteMatchKey id)) access
  | clear config =>
    exact keepsForm_transaction (keepsForm_change fun _ hform ↦ hform.clear config) access
  | storeRecord key payload =>
    exact keepsForm_transaction (respects_quietly hL (keepsForm_enroll key payload)) access
  | deleteRecord key now =>
    exact keepsForm_transaction
      (respects_quietly hL (keepsForm_update fun _ hform ↦ hform.deleteRecords _ now)) access
  | deleteSource source now =>
    exact keepsForm_transaction
      (respects_quietly hL (keepsForm_update fun _ hform ↦ hform.deleteRecords _ now)) access
  | assign now record config values =>
    exact keepsForm_transaction
      (respects_quietly hL (assign_keepsForm now record config _)) access
  | rebuild handle config limit now =>
    exact respects_quietly hL (respects_rebuild hL (hassign now config) access handle limit)
  | ingest i now s =>
    refine respects_quietly hL (Ingester.respects_ingest hL ?_ ?_ ?_ s)
    · exact fun k _ ↦ hassign now k.1.id
    · exact fun localId payload ↦ (keepsForm_enroll _ payload).achieves
    · intro localId
      refine Respects.achieves (.bind hL ?_ fun _ ↦ .pure hL _)
      exact keepsForm_update fun _ hform ↦ hform.deleteRecords _ now
  | start now config =>
    exact keepsForm_transaction (respects_quietly hL (keepsForm_start now config)) access
  | advance clusters now =>
    exact keepsForm_transaction (keepsForm_change fun _ hform ↦ hform.advanceWhere _ now) access
  | merge config winner losers =>
    exact keepsForm_transaction (keepsForm_change fun _ hform ↦ hform.merge ..) access
  | insertValue config cluster value =>
    exact keepsForm_transaction
      (keepsForm_statement fun _ _ _ hform hst ↦ hform.insertValue hst) access
  | setMember record config cluster =>
    exact keepsForm_transaction
      (keepsForm_statement fun _ _ _ hform hst ↦ hform.setMember hst) access

/-- **Every statement keeps tables well formed**, with any arguments and in any order. -/
theorem RawStatement.respects_keepsForm (st : RawStatement) : Respects KeepsForm st.work := by
  have hL := lasting_keepsForm
  cases st with
  | storeRecord key payload =>
    exact Operation.respects_quietly hL
      (.bind hL (keepsForm_enroll key payload) fun _ ↦ .ofExcept hL _)
  | deleteRecord key now =>
    exact Operation.respects_quietly hL (keepsForm_update fun _ hform ↦ hform.deleteRecords _ now)
  | deleteSource source now =>
    exact Operation.respects_quietly hL (keepsForm_update fun _ hform ↦ hform.deleteRecords _ now)
  | createMark cluster config now =>
    exact keepsForm_statement fun _ _ _ hform hst ↦ hform.createMark hst
  | advance clusters now => exact keepsForm_change fun _ hform ↦ hform.advanceWhere _ now
  | merge config winner losers => exact keepsForm_change fun _ hform ↦ hform.merge ..
  | insertValues config cluster values =>
    exact .forM hL values fun _ ↦
      keepsForm_statement fun _ _ _ hform hst ↦ hform.insertValue hst
  | setMember record config cluster =>
    exact keepsForm_statement fun _ _ _ hform hst ↦ hform.setMember hst
  | clear config => exact keepsForm_change fun _ hform ↦ hform.clear config

/-! ## Transactions -/

/-- All tables that a transaction keeps are well formed. -/
structure Transaction.Wellformed (t : Transaction) : Prop where
  snapshot : ∀ s ∈ t.snapshot, s.base.Wellformed ∧ s.current.Wellformed
  savepoints : ∀ p ∈ t.savepoints, ∀ saved ∈ p.2, saved.Wellformed

namespace Transaction

variable {t : Transaction} {committed : Tables}

theorem Wellformed.begin (h : committed.Wellformed) : (Transaction.begin committed).Wellformed where
  snapshot s hs := by
    obtain rfl := Option.some.inj hs
    exact ⟨h, h⟩
  savepoints p hp := by cases hp

theorem wellformed_ofSavepoint (name : String) : (Transaction.ofSavepoint name).Wellformed where
  snapshot s hs := by cases hs
  savepoints p hp saved hsaved := by
    rw [List.mem_singleton.mp hp] at hsaved
    cases hsaved

theorem Wellformed.outdate (h : t.Wellformed) (changed : Bool) : (t.outdate changed).Wellformed :=
  ⟨h.snapshot, h.savepoints⟩

theorem Wellformed.look (h : t.Wellformed) (hc : committed.Wellformed) :
    (t.look committed).base.Wellformed ∧ (t.look committed).current.Wellformed := by
  rw [Transaction.look]
  rcases hs : t.snapshot with - | s
  · exact ⟨hc, hc⟩
  · exact h.snapshot s hs

theorem Wellformed.result (h : t.Wellformed) (hc : committed.Wellformed) :
    (t.result committed).Wellformed := by
  rw [Transaction.result]
  split
  · rename_i s _ hs
    exact (h.snapshot s hs).2
  · exact hc

/-- What a savepoint returns to is what the transaction kept for it, or what it saw first. -/
theorem Wellformed.returnTo (h : t.Wellformed) {saved : Option Tables}
    (hsaved : ∀ tables ∈ saved, tables.Wellformed) : (t.returnTo saved).Wellformed where
  snapshot s' hs' := by
    obtain ⟨s, hs, rfl⟩ := Option.map_eq_some_iff.mp hs'
    refine ⟨(h.snapshot s hs).1, ?_⟩
    rcases saved with - | tables
    · exact (h.snapshot s hs).1
    · exact hsaved tables rfl
  savepoints := h.savepoints

theorem Wellformed.addSavepoint (h : t.Wellformed) (name : String) :
    (Database.addSavepoint t name).Wellformed where
  snapshot := h.snapshot
  savepoints p hp saved hsaved := by
    rcases List.mem_cons.mp hp with rfl | hp
    · obtain ⟨s, hs, rfl⟩ := Option.map_eq_some_iff.mp hsaved
      exact (h.snapshot s hs).2
    · exact h.savepoints p hp saved hsaved

/-- The savepoints around one are among those of the transaction. -/
theorem Wellformed.savepoint? (h : t.Wellformed) {name : String} {saved : Option Tables}
    {outer : List (String × Option Tables)} (hfound : t.savepoint? name = some (saved, outer)) :
    (∀ tables ∈ saved, tables.Wellformed) ∧
      Transaction.Wellformed { t with savepoints := outer } := by
  rw [Transaction.savepoint?] at hfound
  split at hfound
  · cases hfound
  · rename_i p rest hdrop
    obtain ⟨rfl, rfl⟩ := Prod.mk.inj (Option.some.inj hfound)
    have hsub : p :: rest ⊆ t.savepoints := hdrop ▸ (List.dropWhile_sublist _).subset
    refine ⟨h.savepoints p (hsub (.head _)), h.snapshot, fun q hq ↦ ?_⟩
    exact h.savepoints q (hsub (.tail _ hq))

end Transaction

/-! ## Databases -/

/-- All tables that a database keeps are well formed. -/
structure Database.Wellformed (d : Database) : Prop where
  committed : d.world.tables.Wellformed
  begun : ∀ t ∈ d.begun, t.Wellformed
  implicit : ∀ t ∈ d.implicit, t.Wellformed

namespace Database

variable {d : Database} {α : Type} {w : Work α}

theorem wellformed_new (ids : IdSupply) (cache : MethodCache) (handle : Handle) :
    (new ⟨.empty, ids, cache⟩ handle).Wellformed where
  committed := Tables.wellformed_empty
  begun t ht := by cases ht
  implicit t ht := by cases ht

theorem Wellformed.settle (h : d.Wellformed) {world : World} (hw : world.tables.Wellformed) :
    (d.settle world).Wellformed where
  committed := hw
  begun := h.begun
  implicit t ht := by
    obtain ⟨t₀, ht₀, rfl⟩ := Option.map_eq_some_iff.mp ht
    exact (h.implicit t₀ ht₀).outdate _

theorem Wellformed.run (h : d.Wellformed) (hw : Respects KeepsForm w) :
    (d.run w).2.Wellformed :=
  h.settle (hw d.world h.committed)

/-- A transaction in which work was done. -/
theorem Wellformed.runIn (h : d.Wellformed) (hw : Respects KeepsForm w) {t : Transaction}
    (ht : t.Wellformed) (locks : Bool) :
    (d.runIn t locks w).2.1.tables = d.world.tables ∧ (d.runIn t locks w).2.2.Wellformed := by
  obtain ⟨hbase, hcurrent⟩ := ht.look h.committed
  have hworked := hw { d.world with tables := (t.look d.world.tables).current } hcurrent
  refine ⟨rfl, fun s hs ↦ ?_, ht.savepoints⟩
  obtain rfl := Option.some.inj hs
  exact ⟨hbase, hworked⟩

theorem Wellformed.give (h : d.Wellformed) (hw : Respects KeepsForm w) (changes : Bool) :
    (d.give changes w).2.Wellformed := by
  rw [Database.give]
  split
  · rename_i t ht
    obtain ⟨htables, hworked⟩ := h.runIn hw (h.begun t ht) changes
    exact ⟨htables ▸ h.committed, by rintro t' ⟨⟩; exact hworked, h.implicit⟩
  · split
    · rename_i t ht
      split_ifs
      · exact h
      · obtain ⟨htables, hworked⟩ := h.runIn hw (h.implicit t ht) changes
        exact ⟨htables ▸ h.committed, h.begun, by rintro t' ⟨⟩; exact hworked⟩
    · exact h.run hw

theorem Wellformed.rollback (h : d.Wellformed) : d.rollback.Wellformed :=
  ⟨h.committed, fun _ ht ↦ (nomatch ht), h.implicit⟩

theorem Wellformed.commit (h : d.Wellformed) : d.commit.Wellformed := by
  rw [Database.commit]
  split
  · rename_i t ht
    exact (h.settle ((h.begun t ht).result h.committed)).rollback
  · exact h

theorem Wellformed.begin (h : d.Wellformed) : d.begin.2.Wellformed := by
  rw [Database.begin]
  split
  · exact ⟨h.committed, by rintro t ⟨⟩; exact .begin h.committed, h.implicit⟩
  · exact h.rollback

theorem Wellformed.savepoint (h : d.Wellformed) (name : String) :
    (d.savepoint name).Wellformed := by
  rw [Database.savepoint]
  split
  · rename_i t ht
    exact ⟨h.committed, by rintro t' ⟨⟩; exact (h.begun t ht).addSavepoint name, h.implicit⟩
  · rename_i t _ ht
    exact ⟨h.committed, h.begun, by rintro t' ⟨⟩; exact (h.implicit t ht).addSavepoint name⟩
  · exact ⟨h.committed, h.begun, by rintro t ⟨⟩; exact Transaction.wellformed_ofSavepoint name⟩

theorem Wellformed.leaveImplicit (h : d.Wellformed) {t : Transaction} (ht : t.Wellformed)
    {outer : List (String × Option Tables)}
    (houter : Transaction.Wellformed { t with savepoints := outer }) :
    (d.leaveImplicit t outer).Wellformed := by
  rcases outer with - | ⟨p, rest⟩
  · exact ⟨ht.result h.committed, h.begun, fun _ ht ↦ (nomatch ht)⟩
  · exact ⟨h.committed, h.begun, by rintro t' ⟨⟩; exact houter⟩

/-- **Nested savepoints restore tables that fit.** -/
theorem Wellformed.leave (h : d.Wellformed) (name : String) (keep : Bool) :
    (d.leave name keep).2.Wellformed := by
  have hkept {t : Transaction} {saved : Option Tables} (ht : t.Wellformed)
      (hsaved : ∀ tables ∈ saved, tables.Wellformed) :
      (if keep then t else t.returnTo saved).Wellformed := by
    split_ifs
    · exact ht
    · exact ht.returnTo hsaved
  have houter {t : Transaction} {saved : Option Tables} {outer : List (String × Option Tables)}
      (ht : Transaction.Wellformed { t with savepoints := outer })
      (hsaved : ∀ tables ∈ saved, tables.Wellformed) :
      Transaction.Wellformed
        { (if keep then t else t.returnTo saved) with savepoints := outer } := by
    split_ifs
    · exact ht
    · exact ht.returnTo hsaved
  rw [Database.leave]
  split
  · rename_i t ht
    split
    · rename_i saved outer hfound
      obtain ⟨hsaved, hinner⟩ := (h.begun t ht).savepoint? hfound
      exact ⟨h.committed, by rintro t' ⟨⟩; exact houter hinner hsaved, h.implicit⟩
    · exact h
  · rename_i t _ ht
    split
    · rename_i saved outer hfound
      obtain ⟨hsaved, hinner⟩ := (h.implicit t ht).savepoint? hfound
      exact h.leaveImplicit (hkept (h.implicit t ht) hsaved) (houter hinner hsaved)
    · exact h
  · exact h

theorem Wellformed.reopen (h : d.Wellformed) (handle : Handle) :
    (d.reopen handle).2.Wellformed := by
  have hclosed : Wellformed { d with implicit := none, begun := none } :=
    ⟨h.committed, fun _ ht ↦ (nomatch ht), fun _ ht ↦ (nomatch ht)⟩
  rw [Database.reopen]
  split_ifs
  · exact ⟨hclosed.committed, hclosed.begun, hclosed.implicit⟩
  · split
    · exact hclosed
    · exact ⟨hclosed.committed, hclosed.begun, hclosed.implicit⟩

end Database

/-! ## Whatever is done -/

/-- Something that is done to a database: an operation through the handle, a query or a statement by
the connection, or one of those that begin and end transactions. -/
inductive DatabaseAction where
  | operate (op : Operation)
  | query (read : Tables → Except Fault Unit)
  | state (st : RawStatement)
  | begin
  | commit
  | rollback
  | savepoint (name : String)
  | release (name : String)
  | rollbackTo (name : String)
  | reopen (handle : Handle)

namespace Database

/-- What has become of a database, be it that the action failed or not. -/
def act (d : Database) : DatabaseAction → Database
  | .operate op => (d.run (op.work d.access)).2
  | .query read => (d.give false (Work.query read)).2
  | .state st => (d.give true st.work).2
  | .begin => d.begin.2
  | .commit => d.commit
  | .rollback => d.rollback
  | .savepoint name => d.savepoint name
  | .release name => (d.release name).2
  | .rollbackTo name => (d.rollbackTo name).2
  | .reopen handle => (d.reopen handle).2

/-- **One action** keeps all tables well formed. -/
theorem Wellformed.act {d : Database} (h : d.Wellformed) (action : DatabaseAction) :
    (d.act action).Wellformed := by
  cases action with
  | operate op => exact h.run (op.respects_keepsForm d.access)
  | query read => exact h.give (.query lasting_keepsForm read) false
  | state st => exact h.give st.respects_keepsForm true
  | begin => exact h.begin
  | commit => exact h.commit
  | rollback => exact h.rollback
  | savepoint name => exact h.savepoint name
  | release name => exact h.leave name true
  | rollbackTo name => exact h.leave name false
  | reopen handle => exact h.reopen handle

theorem Wellformed.foldl_act {d : Database} (h : d.Wellformed) (actions : List DatabaseAction) :
    (actions.foldl Database.act d).Wellformed := by
  induction actions generalizing d with
  | nil => exact h
  | cons action rest ih => exact ih (h.act action)

end Database

/-- **The constraints hold whatever is done.** After any actions on a database that was empty, in
any order, with any arguments, and whichever of them fail, keys and identifiers are unique, members
refer to records and match keys that are there, and owners and marks to match keys that are there.
This holds of what is committed as of what open transactions see and what they may return to. -/
theorem constraints_always_hold (ids : IdSupply) (cache : MethodCache) (handle : Handle)
    (actions : List DatabaseAction) :
    (actions.foldl Database.act (.new ⟨.empty, ids, cache⟩ handle)).Wellformed :=
  (Database.wellformed_new ids cache handle).foldl_act actions

end RecordLinkage
