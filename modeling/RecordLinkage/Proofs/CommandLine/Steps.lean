import RecordLinkage.CommandLine.Run
import RecordLinkage.Proofs.Files.Tree
import RecordLinkage.Proofs.Store.Usable

/-!
# What a command does to its database

A command that writes opens the database first, which is made if it is not there, then does its work
on the tables, and writes them back. Three things can stand in the way: the directory cannot be
made, something else is where the database should be, or the file cannot be written. None of them
depends on the work, and none changes a database that is there.

Otherwise the database holds what the work has left of the tables it held before, and can be written
again. That the work failed makes no difference: its tables are written all the same.
-/

namespace RecordLinkage.CommandLine

open Work

namespace Step

variable {α β : Type} {w : Step α} {f : α → Step β} {s s' : Surroundings}

/-! ## Building blocks -/

/-- Carries out a step; the answer comes with what has become of the surroundings. -/
def go (w : Step α) (s : Surroundings) : Except Failure α × Surroundings := w.run s

@[simp] theorem go_pure (a : α) (s : Surroundings) : (pure a : Step α).go s = (.ok a, s) := rfl

@[simp] theorem go_throw (f : Failure) (s : Surroundings) :
    (throw f : Step α).go s = (.error f, s) := rfl

@[simp] theorem go_get (s : Surroundings) : (get : Step Surroundings).go s = (.ok s, s) := rfl

@[simp] theorem go_modify (f : Surroundings → Surroundings) (s : Surroundings) :
    (modify f : Step PUnit).go s = (.ok ⟨⟩, f s) := rfl

theorem go_bind (w : Step α) (f : α → Step β) (s : Surroundings) :
    (w >>= f).go s = match w.go s with
      | (.ok a, s') => (f a).go s'
      | (.error e, s') => (.error e, s') := by
  simp only [go, ExceptT.run, bind, ExceptT.bind, ExceptT.mk, StateT.bind, ExceptT.bindCont]
  rcases w s with ⟨_ | _, _⟩ <;> rfl

theorem go_bind_ok {b : β} :
    (w >>= f).go s = (.ok b, s') ↔ ∃ a s₁, w.go s = (.ok a, s₁) ∧ (f a).go s₁ = (.ok b, s') := by
  rw [go_bind]
  rcases h : w.go s with ⟨e | a, s₁⟩
  · simp
  · simp

theorem go_bind_error {e : Failure} :
    (w >>= f).go s = (.error e, s') ↔ w.go s = (.error e, s') ∨
      ∃ a s₁, w.go s = (.ok a, s₁) ∧ (f a).go s₁ = (.error e, s') := by
  rw [go_bind]
  rcases h : w.go s with ⟨e | a, s₁⟩
  · simp
  · simp

@[simp] theorem go_ofExcept (x : Except Fault α) (s : Surroundings) :
    (ofExcept x).go s = (x.mapError .fault, s) := by
  cases x <;> rfl

@[simp] theorem go_refuse (reason : String) (s : Surroundings) :
    (refuse reason : Step α).go s = (.error (.refused reason), s) := rfl

end Step

namespace Context

variable {α : Type} {c : Context} {s s' : Surroundings} {w : Work α} {t : Tables}

theorem go_save (c : Context) (t : Tables) (s : Surroundings) :
    (c.save t).go s = match s.files.write c.database (.database t) with
      | some files => (.ok (), { s with files })
      | none => (.error (.fault .cannotConnect), s) := by
  rw [save, Step.go_bind, Step.go_get]
  dsimp only
  rcases s.files.write c.database (.database t) with - | files <;> rfl

/-- The files with a directory for the database. -/
def housed? (c : Context) (files : FileTree) : Except Failure FileTree :=
  match Files.parent? c.database with
  | some parent =>
    match files.makeDirectories parent with
    | some files => .ok files
    | none => .error (.fault (.file parent none))
  | none => .ok files

/-- Opens the database where there is a directory for it. -/
def openFile (c : Context) : Step Tables := do
  match (← get).files.node? c.database with
  | none | some (.text "") =>
    c.save .empty
    return .empty
  | some .directory => throw (.fault .cannotConnect)
  | some (.text _) => throw (.fault .notADatabase)
  | some (.database tables) => return tables

theorem go_openForWriting (c : Context) (s : Surroundings) :
    c.openForWriting.go s = match c.housed? s.files with
      | .ok files => c.openFile.go { s with files }
      | .error f => (.error f, s) := by
  rw [openForWriting, housed?]
  rcases Files.parent? c.database with - | parent
  · rfl
  · dsimp only
    rw [Step.go_bind, Step.go_get]
    dsimp only
    rcases s.files.makeDirectories parent with - | files
    · rfl
    · rfl

/-! ## Opening -/

/-- The tables of the database; nothing is stored where there is no database. -/
def stored (c : Context) (files : FileTree) : Tables :=
  match files.node? c.database with
  | some (.database tables) => tables
  | _ => .empty

/-- The database is there and can be written. -/
structure Ready (c : Context) (files : FileTree) (t : Tables) : Prop where
  housed : c.housed? files = .ok files
  node : files.node? c.database = some (.database t)
  admits : files.Admits c.database

/-- The database can be opened and written. -/
def Writable (c : Context) (s : Surroundings) : Prop :=
  ∃ tables s', c.openForWriting.go s = (.ok tables, s') ∧ s'.files.Admits c.database

theorem housed?_ok {files files' : FileTree} (h : c.housed? files = .ok files') :
    files.Extends files' ∧ ∀ files'', files''.directory = files'.directory →
      (∀ q, files'.nodeAt? q = some .directory → files''.nodeAt? q = some .directory) →
      c.housed? files'' = .ok files'' := by
  rw [housed?] at h
  rcases hparent : Files.parent? c.database with - | parent
  · rw [hparent] at h
    obtain rfl := Except.ok.inj h
    refine ⟨.refl files, fun files'' _ _ ↦ ?_⟩
    rw [housed?, hparent]
  · rw [hparent] at h
    dsimp only at h
    split at h
    · next made hmade =>
      obtain rfl := Except.ok.inj h
      refine ⟨FileTree.extends_of_makeDirectories hmade, fun files'' hdirectory hkept ↦ ?_⟩
      rw [housed?, hparent]
      dsimp only
      rw [FileTree.makeDirectories_again hmade hdirectory hkept]
    · cases h

theorem Ready.stored_eq {files : FileTree} (h : c.Ready files t) : c.stored files = t := by
  rw [stored, h.node]

theorem Ready.go_openForWriting (h : c.Ready s.files t) :
    c.openForWriting.go s = (.ok t, s) := by
  rw [Context.go_openForWriting, h.housed]
  dsimp only
  rw [openFile, Step.go_bind, Step.go_get]
  dsimp only
  rw [h.node]
  rfl

theorem Ready.writable (h : c.Ready s.files t) : c.Writable s :=
  ⟨t, s, h.go_openForWriting, h.admits⟩

/-- A database is ready once it was written. -/
theorem ready_putAt {files : FileTree} (hhoused : c.housed? files = .ok files)
    (hadmits : files.Admits c.database) (t : Tables) :
    c.Ready (files.putAt (Files.locate files.directory c.database) (.database t)) t where
  housed := by
    refine (housed?_ok hhoused).2 _ rfl fun q hq ↦ ?_
    rw [FileTree.nodeAt?_putAt hadmits.place_ne_nil, if_neg]
    · exact hq
    · rintro rfl
      exact hadmits.free hq
  node := hadmits.node?_putAt _
  admits := hadmits.putAt (by simp)

theorem stored_of_extends {files files' : FileTree} (h : files.Extends files') :
    c.stored files' = c.stored files := by
  rw [stored, stored]
  rcases h.node? c.database with hsame | ⟨hnone, hmade⟩
  · rw [hsame]
  · rw [hnone, hmade]

/-- What comes of opening the file: it fails, or its tables are found. -/
theorem go_openFile_cases (hhoused : c.housed? s.files = .ok s.files) :
    ∃ files, s.files.Spares files ∧
      ((∃ f, c.openFile.go s = (.error f, { s with files })) ∨
        c.openFile.go s = (.ok (c.stored s.files), { s with files }) ∧
          (files.Admits c.database → c.Ready files (c.stored s.files))) := by
  -- Where there is nothing yet, a database is made, if the file can be written.
  have hcreate (hgo : c.openFile.go s = (c.save .empty >>= fun _ ↦ pure .empty : Step Tables).go s)
      (hnode : s.files.node? c.database = none ∨ s.files.node? c.database = some (.text "")) :
      ∃ files, s.files.Spares files ∧
        ((∃ f, c.openFile.go s = (.error f, { s with files })) ∨
          c.openFile.go s = (.ok (c.stored s.files), { s with files }) ∧
            (files.Admits c.database → c.Ready files (c.stored s.files))) := by
    have hstored : c.stored s.files = .empty := by
      rw [stored]
      rcases hnode with hnode | hnode <;> rw [hnode]
    rw [hgo, hstored, Step.go_bind, go_save]
    by_cases hadmits : s.files.Admits c.database
    · rw [hadmits.write_eq]
      exact ⟨_, hadmits.spares_putAt hnode, .inr ⟨rfl, fun _ ↦ ready_putAt hhoused hadmits _⟩⟩
    · rw [FileTree.write_eq_none hadmits]
      exact ⟨s.files, .refl _, .inl ⟨_, rfl⟩⟩
  have hgo : c.openFile.go s = Step.go (match s.files.node? c.database with
      | none | some (.text "") => c.save .empty >>= fun _ ↦ pure .empty
      | some .directory => throw (.fault .cannotConnect)
      | some (.text _) => throw (.fault .notADatabase)
      | some (.database tables) => pure tables) s := rfl
  rcases hnode : s.files.node? c.database with - | - | content | tables
  · rw [hnode] at hgo hcreate
    exact hcreate hgo (.inl rfl)
  · rw [hnode] at hgo
    exact ⟨s.files, .refl _, .inl ⟨_, hgo⟩⟩
  · by_cases hempty : content = ""
    · subst hempty
      rw [hnode] at hgo hcreate
      exact hcreate hgo (.inr rfl)
    · refine ⟨s.files, .refl _, .inl ⟨.fault .notADatabase, ?_⟩⟩
      rw [hgo, hnode]
      simp
  · rw [hnode] at hgo
    have hstored : c.stored s.files = tables := by rw [stored, hnode]
    rw [hstored]
    exact ⟨s.files, .refl _, .inr ⟨hgo, fun hadmits ↦ ⟨hhoused, hnode, hadmits⟩⟩⟩

/-- **Opening a database either fails or finds its tables**, and spares all databases. -/
theorem go_openForWriting_cases (c : Context) (s : Surroundings) :
    ∃ files, s.files.Spares files ∧
      ((∃ f, c.openForWriting.go s = (.error f, { s with files })) ∨
        c.openForWriting.go s = (.ok (c.stored s.files), { s with files }) ∧
          (files.Admits c.database → c.Ready files (c.stored s.files))) := by
  rw [Context.go_openForWriting]
  rcases hhoused : c.housed? s.files with f | files
  · exact ⟨s.files, .refl _, .inl ⟨f, rfl⟩⟩
  · obtain ⟨hextends, hagain⟩ := housed?_ok hhoused
    obtain ⟨files', hspares, hcases⟩ :=
      go_openFile_cases (s := { s with files }) (hagain files rfl fun _ hq ↦ hq)
    rw [stored_of_extends hextends] at hcases
    exact ⟨files', hextends.spares.trans hspares, hcases⟩

/-! ## Working -/

theorem go_work (c : Context) (t : Tables) (w : Work α) (s : Surroundings) :
    (c.work t w).go s = match s.files.write c.database
        (.database (w.go ⟨t, s.ids, .empty⟩).2.tables) with
      | some files => ((w.go ⟨t, s.ids, .empty⟩).1.mapError .fault,
          { s with ids := (w.go ⟨t, s.ids, .empty⟩).2.ids, files })
      | none => (.error (.fault .cannotConnect),
          { s with ids := (w.go ⟨t, s.ids, .empty⟩).2.ids }) := by
  have hgo : (c.work t w).go s = (c.save (w.go ⟨t, s.ids, .empty⟩).2.tables >>= fun _ ↦
      Step.ofExcept (w.go ⟨t, s.ids, .empty⟩).1).go
        { s with ids := (w.go ⟨t, s.ids, .empty⟩).2.ids } := rfl
  rw [hgo, Step.go_bind, go_save]
  dsimp only
  rcases s.files.write c.database (.database (w.go ⟨t, s.ids, .empty⟩).2.tables) with - | files
  · rfl
  · exact Step.go_ofExcept _ _

/-- What the work of a command starts from. -/
def start (c : Context) (s : Surroundings) : World := ⟨c.stored s.files, s.ids, .empty⟩

/-- Tables were written into the database, which is ready for more. -/
structure Wrote (c : Context) (before : FileTree) (t : Tables) (after : FileTree) : Prop where
  ready : c.Ready after t
  /-- Where nothing was changed, the databases are spared. -/
  spares : t = c.stored before → before.Spares after
  /-- All databases but this one were there before. -/
  hasDatabase : ∀ t', after.HasDatabase t' → before.HasDatabase t' ∨ t' = .empty ∨ t' = t

/-- **A database that can be written is written**, whatever becomes of the work. -/
theorem go_write (h : c.Writable s) (w : Work α) : ∃ files,
    (c.write w).go s = ((w.go (c.start s)).1.mapError .fault,
      { s with ids := (w.go (c.start s)).2.ids, files }) ∧
    c.Wrote s.files (w.go (c.start s)).2.tables files := by
  obtain ⟨tables, s₁, hopened, hadmits⟩ := h
  obtain ⟨files, hspares, ⟨f, hgo⟩ | ⟨hgo, hready⟩⟩ := c.go_openForWriting_cases s
  · rw [hgo] at hopened
    cases (Prod.mk.inj hopened).1
  · rw [hgo] at hopened
    obtain ⟨-, rfl⟩ := Prod.mk.inj hopened
    have hready := hready hadmits
    have hstart : (⟨c.stored s.files, s.ids, .empty⟩ : World) = c.start s := rfl
    rw [write, Step.go_bind, hgo]
    dsimp only
    rw [go_work, hadmits.write_eq, hstart]
    refine ⟨_, rfl, ready_putAt hready.housed hadmits _, fun hsame ↦ ?_, fun t' ht' ↦ ?_⟩
    · rw [hsame]
      exact hspares.trans (hadmits.spares_putAt_same hready.node)
    · obtain ⟨q, hq⟩ := ht'
      rw [FileTree.nodeAt?_putAt hadmits.place_ne_nil] at hq
      split_ifs at hq with hplace
      · exact .inr (.inr (FileNode.database.inj (Option.some.inj hq)).symm)
      · exact (hspares.hasDatabase ⟨q, hq⟩).imp id .inl

/-- **Where it cannot be written the command fails**, and all databases are spared. -/
theorem go_write_error (h : ¬c.Writable s) (w : Work α) : ∃ f s',
    (c.write w).go s = (.error f, s') ∧ s.files.Spares s'.files ∧
      (s'.ids = s.ids ∨ s'.ids = (w.go (c.start s)).2.ids) := by
  obtain ⟨files, hspares, ⟨f, hgo⟩ | ⟨hgo, -⟩⟩ := c.go_openForWriting_cases s
  · rw [write, Step.go_bind, hgo]
    exact ⟨f, _, rfl, hspares, .inl rfl⟩
  · have hadmits : ¬files.Admits c.database := fun hadmits ↦ h ⟨_, _, hgo, hadmits⟩
    rw [write, Step.go_bind, hgo]
    dsimp only
    rw [go_work, FileTree.write_eq_none hadmits]
    exact ⟨_, _, rfl, hspares, .inr rfl⟩

end Context

end RecordLinkage.CommandLine
