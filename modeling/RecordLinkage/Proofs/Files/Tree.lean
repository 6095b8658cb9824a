import Mathlib.Data.List.Basic
import RecordLinkage.Files.Tree

/-!
# What writing does to files

Files change in two ways: something is put at a place, or directories that are missing are made. The
first changes what is at this place and nothing else; the second changes nothing that was there.

A file may be written where there is a directory for it. Once it is written, it may be written
again, and directories that were made need not be made again.
-/

namespace RecordLinkage.FileTree

variable {t t' t'' : FileTree} {place : List String} {node : FileNode} {path : String}

/-! ## Places -/

@[simp] theorem nodeAt?_nil (t : FileTree) : t.nodeAt? [] = some .directory := rfl

theorem nodeAt?_of_ne_nil (h : place ≠ []) :
    t.nodeAt? place = (t.nodes.find? fun n ↦ n.1 = place).map (·.2) := by
  rw [nodeAt?, if_neg (by simpa using h)]

/-- Putting something at a place changes this place only. -/
theorem nodeAt?_putAt (h : place ≠ []) (node : FileNode) (q : List String) :
    (t.putAt place node).nodeAt? q = if q = place then some node else t.nodeAt? q := by
  by_cases hq : q = []
  · subst hq
    rw [if_neg (Ne.symm h)]
    rfl
  · rw [nodeAt?_of_ne_nil hq, nodeAt?_of_ne_nil hq, putAt]
    split_ifs with heq
    · simp [heq]
    · rw [List.find?_cons_of_neg (by simpa using Ne.symm heq), List.find?_filter]
      refine congrArg (Option.map _) (congrArg (List.find? · t.nodes) (funext fun n ↦ ?_))
      by_cases hn : n.1 = q
      · simp [hn, heq]
      · simp [hn]

@[simp] theorem directory_putAt (t : FileTree) (place : List String) (node : FileNode) :
    (t.putAt place node).directory = t.directory := rfl

/-- A database is somewhere among the files. -/
def HasDatabase (t : FileTree) (tables : Tables) : Prop :=
  ∃ place, t.nodeAt? place = some (.database tables)

theorem hasDatabase_of_node? {tables : Tables} (h : t.node? path = some (.database tables)) :
    t.HasDatabase tables := by
  rw [node?] at h
  split_ifs at h
  exact ⟨_, h⟩

/-- Where only directories and texts were put there is no database. -/
theorem not_hasDatabase (h : ∀ n ∈ t.nodes, n.2 = .directory ∨ ∃ content, n.2 = .text content)
    (tables : Tables) : ¬t.HasDatabase tables := by
  rintro ⟨place, hplace⟩
  by_cases hnil : place = []
  · rw [hnil, nodeAt?_nil] at hplace
    cases hplace
  · rw [nodeAt?_of_ne_nil hnil] at hplace
    obtain ⟨n, hn, hnode⟩ := Option.map_eq_some_iff.mp hplace
    rcases h n (List.mem_of_find?_eq_some hn) with hdirectory | ⟨content, hcontent⟩
    · rw [hdirectory] at hnode
      cases hnode
    · rw [hcontent] at hnode
      cases hnode

/-! ## Making directories -/

/-- Directories that were missing may have been made, and nothing else has happened. -/
structure Extends (t t' : FileTree) : Prop where
  directory : t'.directory = t.directory
  nodeAt : ∀ q, t'.nodeAt? q = t.nodeAt? q ∨
    t.nodeAt? q = none ∧ t'.nodeAt? q = some .directory

namespace Extends

theorem refl (t : FileTree) : t.Extends t := ⟨rfl, fun _ ↦ .inl rfl⟩

theorem trans (h : t.Extends t') (h' : t'.Extends t'') : t.Extends t'' where
  directory := h'.directory.trans h.directory
  nodeAt q := by
    rcases h.nodeAt q with hsame | ⟨hnone, hmade⟩
    · rw [← hsame]
      exact h'.nodeAt q
    · rcases h'.nodeAt q with hsame | ⟨hnone', -⟩
      · exact .inr ⟨hnone, hsame.trans hmade⟩
      · rw [hmade] at hnone'
        cases hnone'

theorem node? (h : t.Extends t') (path : String) : t'.node? path = t.node? path ∨
    t.node? path = none ∧ t'.node? path = some .directory := by
  rw [FileTree.node?, FileTree.node?, h.directory]
  split_ifs
  · exact .inl rfl
  · exact h.nodeAt _

/-- What is there stays there. -/
theorem nodeAt?_eq (h : t.Extends t') {q : List String} (hq : t.nodeAt? q = some node) :
    t'.nodeAt? q = some node := by
  rcases h.nodeAt q with hsame | ⟨hnone, -⟩
  · exact hsame.trans hq
  · rw [hq] at hnone
    cases hnone

end Extends

theorem makeDirectory_eq_self (h : t.nodeAt? place = some .directory) :
    t.makeDirectory place = some t := by
  rw [makeDirectory, h]

theorem makeDirectory_eq_some (h : t.makeDirectory place = some t') :
    t.Extends t' ∧ t'.nodeAt? place = some .directory := by
  rw [makeDirectory] at h
  split at h
  · next hthere =>
    obtain rfl := Option.some.inj h
    exact ⟨.refl t, hthere⟩
  · cases h
  · next hnone =>
    obtain rfl := Option.some.inj h
    have hplace : place ≠ [] := by
      rintro rfl
      cases hnone
    refine ⟨⟨rfl, fun q ↦ ?_⟩, ?_⟩
    · rw [nodeAt?_putAt hplace]
      split_ifs with hq
      · exact .inr ⟨hq ▸ hnone, rfl⟩
      · exact .inl rfl
    · rw [nodeAt?_putAt hplace, if_pos rfl]

theorem makeEach_eq_some {places : List (List String)}
    (h : places.foldlM makeDirectory t = some t') :
    t.Extends t' ∧ ∀ q ∈ places, t'.nodeAt? q = some .directory := by
  induction places generalizing t with
  | nil =>
    obtain rfl := Option.some.inj h
    exact ⟨.refl t, fun q hq ↦ nomatch hq⟩
  | cons place rest ih =>
    rw [List.foldlM_cons] at h
    obtain ⟨t₁, hfirst, hrest⟩ := Option.bind_eq_some_iff.mp h
    obtain ⟨hextends, hmade⟩ := makeDirectory_eq_some hfirst
    obtain ⟨hextends', hothers⟩ := ih hrest
    exact ⟨hextends.trans hextends', List.forall_mem_cons.mpr ⟨hextends'.nodeAt?_eq hmade, hothers⟩⟩

theorem makeEach_eq_self {places : List (List String)}
    (h : ∀ q ∈ places, t.nodeAt? q = some .directory) :
    places.foldlM makeDirectory t = some t := by
  induction places with
  | nil => rfl
  | cons place rest ih =>
    obtain ⟨hfirst, hrest⟩ := List.forall_mem_cons.mp h
    rw [List.foldlM_cons, makeDirectory_eq_self hfirst]
    exact ih hrest

/-- The places of the directories of a path. -/
def onTheWay (t : FileTree) (path : String) : List (List String) :=
  if path = "" then [] else Files.way (Files.locate t.directory path)

theorem makeDirectories_eq (t : FileTree) (path : String) :
    t.makeDirectories path = (t.onTheWay path).foldlM makeDirectory t := by
  rw [makeDirectories, onTheWay]
  split_ifs <;> rfl

theorem onTheWay_congr (h : t'.directory = t.directory) (path : String) :
    t'.onTheWay path = t.onTheWay path := by
  rw [onTheWay, onTheWay, h]

/-- **Directories that were made need not be made again**, as long as nothing is put in their
place. -/
theorem makeDirectories_again (h : t.makeDirectories path = some t')
    (hdirectory : t''.directory = t'.directory)
    (hkept : ∀ q, t'.nodeAt? q = some .directory → t''.nodeAt? q = some .directory) :
    t''.makeDirectories path = some t'' := by
  rw [makeDirectories_eq] at h ⊢
  obtain ⟨hextends, hmade⟩ := makeEach_eq_some h
  rw [onTheWay_congr (hdirectory.trans hextends.directory)]
  exact makeEach_eq_self fun q hq ↦ hkept q (hmade q hq)

theorem extends_of_makeDirectories (h : t.makeDirectories path = some t') : t.Extends t' :=
  (makeEach_eq_some ((makeDirectories_eq t path).symm.trans h)).1

/-! ## Writing files -/

/-- A file may be written. -/
structure Admits (t : FileTree) (path : String) : Prop where
  named : path ≠ ""
  free : t.nodeAt? (Files.locate t.directory path) ≠ some .directory
  inside : t.nodeAt? (Files.locate t.directory path).dropLast = some .directory

namespace Admits

variable (h : t.Admits path)

include h

theorem write_eq (node : FileNode) :
    t.write path node = some (t.putAt (Files.locate t.directory path) node) := by
  simp [write, h.named, h.free, h.inside]

theorem place_ne_nil : Files.locate t.directory path ≠ [] := by
  intro hnil
  have hfree := h.free
  rw [hnil] at hfree
  exact hfree rfl

theorem node?_eq : t.node? path = t.nodeAt? (Files.locate t.directory path) := by
  rw [node?, if_neg h.named]

/-- What was written can be read. -/
theorem node?_putAt (node : FileNode) :
    (t.putAt (Files.locate t.directory path) node).node? path = some node := by
  rw [node?, if_neg h.named, directory_putAt, nodeAt?_putAt h.place_ne_nil, if_pos rfl]

/-- A file that was written may be written again. -/
theorem putAt (hnode : node ≠ .directory) :
    (t.putAt (Files.locate t.directory path) node).Admits path where
  named := h.named
  free := by
    rw [directory_putAt, nodeAt?_putAt h.place_ne_nil, if_pos rfl]
    exact fun heq ↦ hnode (Option.some.inj heq)
  inside := by
    have hne : (Files.locate t.directory path).dropLast ≠ Files.locate t.directory path := by
      intro heq
      have hlength := congrArg List.length heq
      have hpos := List.length_pos_iff.mpr h.place_ne_nil
      rw [List.length_dropLast] at hlength
      omega
    rw [directory_putAt, nodeAt?_putAt h.place_ne_nil, if_neg hne]
    exact h.inside

end Admits

theorem write_eq_none (h : ¬t.Admits path) (node : FileNode) : t.write path node = none := by
  rw [write]
  refine if_pos ?_
  by_contra hnot
  simp only [Bool.or_eq_true, decide_eq_true_eq, not_or, not_not] at hnot
  exact h ⟨hnot.1.1, hnot.1.2, hnot.2⟩

/-! ## Databases that are spared -/

/-- No database is changed. Directories may have been made, and where there was nothing or an empty
file there may be a database without anything in it. -/
structure Spares (t t' : FileTree) : Prop where
  directory : t'.directory = t.directory
  nodeAt : ∀ q, t'.nodeAt? q = t.nodeAt? q ∨
    t.nodeAt? q = none ∧ t'.nodeAt? q = some .directory ∨
    (t.nodeAt? q = none ∨ t.nodeAt? q = some (.text "")) ∧
      t'.nodeAt? q = some (.database .empty)

theorem Extends.spares (h : t.Extends t') : t.Spares t' :=
  ⟨h.directory, fun q ↦ (h.nodeAt q).imp id .inl⟩

namespace Spares

theorem refl (t : FileTree) : t.Spares t := ⟨rfl, fun _ ↦ .inl rfl⟩

theorem trans (h : t.Spares t') (h' : t'.Spares t'') : t.Spares t'' where
  directory := h'.directory.trans h.directory
  nodeAt q := by
    have hq := h.nodeAt q
    have hq' := h'.nodeAt q
    generalize t.nodeAt? q = a at hq
    generalize t'.nodeAt? q = b at hq hq'
    generalize t''.nodeAt? q = c at hq'
    rcases hq with rfl | ⟨rfl, rfl⟩ | ⟨ha, rfl⟩
    · exact hq'
    · -- A directory stays what it is.
      exact .inr (.inl ⟨rfl, by simpa using hq'⟩)
    · -- And so does a database.
      exact .inr (.inr ⟨ha, by simpa using hq'⟩)

/-- Every database is one that was there, or is empty. -/
theorem hasDatabase (h : t.Spares t') {tables : Tables} (hq : t'.HasDatabase tables) :
    t.HasDatabase tables ∨ tables = .empty := by
  obtain ⟨q, hq⟩ := hq
  rcases h.nodeAt q with hsame | ⟨-, hmade⟩ | ⟨-, hmade⟩
  · exact .inl ⟨q, hsame ▸ hq⟩
  · rw [hmade] at hq
    cases hq
  · rw [hmade] at hq
    exact .inr (FileNode.database.inj (Option.some.inj hq)).symm

end Spares

/-- What was written and spares the databases: an empty one where there was none. -/
theorem Admits.spares_putAt (h : t.Admits path)
    (hnode : t.node? path = none ∨ t.node? path = some (.text "")) :
    t.Spares (t.putAt (Files.locate t.directory path) (.database .empty)) where
  directory := rfl
  nodeAt q := by
    rw [nodeAt?_putAt h.place_ne_nil]
    split_ifs with hq
    · rw [h.node?_eq] at hnode
      exact .inr (.inr ⟨hq ▸ hnode, rfl⟩)
    · exact .inl rfl

/-- Or a database like the one that was there. -/
theorem Admits.spares_putAt_same (h : t.Admits path) (hnode : t.node? path = some node) :
    t.Spares (t.putAt (Files.locate t.directory path) node) where
  directory := rfl
  nodeAt q := by
    rw [nodeAt?_putAt h.place_ne_nil]
    split_ifs with hq
    · rw [h.node?_eq] at hnode
      exact .inl (hq ▸ hnode.symm)
    · exact .inl rfl

end RecordLinkage.FileTree
