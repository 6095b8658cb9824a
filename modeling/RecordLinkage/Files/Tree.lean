import RecordLinkage.Files.Path
import RecordLinkage.Store.Tables

/-!
# Files

A tree of directories and files. A file holds text or a database. Files are addressed by where they
are in the tree, see `Files.locate`; the top of the tree is a directory that is always there.

Databases are the only files that this library writes besides the settings, and nobody else reads
them, so it does not matter what they look like as text.
-/

namespace RecordLinkage

/-- What is at a place in the tree. -/
inductive FileNode where
  | directory
  | text (content : String)
  | database (tables : Tables)
  deriving DecidableEq, Repr

/-- The files, and the directory from which paths start. -/
structure FileTree where
  /-- The directory from which paths start. -/
  directory : String
  /-- What there is, except for the top of the tree. -/
  nodes : List (List String × FileNode)
  deriving DecidableEq, Repr

namespace FileTree

def empty (directory : String) : FileTree where
  directory := directory
  nodes := (Files.way (Files.parts directory)).map fun place ↦ (place, .directory)

/-- What is at a place. -/
def nodeAt? (t : FileTree) (place : List String) : Option FileNode :=
  if place.isEmpty then some .directory
  else (t.nodes.find? fun n ↦ n.1 = place).map (·.2)

/-- What a path leads to. -/
def node? (t : FileTree) (path : String) : Option FileNode :=
  if path = "" then none else t.nodeAt? (Files.locate t.directory path)

/-- Whether there is something. -/
def hasPath (t : FileTree) (path : String) : Bool := (t.node? path).isSome

/-- Puts something at a place, in the place of what was there. -/
def putAt (t : FileTree) (place : List String) (node : FileNode) : FileTree :=
  { t with nodes := (place, node) :: t.nodes.filter fun n ↦ n.1 ≠ place }

/-- Makes a directory unless it is there; nothing where a file is in the way. -/
def makeDirectory (t : FileTree) (place : List String) : Option FileTree :=
  match t.nodeAt? place with
  | some .directory => some t
  | some _ => none
  | none => some (t.putAt place .directory)

/-- Makes a directory and those that it is in, as far as they are missing; nothing where a file is
in the way. -/
def makeDirectories (t : FileTree) (path : String) : Option FileTree :=
  if path = "" then some t
  else (Files.way (Files.locate t.directory path)).foldlM makeDirectory t

/-- Writes a file into a directory that is there; nothing where that is not possible. -/
def write (t : FileTree) (path : String) (node : FileNode) : Option FileTree :=
  let place := Files.locate t.directory path
  if path = "" || t.nodeAt? place = some .directory ||
      t.nodeAt? place.dropLast ≠ some .directory then none
  else some (t.putAt place node)

/-- The text of a file; that of a database is not meant to be read. -/
def read? (t : FileTree) (path : String) : Option String :=
  match t.node? path with
  | some (.text content) => some content
  | some (.database _) => some (String.singleton (Char.ofNat 0))
  | _ => none

end FileTree

end RecordLinkage
