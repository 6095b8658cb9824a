import RecordLinkage.Files.Tree
import RecordLinkage.Store.Archive

/-!
# What files hold

The tree of files is a picture of files that are kept elsewhere. A file is put into the picture by
its content, where the archive of tables is a database and everything else is text. What has become
different between two pictures is what has to be written back.
-/

namespace RecordLinkage

namespace FileNode

/-- A file with a given content. -/
def ofContent (content : String) : FileNode :=
  match Tables.ofText? content with
  | some tables => .database tables
  | none => .text content

/-- The content of a file; a directory has none. -/
def content? : FileNode → Option String
  | .directory => none
  | .text content => some content
  | .database tables => some tables.text

end FileNode

namespace FileTree

/-- Puts a file into the tree, and the directories that it is in. Where that is not possible, the
tree stays as it is. -/
def place (t : FileTree) (path : String) (node : FileNode) : FileTree :=
  let withParent := (Files.parent? path).bind t.makeDirectories
  (((withParent.getD t).write path node)).getD t

/-- What is different in another tree, directories in front of what is in them. -/
def changes (t other : FileTree) : List (String × FileNode) :=
  (other.nodes.filter fun n ↦ !t.nodes.contains n).reverse.map fun n ↦
    ("/" ++ String.intercalate "/" n.1, n.2)

end FileTree

end RecordLinkage
