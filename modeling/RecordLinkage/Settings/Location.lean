import RecordLinkage.Files.Tree
import RecordLinkage.Identity.Name
import RecordLinkage.Settings.Encoding

/-!
# Where settings and databases are

The settings are in a file below the home directory. Without that file the defaults hold. Each
tenant has a database of its own in the data directory; a data directory that begins with a tilde is
below the home directory.
-/

namespace RecordLinkage.Settings

/-- The directory of the settings. -/
def directory (home : String) : String := Files.join home ".reservoir"

/-- The file of the settings. -/
def file (home : String) : String := Files.join (directory home) "reservoir.toml"

/-- The directory of the databases. -/
def dataDir (s : Settings) (home : String) : String :=
  if s.storage.dataDir.startsWith "~/" then
    Files.join home (String.ofList (s.storage.dataDir.toList.drop 2))
  else s.storage.dataDir

/-- The database of a tenant. -/
def databasePath (s : Settings) (home : String) (tenant : TenantId) : String :=
  Files.join (s.dataDir home) (tenant.text ++ ".db")

/-- Reads settings from a file. -/
def loadFrom (files : FileTree) (path : String) : Except Fault Settings :=
  match files.read? path with
  | some text => parse text
  | none => .error (.file path none)

/-- Reads the settings, which are the defaults if there is no file. -/
def load (files : FileTree) (home : String) : Except Fault Settings :=
  if files.hasPath (file home) then loadFrom files (file home) else .ok standard

/-- Writes the defaults into the file of the settings. The answer is its path. -/
def init (files : FileTree) (home : String) : Except Fault (String × FileTree) :=
  match files.makeDirectories (directory home) with
  | none => .error (.file (directory home) none)
  | some files =>
    match files.write (file home) (.text standard.toText) with
    | none => .error (.file (file home) none)
    | some files => .ok (file home, files)

end RecordLinkage.Settings
