import RecordLinkage.CommandLine.Report
import RecordLinkage.Files.Content
import RecordLinkage.Text.Utf8
import Std.Time.DateTime.Timestamp

/-!
# The program

Reads the files that a command looks at, carries the command out, and writes back what has changed.
-/

namespace RecordLinkage.Program

open CommandLine

/-- What a path leads to: the content of a file, or nothing but the fact that there is something. -/
inductive Found where
  | nothing
  | directory
  | file (content : String)

/-- Looks at a path. -/
def look (path : String) : IO Found := do
  try
    let bytes ← IO.FS.readBinFile path
    return .file (String.ofList (Text.decodeUtf8 bytes.toList))
  catch
    | .noFileOrDirectory .. => return .nothing
    | _ => return .directory

/-- Adds to the tree what a path leads to. -/
def discover (files : FileTree) (path : String) : IO FileTree := do
  match ← look path with
  | .nothing => return files
  | .directory => return (files.makeDirectories path).getD files
  | .file content => return files.place path (.ofContent content)

/-- Writes back one file or directory. -/
def save (change : String × FileNode) : IO Unit :=
  match change.2.content? with
  | some content => IO.FS.writeFile change.1 content
  | none => IO.FS.createDirAll change.1

/-- The present time, in microseconds. -/
def presentTime : IO Datestamp := do
  let now ← Std.Time.Timestamp.now
  return now.toNanosecondsSinceUnixEpoch.val / 1000

/-- Identifiers that begin with the present time in milliseconds. -/
def freshIds (now : Datestamp) : IO IdSupply := do
  let noise ← IO.getRandomBytes 4
  let number := noise.toList.foldl (fun n b ↦ n * 256 + b.toNat) 0
  return ⟨(now / 1000).toNat * 2 ^ 80 + 7 * 2 ^ 76 + 2 ^ 63 + number * 2 ^ 24⟩

def carryOut (i : Invocation) : IO UInt32 := do
  let home := (← IO.getEnv "HOME").getD "/"
  let now ← presentTime
  let ids ← freshIds now
  let files ← discover (.empty (← IO.currentDir).toString) (i.settingsFile home)
  let files ← (i.inputs ⟨files, home, now, .inOrder, ids⟩).foldlM discover files
  let (result, after) := i.run.run ⟨files, home, now, .inOrder, ids⟩
  (files.changes after.files).forM save
  match result with
  | .ok answer =>
    IO.print answer
    return 0
  | .error failure =>
    IO.eprintln ("Error: " ++ failure.message)
    return 1

/-- Reads the command line and carries it out. -/
def run (args : List String) : IO UInt32 := do
  match Invocation.parse (← IO.getEnv "RESERVOIR_TENANT") args with
  | .ok i => carryOut i
  | .error usage =>
    if usage.isAnswer then
      IO.println usage.message
      return 0
    else
      IO.eprintln usage.message
      return 2

end RecordLinkage.Program

def main (args : List String) : IO UInt32 := RecordLinkage.Program.run args
