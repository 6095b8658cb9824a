import RecordLinkage.Json.Printer
import RecordLinkage.Json.Scanner
import RecordLinkage.Store.Tables

/-!
# Tables as text

A database file holds the tables as one JSON value: an array of rows for each table. Columns that
hold text are written as they are, whatever it is, and a cell is written by its text. So what other
programs have put there is still there after writing and reading.

A text that holds something else is no archive, and is told from one by the field that names the
format.
-/

namespace RecordLinkage

private def textField? (v : Json) (name : String) : Option String := (v.get? name).bind Json.string?

private def integerField? (v : Json) (name : String) : Option Int := (v.get? name).bind Json.int?

private def rowsField? {α : Type} (v : Json) (name : String) (read : Json → Option α) :
    Option (List α) :=
  ((v.get? name).bind Json.array?).bind fun rows ↦ rows.mapM read

namespace RecordRow

def archived (r : RecordRow) : Json :=
  Json.object [("id", .string r.id.text), ("localId", .string r.key.localId),
    ("source", .string r.key.source.text), ("version", .int r.key.version),
    ("payload", .string r.payload)]

def ofArchived? (v : Json) : Option RecordRow := do
  let source ← (SourceId.parse (← textField? v "source")).toOption
  let key : RecordKey := ⟨← textField? v "localId", source, ← integerField? v "version"⟩
  some ⟨Cell.ofText (← textField? v "id"), key, ← textField? v "payload"⟩

end RecordRow

namespace MatchKeyRow

def archived (r : MatchKeyRow) : Json :=
  Json.object [("id", .string r.id), ("method", .string r.method), ("params", .string r.params),
    ("update", .string r.update)]

def ofArchived? (v : Json) : Option MatchKeyRow := do
  some ⟨← textField? v "id", ← textField? v "method", ← textField? v "params",
    ← textField? v "update"⟩

end MatchKeyRow

namespace ClusterMark

def archived (m : ClusterMark) : Json :=
  Json.object [("cluster", .string m.cluster.text), ("config", .string m.config),
    ("datestamp", .int m.datestamp)]

def ofArchived? (v : Json) : Option ClusterMark := do
  some ⟨← ClusterId.ofText? (← textField? v "cluster"), ← textField? v "config",
    ← integerField? v "datestamp"⟩

end ClusterMark

namespace OwnerRow

def archived (o : OwnerRow) : Json :=
  Json.object [("config", .string o.config), ("value", .string o.value),
    ("cluster", .string o.cluster.text)]

def ofArchived? (v : Json) : Option OwnerRow := do
  some ⟨← textField? v "config", ← textField? v "value", Cell.ofText (← textField? v "cluster")⟩

end OwnerRow

namespace MemberRow

def archived (m : MemberRow) : Json :=
  Json.object [("record", .string m.record.text), ("config", .string m.config),
    ("cluster", .string m.cluster.text)]

def ofArchived? (v : Json) : Option MemberRow := do
  some ⟨← RecordId.ofText? (← textField? v "record"), ← textField? v "config",
    Cell.ofText (← textField? v "cluster")⟩

end MemberRow

namespace Tables

def format : String := "record linkage tables"

def archived (t : Tables) : Json :=
  Json.object [("format", .string format),
    ("records", .array (t.records.map RecordRow.archived)),
    ("matchKeys", .array (t.matchKeys.map MatchKeyRow.archived)),
    ("marks", .array (t.marks.map ClusterMark.archived)),
    ("owners", .array (t.owners.map OwnerRow.archived)),
    ("members", .array (t.members.map MemberRow.archived))]

def text (t : Tables) : String := t.archived.text

def ofArchived? (v : Json) : Option Tables := do
  if textField? v "format" ≠ some format then none
  else some {
    records := ← rowsField? v "records" RecordRow.ofArchived?
    matchKeys := ← rowsField? v "matchKeys" MatchKeyRow.ofArchived?
    marks := ← rowsField? v "marks" ClusterMark.ofArchived?
    owners := ← rowsField? v "owners" OwnerRow.ofArchived?
    members := ← rowsField? v "members" MemberRow.ofArchived? }

def ofText? (s : String) : Option Tables := (Json.parse? s).bind ofArchived?

end Tables

end RecordLinkage
