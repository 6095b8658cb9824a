import RecordLinkage.Json.Value
import RecordLinkage.Number.Integer
import RecordLinkage.Settings.Basic
import RecordLinkage.Toml.Reader
import RecordLinkage.Toml.Writer

/-!
# Settings as text

Settings are read from TOML and written as TOML. The two groups of settings are two sections; a
section is a table, or an array that gives the values in the order in which they are written. What
is missing has its default, and names that are not known are passed over.
-/

namespace RecordLinkage

/-- The values of a section in the order of the names, as far as they are given. A date counts as a
section that gives none. -/
def Toml.section? (names : List String) : Toml → Option (List (Option Toml))
  | .table _ fields => some (names.map fun name ↦ Toml.lookup name fields)
  | .array items | .tables items =>
    some ((List.range names.length).map fun place ↦ items[place]?)
  | .date => some (names.map fun _ ↦ none)
  | _ => none

private def textOr? (fallback : String) : Option Toml → Option String
  | none => some fallback
  | some (.string s) => some s
  | some _ => none

private def countOr? (fallback : Nat) (limit : Nat) : Option Toml → Option Nat
  | none => some fallback
  | some (.integer i) => if 0 ≤ i && i < limit then some i.toNat else none
  | some _ => none

namespace StorageSettings

/-- The names of the settings, in order. -/
def names : List String := ["data_dir", "busy_timeout_ms", "fetch_size"]

/-- Reads a section. -/
def ofToml? : Option Toml → Option StorageSettings
  | none => some standard
  | some v => do
    match ← v.section? names with
    | [dataDir, busyTimeoutMs, fetchSize] =>
      some ⟨← textOr? standard.dataDir dataDir,
        ← countOr? standard.busyTimeoutMs (2 ^ 64) busyTimeoutMs,
        ← countOr? standard.fetchSize (2 ^ 32) fetchSize⟩
    | _ => none

end StorageSettings

namespace IngestSettings

/-- The names of the settings, in order. -/
def names : List String := ["window", "match_value_max_length", "retries"]

/-- Reads a section. -/
def ofToml? : Option Toml → Option IngestSettings
  | none => some standard
  | some v => do
    match ← v.section? names with
    | [window, matchValueMaxLength, retries] =>
      some ⟨← countOr? standard.window (2 ^ 64) window,
        ← countOr? standard.matchValueMaxLength (2 ^ 64) matchValueMaxLength,
        ← countOr? standard.retries (2 ^ 64) retries⟩
    | _ => none

end IngestSettings

namespace Settings

/-- Reads settings, without judging them. -/
def ofText? (text : String) : Option Settings := do
  let fields ← Toml.read? text
  some ⟨← StorageSettings.ofToml? (Toml.lookup "storage" fields),
    ← IngestSettings.ofToml? (Toml.lookup "ingest" fields)⟩

/-- Reads settings that can be used. -/
def parse (text : String) : Except Fault Settings :=
  match ofText? text with
  | some s => s.validate
  | none => .error (.config "failed to parse")

open Toml in
def toText (s : Settings) : String :=
  let count (key : String) (n : Nat) : List Char := fieldChars key (Number.decimalDigits n)
  String.ofList (
    headerChars "storage" ++ fieldChars "data_dir" (stringChars s.storage.dataDir) ++
      count "busy_timeout_ms" s.storage.busyTimeoutMs ++ count "fetch_size" s.storage.fetchSize ++
    '\n' :: headerChars "ingest" ++ count "window" s.ingest.window ++
      count "match_value_max_length" s.ingest.matchValueMaxLength ++
      count "retries" s.ingest.retries)

end Settings

end RecordLinkage
