import RecordLinkage.Fault
import RecordLinkage.MatchKey.Config
import RecordLinkage.Query.Nodes
import RecordLinkage.Query.Reader
import RecordLinkage.Text.Blank

/-!
# Match values

A method computes match values from a payload: a set of strings, given in ascending order and each
once. An empty set is a valid answer. One method is known, which applies a query to the payload.

## All or nothing

The places that a query names form a list. If there is one place only and it holds an array, the
items of the array form the list instead. When every member of the list is a string, they are the
match values; when any is not, there are none.

The identifier of a record is looked up by a query as well, but less strictly: the first string is
taken, be it named by the query or an item of an array that is.
-/

namespace RecordLinkage

/-- A method that has been set up. -/
structure Method where
  name : String
  matchValues : Json → Except Fault (List String)

/-- A query that values are taken by. -/
structure Extractor where
  path : Query.Path

namespace Extractor

def parse (text : String) : Except Fault Extractor :=
  match Query.Path.ofText? text with
  | some path => .ok ⟨path⟩
  | none => .error (.matchKey "jsonpath: invalid expr")

/-- The strings of a list that holds nothing else. -/
def allStrings? (items : List Json) : Option (List String) := items.mapM Json.string?

/-- What a list of named values amounts to: one array alone stands for its items. -/
def flattened : List Json → List Json
  | [.array items] => items
  | nodes => nodes

def matchValues (e : Extractor) (payload : Json) : List String :=
  Sorted.ofList ((allStrings? (flattened (e.path.select payload))).getD [])

/-- The string that a named value offers, which may be an item of an array. -/
def stringOf? : Json → Option String
  | .string s => some s
  | .array items => items.findSome? Json.string?
  | _ => none

/-- The first string that is offered. -/
def firstString? (e : Extractor) (payload : Json) : Option String :=
  (e.path.select payload).findSome? stringOf?

def methodName : String := "jsonpath"

def toMethod (e : Extractor) : Method := ⟨methodName, fun payload ↦ .ok (e.matchValues payload)⟩

end Extractor

namespace Method

private def unknown (name : String) : Fault :=
  .matchKey ("unknown match key method '" ++ name ++ "' (known: " ++ Extractor.methodName ++ ")")

def create (name : String) (params : Json) : Except Fault Method :=
  if name = Extractor.methodName then
    match (params.get? "expr").bind Json.string? with
    | some text => (Extractor.parse text).map Extractor.toMethod
    | none => .error (.matchKey "jsonpath: expr must be given")
  else .error (unknown name)

end Method

namespace MatchKey

def createMethod (k : MatchKey) : Except Fault Method := Method.create k.method k.params

/-- Whether a match key can be used: it has a name, and its method can be set up. -/
def validate (k : MatchKey) : Except Fault Unit :=
  if Text.trim k.id = "" then .error (.validation "match key id must not be empty")
  else k.createMethod.map fun _ ↦ ()

end MatchKey

end RecordLinkage
