/-!
# Paths

A path is a text whose parts are separated by slashes. Empty parts and parts that are a single point
mean nothing; a slash in front makes a path absolute. Paths are shown as they were given, so they
are joined and cut as texts, and only taken apart where a file is looked up.
-/

namespace RecordLinkage.Files

/-- A path below another one. An absolute path stays as it is. -/
def join (base path : String) : String :=
  if path.startsWith "/" || base = "" then path
  else if base.endsWith "/" then base ++ path
  else base ++ "/" ++ path

private def splitSlashes : List Char → List (List Char)
  | [] => [[]]
  | c :: rest =>
    match splitSlashes rest with
    | part :: parts => if c = '/' then [] :: part :: parts else (c :: part) :: parts
    | [] => [[c]]

/-- The parts of a path that mean something. -/
def parts (path : String) : List String :=
  ((splitSlashes path.toList).map String.ofList).filter fun part ↦ part ≠ "" && part ≠ "."

/-- Where a path leads, seen from a directory: the parts from the top of the tree. Two points lead
one part back. -/
def locate (directory path : String) : List String :=
  let start := if path.startsWith "/" then [] else parts directory
  (parts path).foldl (fun here part ↦ if part = ".." then here.dropLast else here ++ [part]) start

/-- The places on the way to a place below the top, itself included. -/
def way (place : List String) : List (List String) :=
  (List.range place.length).map fun n ↦ place.take (n + 1)

private def withoutEmptyEnd : List (List Char) → List (List Char)
  | [] => []
  | part :: before => if part = [] || part = ['.'] then withoutEmptyEnd before else part :: before

/-- The directory of a path: what is in front of its last part. Nothing for a path without parts. -/
def parent? (path : String) : Option String :=
  if (parts path).isEmpty then none
  else
    let split := splitSlashes path.toList
    let before := withoutEmptyEnd ((withoutEmptyEnd split.reverse).drop 1)
    let text := String.ofList (List.intercalate ['/'] before.reverse)
    some (if text = "" && path.startsWith "/" then "/" else text)

end RecordLinkage.Files
