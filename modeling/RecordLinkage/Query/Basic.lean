import RecordLinkage.Json.Value

/-!
# Queries

A query names places inside a JSON value, in the notation of RFC 9535: it starts at the value and
goes down segment by segment. Each segment has selectors, and takes from every value that it is
given the children that its selectors choose.

A filter selector chooses children by a test. Tests contain queries in turn, which start either at
the child or at the value that the whole query is applied to.

## What a test compares

The operands of a comparison are literals, queries that name at most one place, and the results of
functions. An operand may be without a value, which is something else than null.
-/

namespace RecordLinkage.Query

inductive Relation where
  | equal
  | notEqual
  | less
  | lessOrEqual
  | greater
  | greaterOrEqual
  deriving DecidableEq, Repr

/-- Where a query starts. -/
inductive Origin where
  /-- At the value that the outermost query is applied to. -/
  | root
  /-- At the child that is tested. -/
  | current
  deriving DecidableEq, Repr

mutual

/-- Chooses some children of a value. -/
inductive Selector where
  | wildcard
  /-- The field of that name. -/
  | name (key : String)
  /-- The item at that place; negative places count from the end. -/
  | index (place : Int)
  /-- The items from one place up to another, at a distance. -/
  | slice (first last : Option Int) (step : Int)
  /-- The children that pass a test. -/
  | filter (test : Test)

/-- One step down. -/
inductive Segment where
  /-- From a value to some of its children. -/
  | child (selectors : List Selector)
  /-- From a value to some children of it and of everything inside it. -/
  | descendant (selectors : List Selector)

/-- A query with the place where it starts. -/
inductive Path where
  | mk (origin : Origin) (segments : List Segment)

/-- A condition on a child. -/
inductive Test where
  | either (a b : Test)
  | both (a b : Test)
  | negation (a : Test)
  /-- The query names a place at all. -/
  | presence (path : Path)
  | comparison (relation : Relation) (a b : Operand)

/-- What can be compared. -/
inductive Operand where
  /-- A null, a truth value, a number or a string. -/
  | literal (value : Json)
  /-- The value that a query names, if it names exactly one. -/
  | single (path : Path)
  /-- The number of characters, items or fields. -/
  | length (operand : Operand)
  /-- The number of places that a query names. -/
  | count (path : Path)

end

instance : Inhabited Selector := ⟨.wildcard⟩

instance : Inhabited Segment := ⟨.child []⟩

instance : Inhabited Path := ⟨.mk .root []⟩

namespace Selector

/-- Whether the selector chooses one child at most, whatever the value. -/
def isSingular : Selector → Bool
  | name _ | index _ => true
  | _ => false

end Selector

namespace Segment

/-- Whether the segment leads to one place at most. -/
def isSingular : Segment → Bool
  | child [selector] => selector.isSingular
  | _ => false

end Segment

namespace Path

def segments : Path → List Segment
  | mk _ segments => segments

/-- Whether the query names one place at most. -/
def isSingular (p : Path) : Bool := p.segments.all Segment.isSingular

end Path

end RecordLinkage.Query
