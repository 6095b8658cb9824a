import RecordLinkage.Order.Sorted

/-!
# Cutting match values

Match values are cut to a number of characters before they are used. Values that agree up to there
become one.
-/

namespace RecordLinkage.Clustering

/-- The first characters of a value. -/
def cut (limit : Nat) (value : String) : String := String.ofList (value.toList.take limit)

/-- A set of values, each cut. -/
def truncate (limit : Nat) (values : List String) : List String :=
  Sorted.ofList (values.map (cut limit))

end RecordLinkage.Clustering
