import RecordLinkage.Query.Basic

/-!
# The values that a query names

Values are listed in the order in which they stand: items by their place, fields by their key, and
the selectors of a segment one after the other. A value that two selectors choose is listed twice.
For a descendant segment, a value comes before what is inside it.

## Comparisons

Numbers compare by the doubles nearest to them, strings by code points. Two operands without a value
are equal; nothing is less than one, nor is it less than anything.
-/

namespace RecordLinkage

namespace Json

/-- The items of an array or the field values of an object. -/
def children : Json → List Json
  | array items => items
  | object fields => fields.map (·.2)
  | _ => []

mutual

/-- A value and everything inside it, each before what is inside of it. -/
def inside : Json → List Json
  | array items => array items :: insideItems items
  | object fields => object fields :: insideFields fields
  | v => [v]

/-- The items of an array and everything inside them. -/
def insideItems : List Json → List Json
  | [] => []
  | v :: rest => inside v ++ insideItems rest

/-- The values of fields and everything inside them. -/
def insideFields : List (String × Json) → List Json
  | [] => []
  | (_, v) :: rest => inside v ++ insideFields rest

end

/-- The number of characters, items or fields. -/
def size? : Json → Option Nat
  | string s => some s.length
  | array items => some items.length
  | object fields => some fields.length
  | _ => none

end Json

namespace Query

/-! ## Items by place -/

/-- A place of a list of that length, counted from its beginning. -/
def place (length : Nat) (i : Int) : Int := if i < 0 then length + i else i

/-- The item at a place. -/
def itemAt? (items : List Json) (i : Int) : Option Json :=
  let i := place items.length i
  if i < 0 then none else items[i.toNat]?

/-- The places from `first` on, `count` of them, at a distance. -/
def placesFrom (first step : Int) : Nat → List Int
  | 0 => []
  | count + 1 => first :: placesFrom (first + step) step count

/-- The places that a slice of a list of that length covers, in its order. -/
def slicePlaces (length : Nat) (first last : Option Int) (step : Int) : List Int :=
  let n : Int := length
  if 0 < step then
    let lower := min (max (place length (first.getD 0)) 0) n
    let upper := min (max (place length (last.getD n)) 0) n
    placesFrom lower step ((upper - lower + step - 1) / step).toNat
  else if step < 0 then
    let upper := min (max (place length (first.getD (n - 1))) (-1)) (n - 1)
    let lower := match last with
      | some last => min (max (place length last) (-1)) (n - 1)
      | none => -1
    placesFrom upper step ((upper - lower - step - 1) / (-step)).toNat
  else []

/-! ## Comparison -/

def areEqual : Json → Json → Bool
  | .number a, .number b => a.toDouble.same b.toDouble
  | a, b => a.same b

/-- Whether one value is less than another; only numbers and strings are. -/
def isLess : Json → Json → Bool
  | .number a, .number b => a.toDouble.lt b.toDouble
  | .string a, .string b => a < b
  | _, _ => false

/-- Whether two operands are equal. -/
def operandsEqual : Option Json → Option Json → Bool
  | none, none => true
  | some a, some b => areEqual a b
  | _, _ => false

/-- Whether one operand is less than another. -/
def operandLess : Option Json → Option Json → Bool
  | some a, some b => isLess a b
  | _, _ => false

/-- Whether a relation holds between two operands. -/
def Relation.holds (a b : Option Json) : Relation → Bool
  | equal => operandsEqual a b
  | notEqual => !operandsEqual a b
  | less => operandLess a b
  | lessOrEqual => operandLess a b || operandsEqual a b
  | greater => operandLess b a
  | greaterOrEqual => operandLess b a || operandsEqual a b

/-! ## Evaluation -/

mutual

/-- The children that a selector chooses. -/
def Selector.nodes (root : Json) : Selector → Json → List Json
  | .wildcard, v => v.children
  | .name key, v => (v.get? key).toList
  | .index i, .array items => (itemAt? items i).toList
  | .index _, _ => []
  | .slice first last step, .array items =>
    (slicePlaces items.length first last step).filterMap fun i ↦ items[i.toNat]?
  | .slice _ _ _, _ => []
  | .filter test, v => v.children.filter fun child ↦ test.holds root child

/-- The children that some selectors choose, one selector after the other. -/
def selectorNodes (root : Json) : List Selector → Json → List Json
  | [], _ => []
  | s :: rest, v => s.nodes root v ++ selectorNodes root rest v

/-- What a segment takes from a value. -/
def Segment.nodes (root : Json) : Segment → Json → List Json
  | .child selectors, v => selectorNodes root selectors v
  | .descendant selectors, v => v.inside.flatMap fun w ↦ selectorNodes root selectors w

/-- What is reached from some values by going down segments. -/
def segmentNodes (root : Json) : List Segment → List Json → List Json
  | [], vs => vs
  | s :: rest, vs => segmentNodes root rest (vs.flatMap fun v ↦ s.nodes root v)

/-- The values that a query names. -/
def Path.nodes (root : Json) : Path → Json → List Json
  | .mk .root segments, _ => segmentNodes root segments [root]
  | .mk .current segments, v => segmentNodes root segments [v]

/-- Whether a child passes a test. -/
def Test.holds (root : Json) : Test → Json → Bool
  | .either a b, v => a.holds root v || b.holds root v
  | .both a b, v => a.holds root v && b.holds root v
  | .negation a, v => !a.holds root v
  | .presence path, v => !(path.nodes root v).isEmpty
  | .comparison relation a b, v => relation.holds (a.value? root v) (b.value? root v)

/-- The value of an operand, if it has one. -/
def Operand.value? (root : Json) : Operand → Json → Option Json
  | .literal value, _ => some value
  | .single path, v =>
    match path.nodes root v with
    | [w] => some w
    | _ => none
  | .length operand, v => ((operand.value? root v).bind Json.size?).map Json.nat
  | .count path, v => some (.nat (path.nodes root v).length)

end

/-- The values that a query names inside a value. -/
def Path.select (p : Path) (v : Json) : List Json := p.nodes v v

end Query

end RecordLinkage
