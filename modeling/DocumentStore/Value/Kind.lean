/-!
The kinds of values and their names.
-/

namespace DocumentStore

inductive Kind where
  | null
  | bool
  | integer
  | number
  | string
  | bytes
  | list
  | map
deriving DecidableEq, Inhabited

namespace Kind

def name : Kind → String
  | .null => "null"
  | .bool => "bool"
  | .integer => "integer"
  | .number => "number"
  | .string => "string"
  | .bytes => "bytes"
  | .list => "list"
  | .map => "map"

def isIndexable : Kind → Bool
  | .string | .integer | .number | .bool | .bytes => true
  | .null | .list | .map => false

/-- The place of a kind in the order of values. Integers and numbers share one place. -/
def rank : Kind → Nat
  | .null => 0
  | .bool => 1
  | .integer | .number => 2
  | .string => 3
  | .bytes => 4
  | .list => 5
  | .map => 6

end Kind

end DocumentStore
