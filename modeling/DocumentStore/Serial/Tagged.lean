import DocumentStore.Double.Rounding
import DocumentStore.Serial.Json
import DocumentStore.Value.Basic

/-!
The interchange form of values: JSON in which every value carries the name of its kind. Null is the
name alone; any other value is an object with the name as its one field.
-/

namespace DocumentStore

namespace Value

mutual

def toJson : Value → Json
  | null => .string "Null"
  | bool b => .object [("Bool", .bool b)]
  | integer n => .object [("Integer", .integer n.toInt)]
  | number x => .object [("Number", if x.isFinite then .double x else .null)]
  | string s => .object [("String", .string s)]
  | bytes bs => .object [("Bytes", .array (bs.map fun b => .integer b.toNat))]
  | list items => .object [("List", .array (itemsToJson items))]
  | map d => .object [("Map", .object (fieldsToJson d))]

def itemsToJson : List Value → List Json
  | [] => []
  | v :: rest => v.toJson :: itemsToJson rest

def fieldsToJson {bound : Option String} : Fields bound → List (String × Json)
  | .nil => []
  | .cons name _ value rest => (name, value.toJson) :: fieldsToJson rest

end

def integerOfJson? : Json → Option Int64
  | .integer n =>
    if Int64.minValue.toInt ≤ n ∧ n ≤ Int64.maxValue.toInt then some (Int64.ofInt n) else none
  | _ => none

/-- Integers are numbers too, rounded if need be. -/
def numberOfJson? : Json → Option Double
  | .integer n => some (.ofInt n)
  | .double x => some x
  | _ => none

def byteOfJson? : Json → Option UInt8
  | .integer n => if 0 ≤ n ∧ n < 256 then some (UInt8.ofNat n.toNat) else none
  | _ => none

def bytesOfJson? : Json → Option (List UInt8)
  | .array items => items.mapM byteOfJson?
  | _ => none

mutual

def ofJson? : Json → Option Value
  | .string "Null" => some null
  | .object [("Null", .null)] => some null
  | .object [("Bool", .bool b)] => some (bool b)
  | .object [("Integer", j)] => (integerOfJson? j).map integer
  | .object [("Number", j)] => (numberOfJson? j).map number
  | .object [("String", .string s)] => some (string s)
  | .object [("Bytes", j)] => (bytesOfJson? j).map bytes
  | .object [("List", .array items)] => (itemsOfJson? items).map list
  | .object [("Map", .object fields)] =>
    (fieldsOfJson? fields).map fun fields => map (Document.ofList fields)
  | _ => none

def itemsOfJson? : List Json → Option (List Value)
  | [] => some []
  | j :: rest => do
    let v ← ofJson? j
    return v :: (← itemsOfJson? rest)

def fieldsOfJson? : List (String × Json) → Option (List (String × Value))
  | [] => some []
  | (name, j) :: rest => do
    let v ← ofJson? j
    return (name, v) :: (← fieldsOfJson? rest)

end

def serialize (f : JsonFormat) (v : Value) : String := f.write v.toJson

def deserialize? (f : JsonFormat) (s : String) : Option Value := do ofJson? (← f.read? s)

end Value

end DocumentStore
