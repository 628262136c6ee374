import DocumentStore.Double.Basic
import DocumentStore.Value.Kind

/-!
Values and documents.

A document is a list of named values in ascending order of names. The order is part of the type:
each field carries a proof that its name lies above the name before it, so there is one document for
each assignment of values to names, and a document nested in a value is as ordered as one at the
top.
-/

namespace DocumentStore

/-- The names that may stand behind a given name; behind none, any name. -/
def Above : Option String → String → Prop
  | none, _ => True
  | some bound, name => bound < name

/-- What stands behind a name stands behind everything that the name stands behind. -/
theorem Above.trans {bound : Option String} {a : String} (h : Above bound a) (b : String)
    (hab : Above (some a) b) : Above bound b := by
  cases bound with
  | none => trivial
  | some bound => exact String.lt_trans h hab

mutual

inductive Value where
  | null
  | bool (b : Bool)
  | integer (n : Int64)
  | number (x : Double)
  | string (s : String)
  | bytes (bs : List UInt8)
  | list (items : List Value)
  | map (fields : Fields none)

/-- Fields in ascending order of names, all above `bound`. -/
inductive Fields : Option String → Type where
  | nil {bound : Option String} : Fields bound
  | cons {bound : Option String} (name : String) (above : Above bound name) (value : Value)
      (rest : Fields (some name)) : Fields bound

end

abbrev Document := Fields none

instance : Inhabited Value := ⟨.null⟩

instance {bound : Option String} : Inhabited (Fields bound) := ⟨.nil⟩

namespace Value

def kind : Value → Kind
  | null => .null
  | bool _ => .bool
  | integer _ => .integer
  | number _ => .number
  | string _ => .string
  | bytes _ => .bytes
  | list _ => .list
  | map _ => .map

def isIndexable (v : Value) : Bool := v.kind.isIndexable

def asBool? : Value → Option Bool
  | bool b => some b
  | _ => none

def asInteger? : Value → Option Int64
  | integer n => some n
  | _ => none

def asNumber? : Value → Option Double
  | number x => some x
  | _ => none

def asString? : Value → Option String
  | string s => some s
  | _ => none

def asBytes? : Value → Option (List UInt8)
  | bytes bs => some bs
  | _ => none

def asList? : Value → Option (List Value)
  | list items => some items
  | _ => none

def asDocument? : Value → Option Document
  | map d => some d
  | _ => none

end Value

namespace Fields

variable {bound : Option String}

def toList {bound : Option String} : Fields bound → List (String × Value)
  | nil => []
  | cons name _ value rest => (name, value) :: rest.toList

def names (d : Fields bound) : List String := d.toList.map Prod.fst

def size (d : Fields bound) : Nat := d.toList.length

def isEmpty (d : Fields bound) : Bool := d.toList.isEmpty

def get? {bound : Option String} (d : Fields bound) (name : String) : Option Value :=
  match d with
  | nil => none
  | cons n _ value rest => if name = n then some value else rest.get? name

def contains (d : Fields bound) (name : String) : Bool := (d.get? name).isSome

/-- The fields under a lower bound: a name above the old bound is above the new one. -/
def lower {bound bound' : Option String} (h : ∀ name, Above bound name → Above bound' name) :
    Fields bound → Fields bound'
  | nil => nil
  | cons name above value rest => cons name (h name above) value rest

def insertAbove {bound : Option String} (name : String) (above : Above bound name) (value : Value) :
    Fields bound → Fields bound
  | nil => cons name above value nil
  | cons n hn v rest =>
    if before : name < n then cons name above value (cons n before v rest)
    else if behind : n < name then cons n hn v (rest.insertAbove name behind value)
    else cons n hn value rest

def erase {bound : Option String} (d : Fields bound) (name : String) : Fields bound :=
  match d with
  | nil => nil
  | cons n above v rest =>
    if name = n then rest.lower above.trans else cons n above v (rest.erase name)

end Fields

namespace Document

def insert (d : Document) (name : String) (value : Value) : Document :=
  Fields.insertAbove name trivial value d

/-- The document of a list of fields, a later field replacing an earlier one of its name. -/
def ofList (fields : List (String × Value)) : Document :=
  fields.foldl (fun d (name, value) => insert d name value) .nil

end Document

end DocumentStore
