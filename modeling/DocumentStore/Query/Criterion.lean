import DocumentStore.Pattern.Basic
import DocumentStore.Store.Key
import DocumentStore.Value.Order

/-!
What a query asks of the value of one field.

A literal criterion asks for a value: lists must agree item by item, while a map asks only for the
fields it names. The others ask for absence, for a pattern to occur in a string, for a list to
contain items, or for a predicate to hold. Only absence and predicates can be met by a field that is
not there.
-/

namespace DocumentStore

inductive Criterion where
  | absent
  | null
  | bool (b : Bool)
  | integer (n : Int64)
  | number (x : Double)
  | string (s : String)
  | bytes (bs : List UInt8)
  | list (items : List Criterion)
  | map (fields : List (String × Criterion))
  | predicate (holds : Option Value → Bool)
  | pattern (p : Pattern)
  | contains (items : List Criterion)

instance : Inhabited Criterion := ⟨.absent⟩

namespace Criterion

mutual

def ofValue : Value → Criterion
  | .null => null
  | .bool b => bool b
  | .integer n => integer n
  | .number x => number x
  | .string s => string s
  | .bytes bs => bytes bs
  | .list items => list (ofItems items)
  | .map d => map (ofFields d)

def ofItems : List Value → List Criterion
  | [] => []
  | v :: rest => ofValue v :: ofItems rest

def ofFields {bound : Option String} : Fields bound → List (String × Criterion)
  | .nil => []
  | .cons name _ value rest => (name, ofValue value) :: ofFields rest

end

mutual

def accepts : Criterion → Option Value → Bool
  | absent, v => v.isNone
  | predicate holds, v => holds v
  | null, some .null => true
  | bool a, some (.bool b) => a == b
  | integer a, some (.integer b) => a == b
  | number a, some (.number b) => a.same b
  | string a, some (.string b) => a == b
  | bytes a, some (.bytes b) => a == b
  | pattern p, some (.string s) => p.occursIn s
  | list items, some (.list values) => acceptItems items values
  | map fields, some (.map d) => acceptFields fields d
  | contains items, some (.list values) => containsAll items values
  | _, _ => false

def acceptItems : List Criterion → List Value → Bool
  | [], [] => true
  | c :: criteria, v :: values => c.accepts (some v) && acceptItems criteria values
  | _, _ => false

def acceptFields : List (String × Criterion) → Document → Bool
  | [], _ => true
  | (name, c) :: rest, d => c.accepts (d.get? name) && acceptFields rest d

def containsAll : List Criterion → List Value → Bool
  | [], _ => true
  | c :: rest, values => values.any (fun v => c.accepts (some v)) && containsAll rest values

end

mutual

def isLiteral : Criterion → Bool
  | absent | predicate _ | pattern _ | contains _ => false
  | list items => areLiteral items
  | map fields => fieldsAreLiteral fields
  | null | bool _ | integer _ | number _ | string _ | bytes _ => true

def areLiteral : List Criterion → Bool
  | [] => true
  | c :: rest => c.isLiteral && areLiteral rest

def fieldsAreLiteral : List (String × Criterion) → Bool
  | [] => true
  | (_, c) :: rest => c.isLiteral && fieldsAreLiteral rest

end

/-- The key part that every value accepted by the criterion is indexed under, if there is one. -/
def indexPart? : Criterion → Option KeyPart
  | string s => some (.string s)
  | integer n => some (.integer n)
  | number x => some (.ofDouble x)
  | bool b => some (.bool b)
  | bytes bs => some (.bytes bs)
  | _ => none

mutual

def text : Criterion → String
  | absent => "Absent"
  | null => "Null"
  | bool b => "Bool(" ++ toString b ++ ")"
  | integer n => "Integer(" ++ toString n.toInt ++ ")"
  | number x => "Number(" ++ NumberLayout.plain.text x ++ ")"
  | string s => "String(" ++ Text.quoted s ++ ")"
  | bytes bs => "Bytes(" ++ Text.bracketed (bs.map fun b => toString b.toNat) ++ ")"
  | list items => Text.bracketed (itemTexts items)
  | map fields => Text.braced (fieldTexts fields)
  | predicate _ => "Predicate(..)"
  | pattern p => "Regex(" ++ Text.quoted p.source ++ ")"
  | contains items => "Contains" ++ Text.bracketed (itemTexts items)

def itemTexts : List Criterion → List String
  | [] => []
  | c :: rest => c.text :: itemTexts rest

def fieldTexts : List (String × Criterion) → List String
  | [] => []
  | (name, c) :: rest => (Text.quoted name ++ ": " ++ c.text) :: fieldTexts rest

end

end Criterion

end DocumentStore
