import DocumentStore.Double.Rounding
import DocumentStore.Value.Basic

/-!
The order and the equality of values.

Values of different kinds are ordered by kind. Integers and numbers share a place and are compared
by the number nearest to the integer; if the two agree, the integer comes first. Lists and documents
are compared item by item, documents by name before value, and the shorter one comes first. Equality
never crosses kinds.
-/

namespace DocumentStore

mutual

def Value.cmp : Value → Value → Ordering
  | .null, .null => .eq
  | .bool a, .bool b => compare a b
  | .integer a, .integer b => compare a.toInt b.toInt
  | .number a, .number b => a.cmp b
  | .integer a, .number b => ((Double.ofInt a.toInt).cmp b).then .lt
  | .number a, .integer b => (a.cmp (Double.ofInt b.toInt)).then .gt
  | .string a, .string b => compare a b
  | .bytes a, .bytes b => compare a b
  | .list a, .list b => Value.cmpItems a b
  | .map a, .map b => a.cmp b
  | a, b => compare a.kind.rank b.kind.rank
termination_by structural a => a

def Value.cmpItems : List Value → List Value → Ordering
  | [], [] => .eq
  | [], _ :: _ => .lt
  | _ :: _, [] => .gt
  | a :: as, b :: bs => (a.cmp b).then (Value.cmpItems as bs)
termination_by structural as => as

def Fields.cmp {bound bound' : Option String} : Fields bound → Fields bound' → Ordering
  | .nil, .nil => .eq
  | .nil, .cons .. => .lt
  | .cons .., .nil => .gt
  | .cons n _ v rest, .cons n' _ v' rest' =>
    ((compare n n').then (v.cmp v')).then (rest.cmp rest')
termination_by structural d => d

end

/-- The comparison behind `<` and `≤`, which may leave two values unordered. -/
def Value.partialCmp (a b : Value) : Option Ordering := some (a.cmp b)

def Fields.partialCmp {bound bound' : Option String} :
    Fields bound → Fields bound' → Option Ordering
  | .nil, .nil => some .eq
  | .nil, .cons .. => some .lt
  | .cons .., .nil => some .gt
  | .cons n _ v rest, .cons n' _ v' rest' =>
    match compare n n', v.partialCmp v' with
    | .eq, some .eq => rest.partialCmp rest'
    | .eq, order => order
    | order, _ => some order
termination_by structural d => d

mutual

def Value.same : Value → Value → Bool
  | .null, .null => true
  | .bool a, .bool b => a == b
  | .integer a, .integer b => a == b
  | .number a, .number b => a.same b
  | .string a, .string b => a == b
  | .bytes a, .bytes b => a == b
  | .list a, .list b => Value.sameItems a b
  | .map a, .map b => a.same b
  | _, _ => false
termination_by structural a => a

def Value.sameItems : List Value → List Value → Bool
  | [], [] => true
  | a :: as, b :: bs => a.same b && Value.sameItems as bs
  | _, _ => false
termination_by structural as => as

def Fields.same {bound bound' : Option String} : Fields bound → Fields bound' → Bool
  | .nil, .nil => true
  | .cons n _ v rest, .cons n' _ v' rest' => n == n' && v.same v' && rest.same rest'
  | _, _ => false
termination_by structural d => d

end

instance : BEq Value := ⟨Value.same⟩

instance {bound : Option String} : BEq (Fields bound) := ⟨Fields.same⟩

instance : Ord Value := ⟨Value.cmp⟩

instance {bound : Option String} : Ord (Fields bound) := ⟨Fields.cmp⟩

end DocumentStore
