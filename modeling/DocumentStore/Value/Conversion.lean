import DocumentStore.Double.Rounding
import DocumentStore.Value.Basic

/-!
Values of plain data.
-/

namespace DocumentStore.Value

def ofInt (n : Int) : Value := integer (Int64.ofInt n)

/-- A count: an integer if it fits, else the nearest number. -/
def ofCount (n : Nat) : Value :=
  if (n : Int) ≤ Int64.maxValue.toInt then ofInt n else number (.ofInt n)

def ofSingle (bits : UInt32) : Value := number (.ofSingle bits)

def ofStrings (items : List String) : Value := list (items.map string)

def ofOptional : Option String → Value
  | some s => string s
  | none => null

end DocumentStore.Value
