import DocumentStore.Double.Basic

/-!
JSON: its values, and what it takes to have texts of them.

A number is an integer or a double. The fields of an object are kept in their order, repeated ones
included. How values are written is the matter of a format; `JsonFormat.compact` is one.
-/

namespace DocumentStore

inductive Json where
  | null
  | bool (b : Bool)
  | integer (n : Int)
  | double (x : Double)
  | string (s : String)
  | array (items : List Json)
  | object (fields : List (String × Json))

instance : Inhabited Json := ⟨.null⟩

structure JsonFormat where
  write : Json → String
  read? : String → Option Json

end DocumentStore
