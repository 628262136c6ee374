import DocumentStore.Document.Path
import DocumentStore.Text.Quoted

/-!
The fields by which a collection is indexed: at most six different top-level fields, never the
identity.
-/

namespace DocumentStore

structure IndexSet where
  fields : List String
deriving DecidableEq, Inhabited

namespace IndexSet

def empty : IndexSet := ⟨[]⟩

def maxSize : Nat := 6

def problem? (earlier : List String) (field : String) : Option IndexFieldProblem :=
  if field = "" then some .empty
  else if field = identityField then some .identity
  else if Path.isDotted field then some .dotted
  else if field ∈ earlier then some .repeated
  else none

def checkFields (earlier : List String) : List String → Except Error Unit
  | [] => .ok ()
  | field :: rest =>
    match problem? earlier field with
    | some problem => .error (.invalidIndexField field problem)
    | none => checkFields (earlier ++ [field]) rest

def ofFields (fields : List String) : Except Error IndexSet := do
  if maxSize < fields.length then throw (.tooManyIndexes fields.length)
  checkFields [] fields
  return ⟨fields⟩

def contains (s : IndexSet) (field : String) : Bool := s.fields.contains field

def size (s : IndexSet) : Nat := s.fields.length

def isEmpty (s : IndexSet) : Bool := s.fields.isEmpty

def text (s : IndexSet) : String := Text.bracketed s.fields

def describe (s : IndexSet) : String :=
  Text.record "IndexSet" [("fields", Text.bracketed (s.fields.map Text.quoted))]

end IndexSet

end DocumentStore
