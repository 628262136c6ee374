import DocumentStore.Document.Path
import DocumentStore.FieldTable
import DocumentStore.Value.Order
import DocumentStore.Value.Text

/-!
Updates: changes of fields, each addressed by its path, or a function on whole documents. No update
may change the identity of a document.
-/

namespace DocumentStore

inductive FieldChange where
  | set (value : Value)
  | unset
  /-- The new value computed from the old one; none takes the field out. -/
  | transform (f : Option Value → Option Value)

instance : Inhabited FieldChange := ⟨.unset⟩

namespace FieldChange

def apply (path : String) (change : FieldChange) (d : Document) : Except Error Document :=
  match change with
  | set value => d.putPath path value
  | unset => .ok (d.erasePath path)
  | transform f =>
    match f (d.getPath? path) with
    | some value => d.putPath path value
    | none => .ok (d.erasePath path)

def text : FieldChange → String
  | set value => "Set(" ++ value.text ++ ")"
  | unset => "Unset"
  | transform _ => "Transform(..)"

end FieldChange

inductive Update where
  | document (f : Document → Except Error Document)
  | fields (changes : FieldTable FieldChange)

instance : Inhabited Update := ⟨.fields .empty⟩

def sameOptional : Option Value → Option Value → Bool
  | none, none => true
  | some a, some b => a.same b
  | _, _ => false

namespace Update

def none : Update := fields .empty

/-- Adds a change of one path. A table of changes has one change for each path; a function on
documents is followed by the change. -/
def withChange (u : Update) (path : String) (change : FieldChange) : Update :=
  match u with
  | document f => document fun d => do change.apply path (← f d)
  | fields changes => fields (changes.insert path change)

def ofDocument (d : Document) : Update :=
  fields (.ofList (d.toList.map fun (name, value) => (name, .set value)))

def applyChanges : List (String × FieldChange) → Document → Except Error Document
  | [], d => .ok d
  | (path, change) :: rest, d => do applyChanges rest (← change.apply path d)

/-- The updated document, without regard to its identity. -/
def updated (u : Update) (d : Document) : Except Error Document :=
  match u with
  | document f => f d
  | fields changes => applyChanges changes.entries d

def apply (u : Update) (d : Document) : Except Error Document := do
  let changed ← u.updated d
  if sameOptional changed.identity? d.identity? then return changed else throw .identityChanged

def text : Update → String
  | document _ => "Document(..)"
  | fields changes => Text.braced (changes.entries.map fun (path, change) =>
    Text.quoted path ++ ": " ++ change.text)

end Update

end DocumentStore
