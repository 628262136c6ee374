import DocumentStore.Document.Path

/-!
Documents that can be stored: the identity is a string, and every name of a field, at any depth and
also within lists, is one that a path can hold.
-/

namespace DocumentStore

def checkName (parent name : String) : Except Error Unit :=
  if name = "" then .error (.emptyFieldName parent)
  else if Path.isDotted name then .error (.dottedFieldName name)
  else .ok ()

/-- The path of a field of the document at a path, which is empty for the outermost document. -/
def fieldPath (parent name : String) : String := if parent = "" then name else parent ++ "." ++ name

mutual

def Value.checkNames (path : String) : Value → Except Error Unit
  | .map d => d.checkNames path
  | .list items => Value.checkItemNames path items
  | .null | .bool _ | .integer _ | .number _ | .string _ | .bytes _ => .ok ()

def Value.checkItemNames (path : String) : List Value → Except Error Unit
  | [] => .ok ()
  | v :: rest => do
    v.checkNames path
    Value.checkItemNames path rest

def Fields.checkNames {bound : Option String} (path : String) : Fields bound → Except Error Unit
  | .nil => .ok ()
  | .cons name _ value rest => do
    checkName path name
    value.checkNames (fieldPath path name)
    rest.checkNames path

end

namespace Document

def checkIdentity (d : Document) : Except Error Unit :=
  match d.identity? with
  | some (.string _) => .ok ()
  | some other => .error (.identityKind other.kind)
  | none => .error .identityMissing

def checkStorable (d : Document) : Except Error Unit := do
  d.checkIdentity
  d.checkNames ""

def requireId (d : Document) : Except Error String :=
  match d.id? with
  | some id => .ok id
  | none => .error .identityUnusable

end Document

end DocumentStore
