import DocumentStore.Error
import DocumentStore.Value.Basic

/-!
Documents addressed by name and by path.

A path is a text of names joined by dots; `Path.names` splits it. Reading a path leads from document
to nested document. Writing a path creates the documents that are missing on the way, also in place
of a null, and fails on any other value in its way. Nothing is written under the empty name.
-/

namespace DocumentStore

def identityField : String := "_id"

namespace Path

/-- The names between the dots of a text: the characters up to the first dot, and the names behind
it. -/
def split : List Char → List Char × List (List Char)
  | [] => ([], [])
  | c :: rest =>
    let (first, others) := split rest
    if c = '.' then ([], first :: others) else (c :: first, others)

def names (path : String) : String × List String :=
  let (first, others) := split path.toList
  (String.ofList first, others.map String.ofList)

/-- Whether a name contains a dot, so that no path can hold it as one name. -/
def isDotted (name : String) : Bool := name.toList.contains '.'

def join (names : List String) : String := ".".intercalate names

end Path

namespace Document

def put (d : Document) (name : String) (value : Value) : Except Error Document :=
  if name = "" then .error .emptyKey else .ok (d.insert name value)

def getIn? (d : Document) (name : String) : List String → Option Value
  | [] => d.get? name
  | next :: rest =>
    match d.get? name with
    | some (.map nested) => getIn? nested next rest
    | _ => none

def putIn (d : Document) (name : String) (value : Value) : List String → Except Error Document
  | [] => d.put name value
  | next :: rest =>
    if name = "" then .error .emptyKey
    else
      match d.get? name with
      | some (.map nested) => do return d.insert name (.map (← putIn nested next value rest))
      | none | some .null => do return d.insert name (.map (← putIn .nil next value rest))
      | some other => .error (.unaddressable (Path.join (name :: next :: rest)) other.kind)

/-- Takes out the value at the end of a chain of names. A chain that leads nowhere changes nothing.
-/
def eraseIn (d : Document) (name : String) : List String → Document
  | [] => d.erase name
  | next :: rest =>
    match d.get? name with
    | some (.map nested) =>
      if (getIn? nested next rest).isSome then d.insert name (.map (eraseIn nested next rest))
      else d
    | _ => d

/-- Puts a value at the end of a chain of names, in place: the outcome, and the document after it. A
nested document is changed as a copy, which is written back only if the change is made. -/
def setIn (d : Document) (name : String) (value : Value) :
    List String → Except Error Unit × Document
  | [] => if name = "" then (.error .emptyKey, d) else (.ok (), d.insert name value)
  | next :: rest =>
    let written (changed : Except Error Unit × Document) : Except Error Unit × Document :=
      match changed with
      | (.ok (), nested) => (.ok (), d.insert name (.map nested))
      | (.error e, _) => (.error e, d)
    if name = "" then (.error .emptyKey, d)
    else
      match d.get? name with
      | some (.map nested) => written (setIn nested next value rest)
      | none | some .null => written (setIn .nil next value rest)
      | some other => (.error (.unaddressable (Path.join (name :: next :: rest)) other.kind), d)

def removeIn (d : Document) (name : String) : List String → Option Value × Document
  | [] => (d.get? name, d.erase name)
  | next :: rest =>
    match d.get? name with
    | some (.map nested) =>
      match removeIn nested next rest with
      | (some removed, changed) => (some removed, d.insert name (.map changed))
      | (none, _) => (none, d)
    | _ => (none, d)

def getPath? (d : Document) (path : String) : Option Value :=
  d.getIn? (Path.names path).1 (Path.names path).2

def putPath (d : Document) (path : String) (value : Value) : Except Error Document :=
  d.putIn (Path.names path).1 value (Path.names path).2

def erasePath (d : Document) (path : String) : Document :=
  d.eraseIn (Path.names path).1 (Path.names path).2

def setPath (d : Document) (path : String) (value : Value) : Except Error Unit × Document :=
  d.setIn (Path.names path).1 value (Path.names path).2

def removePath (d : Document) (path : String) : Option Value × Document :=
  d.removeIn (Path.names path).1 (Path.names path).2

def identity? (d : Document) : Option Value := d.get? identityField

def id? (d : Document) : Option String := d.identity?.bind Value.asString?

def hasIdentity (d : Document) : Bool := d.contains identityField

end Document

end DocumentStore
