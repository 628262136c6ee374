import DocumentStore.Collection.Basic
import DocumentStore.FieldTable
import DocumentStore.Text.Blank

/-!
The collections that a database has opened, by name. A name keeps the indexes that it was opened
with.
-/

namespace DocumentStore

structure Registry where
  collections : FieldTable Collection
deriving Inhabited

namespace Registry

def empty : Registry := ⟨.empty⟩

def nameProblem? (name : String) : Option NameProblem :=
  if name = "" then some .empty
  else if Text.isAllBlank name then some .blank
  else if name.toList.any Text.isBlank then some .whitespace
  else if name.toList.head? = some '$' then some .reserved
  else none

def checkName (name : String) : Except Error Unit :=
  match nameProblem? name with
  | some problem => .error (.invalidCollectionName name problem)
  | none => .ok ()

/-- The collection of a name: the registered one, if the options, should there be any, ask for its
indexes, else a new one. -/
def register (r : Registry) (name : String) (options : Option CollectionOptions)
    (defaults : CollectionDefaults) : Except Error (Collection × Registry) := do
  checkName name
  match r.collections.get? name with
  | some c =>
    match options with
    | some o =>
      if c.indexes.fields = o.indexFields then return (c, r)
      else throw (.redefined name c.indexes.fields)
    | none => return (c, r)
  | none =>
    let c ← Collection.define name (options.getD {}) defaults
    return (c, ⟨r.collections.insert name c⟩)

def unregister (r : Registry) (name : String) : Registry := ⟨r.collections.erase name⟩

def contains (r : Registry) (name : String) : Bool := r.collections.contains name

/-- The registered names in ascending order. -/
def names (r : Registry) : List String := r.collections.names.mergeSort

end Registry

end DocumentStore
