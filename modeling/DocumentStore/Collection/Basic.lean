import DocumentStore.Collection.IndexSet
import DocumentStore.Collection.Options
import DocumentStore.Document.Names
import DocumentStore.Store.Batch
import DocumentStore.Store.Layout

/-!
Collections, and the entries that their documents take up in the store.
-/

namespace DocumentStore

structure CollectionDefaults where
  /-- The number of entries asked of the store at once. -/
  scanBatch : Nat
  updateRetry : RetryPolicy
  deleteRetry : RetryPolicy
deriving Inhabited

structure Collection where
  name : String
  indexes : IndexSet
  options : CollectionOptions
  defaults : CollectionDefaults
deriving Inhabited

namespace Collection

def define (name : String) (options : CollectionOptions) (defaults : CollectionDefaults) :
    Except Error Collection := do
  let indexes ← IndexSet.ofFields options.indexFields
  RetryPolicy.checkOptional options.updateRetry
  RetryPolicy.checkOptional options.deleteRetry
  return ⟨name, indexes, options, defaults⟩

def text (c : Collection) : String :=
  Text.record "Collection" [("name", Text.quoted c.name), ("indexes", c.indexes.describe)]

def primaryKey (c : Collection) (id : String) : Key := Layout.primaryKey c.name id

/-! ## Index entries -/

def indexPart? (d : Document) (field : String) : Option KeyPart :=
  (d.get? field).bind KeyPart.ofValue?

def indexKeys (c : Collection) (d : Document) (id : String) : List Key :=
  c.indexes.fields.filterMap fun field =>
    (indexPart? d field).map fun part => Layout.indexKey c.name field part id

/-- The value of an index field, if there is one, must be of a kind that an index holds. -/
def checkIndexField (d : Document) (field : String) : Except Error Unit :=
  match d.get? field with
  | none => .ok ()
  | some v => if v.isIndexable then .ok () else .error (.unindexable field v.kind)

def checkDocument (c : Collection) (d : Document) : Except Error Unit := do
  d.checkStorable
  c.indexes.fields.forM (checkIndexField d)
  c.options.validate d

/-! ## The batches of writes -/

/-- New documents: each key must be free. -/
def insertBatch (c : Collection) (docs : List (String × Document)) : Batch :=
  docs.foldl (fun b (id, d) =>
    let keys := c.primaryKey id :: c.indexKeys d id
    keys.foldl (fun b key => (b.check key none).set key (.map d)) b) .empty

/-- The change of one index field: the old entry goes if the value changes, and the new one is set.
-/
def moveIndexEntry (c : Collection) (old new : Document) (id field : String) (b : Batch) : Batch :=
  let newPart := indexPart? new field
  let b := match indexPart? old field with
    | some part =>
      if newPart.any (·.same part) then b else b.delete (Layout.indexKey c.name field part id)
    | none => b
  match newPart with
  | some part => b.set (Layout.indexKey c.name field part id) (.map new)
  | none => b

def updateBatch (c : Collection) (old new : Document) (id : String) (version : Version) : Batch :=
  let key := c.primaryKey id
  c.indexes.fields.foldl (fun b field => c.moveIndexEntry old new id field b)
    ((Batch.empty.check key (some version)).set key (.map new))

def deleteBatch (c : Collection) (old : Document) (id : String) (version : Version) : Batch :=
  let key := c.primaryKey id
  (c.indexKeys old id).foldl Batch.delete ((Batch.empty.check key (some version)).delete key)

end Collection

end DocumentStore
