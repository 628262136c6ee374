import DocumentStore.Document.Path
import DocumentStore.Store.Key

/-!
Where the documents of a collection are kept.

The primary entry of a document lies under the collection and the identity field. For every index
field that the document has, a second entry lies under the collection, the field and the value.
-/

namespace DocumentStore.Layout

def primaryBase (collection : String) : Key := ⟨[.string collection, .string identityField]⟩

def primaryKey (collection id : String) : Key :=
  ⟨[.string collection, .string identityField, .string id]⟩

def indexBase (collection field : String) (part : KeyPart) : Key :=
  ⟨[.string collection, .string field, part]⟩

def indexKey (collection field : String) (part : KeyPart) (id : String) : Key :=
  ⟨[.string collection, .string field, part, .string id]⟩

end DocumentStore.Layout
