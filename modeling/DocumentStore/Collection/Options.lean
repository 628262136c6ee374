import DocumentStore.Collection.Retry
import DocumentStore.Value.Basic

/-!
What a collection can be opened with: index fields, a validator and retry policies of its own.
-/

namespace DocumentStore

structure CollectionOptions where
  indexFields : List String := []
  /-- Rejects documents with an error of its own. -/
  validator : Option (Document → Except Error Unit) := none
  updateRetry : Option RetryPolicy := none
  deleteRetry : Option RetryPolicy := none
deriving Inhabited

namespace CollectionOptions

def index (o : CollectionOptions) (field : String) : CollectionOptions :=
  { o with indexFields := o.indexFields ++ [field] }

def indexes (o : CollectionOptions) (fields : List String) : CollectionOptions :=
  { o with indexFields := o.indexFields ++ fields }

def validate (o : CollectionOptions) (d : Document) : Except Error Unit :=
  match o.validator with
  | some validator => validator d
  | none => .ok ()

def text (o : CollectionOptions) : String :=
  Text.record "CollectionOptions" [
    ("indexes", Text.bracketed (o.indexFields.map Text.quoted)),
    ("validator", toString o.validator.isSome),
    ("update_retry_policy", Text.optional (o.updateRetry.map RetryPolicy.text)),
    ("delete_retry_policy", Text.optional (o.deleteRetry.map RetryPolicy.text))]

end CollectionOptions

end DocumentStore
