import DocumentStore.Value.Kind

/-!
Everything that can go wrong, by cause. `Error.kind` files each cause under one of seven kinds and
`Error.message` words it.
-/

namespace DocumentStore

inductive ErrorKind where
  | validation
  | conflict
  | configuration
  | retryExhausted
  | backend
  | invalidOperation
  | internal
deriving DecidableEq, Inhabited

def ErrorKind.text : ErrorKind → String
  | .validation => "Validation error"
  | .conflict => "Conflict error"
  | .configuration => "Configuration error"
  | .retryExhausted => "Retry exhausted"
  | .backend => "Backend error"
  | .invalidOperation => "Invalid operation"
  | .internal => "Internal error"

inductive IndexFieldProblem where
  | empty
  | identity
  | dotted
  | repeated
deriving DecidableEq

def IndexFieldProblem.text : IndexFieldProblem → String
  | .empty => "index field name must not be empty"
  | .identity => "_id is always indexed and cannot be a secondary index"
  | .dotted => "index field name must not contain '.'"
  | .repeated => "index field is declared more than once"

inductive NameProblem where
  | empty
  | blank
  | whitespace
  | reserved
deriving DecidableEq

def NameProblem.text : NameProblem → String
  | .empty => "name must not be empty"
  | .blank => "name must not be blank"
  | .whitespace => "name must not contain whitespace"
  | .reserved => "names starting with '$' are reserved"

inductive Setting where
  | store
  | idSource
  | updateRetry
  | deleteRetry
  | scanBatch
deriving DecidableEq

def Setting.text : Setting → String
  | .store => "store"
  | .idSource => "id generator"
  | .updateRetry => "update retry policy"
  | .deleteRetry => "delete retry policy"
  | .scanBatch => "scan batch size"

inductive ChangeKind where
  | update
  | delete
deriving DecidableEq

def ChangeKind.text : ChangeKind → String
  | .update => "update"
  | .delete => "delete"

inductive Error where
  /-- A field was put under the empty name. -/
  | emptyKey
  /-- A path leads on, over the given remaining names, through a value that holds no fields. -/
  | unaddressable (rest : String) (through : Kind)
  | invalidPattern
  /-- An update gave a document another `_id`. -/
  | identityChanged
  | identityMissing
  | identityKind (found : Kind)
  /-- A stored document without a string `_id`. -/
  | identityUnusable
  | emptyFieldName (parent : String)
  | dottedFieldName (name : String)
  | unindexable (field : String) (found : Kind)
  | tooManyIndexes (count : Nat)
  | invalidIndexField (field : String) (problem : IndexFieldProblem)
  | invalidCollectionName (name : String) (problem : NameProblem)
  /-- An open of a collection that is registered with other indexes. -/
  | redefined (name : String) (indexes : List String)
  | noAttempts
  | zeroScanBatch
  | alreadyStored (id collection : String)
  | repeatedId (id : String)
  | batchCollision (collection : String)
  | retriesExhausted (change : ChangeKind) (id : String) (attempts : Nat)
  | zeroPage
  | listOnClosedStore
  | closedStore
  | closedDatabase
  | openOnClosedStore
  /-- A setter was called after the database was opened. -/
  | frozen (setting : Setting)
  /-- An entry, given by the text of its key, that holds no document. -/
  | corruptEntry (key : String)
  /-- An error of a caller's own function. -/
  | reported (kind : ErrorKind) (message : String)
  /-- An error of a caller's own function that stems from another error. -/
  | caused (kind : ErrorKind) (message : String) (cause : Error)
deriving Inhabited

namespace Error

def kind : Error → ErrorKind
  | emptyKey | unaddressable .. | invalidPattern | identityChanged | identityMissing
  | identityKind .. | identityUnusable | emptyFieldName .. | dottedFieldName ..
  | unindexable .. => .validation
  | tooManyIndexes .. | invalidIndexField .. | invalidCollectionName .. | redefined .. | noAttempts
  | zeroScanBatch => .configuration
  | alreadyStored .. | repeatedId .. | batchCollision .. => .conflict
  | retriesExhausted .. => .retryExhausted
  | zeroPage | listOnClosedStore | closedStore | closedDatabase | openOnClosedStore => .backend
  | frozen .. => .invalidOperation
  | corruptEntry .. => .internal
  | reported kind _ | caused kind _ _ => kind

def message : Error → String
  | emptyKey => "Document does not support empty key"
  | unaddressable rest through =>
    "Cannot address nested field " ++ rest ++ " through a " ++ through.name ++ " value"
  | invalidPattern => "Invalid regular expression"
  | identityChanged => "Document _id cannot be changed by an update"
  | identityMissing => "Document has no _id"
  | identityKind found => "Document _id must be a string, found " ++ found.name
  | identityUnusable => "Document has no string _id"
  | emptyFieldName parent => "Field name must not be empty (under '" ++ parent ++ "')"
  | dottedFieldName name => "Field name '" ++ name ++ "' must not contain '.'"
  | unindexable field found =>
    "Indexed field '" ++ field ++ "' must hold a string, number, boolean or bytes value, found "
      ++ found.name
  | tooManyIndexes count => "A collection supports at most 6 indexes, got " ++ toString count
  | invalidIndexField field problem => "Invalid index field '" ++ field ++ "': " ++ problem.text
  | invalidCollectionName name problem =>
    "Invalid collection name '" ++ name ++ "': " ++ problem.text
  | redefined name indexes =>
    "Collection " ++ name ++ " is already defined with indexes [" ++ ", ".intercalate indexes ++ "]"
  | noAttempts => "Retry policy must allow at least one attempt"
  | zeroScanBatch => "Scan batch size must be greater than zero"
  | alreadyStored id collection =>
    "Document with id " ++ id ++ " already exists in collection " ++ collection
  | repeatedId id => "Duplicate id " ++ id ++ " in batch insert"
  | batchCollision collection =>
    "One or more documents already exist in collection " ++ collection
  | retriesExhausted change id attempts =>
    "Could not " ++ change.text ++ " document " ++ id ++ " after " ++ toString attempts
      ++ " attempts"
  | zeroPage => "List batch size must be greater than zero"
  | listOnClosedStore => "Store is closed"
  | closedStore => "In-memory store is closed"
  | closedDatabase => "Database is closed"
  | openOnClosedStore => "Cannot open a database on a closed store"
  | frozen setting =>
    "The " ++ setting.text ++ " cannot be changed after the database is opened"
  | corruptEntry key => "Corrupt entry " ++ key ++ ": expected a document"
  | reported _ message | caused _ message _ => message

def cause? : Error → Option Error
  | caused _ _ cause => some cause
  | _ => none

/-- The errors that an error stems from, the nearest first. -/
def causes : Error → List Error
  | caused _ _ cause => cause :: cause.causes
  | _ => []

/-- The message, then the message of every cause on a line of its own. -/
def report (e : Error) : String :=
  "\nCaused by: ".intercalate (e.message :: e.causes.map message)

end Error

def Error.ofText (message : String) : Error := .reported .internal message

end DocumentStore
