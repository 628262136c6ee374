import DocumentStore.Document.Path
import DocumentStore.FieldTable
import DocumentStore.Query.Criterion

/-!
Queries: all documents, those that satisfy a predicate, or those that meet a criterion at each of
several paths. Compiling a query puts the identity first, where it decides most.
-/

namespace DocumentStore

inductive CompiledQuery where
  | all
  | predicate (holds : Document → Bool)
  | fields (criteria : FieldTable Criterion)

instance : Inhabited CompiledQuery := ⟨.all⟩

namespace CompiledQuery

/-- The paths that a query looks at: the identity, then the others in their order. -/
def keys : CompiledQuery → List String
  | all | predicate _ => []
  | fields criteria =>
    (if criteria.contains identityField then [identityField] else [])
      ++ criteria.names.filter (· != identityField)

def criterion? : CompiledQuery → String → Option Criterion
  | all, _ | predicate _, _ => none
  | fields criteria, path => criteria.get? path

def accepts (q : CompiledQuery) (d : Document) : Bool :=
  match q with
  | all => true
  | predicate holds => holds d
  | fields _ => q.keys.all fun path =>
    match q.criterion? path with
    | some c => c.accepts (d.getPath? path)
    | none => true

def isAll : CompiledQuery → Bool
  | all => true
  | _ => false

def text (q : CompiledQuery) : String :=
  match q with
  | all => "MatchAll"
  | predicate _ => "Predicate(..)"
  | fields _ => "FieldMap " ++ Text.braced (q.keys.filterMap fun path =>
    (q.criterion? path).map fun c => Text.quoted path ++ ": " ++ c.text)

end CompiledQuery

inductive Query where
  | all
  | predicate (holds : Document → Bool)
  | fields (criteria : FieldTable Criterion)

instance : Inhabited Query := ⟨.all⟩

namespace Query

/-- Without a criterion every document is accepted. -/
def compile : Query → CompiledQuery
  | all => .all
  | predicate holds => .predicate holds
  | fields criteria => if criteria.isEmpty then .all else .fields criteria

/-- Both queries. Criteria at different paths are put into one table, so that all of them can be
used for planning. -/
def and : Query → Query → Query
  | all, q | q, all => q
  | fields a, fields b =>
    if a.isDisjoint b then fields (a.merge b)
    else predicate fun d => (fields a).compile.accepts d && (fields b).compile.accepts d
  | a, b => predicate fun d => a.compile.accepts d && b.compile.accepts d

def ofDocument (d : Document) : Query :=
  fields (FieldTable.ofList (Criterion.ofFields d))

def byId (id : String) : Query := fields (.ofList [(identityField, .string id)])

def byField (path : String) (c : Criterion) : Query := fields (.ofList [(path, c)])

def text : Query → String
  | all => "All"
  | predicate _ => "Predicate(..)"
  | fields criteria => Text.braced (criteria.entries.map fun (path, c) =>
    Text.quoted path ++ ": " ++ c.text)

end Query

end DocumentStore
