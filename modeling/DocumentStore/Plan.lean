import DocumentStore.Collection.IndexSet
import DocumentStore.Query.Basic

/-!
Plans: how the documents that may match a query are found.

An identity that the query asks for is looked up; a query that no identity can meet needs no store
at all. Else the first index field that the query gives a value for is used, and failing that every
document is looked at.
-/

namespace DocumentStore

inductive Strategy where
  | nothing
  | byId (id : String)
  | byIndex (field : String) (part : KeyPart)
  | everything

instance : Inhabited Strategy := ⟨.nothing⟩

namespace Strategy

/-- What a criterion at the identity decides, if it decides anything: stored identities are strings.
-/
def ofIdentity? : Criterion → Option Strategy
  | .string id => some (byId id)
  | .absent => some nothing
  | c => if c.isLiteral then some nothing else none

def ofIndexes (q : CompiledQuery) (indexes : IndexSet) : Strategy :=
  (indexes.fields.findSome? fun field =>
    ((q.criterion? field).bind Criterion.indexPart?).map (byIndex field)).getD everything

def choose (q : CompiledQuery) (indexes : IndexSet) : Strategy :=
  match (q.criterion? identityField).bind ofIdentity? with
  | some strategy => strategy
  | none => ofIndexes q indexes

def text : Strategy → String
  | nothing => "empty"
  | byId id => "point lookup of " ++ Text.quoted id
  | byIndex field part => "index scan of " ++ field ++ " = " ++ part.text
  | everything => "full scan"

def describe : Strategy → String
  | nothing => "Empty"
  | byId id => "ById(" ++ Text.quoted id ++ ")"
  | byIndex field part =>
    Text.record "IndexScan" [("field", Text.quoted field), ("value", part.describe)]
  | everything => "FullScan"

end Strategy

structure Plan where
  strategy : Strategy
  query : CompiledQuery
deriving Inhabited

namespace Plan

def ofQuery (q : CompiledQuery) (indexes : IndexSet) : Plan := ⟨.choose q indexes, q⟩

def isPointLookup (p : Plan) : Bool :=
  match p.strategy with
  | .byId _ => true
  | _ => false

def isIndexScan (p : Plan) : Bool :=
  match p.strategy with
  | .byIndex .. => true
  | _ => false

def isFullScan (p : Plan) : Bool :=
  match p.strategy with
  | .everything => true
  | _ => false

def text (p : Plan) : String :=
  Text.record "FindPlan" [("strategy", p.strategy.describe), ("query", p.query.text)]

end Plan

end DocumentStore
