import DocumentStore.Plan
import DocumentStore.Store.Scan

/-!
Candidates: the stored documents that match a query, found along a plan one after another.
-/

namespace DocumentStore

/-- A document and the version at which it was read. An index entry is written in the same commit as
the primary entry, so it carries the version of the primary entry too. -/
structure Candidate where
  document : Document
  version : Version
deriving Inhabited

def Candidate.ofEntry (e : Entry) : Except Error Candidate :=
  match e.value with
  | .map d => .ok ⟨d, e.version⟩
  | _ => .error (.corruptEntry e.key.text)

inductive EntrySource where
  | nothing
  | single (e : Option Entry)
  | scan (s : Scan)

instance : Inhabited EntrySource := ⟨.nothing⟩

namespace EntrySource

def next : EntrySource → Program (Option (Except Error Entry) × EntrySource)
  | nothing => return (none, nothing)
  | single e => return (e.map .ok, single none)
  | scan s => do
    let (item, s) ← s.next
    return (item, scan s)

end EntrySource

structure Candidates where
  source : EntrySource
  query : CompiledQuery
deriving Inhabited

namespace Candidates

def pageSize (c : Collection) (bound : Option Nat) : Nat :=
  match bound with
  | some bound => min bound c.defaults.scanBatch
  | none => c.defaults.scanBatch

def sourceOf (c : Collection) (bound : Option Nat) : Strategy → Action EntrySource
  | .nothing => return .nothing
  | .byId id => return .single (← Action.get (c.primaryKey id))
  | .byIndex field part =>
    return .scan (← Scan.begin (Layout.indexBase c.name field part) (pageSize c bound))
  | .everything => return .scan (← Scan.begin (Layout.primaryBase c.name) (pageSize c bound))

/-- The candidates of a plan, of which at most `bound` will be used. -/
def ofPlan (c : Collection) (plan : Plan) (bound : Option Nat) : Action Candidates := do
  if bound = some 0 then return ⟨.nothing, plan.query⟩
  return ⟨← sourceOf c bound plan.strategy, plan.query⟩

/-- The next match. `fuel` bounds the entries looked at. An error ends the candidates. -/
def next : (fuel : Nat) → Candidates → Program (Option (Except Error Candidate) × Candidates)
  | 0, _ => .unfinished
  | fuel + 1, c => do
    let (item, source) ← c.source.next
    match item with
    | none => return (none, { c with source := source })
    | some item =>
      match item >>= Candidate.ofEntry with
      | .error e => return (some (.error e), { c with source := .nothing })
      | .ok candidate =>
        if c.query.accepts candidate.document then
          return (some (.ok candidate), { c with source := source })
        else next fuel { c with source := source }

/-- All matches, or at most so many; nothing is asked for beyond these. `fuel` bounds the matches,
and the entries looked at for each. -/
def collect : (fuel : Nat) → (limit : Option Nat) → Candidates → Action (List Candidate)
  | _, some 0, _ => return []
  | 0, _, _ => Action.fallible .unfinished
  | fuel + 1, limit, c => do
    match ← c.next (fuel + 1) with
    | (none, _) => return []
    | (some (.error e), _) => throw e
    | (some (.ok candidate), c) =>
      return candidate :: (← collect fuel (limit.map (· - 1)) c)

end Candidates

namespace Collection

def plan (c : Collection) (q : CompiledQuery) : Plan := .ofQuery q c.indexes

/-- Reads a document again; none if it is gone or does not match any more. -/
def refetch (c : Collection) (id : String) (q : CompiledQuery) : Action (Option Candidate) := do
  match ← Action.get (c.primaryKey id) with
  | none => return none
  | some e =>
    let candidate ← Action.ofExcept (Candidate.ofEntry e)
    return if q.accepts candidate.document then some candidate else none

end Collection

end DocumentStore
