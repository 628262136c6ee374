import DocumentStore.Collection.Candidates
import DocumentStore.Collection.Cursor
import DocumentStore.Update

/-!
Updates and deletes of the documents that match a query.

Each document is changed in a commit of its own, which takes effect only if the document is still
the one that was read. After a conflict the document is read again, and is changed again if it still
matches, as often as the retry policy allows.
-/

namespace DocumentStore

inductive Change where
  | update (u : Update)
  | delete

instance : Inhabited Change := ⟨.delete⟩

def Change.kind : Change → ChangeKind
  | update _ => .update
  | delete => .delete

namespace Collection

/-- The policy for a change: that of the call, else that of the collection, else that of the
database. -/
def retryPolicy (c : Collection) (change : Change) (o : WriteOptions) : RetryPolicy :=
  match change with
  | .update _ => (o.retry.or c.options.updateRetry).getD c.defaults.updateRetry
  | .delete => (o.retry.or c.options.deleteRetry).getD c.defaults.deleteRetry

def changeBatch (c : Collection) (change : Change) (candidate : Candidate) (id : String) :
    Except Error (Document × Batch) :=
  let old := candidate.document
  match change with
  | .update u => do
    let new ← u.apply old
    c.checkDocument new
    return (new, c.updateBatch old new id candidate.version)
  | .delete => return (old, c.deleteBatch old id candidate.version)

def attempt (c : Collection) (change : Change) (candidate : Candidate) (id : String) :
    Action (Option Document) := do
  let (result, batch) ← Action.ofExcept (c.changeBatch change candidate id)
  return if (← Action.commit batch).isCommitted then some result else none

/-- Attempts a change, and after conflicts at most `retries` times again on the document read anew.
There is no result if the document is skipped: it is gone, it does not match any more, or it
conflicted under a policy of a single attempt. -/
def changeOne (c : Collection) (change : Change) (q : CompiledQuery) (policy : RetryPolicy)
    (id : String) : (retries : Nat) → Candidate → Action (Option Document)
  | retries, candidate => do
    match ← c.attempt change candidate id with
    | some result => return some result
    | none =>
      match retries with
      | 0 =>
        match policy with
        | .single => return none
        | .untilSuccess maxAttempts => throw (.retriesExhausted change.kind id maxAttempts.toNat)
      | retries + 1 =>
        match ← c.refetch id q with
        | some candidate => c.changeOne change q policy id retries candidate
        | none => return none

def changeCandidate (c : Collection) (change : Change) (q : CompiledQuery) (policy : RetryPolicy)
    (candidate : Candidate) : Action (Option Document) := do
  let id ← Action.ofExcept candidate.document.requireId
  c.changeOne change q policy id policy.retries candidate

/-- Changes candidates up to the first that is not skipped. -/
def changeFirst (c : Collection) (change : Change) (q : CompiledQuery) (policy : RetryPolicy) :
    (fuel : Nat) → Candidates → Action (List Document)
  | 0, _ => Action.fallible .unfinished
  | fuel + 1, candidates => do
    match ← candidates.next (fuel + 1) with
    | (none, _) => return []
    | (some (.error e), _) => throw e
    | (some (.ok candidate), candidates) =>
      match ← c.changeCandidate change q policy candidate with
      | some result => return [result]
      | none => c.changeFirst change q policy fuel candidates

def changeEach (c : Collection) (change : Change) (q : CompiledQuery) (policy : RetryPolicy) :
    List Candidate → Action (List Document)
  | [] => return []
  | candidate :: rest => do
    let result ← c.changeCandidate change q policy candidate
    return result.toList ++ (← c.changeEach change q policy rest)

/-- Changes the matches of a query that are there at the start, or the first of them. -/
def change (c : Collection) (change : Change) (q : Query) (o : WriteOptions) (fuel : Nat) :
    Action (List Document) := do
  let q := q.compile
  let policy := c.retryPolicy change o
  Action.ofExcept policy.check
  let candidates ← Candidates.ofPlan c (c.plan q) none
  if o.justOnce then c.changeFirst change q policy fuel candidates
  else c.changeEach change q policy (← candidates.collect fuel none)

def updateWith (c : Collection) (q : Query) (u : Update) (o : WriteOptions) (fuel : Nat) :
    Action (List Document) :=
  c.change (.update u) q o fuel

def updateMany (c : Collection) (q : Query) (u : Update) (fuel : Nat) : Action (List Document) :=
  c.updateWith q u {} fuel

def updateOne (c : Collection) (q : Query) (u : Update) (fuel : Nat) :
    Action (Option Document) := do
  return (← c.updateWith q u .once fuel).head?

def deleteWith (c : Collection) (q : Query) (o : WriteOptions) (fuel : Nat) :
    Action (List Document) :=
  c.change .delete q o fuel

def deleteMany (c : Collection) (q : Query) (fuel : Nat) : Action (List Document) :=
  c.deleteWith q {} fuel

def deleteOne (c : Collection) (q : Query) (fuel : Nat) : Action (Option Document) := do
  return (← c.deleteWith q .once fuel).head?

def dropAll (c : Collection) (fuel : Nat) : Action Nat := do
  return (← c.deleteMany .all fuel).length

end Collection

end DocumentStore
