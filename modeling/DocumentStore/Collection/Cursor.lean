import DocumentStore.Collection.Candidates
import DocumentStore.Sorting

/-!
Cursors: the matches of a query, passed through a sequence of operations.

The operations say how many matches can matter at all, and no more than these are fetched.
-/

namespace DocumentStore

inductive CursorOp where
  | skip (count : Nat)
  | limit (count : Nat)
  | sort (spec : SortSpec)
deriving Inhabited

namespace CursorOp

def apply : CursorOp → List Document → List Document
  | skip count, ds => ds.drop count
  | limit count, ds => ds.take count
  | sort spec, ds => spec.sort ds

def applyAll (ops : List CursorOp) (ds : List Document) : List Document :=
  ops.foldl (fun ds op => op.apply ds) ds

def isSort : CursorOp → Bool
  | sort _ => true
  | _ => false

/-- The largest count. Sums beyond it stay at it. -/
def maxCount : Nat := UInt64.size - 1

/-- The matches that matter up to the first limit, with those skipped before. -/
def countToLimit (skipped : Nat) : List CursorOp → Option Nat
  | [] => none
  | skip count :: rest => countToLimit (min (skipped + count) maxCount) rest
  | limit count :: _ => some (min (skipped + count) maxCount)
  | sort _ :: rest => countToLimit skipped rest

/-- The number of matches that can matter; without bound if they are sorted, since the last one may
come out first. -/
def requiredCount (ops : List CursorOp) : Option Nat :=
  if ops.any isSort then none else countToLimit 0 ops

def text : CursorOp → String
  | skip count => "Skip(" ++ toString count ++ ")"
  | limit count => "Limit(" ++ toString count ++ ")"
  | sort spec => "Sort(" ++ spec.text ++ ")"

end CursorOp

structure Cursor where
  collection : Collection
  plan : Plan
  ops : List CursorOp
deriving Inhabited

namespace Cursor

def withOp (c : Cursor) (op : CursorOp) : Cursor := { c with ops := c.ops ++ [op] }

def requiredCount (c : Cursor) : Option Nat := CursorOp.requiredCount c.ops

def getMany (c : Cursor) (fuel : Nat) : Action (List Document) := do
  let bound := c.requiredCount
  let candidates ← Candidates.ofPlan c.collection c.plan bound
  let found ← candidates.collect fuel bound
  return CursorOp.applyAll c.ops (found.map (·.document))

def getOne (c : Cursor) (fuel : Nat) : Action (Option Document) := do
  return (← (c.withOp (.limit 1)).getMany fuel).head?

def count (c : Cursor) (fuel : Nat) : Action Nat := do
  return (← c.getMany fuel).length

def text (c : Cursor) : String :=
  Text.record "Cursor" [
    ("find_plan", c.plan.text), ("operations", Text.bracketed (c.ops.map CursorOp.text))]

end Cursor

inductive DocumentStream where
  | streaming (candidates : Candidates)
  | buffered (documents : List Document)

instance : Inhabited DocumentStream := ⟨.buffered []⟩

namespace DocumentStream

/-- The stream of a cursor. With operations all documents are fetched at the start. -/
def ofCursor (c : Cursor) (fuel : Nat) : Action DocumentStream := do
  if c.ops.isEmpty then return .streaming (← Candidates.ofPlan c.collection c.plan none)
  return .buffered (← c.getMany fuel)

def next (fuel : Nat) : DocumentStream → Program (Option (Except Error Document) × DocumentStream)
  | streaming candidates => do
    let (item, candidates) ← candidates.next fuel
    return (item.map fun candidate => candidate.map (·.document), streaming candidates)
  | buffered [] => return (none, buffered [])
  | buffered (d :: rest) => return (some (.ok d), buffered rest)

def collect : (fuel : Nat) → DocumentStream → Program (List (Except Error Document))
  | 0, _ => .unfinished
  | fuel + 1, s => do
    match ← s.next (fuel + 1) with
    | (none, _) => return []
    | (some item, s) => return item :: (← collect fuel s)

end DocumentStream

namespace Collection

def find (c : Collection) (q : Query) : Cursor := ⟨c, c.plan q.compile, []⟩

def findMany (c : Collection) (q : Query) (fuel : Nat) : Action (List Document) :=
  (c.find q).getMany fuel

def findOne (c : Collection) (q : Query) (fuel : Nat) : Action (Option Document) :=
  (c.find q).getOne fuel

def findById (c : Collection) (id : String) (fuel : Nat) : Action (Option Document) :=
  c.findOne (.byId id) fuel

def count (c : Collection) (q : Query) (fuel : Nat) : Action Nat := (c.find q).count fuel

end Collection

end DocumentStore
