import DocumentStore.Program

/-!
Inserts: documents get an identity if they have none, are checked, and are stored in one commit that
takes effect only if every key is free.
-/

namespace DocumentStore

/-- The first item of a list that stands in it a second time, in the order of the second
occurrences. -/
def firstRepeated (seen : List String) : List String → Option String
  | [] => none
  | x :: rest => if x ∈ seen then some x else firstRepeated (x :: seen) rest

namespace Collection

def prepare (c : Collection) (d : Document) : Action (String × Document) := do
  let d ← if d.hasIdentity then pure d else
    Action.ofExcept (d.put identityField (.string (← Action.freshId)))
  Action.ofExcept (c.checkDocument d)
  return (← Action.ofExcept d.requireId, d)

def prepareAll (c : Collection) : List Document → Action (List (String × Document))
  | [] => return []
  | d :: rest => do
    let first ← c.prepare d
    return first :: (← c.prepareAll rest)

def insertOne (c : Collection) (d : Document) : Action Document := do
  let (id, d) ← c.prepare d
  match ← Action.commit (c.insertBatch [(id, d)]) with
  | .committed _ => return d
  | .conflict => throw (.alreadyStored id c.name)

def insertMany (c : Collection) (ds : List Document) : Action (List Document) := do
  if ds.isEmpty then return []
  let prepared ← c.prepareAll ds
  if let some id := firstRepeated [] (prepared.map Prod.fst) then throw (.repeatedId id)
  match ← Action.commit (c.insertBatch prepared) with
  | .committed _ => return prepared.map Prod.snd
  | .conflict => throw (.batchCollision c.name)

end Collection

end DocumentStore
