import DocumentStore.Store.Key

/-!
What a store holds, and what is asked of it: entries, and batches of changes that take effect
together or not at all.
-/

namespace DocumentStore

/-- The number of the commit that wrote an entry. It stands for a counter of 64 bits: below `2 ^ 64`
commits every number fits (`Memory.Versioned.fits`). -/
abbrev Version := Nat

def Version.text (v : Version) : String :=
  let digits := Text.hex v
  NumberLayout.zeros (20 - digits.length) ++ digits

structure Entry where
  key : Key
  value : Value
  version : Version
deriving Inhabited

/-- The version that a key must have for a batch to take effect; none if there must be no entry. -/
structure Check where
  key : Key
  version : Option Version

inductive Mutation where
  | set (key : Key) (value : Value)
  | delete (key : Key)

def Mutation.key : Mutation → Key
  | set key _ | delete key => key

structure Batch where
  checks : List Check
  mutations : List Mutation
deriving Inhabited

namespace Batch

def empty : Batch := ⟨[], []⟩

def check (b : Batch) (key : Key) (version : Option Version) : Batch :=
  { b with checks := b.checks ++ [⟨key, version⟩] }

def set (b : Batch) (key : Key) (value : Value) : Batch :=
  { b with mutations := b.mutations ++ [.set key value] }

def delete (b : Batch) (key : Key) : Batch :=
  { b with mutations := b.mutations ++ [.delete key] }

def append (b c : Batch) : Batch := ⟨b.checks ++ c.checks, b.mutations ++ c.mutations⟩

end Batch

inductive CommitResult where
  | committed (version : Version)
  | conflict
deriving DecidableEq, Inhabited

def CommitResult.isCommitted : CommitResult → Bool
  | committed _ => true
  | conflict => false

end DocumentStore
