import DocumentStore.Store.Memory

/-!
Stores under watch: each call is recorded, and a planned one fails.
-/

namespace DocumentStore

inductive CallKind where
  | get
  | scan
  | commit
deriving DecidableEq, Inhabited

def CallKind.text : CallKind → String
  | get => "get"
  | scan => "scan"
  | commit => "commit"

inductive Call where
  | got (found : Bool)
  | scanned (limit count : Nat)
  | committed (checks mutations : Nat) (success : Bool)
  | failed (kind : CallKind)

def Call.text : Call → String
  | got found => if found then "get 1" else "get 0"
  | scanned limit count => "scan " ++ toString limit ++ " " ++ toString count
  | committed checks mutations success =>
    "commit " ++ toString checks ++ " " ++ toString mutations
      ++ if success then " ok" else " conflict"
  | failed kind => kind.text ++ " fault"

structure Watched (σ : Type) where
  store : σ
  /-- The calls of a kind that succeed before one fails. -/
  faults : CallKind → Option Nat
  /-- The recorded calls, last first. -/
  calls : List Call

namespace Watched

variable {σ : Type}

def ofStore (store : σ) : Watched σ := ⟨store, fun _ => none, []⟩

instance [Inhabited σ] : Inhabited (Watched σ) := ⟨ofStore default⟩

def setFault (s : Watched σ) (kind : CallKind) (fault : Option Nat) : Watched σ :=
  { s with faults := fun k => if k = kind then fault else s.faults k }

def record (s : Watched σ) (call : Call) : Watched σ := { s with calls := call :: s.calls }

/-- The failure of a call of a kind, if it is planned for this one; else the plan comes closer. -/
def countDown (s : Watched σ) (kind : CallKind) : Option Error × Watched σ :=
  match s.faults kind with
  | none => (none, s)
  | some 0 =>
    (some (.reported .backend ("injected " ++ kind.text ++ " failure")),
      (s.setFault kind none).record (.failed kind))
  | some (n + 1) => (none, s.setFault kind (some n))

/-- A call that is not planned to fail. It is recorded if it succeeds. -/
def through {α : Type} (s : Watched σ) (call : σ → Except Error α × σ) (describe : α → Call) :
    Except Error α × Watched σ :=
  let (result, store) := call s.store
  let s := { s with store := store }
  match result with
  | .ok a => (result, s.record (describe a))
  | .error _ => (result, s)

def perform {α : Type} (s : Watched σ) (kind : CallKind) (call : σ → Except Error α × σ)
    (describe : α → Call) : Except Error α × Watched σ :=
  match s.countDown kind with
  | (some e, s) => (.error e, s)
  | (none, s) => s.through call describe

variable [KeyValueStore σ]

def describeCommit (b : Batch) (result : CommitResult) : Call :=
  .committed b.checks.length b.mutations.length result.isCommitted

def commitThrough (s : Watched σ) (b : Batch) : Except Error CommitResult × Watched σ :=
  s.through (KeyValueStore.commit · b) (describeCommit b)

instance : KeyValueStore (Watched σ) where
  get s key := s.perform .get (KeyValueStore.get · key) fun found => .got found.isSome
  scan s base after limit :=
    s.perform .scan (KeyValueStore.scan · base after limit) fun page => .scanned limit page.length
  commit s b := s.perform .commit (KeyValueStore.commit · b) (describeCommit b)
  isClosed s := KeyValueStore.isClosed s.store
  close s := { s with store := KeyValueStore.close s.store }

end Watched

end DocumentStore
