import DocumentStore.Collection.Basic
import DocumentStore.Ids.Source

/-!
The settings of a database. They can be changed until the database is opened and never after that.
-/

namespace DocumentStore

/-- Settings with a store, or with whatever stands for one. -/
structure Settings (σ : Type) where
  store : σ
  ids : IdSource
  updateRetry : RetryPolicy
  deleteRetry : RetryPolicy
  scanBatch : Nat
  frozen : Bool
deriving Inhabited

namespace Settings

variable {σ : Type}

def defaultScanBatch : Nat := 100

def initial (store : σ) (ids : IdSource) : Settings σ :=
  ⟨store, ids, .forUpdates, .forDeletes, defaultScanBatch, false⟩

def withStore {τ : Type} (s : Settings σ) (store : τ) : Settings τ :=
  ⟨store, s.ids, s.updateRetry, s.deleteRetry, s.scanBatch, s.frozen⟩

def guard (s : Settings σ) (setting : Setting) : Except Error Unit :=
  if s.frozen then .error (.frozen setting) else .ok ()

def setStore (s : Settings σ) (store : σ) : Except Error (Settings σ) := do
  s.guard .store
  return s.withStore store

def setIds (s : Settings σ) (ids : IdSource) : Except Error (Settings σ) := do
  s.guard .idSource
  return { s with ids := ids }

def setUpdateRetry (s : Settings σ) (p : RetryPolicy) : Except Error (Settings σ) := do
  s.guard .updateRetry
  p.check
  return { s with updateRetry := p }

def setDeleteRetry (s : Settings σ) (p : RetryPolicy) : Except Error (Settings σ) := do
  s.guard .deleteRetry
  p.check
  return { s with deleteRetry := p }

def setScanBatch (s : Settings σ) (n : Nat) : Except Error (Settings σ) := do
  s.guard .scanBatch
  if n = 0 then throw .zeroScanBatch
  return { s with scanBatch := n }

def freeze (s : Settings σ) (storeClosed : Bool) : Except Error (Settings σ) :=
  if storeClosed then .error .openOnClosedStore else .ok { s with frozen := true }

def nextId (s : Settings σ) : String × Settings σ :=
  let (id, ids) := s.ids.next
  (id, { s with ids := ids })

def collectionDefaults (s : Settings σ) : CollectionDefaults :=
  ⟨s.scanBatch, s.updateRetry, s.deleteRetry⟩

def text (s : Settings σ) : String :=
  Text.record "DocketConfig" [
    ("configured", toString s.frozen),
    ("update_retry_policy", s.updateRetry.text),
    ("delete_retry_policy", s.deleteRetry.text),
    ("scan_batch_size", toString s.scanBatch)]

end Settings

/-- Settings in the making. After the first setter that fails, the others have no effect. -/
structure Builder (σ : Type) where
  settings : Settings σ
  failure : Option Error
deriving Inhabited

namespace Builder

variable {σ : Type}

def start (store : σ) (ids : IdSource) : Builder σ := ⟨.initial store ids, none⟩

def apply (b : Builder σ) (setter : Settings σ → Except Error (Settings σ)) : Builder σ :=
  match b.failure with
  | some _ => b
  | none =>
    match setter b.settings with
    | .ok settings => ⟨settings, none⟩
    | .error e => ⟨b.settings, some e⟩

def build (b : Builder σ) (isClosed : σ → Bool) : Except Error (Settings σ) :=
  match b.failure with
  | some e => .error e
  | none => b.settings.freeze (isClosed b.settings.store)

end Builder

end DocumentStore
