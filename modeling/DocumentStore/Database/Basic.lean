import DocumentStore.Collection.Change
import DocumentStore.Collection.Insert

/-!
Databases: settings that are frozen, the store they name, and the collections opened so far.
-/

namespace DocumentStore

structure Database (σ : Type) where
  settings : Settings σ
  registry : Registry
deriving Inhabited

namespace Database

def withStore {σ τ : Type} (db : Database σ) (store : τ) : Database τ :=
  ⟨db.settings.withStore store, db.registry⟩

section Requests

variable {σ : Type} [KeyValueStore σ]

def ofBuilder (b : Builder σ) : Except Error (Database σ) := do
  return ⟨← b.build KeyValueStore.isClosed, .empty⟩

def close (db : Database σ) : Database σ := db.withStore (KeyValueStore.close db.settings.store)

def answer (r : Request) (db : Database σ) : r.Answer × Database σ :=
  match r with
  | .get key =>
    let (result, store) := KeyValueStore.get db.settings.store key
    (result, db.withStore store)
  | .scan base after limit =>
    let (result, store) := KeyValueStore.scan db.settings.store base after limit
    (result, db.withStore store)
  | .commit batch =>
    let (result, store) := KeyValueStore.commit db.settings.store batch
    (result, db.withStore store)
  | .isClosed => (KeyValueStore.isClosed db.settings.store, db)
  | .freshId =>
    let (id, settings) := db.settings.nextId
    (id, { db with settings := settings })
  | .register name options =>
    match db.registry.register name options db.settings.collectionDefaults with
    | .ok (c, registry) => (.ok c, { db with registry := registry })
    | .error e => (.error e, db)
  | .unregister name => ((), { db with registry := db.registry.unregister name })

def run {α : Type} (db : Database σ) (p : Program α) : Option α × Database σ := p.run answer db

end Requests

/-! ## Operations on collections as a whole -/

def requireOpen : Action Unit := do
  if ← Action.isClosed then throw .closedDatabase

/-- Opens a collection; without options, as it was opened before or with none. -/
def openCollection (name : String) (options : Option CollectionOptions) : Action Collection := do
  requireOpen
  Action.register name options

def destroyCollection (name : String) (fuel : Nat) : Action Nat := do
  requireOpen
  let c ← Action.register name none
  let removed ← c.dropAll fuel
  Action.unregister name
  return removed

def text {σ : Type} (db : Database σ) : String :=
  Text.record "Docket" [
    ("config", db.settings.text),
    ("collections", Text.bracketed (db.registry.names.map Text.quoted))]

end Database

end DocumentStore
