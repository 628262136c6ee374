import DocumentStore.Error
import DocumentStore.Store.Table

/-!
Stores: what a database needs of one, a store in memory, and a store whose next commits conflict.
-/

namespace DocumentStore

/-- A store seen from a database. A batch takes effect only if all its checks hold. -/
class KeyValueStore (σ : Type) where
  get : σ → Key → Except Error (Option Entry) × σ
  /-- The first entries in key order under `base`, and behind `after` if that is given. -/
  scan : σ → (base : Key) → (after : Option Key) → (limit : Nat) → Except Error (List Entry) × σ
  commit : σ → Batch → Except Error CommitResult × σ
  isClosed : σ → Bool
  close : σ → σ

/-- A store in memory. It counts the entries it hands out, its commits and its conflicts. -/
structure Memory where
  table : Table
  /-- The number of commits that took effect. -/
  version : Version
  closed : Bool
  entriesRead : Nat
  commits : Nat
  conflicts : Nat
deriving Inhabited

namespace Memory

def empty : Memory := ⟨.empty, 0, false, 0, 0, 0⟩

def get (m : Memory) (key : Key) : Except Error (Option Entry) × Memory :=
  if m.closed then (.error .closedStore, m)
  else
    match m.table.find? key with
    | some e => (.ok (some e), { m with entriesRead := m.entriesRead + 1 })
    | none => (.ok none, m)

def scan (m : Memory) (base : Key) (after : Option Key) (limit : Nat) :
    Except Error (List Entry) × Memory :=
  if m.closed then (.error .closedStore, m)
  else
    let page := m.table.scan base after limit
    (.ok page, { m with entriesRead := m.entriesRead + page.length })

def holds (m : Memory) (c : Check) : Bool := m.table.version? c.key == c.version

def commit (m : Memory) (b : Batch) : Except Error CommitResult × Memory :=
  if m.closed then (.error .closedStore, m)
  else if b.checks.all m.holds then
    let version := m.version + 1
    (.ok (.committed version),
      { m with
        table := m.table.applyAll version b.mutations
        version := version
        commits := m.commits + 1 })
  else (.ok .conflict, { m with conflicts := m.conflicts + 1 })

def close (m : Memory) : Memory := { m with closed := true }

def resetCounts (m : Memory) : Memory := { m with entriesRead := 0, commits := 0, conflicts := 0 }

instance : KeyValueStore Memory := ⟨get, scan, commit, closed, close⟩

end Memory

/-- A store whose next commits with checks are answered with a conflict. The greatest number stands
for all commits to come. -/
structure Contended (σ : Type) where
  store : σ
  remaining : UInt32
deriving Inhabited

namespace Contended

variable {σ : Type} [KeyValueStore σ]

def failNext (s : Contended σ) (n : UInt32) : Contended σ := { s with remaining := n }

def commit (s : Contended σ) (b : Batch) : Except Error CommitResult × Contended σ :=
  if !b.checks.isEmpty && s.remaining != 0 then
    (.ok .conflict,
      if s.remaining = 0xffffffff then s else { s with remaining := s.remaining - 1 })
  else
    let (result, store) := KeyValueStore.commit s.store b
    (result, { s with store := store })

instance : KeyValueStore (Contended σ) where
  get s key :=
    let (result, store) := KeyValueStore.get s.store key
    (result, { s with store := store })
  scan s base after limit :=
    let (result, store) := KeyValueStore.scan s.store base after limit
    (result, { s with store := store })
  commit := commit
  isClosed s := KeyValueStore.isClosed s.store
  close s := { s with store := KeyValueStore.close s.store }

end Contended

end DocumentStore
