import DocumentStore.Proofs.Collection.Mirrors
import DocumentStore.Proofs.Database.Runs
import DocumentStore.Proofs.Store.Versions

/-!
# Collections are isolated

An operation of a collection leaves the entries of all other collections as they are, and what it does
depends on the entries of its own collection alone: not on what else the store holds, and on versions
only as far as these are equal to each other.
-/

namespace DocumentStore

/-! ## Memories -/

inductive Memory.Arises : Memory → Prop where
  | empty : Arises .empty
  | get {m : Memory} (h : Arises m) (key : Key) : Arises (m.get key).2
  | scan {m : Memory} (h : Arises m) (base : Key) (after : Option Key) (limit : Nat) :
    Arises (m.scan base after limit).2
  | commit {m : Memory} (h : Arises m) (b : Batch) : Arises (m.commit b).2
  | close {m : Memory} (h : Arises m) : Arises m.close
  | resetCounts {m : Memory} (h : Arises m) : Arises m.resetCounts

namespace Memory.Arises

/-- No entry is newer than the last commit. -/
theorem dated {m : Memory} (h : m.Arises) : ∀ e ∈ m.table.entries, e.version ≤ m.version := by
  induction h with
  | empty => exact fun e he => by cases he
  | get _ key ih => exact after_dated ih (.get key)
  | scan _ base after limit ih => exact after_dated ih (.scan base after limit)
  | commit _ b ih => exact after_dated ih (.commit b)
  | close _ ih => exact ih
  | resetCounts _ ih => exact ih

theorem answer {db : MemoryDatabase} (h : db.memory.Arises) (r : Request) :
    (Database.answer r db).2.memory.Arises := by
  cases r with
  | get key => exact h.get key
  | scan base after limit => exact h.scan base after limit
  | commit b =>
    show (KeyValueStore.commit db.settings.store b).2.store.Arises
    by_cases hcontended : (!b.checks.isEmpty && db.settings.store.remaining != 0) = true
    · rw [Database.commit_of_contended hcontended]
      dsimp only
      split <;> exact h
    · rw [Database.commit_of_quiet hcontended]
      exact h.commit b
  | register name options =>
    unfold Database.answer
    dsimp only
    split <;> exact h
  | _ => exact h

theorem run {α : Type} {db : MemoryDatabase} (h : db.memory.Arises) (p : Program α) :
    (db.run p).2.memory.Arises :=
  p.run_invariant (fun d : MemoryDatabase => d.memory.Arises) (fun r _ hd => hd.answer r) h

end Memory.Arises

/-! ## Agreement -/

/-- The entries under a name have the same keys and the same values, and versions that stand for each
other one by one. -/
def Table.AgreesUnder (name : String) (t t' : Table) : Prop :=
  ∃ versions : Version → Version → Prop,
    (∀ {v v' w w'}, versions v w → versions v' w' → (v = v' ↔ w = w')) ∧
    List.Forall₂ (fun e e' => e'.key = e.key ∧ e'.value = e.value ∧ versions e.version e'.version)
      (t.owned name) (t'.owned name)

/-- Collections in tables that agree hold the same documents. -/
theorem Collection.contents_of_agreesUnder {c : Collection} {t t' : Table}
    (h : t.AgreesUnder c.name t') : c.contents t' = c.contents t := by
  obtain ⟨versions, _, hentries⟩ := h
  funext id
  have hfind := Table.find?_rel (fun he => he.1)
    (c.primaryKey_belongsTo id) hentries
  unfold contents stored?
  generalize t.find? (c.primaryKey id) = e at hfind ⊢
  generalize t'.find? (c.primaryKey id) = e' at hfind ⊢
  cases hfind with
  | none => rfl
  | @some e e' he =>
    obtain ⟨_, hvalue, _⟩ := he
    rw [Option.bind_some, Option.bind_some]
    unfold Candidate.ofEntry
    rw [hvalue]
    split <;> rfl

namespace Pairing

/-- Versions that stood for each other at first, and those of the commits to come. -/
def next (name : String) (versions : Version → Version → Prop)
    (unique : ∀ {v v' w w'}, versions v w → versions v' w' → (v = v' ↔ w = w'))
    (last last' : Version) : Pairing where
  name := name
  versions v w := (versions v w ∧ v ≤ last ∧ w ≤ last') ∨
    ∃ i, v = last + 1 + i ∧ w = last' + 1 + i
  unique {v v' w w'} hv hw := by
    rcases hv with ⟨hv, hle, hle'⟩ | ⟨i, hi, hi'⟩ <;>
      rcases hw with ⟨hw, hle₁, hle₁'⟩ | ⟨j, hj, hj'⟩
    · exact unique hv hw
    -- an old version is no new one, on both sides
    · change (_ : Nat) ≤ _ at hle hle'
      change (_ : Nat) = _ at hj hj'
      exact iff_of_false (fun h => by subst h; omega) (fun h => by subst h; omega)
    · change (_ : Nat) ≤ _ at hle₁ hle₁'
      change (_ : Nat) = _ at hi hi'
      exact iff_of_false (fun h => by subst h; omega) (fun h => by subst h; omega)
    · change (_ : Nat) = _ at hi hi' hj hj'
      change (_ : Nat) = _ ↔ (_ : Nat) = _
      omega
  known _ _ := True
  sharesIds := False

end Pairing

/-! ## Isolation -/

namespace System

variable {α : Type}

structure SameRun (c : Collection) (db db' : MemoryDatabase) (p : Action α) : Prop where
  result : (db'.run p).1 = (db.run p).1
  agrees : (db.run p).2.memory.table.AgreesUnder c.name (db'.run p).2.memory.table
  contents : c.contents (db'.run p).2.memory.table = c.contents (db.run p).2.memory.table

/-- What isolation of a collection says of an action: it leaves the entries of others alone, and does
the same in any two databases that agree under the name of the collection. -/
structure Isolated (c : Collection) (p : Action α) : Prop where
  elsewhere : ∀ db : MemoryDatabase,
    db.memory.table.SameElsewhere c.name (db.run p).2.memory.table
  sameRun : ∀ {db db' : MemoryDatabase}, db.memory.Arises → db'.memory.Arises →
    db'.memory.closed = db.memory.closed →
    db'.settings.store.remaining = db.settings.store.remaining →
    db.memory.table.AgreesUnder c.name db'.memory.table → SameRun c db db' p

variable {c : Collection} {p : Action α} {purpose : Purpose}

theorem sameElsewhere_of_mirrors
    (h : Action.Mirrors (.own c.name fun _ _ => True)
      (c.Sends (.own c.name fun _ _ => True) purpose) Eq p p) (db : MemoryDatabase) :
    db.memory.table.SameElsewhere c.name (db.run p).2.memory.table :=
  (h.run (fun _ _ hb => hb.fits rfl fun _ _ _ => trivial)
    (Pairing.mirrored_self db fun _ _ => trivial)).2.2

theorem sameRun_of_mirrors
    (h : ∀ R : Pairing, R.name = c.name → (∀ key value, R.known key value) →
      Action.Mirrors R (c.Sends R purpose) Eq p p)
    {db db' : MemoryDatabase} (hdb : db.memory.Arises) (hdb' : db'.memory.Arises)
    (hclosed : db'.memory.closed = db.memory.closed)
    (hremaining : db'.settings.store.remaining = db.settings.store.remaining)
    (hagrees : db.memory.table.AgreesUnder c.name db'.memory.table) : SameRun c db db' p := by
  obtain ⟨versions, hunique, hentries⟩ := hagrees
  -- versions to come are paired by how many commits they are away from now
  let R : Pairing := .next c.name versions hunique db.memory.version db'.memory.version
  have hmirrored : R.Mirrored db db' := by
    refine ⟨?_, fun i => .inr ⟨i, rfl, rfl⟩, hclosed, hremaining, fun hids => hids.elim⟩
    refine List.forall₂_iff_get.2 ⟨hentries.length_eq, fun i hi hi' => ?_⟩
    obtain ⟨hkey, hvalue, hversions⟩ := hentries.get hi hi'
    have hmem := Table.mem_owned.1 (List.get_mem _ ⟨i, hi⟩)
    have hmem' := Table.mem_owned.1 (List.get_mem _ ⟨i, hi'⟩)
    exact ⟨hkey, hvalue, .inl ⟨hversions, hdb.dated _ hmem.1, hdb'.dated _ hmem'.1⟩, hmem.2,
      trivial⟩
  obtain ⟨hresult, hafter, _⟩ := (h R rfl fun _ _ => trivial).run
    (fun _ _ hb => hb.fits rfl fun _ _ _ => trivial) hmirrored
  have hagrees : (db.run p).2.memory.table.AgreesUnder c.name (db'.run p).2.memory.table :=
    ⟨R.versions, R.unique, hafter.entries.imp fun e e' he => ⟨he.key, he.value, he.versions⟩⟩
  refine ⟨?_, hagrees, Collection.contents_of_agreesUnder hagrees⟩
  generalize (db.run p).1 = r at hresult ⊢
  generalize (db'.run p).1 = r' at hresult ⊢
  cases hresult with
  | none => rfl
  | some hr =>
    cases hr with
    | ok heq => rw [heq]
    | error e => rfl

/-- Collections are isolated from each other: every operation leaves the entries of other names as they
are, and if its documents carry identities of their own, it does the same wherever the entries under
the name of its collection are the same. -/
theorem collections_isolated (c : Collection) (fuel : Nat) :
    (∀ (op : Operation) (db : MemoryDatabase),
      db.memory.table.SameElsewhere c.name (db.run (op.program c fuel)).2.memory.table) ∧
    (∀ op : Operation, op.Identified → Isolated c (op.program c fuel)) ∧
    ∀ (plan : Plan) (ops : List CursorOp),
      Isolated c (Cursor.getMany ⟨c, plan, ops⟩ fuel) ∧
      Isolated c (Cursor.getOne ⟨c, plan, ops⟩ fuel) ∧
      Isolated c (Cursor.count ⟨c, plan, ops⟩ fuel) ∧
      Isolated c (Cursor.iterate ⟨c, plan, ops⟩ fuel) := by
  have hisolated : ∀ {α : Type} {p : Action α} (purpose : Purpose),
      (∀ R : Pairing, R.name = c.name → Action.Mirrors R (c.Sends R purpose) Eq p p) →
      Isolated c p := fun purpose h =>
    ⟨sameElsewhere_of_mirrors (h _ rfl), sameRun_of_mirrors fun R hname _ => h R hname⟩
  refine ⟨fun op => sameElsewhere_of_mirrors (op.mirrors rfl fuel (.inr trivial)),
    fun op hop => hisolated op.purpose fun R hname => op.mirrors hname fuel (.inl hop),
    fun plan ops => ⟨?_, ?_, ?_, ?_⟩⟩
  · exact hisolated .read fun R hname => Cursor.getMany_mirrors hname plan ops fuel
  · exact hisolated .read fun R hname => Cursor.getOne_mirrors hname plan ops fuel
  · exact hisolated .read fun R hname => Cursor.count_mirrors hname plan ops fuel
  · exact hisolated .read fun R hname => Cursor.iterate_mirrors hname plan ops fuel

end System

namespace Sample

/-- A collection whose name begins the name of the articles, and whose index field has that name. -/
def neighbour : Collection :=
  ⟨"article", ⟨["articles"]⟩, { indexFields := ["articles"] }, ⟨1, .forUpdates, .forDeletes⟩⟩

def crowded : MemoryDatabase :=
  ((start.database.run (neighbour.insertOne
    (.ofList [("_id", .string "a"), ("articles", .string "articles")]))).2.run
    (articles.insertMany [article "b" 7, article "a" 7])).2

theorem stocked_agreesUnder_crowded :
    stocked.memory.table.AgreesUnder "articles" crowded.memory.table := by
  -- the articles were inserted in the first commit of one store and in the second of the other
  refine ⟨fun v w => v = 1 ∧ w = 2, ?_, ?_⟩
  · rintro v v' w w' ⟨rfl, rfl⟩ ⟨rfl, rfl⟩
    exact iff_of_true rfl rfl
  · exact .cons ⟨rfl, rfl, rfl, rfl⟩ (.cons ⟨rfl, rfl, rfl, rfl⟩ (.cons ⟨rfl, rfl, rfl, rfl⟩
      (.cons ⟨rfl, rfl, rfl, rfl⟩ .nil)))

end Sample

namespace System

open Sample in
/-- A restock does the same with and without the other collection, whose entries it leaves alone. -/
theorem collections_isolated_of_neighbour :
    SameRun articles stocked crowded
      ((Operation.updateMany (inStock 7) (restock 8)).program articles 9) ∧
    crowded.memory.table.SameElsewhere "articles" (crowded.run
      ((Operation.updateMany (inStock 7) (restock 8)).program articles 9)).2.memory.table := by
  obtain ⟨helsewhere, hisolated, _⟩ := collections_isolated articles 9
  have hstart : start.database.memory.Arises := .empty
  have hstocked : stocked.memory.Arises :=
    hstart.run (articles.insertMany [article "b" 7, article "a" 7])
  have hcrowded : crowded.memory.Arises := (hstart.run (neighbour.insertOne _)).run _
  exact ⟨(hisolated (.updateMany (inStock 7) (restock 8)) trivial).sameRun hstocked hcrowded rfl rfl
    stocked_agreesUnder_crowded, helsewhere _ crowded⟩

end System

end DocumentStore
