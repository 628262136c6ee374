import DocumentStore.Proofs.Collection.Inserting
import DocumentStore.Proofs.Database.Runs

/-!
# Inserts are all or nothing

On a database that the operations of a collection led to, an insert stores all its documents in one
commit or leaves every entry as it is.  On an open store that does not conflict it fails only for
what the documents are: index entries of other documents are never in the way.
-/

namespace DocumentStore

variable {c : Collection} {db : MemoryDatabase} {docs : List Document} {α : Type}

structure AllOrNothing (c : Collection) (db : MemoryDatabase) (docs : List Document)
    (gives : α → List Document) (insert : Action α) : Prop where
  finishes : ∃ r db', db.run insert = (some r, db')
  /-- On an open store that does not conflict the documents decide. -/
  succeeds_iff : db.memory.closed = false → db.settings.store.remaining = 0 →
    ((∃ a db', db.run insert = (some (.ok a), db')) ↔ c.Insertable db.memory.table docs)
  /-- A success gives the documents back in their order and adds them, and nothing else changes. -/
  success : ∀ a db', db.run insert = (some (.ok a), db') →
    gives a = docs ∧ c.Insertable db.memory.table docs ∧ c.Adds docs db.memory db'.memory
  /-- Whatever the error, no entry changes, and the documents or the store are the reason. -/
  failure : ∀ e db', db.run insert = (some (.error e), db') →
    db'.memory.table = db.memory.table ∧ c.Rejects db docs e

theorem AllOrNothing.of_ends {gives : α → List Document} {insert : Action α}
    (h : insert.Ends (fun a => c.InsertSucceeds db docs (gives a)) (c.InsertFails db docs) db) :
    AllOrNothing c db docs gives insert := by
  obtain ⟨r, db', hrun, hr⟩ := h
  have hsame : ∀ {r' db''}, db.run insert = (some r', db'') → r' = r ∧ db'' = db' := by
    intro r' db'' hrun'
    have heq : (some r', db'') = (some r, db') := hrun'.symm.trans hrun
    cases heq
    exact ⟨rfl, rfl⟩
  refine ⟨⟨r, db', hrun⟩, fun hopen hquiet => ⟨?_, fun hinsertable => ?_⟩, ?_, ?_⟩
  · rintro ⟨a, db'', hrun'⟩
    obtain ⟨rfl, rfl⟩ := hsame hrun'
    exact hr.2.1
  · cases r with
    | ok a => exact ⟨a, db', hrun⟩
    | error e => exact absurd hr.2 (hinsertable.not_rejects hopen hquiet e)
  · intro a db'' hrun'
    obtain ⟨rfl, rfl⟩ := hsame hrun'
    exact hr
  · intro e db'' hrun'
    obtain ⟨rfl, rfl⟩ := hsame hrun'
    exact hr

namespace System

/-- Inserts of many documents and of one are all or nothing, whatever identities are drawn. -/
theorem inserts_all_or_nothing {name : String} {options : CollectionOptions}
    {defaults : CollectionDefaults} (hdefine : Collection.define name options defaults = .ok c)
    (h : Reachable c db) :
    (∀ ds, AllOrNothing c db (Document.identifiedAll db.settings.ids ds) id (c.insertMany ds)) ∧
      ∀ d, AllOrNothing c db (Document.identifiedAll db.settings.ids [d]) (fun d' => [d'])
        (c.insertOne d) := by
  have hc := Collection.wellIndexed_of_define hdefine
  have hsound := h.sound hc
  exact ⟨fun ds => .of_ends (Collection.insertMany_ends hc hsound ds),
    fun d => .of_ends (Collection.insertOne_ends hc hsound d)⟩

open Sample in
/-- Two more articles of the stock that there are articles of, one of them without an identity, are
stored; with an article that is there they are not. -/
theorem inserts_all_or_nothing_of_articles :
    (∃ db', stocked.run (articles.insertMany [.ofList [("stock", .integer 7)], article "c" 7]) =
        (some (.ok [article "article1" 7, article "c" 7]), db') ∧
      articles.Insertable stocked.memory.table [article "article1" 7, article "c" 7] ∧
      articles.Adds [article "article1" 7, article "c" 7] stocked.memory db'.memory) ∧
    ∃ db', stocked.run (articles.insertMany [article "c" 7, article "a" 7]) =
        (some (.error (.batchCollision "articles")), db') ∧
      db'.memory.table = stocked.memory.table ∧
      ¬ articles.Insertable stocked.memory.table [article "c" 7, article "a" 7] := by
  obtain ⟨hmany, _⟩ := inserts_all_or_nothing define_articles served_stocked.reachable
  have hstored := hmany [.ofList [("stock", .integer 7)], article "c" 7]
  have hkept := hmany [article "c" 7, article "a" 7]
  obtain ⟨_, hinsertable, hadds⟩ := hstored.success _ _ rfl
  refine ⟨⟨_, rfl, hinsertable, hadds⟩, _, rfl, (hkept.failure _ _ rfl).1, fun h => ?_⟩
  obtain ⟨a, db', hrun⟩ := (hkept.succeeds_iff rfl rfl).2 h
  cases congrArg Prod.fst hrun

end System

end DocumentStore
