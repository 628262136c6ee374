import DocumentStore.Proofs.Database.Worlds

/-!
# Destroying a collection

A database destroys a collection as it knows it.  It deletes documents one by one along the path of all
deletes, so conflicts to come can leave the first of them in place, and it deletes index entries by the
index fields that the name was opened with here, so entries under other fields stay behind.  Nothing
else is different afterwards, and an attempt that fails changes no entry.
-/

namespace DocumentStore

structure Database.Destroyed (db : MemoryDatabase) (name : String) (n : Nat) (db' : MemoryDatabase) :
    Prop extends db.Destroys name n db' where
  elsewhere : db.memory.table.SameElsewhere name db'.memory.table
  /-- Nothing is left of documents that were all written with the indexes that are known here. -/
  complete : db.leftBy name = 0 →
    (∀ e ∈ db.memory.table.entries, e.key.belongsTo name = true →
      ∃ p ∈ db.primaries name, (db.collectionOf name).Removes p e.key) →
    ∀ e ∈ db'.memory.table.entries, e.key.belongsTo name = false

namespace World

/-- In every world, destroying a collection comes to an end: it deletes all documents but those that
conflicts leave in place and forgets the name, or it changes no entry and no definition. -/
theorem destruction_settled {w : World} (hw : w.Reachable) {i : Nat} {db : MemoryDatabase}
    (hdb : w.database? i = some db) {name : String} (hname : Registry.checkName name = .ok ())
    {fuel : Nat} (hfuel : w.table.size < fuel) :
    ∃ r db', db.run (Database.destroyCollection name fuel) = (some r, db') ∧
      (∀ n, r = .ok n → db.Destroyed name n db') ∧ ∀ e, r = .error e → db.Spares name db' := by
  have hsound := hw.sound.database hdb
  rw [← table_of_database hdb] at hfuel
  obtain ⟨r, db', hrun, hr⟩ := Database.destroyCollection_settles hsound hname hfuel
  refine ⟨r, db', hrun, ?_, ?_⟩
  · rintro n rfl
    obtain ⟨hdestroys, _⟩ := hr
    have hdrops := hdestroys.drops
    have hname_eq : (db.collectionOf name).name = name := hsound.collectionOf_name name
    refine ⟨hdestroys, hname_eq ▸ hdrops.sameElsewhere, fun hleft hall e he => ?_⟩
    obtain ⟨hold, hkept⟩ := (hdrops e).1 he
    refine Bool.eq_false_iff.2 fun howned => ?_
    obtain ⟨p, hp, hremoves⟩ := hall e hold howned
    rw [hleft, List.drop_zero, hname_eq] at hkept
    exact hkept p hp hremoves
  · rintro e rfl
    exact hr.1

end World

namespace Database

variable {α : Type} (db : MemoryDatabase) (p : Action α)

theorem run_eq_ok {a : α} (h : (db.run p).1.bind Except.toOption = some a) :
    db.run p = (some (.ok a), (db.run p).2) := by
  obtain ⟨r, hr, ha⟩ := Option.bind_eq_some_iff.1 h
  refine Prod.ext ?_ rfl
  cases r with
  | ok b =>
    cases ha
    exact hr
  | error e => cases ha

theorem run_eq_error (h : (db.run p).1.map Except.isOk = some false) :
    ∃ e, db.run p = (some (.error e), (db.run p).2) := by
  obtain ⟨r, hr, ha⟩ := Option.map_eq_some_iff.1 h
  cases r with
  | ok b => cases ha
  | error e => exact ⟨e, Prod.ext hr rfl⟩

end Database

namespace Sample

/-- Two articles in a store with three databases: the one that opened their collection by stock, a
second one, and a third one whose deletes must succeed at the first attempt. -/
def shared : World := World.fresh.run [
  .found (.counter "id") [],
  .openCollection 0 "articles" (some { indexFields := ["stock"] }),
  .start 0 (.insertMany [article "a" 7, article "b" 7]) 9, .request 0,
  .found (.counter "id") [],
  .found (.counter "id") [.deleteRetry (.untilSuccess 1)]]

def contended : World := shared.step (.contend 1)

theorem reachable_shared : shared.Reachable := ⟨_, rfl⟩

theorem reachable_contended : contended.Reachable := reachable_shared.step _

def member (w : World) (i : Nat) : MemoryDatabase := (w.databases.getD i default).withStore w.store

theorem database?_member {w : World} {i : Nat} (hi : i < w.databases.length) :
    w.database? i = some (member w i) := by
  unfold World.database? member
  rw [List.getD_eq_getElem?_getD, List.getElem?_eq_getElem hi]
  rfl

end Sample

namespace World

open Sample

/-- The database that opened the collection destroys it, and nothing is left. -/
theorem destruction_settled_of_articles :
    shared.database? 0 = some (member shared 0) ∧
    ∃ db', (member shared 0).run (Database.destroyCollection "articles" 9) = (some (.ok 2), db') ∧
      (member shared 0).Destroyed "articles" 2 db' ∧
      ∀ e ∈ db'.memory.table.entries, e.key.belongsTo "articles" = false := by
  have hmember : shared.database? 0 = some (member shared 0) := rfl
  have hok : (member shared 0).run (Database.destroyCollection "articles" 9) =
      (some (.ok 2), _) := Database.run_eq_ok _ _ (by decide +kernel)
  refine ⟨hmember, _, hok, ?_⟩
  obtain ⟨r, db', hrun, hsettled, _⟩ := destruction_settled reachable_shared hmember
    (show Registry.checkName "articles" = .ok () from rfl) (show shared.table.size < 9 by decide)
  cases hok.symm.trans hrun
  have hdestroyed := hsettled 2 rfl
  refine ⟨hdestroyed, hdestroyed.complete rfl ?_⟩
  -- every entry goes with the primary entry of its article
  have hprimaries : (member shared 0).primaries "articles" = ["a", "b"].map fun id =>
      ⟨Layout.primaryKey "articles" id, .map (article id 7), 1⟩ := rfl
  have hentries : (member shared 0).memory.table.entries =
      ((member shared 0).primaries "articles") ++ ["a", "b"].map fun id =>
        ⟨Layout.indexKey "articles" "stock" (.integer 7) id, .map (article id 7), 1⟩ := rfl
  intro e he _
  rw [hentries, hprimaries] at he
  rw [hprimaries]
  rcases List.mem_append.1 he with he | he
  · obtain ⟨id, hid, rfl⟩ := List.mem_map.1 he
    exact ⟨_, List.mem_map_of_mem hid, id, _, rfl, rfl, _, List.mem_cons_self, Key.same_refl _⟩
  · obtain ⟨id, hid, rfl⟩ := List.mem_map.1 he
    exact ⟨_, List.mem_map_of_mem hid, id, _, rfl, rfl, _,
      List.mem_cons_of_mem _ List.mem_cons_self, Key.same_refl _⟩

/-- A collection that is destroyed need not be gone.  Documents that another database wrote with an
index leave their index entries; a conflict leaves a document; and an attempt that fails can register a
name. -/
theorem destruction_incomplete :
    (shared.Reachable ∧ shared.database? 1 = some (member shared 1) ∧
      ∃ db', (member shared 1).run (Database.destroyCollection "articles" 9) =
          (some (.ok 2), db') ∧
        ∃ e ∈ db'.memory.table.entries, e.key.belongsTo "articles" = true) ∧
    (contended.Reachable ∧ contended.database? 0 = some (member contended 0) ∧
      ((member contended 0).primaries "articles").length = 2 ∧
      ∃ db', (member contended 0).run (Database.destroyCollection "articles" 9) =
          (some (.ok 1), db') ∧
        ∃ e ∈ db'.memory.table.entries, e.key.belongsTo "articles" = true) ∧
    (contended.database? 2 = some (member contended 2) ∧
      ∃ e db', (member contended 2).run (Database.destroyCollection "articles" 9) =
          (some (.error e), db') ∧
        (member contended 2).registry.names = [] ∧ db'.registry.names = ["articles"]) := by
  refine ⟨⟨reachable_shared, rfl, _, Database.run_eq_ok _ _ (by decide +kernel),
      by decide +kernel⟩,
    ⟨reachable_contended, rfl, rfl, _, Database.run_eq_ok _ _ (by decide +kernel),
      by decide +kernel⟩, rfl, ?_⟩
  obtain ⟨e, he⟩ := Database.run_eq_error (member contended 2)
    (Database.destroyCollection "articles" 9) (by decide +kernel)
  exact ⟨e, _, he, by decide +kernel, by decide +kernel⟩

end World

end DocumentStore
