import DocumentStore.Proofs.Database.Coverage
import DocumentStore.Proofs.Database.Destruction

/-!
# Redefining collections

A name can be destroyed and opened again with other index fields, and collections that were opened
before stay in use.  Nothing tells them that they are out of date, so what they write can lack index
entries.  As long as all documents are written through collections that have the index fields that are
registered, every registered collection finds all its documents through its indexes
(`World.History.covered`).
-/

namespace DocumentStore

def Client.commitsDocuments (client : Client) : Bool :=
  match client.program with
  | .ask (.commit _) _ => client.operation.purpose.writes
  | _ => false

namespace World

def Current (w : World) (h : Handle) : Prop :=
  ∃ db ∈ w.database? h.database, h.collection.CurrentIn db.registry

instance (w : World) (h : Handle) : Decidable (w.Current h) :=
  inferInstanceAs (Decidable (∃ db ∈ w.database? h.database, _))

/-- One database is used, on a store without conflicts, and documents are committed through handles
that are up to date. -/
def Allows (w : World) : Move → Prop
  | .found .. | .contend _ => False
  | .request k => ∀ p ∈ w.clients[k]?, p.2.commitsDocuments = true → w.Current p.1
  | .openCollection .. | .destroyCollection .. | .start .. | .close => True

instance (w : World) : DecidablePred w.Allows
  | .found .. | .contend _ => isFalse id
  | .request k => inferInstanceAs (Decidable (∀ p ∈ w.clients[k]?, _))
  | .openCollection .. | .destroyCollection .. | .start .. | .close => isTrue trivial

def AllowsAll (w : World) : List Move → Prop
  | [] => True
  | move :: moves => w.Allows move ∧ (w.step move).AllowsAll moves

instance decidableAllowsAll (w : World) : (moves : List Move) → Decidable (w.AllowsAll moves)
  | [] => isTrue trivial
  | move :: moves =>
    have := decidableAllowsAll (w.step move) moves
    inferInstanceAs (Decidable (w.Allows move ∧ _))

/-- What can become of a fresh store with one database. -/
def History (w : World) : Prop :=
  ∃ ids setters moves, (fresh.step (.found ids setters)).AllowsAll moves ∧
    (fresh.step (.found ids setters)).run moves = w

/-! ## What stays true -/

/-- A sound world with one database at most, without conflicts, where all documents are covered. -/
structure Covered (w : World) : Prop extends w.Sound where
  quiet : w.store.remaining = 0
  single : w.databases.length ≤ 1
  covers : ∀ db ∈ w.databases, db.registry.Covers w.table

variable {w : World} {db : MemoryDatabase} {i : Nat}

theorem Covered.remaining (h : w.Covered) (hdb : w.database? i = some db) :
    db.settings.store.remaining = 0 := by
  obtain ⟨d, _, rfl⟩ := Option.map_eq_some_iff.1 hdb
  exact h.quiet

theorem Covered.database_covers (h : w.Covered) (hdb : w.database? i = some db) :
    db.registry.Covers db.memory.table := by
  obtain ⟨d, hd, rfl⟩ := Option.map_eq_some_iff.1 hdb
  exact h.covers d (List.mem_of_getElem? hd)

/-- The use of the database, after which all documents are covered. -/
theorem Covered.put (h : w.Covered) (hdb : w.database? i = some db) {db' : MemoryDatabase}
    (hsound : db'.Sound) (hquiet : db'.settings.store.remaining = 0)
    (hcovers : db'.registry.Covers db'.memory.table) : (w.put i db').Covered where
  toSound := h.toSound.put hsound
  quiet := hquiet
  single := by
    show (w.databases.set i _).length ≤ 1
    rw [List.length_set]
    exact h.single
  covers d hd := by
    obtain ⟨_, hi, _⟩ := Option.map_eq_some_iff.1 hdb
    have hlt := (List.getElem?_eq_some_iff.1 hi).1
    have hsingle := h.single
    -- there is no other database
    obtain ⟨d', hd'⟩ := List.length_eq_one_iff.1 (show w.databases.length = 1 by omega)
    have hd : d ∈ w.databases.set i (db'.withStore ()) := hd
    obtain rfl : i = 0 := by omega
    rw [hd'] at hd
    cases List.mem_singleton.1 hd
    exact hcovers

theorem covered_found (ids : IdSource) (setters : List (Setter Unit)) :
    (fresh.step (.found ids setters)).Covered := by
  have hsound := sound_fresh.found ids setters
  obtain hstep | ⟨settings, _, hstep⟩ := fresh.step_found ids setters
  · rw [hstep] at hsound ⊢
    exact ⟨hsound, rfl, Nat.zero_le 1, fun db hdb => by cases hdb⟩
  · rw [hstep] at hsound ⊢
    exact ⟨hsound, rfl, Nat.le_refl 1, fun db _ => db.registry.covers_empty⟩

theorem Covered.openCollection (h : w.Covered) (i : Nat) (name : String)
    (options : Option CollectionOptions) : (w.step (.openCollection i name options)).Covered := by
  have hsound := h.toSound.openCollection i name options
  obtain hstep | ⟨db, hdb, hstep | ⟨c, r', hopens, hstep⟩⟩ :=
    step_openCollection h.toSound i name options
  · rw [hstep]
    exact h
  · rw [hstep]
    exact h.put hdb (h.database hdb) (h.remaining hdb) (h.database_covers hdb)
  · rw [hstep] at hsound ⊢
    have hquiet := h.remaining hdb
    have hput := h.put hdb (h.toSound.opens hdb hopens) hquiet ((h.database_covers hdb).opens hopens)
    exact { hput with toSound := hsound }

theorem Covered.destroyCollection (h : w.Covered) (i : Nat) (name : String) :
    (w.step (.destroyCollection i name)).Covered := by
  obtain hstep | ⟨db, hdb, hfuel, hstep⟩ := w.step_destroyCollection i name
  · rw [hstep]
    exact h
  · rw [hstep]
    have hquiet := h.remaining hdb
    exact h.put hdb (Database.destroyCollection_shrinks (h.database hdb) name hfuel).1
      (Database.quiet_run hquiet _)
      ((h.database_covers hdb).destroyCollection (h.database hdb) hquiet name hfuel)

/-- The answer to a request keeps documents covered, unless it commits documents that lack index
fields. -/
theorem covers_answer {c : Collection} {op : Operation} {r : Request}
    {next : r.Answer → Action Reply} (hc : c.WellIndexed) (hsound : db.Sound)
    (h : db.registry.Covers db.memory.table) (hkeeps : Client.KeepsHouse c ⟨op, .ask r next⟩)
    (hcurrent : Client.commitsDocuments ⟨op, .ask r next⟩ = true → c.CurrentIn db.registry) :
    (Database.answer r db).2.registry.Covers (Database.answer r db).2.memory.table := by
  rw [hkeeps.answer_registry db]
  cases heffect : db.effect? r with
  | none =>
    rw [(Database.memory_of_no_effect heffect).1]
    exact h
  | some commit =>
    obtain ⟨rfl, hbefore, hafter, heffective⟩ := Database.effective_of_effect? heffect
    rw [← hafter, heffective.table, hbefore]
    cases hkeeps with
    | commit hsends _ =>
      exact h.sends hsound.registry hc hsends hcurrent

theorem Covered.request (h : w.Covered) {k : Nat} (hallows : w.Allows (.request k)) :
    (w.step (.request k)).Covered := by
  have hsound := h.toSound.request k
  obtain hstep | ⟨handle, op, r, next, db, hclient, hdb, hstep⟩ := w.step_request k
  · rw [hstep]
    exact h
  · rw [hstep] at hsound ⊢
    obtain ⟨hopened, hkeeps⟩ := h.clients _ (List.mem_of_getElem? hclient)
    have hcovers := covers_answer hopened.wellIndexed (h.database hdb) (h.database_covers hdb)
      hkeeps fun hcommits => by
        obtain ⟨db', hdb', hcurrent⟩ := hallows _ hclient hcommits
        cases hdb.symm.trans hdb'
        exact hcurrent
    have hput := h.put hdb (h.toSound.answer hclient hdb).1
      (Database.quiet_answer (h.remaining hdb) r) hcovers
    exact { hput with toSound := hsound }

theorem Covered.step (h : w.Covered) {move : Move} (hallows : w.Allows move) :
    (w.step move).Covered := by
  cases move with
  | found ids setters => exact hallows.elim
  | openCollection i name options => exact h.openCollection i name options
  | destroyCollection i name => exact h.destroyCollection i name
  | start k op fuel =>
    have hsound := h.toSound.start k op fuel
    obtain hstep | ⟨handle, _, hstep⟩ := w.step_start k op fuel
    · rw [hstep]
      exact h
    · rw [hstep] at hsound ⊢
      exact { h with toSound := hsound }
  | request k => exact h.request hallows
  | contend n => exact hallows.elim
  | close => exact { h with toSound := h.toSound.step .close }

theorem Covered.run (h : w.Covered) {moves : List Move} (hmoves : w.AllowsAll moves) :
    (w.run moves).Covered := by
  induction moves generalizing w with
  | nil => exact h
  | cons move moves ih => exact ih (h.step hmoves.1) hmoves.2

theorem History.covered (h : w.History) : w.Covered := by
  obtain ⟨ids, setters, moves, hmoves, rfl⟩ := h
  exact (covered_found ids setters).run hmoves

end World

/-! ## What indexes find -/

/-- A query finds every document that it accepts, if the document has all its entries. -/
theorem Collection.find_finishes {c : Collection} {db : MemoryDatabase} (hc : c.WellIndexed)
    (hbatch : 0 < c.defaults.scanBatch) (ht : db.memory.table.Housed)
    (hopen : db.memory.closed = false) {fuel : Nat} (hfuel : db.memory.table.size < fuel)
    (q : Query) :
    ((c.find q).getMany fuel).Finishes (fun ds _ => ∀ id s,
      (∀ e ∈ c.entriesOf id s, e ∈ db.memory.table.entries) →
      q.compile.accepts s.document = true → s.document ∈ ds) db := by
  refine (Cursor.getMany_reads_entries hopen hbatch hfuel q.compile []
    fun e he => ht.ofEntry (Strategy.mem_of_mem_entries he).1).imp ?_
  rintro ds db' ⟨_, rfl, _⟩ id s hentries haccepts
  have hid := (ht _ (hentries _ (c.primary_mem_entriesOf id s))).identity
  obtain ⟨e, he, hes⟩ := covers_choose hc hid hentries haccepts
  exact List.mem_map.2 ⟨s, CompiledQuery.mem_candidates.2 ⟨⟨e, he, hes⟩, haccepts⟩, rfl⟩

namespace World

/-- Whatever is opened, destroyed and opened again, every document of a registered collection has an
entry at each index field of the collection that it has a value for, and queries find all documents,
as long as documents are committed through handles that are up to date. -/
theorem redefinition_keeps_indexes {w : World} (h : w.History) {i : Nat} {db : MemoryDatabase}
    (hdb : w.database? i = some db) {name : String} {c : Collection}
    (hc : db.registry.find? name = some c) :
    (∀ (id : String) (d : Document) (v : Version),
      ⟨Layout.primaryKey name id, .map d, v⟩ ∈ w.table.entries →
      ∀ field ∈ c.indexes.fields, ∀ value part, d.get? field = some value →
        KeyPart.ofValue? value = some part →
        ⟨Layout.indexKey name field part id, .map d, v⟩ ∈ w.table.entries) ∧
    (db.memory.closed = false → ∀ (q : Query) (fuel : Nat), w.table.size < fuel →
      ∃ ds db', db.run ((c.find q).getMany fuel) = (some (.ok ds), db') ∧
        ∀ (id : String) (d : Document) (v : Version),
          ⟨Layout.primaryKey name id, .map d, v⟩ ∈ w.table.entries →
          q.compile.accepts d = true → d ∈ ds) := by
  have hcovered := h.covered
  have hsound := hcovered.database hdb
  obtain ⟨hname, hopened⟩ := hsound.registry name c hc
  have hentries : ∀ {id : String} {d : Document} {v : Version},
      ⟨Layout.primaryKey name id, .map d, v⟩ ∈ w.table.entries →
      ∀ e ∈ c.entriesOf id ⟨d, v⟩, e ∈ w.table.entries := by
    intro id d v hprimary
    have hcovers := hcovered.database_covers hdb
    rw [table_of_database hdb] at hcovers
    -- what covers the document is the collection registered under its name
    obtain ⟨c', hc', hentries⟩ := hcovers name id d v hprimary
    cases hc.symm.trans hc'
    exact hentries
  refine ⟨fun id d v hprimary field hfield value part hvalue hpart => ?_,
    fun hopen q fuel hfuel => ?_⟩
  · refine hentries hprimary _ (Collection.mem_entriesOf.2 ⟨?_, rfl, rfl⟩)
    refine List.mem_cons_of_mem _ (Collection.mem_indexKeys.2 ⟨field, hfield, part, ?_, ?_⟩)
    · exact Option.bind_eq_some_iff.2 ⟨value, hvalue, hpart⟩
    · rw [hname]
  · rw [← table_of_database hdb] at hfuel
    obtain ⟨_, db', hrun, ds, rfl, hfound⟩ := Collection.find_finishes hopened.wellIndexed
      hopened.defaults.scanBatch_pos hsound.housed hopen hfuel q
    rw [table_of_database hdb] at hfound
    exact ⟨ds, db', hrun, fun id d v hprimary => hfound id ⟨d, v⟩ (hentries hprimary)⟩

end World

namespace Sample

/-- Articles that were opened without an index, destroyed, and opened by stock. -/
def redefining : List World.Move := [
  .openCollection 0 "articles" none,
  .start 0 (.insertOne (article "c" 7)) 9, .request 0,
  .destroyCollection 0 "articles",
  .openCollection 0 "articles" (some { indexFields := ["stock"] })]

def redefined : World := (World.fresh.step (.found (.counter "id") [])).run (redefining ++ [
  .start 1 (.insertMany [article "a" 3, article "b" 7]) 9, .request 1,
  .start 0 (.deleteMany (inStock 3)) 9] ++ List.replicate 4 (.request 2))

def outdated : World := (World.fresh.step (.found (.counter "id") [])).run (redefining ++ [
  .start 0 (.insertOne (article "a" 7)) 9, .request 1])

end Sample

namespace World

open Sample

/-- The article that is left has its index entry and is found through it. -/
theorem redefinition_keeps_indexes_of_articles :
    redefined.History ∧ redefined.database? 0 = some (member redefined 0) ∧
    ∃ c, (member redefined 0).registry.find? "articles" = some c ∧ c.indexes.fields = ["stock"] ∧
      ∃ s, articles.stored? redefined.table "b" = some s ∧
        ⟨Layout.indexKey "articles" "stock" (.integer 7) "b", .map s.document, s.version⟩ ∈
          redefined.table.entries ∧
        ∃ ds db', (member redefined 0).run ((c.find (inStock 7)).getMany 9) =
          (some (.ok ds), db') ∧ s.document ∈ ds := by
  have hhistory : redefined.History := ⟨_, _, _, by decide +kernel, rfl⟩
  have hmember := database?_member (show 0 < redefined.databases.length by decide +kernel)
  have hc : (member redefined 0).registry.find? "articles" =
      some ((member redefined 0).collectionOf "articles") :=
    Database.find?_collectionOf (by decide +kernel)
  have hfields : ((member redefined 0).collectionOf "articles").indexes.fields = ["stock"] := by
    decide +kernel
  have hstored : (articles.stored? redefined.table "b").map (fun s =>
      (Collection.indexPart? s.document "stock", (inStock 7).compile.accepts s.document)) =
      some (some (.integer 7), true) := by decide +kernel
  obtain ⟨s, hs, hstock⟩ := Option.map_eq_some_iff.1 hstored
  obtain ⟨hpart, haccepts⟩ := Prod.mk.inj hstock
  obtain ⟨value, hvalue, hpart⟩ := Option.bind_eq_some_iff.1 hpart
  have hprimary := Collection.stored?_eq_some_iff.1 hs
  obtain ⟨hindexed, hfinds⟩ := redefinition_keeps_indexes hhistory hmember hc
  obtain ⟨ds, db', hrun, hfound⟩ := hfinds (by decide +kernel) (inStock 7) 9 (by decide +kernel)
  refine ⟨hhistory, hmember, _, hc, hfields, s, hs, ?_, ds, db', hrun, ?_⟩
  · exact hindexed "b" _ _ hprimary "stock" (by simp [hfields]) value _ hvalue hpart
  · exact hfound "b" _ _ hprimary haccepts

/-- A handle that is out of date writes an article without the index entry that the registered
collection asks for, and a query by the index field does not find the article. -/
theorem redefinition_unguarded :
    outdated.Reachable ∧ outdated.database? 0 = some (member outdated 0) ∧
    ∃ c, (member outdated 0).registry.find? "articles" = some c ∧ c.indexes.fields = ["stock"] ∧
      ∃ s, articles.stored? outdated.table "a" = some s ∧
        Collection.indexPart? s.document "stock" = some (.integer 7) ∧
        (∀ e ∈ outdated.table.entries,
          e.key ≠ Layout.indexKey "articles" "stock" (.integer 7) "a") ∧
        (inStock 7).compile.accepts s.document = true ∧
        ∃ db', (member outdated 0).run ((c.find (inStock 7)).getMany 9) = (some (.ok []), db') := by
  have hmember := database?_member (show 0 < outdated.databases.length by decide +kernel)
  have hc : (member outdated 0).registry.find? "articles" =
      some ((member outdated 0).collectionOf "articles") :=
    Database.find?_collectionOf (by decide +kernel)
  have hstored : (articles.stored? outdated.table "a").map (fun s =>
      (Collection.indexPart? s.document "stock", (inStock 7).compile.accepts s.document)) =
      some (some (.integer 7), true) := by decide +kernel
  obtain ⟨s, hs, hstock⟩ := Option.map_eq_some_iff.1 hstored
  obtain ⟨hpart, haccepts⟩ := Prod.mk.inj hstock
  have hnothing : (((member outdated 0).run ((((member outdated 0).collectionOf "articles").find
      (inStock 7)).getMany 9)).1.bind Except.toOption).map List.isEmpty = some true := by
    decide +kernel
  obtain ⟨ds, hds, hempty⟩ := Option.map_eq_some_iff.1 hnothing
  cases List.isEmpty_iff.1 hempty
  refine ⟨(reachable_fresh.step _).run _, hmember, _, hc, by decide +kernel, s, hs, hpart, ?_,
    haccepts, _, Database.run_eq_ok _ _ hds⟩
  decide +kernel

end World

end DocumentStore
