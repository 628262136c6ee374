import DocumentStore.Proofs.Collection.Persistence
import DocumentStore.Proofs.Collection.Writing
import DocumentStore.Proofs.Program.Finishing
import Mathlib.Data.List.Duplicate

/-!
# What an insert does alone

An insert first gives an identity to each document without one (`identifiedAll`).  It succeeds on
documents that are `Insertable`, and then `Adds` them and nothing else; when it fails, one of the
reasons listed in `Rejects` is there.
-/

namespace DocumentStore

namespace Document

/-- The document with the next identity of a source if it has none of its own, and the source that is
left. -/
def identified (ids : IdSource) (d : Document) : Document × IdSource :=
  if d.hasIdentity then (d, ids) else (d.insert identityField (.string ids.next.1), ids.next.2)

def identifiedAll (ids : IdSource) : List Document → List Document
  | [] => []
  | d :: ds => (d.identified ids).1 :: identifiedAll (d.identified ids).2 ds

end Document

namespace Collection

variable {c : Collection} {db : MemoryDatabase} {docs : List Document}
  {ps : List (String × Document)}

/-- Documents that can be stored together. -/
structure Insertable (c : Collection) (t : Table) (docs : List Document) : Prop where
  persistable : ∀ d ∈ docs, c.Persistable d
  distinct : (docs.map Document.id?).Nodup
  free : ∀ d ∈ docs, ∀ id, d.id? = some id → c.contents t id = none

/-- Documents are stored with all their entries in one commit, which leaves all other entries as they
are; without documents there is no commit. -/
structure Adds (c : Collection) (docs : List Document) (m m' : Memory) : Prop where
  version : m'.version = m.version + if docs.isEmpty then 0 else 1
  mem_iff : ∀ e, e ∈ m'.table.entries ↔ e ∈ m.table.entries ∨
    ∃ d ∈ docs, ∃ id, d.id? = some id ∧ e ∈ c.entriesOf id ⟨d, m'.version⟩
  contents : ∀ id d, c.contents m'.table id = some d ↔
    c.contents m.table id = some d ∨ d ∈ docs ∧ d.id? = some id

/-- The reasons for an insert of documents to fail, and the errors it fails with. -/
inductive Rejects (c : Collection) (db : MemoryDatabase) (docs : List Document) : Error → Prop where
  /-- A document does not pass the checks. -/
  | unfit {d : Document} {e : Error} (hd : d ∈ docs) (hcheck : c.checkDocument d = .error e) :
    Rejects c db docs e
  /-- Two documents have one identity. -/
  | repeated {id : String} (h : List.Duplicate (some id) (docs.map Document.id?)) :
    Rejects c db docs (.repeatedId id)
  /-- There is a document stored under the identity of one of the new ones. -/
  | stored {d : Document} {id : String} {e : Error} (hd : d ∈ docs) (hid : d.id? = some id)
    (hstored : c.contents db.memory.table id ≠ none) (hkind : e.kind = .conflict) :
    Rejects c db docs e
  /-- The store is made to conflict. -/
  | contended {e : Error} (h : db.settings.store.remaining ≠ 0) (hkind : e.kind = .conflict) :
    Rejects c db docs e
  | closed (h : db.memory.closed = true) : Rejects c db docs .closedStore

/-- On an open store that does not conflict nothing but the documents can be the reason. -/
theorem Insertable.not_rejects (h : c.Insertable db.memory.table docs)
    (hopen : db.memory.closed = false) (hquiet : db.settings.store.remaining = 0) (e : Error) :
    ¬ c.Rejects db docs e := by
  intro hrejects
  cases hrejects with
  | unfit hd hcheck =>
    rw [checkDocument_eq_ok_iff.2 (h.persistable _ hd)] at hcheck
    cases hcheck
  | repeated hrepeated => exact hrepeated.not_nodup h.distinct
  | stored hd hid hstored _ => exact hstored (h.free _ hd _ hid)
  | contended hremaining _ => exact hremaining hquiet
  | closed hclosed =>
    rw [hopen] at hclosed
    cases hclosed

/-! ## Identities -/

theorem Storable.id? {p : String × Document} (h : c.Storable p) : p.2.id? = some p.1 := by
  rw [Document.id?, h.1]
  rfl

theorem map_id?_of_storable (hps : ∀ p ∈ ps, c.Storable p) :
    (ps.map Prod.snd).map Document.id? = (ps.map Prod.fst).map some := by
  rw [List.map_map, List.map_map]
  exact List.map_congr_left fun p hp => (hps p hp).id?

theorem duplicate_of_firstRepeated {seen ids : List String} {id : String}
    (h : firstRepeated seen ids = some id) : id ∈ ids ∧ (id ∈ seen ∨ List.Duplicate id ids) := by
  induction ids generalizing seen with
  | nil => cases h
  | cons x ids ih =>
    rw [firstRepeated] at h
    by_cases hx : x ∈ seen
    · rw [if_pos hx] at h
      cases h
      exact ⟨List.mem_cons_self, .inl hx⟩
    · rw [if_neg hx] at h
      obtain ⟨hid, hwhere⟩ := ih h
      refine ⟨List.mem_cons_of_mem _ hid, ?_⟩
      rcases hwhere with hseen | hrest
      · rcases List.mem_cons.1 hseen with rfl | hseen
        · exact .inr (.cons_mem hid)
        · exact .inl hseen
      · exact .inr (.cons_duplicate hrest)

theorem duplicate_id?_of_firstRepeated (hps : ∀ p ∈ ps, c.Storable p) {id : String}
    (h : firstRepeated [] (ps.map Prod.fst) = some id) :
    List.Duplicate (some id) ((ps.map Prod.snd).map Document.id?) := by
  have hrepeated : List.Duplicate id (ps.map Prod.fst) := by
    rcases (duplicate_of_firstRepeated h).2 with hseen | hrepeated
    · cases hseen
    · exact hrepeated
  rw [map_id?_of_storable hps]
  exact List.duplicate_iff_sublist.2 ((List.duplicate_iff_sublist.1 hrepeated).map some)

/-! ## Documents that get ready -/

/-- A document that is prepared is the one with an identity, and an error is that of its check. -/
theorem prepare_ends (d : Document) :
    (c.prepare d).Ends
      (fun p db' => db.Alike db' ∧ db'.settings.ids = (d.identified db.settings.ids).2 ∧
        p.2 = (d.identified db.settings.ids).1 ∧ c.Storable p)
      (fun e db' => db.Alike db' ∧ c.checkDocument (d.identified db.settings.ids).1 = .error e)
      db := by
  -- what is done in both cases, once the document has an identity
  have hrest : ∀ (d : Document) (db : MemoryDatabase), Action.Ends
      (fun p db' => db' = db ∧ p.2 = d ∧ c.Storable p)
      (fun e db' => db' = db ∧ c.checkDocument d = .error e) (do
        Action.ofExcept (c.checkDocument d)
        return (← Action.ofExcept d.requireId, d)) db := by
    intro d db
    refine .bind (.ofExcept (fun _ hcheck => ?_) fun e he => ⟨rfl, he⟩)
    obtain ⟨id, hid⟩ := (checkDocument_eq_ok_iff.1 hcheck).identity
    refine .bind (.ofExcept (fun id' hid' => ?_) fun e he => ?_)
    · exact .pure ⟨rfl, rfl, identity_of_requireId hid', hcheck⟩
    · rw [requireId_of_identity hid] at he
      cases he
  unfold prepare Document.identified
  dsimp only
  split
  · refine .bind (.pure ((hrest d db).imp ?_ ?_))
    · rintro p db' ⟨rfl, hp⟩
      exact ⟨.refl _, rfl, hp⟩
    · rintro e db' ⟨rfl, he⟩
      exact ⟨.refl _, he⟩
  · refine .bind (.lift (Program.Finishes.freshId.imp ?_))
    rintro id db' ⟨rfl, hdb', hids⟩
    refine .bind (.ofExcept (fun d' hd' => ?_) fun e he => ?_)
    · cases hd'
      refine (hrest _ db').imp ?_ ?_
      · rintro p db'' ⟨rfl, hp⟩
        exact ⟨hdb', hids, hp⟩
      · rintro e db'' ⟨rfl, he⟩
        exact ⟨hdb', he⟩
    · cases he

theorem prepareAll_ends (ds : List Document) :
    (c.prepareAll ds).Ends
      (fun ps db' => db.Alike db' ∧ ps.map Prod.snd = Document.identifiedAll db.settings.ids ds ∧
        ∀ p ∈ ps, c.Storable p)
      (fun e db' => db.Alike db' ∧
        ∃ d ∈ Document.identifiedAll db.settings.ids ds, c.checkDocument d = .error e) db := by
  induction ds generalizing db with
  | nil => exact .pure ⟨.refl db, rfl, fun p hp => by cases hp⟩
  | cons d ds ih =>
    refine .bind ((prepare_ends d).imp ?_ ?_)
    · rintro p db' ⟨hdb', hids, hdocument, hp⟩
      refine .bind (ih.imp ?_ ?_)
      · rintro ps db'' ⟨hdb'', hdocuments, hps⟩
        refine .pure ⟨hdb'.trans hdb'', ?_, List.forall_mem_cons.2 ⟨hp, hps⟩⟩
        rw [List.map_cons, hdocument, hdocuments, hids]
        rfl
      · rintro e db'' ⟨hdb'', d', hd', he⟩
        rw [hids] at hd'
        exact ⟨hdb'.trans hdb'', d', List.mem_cons_of_mem _ hd', he⟩
    · rintro e db' ⟨hdb', he⟩
      exact ⟨hdb', _, List.mem_cons_self, he⟩

/-! ## The commit -/

/-- A check of an insert holds as long as nothing is stored under the identity, index entries
included: they belong to identities as well. -/
theorem holds_of_free (h : c.Consistent db.memory.table) {p : String × Document}
    (hfree : c.contents db.memory.table p.1 = none) {key : Key} (hkey : key ∈ c.keysOf p.2 p.1) :
    db.memory.holds ⟨key, none⟩ = true := by
  have hnone : db.memory.table.find? key = none :=
    h.find?_eq_none (Option.map_eq_none_iff.1 hfree) (owns_of_mem_keysOf hkey)
  show (((db.memory.table.find? key).map (·.version)) == none) = true
  rw [hnone]
  rfl

theorem Inserts.adds (hc : c.WellIndexed) {w : Commit} (h : c.Sound w.before) (hw : w.Effective)
    (hinserts : c.Inserts ps w) (hps : ∀ p ∈ ps, c.Storable p) (hne : ps ≠ []) :
    c.Insertable w.before.table (ps.map Prod.snd) ∧ c.Adds (ps.map Prod.snd) w.before w.after := by
  have hfree : ∀ p ∈ ps, c.contents w.before.table p.1 = none := fun p hp =>
    Option.map_eq_none_iff.2 (hinserts.free p hp)
  have hmem : ∀ e, e ∈ w.after.table.entries ↔ e ∈ w.before.table.entries ∨
      ∃ p ∈ ps, e ∈ c.entriesOf p.1 ⟨p.2, w.version⟩ := by
    intro e
    rw [hw.table, hinserts.made, mem_applyAll_insertBatch hc hinserts.nodup, or_comm]
    refine or_congr_left (and_iff_left_of_imp fun he p hp key hkey hsame => ?_)
    -- the keys of the new documents were free
    have hnone := h.consistent.find?_eq_none (hinserts.free p hp) (owns_of_mem_keysOf hkey)
    rw [Table.find?_eq_some_iff.2 ⟨he, hsame⟩] at hnone
    cases hnone
  refine ⟨⟨?_, ?_, ?_⟩, ?_, fun e => ?_, fun id d => ?_⟩
  · exact List.forall_mem_map.2 fun p hp => checkDocument_eq_ok_iff.1 (hps p hp).2
  · rw [map_id?_of_storable hps]
    exact hinserts.nodup.map (fun _ _ => Option.some.inj)
  · refine List.forall_mem_map.2 fun p hp id hid => ?_
    rw [(hps p hp).id?] at hid
    cases hid
    exact hfree p hp
  · have hlength : (ps.map Prod.snd).isEmpty = false := by simpa using hne
    rw [hlength]
    exact hw.version_eq
  · rw [hmem]
    refine or_congr_right ⟨?_, ?_⟩
    · rintro ⟨p, hp, he⟩
      exact ⟨p.2, List.mem_map_of_mem hp, p.1, (hps p hp).id?, he⟩
    · rintro ⟨d, hd, id, hid, he⟩
      obtain ⟨p, hp, rfl⟩ := List.mem_map.1 hd
      rw [(hps p hp).id?] at hid
      cases hid
      exact ⟨p, hp, he⟩
  -- of the new entries only primary ones count as stored documents
  · simp only [contents_eq_some_iff, stored?_eq_some_iff, hmem]
    constructor
    · rintro ⟨v, he | ⟨p, hp, he⟩⟩
      · exact .inl ⟨v, he⟩
      · obtain ⟨hkey, hvalue, _⟩ := mem_entriesOf.1 he
        have hid : p.1 = id :=
          (owns_of_mem_keysOf hkey).eq_of_same (.inl rfl) (Key.same_refl _)
        cases hvalue
        exact .inr ⟨List.mem_map_of_mem hp, hid ▸ (hps p hp).id?⟩
    · rintro (⟨v, he⟩ | ⟨hd, hid⟩)
      · exact ⟨v, .inl he⟩
      · obtain ⟨p, hp, rfl⟩ := List.mem_map.1 hd
        rw [(hps p hp).id?] at hid
        cases hid
        exact ⟨w.version, .inr ⟨p, hp, c.primary_mem_entriesOf p.1 ⟨p.2, w.version⟩⟩⟩

section Alike

variable {db' : MemoryDatabase} {m : Memory}

theorem Adds.of_alike (hdb : db.Alike db') (h : c.Adds docs db'.memory m) :
    c.Adds docs db.memory m := by
  obtain ⟨hversion, hmem, hcontents⟩ := h
  rw [hdb.version] at hversion
  rw [hdb.table] at hmem hcontents
  exact ⟨hversion, hmem, hcontents⟩

theorem Rejects.of_alike {e : Error} (hdb : db.Alike db') (h : c.Rejects db' docs e) :
    c.Rejects db docs e := by
  cases h with
  | unfit hd hcheck => exact .unfit hd hcheck
  | repeated hrepeated => exact .repeated hrepeated
  | stored hd hid hstored hkind =>
    rw [hdb.table] at hstored
    exact .stored hd hid hstored hkind
  | contended hremaining hkind =>
    rw [hdb.remaining] at hremaining
    exact .contended hremaining hkind
  | closed hclosed =>
    rw [hdb.closed] at hclosed
    exact .closed hclosed

end Alike

def InsertSucceeds (c : Collection) (db : MemoryDatabase) (docs results : List Document)
    (db' : MemoryDatabase) : Prop :=
  results = docs ∧ c.Insertable db.memory.table docs ∧ c.Adds docs db.memory db'.memory

def InsertFails (c : Collection) (db : MemoryDatabase) (docs : List Document) (e : Error)
    (db' : MemoryDatabase) : Prop :=
  db'.memory.table = db.memory.table ∧ c.Rejects db docs e

/-- The commit of documents that are ready, on the database where preparing them has led. -/
theorem commitInsert_ends {db' : MemoryDatabase} (hc : c.WellIndexed) (h : c.Sound db.memory)
    (hdb' : db.Alike db') (hps : ∀ p ∈ ps, c.Storable p) (hnodup : (ps.map Prod.fst).Nodup)
    (hne : ps ≠ []) :
    (Action.commit (c.insertBatch ps)).Ends
      (fun result db'' => match result with
        | .committed _ => c.InsertSucceeds db (ps.map Prod.snd) (ps.map Prod.snd) db''
        | .conflict => ∀ e : Error, e.kind = .conflict → c.InsertFails db (ps.map Prod.snd) e db'')
      (c.InsertFails db (ps.map Prod.snd)) db' := by
  have hsound : c.Sound db'.memory := h.of_eq hdb'.table hdb'.version
  refine Action.Ends.commit.imp ?_ ?_
  · intro result db'' hresult
    cases result with
    | committed version =>
      have heffective : Commit.Effective ⟨c.insertBatch ps, db'.memory, db''.memory⟩ := hresult
      have hinserts := inserts_of_effective hc hsound heffective hnodup hps rfl
      obtain ⟨hinsertable, hadds⟩ := hinserts.adds hc hsound heffective hps hne
      have hinsertable : c.Insertable db'.memory.table (ps.map Prod.snd) := hinsertable
      rw [hdb'.table] at hinsertable
      exact ⟨rfl, hinsertable, hadds.of_alike hdb'⟩
    | conflict =>
      have hrefuses : db'.Refuses (c.insertBatch ps) db'' := hresult
      refine fun e hkind => ⟨hrefuses.table.trans hdb'.table, .of_alike hdb' ?_⟩
      -- a check failed, so a key is taken, or the store was told to report a conflict
      rcases hrefuses.reason with ⟨check, hcheck, hfails⟩ | hremaining
      · rw [insertBatch_eq] at hcheck
        obtain ⟨p, hp, hcheck⟩ := List.mem_flatMap.1 hcheck
        obtain ⟨key, hkey, rfl⟩ := List.mem_map.1 hcheck
        refine .stored (List.mem_map_of_mem hp) (hps p hp).id? (fun hfree => ?_) hkind
        rw [holds_of_free hsound.consistent hfree hkey] at hfails
        cases hfails
      · exact .contended hremaining hkind
  · rintro e db'' ⟨rfl, hclosed, htable⟩
    exact ⟨htable.trans hdb'.table, .of_alike hdb' (.closed hclosed)⟩

/-! ## Inserts of one document and of many -/

theorem insertOne_ends (hc : c.WellIndexed) (h : c.Sound db.memory) (d : Document) :
    (c.insertOne d).Ends
      (fun d' => c.InsertSucceeds db (Document.identifiedAll db.settings.ids [d]) [d'])
      (c.InsertFails db (Document.identifiedAll db.settings.ids [d])) db := by
  unfold insertOne
  refine .bind ((prepare_ends d).imp ?_ ?_)
  · rintro p db' ⟨hdb', _, hdocument, hp⟩
    have hdocs : Document.identifiedAll db.settings.ids [d] = [p].map Prod.snd := by
      rw [List.map_singleton, hdocument]
      rfl
    rw [hdocs]
    refine .bind ((commitInsert_ends hc h hdb' (by simpa using hp) (by simp) (by simp)).imp ?_ ?_)
    · intro result db'' hresult
      cases result with
      | committed version => exact .pure hresult
      | conflict => exact .throw (hresult _ rfl)
    · exact fun e db'' he => he
  · rintro e db' ⟨hdb', he⟩
    exact ⟨hdb'.table, .unfit List.mem_cons_self he⟩

theorem insertMany_ends (hc : c.WellIndexed) (h : c.Sound db.memory) (ds : List Document) :
    (c.insertMany ds).Ends
      (c.InsertSucceeds db (Document.identifiedAll db.settings.ids ds))
      (c.InsertFails db (Document.identifiedAll db.settings.ids ds)) db := by
  unfold insertMany
  split
  · rename_i hempty
    rw [List.isEmpty_iff.1 hempty, Document.identifiedAll]
    exact .pure ⟨rfl, ⟨by simp, .nil, by simp⟩, rfl, by simp, by simp⟩
  · rename_i hds
    refine .bind ((prepareAll_ends ds).imp ?_ ?_)
    · rintro ps db' ⟨hdb', hdocs, hps⟩
      have hne : ps ≠ [] := by
        rintro rfl
        cases ds with
        | nil => exact hds rfl
        | cons d ds => cases hdocs
      rw [← hdocs]
      dsimp only
      split
      · rename_i id hid
        exact .bind (.throw ⟨hdb'.table, .repeated (duplicate_id?_of_firstRepeated hps hid)⟩)
      · rename_i hnone
        have hnodup : (ps.map Prod.fst).Nodup := by
          -- no repetition was found
          refine (firstRepeated_eq_none [] ?_).1
          exact Option.eq_none_iff_forall_ne_some.2 hnone
        refine .bind ((commitInsert_ends hc h hdb' hps hnodup hne).imp ?_ ?_)
        · intro result db'' hresult
          cases result with
          | committed version => exact .pure hresult
          | conflict => exact .throw (hresult _ rfl)
        · exact fun e db'' he => he
    · rintro e db' ⟨hdb', d, hd, he⟩
      exact ⟨hdb'.table, .unfit hd he⟩

end Collection

end DocumentStore
