import DocumentStore.Proofs.Database.Opening

/-!
# Indexes that cover all documents

A registry covers a table if every document there lies under a name that is registered, and has an
entry at each of its keys in the collection of that name (`Registry.Covers`).  Opening a collection
keeps it so, and on a store without conflicts destroying one does.  Deletes keep it so whatever index
fields they know of; inserts and updates do if they know all fields of the collection that is
registered (`Collection.CurrentIn`).
-/

namespace DocumentStore

/-! ## Writes -/

def Purpose.writes : Purpose → Bool
  | read | change .delete _ => false
  | insert | change (.update _) _ => true

namespace Collection

/-- The name of the collection is registered, and the collection has all index fields that are
registered. -/
def CurrentIn (c : Collection) (r : Registry) : Prop :=
  ∃ c' ∈ r.find? c.name, ∀ field ∈ c'.indexes.fields, field ∈ c.indexes.fields

instance (c : Collection) (r : Registry) : Decidable (c.CurrentIn r) :=
  inferInstanceAs (Decidable (∃ c' ∈ r.find? c.name, _))

variable {c c' : Collection} {id : String} {s : Candidate} {key : Key} {e : Entry}

theorem Owns.of_name_eq (h : c'.Owns id key) (hname : c'.name = c.name) : c.Owns id key := by
  unfold Owns primaryKey at h ⊢
  rw [hname] at h
  exact h

/-- With more index fields a document has more entries. -/
theorem mem_entriesOf_of_subset (hname : c'.name = c.name)
    (hfields : ∀ field ∈ c'.indexes.fields, field ∈ c.indexes.fields)
    (he : e ∈ c'.entriesOf id s) : e ∈ c.entriesOf id s := by
  obtain ⟨hkey, hvalue, hversion⟩ := mem_entriesOf.1 he
  refine mem_entriesOf.2 ⟨?_, hvalue, hversion⟩
  rcases List.mem_cons.1 hkey with hkey | hkey
  · rw [hkey, primaryKey, hname]
    exact c.primaryKey_mem_keysOf _ _
  · obtain ⟨field, hfield, part, hpart, hkey⟩ := mem_indexKeys.1 hkey
    refine List.mem_cons_of_mem _ (mem_indexKeys.2 ⟨field, hfields field hfield, part, hpart, ?_⟩)
    rw [hkey, hname]

end Collection

namespace Registry

/-- Every document lies under a name that is registered, and has an entry at each of its keys in the
collection of that name. -/
def Covers (r : Registry) (t : Table) : Prop :=
  ∀ (name id : String) (d : Document) (v : Version),
    ⟨Layout.primaryKey name id, .map d, v⟩ ∈ t.entries →
      ∃ c, r.find? name = some c ∧ ∀ e ∈ c.entriesOf id ⟨d, v⟩, e ∈ t.entries

theorem covers_empty (r : Registry) : r.Covers .empty := fun _ _ _ _ he => by cases he

section Writes

variable {r : Registry} {c : Collection} {t : Table} {v : Version}

/-- One document is put in the place of another one. -/
theorem Covers.replace (h : r.Covers t) (hr : r.Sound) {id : String} {old new : Option Document}
    {ms : List Mutation} (hreplaces : c.Replaces id old new ms)
    (htouched : ∃ m ∈ ms, (c.primaryKey id).same m.key = true)
    (hcurrent : ∀ d ∈ new, c.CurrentIn r) : r.Covers (t.applyAll v ms) := by
  intro name id' d v' hprimary
  rcases hreplaces.mem_applyAll.1 hprimary with ⟨d', hd', he⟩ | ⟨hprimary, huntouched⟩
  -- the new document, which has its entries in a collection with more index fields
  · obtain ⟨c', hc', hfields⟩ := hcurrent d' hd'
    obtain ⟨hkey, hvalue, hversion⟩ := Collection.mem_entriesOf.1 he
    cases hvalue
    cases hversion
    rcases Collection.owns_of_mem_keysOf hkey with hkey | ⟨field, part, hkey⟩
    · cases hkey
      refine ⟨c', hc', fun e he => hreplaces.mem_applyAll.2 (.inl ⟨d', hd', ?_⟩)⟩
      exact Collection.mem_entriesOf_of_subset (hr c.name c' hc').1 hfields he
    · cases hkey
  -- another document, none of whose entries is touched
  · obtain ⟨c', hc', hentries⟩ := h name id' d v' hprimary
    refine ⟨c', hc', fun e he => hreplaces.mem_applyAll.2 (.inr ⟨hentries e he, ?_⟩)⟩
    intro m hm hsame
    have howns' := Collection.owns_of_mem_keysOf (Collection.mem_entriesOf.1 he).1
    have howns := hreplaces.owned m hm
    have hname : c'.name = c.name := KeyPart.string.inj (Option.some.inj
      (howns'.head?.symm.trans (Key.head?_of_same hsame howns.head?)))
    have hid : id' = id := (howns'.of_name_eq hname).eq_of_same howns hsame
    obtain ⟨m', hm', hprimary'⟩ := htouched
    refine huntouched m' hm' ?_
    rw [← (hr name c' hc').1, hname, hid]
    exact hprimary'

theorem Covers.insertBatch (h : r.Covers t) (hr : r.Sound) (hc : c.WellIndexed)
    (hcurrent : c.CurrentIn r) (docs : List (String × Document)) :
    r.Covers (t.applyAll v (c.insertBatch docs).mutations) := by
  rw [Collection.insertBatch_eq]
  show r.Covers (t.applyAll v (docs.flatMap fun p => c.puts p.1 p.2))
  induction docs generalizing t with
  | nil => exact h
  | cons p docs ih =>
    rw [List.flatMap_cons, Table.applyAll_append]
    refine ih (h.replace hr (Collection.replaces_puts hc p.1 p.2) ?_ fun _ _ => hcurrent)
    exact ⟨_, List.mem_map_of_mem (c.primaryKey_mem_keysOf p.2 p.1), Key.same_refl _⟩

/-- Whatever an operation commits keeps documents covered, if it writes none or has all index fields.
-/
theorem Covers.sends (h : r.Covers t) (hr : r.Sound) (hc : c.WellIndexed) {R : Pairing}
    {p : Purpose} {b b' : Batch} (hsends : c.Sends R p b b')
    (hcurrent : p.writes = true → c.CurrentIn r) : r.Covers (t.applyAll v b.mutations) := by
  cases hsends with
  | insert _ _ => exact h.insertBatch hr hc (hcurrent rfl) _
  | @change change q _ _ s _ id result _ _ _ _ _ _ _ hmade _ =>
    obtain ⟨_, _, hreplaces, _⟩ := Collection.changeBatch_spec hc hmade
    obtain ⟨m, hm, hsame⟩ := hreplaces.covers _ rfl _ (c.primaryKey_mem_keysOf s.document id)
    refine h.replace hr hreplaces ⟨m, hm, hsame⟩ fun d hd => ?_
    cases change with
    | update u => exact hcurrent rfl
    | delete => cases hd

end Writes

/-- A name is opened. -/
theorem Covers.opens {r r' : Registry} {t : Table} {name : String} {c : Collection}
    (h : r.Covers t) (hopens : r.Opens name c r') : r'.Covers t := by
  intro name' id d v he
  obtain ⟨c', hc', hentries⟩ := h name' id d v he
  refine ⟨c', ?_, hentries⟩
  rw [hopens.find?]
  split
  · rename_i hname
    rw [hname] at hc'
    rw [(hopens.keeps c' hc').1]
  · exact hc'

section Destroying

variable {db db' : MemoryDatabase} {name : String}

/-- Without conflicts no document is left, so the name need not be registered any longer. -/
theorem Covers.destroys (h : db.registry.Covers db.memory.table) (hdb : db.Sound)
    (hquiet : db.settings.store.remaining = 0) {n : Nat} (hdestroys : db.Destroys name n db') :
    db'.registry.Covers db'.memory.table := by
  have hname : (db.collectionOf name).name = name := hdb.collectionOf_name name
  have hdrops := hdestroys.drops
  rw [show db.leftBy name = 0 from Database.skipped_of_quiet hquiet _ _] at hdrops
  intro name' id d v he
  by_cases hname' : name' = name
  · subst hname'
    have hgone := hdrops.under_eq_nil hdb.housed
    rw [hname] at hgone
    refine absurd (Table.mem_under.2 ⟨he, ?_⟩) (hgone ▸ List.not_mem_nil)
    simp [Key.isUnder, Layout.primaryKey, Layout.primaryBase, Key.properlyExtends,
      KeyPart.same_refl]
  · have hother := hdrops.sameElsewhere
    rw [hname] at hother
    have hforeign : ∀ {key : Key}, key.belongsTo name' = true → key.belongsTo name = false :=
      fun hkey => Bool.eq_false_iff.2 fun hkey' => hname' (KeyPart.string.inj (Option.some.inj
        ((Key.belongsTo_iff.1 hkey).symm.trans (Key.belongsTo_iff.1 hkey'))))
    have hold := (hother ⟨Layout.primaryKey name' id, .map d, v⟩
      (hforeign (Key.belongsTo_iff.2 rfl))).1 he
    obtain ⟨c, hc, hentries⟩ := h name' id d v hold
    refine ⟨c, by rw [hdestroys.registry, if_neg hname', hc], fun e he => ?_⟩
    have howns := Collection.owns_of_mem_keysOf (Collection.mem_entriesOf.1 he).1
    refine (hother e (hforeign ?_)).2 (hentries e he)
    rw [← (hdb.registry name' c hc).1]
    exact howns.belongsTo

theorem Covers.spares (h : db.registry.Covers db.memory.table) (hspares : db.Spares name db') :
    db'.registry.Covers db'.memory.table := by
  rw [hspares.table]
  intro name' id d v he
  obtain ⟨c, hc, hentries⟩ := h name' id d v he
  exact ⟨c, hspares.keeps hc, hentries⟩

theorem Covers.destroyCollection (h : db.registry.Covers db.memory.table) (hdb : db.Sound)
    (hquiet : db.settings.store.remaining = 0) (name : String) {fuel : Nat}
    (hfuel : db.memory.table.size < fuel) :
    (db.run (Database.destroyCollection name fuel)).2.registry.Covers
      (db.run (Database.destroyCollection name fuel)).2.memory.table := by
  cases hname : checkName name with
  | error e =>
    obtain ⟨r, db', hrun, hr⟩ := Database.destroyCollection_of_invalid hname fuel
    rw [hrun]
    cases r with
    | ok n => exact hr.elim
    | error e =>
      obtain rfl : db' = db := hr
      exact h
  | ok _ =>
    obtain ⟨r, db', hrun, hr⟩ := Database.destroyCollection_settles hdb hname hfuel
    rw [hrun]
    cases r with
    | ok n => exact h.destroys hdb hquiet hr.1
    | error e => exact h.spares hr.1

end Destroying

end Registry

end DocumentStore
