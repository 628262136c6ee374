import DocumentStore.Proofs.Collection.Dropping
import DocumentStore.Proofs.Database.Registry

/-!
# Opening and destroying collections

What opening and destroying a collection do to a database that is used by nobody else at the time.
A collection is destroyed as the database knows it: with the indexes it was opened with here, or with
none if it was not opened (`Database.collectionOf`).
-/

namespace DocumentStore

namespace Database

variable {db : MemoryDatabase} {name : String}

/-! ## Databases in order -/

/-- A database in order: documents under their identities, settings that were checked, and collections
that were opened with such settings. -/
structure Sound (db : MemoryDatabase) : Prop where
  housed : db.memory.table.Housed
  defaults : db.settings.collectionDefaults.Valid
  registry : db.registry.Sound

/-- No program changes the settings that collections use. -/
theorem run_collectionDefaults {α : Type} (p : Program α) (db : MemoryDatabase) :
    (db.run p).2.settings.collectionDefaults = db.settings.collectionDefaults :=
  p.run_invariant
    (fun d : MemoryDatabase => d.settings.collectionDefaults = db.settings.collectionDefaults)
    (fun r d hd => (answer_settings r d).2.trans hd) rfl

theorem answer_closed (r : Request) (db : MemoryDatabase) :
    (answer r db).2.memory.closed = db.memory.closed := by
  cases r with
  | commit b =>
    show (KeyValueStore.commit db.settings.store b).2.store.closed = db.settings.store.store.closed
    by_cases hcontended : (!b.checks.isEmpty && db.settings.store.remaining != 0) = true
    · rw [commit_of_contended hcontended]
      dsimp only
      split <;> rfl
    · rw [commit_of_quiet hcontended]
      show (db.settings.store.store.commit b).2.closed = _
      unfold Memory.commit
      split
      · rfl
      · split <;> rfl
  | _ => exact (answer_spends rfl db).alike.closed

/-- No program opens or closes the store. -/
theorem run_closed {α : Type} (p : Program α) (db : MemoryDatabase) :
    (db.run p).2.memory.closed = db.memory.closed :=
  p.run_invariant (fun d : MemoryDatabase => d.memory.closed = db.memory.closed)
    (fun r d hd => (answer_closed r d).trans hd) rfl

theorem quiet_answer (h : db.settings.store.remaining = 0) (r : Request) :
    (answer r db).2.settings.store.remaining = 0 := by
  cases r with
  | commit b =>
    show (KeyValueStore.commit db.settings.store b).2.remaining = 0
    rw [commit_of_quiet (by simp [h])]
    exact h
  | register name options =>
    unfold answer
    dsimp only
    split <;> exact h
  | _ => exact h

/-- No operation makes commits conflict. -/
theorem quiet_run {α : Type} (h : db.settings.store.remaining = 0) (p : Program α) :
    (db.run p).2.settings.store.remaining = 0 :=
  p.run_invariant (fun d : MemoryDatabase => d.settings.store.remaining = 0)
    (fun r _ hd => quiet_answer hd r) h

/-- The collection that a name stands for: the one that is registered, or else one without options. -/
def collectionOf (db : MemoryDatabase) (name : String) : Collection :=
  (db.registry.find? name).getD ⟨name, .empty, {}, db.settings.collectionDefaults⟩

theorem find?_collectionOf (h : (db.registry.find? name).isSome = true) :
    db.registry.find? name = some (db.collectionOf name) := by
  obtain ⟨c, hc⟩ := Option.isSome_iff_exists.1 h
  unfold collectionOf
  rw [hc, Option.getD_some]

theorem Sound.collectionOf_name (h : db.Sound) (name : String) :
    (db.collectionOf name).name = name := by
  unfold collectionOf
  cases hfind : db.registry.find? name with
  | none => rfl
  | some c => exact (h.registry name c hfind).1

/-- A valid name can be opened without options. -/
theorem register_none (db : MemoryDatabase) (hname : Registry.checkName name = .ok ()) :
    ∃ r', db.registry.register name none db.settings.collectionDefaults =
      .ok (db.collectionOf name, r') := by
  unfold Registry.register collectionOf Registry.find?
  rw [hname]
  cases hfind : db.registry.collections.get? name with
  | some c => exact ⟨db.registry, rfl⟩
  | none => exact ⟨_, rfl⟩

/-! ## Opening -/

theorem requireOpen_ends :
    requireOpen.Ends (fun _ db' => db' = db ∧ db.memory.closed = false)
      (fun e db' => e = .closedDatabase ∧ db' = db ∧ db.memory.closed = true) db := by
  refine .bind (.lift (Program.Finishes.isClosed.imp ?_))
  rintro closed db' ⟨rfl, rfl⟩
  cases hclosed : db'.memory.closed with
  | true => exact .throw ⟨rfl, rfl, rfl⟩
  | false => exact .pure ⟨rfl, rfl⟩

theorem register_ends (options : Option CollectionOptions) :
    (Action.register name options).Ends
      (fun c db' => ∃ r', db.registry.register name options db.settings.collectionDefaults =
        .ok (c, r') ∧ db' = { db with registry := r' })
      (fun e db' => db.registry.register name options db.settings.collectionDefaults = .error e ∧
        db' = db) db := by
  have hrun : db.run (Action.register name options) =
      (some (answer (.register name options) db).1, (answer (.register name options) db).2) := rfl
  unfold answer at hrun
  dsimp only at hrun
  split at hrun
  · rename_i c r' hregister
    exact ⟨_, _, hrun, r', hregister, rfl⟩
  · rename_i e hregister
    exact ⟨_, _, hrun, hregister, rfl⟩

section Runs

variable {options : Option CollectionOptions} {c : Collection} {r : Registry} {e : Error}

theorem run_requireOpen_of_open (hopen : db.memory.closed = false) :
    db.run requireOpen = (some (.ok ()), db) := by
  obtain ⟨result, db', hrun, hresult⟩ : requireOpen.Ends _ _ db := requireOpen_ends
  cases result with
  | ok _ =>
    obtain ⟨rfl, _⟩ := hresult
    exact hrun
  | error e =>
    rw [hopen] at hresult
    cases hresult.2.2

theorem run_register_of_ok
    (h : db.registry.register name options db.settings.collectionDefaults = .ok (c, r)) :
    db.run (Action.register name options) = (some (.ok c), { db with registry := r }) := by
  obtain ⟨result, db', hrun, hresult⟩ : (Action.register name options).Ends _ _ db :=
    register_ends options
  cases result with
  | ok c' =>
    obtain ⟨r', hr', rfl⟩ := hresult
    cases h.symm.trans hr'
    exact hrun
  | error e' => cases h.symm.trans hresult.1

theorem run_register_of_error
    (h : db.registry.register name options db.settings.collectionDefaults = .error e) :
    db.run (Action.register name options) = (some (.error e), db) := by
  obtain ⟨result, db', hrun, hresult⟩ : (Action.register name options).Ends _ _ db :=
    register_ends options
  cases result with
  | ok c' =>
    obtain ⟨r', hr', _⟩ := hresult
    cases h.symm.trans hr'
  | error e' =>
    obtain ⟨he', rfl⟩ := hresult
    cases h.symm.trans he'
    exact hrun

theorem run_openCollection_of_ok (hopen : db.memory.closed = false)
    (h : db.registry.register name options db.settings.collectionDefaults = .ok (c, r)) :
    db.run (openCollection name options) = (some (.ok c), { db with registry := r }) := by
  rw [openCollection, Action.run_bind_of_ok (run_requireOpen_of_open hopen), run_register_of_ok h]

theorem run_openCollection_of_error (hopen : db.memory.closed = false)
    (h : db.registry.register name options db.settings.collectionDefaults = .error e) :
    db.run (openCollection name options) = (some (.error e), db) := by
  rw [openCollection, Action.run_bind_of_ok (run_requireOpen_of_open hopen),
    run_register_of_error h]

end Runs

/-- Opening a collection registers it and changes nothing else. -/
theorem openCollection_settles (h : db.Sound) (name : String)
    (options : Option CollectionOptions) :
    (openCollection name options).Ends
      (fun c db' => ∃ r', db.registry.Opens name c r' ∧ db' = { db with registry := r' })
      (fun _ db' => db' = db) db := by
  refine .bind (requireOpen_ends.imp ?_ fun _ _ hdb' => hdb'.2.1)
  rintro _ db' ⟨rfl, _⟩
  refine (register_ends options).imp ?_ fun _ _ hdb' => hdb'.2
  rintro c db'' ⟨r', hregister, rfl⟩
  exact ⟨r', h.registry.register h.defaults hregister, rfl⟩

/-! ## Destroying -/

def primaries (db : MemoryDatabase) (name : String) : List Entry :=
  db.memory.table.under (Layout.primaryBase name)

/-- How many documents are left in place when the collection of a name is destroyed: one for each
conflict to come, if the policy for deletes is a single attempt. -/
def leftBy (db : MemoryDatabase) (name : String) : Nat :=
  db.skipped ((db.collectionOf name).retryPolicy .delete {}) (db.primaries name).length

/-- The database after its collection of a name was destroyed, with `n` documents. -/
structure Destroys (db : MemoryDatabase) (name : String) (n : Nat) (db' : MemoryDatabase) : Prop where
  count : n + db.leftBy name = (db.primaries name).length
  drops : (db.collectionOf name).Drops (db.leftBy name) db.memory.table db'.memory.table
  registry : ∀ name', db'.registry.find? name' =
    if name' = name then none else db.registry.find? name'

/-- The database after an attempt to destroy its collection of a name that failed. -/
structure Spares (db : MemoryDatabase) (name : String) (db' : MemoryDatabase) : Prop where
  reason : db.memory.closed = true ∨
    Collection.Exhausted ((db.collectionOf name).retryPolicy .delete {}) db
  table : db'.memory.table = db.memory.table
  registered : ∀ c, db.registry.find? name = some c → db'.registry = db.registry
  others : ∀ name', name' ≠ name → db'.registry.find? name' = db.registry.find? name'

/-- No definition is lost. -/
theorem Spares.keeps {db' : MemoryDatabase} (h : db.Spares name db') {name' : String}
    {c : Collection} (hc : db.registry.find? name' = some c) :
    db'.registry.find? name' = some c := by
  by_cases hname' : name' = name
  · subst hname'
    rw [h.registered c hc]
    exact hc
  · rw [h.others name' hname']
    exact hc

theorem unregister_finishes :
    (Action.unregister name).Finishes
      (fun _ db' => db' = { db with registry := db.registry.unregister name }) db :=
  ⟨_, _, rfl, rfl⟩

/-- Deleting all documents leaves registry and settings as they are. -/
theorem dropAll_keeps (c : Collection) (fuel : Nat) (db : MemoryDatabase) :
    (db.run (c.dropAll fuel)).2.registry = db.registry ∧
      (db.run (c.dropAll fuel)).2.settings.collectionDefaults = db.settings.collectionDefaults := by
  have hmirrors : Action.Mirrors (.own c.name fun _ _ => True)
      (c.Sends (.own c.name fun _ _ => True) (.change .delete Query.all.compile)) Eq (c.dropAll fuel)
      (c.dropAll fuel) :=
    .bind (Collection.change_mirrors rfl .all {} fuel) fun ds ds' hds => .pure (by rw [hds])
  exact ⟨hmirrors.registry_eq (fun _ _ hb => hb.fits rfl fun _ _ _ => trivial)
    (Pairing.mirrored_self db fun _ _ => trivial), run_collectionDefaults _ db⟩

/-- Destroying a collection deletes its documents and forgets it, or it fails and leaves the documents
as they are. -/
theorem destroyCollection_settles (h : db.Sound) (hname : Registry.checkName name = .ok ())
    {fuel : Nat} (hfuel : db.memory.table.size < fuel) :
    (destroyCollection name fuel).Ends (fun n db' => db.Destroys name n db' ∧ db'.Sound)
      (fun _ db' => db.Spares name db' ∧ db'.Sound) db := by
  refine .bind (requireOpen_ends.imp ?_ ?_)
  rotate_left
  -- the database is closed
  · rintro _ db' ⟨_, rfl, hclosed⟩
    exact ⟨⟨.inl hclosed, rfl, fun _ _ => rfl, fun _ _ => rfl⟩, h⟩
  rintro _ db' ⟨rfl, hopen⟩
  -- the collection is opened as it is known, and this succeeds
  obtain ⟨r', hregister⟩ := db'.register_none hname
  have hopens := h.registry.register h.defaults hregister
  have hwell := hopens.opened.wellIndexed
  refine .bind ((register_ends none).imp ?_ ?_)
  rotate_left
  · rintro e db'' ⟨herror, _⟩
    cases hregister.symm.trans herror
  rintro c db₁ ⟨r₁, hr₁, rfl⟩
  cases hregister.symm.trans hr₁
  -- its documents are deleted, which changes nothing but the store
  have hhoused : (memory { db' with registry := r' }).table.Housed := h.housed
  have hdrop := Collection.dropAll_settles hwell hopens.opened.defaults.scanBatch_pos
    hopens.opened.check_deletePolicy hhoused hopen hfuel
  have hname_eq : (db'.collectionOf name).name = name := hopens.name_eq
  have hkeeps := hdrop.also (Q := fun d => d.registry = r' ∧
    d.settings.collectionDefaults = db'.settings.collectionDefaults)
    (dropAll_keeps _ fuel _)
  refine .bind (hkeeps.imp ?_ ?_)
  · rintro n db₂ ⟨⟨hcount, hdrops⟩, hregistry, hdefaults⟩
    refine .bind (.lift (unregister_finishes.imp ?_))
    rintro _ db₃ rfl
    simp only [hname_eq] at hcount hdrops
    refine .pure ⟨⟨hcount, hdrops, fun name' => ?_⟩, hdrops.housed h.housed, ?_, ?_⟩
    · show (db₂.registry.unregister name).find? name' = _
      rw [hregistry, Registry.find?_unregister]
      by_cases hname' : name' = name
      · rw [if_pos hname', if_pos hname']
      · rw [if_neg hname', if_neg hname']
        exact (hopens.find? name').trans (if_neg hname')
    · exact hdefaults ▸ h.defaults
    · show (db₂.registry.unregister name).Sound
      rw [hregistry]
      exact hopens.sound.unregister name
  · rintro e db₂ ⟨⟨hexhausted, htable⟩, hregistry, hdefaults⟩
    have htable : db₂.memory.table = db'.memory.table := htable
    refine ⟨⟨.inr hexhausted, htable, fun c hc => ?_, fun name' hname' => ?_⟩, ?_, ?_, ?_⟩
    · exact hregistry.trans (hopens.keeps c hc).2
    · rw [hregistry]
      exact (hopens.find? name').trans (if_neg hname')
    · rw [htable]
      exact h.housed
    · exact hdefaults ▸ h.defaults
    · rw [hregistry]
      exact hopens.sound

theorem destroyCollection_of_invalid {e : Error} (hname : Registry.checkName name = .error e)
    (fuel : Nat) :
    (destroyCollection name fuel).Ends (fun _ _ => False) (fun _ db' => db' = db) db := by
  refine .bind (requireOpen_ends.imp ?_ fun _ _ hdb' => hdb'.2.1)
  rintro _ db' ⟨rfl, _⟩
  refine .bind ((register_ends none).imp ?_ fun _ _ hdb' => hdb'.2)
  rintro c db'' ⟨r', hregister, _⟩
  cases hname.symm.trans (Registry.register_cases hregister).1

/-- Destroying a collection keeps a database in order, and adds no entries to it. -/
theorem destroyCollection_shrinks (h : db.Sound) (name : String) {fuel : Nat}
    (hfuel : db.memory.table.size < fuel) :
    (db.run (destroyCollection name fuel)).2.Sound ∧
      (db.run (destroyCollection name fuel)).2.memory.table.entries ⊆ db.memory.table.entries := by
  cases hname : Registry.checkName name with
  | error e =>
    obtain ⟨r, db', hrun, hr⟩ := destroyCollection_of_invalid hname fuel
    rw [hrun]
    cases r with
    | ok n => exact hr.elim
    | error e =>
      obtain rfl : db' = db := hr
      exact ⟨h, List.Subset.refl _⟩
  | ok _ =>
    obtain ⟨r, db', hrun, hr⟩ := destroyCollection_settles h hname hfuel
    rw [hrun]
    cases r with
    | ok n => exact ⟨hr.2, fun e he => ((hr.1.drops e).1 he).1⟩
    | error e => exact ⟨hr.2, hr.1.table ▸ List.Subset.refl _⟩

end Database

end DocumentStore
