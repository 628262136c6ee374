import DocumentStore.Proofs.Collection.Batches
import DocumentStore.Proofs.Store.Commits

/-!
# Documents that were read

Versions grow from commit to commit, so a document that was read at a version is either still stored
or will never be seen at that version again (`Known`).  The check of a version in the batch of a
change therefore lets the commit take effect only on the document that was read
(`changes_of_effective`).
-/

namespace DocumentStore.Collection

variable {c : Collection} {m m' m'' : Memory} {id : String} {s : Candidate}

/-! ## Memories that follow each other -/

/-- The entries are consistent, and none is newer than the last commit. -/
structure Sound (c : Collection) (m : Memory) : Prop where
  consistent : c.Consistent m.table
  dated : ∀ {id s}, c.stored? m.table id = some s → s.version ≤ m.version

/-- A sound memory some commits later: what is stored in it was stored before or is newer. -/
structure Progress (c : Collection) (m m' : Memory) : Prop where
  sound : c.Sound m'
  version_le : m.version ≤ m'.version
  kept : ∀ {id s}, c.stored? m'.table id = some s →
    c.stored? m.table id = some s ∨ m.version < s.version

theorem Sound.of_eq (h : c.Sound m) (htable : m'.table = m.table)
    (hversion : m'.version = m.version) : c.Sound m' := by
  refine ⟨htable ▸ h.consistent, fun hs => ?_⟩
  rw [htable] at hs
  rw [hversion]
  exact h.dated hs

theorem Progress.of_eq (h : c.Sound m) (htable : m'.table = m.table)
    (hversion : m'.version = m.version) : c.Progress m m' := by
  refine ⟨h.of_eq htable hversion, Nat.le_of_eq hversion.symm, fun hs => .inl ?_⟩
  rwa [htable] at hs

theorem Progress.refl (h : c.Sound m) : c.Progress m m := .of_eq h rfl rfl

theorem Progress.trans (h : c.Progress m m') (h' : c.Progress m' m'') : c.Progress m m'' := by
  refine ⟨h'.sound, Nat.le_trans h.version_le h'.version_le, fun hs => ?_⟩
  rcases h'.kept hs with hs | hlt
  · exact h.kept hs
  · exact .inr (Nat.lt_of_le_of_lt h.version_le hlt)

/-- One commit that stores nothing but what it writes itself. -/
theorem Progress.of_commit (h : c.Sound m) (hconsistent : c.Consistent m'.table)
    (hversion : m'.version = m.version + 1)
    (hstored : ∀ {id s}, c.stored? m'.table id = some s →
      c.stored? m.table id = some s ∨ s.version = m'.version) : c.Progress m m' := by
  have hlt : m.version < m'.version := hversion ▸ Nat.lt_succ_self m.version
  refine ⟨⟨hconsistent, fun hs => ?_⟩, Nat.le_of_lt hlt, fun hs => ?_⟩
  · rcases hstored hs with hs | heq
    · exact Nat.le_trans (h.dated hs) (Nat.le_of_lt hlt)
    · exact Nat.le_of_eq heq
  · rcases hstored hs with hs | heq
    · exact .inl hs
    · exact .inr (heq ▸ hlt)

/-! ## What a reader knows -/

/-- A document that was read under an identity: whatever is stored there now at the version that was
read is what was read. -/
structure Known (c : Collection) (m : Memory) (id : String) (s : Candidate) : Prop where
  identity : s.document.identity? = some (.string id)
  checked : c.checkDocument s.document = .ok ()
  dated : s.version ≤ m.version
  unique : ∀ {s'}, c.stored? m.table id = some s' → s'.version = s.version → s' = s

/-- What is stored is known. -/
theorem Sound.known (h : c.Sound m) (hs : c.stored? m.table id = some s) : c.Known m id s where
  identity := h.consistent.identity hs
  checked := h.consistent.checked hs
  dated := h.dated hs
  unique hs' _ := by
    rw [hs] at hs'
    exact (Option.some.inj hs').symm

theorem Known.progress (h : c.Known m id s) (hp : c.Progress m m') : c.Known m' id s := by
  refine ⟨h.identity, h.checked, Nat.le_trans h.dated hp.version_le, fun hs' heq => ?_⟩
  rcases hp.kept hs' with hs' | hlt
  · exact h.unique hs' heq
  · rw [heq] at hlt
    exact absurd h.dated (Nat.not_le_of_lt hlt)

theorem requireId_of_identity {d : Document} (h : d.identity? = some (.string id)) :
    d.requireId = .ok id := by
  simp [Document.requireId, Document.id?, h, Value.asString?]

theorem identity_of_requireId {d : Document} (h : d.requireId = .ok id) :
    d.identity? = some (.string id) := by
  unfold Document.requireId Document.id? at h
  split at h
  · rename_i id' hid
    cases h
    obtain ⟨v, hv, hs⟩ := Option.bind_eq_some_iff.1 hid
    rw [hv]
    cases v <;> simp [Value.asString?] at hs
    rw [hs]
  · cases h

/-- Every entry under the name of the collection holds a document that is stored. -/
theorem Sound.stored_of_mem (h : c.Sound m) {e : Entry} (he : e ∈ m.table.entries)
    (hhead : e.key.parts.head? = some (.string c.name)) :
    ∃ id s, c.stored? m.table id = some s ∧ e ∈ c.entriesOf id s :=
  (h.consistent.mem_iff e).1 ⟨he, hhead⟩

theorem Sound.stored_of_find? (h : c.Sound m) {e : Entry}
    (he : m.table.find? (c.primaryKey id) = some e) :
    ∃ s, c.stored? m.table id = some s ∧ Candidate.ofEntry e = .ok s := by
  obtain ⟨hmem, hkey⟩ := Table.find?_eq_some_iff.1 he
  have hkey := same_primaryKey_iff.1 hkey
  have hhead : e.key.parts.head? = some (.string c.name) := by
    rw [hkey]
    rfl
  obtain ⟨id', s, hs, hes⟩ := h.stored_of_mem hmem hhead
  obtain ⟨hkeys, hvalue, hversion⟩ := mem_entriesOf.1 hes
  have hid : id = id' := by
    refine Owns.eq_of_same (.inl rfl) (owns_of_mem_keysOf hkeys) ?_
    rw [hkey]
    exact Key.same_refl _
  subst hid
  exact ⟨s, hs, ofEntry_eq_ok_iff.2 ⟨hvalue, hversion⟩⟩

/-- The check of a version at a primary key. -/
theorem Sound.holds_iff (h : c.Sound m) {version : Option Version} :
    m.holds ⟨c.primaryKey id, version⟩ = true ↔
      (c.stored? m.table id).map (·.version) = version := by
  unfold Memory.holds Table.version?
  rw [beq_iff_eq]
  cases he : m.table.find? (c.primaryKey id) with
  | none =>
    have hs : c.stored? m.table id = none := by
      unfold stored?
      rw [he]
      rfl
    rw [hs]
    rfl
  | some e =>
    obtain ⟨s, hs, hes⟩ := h.stored_of_find? he
    rw [hs, Option.map_some, Option.map_some, (ofEntry_eq_ok_iff.1 hes).2]

/-! ## Commits of a collection -/

/-- A commit that changes one document.  The change starts from the document that is stored under the
identity just before the commit, and that document matches the query. -/
structure Changes (c : Collection) (change : Change) (q : CompiledQuery) (id : String)
    (old : Candidate) (result : Document) (w : Commit) : Prop where
  stored : c.stored? w.before.table id = some old
  accepted : q.accepts old.document = true
  applied : change.apply old.document = .ok result
  made : c.changeBatch change old id = .ok (result, w.batch)
  after : c.stored? w.after.table = Function.update (c.stored? w.before.table) id
    ((change.outcome result).map fun d => ⟨d, w.version⟩)

/-- A commit that stores new documents, each under an identity that nothing is stored under just
before the commit. -/
structure Inserts (c : Collection) (docs : List (String × Document)) (w : Commit) : Prop where
  free : ∀ p ∈ docs, c.stored? w.before.table p.1 = none
  identity : ∀ p ∈ docs, p.2.identity? = some (.string p.1)
  checked : ∀ p ∈ docs, c.checkDocument p.2 = .ok ()
  nodup : (docs.map Prod.fst).Nodup
  made : w.batch = c.insertBatch docs
  after : c.stored? w.after.table = withNew (c.stored? w.before.table) docs w.version

variable {w : Commit} {change : Change} {q : CompiledQuery} {result : Document}
  {docs : List (String × Document)}

/-- The commit of a change takes effect only on the document that was read. -/
theorem changes_of_effective (hc : c.WellIndexed) (h : c.Sound w.before) (hw : w.Effective)
    (hknown : c.Known w.before id s) (haccepts : q.accepts s.document = true)
    (hmade : c.changeBatch change s id = .ok (result, w.batch)) :
    c.Changes change q id s result w := by
  obtain ⟨happlied, hchecks, _, _⟩ := changeBatch_spec hc hmade
  -- the check finds the version that was read, and with it the document that was read
  have hholds := hw.holds ⟨c.primaryKey id, some s.version⟩ (by rw [hchecks]; simp)
  obtain ⟨s', hs', hversion⟩ := Option.map_eq_some_iff.1 (h.holds_iff.1 hholds)
  have hstored : c.stored? w.before.table id = some s := by
    rw [hs', hknown.unique hs' hversion]
  refine ⟨hstored, haccepts, happlied, hmade, ?_⟩
  rw [hw.table]
  exact (h.consistent.change hc hstored hmade w.version).2

theorem Changes.progress (hc : c.WellIndexed) (h : c.Sound w.before) (hw : w.Effective)
    (hchanges : c.Changes change q id s result w) : c.Progress w.before w.after := by
  refine .of_commit h ?_ hw.version_eq fun {id'} s' hs' => ?_
  · rw [hw.table]
    exact (h.consistent.change hc hchanges.stored hchanges.made w.version).1
  · rw [hchanges.after] at hs'
    by_cases hid : id' = id
    -- what the commit writes has the version of the commit
    · subst hid
      rw [Function.update_self] at hs'
      obtain ⟨d, _, rfl⟩ := Option.map_eq_some_iff.1 hs'
      exact .inr rfl
    · rw [Function.update_of_ne hid] at hs'
      exact .inl hs'

/-- The commit of an insert takes effect only if none of its identities is stored. -/
theorem inserts_of_effective (hc : c.WellIndexed) (h : c.Sound w.before) (hw : w.Effective)
    (hnodup : (docs.map Prod.fst).Nodup)
    (hdocs : ∀ p ∈ docs, p.2.identity? = some (.string p.1) ∧ c.checkDocument p.2 = .ok ())
    (hmade : w.batch = c.insertBatch docs) : c.Inserts docs w := by
  have hfree : ∀ p ∈ docs, c.stored? w.before.table p.1 = none := by
    intro p hp
    -- the batch checks that the primary key is free
    have hmem : (⟨c.primaryKey p.1, none⟩ : Check) ∈ w.batch.checks := by
      rw [hmade, insertBatch_eq]
      exact List.mem_flatMap.2 ⟨p, hp, List.mem_map.2 ⟨_, c.primaryKey_mem_keysOf _ _, rfl⟩⟩
    exact Option.map_eq_none_iff.1 (h.holds_iff.1 (hw.holds _ hmem))
  refine ⟨hfree, fun p hp => (hdocs p hp).1, fun p hp => (hdocs p hp).2, hnodup, hmade, ?_⟩
  rw [hw.table, hmade]
  exact (h.consistent.insert hc hnodup hdocs hfree w.version).2

theorem Inserts.progress (hc : c.WellIndexed) (h : c.Sound w.before) (hw : w.Effective)
    (hinserts : c.Inserts docs w) : c.Progress w.before w.after := by
  refine .of_commit h ?_ hw.version_eq fun {id'} s' hs' => ?_
  · rw [hw.table, hinserts.made]
    exact (h.consistent.insert hc hinserts.nodup
      (fun p hp => ⟨hinserts.identity p hp, hinserts.checked p hp⟩) hinserts.free w.version).1
  · rw [hinserts.after] at hs'
    unfold withNew at hs'
    split at hs'
    · cases hs'
      exact .inr rfl
    · exact .inl hs'

end DocumentStore.Collection
