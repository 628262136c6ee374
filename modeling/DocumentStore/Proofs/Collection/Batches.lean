import DocumentStore.Collection.Change
import DocumentStore.Collection.Insert
import DocumentStore.Proofs.Collection.Entries
import DocumentStore.Proofs.Document.Updates

/-!
# The batches of writes

Each batch of a collection replaces the entries of documents as a whole: an insert puts documents in
the place of none, an update puts one in the place of another, and a delete puts none in the place of
one.  A batch whose checks hold therefore keeps a table consistent.
-/

namespace DocumentStore

/-! ## Identities under updates -/

theorem Value.same_string_iff {v : Value} {s : String} :
    v.same (.string s) = true ↔ v = .string s := by
  cases v <;> simp [Value.same]

/-- An update leaves a string identity as it is. -/
theorem Update.identity?_of_apply {u : Update} {d d' : Document} {id : String}
    (h : u.apply d = .ok d') (hid : d.identity? = some (.string id)) :
    d'.identity? = some (.string id) := by
  have hsame := (Update.apply_eq_ok_iff.1 h).2
  rw [hid] at hsame
  -- an identity that is a string is the same only as itself
  cases hd : d'.identity? with
  | none => simp [hd, sameOptional] at hsame
  | some v =>
    rw [hd] at hsame
    rw [Value.same_string_iff.1 hsame]

def Change.apply (change : Change) (d : Document) : Except Error Document :=
  match change with
  | .update u => u.apply d
  | .delete => .ok d

/-- What a change leaves in the place of a document, given its result. -/
def Change.outcome (change : Change) (result : Document) : Option Document :=
  match change with
  | .update _ => some result
  | .delete => none

namespace Collection

/-! ## Inserts -/

def puts (c : Collection) (id : String) (d : Document) : List Mutation :=
  (c.keysOf d id).map fun key => .set key (.map d)

theorem foldl_guarded (value : Value) (keys : List Key) (b : Batch) :
    keys.foldl (fun b key => (b.check key none).set key value) b =
      b.append ⟨keys.map fun key => ⟨key, none⟩, keys.map fun key => .set key value⟩ := by
  induction keys generalizing b with
  | nil => simp [Batch.append]
  | cons key keys ih => rw [List.foldl_cons, ih]; simp [Batch.append, Batch.check, Batch.set]

theorem insertBatch_eq (c : Collection) (docs : List (String × Document)) :
    c.insertBatch docs =
      ⟨docs.flatMap fun p => (c.keysOf p.2 p.1).map fun key => ⟨key, none⟩,
        docs.flatMap fun p => c.puts p.1 p.2⟩ := by
  -- for every batch to start from, as the fold goes on with what it has built
  have hall : ∀ b : Batch, docs.foldl (fun b p => (c.keysOf p.2 p.1).foldl
      (fun b key => (b.check key none).set key (.map p.2)) b) b =
      b.append ⟨docs.flatMap fun p => (c.keysOf p.2 p.1).map fun key => ⟨key, none⟩,
        docs.flatMap fun p => c.puts p.1 p.2⟩ := by
    induction docs with
    | nil => simp [Batch.append]
    | cons p docs ih =>
      intro b
      rw [List.foldl_cons, ih, foldl_guarded]
      simp [Batch.append, puts]
  refine (hall .empty).trans ?_
  simp [Batch.append, Batch.empty]

theorem replaces_puts {c : Collection} (hc : c.WellIndexed) (id : String) (d : Document) :
    c.Replaces id none (some d) (c.puts id d) where
  distinct := List.pairwise_map.2 (keysOf_distinct hc d id)
  owned m hm := by
    obtain ⟨key, hkey, rfl⟩ := List.mem_map.1 hm
    exact owns_of_mem_keysOf hkey
  covers d' hd' := by cases hd'
  sets key value := by
    simp only [puts, List.mem_map, Mutation.set.injEq, Option.mem_def, Option.some.injEq]
    constructor
    · rintro ⟨k, hk, rfl, rfl⟩
      exact ⟨d, rfl, rfl, hk⟩
    · rintro ⟨_, rfl, rfl, hk⟩
      exact ⟨key, hk, rfl, rfl⟩

/-- The entries after an insert: those of the new documents, and the old ones at other keys. -/
theorem mem_applyAll_insertBatch {c : Collection} (hc : c.WellIndexed) {t : Table} {v : Version}
    {docs : List (String × Document)} (hnodup : (docs.map Prod.fst).Nodup) {e : Entry} :
    e ∈ (t.applyAll v (c.insertBatch docs).mutations).entries ↔
      (∃ p ∈ docs, e ∈ c.entriesOf p.1 ⟨p.2, v⟩) ∨
        e ∈ t.entries ∧ ∀ p ∈ docs, ∀ key ∈ c.keysOf p.2 p.1, ¬ e.key.same key = true := by
  -- the keys of one document are all different, and different identities share none
  have hdistinct : (docs.flatMap fun p => c.puts p.1 p.2).Pairwise
      fun m n => ¬ m.key.same n.key = true := by
    refine List.pairwise_flatMap.2 ⟨fun p _ => (replaces_puts hc p.1 p.2).distinct, ?_⟩
    refine (List.pairwise_map.1 hnodup).imp fun hne m hm n hn hsame => hne ?_
    exact ((replaces_puts hc _ _).owned m hm).eq_of_same ((replaces_puts hc _ _).owned n hn) hsame
  rw [insertBatch_eq, Table.mem_applyAll hdistinct]
  refine or_congr ⟨?_, ?_⟩ (and_congr_right fun _ => ⟨?_, ?_⟩)
  · rintro ⟨key, value, hset, rfl⟩
    obtain ⟨p, hp, hset⟩ := List.mem_flatMap.1 hset
    obtain ⟨k, hk, heq⟩ := List.mem_map.1 hset
    cases heq
    exact ⟨p, hp, mem_entriesOf.2 ⟨hk, rfl, rfl⟩⟩
  · rintro ⟨p, hp, he⟩
    obtain ⟨key, value, version⟩ := e
    obtain ⟨hkey, hvalue, hversion⟩ := mem_entriesOf.1 he
    cases hvalue
    cases hversion
    exact ⟨key, _, List.mem_flatMap.2 ⟨p, hp, List.mem_map.2 ⟨key, hkey, rfl⟩⟩, rfl⟩
  · intro h p hp key hkey
    exact h (.set key (.map p.2)) (List.mem_flatMap.2 ⟨p, hp, List.mem_map.2 ⟨key, hkey, rfl⟩⟩)
  · intro h m hm
    obtain ⟨p, hp, hm⟩ := List.mem_flatMap.1 hm
    obtain ⟨key, hkey, rfl⟩ := List.mem_map.1 hm
    exact h p hp key hkey

/-! ## Updates and deletes -/

/-- The mutations for one index field: the entry at the old value goes if the value changes, and the
entry at the new value is written. -/
def indexMoves (c : Collection) (old new : Document) (id field : String) : List Mutation :=
  (match indexPart? old field with
    | some part =>
      if (indexPart? new field).any (·.same part) then []
      else [.delete (Layout.indexKey c.name field part id)]
    | none => []) ++
  (match indexPart? new field with
    | some part => [.set (Layout.indexKey c.name field part id) (.map new)]
    | none => [])

theorem moveIndexEntry_eq (c : Collection) (old new : Document) (id field : String) (b : Batch) :
    c.moveIndexEntry old new id field b = b.append ⟨[], c.indexMoves old new id field⟩ := by
  unfold moveIndexEntry indexMoves
  cases indexPart? old field with
  | none => cases indexPart? new field <;> simp [Batch.append, Batch.set]
  | some p =>
    cases indexPart? new field with
    | none => simp [Batch.append, Batch.delete]
    | some q => by_cases h : q.same p = true <;> simp [Batch.append, Batch.delete, Batch.set, h]

theorem updateBatch_eq (c : Collection) (old new : Document) (id : String) (version : Version) :
    c.updateBatch old new id version =
      ⟨[⟨c.primaryKey id, some version⟩],
        .set (c.primaryKey id) (.map new) ::
          c.indexes.fields.flatMap (c.indexMoves old new id)⟩ := by
  -- the same for index fields, whose moves need no checks
  have hall : ∀ (fields : List String) (b : Batch),
      fields.foldl (fun b field => c.moveIndexEntry old new id field b) b =
        b.append ⟨[], fields.flatMap (c.indexMoves old new id)⟩ := by
    intro fields
    induction fields with
    | nil => simp [Batch.append]
    | cons field fields ih =>
      intro b
      rw [List.foldl_cons, ih, moveIndexEntry_eq]
      simp [Batch.append]
  unfold updateBatch
  rw [hall]
  simp [Batch.append, Batch.check, Batch.set, Batch.empty]

theorem mem_indexMoves {c : Collection} {old new : Document} {id field : String} {m : Mutation} :
    m ∈ c.indexMoves old new id field ↔
      (∃ part, indexPart? old field = some part ∧ ¬ (indexPart? new field).any (·.same part) = true ∧
        m = .delete (Layout.indexKey c.name field part id)) ∨
      ∃ part, indexPart? new field = some part ∧
        m = .set (Layout.indexKey c.name field part id) (.map new) := by
  unfold indexMoves
  rw [List.mem_append]
  refine or_congr ?_ ?_
  · cases indexPart? old field with
    | none => simp
    | some p =>
      by_cases h : (indexPart? new field).any (·.same p) = true
      · simp [h]
      · simp [h]
  · cases indexPart? new field <;> simp

theorem key_of_mem_indexMoves {c : Collection} {old new : Document} {id field : String}
    {m : Mutation} (h : m ∈ c.indexMoves old new id field) :
    ∃ part, m.key = Layout.indexKey c.name field part id := by
  rcases mem_indexMoves.1 h with ⟨part, _, _, rfl⟩ | ⟨part, _, rfl⟩ <;> exact ⟨part, rfl⟩

theorem indexMoves_distinct (c : Collection) (old new : Document) (id field : String) :
    (c.indexMoves old new id field).Pairwise fun m n => ¬ m.key.same n.key = true := by
  unfold indexMoves
  cases indexPart? old field with
  | none => cases indexPart? new field <;> simp
  | some p =>
    cases indexPart? new field with
    | none => simp
    | some q =>
      by_cases h : q.same p = true
      · simp [h]
      · have hpq : ¬ (Layout.indexKey c.name field p id).same
            (Layout.indexKey c.name field q id) = true := fun hsame =>
          h (KeyPart.same_comm p q ▸ (same_indexKey_iff.1 hsame).2)
        simpa [h, Mutation.key] using hpq

theorem replaces_updateBatch {c : Collection} (hc : c.WellIndexed) (old new : Document)
    (id : String) (version : Version) :
    c.Replaces id (some old) (some new) (c.updateBatch old new id version).mutations := by
  rw [updateBatch_eq]
  refine ⟨?_, ?_, ?_, ?_⟩
  -- no key is touched twice: the primary key is not one of an index, and fields have their own keys
  · refine List.pairwise_cons.2 ⟨fun m hm => ?_, ?_⟩
    · obtain ⟨field, _, hm⟩ := List.mem_flatMap.1 hm
      obtain ⟨part, hkey⟩ := key_of_mem_indexMoves hm
      rw [hkey]
      exact not_same_primaryKey_indexKey _ _ _ _ _
    · refine List.pairwise_flatMap.2 ⟨fun field _ => c.indexMoves_distinct old new id field, ?_⟩
      refine hc.nodup.imp fun hne m hm n hn hsame => ?_
      obtain ⟨part, hkey⟩ := key_of_mem_indexMoves hm
      obtain ⟨part', hkey'⟩ := key_of_mem_indexMoves hn
      rw [hkey, hkey'] at hsame
      exact hne (same_indexKey_iff.1 hsame).1.symm
  -- all keys are of this identity
  · intro m hm
    rcases List.mem_cons.1 hm with rfl | hm
    · exact .inl rfl
    · obtain ⟨field, _, hm⟩ := List.mem_flatMap.1 hm
      obtain ⟨part, hkey⟩ := key_of_mem_indexMoves hm
      exact .inr ⟨field, part, hkey⟩
  · intro d hd key hkey
    cases hd
    rcases List.mem_cons.1 hkey with rfl | hkey
    · exact ⟨_, List.mem_cons_self, Key.same_refl _⟩
    · obtain ⟨field, hfield, part, hpart, rfl⟩ := mem_indexKeys.1 hkey
      -- the old entry is overwritten if the value stays, and deleted if it does not
      by_cases hstays : (indexPart? new field).any (·.same part) = true
      · obtain ⟨part', hpart', hsame⟩ := (Option.any_eq_true _ _).1 hstays
        refine ⟨.set (Layout.indexKey c.name field part' id) (.map new), ?_, ?_⟩
        · exact List.mem_cons_of_mem _ (List.mem_flatMap.2
            ⟨field, hfield, mem_indexMoves.2 (.inr ⟨part', hpart', rfl⟩)⟩)
        · rw [KeyPart.same_comm] at hsame
          exact same_indexKey_iff.2 ⟨rfl, hsame⟩
      · refine ⟨.delete (Layout.indexKey c.name field part id), ?_, Key.same_refl _⟩
        exact List.mem_cons_of_mem _ (List.mem_flatMap.2
          ⟨field, hfield, mem_indexMoves.2 (.inl ⟨part, hpart, hstays, rfl⟩)⟩)
  · intro key value
    -- what is written is the new document, at each of its keys
    simp only [List.mem_cons, Mutation.set.injEq, List.mem_flatMap, mem_indexMoves, reduceCtorEq,
      and_false, exists_false, false_or, Option.mem_def, Option.some.injEq, keysOf, mem_indexKeys]
    constructor
    · rintro (⟨rfl, rfl⟩ | ⟨field, hfield, part, hpart, rfl, rfl⟩)
      · exact ⟨new, rfl, rfl, .inl rfl⟩
      · exact ⟨new, rfl, rfl, .inr ⟨field, hfield, part, hpart, rfl⟩⟩
    · rintro ⟨_, rfl, rfl, rfl | ⟨field, hfield, part, hpart, rfl⟩⟩
      · exact .inl ⟨rfl, rfl⟩
      · exact .inr ⟨field, hfield, part, hpart, rfl, rfl⟩

theorem deleteBatch_eq (c : Collection) (old : Document) (id : String) (version : Version) :
    c.deleteBatch old id version =
      ⟨[⟨c.primaryKey id, some version⟩], (c.keysOf old id).map .delete⟩ := by
  have hall : ∀ (keys : List Key) (b : Batch),
      keys.foldl Batch.delete b = b.append ⟨[], keys.map .delete⟩ := by
    intro keys
    induction keys with
    | nil => simp [Batch.append]
    | cons key keys ih =>
      intro b
      rw [List.foldl_cons, ih]
      simp [Batch.append, Batch.delete]
  unfold deleteBatch
  rw [hall]
  simp [Batch.append, Batch.check, Batch.delete, Batch.empty, keysOf]

theorem replaces_deleteBatch {c : Collection} (hc : c.WellIndexed) (old : Document) (id : String)
    (version : Version) :
    c.Replaces id (some old) none (c.deleteBatch old id version).mutations := by
  rw [deleteBatch_eq]
  refine ⟨List.pairwise_map.2 (keysOf_distinct hc old id), ?_, ?_, ?_⟩
  · intro m hm
    obtain ⟨key, hkey, rfl⟩ := List.mem_map.1 hm
    exact owns_of_mem_keysOf hkey
  · intro d hd key hkey
    cases hd
    exact ⟨.delete key, List.mem_map_of_mem hkey, Key.same_refl _⟩
  · simp

/-! ## Batches on consistent tables -/

/-- What the batch of a change does, given the document that the change starts from. -/
theorem changeBatch_spec {c : Collection} (hc : c.WellIndexed) {change : Change} {old : Candidate}
    {id : String} {result : Document} {batch : Batch}
    (h : c.changeBatch change old id = .ok (result, batch)) :
    change.apply old.document = .ok result ∧
      batch.checks = [⟨c.primaryKey id, some old.version⟩] ∧
      c.Replaces id (some old.document) (change.outcome result) batch.mutations ∧
      (old.document.identity? = some (.string id) → ∀ d ∈ change.outcome result,
        d.identity? = some (.string id) ∧ c.checkDocument d = .ok ()) := by
  unfold changeBatch at h
  cases change with
  | update u =>
    obtain ⟨new, hnew, h⟩ := Except.bind_eq_ok_iff.1 h
    obtain ⟨hcheck, h⟩ := Except.check_bind_eq_ok_iff.1 h
    cases h
    refine ⟨hnew, by rw [updateBatch_eq], replaces_updateBatch hc .., fun hid d hd => ?_⟩
    cases hd
    exact ⟨u.identity?_of_apply hnew hid, hcheck⟩
  | delete =>
    cases h
    refine ⟨rfl, by rw [deleteBatch_eq], replaces_deleteBatch hc .., fun _ d hd => ?_⟩
    cases hd

variable {c : Collection} {t : Table}

/-- A change of a stored document keeps the table consistent. -/
theorem Consistent.change (h : c.Consistent t) (hc : c.WellIndexed) {change : Change}
    {old : Candidate} {id : String} {result : Document} {batch : Batch}
    (hstored : c.stored? t id = some old)
    (hbatch : c.changeBatch change old id = .ok (result, batch)) (v : Version) :
    c.Consistent (t.applyAll v batch.mutations) ∧
      c.stored? (t.applyAll v batch.mutations) =
        Function.update (c.stored? t) id ((change.outcome result).map fun d => ⟨d, v⟩) := by
  obtain ⟨_, _, hr, hnew⟩ := changeBatch_spec hc hbatch
  have hr' : c.Replaces id ((c.stored? t id).map (·.document)) (change.outcome result)
      batch.mutations := by
    rw [hstored]
    exact hr
  exact ⟨h.replace hr' (hnew (h.identity hstored)) v, hr'.stored?_applyAll⟩

def withNew (stored : String → Option Candidate) (docs : List (String × Document)) (v : Version)
    (id : String) : Option Candidate :=
  match docs.lookup id with
  | some d => some ⟨d, v⟩
  | none => stored id

theorem withNew_cons (stored : String → Option Candidate) (id : String) (d : Document)
    (docs : List (String × Document)) (v : Version) (hid : id ∉ docs.map Prod.fst) :
    withNew stored ((id, d) :: docs) v =
      withNew (Function.update stored id (some ⟨d, v⟩)) docs v := by
  funext id'
  unfold withNew
  by_cases h : id' = id
  · subst h
    have hnone : docs.lookup id' = none := by
      refine List.lookup_eq_none_iff.2 fun p hp => ?_
      have hne : id' ≠ p.1 := fun he => hid (List.mem_map.2 ⟨p, hp, he.symm⟩)
      simpa using hne
    simp [hnone]
  · rw [List.lookup_cons, show (id' == id) = false by simpa using h, Function.update_of_ne h]

/-- New documents with identities that are not stored keep the table consistent. -/
theorem Consistent.insert (h : c.Consistent t) (hc : c.WellIndexed)
    {docs : List (String × Document)} (hnodup : (docs.map Prod.fst).Nodup)
    (hdocs : ∀ p ∈ docs, p.2.identity? = some (.string p.1) ∧ c.checkDocument p.2 = .ok ())
    (hfree : ∀ p ∈ docs, c.stored? t p.1 = none) (v : Version) :
    c.Consistent (t.applyAll v (c.insertBatch docs).mutations) ∧
      c.stored? (t.applyAll v (c.insertBatch docs).mutations) = withNew (c.stored? t) docs v := by
  rw [insertBatch_eq]
  show c.Consistent (t.applyAll v (docs.flatMap fun p => c.puts p.1 p.2)) ∧
    c.stored? (t.applyAll v (docs.flatMap fun p => c.puts p.1 p.2)) = _
  -- one document after another, each into the table that holds the earlier ones
  induction docs generalizing t with
  | nil => exact ⟨h, rfl⟩
  | cons p docs ih =>
    obtain ⟨id, d⟩ := p
    obtain ⟨hid, hnodup⟩ := List.nodup_cons.1 hnodup
    obtain ⟨hd, hdocs⟩ := List.forall_mem_cons.1 hdocs
    obtain ⟨hidFree, hfree⟩ := List.forall_mem_cons.1 hfree
    have hr : c.Replaces id ((c.stored? t id).map (·.document)) (some d) (c.puts id d) := by
      rw [hidFree]
      exact replaces_puts hc id d
    have hstored := hr.stored?_applyAll (v := v)
    have hrest : ∀ p ∈ docs, c.stored? (t.applyAll v (c.puts id d)) p.1 = none := by
      intro p hp
      have hne : p.1 ≠ id := fun he => hid (List.mem_map.2 ⟨p, hp, he⟩)
      rw [hstored, Function.update_of_ne hne]
      exact hfree p hp
    have hfirst := h.replace hr (fun d' hd' => by cases hd'; exact hd) v
    rw [List.flatMap_cons, Table.applyAll_append, withNew_cons _ _ _ _ _ hid]
    have hlast := ih hfirst hnodup hdocs hrest
    rw [hstored] at hlast
    exact hlast

end Collection

end DocumentStore
