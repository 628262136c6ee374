import DocumentStore.Proofs.Collection.Plans

/-!
# What changes make of a table

Changing documents one after another, each in a commit of its own, changes these documents and leaves
the others as they are (`Collection.Rewrites`, `Collection.Alters`).  Documents that are found before
the first change are still there when it is their turn, as no change of another document touches their
entries (`Collection.Pending`).
-/

namespace DocumentStore

namespace Collection

variable {c : Collection} {change : Change} {q : CompiledQuery} {f : Document → Document}
  {id : String} {s : Candidate} {rest cs : List Candidate} {t t' t'' : Table} {v v' v'' : Version}
  {batch : Batch}

/-- A change that succeeds on a document, and what it leaves can be stored. -/
structure Succeeds (c : Collection) (change : Change) (d result : Document) : Prop where
  applied : change.apply d = .ok result
  checked : ∀ new ∈ change.outcome result, c.checkDocument new = .ok ()

theorem Succeeds.changeBatch {result : Document}
    (h : c.Succeeds change s.document result) (id : String) :
    ∃ batch, c.changeBatch change s id = .ok (result, batch) := by
  cases change with
  | update u =>
    have happly : u.apply s.document = .ok result := h.applied
    have hcheck : c.checkDocument result = .ok () := h.checked result rfl
    refine ⟨c.updateBatch s.document result id s.version, ?_⟩
    simp only [Collection.changeBatch, happly, bind, Except.bind, hcheck, pure, Except.pure]
  | delete =>
    cases h.applied
    exact ⟨_, rfl⟩

/-! ## Documents that are changed -/

/-- A table that differs from another one in the document under one identity. -/
def Puts (c : Collection) (id : String) (new : Option Document) (t t' : Table) : Prop :=
  ∃ v, c.stored? t' = Function.update (c.stored? t) id (new.map fun d => ⟨d, v⟩)

/-- A table in which the documents of some candidates are changed and the others are as before. -/
structure Alters (c : Collection) (change : Change) (f : Document → Document)
    (candidates : List Candidate) (t t' : Table) : Prop where
  changed : ∀ {id s}, s ∈ candidates → c.stored? t id = some s →
    (c.stored? t' id).map (·.document) = change.outcome (f s.document)
  kept : ∀ id, (∀ s ∈ candidates, c.stored? t id ≠ some s) → c.stored? t' id = c.stored? t id

theorem Alters.nil (c : Collection) (change : Change) (f : Document → Document) (t : Table) :
    c.Alters change f [] t t :=
  ⟨fun hs => (by cases hs), fun _ _ => rfl⟩

/-- A change of one document before those of others. -/
theorem Alters.cons (ht : c.Consistent t) (ht' : c.Consistent t')
    (hs : c.stored? t id = some s) (hrest : ∀ s' ∈ rest, IdLess s.document s'.document)
    (hput : c.Puts id (change.outcome (f s.document)) t t') (h : c.Alters change f rest t' t'') :
    c.Alters change f (s :: rest) t t'' := by
  obtain ⟨v, hput⟩ := hput
  -- identities rise along the list, so the first one does not come again
  have hother : ∀ {id' s'}, s' ∈ rest → s'.document.identity? = some (.string id') → id' ≠ id := by
    rintro id' s' hs' hid' rfl
    obtain ⟨i, j, hi, hj, hlt⟩ := hrest s' hs'
    rw [ht.identity hs] at hi
    rw [hid'] at hj
    cases hi
    cases hj
    exact String.lt_irrefl _ hlt
  constructor
  · intro id' s' hs' hstored
    by_cases hid : id' = id
    · -- the first document, which the later changes leave alone
      subst hid
      rw [hs] at hstored
      cases hstored
      rw [h.kept _ fun s' hs' hstored' => hother hs' (ht'.identity hstored') rfl, hput,
        Function.update_self]
      cases change.outcome (f s.document) <;> rfl
    · have hmem : s' ∈ rest := by
        rcases List.mem_cons.1 hs' with rfl | hmem
        · have hsame := (ht.identity hstored).symm.trans (ht.identity hs)
          cases hsame
          exact absurd rfl hid
        · exact hmem
      refine h.changed hmem ?_
      rw [hput, Function.update_of_ne hid, hstored]
  · intro id' hnone
    obtain ⟨hfirst, hrestNone⟩ := List.forall_mem_cons.1 hnone
    have hid : id' ≠ id := fun he => hfirst (he ▸ hs)
    have hsame : c.stored? t' id' = c.stored? t id' := by
      rw [hput, Function.update_of_ne hid]
    rw [h.kept _ fun s' hs' => hsame ▸ hrestNone s' hs', hsame]

/-! ## Changes in commits of their own -/

/-- Documents that are changed one after another, each in a commit of its own: from a table and the
version of its last commit to later ones. -/
inductive Rewrites (c : Collection) (change : Change) (f : Document → Document) :
    List Candidate → Table → Version → Table → Version → Prop where
  | nil (t : Table) (v : Version) : Rewrites c change f [] t v t v
  | cons {s : Candidate} {rest : List Candidate} {id : String} {batch : Batch} {t t' : Table}
    {v v' : Version} (hid : s.document.identity? = some (.string id))
    (hs : c.stored? t id = some s) (hmade : c.changeBatch change s id = .ok (f s.document, batch))
    (hrest : Rewrites c change f rest (t.applyAll (v + 1) batch.mutations) (v + 1) t' v') :
    Rewrites c change f (s :: rest) t v t' v'

theorem rewrites_cons_iff : c.Rewrites change f (s :: rest) t v t' v' ↔
    ∃ id batch, s.document.identity? = some (.string id) ∧ c.stored? t id = some s ∧
      c.changeBatch change s id = .ok (f s.document, batch) ∧
      c.Rewrites change f rest (t.applyAll (v + 1) batch.mutations) (v + 1) t' v' := by
  constructor
  · intro h
    cases h with
    | cons hid hs hmade hrest => exact ⟨_, _, hid, hs, hmade, hrest⟩
  · rintro ⟨id, batch, hid, hs, hmade, hrest⟩
    exact .cons hid hs hmade hrest

theorem Rewrites.append {cs' : List Candidate} (h : c.Rewrites change f cs t v t' v')
    (h' : c.Rewrites change f cs' t' v' t'' v'') : c.Rewrites change f (cs ++ cs') t v t'' v'' := by
  induction h with
  | nil t v => exact h'
  | cons hid hs hmade _ ih => exact .cons hid hs hmade (ih h')

theorem Rewrites.table_eq (h : c.Rewrites change f [] t v t' v') : t' = t := by
  cases h
  rfl

/-- There is one commit for each document. -/
theorem Rewrites.version_eq (h : c.Rewrites change f cs t v t' v') : v' = v + cs.length := by
  induction h with
  | nil t v => rfl
  | cons _ _ _ _ ih => rw [ih, List.length_cons, Nat.add_assoc, Nat.add_comm 1]

/-- The documents settle what becomes of the table. -/
theorem Rewrites.unique (h : c.Rewrites change f cs t v t' v')
    (h' : c.Rewrites change f cs t v t'' v'') : t'' = t' ∧ v'' = v' := by
  induction h with
  | nil t v =>
    cases h'
    exact ⟨rfl, rfl⟩
  | cons hid _ hmade _ ih =>
    cases h' with
    | cons hid' _ hmade' hrest' =>
      cases hid.symm.trans hid'
      cases hmade.symm.trans hmade'
      exact ih hrest'

theorem Rewrites.consistent (hc : c.WellIndexed) (ht : c.Consistent t)
    (h : c.Rewrites change f cs t v t' v') : c.Consistent t' := by
  induction h with
  | nil t v => exact ht
  | cons _ hs hmade _ ih => exact ih (ht.change hc hs hmade _).1

/-- Of a consistent table exactly the documents that were changed are different. -/
theorem Rewrites.alters (hc : c.WellIndexed) (ht : c.Consistent t)
    (hless : cs.Pairwise fun s s' => IdLess s.document s'.document)
    (h : c.Rewrites change f cs t v t' v') : c.Alters change f cs t t' := by
  induction h with
  | nil t v => exact .nil ..
  | cons hid hs hmade _ ih =>
    obtain ⟨hfirst, hless⟩ := List.pairwise_cons.1 hless
    obtain ⟨ht', hstored⟩ := ht.change hc hs hmade _
    exact .cons ht ht' hs hfirst ⟨_, hstored⟩ (ih ht' hless)

/-! ## Documents that wait to be changed -/

theorem stored?_applyAll_change (hc : c.WellIndexed) {result : Document}
    (hs : c.stored? t id = some s) (hmade : c.changeBatch change s id = .ok (result, batch))
    (v : Version) : c.stored? (t.applyAll v batch.mutations) =
      Function.update (c.stored? t) id ((change.outcome result).map fun d => ⟨d, v⟩) := by
  have hreplaces := (changeBatch_spec hc hmade).2.2.1
  have hold : (c.stored? t id).map (·.document) = some s.document := by rw [hs]; rfl
  rw [← hold] at hreplaces
  exact hreplaces.stored?_applyAll

/-- Documents that are stored, each under an identity of its own, and that a query accepts. -/
structure Waits (c : Collection) (q : CompiledQuery) (t : Table) (cs : List Candidate) : Prop where
  stored : ∀ s ∈ cs, ∃ id, s.document.identity? = some (.string id) ∧ c.stored? t id = some s
  accepted : ∀ s ∈ cs, q.accepts s.document = true
  distinct : cs.Pairwise fun s s' => s.document.identity? ≠ s'.document.identity?

theorem Waits.first (h : c.Waits q t (s :: rest)) : c.Waits q t [s] :=
  ⟨fun s' hs' => h.stored s' (List.mem_singleton.1 hs' ▸ List.mem_cons_self),
    fun s' hs' => h.accepted s' (List.mem_singleton.1 hs' ▸ List.mem_cons_self),
    List.pairwise_singleton _ _⟩

theorem Waits.tail (h : c.Waits q t (s :: rest)) : c.Waits q t rest :=
  ⟨(List.forall_mem_cons.1 h.stored).2, (List.forall_mem_cons.1 h.accepted).2,
    (List.pairwise_cons.1 h.distinct).2⟩

/-- The change of one document leaves the others as they are. -/
theorem Waits.step (hc : c.WellIndexed) (h : c.Waits q t (s :: rest)) {result : Document}
    (hid : s.document.identity? = some (.string id)) (hs : c.stored? t id = some s)
    (hmade : c.changeBatch change s id = .ok (result, batch)) (v : Version) :
    c.Waits q (t.applyAll v batch.mutations) rest := by
  refine { h.tail with stored := fun s' hs' => ?_ }
  obtain ⟨id', hid', hstored⟩ := h.tail.stored s' hs'
  have hne : id' ≠ id := by
    rintro rfl
    exact (List.pairwise_cons.1 h.distinct).1 s' hs' (hid.trans hid'.symm)
  refine ⟨id', hid', ?_⟩
  rw [stored?_applyAll_change hc hs hmade, Function.update_of_ne hne]
  exact hstored

/-- What was selected of a consistent table waits. -/
theorem Selects.waits {q : CompiledQuery} (ht : c.Consistent t) (h : c.Selects t q cs) :
    c.Waits q t cs where
  stored s hs := by
    obtain ⟨⟨id, hid⟩, _⟩ := (h.mem_iff s).1 hs
    exact ⟨id, ht.identity hid, hid⟩
  accepted s hs := ((h.mem_iff s).1 hs).2
  distinct := by
    refine h.ascending.imp fun ⟨i, j, hi, hj, hlt⟩ he => ?_
    rw [hi, hj] at he
    cases he
    exact String.lt_irrefl i hlt

/-- Documents that are stored, each under an identity of its own, and that a change succeeds on. -/
structure Pending (c : Collection) (change : Change) (q : CompiledQuery)
    (f : Document → Document) (t : Table) (cs : List Candidate) : Prop where
  stored : ∀ s ∈ cs, ∃ id, s.document.identity? = some (.string id) ∧ c.stored? t id = some s
  accepted : ∀ s ∈ cs, q.accepts s.document = true
  distinct : cs.Pairwise fun s s' => s.document.identity? ≠ s'.document.identity?
  succeeds : ∀ s ∈ cs, c.Succeeds change s.document (f s.document)

theorem Pending.waits (h : c.Pending change q f t cs) : c.Waits q t cs :=
  ⟨h.stored, h.accepted, h.distinct⟩

theorem Waits.pending (h : c.Waits q t cs)
    (hsucceeds : ∀ s ∈ cs, c.Succeeds change s.document (f s.document)) :
    c.Pending change q f t cs :=
  ⟨h.stored, h.accepted, h.distinct, hsucceeds⟩

theorem Pending.tail (h : c.Pending change q f t (s :: rest)) : c.Pending change q f t rest :=
  h.waits.tail.pending (List.forall_mem_cons.1 h.succeeds).2

theorem Pending.step (hc : c.WellIndexed) (h : c.Pending change q f t (s :: rest))
    {result : Document} (hid : s.document.identity? = some (.string id))
    (hs : c.stored? t id = some s) (hmade : c.changeBatch change s id = .ok (result, batch))
    (v : Version) : c.Pending change q f (t.applyAll v batch.mutations) rest :=
  (h.waits.step hc hid hs hmade v).pending h.tail.succeeds

/-- What was selected of a consistent table is pending. -/
theorem Selects.pending {q : CompiledQuery} (ht : c.Consistent t) (h : c.Selects t q cs)
    (hsucceeds : ∀ s ∈ cs, c.Succeeds change s.document (f s.document)) :
    c.Pending change q f t cs :=
  (h.waits ht).pending hsucceeds

end Collection

end DocumentStore
