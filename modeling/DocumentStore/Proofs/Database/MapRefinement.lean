import DocumentStore.Proofs.Collection.Contending
import DocumentStore.Proofs.Database.Runs

/-!
# Updates and deletes as changes of a map

A collection is seen as the map `contents` from identities to documents.  On a store that does not
conflict, updates and deletes replace or take out exactly the documents that match before the call,
or the first of them, whatever index is scanned and whatever the update changes.
-/

namespace DocumentStore

variable {c : Collection} {db : MemoryDatabase}

/-! ## Retry policies -/

theorem RetryPolicy.check_getD {policy : Option RetryPolicy} {fallback : RetryPolicy}
    (h : checkOptional policy = .ok ()) (hfallback : fallback.check = .ok ()) :
    (policy.getD fallback).check = .ok () := by
  cases policy with
  | none => exact hfallback
  | some policy => exact h

/-- The policy of a call without one of its own is valid. -/
theorem System.Served.retryPolicy {fuel : Nat} (h : Served c db fuel)
    (change : Change) (justOnce : Bool) :
    (c.retryPolicy change { justOnce := justOnce }).check = .ok () := by
  obtain ⟨_, _, _, hdefine⟩ := h.defined
  obtain ⟨_, hupdate, hdelete, hc⟩ := Collection.define_eq_ok hdefine
  subst hc
  cases change with
  | update u => exact RetryPolicy.check_getD hupdate h.defaults.updateRetry
  | delete => exact RetryPolicy.check_getD hdelete h.defaults.deleteRetry

/-! ## Maps of documents -/

/-- A map in which the first document of a list is replaced, or taken out. -/
def ReplacesFirst (new : Document → Option Document) (ds : List Document)
    (m m' : String → Option Document) : Prop :=
  match ds.head? with
  | some d => ∃ id, d.identity? = some (.string id) ∧ m' = Function.update m id (new d)
  | none => m' = m

namespace Collection

variable {change : Change} {f : Document → Document} {t t' : Table} {q : CompiledQuery}

theorem Alters.contents (hc : c.WellIndexed) (ht : c.Consistent t)
    (h : c.Alters change f (c.selected t q) t t') :
    c.contents t' = fun id => (c.contents t id).bind fun d =>
      if q.accepts d then change.outcome (f d) else some d := by
  have hselects := selects_selected hc ht q
  funext id
  cases hs : c.stored? t id with
  | none =>
    have hkept := h.kept id fun s' _ hs' => by
      rw [hs] at hs'
      cases hs'
    simp [Collection.contents, hkept, hs]
  | some s =>
    by_cases haccepts : q.accepts s.document = true
    · have hmem : s ∈ c.selected t q := (hselects.mem_iff s).2 ⟨⟨id, hs⟩, haccepts⟩
      have hchanged := h.changed hmem hs
      simp [Collection.contents, hchanged, hs, haccepts]
    · have hkept := h.kept id fun s' hs' hstored => by
        rw [hs] at hstored
        cases hstored
        exact haccepts ((hselects.mem_iff s).1 hs').2
      simp [Collection.contents, hkept, hs, haccepts]

theorem Alters.contents_first (hc : c.WellIndexed) (ht : c.Consistent t)
    (h : c.Alters change f (c.selected t q).head?.toList t t') :
    ReplacesFirst (fun d => change.outcome (f d)) ((c.selected t q).map (·.document))
      (c.contents t) (c.contents t') := by
  have hselects := selects_selected hc ht q
  cases hfound : c.selected t q with
  | nil =>
    rw [hfound] at h
    show c.contents t' = c.contents t
    funext id
    simp [Collection.contents, h.kept id fun s hs => by cases hs]
  | cons s found =>
    rw [hfound] at h hselects
    obtain ⟨⟨id, hs⟩, _⟩ := (hselects.mem_iff s).1 List.mem_cons_self
    refine ⟨id, ht.identity hs, ?_⟩
    funext id'
    by_cases hid : id' = id
    · subst hid
      rw [Function.update_self]
      exact h.changed (by simp) hs
    · rw [Function.update_of_ne hid]
      have hkept := h.kept id' fun s' hs' hstored => by
        rw [List.head?_cons, Option.toList_some, List.mem_singleton] at hs'
        subst hs'
        have hsame := (ht.identity hstored).symm.trans (ht.identity hs)
        cases hsame
        exact hid rfl
      simp [Collection.contents, hkept]

end Collection

/-! ## Operations -/

namespace System

variable {change : Change} {f : Document → Document} {fuel : Nat}

theorem succeeds_delete (d : Document) : c.Succeeds .delete d d :=
  ⟨rfl, fun _ hnew => by cases hnew⟩

theorem Served.blocked (h : Served c db fuel) (hquiet : db.settings.store.remaining = 0) :
    db.Blocked 0 :=
  .of_quiet h.opened hquiet

/-- A change of all documents that match. -/
theorem Served.change_finishes (h : Served c db fuel) (hquiet : db.settings.store.remaining = 0)
    (hpolicy : (c.retryPolicy change {}).check = .ok ()) (q : Query)
    (hsucceeds : ∀ s ∈ c.selected db.memory.table q.compile,
      c.Succeeds change s.document (f s.document)) :
    (c.change change q {} fuel).Finishes (fun results db' =>
      results = (c.selected db.memory.table q.compile).map (fun s => f s.document) ∧
        c.Consistent db'.memory.table ∧
        c.contents db'.memory.table = fun id => (c.contents db.memory.table id).bind fun d =>
          if q.compile.accepts d then change.outcome (f d) else some d) db := by
  refine (Collection.change_finishes h.wellIndexed h.sound.consistent (h.blocked hquiet)
    h.defaults.scanBatch_pos h.size_lt hpolicy hsucceeds).imp ?_
  rintro results db' ⟨rfl, hconsistent, halters⟩
  exact ⟨rfl, hconsistent, halters.contents h.wellIndexed h.sound.consistent⟩

/-- A change of the first document that matches. -/
theorem Served.changeOnce_finishes (h : Served c db fuel) (hquiet : db.settings.store.remaining = 0)
    (hpolicy : (c.retryPolicy change .once).check = .ok ()) (q : Query)
    (hsucceeds : ∀ s ∈ c.selected db.memory.table q.compile,
      c.Succeeds change s.document (f s.document)) :
    Action.Finishes (fun result db' =>
      result = (c.selected db.memory.table q.compile).head?.map (fun s => f s.document) ∧
        ReplacesFirst (fun d => change.outcome (f d))
          ((c.selected db.memory.table q.compile).map (·.document))
          (c.contents db.memory.table) (c.contents db'.memory.table))
      (do return (← c.change change q .once fuel).head?) db := by
  refine .bind ((Collection.change_finishes h.wellIndexed h.sound.consistent (h.blocked hquiet)
    h.defaults.scanBatch_pos h.size_lt hpolicy hsucceeds).imp ?_)
  rintro results db' ⟨rfl, _, halters⟩
  refine .pure ⟨?_, halters.contents_first h.wellIndexed h.sound.consistent⟩
  show (List.map _ (c.selected db.memory.table q.compile).head?.toList).head? = _
  cases (c.selected db.memory.table q.compile).head? <;> rfl

/-- The delete of all documents leaves no entry of the collection. -/
theorem Served.dropAll_finishes (h : Served c db fuel) (hquiet : db.settings.store.remaining = 0)
    (hpolicy : (c.retryPolicy .delete {}).check = .ok ()) :
    (c.dropAll fuel).Finishes (fun n db' => n = (c.selected db.memory.table .all).length ∧
      ∀ e ∈ db'.memory.table.entries, e.key.parts.head? ≠ some (.string c.name)) db := by
  refine .bind ((h.change_finishes (f := id) hquiet hpolicy .all fun s _ =>
    succeeds_delete s.document).imp ?_)
  rintro results db' ⟨rfl, hconsistent, hcontents⟩
  refine .pure ⟨List.length_map _, fun e he hhead => ?_⟩
  -- an entry that is left would belong to a document that is left
  obtain ⟨id, s, hs, _⟩ := (hconsistent.mem_iff e).1 ⟨he, hhead⟩
  have hstored : c.contents db'.memory.table id = some s.document :=
    Collection.contents_eq_some_iff.2 ⟨s.version, hs⟩
  rw [hcontents] at hstored
  cases hbefore : c.contents db.memory.table id with
  | none => simp [hbefore] at hstored
  | some d => simp [hbefore, Query.compile, CompiledQuery.accepts, Change.outcome] at hstored

/-- What updates and deletes do to the map of stored documents, if `ds` are the documents that match
before the call. -/
structure RefinesMap (c : Collection) (db : MemoryDatabase) (fuel : Nat) (q : Query)
    (ds : List Document) : Prop where
  lists : c.Lists db.memory.table q.compile ds
  /-- An update that succeeds on all of them is applied to each. -/
  updateMany : ∀ u f, (∀ d ∈ ds, u.apply d = .ok (f d) ∧ c.checkDocument (f d) = .ok ()) →
    ∃ db', db.run (c.updateMany q u fuel) = (some (.ok (ds.map f)), db') ∧
      c.contents db'.memory.table = fun id => (c.contents db.memory.table id).map fun d =>
        if q.compile.accepts d then f d else d
  updateOne : ∀ u f, (∀ d ∈ ds, u.apply d = .ok (f d) ∧ c.checkDocument (f d) = .ok ()) →
    ∃ db', db.run (c.updateOne q u fuel) = (some (.ok (ds.head?.map f)), db') ∧
      ReplacesFirst (fun d => some (f d)) ds (c.contents db.memory.table)
        (c.contents db'.memory.table)
  deleteMany : ∃ db', db.run (c.deleteMany q fuel) = (some (.ok ds), db') ∧
    c.contents db'.memory.table = fun id => (c.contents db.memory.table id).filter fun d =>
      !q.compile.accepts d
  deleteOne : ∃ db', db.run (c.deleteOne q fuel) = (some (.ok ds.head?), db') ∧
    ReplacesFirst (fun _ => none) ds (c.contents db.memory.table) (c.contents db'.memory.table)
  /-- The delete of everything counts all documents and leaves no entry. -/
  dropAll : ∃ db' all, c.Lists db.memory.table .all all ∧
    db.run (c.dropAll fuel) = (some (.ok all.length), db') ∧
    ∀ e ∈ db'.memory.table.entries, e.key.parts.head? ≠ some (.string c.name)

/-- On a store that does not conflict, updates and deletes change the map of stored documents. -/
theorem changes_refine_map (h : Served c db fuel) (hquiet : db.settings.store.remaining = 0)
    (q : Query) : ∃ ds, RefinesMap c db fuel q ds := by
  -- the documents of what is selected are the list that the statement speaks of
  have hlists : ∀ q, c.Lists db.memory.table q
      ((c.selected db.memory.table q).map (·.document)) := fun q =>
    (Collection.selects_selected h.wellIndexed h.sound.consistent q).lists
  have hsucceeds : ∀ {u : Update} {f : Document → Document},
      (∀ d ∈ (c.selected db.memory.table q.compile).map (·.document),
        u.apply d = .ok (f d) ∧ c.checkDocument (f d) = .ok ()) →
      ∀ s ∈ c.selected db.memory.table q.compile,
        c.Succeeds (.update u) s.document (f s.document) := by
    intro u f hu s hs
    obtain ⟨happly, hcheck⟩ := hu s.document (List.mem_map_of_mem hs)
    exact ⟨happly, fun new hnew => by cases hnew; exact hcheck⟩
  refine ⟨_, hlists q.compile, fun u f hu => ?_, fun u f hu => ?_, ?_, ?_, ?_⟩
  · obtain ⟨results, db', hrun, rfl, _, hcontents⟩ := (h.change_finishes hquiet
      (h.retryPolicy (.update u) false) q (hsucceeds hu)).run_eq
    refine ⟨db', by rw [List.map_map]; exact hrun, ?_⟩
    rw [hcontents]
    funext id
    cases c.contents db.memory.table id with
    | none => rfl
    | some d => by_cases haccepts : q.compile.accepts d = true <;> simp [haccepts, Change.outcome]
  · obtain ⟨result, db', hrun, rfl, hfirst⟩ := (h.changeOnce_finishes hquiet
      (h.retryPolicy (.update u) true) q (hsucceeds hu)).run_eq
    refine ⟨db', ?_, hfirst⟩
    rw [List.head?_map, Option.map_map]
    exact hrun
  · obtain ⟨results, db', hrun, rfl, _, hcontents⟩ := (h.change_finishes (f := id) hquiet
      (h.retryPolicy .delete false) q fun s _ => succeeds_delete s.document).run_eq
    refine ⟨db', hrun, ?_⟩
    rw [hcontents]
    funext id
    cases c.contents db.memory.table id with
    | none => rfl
    | some d =>
      by_cases haccepts : q.compile.accepts d = true <;>
        simp [haccepts, Change.outcome, Option.filter]
  · obtain ⟨result, db', hrun, rfl, hfirst⟩ := (h.changeOnce_finishes (f := id) hquiet
      (h.retryPolicy .delete true) q fun s _ => succeeds_delete s.document).run_eq
    refine ⟨db', ?_, hfirst⟩
    rw [List.head?_map]
    exact hrun
  · obtain ⟨n, db', hrun, rfl, hempty⟩ := (h.dropAll_finishes hquiet
      (h.retryPolicy .delete false)).run_eq
    refine ⟨db', _, hlists .all, ?_, hempty⟩
    rw [List.length_map]
    exact hrun

open Sample in
/-- An update of the very field whose index is scanned changes each of the two articles once. -/
theorem changes_refine_map_of_restock : ∃ ds, RefinesMap articles stocked 9 (inStock 7) ds ∧
    ds = [article "a" 7, article "b" 7] ∧
    (stocked.run (articles.updateMany (inStock 7) (restock 8) 9)).1 =
      some (.ok [article "a" 8, article "b" 8]) := by
  obtain ⟨ds, hds⟩ := changes_refine_map served_stocked rfl (inStock 7)
  have hselects := Collection.selects_selected served_stocked.wellIndexed
    served_stocked.sound.consistent (inStock 7).compile
  obtain rfl : ds = [article "a" 7, article "b" 7] := hselects.lists.unique hds.lists rfl
  obtain ⟨db', hrun, _⟩ := hds.updateMany (restock 8) (·.insert "stock" (.integer 8)) fun d hd => by
    rcases List.mem_pair.1 hd with rfl | rfl <;> exact ⟨rfl, rfl⟩
  exact ⟨_, hds, rfl, by rw [hrun]; rfl⟩

end System

end DocumentStore
