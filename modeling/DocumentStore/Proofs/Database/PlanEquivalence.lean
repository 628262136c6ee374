import DocumentStore.Proofs.Collection.Cursors
import DocumentStore.Proofs.Database.Runs

/-!
# Plan equivalence

On an open store a query finds exactly the stored documents that it accepts, in ascending order of
identities, whatever plan is chosen for it and whatever the size of pages.
-/

namespace DocumentStore

variable {c : Collection} {db : MemoryDatabase}

/-- What a query finds. -/
theorem Collection.findMany_finishes (hc : c.WellIndexed) (hconsistent : c.Consistent db.memory.table)
    (hopen : db.memory.closed = false) (hbatch : 0 < c.defaults.scanBatch) {fuel : Nat}
    (hfuel : db.memory.table.size < fuel) (q : Query) :
    (c.findMany q fuel).Finishes (fun ds db' => db.Alike db' ∧
      c.Lists db.memory.table q.compile ds) db := by
  refine (Cursor.getMany_fetches hconsistent hopen hbatch hfuel q.compile []).imp ?_
  rintro ds db' ⟨hdb', rfl, _⟩
  exact ⟨hdb', (Collection.selects_selected hc hconsistent _).lists⟩

namespace System

/-- What the cursors of a collection give in one run. -/
theorem Served.getMany_run {fuel : Nat} (h : Served c db fuel) (q : CompiledQuery)
    (ops : List CursorOp) :
    (db.run (Cursor.getMany ⟨c, c.plan q, ops⟩ fuel)).1 = some (.ok (CursorOp.applyAll ops
      (upTo (CursorOp.requiredCount ops) (c.matching db.memory.table q)))) := by
  obtain ⟨_, _, hrun, _, rfl, _⟩ := (Cursor.getMany_fetches h.sound.consistent h.opened
    h.defaults.scanBatch_pos h.size_lt q ops).run_eq
  rw [hrun]

theorem Served.findMany_run {fuel : Nat} (h : Served c db fuel) (q : Query) :
    (db.run (c.findMany q fuel)).1 = some (.ok (c.matching db.memory.table q.compile)) :=
  h.getMany_run q.compile []

theorem Served.lists_matching {fuel : Nat} (h : Served c db fuel) (q : CompiledQuery) :
    c.Lists db.memory.table q (c.matching db.memory.table q) :=
  (Collection.selects_selected h.wellIndexed h.sound.consistent q).lists

/-- A query finds the stored documents that it accepts, each once and in ascending order of
identities, and what it finds depends on nothing but the stored documents. -/
theorem find_lists_matches {fuel : Nat} (h : Served c db fuel) (q : Query) :
    ∃ ds, (db.run (c.findMany q fuel)).1 = some (.ok ds) ∧
      c.Lists db.memory.table q.compile ds ∧
      -- the same list with other indexes, other plans and other pages
      ∀ {c' : Collection} {db' : MemoryDatabase} {fuel' : Nat}, Served c' db' fuel' →
        c'.contents db'.memory.table = c.contents db.memory.table →
        (db'.run (c'.findMany q fuel')).1 = some (.ok ds) := by
  obtain ⟨ds, _, hrun, _, hlists⟩ := (Collection.findMany_finishes h.wellIndexed
    h.sound.consistent h.opened h.defaults.scanBatch_pos h.size_lt q).run_eq
  refine ⟨ds, by rw [hrun], hlists, fun {c' db' fuel'} h' hsame => ?_⟩
  obtain ⟨ds', _, hrun', _, hlists'⟩ := (Collection.findMany_finishes h'.wellIndexed
    h'.sound.consistent h'.opened h'.defaults.scanBatch_pos h'.size_lt q).run_eq
  rw [hrun', hlists.unique hlists' hsame]

open Sample in
/-- The articles of one stock, found in its index, are those that are found without an index. -/
theorem find_lists_matches_in_stock : ∃ ds,
    (stocked.run (articles.findMany (inStock 7) 9)).1 = some (.ok ds) ∧
    ds = [article "a" 7, article "b" 7] ∧
    articles.Lists stocked.memory.table (inStock 7).compile ds := by
  obtain ⟨ds, hrun, hlists, _⟩ := find_lists_matches served_stocked (inStock 7)
  have hfound : (stocked.run (articles.findMany (inStock 7) 9)).1 =
      some (.ok [article "a" 7, article "b" 7]) := rfl
  refine ⟨ds, hrun, ?_, hlists⟩
  rw [hfound] at hrun
  cases hrun
  rfl

end System

end DocumentStore
