import DocumentStore.Proofs.Collection.Cursors
import DocumentStore.Proofs.Database.Runs

/-!
# Cursors as pipelines

On an open store a cursor gives what its operations leave over of all matches of its query, in the
order of the calls, although it fetches only as many matches as the operations can let through.
-/

namespace DocumentStore

variable {c : Collection} {db : MemoryDatabase} {fuel : Nat}

/-- All ways to ask a cursor for its documents give the same list. -/
structure Cursor.GivesAll (db : MemoryDatabase) (fuel : Nat) (cursor : Cursor)
    (ds : List Document) : Prop where
  getMany : (db.run (cursor.getMany fuel)).1 = some (.ok ds)
  getOne : (db.run (cursor.getOne fuel)).1 = some (.ok ds.head?)
  count : (db.run (cursor.count fuel)).1 = some (.ok ds.length)
  iterate : (db.run (cursor.iterate fuel)).1 = some (.ok (ds.map .ok))

namespace System

/-- A cursor gives what its operations leave over of all matches.  The bound on the store is one that
every list in memory keeps to. -/
theorem cursor_gives_pipeline (h : Served c db fuel)
    (hsize : db.memory.table.size ≤ CursorOp.maxCount) (q : Query) (ops : List CursorOp) :
    ∃ ds left, c.Lists db.memory.table q.compile ds ∧ CursorOp.Leaves ops ds left ∧
      left = CursorOp.applyAll ops ds ∧
      (ops.foldl Cursor.withOp (c.find q)).GivesAll db fuel left := by
  have hconsistent := h.sound.consistent
  have hpos := h.defaults.scanBatch_pos
  have hcursor : ops.foldl Cursor.withOp (c.find q) = ⟨c, c.plan q.compile, ops⟩ := by
    rw [Cursor.foldl_withOp]
    rfl
  rw [hcursor]
  refine ⟨c.matching db.memory.table q.compile, _,
    (Collection.selects_selected h.wellIndexed hconsistent _).lists,
    CursorOp.leaves_applyAll ops _, rfl, ?_, ?_, ?_, ?_⟩
  · obtain ⟨_, _, hrun, _, rfl⟩ :=
      (Cursor.getMany_finishes hconsistent h.opened hpos h.size_lt hsize q.compile ops).run_eq
    rw [hrun]
  · obtain ⟨_, _, hrun, _, rfl⟩ :=
      (Cursor.getOne_finishes hconsistent h.opened hpos h.size_lt hsize q.compile ops).run_eq
    rw [hrun]
  · obtain ⟨_, _, hrun, _, rfl⟩ :=
      (Cursor.count_finishes hconsistent h.opened hpos h.size_lt hsize q.compile ops).run_eq
    rw [hrun]
  · obtain ⟨_, _, hrun, _, rfl⟩ :=
      (Cursor.iterate_finishes hconsistent h.opened hpos h.size_lt hsize q.compile ops).run_eq
    rw [hrun]

open Sample in
/-- The second of the articles in descending order, behind a skip and a limit whose sum is beyond the
largest count. -/
theorem cursor_gives_pipeline_of_articles : ∃ ds left,
    CursorOp.Leaves [.sort ⟨[("_id", .descending)]⟩, .skip 1, .limit CursorOp.maxCount] ds left ∧
    left = [article "a" 7] ∧
    ([CursorOp.sort ⟨[("_id", .descending)]⟩, .skip 1, .limit CursorOp.maxCount].foldl
      Cursor.withOp (articles.find .all)).GivesAll stocked 9 left := by
  obtain ⟨ds, left, hlists, hleaves, hleft, hgives⟩ := cursor_gives_pipeline served_stocked
    (by decide) .all [.sort ⟨[("_id", .descending)]⟩, .skip 1, .limit CursorOp.maxCount]
  have hselects := Collection.selects_selected served_stocked.wellIndexed
    served_stocked.sound.consistent Query.all.compile
  obtain rfl : ds = [article "a" 7, article "b" 7] := hselects.lists.unique hlists rfl
  have hcmp : SortSpec.cmp ⟨[("_id", .descending)]⟩ (article "a" 7) (article "b" 7) = .gt := rfl
  have hsort : SortSpec.sort ⟨[("_id", .descending)]⟩ [article "a" 7, article "b" 7] =
      [article "b" 7, article "a" 7] := by
    simp [SortSpec.sort, List.mergeSort, hcmp]
  refine ⟨_, left, hleaves, ?_, hgives⟩
  rw [hleft]
  simp [CursorOp.applyAll, CursorOp.apply, hsort, CursorOp.maxCount]

end System

end DocumentStore
