import DocumentStore.Proofs.Database.PlanEquivalence

/-!
# Cursors that sort

Sorting by several keys gives the one list that is sorted by them stably and lexicographically, and it is
the list that sorting by each key alone gives, from the last key to the first one.  A cursor that sorts
fetches all matches, so that one sort and several ones ask the store for the same.
-/

namespace DocumentStore

namespace CursorOp

theorem any_isSort_append {ops : List CursorOp} (h : ops.any isSort = true)
    (ops' : List CursorOp) : (ops ++ ops').any isSort = true := by
  rw [List.any_append, h, Bool.true_or]

/-- All matches matter to operations that sort. -/
theorem requiredCount_of_sort {ops : List CursorOp} (h : ops.any isSort = true) :
    requiredCount ops = none := if_pos h

theorem applyAll_sort_andThen (ops : List CursorOp) (s t : SortSpec) (ds : List Document) :
    applyAll (ops ++ [.sort (s.andThen t)]) ds = applyAll (ops ++ [.sort t] ++ [.sort s]) ds := by
  rw [applyAll_append, applyAll_append, applyAll_append]
  exact s.sort_andThen t _

end CursorOp

namespace Cursor

/-- Cursors that make the same requests and give the same for the same answers, whichever way their
documents are asked for. -/
structure Agrees (cursor cursor' : Cursor) (fuel : Nat) : Prop where
  getMany : cursor.getMany fuel = cursor'.getMany fuel
  getOne : cursor.getOne fuel = cursor'.getOne fuel
  count : cursor.count fuel = cursor'.count fuel
  iterate : cursor.iterate fuel = cursor'.iterate fuel

variable {c : Collection} {plan : Plan} {ops ops' : List CursorOp}

theorem getMany_eq_of_sort (hops : ops.any CursorOp.isSort = true) (fuel : Nat) :
    getMany ⟨c, plan, ops⟩ fuel = (do
      let candidates ← Candidates.ofPlan c plan none
      let found ← candidates.collect fuel none
      return CursorOp.applyAll ops (found.map (·.document))) := by
  rw [getMany]
  dsimp only [requiredCount]
  rw [CursorOp.requiredCount_of_sort hops]

theorem ofCursor_of_sort (hops : ops.any CursorOp.isSort = true) (fuel : Nat) :
    DocumentStream.ofCursor ⟨c, plan, ops⟩ fuel =
      (do return .buffered (← getMany ⟨c, plan, ops⟩ fuel)) := by
  refine if_neg fun hempty => ?_
  obtain rfl : ops = [] := List.isEmpty_iff.1 hempty
  cases hops

/-- Operations that sort are told apart only by what they leave over. -/
theorem agrees_of_sort (hops : ops.any CursorOp.isSort = true)
    (hops' : ops'.any CursorOp.isSort = true)
    (h : ∀ ds, CursorOp.applyAll ops ds = CursorOp.applyAll ops' ds) (fuel : Nat) :
    Agrees ⟨c, plan, ops⟩ ⟨c, plan, ops'⟩ fuel := by
  have hmany : getMany ⟨c, plan, ops⟩ fuel = getMany ⟨c, plan, ops'⟩ fuel := by
    rw [getMany_eq_of_sort hops, getMany_eq_of_sort hops', funext h]
  have hlimited : getMany ⟨c, plan, ops ++ [.limit 1]⟩ fuel =
      getMany ⟨c, plan, ops' ++ [.limit 1]⟩ fuel := by
    have happend : ∀ ds, CursorOp.applyAll (ops ++ [.limit 1]) ds =
        CursorOp.applyAll (ops' ++ [.limit 1]) ds := fun ds => by
      rw [CursorOp.applyAll_append, CursorOp.applyAll_append, h]
    rw [getMany_eq_of_sort (CursorOp.any_isSort_append hops _),
      getMany_eq_of_sort (CursorOp.any_isSort_append hops' _), funext happend]
  refine ⟨hmany, ?_, ?_, ?_⟩
  · rw [getOne, getOne, withOp, withOp, hlimited]
  · rw [count, count, hmany]
  · rw [iterate, iterate, ofCursor_of_sort hops, ofCursor_of_sort hops', hmany]

/-- One sort by both specifications, and a sort by the second one before a sort by the first one. -/
theorem agrees_sort_andThen (cursor : Cursor) (s t : SortSpec) (fuel : Nat) :
    (cursor.withOp (.sort (s.andThen t))).Agrees
      ((cursor.withOp (.sort t)).withOp (.sort s)) fuel := by
  have hsort : ∀ spec, (cursor.ops ++ [CursorOp.sort spec]).any CursorOp.isSort = true := fun spec => by
    rw [List.any_append]
    exact Bool.or_true _
  exact agrees_of_sort (hsort _) (CursorOp.any_isSort_append (hsort t) _)
    (CursorOp.applyAll_sort_andThen cursor.ops s t) fuel

end Cursor

namespace System

/-- Each specification compares documents by a total preorder, lexicographically, and sorts each list
into the one that holds its documents in ascending order and keeps the order of those that compare equal.
The list is that of sorts by the single keys, from the last one to the first one, and so a cursor cannot
tell one sort by several keys from several sorts. -/
theorem sorts_lexicographically (s t : SortSpec) :
    (∀ a, s.cmp a a = .eq) ∧
    (∀ a b, s.cmp a b = (s.cmp b a).swap) ∧
    (∀ a b d, s.cmp a b ≠ .gt → s.cmp b d ≠ .gt → s.cmp a d ≠ .gt) ∧
    (∀ a b, (s.andThen t).cmp a b = (s.cmp a b).then (t.cmp a b)) ∧
    (∀ ds, s.Sorts ds (s.sort ds) ∧ ∀ sorted, s.Sorts ds sorted → sorted = s.sort ds) ∧
    (∀ ds, s.sort ds = s.keys.foldr (fun key ds => SortSpec.sort ⟨[key]⟩ ds) ds) ∧
    (∀ ds, (s.andThen t).sort ds = s.sort (t.sort ds)) ∧
    (∀ (cursor : Cursor) (fuel : Nat), (cursor.withOp (.sort (s.andThen t))).Agrees
      ((cursor.withOp (.sort t)).withOp (.sort s)) fuel) ∧
    ∀ {c : Collection} {db : MemoryDatabase} {fuel : Nat}, Served c db fuel → ∀ q : Query,
      ∃ ds, (db.run (c.findMany q fuel)).1 = some (.ok ds) ∧
        (db.run (((c.find q).withOp (.sort (s.andThen t))).getMany fuel)).1 =
          some (.ok ((s.andThen t).sort ds)) ∧
        (db.run ((((c.find q).withOp (.sort t)).withOp (.sort s)).getMany fuel)).1 =
          some (.ok ((s.andThen t).sort ds)) := by
  refine ⟨fun a => Std.ReflCmp.compare_self, s.cmp_swap, fun a b d hab hbd => ?_, s.cmp_andThen t,
    fun ds => ⟨s.sorts_sort ds, fun sorted h => h.unique (s.sorts_sort ds)⟩, s.sort_eq_foldr,
    s.sort_andThen t, fun cursor fuel => cursor.agrees_sort_andThen s t fuel,
    fun {c db fuel} h q => ?_⟩
  · exact Ordering.isLE_iff_ne_gt.1 (Std.TransCmp.isLE_trans (Ordering.isLE_iff_ne_gt.2 hab)
      (Ordering.isLE_iff_ne_gt.2 hbd))
  -- nothing is left out of what is sorted
  · have hsort : (db.run (((c.find q).withOp (.sort (s.andThen t))).getMany fuel)).1 =
        some (.ok ((s.andThen t).sort (c.matching db.memory.table q.compile))) :=
      h.getMany_run q.compile [.sort (s.andThen t)]
    refine ⟨_, h.findMany_run q, hsort, ?_⟩
    rw [← ((c.find q).agrees_sort_andThen s t fuel).getMany, hsort]

open Sample in
/-- Articles of one stock come out in descending order of identities, by one sort and by two. -/
theorem sorts_lexicographically_of_articles :
    (stocked.run (articles.findMany .all 9)).1 = some (.ok [article "a" 7, article "b" 7]) ∧
    (stocked.run (((articles.find .all).withOp
      (.sort ⟨[("stock", .ascending), ("_id", .descending)]⟩)).getMany 9)).1 =
        some (.ok [article "b" 7, article "a" 7]) ∧
    (stocked.run ((((articles.find .all).withOp (.sort ⟨[("_id", .descending)]⟩)).withOp
      (.sort ⟨[("stock", .ascending)]⟩)).getMany 9)).1 =
        some (.ok [article "b" 7, article "a" 7]) := by
  obtain ⟨_, _, _, _, _, _, _, _, hserved⟩ :=
    sorts_lexicographically ⟨[("stock", .ascending)]⟩ ⟨[("_id", .descending)]⟩
  obtain ⟨ds, hfind, hone, htwo⟩ := hserved served_stocked .all
  have hfound : (stocked.run (articles.findMany .all 9)).1 =
      some (.ok [article "a" 7, article "b" 7]) := rfl
  rw [hfound] at hfind
  cases hfind
  have hcmp : SortSpec.cmp (SortSpec.andThen ⟨[("stock", .ascending)]⟩ ⟨[("_id", .descending)]⟩)
      (article "a" 7) (article "b" 7) = .gt := rfl
  have hsort : SortSpec.sort (SortSpec.andThen ⟨[("stock", .ascending)]⟩ ⟨[("_id", .descending)]⟩)
      [article "a" 7, article "b" 7] = [article "b" 7, article "a" 7] := by
    simp [SortSpec.sort, List.mergeSort, hcmp]
  rw [hsort] at hone htwo
  exact ⟨hfound, hone, htwo⟩

end System

end DocumentStore
