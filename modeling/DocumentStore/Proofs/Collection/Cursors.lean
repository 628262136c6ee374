import DocumentStore.Collection.Cursor
import DocumentStore.Proofs.Collection.Plans
import DocumentStore.Proofs.Sorting

/-!
# Cursors

A cursor fetches no more matches than its operations can let through, and this makes no difference to
what they leave over (`applyAll_upTo_requiredCount`).  So a cursor gives what its operations leave over
of all matches, whichever way its documents are asked for.
-/

namespace DocumentStore

/-! ## Bounds -/

theorem map_upTo {α β : Type} (f : α → β) (bound : Option Nat) (l : List α) :
    (upTo bound l).map f = upTo bound (l.map f) := by
  cases bound with
  | none => rfl
  | some n => exact List.map_take

namespace CursorOp

variable {ops : List CursorOp} {ds : List Document}

theorem applyAll_cons (op : CursorOp) (ops : List CursorOp) (ds : List Document) :
    applyAll (op :: ops) ds = applyAll ops (op.apply ds) := rfl

theorem applyAll_append (ops ops' : List CursorOp) (ds : List Document) :
    applyAll (ops ++ ops') ds = applyAll ops' (applyAll ops ds) :=
  List.foldl_append

/-- What operations leave over of a list of documents, one operation after another. -/
inductive Leaves : List CursorOp → List Document → List Document → Prop where
  | nil (ds : List Document) : Leaves [] ds ds
  | skip {count : Nat} {ops : List CursorOp} {ds left : List Document}
    (h : Leaves ops (ds.drop count) left) : Leaves (.skip count :: ops) ds left
  | limit {count : Nat} {ops : List CursorOp} {ds left : List Document}
    (h : Leaves ops (ds.take count) left) : Leaves (.limit count :: ops) ds left
  | sort {spec : SortSpec} {ops : List CursorOp} {ds sorted left : List Document}
    (hsorted : spec.Sorts ds sorted) (h : Leaves ops sorted left) : Leaves (.sort spec :: ops) ds left

theorem leaves_applyAll (ops : List CursorOp) (ds : List Document) :
    Leaves ops ds (applyAll ops ds) := by
  induction ops generalizing ds with
  | nil => exact .nil ds
  | cons op ops ih =>
    cases op with
    | skip count => exact .skip (ih _)
    | limit count => exact .limit (ih _)
    | sort spec => exact .sort (spec.sorts_sort ds) (ih _)

/-- Behind the documents that are skipped up to the first limit, only so many matter. -/
theorem applyAll_drop_take {skipped bound : Nat} (hsorts : ops.any isSort = false)
    (hbound : countToLimit skipped ops = some bound) (hlength : ds.length ≤ maxCount) :
    applyAll ops ((ds.take bound).drop skipped) = applyAll ops (ds.drop skipped) := by
  induction ops generalizing skipped with
  | nil => cases hbound
  | cons op ops ih =>
    rw [List.any_cons, Bool.or_eq_false_iff] at hsorts
    cases op with
    | skip count =>
      have hrest := ih hsorts.2 hbound
      rw [applyAll_cons, applyAll_cons]
      show applyAll ops (((ds.take bound).drop skipped).drop count) =
        applyAll ops ((ds.drop skipped).drop count)
      rw [List.drop_drop, List.drop_drop]
      -- beyond the largest count there is nothing left to skip
      by_cases hsum : skipped + count ≤ maxCount
      · rw [Nat.min_eq_left hsum] at hrest
        exact hrest
      · have hall : ds.length ≤ skipped + count := by omega
        rw [List.drop_eq_nil_of_le hall, List.drop_eq_nil_of_le]
        rw [List.length_take]
        omega
    | limit count =>
      have hsome : min (skipped + count) maxCount = bound := Option.some.inj hbound
      rw [applyAll_cons, applyAll_cons]
      show applyAll ops (((ds.take bound).drop skipped).take count) =
        applyAll ops ((ds.drop skipped).take count)
      have hsame : ((ds.take bound).drop skipped).take count = (ds.drop skipped).take count := by
        by_cases hsum : skipped + count ≤ maxCount
        · rw [Nat.min_eq_left hsum] at hsome
          rw [← hsome, List.drop_take, List.take_take, Nat.add_sub_cancel_left, Nat.min_self]
        · have hall : ds.take bound = ds := List.take_of_length_le (by omega)
          rw [hall]
      rw [hsame]
    | sort spec => cases hsorts.1

/-- What is fetched is enough for the operations. -/
theorem applyAll_upTo_requiredCount (ops : List CursorOp) (hlength : ds.length ≤ maxCount) :
    applyAll ops (upTo (requiredCount ops) ds) = applyAll ops ds := by
  unfold requiredCount
  by_cases hsorts : ops.any isSort = true
  · rw [if_pos hsorts]
    rfl
  · rw [if_neg hsorts]
    cases hbound : countToLimit 0 ops with
    | none => rfl
    | some bound =>
      exact applyAll_drop_take (Bool.eq_false_iff.2 hsorts) hbound hlength

theorem length_apply_le (op : CursorOp) (ds : List Document) :
    (op.apply ds).length ≤ ds.length := by
  cases op with
  | skip count => exact (List.drop_sublist count ds).length_le
  | limit count => exact (List.take_sublist count ds).length_le
  | sort spec => exact Nat.le_of_eq (List.length_mergeSort ds)

theorem length_applyAll_le (ops : List CursorOp) (ds : List Document) :
    (applyAll ops ds).length ≤ ds.length := by
  induction ops generalizing ds with
  | nil => exact Nat.le_refl _
  | cons op ops ih => exact Nat.le_trans (ih _) (op.length_apply_le ds)

end CursorOp

/-! ## Cursors -/

variable {c : Collection} {db : MemoryDatabase} {q : CompiledQuery} {fuel : Nat}

namespace Collection

/-- The documents that a query matches, in the order of their identities. -/
def matching (c : Collection) (t : Table) (q : CompiledQuery) : List Document :=
  (c.selected t q).map (·.document)

/-- How many entries are read to find so many matches. -/
def readsFor (c : Collection) (t : Table) (q : CompiledQuery) (bound : Option Nat) : Nat :=
  (c.plan q).strategy.fetched c t bound
    (q.lookedAt bound ((c.plan q).strategy.entries c t)).length

theorem length_matching_le (c : Collection) (t : Table) (q : CompiledQuery) :
    (c.matching t q).length ≤ t.size := by
  unfold matching selected CompiledQuery.candidates
  rw [List.length_map]
  exact Nat.le_trans (List.length_filterMap_le _ _) (Strategy.length_entries_le c t _)

theorem length_wanted_le (c : Collection) (t : Table) (bound : Option Nat) (strategy : Strategy) :
    (Candidates.wanted c t bound strategy).length ≤ t.size := by
  unfold Candidates.wanted
  split
  · exact Nat.zero_le _
  · exact Strategy.length_entries_le c t strategy

/-- What is wanted of the matches, and the entries that are looked at for it. -/
theorem upTo_candidates_wanted (c : Collection) (t : Table) (q : CompiledQuery)
    (bound : Option Nat) :
    upTo bound (q.candidates (Candidates.wanted c t bound (c.plan q).strategy)) =
        upTo bound (c.selected t q) ∧
      q.lookedAt bound (Candidates.wanted c t bound (c.plan q).strategy) =
        q.lookedAt bound ((c.plan q).strategy.entries c t) := by
  unfold Candidates.wanted selected
  by_cases hbound : bound = some 0
  · subst hbound
    exact ⟨rfl, by simp⟩
  · rw [if_neg hbound]
    exact ⟨rfl, rfl⟩

end Collection

namespace Cursor

theorem foldl_withOp (ops : List CursorOp) (cursor : Cursor) :
    ops.foldl withOp cursor = { cursor with ops := cursor.ops ++ ops } := by
  induction ops generalizing cursor with
  | nil => rw [List.foldl_nil, List.append_nil]
  | cons op ops ih =>
    rw [List.foldl_cons, ih, withOp]
    simp

def iterate (cursor : Cursor) (fuel : Nat) : Action (List (Except Error Document)) := do
  let stream ← DocumentStream.ofCursor cursor fuel
  stream.collect fuel

/-- A cursor gives what its operations leave over of what is fetched. -/
theorem getMany_reads_entries (hopen : db.memory.closed = false)
    (hbatch : 0 < c.defaults.scanBatch) (hfuel : db.memory.table.size < fuel)
    (q : CompiledQuery) (ops : List CursorOp)
    (hdocs : ∀ e ∈ (c.plan q).strategy.entries c db.memory.table,
      ∃ s, Candidate.ofEntry e = .ok s) :
    (getMany ⟨c, c.plan q, ops⟩ fuel).Finishes (fun ds db' => db.Alike db' ∧
      ds = CursorOp.applyAll ops
        (upTo (CursorOp.requiredCount ops) (c.matching db.memory.table q)) ∧
      db'.memory.entriesRead = db.memory.entriesRead +
        c.readsFor db.memory.table q (CursorOp.requiredCount ops)) db := by
  have hlength := c.length_wanted_le db.memory.table (CursorOp.requiredCount ops)
    (c.plan q).strategy
  obtain ⟨hwanted, hlooked⟩ :=
    c.upTo_candidates_wanted db.memory.table q (CursorOp.requiredCount ops)
  refine .bind ((Candidates.ofPlan_finishes hopen hbatch hdocs).imp ?_)
  rintro candidates db' ⟨hdb', hcandidates⟩
  refine .bind ((Candidates.collect_finishes (hdb'.closed.trans hopen) hcandidates
    (Nat.lt_of_le_of_lt hlength hfuel)).imp ?_)
  rintro found db'' ⟨hdb'', hfound, hread⟩
  have hfound : found = upTo (CursorOp.requiredCount ops) (c.selected db.memory.table q) :=
    hfound.trans hwanted
  have hreads : db''.memory.entriesRead = db.memory.entriesRead +
      (c.plan q).strategy.fetched c db.memory.table (CursorOp.requiredCount ops)
        (q.lookedAt (CursorOp.requiredCount ops) (Candidates.wanted c db.memory.table
          (CursorOp.requiredCount ops) (c.plan q).strategy)).length := hread
  rw [hlooked] at hreads
  refine .pure ⟨hdb'.trans hdb'', ?_, hreads⟩
  rw [hfound, map_upTo]
  rfl

theorem getMany_fetches (h : c.Consistent db.memory.table) (hopen : db.memory.closed = false)
    (hbatch : 0 < c.defaults.scanBatch) (hfuel : db.memory.table.size < fuel)
    (q : CompiledQuery) (ops : List CursorOp) :
    (getMany ⟨c, c.plan q, ops⟩ fuel).Finishes (fun ds db' => db.Alike db' ∧
      ds = CursorOp.applyAll ops
        (upTo (CursorOp.requiredCount ops) (c.matching db.memory.table q)) ∧
      db'.memory.entriesRead = db.memory.entriesRead +
        c.readsFor db.memory.table q (CursorOp.requiredCount ops)) db :=
  getMany_reads_entries hopen hbatch hfuel q ops (h.readable _)

end Cursor

/-! ## Streams -/

namespace DocumentStream

theorem collect_buffered {ds : List Document} (hfuel : ds.length < fuel) :
    ((buffered ds).collect fuel).Finishes (fun items db' => db' = db ∧ items = ds.map .ok) db := by
  induction ds generalizing fuel with
  | nil =>
    rcases fuel with _ | fuel
    · exact absurd hfuel (Nat.not_lt_zero _)
    · exact .pure ⟨rfl, rfl⟩
  | cons d ds ih =>
    rcases fuel with _ | fuel
    · exact absurd hfuel (Nat.not_lt_zero _)
    · rw [List.length_cons] at hfuel
      refine Program.Finishes.bind (.pure ?_)
      refine Program.Finishes.bind ((ih (by omega)).imp ?_)
      rintro items db' ⟨rfl, rfl⟩
      exact .pure ⟨rfl, rfl⟩

theorem collect_streaming {reads : Nat → Nat} {seen rest : List Entry} {candidates : Candidates}
    (hopen : db.memory.closed = false) (h : candidates.Holds db reads q seen rest)
    (hfuel : rest.length < fuel) :
    ((streaming candidates).collect fuel).Finishes (fun items db' => db.Alike db' ∧
      items = ((q.candidates rest).map (·.document)).map .ok) db := by
  induction fuel generalizing candidates seen rest db with
  | zero => exact absurd hfuel (Nat.not_lt_zero _)
  | succ fuel ih =>
    refine Program.Finishes.bind (Program.Finishes.bind
      ((Candidates.next_finishes hopen h hfuel).imp ?_))
    rintro ⟨item, c⟩ db' ⟨hdb', hitem, later, hsplit, hlater, hc⟩
    have hitem : item = (q.candidates rest).head?.map .ok := hitem
    subst hitem
    cases hfound : q.candidates rest with
    | nil => exact .pure (.pure ⟨hdb', rfl⟩)
    | cons candidate found =>
      have hlt := Candidates.length_later_lt h.documents hfound hsplit
      rw [hfound] at hlater
      refine .pure (Program.Finishes.bind ((ih (hdb'.closed.trans hopen) hc (by omega)).imp ?_))
      rintro items db'' ⟨hdb'', rfl⟩
      rw [hlater]
      exact .pure ⟨hdb'.trans hdb'', rfl⟩

end DocumentStream

/-! ## Everything that cursors give -/

namespace Cursor

variable (h : c.Consistent db.memory.table) (hopen : db.memory.closed = false)
  (hbatch : 0 < c.defaults.scanBatch) (hfuel : db.memory.table.size < fuel)
  (hsize : db.memory.table.size ≤ CursorOp.maxCount)

include h hopen hbatch hfuel hsize

theorem getMany_finishes (q : CompiledQuery) (ops : List CursorOp) :
    (getMany ⟨c, c.plan q, ops⟩ fuel).Finishes (fun ds db' => db.Alike db' ∧
      ds = CursorOp.applyAll ops (c.matching db.memory.table q)) db := by
  refine (getMany_fetches h hopen hbatch hfuel q ops).imp ?_
  rintro ds db' ⟨hdb', rfl, _⟩
  refine ⟨hdb', CursorOp.applyAll_upTo_requiredCount ops ?_⟩
  exact Nat.le_trans (c.length_matching_le _ q) hsize

theorem getOne_finishes (q : CompiledQuery) (ops : List CursorOp) :
    (getOne ⟨c, c.plan q, ops⟩ fuel).Finishes (fun d db' => db.Alike db' ∧
      d = (CursorOp.applyAll ops (c.matching db.memory.table q)).head?) db := by
  have hlimited : withOp ⟨c, c.plan q, ops⟩ (.limit 1) = ⟨c, c.plan q, ops ++ [.limit 1]⟩ := rfl
  have hmany := getMany_finishes h hopen hbatch hfuel hsize q (ops ++ [.limit 1])
  rw [← hlimited] at hmany
  refine .bind (hmany.imp ?_)
  rintro ds db' ⟨hdb', rfl⟩
  refine .pure ⟨hdb', ?_⟩
  rw [CursorOp.applyAll_append]
  show (List.take 1 _).head? = _
  rw [List.head?_take, if_neg (by simp)]

theorem count_finishes (q : CompiledQuery) (ops : List CursorOp) :
    (count ⟨c, c.plan q, ops⟩ fuel).Finishes (fun n db' => db.Alike db' ∧
      n = (CursorOp.applyAll ops (c.matching db.memory.table q)).length) db := by
  refine .bind ((getMany_finishes h hopen hbatch hfuel hsize q ops).imp ?_)
  rintro ds db' ⟨hdb', rfl⟩
  exact .pure ⟨hdb', rfl⟩

theorem iterate_finishes (q : CompiledQuery) (ops : List CursorOp) :
    (iterate ⟨c, c.plan q, ops⟩ fuel).Finishes (fun items db' => db.Alike db' ∧
      items = (CursorOp.applyAll ops (c.matching db.memory.table q)).map .ok) db := by
  unfold iterate DocumentStream.ofCursor
  by_cases hempty : ops.isEmpty = true
  · rw [if_pos hempty]
    obtain rfl : ops = [] := List.isEmpty_iff.1 hempty
    refine .bind (.bind ((Collection.ofPlan_finishes h hopen hbatch none).imp ?_))
    rintro candidates db' ⟨hdb', hcandidates⟩
    have hlength := c.length_wanted_le db.memory.table none (c.plan q).strategy
    refine .pure (.lift ((DocumentStream.collect_streaming (hdb'.closed.trans hopen) hcandidates
      (Nat.lt_of_le_of_lt hlength hfuel)).imp ?_))
    rintro items db'' ⟨hdb'', rfl⟩
    exact ⟨hdb'.trans hdb'', rfl⟩
  · rw [if_neg hempty]
    refine .bind (.bind ((getMany_finishes h hopen hbatch hfuel hsize q ops).imp ?_))
    rintro ds db' ⟨hdb', rfl⟩
    have hlength := Nat.le_trans (CursorOp.length_applyAll_le ops _)
      (c.length_matching_le db.memory.table q)
    refine .pure (.lift ((DocumentStream.collect_buffered (Nat.lt_of_le_of_lt hlength hfuel)).imp ?_))
    rintro items db'' ⟨rfl, rfl⟩
    exact ⟨hdb', rfl⟩

end Cursor

end DocumentStore
