import DocumentStore.Proofs.Collection.Cursors
import DocumentStore.Proofs.Database.Runs

/-!
# What a bounded cursor reads

A cursor that skips and limits asks for its documents page by page, in pages that are no larger than
what it can let through.  It reads whole pages, so it can read more entries than it lets through when
these do not fill their last page.
-/

namespace DocumentStore

variable {c : Collection} {db : MemoryDatabase} {fuel : Nat}

/-! ## Queries that match everything -/

namespace CompiledQuery

variable {entries : List Entry}

theorem lookedAt_all (k : Nat) (hdocs : ∀ e ∈ entries, ∃ s, Candidate.ofEntry e = .ok s) :
    all.lookedAt (some k) entries = entries.take k := by
  induction entries generalizing k with
  | nil => rw [lookedAt_nil, List.take_nil]
  | cons e entries ih =>
    obtain ⟨⟨s, hes⟩, hdocs⟩ := List.forall_mem_cons.1 hdocs
    cases k with
    | zero => rw [lookedAt_zero, List.take_zero]
    | succ k =>
      have hall : all.accepts s.document = true := rfl
      have hlimit : some (k + 1) ≠ some 0 := by simp
      rw [lookedAt_cons hlimit hes, if_pos hall, List.take_succ_cons]
      show e :: all.lookedAt (some k) entries = e :: entries.take k
      rw [ih k hdocs]

end CompiledQuery

/-! ## Pages -/

theorem Scan.fetched_of_le {n p i : Nat} (hp : 0 < p) (h : n ≤ i) : fetched n p i = n := by
  have hdiv := Nat.div_add_mod (i + p - 1) p
  have hmod := Nat.mod_lt (i + p - 1) hp
  unfold fetched
  exact Nat.min_eq_left (by omega)

namespace Collection

theorem readsFor_all (h : c.Consistent db.memory.table) (hbatch : 0 < c.defaults.scanBatch)
    (k : Nat) : c.readsFor db.memory.table .all (some k) =
      Scan.fetched (c.matching db.memory.table .all).length (min k c.defaults.scanBatch) k := by
  have hstrategy : (c.plan .all).strategy = .everything := Strategy.choose_all c.indexes
  have hdocs := h.readable .everything
  have hlength : (c.matching db.memory.table .all).length =
      (Strategy.everything.entries c db.memory.table).length := by
    unfold matching selected
    rw [List.length_map, hstrategy, CompiledQuery.length_candidates_all hdocs]
  unfold readsFor
  rw [hstrategy, CompiledQuery.lookedAt_all k hdocs, List.length_take, hlength]
  cases k with
  | zero =>
    rw [Scan.fetched_zero]
    rfl
  | succ k =>
    have hpos : 0 < min (k + 1) c.defaults.scanBatch := Nat.lt_min.2 ⟨Nat.succ_pos k, hbatch⟩
    show Scan.fetched (Strategy.everything.entries c db.memory.table).length
      (min (k + 1) c.defaults.scanBatch)
      (min (k + 1) (Strategy.everything.entries c db.memory.table).length) = _
    rcases Nat.le_total (k + 1) (Strategy.everything.entries c db.memory.table).length with
      hle | hle
    · rw [Nat.min_eq_left hle]
    · rw [Nat.min_eq_right hle, Scan.fetched_of_le hpos (Nat.le_refl _),
        Scan.fetched_of_le hpos hle]

end Collection

namespace System

/-- A cursor that skips and limits gives the documents between, and reads exactly the pages that hold
the first `k` documents, where `k` is the largest number of documents that can matter. -/
theorem bounded_cursor_reads_pages (h : Served c db fuel)
    (hsize : db.memory.table.size ≤ CursorOp.maxCount) (skip limit : Nat) :
    ∃ ds db', c.Lists db.memory.table .all ds ∧
      db.run ((((c.find .all).withOp (.skip skip)).withOp (.limit limit)).getMany fuel) =
        (some (.ok ((ds.drop skip).take limit)), db') ∧
      let k := min (skip + limit) CursorOp.maxCount
      let p := min k c.defaults.scanBatch
      db'.memory.entriesRead = db.memory.entriesRead + min ds.length (p * ((k + p - 1) / p)) := by
  have hconsistent := h.sound.consistent
  have hpos := h.defaults.scanBatch_pos
  have hcursor : ((c.find .all).withOp (.skip skip)).withOp (.limit limit) =
      ⟨c, c.plan .all, [.skip skip, .limit limit]⟩ := rfl
  have hrequired : CursorOp.requiredCount [.skip skip, .limit limit] =
      some (min (skip + limit) CursorOp.maxCount) := by
    show some (min (min (0 + skip) CursorOp.maxCount + limit) CursorOp.maxCount) = _
    congr 1
    omega
  have hlength := Nat.le_trans (c.length_matching_le db.memory.table .all) hsize
  obtain ⟨_, db', hrun, _, rfl, hread⟩ := (Cursor.getMany_fetches hconsistent h.opened hpos
    h.size_lt .all [.skip skip, .limit limit]).run_eq
  rw [CursorOp.applyAll_upTo_requiredCount _ hlength] at hrun
  rw [hrequired, Collection.readsFor_all hconsistent hpos] at hread
  refine ⟨c.matching db.memory.table .all, db',
    (Collection.selects_selected h.wellIndexed hconsistent _).lists, ?_, hread⟩
  rw [hcursor]
  exact hrun

end System

/-! ## A page too many -/

namespace Sample

def notes : Collection := ⟨"notes", ⟨[]⟩, {}, ⟨2, .forUpdates, .forDeletes⟩⟩

def note (id : String) : Document := .ofList [("_id", .string id)]

def noting : List Move :=
  [.start (.insertMany [note "a", note "b", note "c", note "d"]) 9, .request 0]

def noted : MemoryDatabase := (start.play notes noting).2.database

theorem served_noted : System.Served notes noted 9 where
  defined := ⟨"notes", {}, ⟨2, .forUpdates, .forDeletes⟩, rfl⟩
  defaults := ⟨by decide, rfl, rfl⟩
  reachable := ⟨start, _, _, ⟨rfl, fun e he => by cases he⟩, ⟨noting, rfl⟩, rfl⟩
  opened := rfl
  size_lt := by decide

end Sample

open Sample in
/-- For the second and the third of four notes all four are read: the third stands on a page of its
own, together with the fourth. -/
theorem System.bounded_cursor_reads_pages_of_notes : ∃ ds db',
    notes.Lists noted.memory.table .all ds ∧
    noted.run ((((notes.find .all).withOp (.skip 1)).withOp (.limit 2)).getMany 9) =
      (some (.ok [note "b", note "c"]), db') ∧
    db'.memory.entriesRead = noted.memory.entriesRead + 4 := by
  obtain ⟨ds, db', hlists, hrun, hread⟩ :=
    bounded_cursor_reads_pages served_noted (by decide) 1 2
  have hselects := Collection.selects_selected served_noted.wellIndexed
    served_noted.sound.consistent Query.all.compile
  obtain rfl : ds = [note "a", note "b", note "c", note "d"] := hselects.lists.unique hlists rfl
  exact ⟨_, db', hlists, hrun, hread⟩

end DocumentStore
