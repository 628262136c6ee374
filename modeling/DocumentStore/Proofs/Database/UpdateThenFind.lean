import DocumentStore.Proofs.Database.PartialFailure
import DocumentStore.Proofs.Database.PlanEquivalence
import DocumentStore.Proofs.Document.Assigning

/-!
# Updated documents are found

An update made of a document whose names a path can hold makes documents that the query made of the same
document accepts, and a second update changes them no more.  So whatever such an update of many documents
returns, the query then finds it, whether or not it is found in an index that the update has moved it to.
-/

namespace DocumentStore

variable {c : Collection} {db db' : MemoryDatabase} {fuel : Nat} {q : Query} {u : Document}

open Document (Assigns SharesIdentity)

namespace System

/-- What an update of many documents returns are the updated forms of those that match, and they are
stored. -/
theorem Served.updateMany_changes (h : Served c db fuel)
    (hquiet : db.settings.store.remaining = 0) {update : Update} {ds : List Document}
    (hrun : db.run (c.updateMany q update fuel) = (some (.ok ds), db')) :
    List.Forall₂ (fun d d' => update.apply d = .ok d') (c.matching db.memory.table q.compile) ds ∧
      db'.memory.closed = false ∧ c.Consistent db'.memory.table ∧
      ∀ d' ∈ ds, (∃ d, update.apply d = .ok d') ∧
        ∃ id, c.contents db'.memory.table id = some d' := by
  have hc := h.wellIndexed
  have ht := h.sound.consistent
  have hselects := Collection.selects_selected hc ht q.compile
  obtain ⟨r, db'', hrun', hends⟩ := Collection.change_changes hc ht h.opened hquiet
    h.defaults.scanBatch_pos h.size_lt (q := q) (h.retryPolicy (.update update) false) rfl
  cases hrun.symm.trans hrun'
  obtain ⟨rfl, hopen, hrewrites⟩ := hends
  have hsucceeds := succeeds_of_rewrites hc ht hrewrites
  refine ⟨?_, hopen, hrewrites.consistent hc ht, fun d' hd' => ?_⟩
  · rw [Collection.matching, List.forall₂_map_left_iff, List.forall₂_map_right_iff,
      List.forall₂_same]
    exact fun s hs => (hsucceeds s hs).applied
  · obtain ⟨s, hs, rfl⟩ := List.mem_map.1 hd'
    obtain ⟨id, hid⟩ := ((hselects.mem_iff s).1 hs).1
    have hput := (hrewrites.alters hc ht hselects.ascending).changed hs hid
    exact ⟨⟨s.document, (hsucceeds s hs).applied⟩, id, hput⟩

/-- The update made of a document succeeds on exactly the documents whose identity it keeps, gives them
its fields and changes nothing else.  The query made of the same document accepts them then, and after
an update of all that match some query it finds the updated ones. -/
theorem updated_documents_found (hnames : ∀ name ∈ u.names, name ≠ "" ∧ '.' ∉ name.toList) :
    (∀ d, (SharesIdentity u d → ∃ d', (Update.ofDocument u).apply d = .ok d' ∧
        Assigns u d d' ∧ (Query.ofDocument u).compile.accepts d' = true ∧
        (Update.ofDocument u).apply d' = .ok d') ∧
      (¬ SharesIdentity u d →
        ∃ e, (Update.ofDocument u).apply d = .error e ∧ e.kind = .validation)) ∧
    ∀ {c db fuel}, Served c db fuel → db.settings.store.remaining = 0 → ∀ q ds db',
      db.run (c.updateMany q (.ofDocument u) fuel) = (some (.ok ds), db') →
      (∃ old, c.Lists db.memory.table q.compile old ∧ List.Forall₂ (Assigns u) old ds) ∧
      ∀ fuel', db'.memory.table.size < fuel' → ∃ found,
        (db'.run (c.findMany (.ofDocument u) fuel')).1 = some (.ok found) ∧ ∀ d ∈ ds, d ∈ found := by
  refine ⟨fun d => ⟨fun hshares => ?_, fun hother => ?_⟩, ?_⟩
  · obtain ⟨d', happly, hassigns⟩ := Update.exists_apply_ofDocument hnames hshares
    exact ⟨d', happly, hassigns, Update.accepts_of_assigns hnames hassigns,
      Update.apply_ofDocument_again hnames happly⟩
  · exact ⟨_, Update.apply_ofDocument_of_not_sharesIdentity hnames hother, rfl⟩
  · intro c db fuel h hquiet q ds db' hrun
    obtain ⟨happlied, hopen, hconsistent, hstored⟩ := h.updateMany_changes hquiet hrun
    have hassigns : List.Forall₂ (Assigns u) (c.matching db.memory.table q.compile) ds :=
      happlied.imp fun _ _ happly => ((Update.apply_ofDocument_eq_ok_iff hnames).1 happly).1
    refine ⟨⟨_, h.lists_matching q.compile, hassigns⟩, fun fuel' hfuel' => ?_⟩
    obtain ⟨found, _, hfind, _, hlists⟩ := (Collection.findMany_finishes h.wellIndexed hconsistent
      hopen h.defaults.scanBatch_pos hfuel' (.ofDocument u)).run_eq
    refine ⟨found, by rw [hfind], fun d hd => ?_⟩
    obtain ⟨⟨old, happly⟩, hid⟩ := hstored d hd
    obtain ⟨hnew, _⟩ := (Update.apply_ofDocument_eq_ok_iff hnames).1 happly
    exact (hlists.mem_iff d).2 ⟨hid, Update.accepts_of_assigns hnames hnew⟩

end System

namespace Sample

/-- What was counted: another stock, a weight that is no number, and a list that holds negative zero
below a name of its own. -/
def recount : Document := .ofList
  [("marks", .map (Document.ofList [("low", .list [.null, .number ⟨0x8000000000000000⟩])])),
    ("stock", .integer 8), ("weight", .number ⟨0x7ff8000000000000⟩)]

end Sample

namespace System

open Sample in
/-- The articles of one stock, which the update moves to another one in the index, are found there. -/
theorem updated_documents_found_of_recount :
    (∀ name ∈ recount.names, name ≠ "" ∧ '.' ∉ name.toList) ∧ Served articles stocked 9 ∧
    stocked.settings.store.remaining = 0 ∧ ∃ ds db',
      stocked.run (articles.updateMany (inStock 7) (.ofDocument recount) 9) =
        (some (.ok ds), db') ∧
      List.Forall₂ (Assigns recount) [article "a" 7, article "b" 7] ds ∧
      ∃ found, (db'.run (articles.findMany (.ofDocument recount) 9)).1 = some (.ok found) ∧
        ∀ d ∈ ds, d ∈ found := by
  let update := articles.updateMany (inStock 7) (.ofDocument recount) 9
  have hnames : ∀ name ∈ recount.names, name ≠ "" ∧ '.' ∉ name.toList := by decide +kernel
  have hok : (stocked.run update).1.any (·.toBool) = true := by decide +kernel
  have hsize : (stocked.run update).2.memory.table.size < 9 := by decide +kernel
  obtain ⟨_, hmany⟩ := updated_documents_found hnames
  rcases hrun : stocked.run update with ⟨_ | e | ds, db'⟩
  · rw [hrun] at hok
    cases hok
  · rw [hrun] at hok
    cases hok
  · rw [hrun] at hsize
    obtain ⟨⟨old, hlists, hassigns⟩, hfind⟩ := hmany served_stocked rfl (inStock 7) ds db' hrun
    obtain rfl : old = [article "a" 7, article "b" 7] :=
      (served_stocked.lists_matching (inStock 7).compile).unique hlists rfl
    exact ⟨hnames, served_stocked, rfl, ds, db', rfl, hassigns, hfind 9 hsize⟩

end System

end DocumentStore
