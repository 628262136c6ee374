import DocumentStore.Proofs.Collection.Streaming
import DocumentStore.Proofs.Database.Runs

/-!
# Iteration beside commits

An iteration in pages is safe whatever others commit between its requests: no entry comes twice, each
was stored when its page was fetched, and what was there all the time is not left out.  The same holds
of the documents that a cursor streams.
-/

namespace DocumentStore

namespace Scan

/-- What successive calls on a scan give, of whatever others do in between. -/
structure Iterates (base : Key) (pageSize n : Nat) (start : Shared)
    (items : List (Option (Except Error Entry))) (sh : Shared) : Prop where
  length : items.length = n
  /-- The items are entries, and after the first `none` or error only `none`. -/
  reads : ∃ es ending, Handed es ending items ∧ Reads base pageSize sh.met es ending
  /-- While nobody changes the table, enough calls hand out all entries under the base in order. -/
  still : ∀ t, start.Still t → (t.under base).length < n →
    items = (t.under base).map (fun e => some (.ok e)) ++
      List.replicate (n - (t.under base).length) none

end Scan

namespace System

/-- Iteration in pages is safe beside the commits of others, and so is the stream of a cursor. -/
theorem iteration_safe :
    (∀ (db : MemoryDatabase) (deeds : List (List Deed)) (base : Key) (pageSize n : Nat),
      0 < pageSize → ((Scan.start base pageSize).calls n).Settles
        (Scan.Iterates base pageSize n (.start db deeds)) (.start db deeds)) ∧
    ∀ (db : MemoryDatabase) (deeds : List (List Deed)) (cursor : Cursor) (base : Key),
      cursor.ops = [] → cursor.plan.strategy.scanBase? cursor.collection = some base →
      ∃ k, ∀ fuel, k ≤ fuel → ∀ n,
        (cursor.calls fuel n).Settles (cursor.Streams base n) (.start db deeds) := by
  constructor
  · intro db deeds base pageSize n hpos
    have hmet : (Shared.start db deeds).met = [] ++ [] := rfl
    have hcalls := Scan.calls_settles hpos (Scan.along_start base pageSize) hmet n
    -- what is known if nobody changes the table is carried along
    refine (hcalls.also (Q := fun sh => ∀ t, (Shared.start db deeds).Still t → sh.Still t)
      fun t ht => ht.run (Scan.calls_commitsAtMost n _)).imp ?_
    rintro items sh ⟨⟨met, es, ending, hmet, hlength, hhanded, hreads⟩, hstill⟩
    obtain rfl : sh.met = met := hmet
    have hreads : Scan.Reads base pageSize sh.met es ending := hreads
    refine ⟨hlength, ⟨es, ending, hhanded, hreads⟩, fun t ht hlt => ?_⟩
    rw [← hlength] at hlt ⊢
    exact hreads.items_of_still hhanded (hstill t ht).met hlt
  · intro db deeds cursor base hops hbase
    exact Cursor.calls_settles hops hbase db deeds

end System

namespace Sample

def replacement : List (List Deed) :=
  [[], [.request (.commit ((Batch.empty.delete (articles.primaryKey "a")).set
    (articles.primaryKey "c") (.map (article "c" 7))))]]

end Sample

namespace System

open Sample in
/-- All three articles are handed out although the first is deleted behind the scan. -/
theorem iteration_safe_of_replacement :
    (∃ items sh, ((Scan.start (Layout.primaryBase "articles") 1).calls 4).run Shared.answer
        (.start stocked replacement) = (some items, sh) ∧
      items.map (·.map fun item => item.toOption.map (·.key.text)) =
        [some (some "[\"articles\", \"_id\", \"a\"]"), some (some "[\"articles\", \"_id\", \"b\"]"),
          some (some "[\"articles\", \"_id\", \"c\"]"), none] ∧
      Scan.Iterates (Layout.primaryBase "articles") 1 4 (.start stocked replacement) items sh) ∧
    ∃ k, ∀ fuel, k ≤ fuel → ∀ n, ((articles.find .all).calls fuel n).Settles
      ((articles.find .all).Streams (Layout.primaryBase "articles") n)
      (.start stocked replacement) := by
  refine ⟨?_, iteration_safe.2 stocked replacement (articles.find .all) _ rfl (by decide +kernel)⟩
  obtain ⟨items, sh, hrun, h⟩ := iteration_safe.1 stocked replacement
    (Layout.primaryBase "articles") 1 4 (by decide)
  refine ⟨items, sh, hrun, ?_, h⟩
  have hitems : (((Scan.start (Layout.primaryBase "articles") 1).calls 4).run Shared.answer
      (.start stocked replacement)).1.map (List.map (·.map fun item =>
        item.toOption.map (·.key.text))) = some
      [some (some "[\"articles\", \"_id\", \"a\"]"), some (some "[\"articles\", \"_id\", \"b\"]"),
        some (some "[\"articles\", \"_id\", \"c\"]"), none] := by decide +kernel
  rw [hrun] at hitems
  exact Option.some.inj hitems

end System

end DocumentStore
