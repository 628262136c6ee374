import DocumentStore.Proofs.Database.PlanEquivalence
import DocumentStore.Proofs.Query.Meaning

/-!
# Finding what two queries accept

What a query does to a database depends on the strategy that is chosen for it and on the documents that
it accepts (`Collection.findMany_congr`).  So the order of two queries makes no difference at all, and
both together find what one of them finds, filtered by the other, although their criteria in one table
may be planned in another way.
-/

namespace DocumentStore

/-! ## Queries that accept the same documents -/

theorem Strategy.choose_congr {q q' : CompiledQuery} {indexes : IndexSet}
    (h : ∀ path, q.criterion? path = q'.criterion? path) :
    choose q indexes = choose q' indexes := by
  simp only [choose, ofIndexes, h]

/-- An action behind a program is the action behind each of its results. -/
theorem Action.lift_bind {α β : Type} (p : Program α) (f : α → Action β) :
    ((liftM p : Action α) >>= f) = Bind.bind (m := Program) p f := by
  show (p.bind fun a => .done (.ok a)).bind (ExceptT.bindCont f) = p.bind f
  exact Program.bind_assoc' p _ _

namespace Candidates

variable {q q' : CompiledQuery}

theorem next_congr (h : ∀ d, q.accepts d = q'.accepts d) (fuel : Nat) (source : EntrySource) :
    next fuel ⟨source, q'⟩ =
      (fun r => (r.1, ⟨r.2.source, q'⟩)) <$> next fuel ⟨source, q⟩ := by
  -- on the fuel, as entries that are not accepted are passed over
  induction fuel generalizing source with
  | zero => rfl
  | succ fuel ih =>
    rw [next, next, map_bind]
    refine bind_congr fun r => ?_
    obtain ⟨item, source'⟩ := r
    cases item with
    | none => rfl
    | some item =>
      dsimp only
      cases item >>= Candidate.ofEntry with
      | error e => rfl
      | ok candidate =>
        dsimp only
        rw [← h candidate.document]
        by_cases haccepts : q.accepts candidate.document = true
        · rw [if_pos haccepts, if_pos haccepts]
          rfl
        · rw [if_neg haccepts, if_neg haccepts]
          exact ih source'

theorem collect_congr (h : ∀ d, q.accepts d = q'.accepts d) (fuel : Nat) (limit : Option Nat)
    (source : EntrySource) :
    collect fuel limit ⟨source, q'⟩ = collect fuel limit ⟨source, q⟩ := by
  induction fuel generalizing limit source with
  | zero =>
    by_cases hlimit : limit = some 0
    · rw [hlimit, collect_no_more, collect_no_more]
    · rw [collect_zero hlimit, collect_zero hlimit]
  | succ fuel ih =>
    by_cases hlimit : limit = some 0
    · rw [hlimit, collect_no_more, collect_no_more]
    · have hother := next_congr h (fuel + 1) source
      -- with the same query it says that the query of the candidates stays as it is
      have hself := next_congr (fun d => (rfl : q.accepts d = q.accepts d)) (fuel + 1) source
      rw [collect_succ hlimit, collect_succ hlimit, Action.lift_bind, Action.lift_bind, hother,
        hself]
      simp only [bind_map_left]
      refine bind_congr fun r => ?_
      obtain ⟨_ | _ | candidate, rest⟩ := r
      · rfl
      · rfl
      · exact congrArg (fun p => p >>= fun found => pure (candidate :: found))
          (ih (limit.map (· - 1)) rest.source)

end Candidates

namespace Collection

variable {c : Collection}

theorem findMany_eq (c : Collection) (q : Query) (fuel : Nat) :
    c.findMany q fuel = (do
      let source ← Candidates.sourceOf c none (c.plan q.compile).strategy
      let found ← Candidates.collect fuel none ⟨source, q.compile⟩
      return found.map (·.document)) := by
  have hplan : Candidates.ofPlan c (c.plan q.compile) none = (do
      let source ← Candidates.sourceOf c none (c.plan q.compile).strategy
      return ⟨source, q.compile⟩) := if_neg nofun
  show (Candidates.ofPlan c (c.plan q.compile) none >>= fun candidates =>
    candidates.collect fuel none >>= fun found => pure (found.map (·.document))) = _
  rw [hplan, bind_assoc]
  exact bind_congr fun source => pure_bind _ _

/-- Queries with one strategy that accept the same documents make the same requests, and give the same
documents for the same answers. -/
theorem findMany_congr {q q' : Query}
    (hstrategy : (c.plan q.compile).strategy = (c.plan q'.compile).strategy)
    (haccepts : ∀ d, q.compile.accepts d = q'.compile.accepts d) (fuel : Nat) :
    c.findMany q fuel = c.findMany q' fuel := by
  rw [findMany_eq, findMany_eq, hstrategy]
  refine bind_congr fun source => ?_
  rw [Candidates.collect_congr haccepts]

/-- What is listed for a query, filtered, is listed for a query that asks for the filter too. -/
theorem Lists.filter {t : Table} {q q' : CompiledQuery} {ds : List Document}
    (h : c.Lists t q ds) {holds : Document → Bool}
    (hq : ∀ d, q'.accepts d = (q.accepts d && holds d)) : c.Lists t q' (ds.filter holds) where
  mem_iff d := by
    rw [List.mem_filter, h.mem_iff, hq, Bool.and_eq_true, and_assoc]
  ascending := h.ascending.filter _

end Collection

namespace System

/-- Both queries together accept the documents that each of them accepts, so that up to the documents
accepted their order and grouping and a repeated query make no difference, and neither does the query
for all documents.  Both together are found in either order by the same requests, and where one of them
finds its documents both find those that the other one accepts. -/
theorem conjunction_found (a b : Query) :
    (∀ d, (a.and b).compile.accepts d = (a.compile.accepts d && b.compile.accepts d)) ∧
    (∀ q d, ((a.and b).and q).compile.accepts d = (a.and (b.and q)).compile.accepts d) ∧
    (∀ d, (a.and b).compile.accepts d = (b.and a).compile.accepts d) ∧
    (∀ d, (a.and a).compile.accepts d = a.compile.accepts d) ∧
    (∀ d, (a.and .all).compile.accepts d = a.compile.accepts d ∧
      (Query.all.and a).compile.accepts d = a.compile.accepts d) ∧
    (∀ (c : Collection) (fuel : Nat), c.findMany (a.and b) fuel = c.findMany (b.and a) fuel) ∧
    ∀ {c : Collection} {db : MemoryDatabase} {fuel : Nat}, Served c db fuel →
      ∃ ds, (db.run (c.findMany a fuel)).1 = some (.ok ds) ∧
        (db.run (c.findMany (a.and b) fuel)).1 = some (.ok (ds.filter b.compile.accepts)) ∧
        (db.run (c.findMany (b.and a) fuel)).1 = some (.ok (ds.filter b.compile.accepts)) := by
  have hcomm : ∀ d, (a.and b).compile.accepts d = (b.and a).compile.accepts d := fun d => by
    rw [Query.accepts_and, Query.accepts_and, Bool.and_comm]
  have hfind : ∀ (c : Collection) (fuel : Nat),
      c.findMany (a.and b) fuel = c.findMany (b.and a) fuel := fun c fuel =>
    Collection.findMany_congr (Strategy.choose_congr (Query.criterion?_and_comm a b)) hcomm fuel
  refine ⟨Query.accepts_and a b, fun q d => ?_, hcomm, fun d => ?_, fun d => ⟨?_, rfl⟩, hfind,
    fun {c db fuel} h => ?_⟩
  · rw [Query.accepts_and, Query.accepts_and, Query.accepts_and, Query.accepts_and, Bool.and_assoc]
  · rw [Query.accepts_and, Bool.and_self]
  · rw [Query.accepts_and]
    exact Bool.and_true _
  · have hboth : c.matching db.memory.table (a.and b).compile =
        (c.matching db.memory.table a.compile).filter b.compile.accepts :=
      ((h.lists_matching a.compile).filter (Query.accepts_and a b)).unique (h.lists_matching _) rfl
    refine ⟨_, h.findMany_run a, ?_, ?_⟩
    · rw [h.findMany_run, hboth]
    · rw [← hfind, h.findMany_run, hboth]

open Sample in
/-- The articles of one stock are found in the index, and of these the one with an identity is found by
looking it up. -/
theorem conjunction_found_in_stock :
    (articles.plan (inStock 7).compile).strategy = .byIndex "stock" (.integer 7) ∧
    (articles.plan ((inStock 7).and (.byId "b")).compile).strategy = .byId "b" ∧
    (stocked.run (articles.findMany (inStock 7) 9)).1 =
      some (.ok [article "a" 7, article "b" 7]) ∧
    (stocked.run (articles.findMany ((inStock 7).and (.byId "b")) 9)).1 =
      some (.ok [article "b" 7]) ∧
    (stocked.run (articles.findMany ((Query.byId "b").and (inStock 7)) 9)).1 =
      some (.ok [article "b" 7]) := by
  obtain ⟨_, _, _, _, _, _, hfind⟩ := conjunction_found (inStock 7) (.byId "b")
  obtain ⟨ds, hrun, hand, hand'⟩ := hfind served_stocked
  have hfound : (stocked.run (articles.findMany (inStock 7) 9)).1 =
      some (.ok [article "a" 7, article "b" 7]) := rfl
  rw [hfound] at hrun
  cases hrun
  exact ⟨rfl, rfl, hfound, hand, hand'⟩

end System

end DocumentStore
