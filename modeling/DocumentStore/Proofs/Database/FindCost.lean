import DocumentStore.Proofs.Collection.Fetching
import DocumentStore.Proofs.Collection.StrategyReads
import DocumentStore.Proofs.Database.PlanEquivalence

/-!
# What a search for all matches reads

A search reads nothing if no identity can meet the query, and one entry at most if the query asks for an
identity.  Otherwise it reads one entry for each document whose value in an index equals that of the
query, or one for each document if no index field has a value in the query.  It reads no entry twice,
whatever the size of pages.
-/

namespace DocumentStore

/-! ## Criteria of queries -/

namespace Query

variable {q : Query} {path field : String} {criterion : Criterion} {part : KeyPart}

def Binds (q : Query) (path : String) (criterion : Criterion) : Prop :=
  ∃ criteria, q = .fields criteria ∧ (path, criterion) ∈ criteria.entries

def Seeks (q : Query) (field : String) (v : Value) : Prop :=
  v.isIndexable = true ∧ q.Binds field (.ofValue v)

theorem binds_iff : q.Binds path criterion ↔ q.compile.criterion? path = some criterion := by
  cases q with
  | all => exact iff_of_false (by simp [Binds]) nofun
  | predicate holds => exact iff_of_false (by simp [Binds]) nofun
  | fields criteria => simp [Binds, criterion?_fields, FieldTable.get?_eq_some_iff]

theorem seeks_iff : (q.compile.criterion? field).bind Criterion.indexPart? = some part ↔
    ∃ v, q.Seeks field v ∧ KeyPart.ofValue? v = some part := by
  rw [Option.bind_eq_some_iff]
  constructor
  · rintro ⟨criterion, hcriterion, hpart⟩
    obtain ⟨v, rfl, hv⟩ := Criterion.indexPart?_eq_some_iff.1 hpart
    refine ⟨v, ⟨?_, binds_iff.2 hcriterion⟩, hv⟩
    rw [← KeyPart.isSome_ofValue?, hv]
    rfl
  · rintro ⟨v, ⟨_, hbinds⟩, hv⟩
    exact ⟨_, binds_iff.1 hbinds, Criterion.indexPart?_eq_some_iff.2 ⟨v, rfl, hv⟩⟩

theorem indexPart?_of_not_seeks (h : ∀ v, ¬ q.Seeks field v) :
    (q.compile.criterion? field).bind Criterion.indexPart? = none := by
  rw [Option.eq_none_iff_forall_ne_some]
  intro part hpart
  obtain ⟨v, hseeks, _⟩ := seeks_iff.1 hpart
  exact h v hseeks

end Query

namespace Collection

variable {c : Collection} {t : Table} {q : Query}

/-! ## The cost -/

structure ReadCost (c : Collection) (t : Table) (q : Query) (n : Nat) : Prop where
  /-- The identity is to be absent, or another value than a string. -/
  unmet : ∀ criterion, q.Binds identityField criterion →
    criterion = .absent ∨ criterion.isLiteral = true ∧ (∀ id, criterion ≠ .string id) → n = 0
  /-- The identity is given. -/
  lookup : ∀ id, q.Binds identityField (.string id) →
    n = if (c.contents t id).isSome then 1 else 0
  /-- The first index field for which the query has a value decides. -/
  indexed : (∀ criterion, q.Binds identityField criterion →
      criterion ≠ .absent ∧ criterion.isLiteral = false) →
    ∀ before field after v, c.indexes.fields = before ++ field :: after →
      (∀ f ∈ before, ∀ w, ¬ q.Seeks f w) → q.Seeks field v →
      ∃ ds, c.Lists t (withValue field v) ds ∧ n = ds.length
  everything : (∀ criterion, q.Binds identityField criterion →
      criterion ≠ .absent ∧ criterion.isLiteral = false) →
    (∀ f ∈ c.indexes.fields, ∀ w, ¬ q.Seeks f w) → ∃ ds, c.Lists t .all ds ∧ n = ds.length

theorem readCost_entries (hc : c.WellIndexed) (ht : c.Consistent t) (q : Query) :
    c.ReadCost t q ((c.plan q.compile).strategy.entries c t).length := by
  have hplan : (c.plan q.compile).strategy = .choose q.compile c.indexes := rfl
  rw [hplan]
  constructor
  · intro criterion hbinds hunmet
    rw [Strategy.choose_of_unmet (Query.binds_iff.1 hbinds) hunmet]
    rfl
  · intro id hbinds
    rw [Strategy.choose_of_string (Query.binds_iff.1 hbinds)]
    exact length_byId ht id
  · intro hundecided before field after v hfields hbefore hseeks
    have hfield : field ∈ c.indexes.fields := by
      rw [hfields]
      simp
    obtain ⟨part, hpart⟩ : ∃ part, KeyPart.ofValue? v = some part := by
      rw [← Option.isSome_iff_exists, KeyPart.isSome_ofValue?]
      exact hseeks.1
    rw [Strategy.choose_of_undecided fun criterion h => hundecided criterion (Query.binds_iff.2 h),
      Strategy.ofIndexes_of_first hfields
        (fun f hf => Query.indexPart?_of_not_seeks (hbefore f hf))
        (Query.seeks_iff.2 ⟨v, hseeks, hpart⟩)]
    exact lists_byIndex hc ht hfield hpart
  · intro hundecided hnone
    rw [Strategy.choose_of_undecided fun criterion h => hundecided criterion (Query.binds_iff.2 h),
      Strategy.ofIndexes_of_none fun f hf => Query.indexPart?_of_not_seeks (hnone f hf)]
    exact lists_everything hc ht

end Collection

namespace System

variable {c : Collection} {db : MemoryDatabase} {fuel : Nat}

/-- A search for all matches reads entries of the table, none of them twice, and so many of them as the
identity or the index fields in the query say. -/
theorem find_reads_no_entry_twice (h : Served c db fuel) (q : Query) :
    ∃ ds db', db.run (c.findMany q fuel) = (some (.ok ds), db') ∧
      let read := Program.handed (c.findMany q fuel) db
      db'.memory.entriesRead = db.memory.entriesRead + read.length ∧
      c.ReadCost db.memory.table q read.length ∧
      (∀ e ∈ read, e ∈ db.memory.table.entries) ∧
      read.Pairwise fun e e' => e.key.same e'.key = false := by
  have ht := h.sound.consistent
  obtain ⟨r, db', hrun, ds, rfl, hread⟩ :=
    Collection.findMany_hands ht h.opened h.defaults.scanBatch_pos h.size_lt q
  have hcount := Program.entriesRead_run (c.findMany q fuel) db
  rw [hrun] at hcount
  refine ⟨ds, db', hrun, hcount, ?_⟩
  rw [hread]
  refine ⟨Collection.readCost_entries h.wellIndexed ht q, ?_, ?_⟩
  · intro e he
    exact (Strategy.mem_of_mem_entries he).1
  · apply (Collection.entries_ordered c db.memory.table _).imp
    intro e e' hlt
    simp [Key.same, hlt]

end System

namespace Sample

def namedInStock (n : Int64) : Query :=
  .fields (.ofList [("_id", .predicate Option.isSome), ("stock", .integer n)])

end Sample

namespace System

open Sample in
/-- A predicate on the identity leaves the choice to the index, where the two articles of one stock are
read on pages of one entry. -/
theorem find_reads_no_entry_twice_in_stock : Served articles stocked 9 ∧ ∃ db',
    stocked.run (articles.findMany (namedInStock 7) 9) =
      (some (.ok [article "a" 7, article "b" 7]), db') ∧
    db'.memory.entriesRead = stocked.memory.entriesRead + 2 ∧
    (Program.handed (articles.findMany (namedInStock 7) 9) stocked).Pairwise
      fun e e' => e.key.same e'.key = false := by
  obtain ⟨ds, db', hrun, hcount, hcost, _, hdistinct⟩ :=
    find_reads_no_entry_twice served_stocked (namedInStock 7)
  have hfound : (stocked.run (articles.findMany (namedInStock 7) 9)).1 =
      some (.ok [article "a" 7, article "b" 7]) := rfl
  obtain ⟨listed, hlists, hlength⟩ := hcost.indexed
    (fun criterion hbinds => by
      rw [Query.binds_iff] at hbinds
      cases hbinds
      exact ⟨nofun, rfl⟩)
    [] "stock" [] (.integer 7) rfl nofun ⟨rfl, Query.binds_iff.2 rfl⟩
  have hunique := (served_stocked.lists_matching _).unique hlists rfl
  rw [hlength, hunique] at hcount
  rw [hrun] at hfound
  cases hfound
  exact ⟨served_stocked, db', hrun, hcount, hdistinct⟩

end System

end DocumentStore
