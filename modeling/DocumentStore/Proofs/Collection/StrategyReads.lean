import DocumentStore.Proofs.Collection.Plans
import DocumentStore.Proofs.Query.IndexedValues

/-!
# What strategies read

The criterion at the identity settles the strategy of a query if it is a literal or asks for absence, and
else the first index field for which the query has a literal does.  Each strategy reads one entry for
each document of a kind: an index scan for those with a value equal to the literal, and a scan of the
primary entries for all.
-/

namespace DocumentStore

/-! ## Which strategy is chosen -/

namespace Strategy

variable {q : CompiledQuery} {indexes : IndexSet} {criterion : Criterion}

theorem choose_of_string {id : String} (h : q.criterion? identityField = some (.string id)) :
    choose q indexes = byId id := by
  rw [choose, h]
  rfl

/-- A criterion that no identity meets leaves nothing to read. -/
theorem choose_of_unmet (h : q.criterion? identityField = some criterion)
    (hunmet : criterion = .absent ∨ criterion.isLiteral = true ∧ ∀ id, criterion ≠ .string id) :
    choose q indexes = nothing := by
  have hidentity : ofIdentity? criterion = some nothing := by
    unfold ofIdentity?
    split
    · rename_i id
      rcases hunmet with hunmet | ⟨_, hunmet⟩
      · cases hunmet
      · exact absurd rfl (hunmet id)
    · rfl
    · rename_i hnot
      rcases hunmet with rfl | ⟨hliteral, _⟩
      · exact absurd rfl hnot
      · exact if_pos hliteral
  rw [choose, h, Option.bind_some, hidentity]

/-- Any other criterion leaves the choice to the indexes. -/
theorem choose_of_undecided (h : ∀ criterion, q.criterion? identityField = some criterion →
    criterion ≠ .absent ∧ criterion.isLiteral = false) : choose q indexes = ofIndexes q indexes := by
  have hidentity : (q.criterion? identityField).bind ofIdentity? = none := by
    rw [Option.bind_eq_none_iff]
    intro criterion hcriterion
    obtain ⟨habsent, hliteral⟩ := h criterion hcriterion
    unfold ofIdentity?
    split
    · cases hliteral
    · exact absurd rfl habsent
    · exact if_neg (by simp [hliteral])
  rw [choose, hidentity]

/-- The first index field for which the query has a key part decides. -/
theorem ofIndexes_of_first {before after : List String} {field : String} {part : KeyPart}
    (hfields : indexes.fields = before ++ field :: after)
    (hbefore : ∀ f ∈ before, (q.criterion? f).bind Criterion.indexPart? = none)
    (hfield : (q.criterion? field).bind Criterion.indexPart? = some part) :
    ofIndexes q indexes = byIndex field part := by
  have hnone : before.findSome? (fun f =>
      ((q.criterion? f).bind Criterion.indexPart?).map (byIndex f)) = none := by
    rw [List.findSome?_eq_none_iff]
    intro f hf
    rw [hbefore f hf]
    rfl
  rw [ofIndexes, hfields, List.findSome?_append, hnone, List.findSome?_cons, hfield]
  rfl

theorem ofIndexes_of_none
    (h : ∀ f ∈ indexes.fields, (q.criterion? f).bind Criterion.indexPart? = none) :
    ofIndexes q indexes = everything := by
  have hnone : indexes.fields.findSome? (fun f =>
      ((q.criterion? f).bind Criterion.indexPart?).map (byIndex f)) = none := by
    rw [List.findSome?_eq_none_iff]
    intro f hf
    rw [h f hf]
    rfl
  rw [ofIndexes, hnone]
  rfl

end Strategy

/-! ## Which documents are read -/

namespace Collection

variable {c : Collection} {t : Table} {q : CompiledQuery} {strategy : Strategy}

/-- No strategy reads an entry twice. -/
theorem entries_ordered (c : Collection) (t : Table) (strategy : Strategy) :
    (strategy.entries c t).Pairwise fun e e' => compare e.key e'.key = .lt := by
  cases strategy with
  | nothing => exact .nil
  | byId id =>
    cases hfind : t.find? (c.primaryKey id) with
    | none => simp [Strategy.entries, hfind]
    | some e => simp [Strategy.entries, hfind]
  | byIndex field part => exact t.under_ordered _
  | everything => exact t.under_ordered _

/-- A strategy whose entries are those of the documents that a query accepts reads as many entries as
there are such documents. -/
theorem lists_of_entries (hc : c.WellIndexed) (ht : c.Consistent t)
    (haccepts : ∀ e ∈ strategy.entries c t, ∃ s, Candidate.ofEntry e = .ok s ∧
      q.accepts s.document = true)
    (hcovers : ∀ id s, c.stored? t id = some s → q.accepts s.document = true →
      ∃ e ∈ strategy.entries c t, Candidate.ofEntry e = .ok s) :
    ∃ ds, c.Lists t q ds ∧ (strategy.entries c t).length = ds.length := by
  refine ⟨_, (selects_candidates hc ht hcovers).lists, ?_⟩
  rw [List.length_map]
  exact (CompiledQuery.candidates_of_accepts haccepts).length_eq

theorem lists_everything (hc : c.WellIndexed) (ht : c.Consistent t) :
    ∃ ds, c.Lists t .all ds ∧ (Strategy.everything.entries c t).length = ds.length := by
  apply lists_of_entries hc ht
  · intro e he
    obtain ⟨s, hes⟩ := ht.readable _ e he
    exact ⟨s, hes, rfl⟩
  · intro id s hs _
    exact ⟨_, primary_mem_everything hs, rfl⟩

def withValue (field : String) (v : Value) : CompiledQuery :=
  .predicate fun d => (d.get? field).any (v == ·)

theorem lists_byIndex (hc : c.WellIndexed) (ht : c.Consistent t) {field : String} {v : Value}
    {part : KeyPart} (hfield : field ∈ c.indexes.fields) (hv : KeyPart.ofValue? v = some part) :
    ∃ ds, c.Lists t (withValue field v) ds ∧
      ((Strategy.byIndex field part).entries c t).length = ds.length := by
  have haccepts : ∀ d : Document, (withValue field v).accepts d = true ↔
      ∃ p, indexPart? d field = some p ∧ p.same part = true := by
    intro d
    show (d.get? field).any (v == ·) = true ↔ _
    rw [indexPart?]
    cases d.get? field with
    | none => simp
    | some w =>
      rw [Option.any_some, ← KeyPart.same_ofValue?_iff hv]
      rfl
  apply lists_of_entries hc ht
  · intro e he
    obtain ⟨id, s, _, hmem, hes⟩ := stored?_of_mem_entries ht _ he
    obtain ⟨p, hsame, hp, _⟩ := key_of_mem_byIndex he hmem
    exact ⟨s, hes, (haccepts s.document).2 ⟨p, hp, hsame⟩⟩
  · intro id s hs hd
    obtain ⟨p, hp, hsame⟩ := (haccepts _).1 hd
    exact ⟨_, index_mem_byIndex (ht.entries_mem hs) hfield hp hsame, rfl⟩

/-- An identity is looked up in its primary entry, if a document is stored under it. -/
theorem length_byId (ht : c.Consistent t) (id : String) :
    ((Strategy.byId id).entries c t).length = if (c.contents t id).isSome then 1 else 0 := by
  have hentries : (Strategy.byId id).entries c t = (t.find? (c.primaryKey id)).toList := rfl
  have hcontents : c.contents t id = (c.stored? t id).map (·.document) := rfl
  cases hfind : t.find? (c.primaryKey id) with
  | none =>
    have hs : c.stored? t id = none := by
      rw [stored?, hfind]
      rfl
    rw [hentries, hcontents, hfind, hs]
    rfl
  | some e =>
    obtain ⟨s, hes⟩ := ht.readable (.byId id) e (hentries ▸ hfind ▸ List.mem_singleton_self e)
    have hs : c.stored? t id = some s := by
      rw [stored?, hfind, Option.bind_some, hes]
      rfl
    rw [hentries, hcontents, hfind, hs]
    rfl

end Collection

end DocumentStore
