import DocumentStore.Proofs.Collection.Scanning
import DocumentStore.Proofs.Document.Paths
import Mathlib.Data.List.Sort

/-!
# Plans

Whatever strategy is chosen for a query, the entries that it reads hold every stored document that the
query accepts, in ascending order of identities.  Filtered by the query they give the same list for
all strategies (`selects_selected`).
-/

namespace DocumentStore

/-! ## Criteria -/

namespace Criterion

/-- A value that meets a criterion with a key part is indexed under that part. -/
theorem ofValue?_of_accepts {criterion : Criterion} {part : KeyPart} {v : Option Value}
    (hpart : criterion.indexPart? = some part) (h : criterion.accepts v = true) :
    ∃ value, v = some value ∧ ∃ p, KeyPart.ofValue? value = some p ∧ p.same part = true := by
  rcases v with _ | value
  · cases criterion <;> cases hpart <;> simp [accepts] at h
  · refine ⟨value, rfl, ?_⟩
    -- the criterion is a literal, and the value is of its kind
    cases criterion <;> cases hpart <;> cases value <;> simp [accepts] at h
    case number.refl.number x y =>
      -- numbers that are equal have one canonical form
      refine ⟨_, rfl, ?_⟩
      rw [KeyPart.ofDouble, KeyPart.ofDouble, Double.canonical_eq_canonical_iff.2 (eq_of_beq h)]
      exact KeyPart.same_refl _
    all_goals
      subst h
      exact ⟨_, rfl, KeyPart.same_refl _⟩

/-- No string is a literal other than itself. -/
theorem eq_string_of_accepts {criterion : Criterion} {s : String}
    (hliteral : criterion.isLiteral = true) (h : criterion.accepts (some (.string s)) = true) :
    criterion = .string s := by
  cases criterion <;> simp [accepts, isLiteral] at h hliteral
  rw [h]

end Criterion

namespace CompiledQuery

/-- A document that is accepted meets the criterion at each path. -/
theorem accepts_criterion {q : CompiledQuery} {d : Document} {path : String}
    {criterion : Criterion} (h : q.accepts d = true) (hc : q.criterion? path = some criterion) :
    criterion.accepts (d.getPath? path) = true := by
  cases q with
  | all => cases hc
  | predicate holds => cases hc
  | fields criteria =>
    have hmem : path ∈ criteria.names := by
      obtain ⟨l₁, l₂, hentries, _⟩ := List.lookup_eq_some_iff.1 hc
      rw [FieldTable.names, hentries]
      simp
    -- all paths of the query are looked at, the identity first
    have hkeys : path ∈ (fields criteria).keys := by
      unfold keys
      by_cases hid : path = identityField
      · subst hid
        exact List.mem_append_left _ (by simp [FieldTable.contains, hmem])
      · exact List.mem_append_right _ (List.mem_filter.2 ⟨hmem, by simpa using hid⟩)
    have hall := List.all_eq_true.1 h path hkeys
    rw [hc] at hall
    exact hall

end CompiledQuery

/-! ## Queries that match everything -/

theorem Strategy.choose_all (indexes : IndexSet) : choose .all indexes = .everything := by
  have hnone : indexes.fields.findSome? (fun field =>
      ((CompiledQuery.all.criterion? field).bind Criterion.indexPart?).map (byIndex field)) =
      none := by
    rw [List.findSome?_eq_none_iff]
    intro field _
    rfl
  show ofIndexes .all indexes = .everything
  rw [ofIndexes, hnone]
  rfl

namespace CompiledQuery

variable {entries : List Entry}

/-- Entries of documents that the query accepts give a candidate each. -/
theorem candidates_of_accepts {q : CompiledQuery}
    (hdocs : ∀ e ∈ entries, ∃ s, Candidate.ofEntry e = .ok s ∧ q.accepts s.document = true) :
    List.Forall₂ (fun e s => Candidate.ofEntry e = .ok s) entries (q.candidates entries) := by
  induction entries with
  | nil => exact .nil
  | cons e entries ih =>
    obtain ⟨⟨s, hes, haccepts⟩, hdocs⟩ := List.forall_mem_cons.1 hdocs
    rw [candidates_cons hes, if_pos haccepts]
    exact .cons hes (ih hdocs)

theorem candidates_all (hdocs : ∀ e ∈ entries, ∃ s, Candidate.ofEntry e = .ok s) :
    List.Forall₂ (fun e s => Candidate.ofEntry e = .ok s) entries (all.candidates entries) := by
  apply candidates_of_accepts
  intro e he
  obtain ⟨s, hes⟩ := hdocs e he
  exact ⟨s, hes, rfl⟩

theorem length_candidates_all (hdocs : ∀ e ∈ entries, ∃ s, Candidate.ofEntry e = .ok s) :
    (all.candidates entries).length = entries.length :=
  (candidates_all hdocs).length_eq.symm

end CompiledQuery

/-! ## Entries of strategies -/

namespace Collection

variable {c : Collection} {t : Table} {q : CompiledQuery} {db : MemoryDatabase}

def IdLess (a b : Document) : Prop :=
  ∃ i j, a.identity? = some (.string i) ∧ b.identity? = some (.string j) ∧ i < j

theorem not_idLess_self (d : Document) : ¬ IdLess d d := by
  rintro ⟨i, j, hi, hj, hlt⟩
  rw [hi] at hj
  cases hj
  exact String.lt_irrefl i hlt

theorem IdLess.asymm {a b : Document} (h : IdLess a b) : ¬ IdLess b a := by
  obtain ⟨i, j, hi, hj, hlt⟩ := h
  rintro ⟨j', i', hj', hi', hlt'⟩
  rw [hi] at hi'
  rw [hj] at hj'
  cases hi'
  cases hj'
  exact String.lt_asymm hlt hlt'

instance : Std.Irrefl IdLess := ⟨not_idLess_self⟩

instance : Std.Antisymm IdLess := ⟨fun _ _ h h' => absurd h' h.asymm⟩

/-- The entries that a strategy reads hold stored documents. -/
theorem stored?_of_mem_entries (h : c.Consistent t) (strategy : Strategy) {e : Entry}
    (he : e ∈ strategy.entries c t) :
    ∃ id s, c.stored? t id = some s ∧ e ∈ c.entriesOf id s ∧ Candidate.ofEntry e = .ok s := by
  obtain ⟨id, s, hs, hes⟩ := (h.mem_iff e).1 (Strategy.mem_of_mem_entries he)
  obtain ⟨_, hvalue, hversion⟩ := mem_entriesOf.1 hes
  exact ⟨id, s, hs, hes, ofEntry_eq_ok_iff.2 ⟨hvalue, hversion⟩⟩

theorem Consistent.readable (h : c.Consistent t) (strategy : Strategy) :
    ∀ e ∈ strategy.entries c t, ∃ s, Candidate.ofEntry e = .ok s := fun _ he =>
  let ⟨_, s, _, _, hes⟩ := stored?_of_mem_entries h strategy he
  ⟨s, hes⟩

theorem Consistent.entries_mem (h : c.Consistent t) {id : String} {s : Candidate}
    (hs : c.stored? t id = some s) : ∀ e ∈ c.entriesOf id s, e ∈ t.entries :=
  fun e he => ((h.mem_iff e).2 ⟨id, s, hs, he⟩).1

theorem primary_mem_everything {id : String} {s : Candidate} (hs : c.stored? t id = some s) :
    ⟨c.primaryKey id, .map s.document, s.version⟩ ∈ Strategy.everything.entries c t := by
  refine Table.mem_under.2 ⟨stored?_eq_some_iff.1 hs, ?_⟩
  simp [Key.isUnder, primaryKey, Layout.primaryKey, Layout.primaryBase, Key.properlyExtends,
    KeyPart.same_refl]

theorem primary_mem_byId {id : String} {s : Candidate} (hs : c.stored? t id = some s) :
    ⟨c.primaryKey id, .map s.document, s.version⟩ ∈ (Strategy.byId id).entries c t :=
  Option.mem_toList.2 (Table.find?_eq_some_iff.2 ⟨stored?_eq_some_iff.1 hs, Key.same_refl _⟩)

theorem index_mem_byIndex {id field : String} {s : Candidate} {p part : KeyPart}
    (hentries : ∀ e ∈ c.entriesOf id s, e ∈ t.entries) (hfield : field ∈ c.indexes.fields)
    (hp : indexPart? s.document field = some p) (hsame : p.same part = true) :
    ⟨Layout.indexKey c.name field p id, .map s.document, s.version⟩ ∈
      (Strategy.byIndex field part).entries c t := by
  have hkey : Layout.indexKey c.name field p id ∈ c.keysOf s.document id :=
    List.mem_cons_of_mem _ (mem_indexKeys.2 ⟨field, hfield, p, hp, rfl⟩)
  refine Table.mem_under.2 ⟨hentries _ (mem_entriesOf.2 ⟨hkey, rfl, rfl⟩), ?_⟩
  simp [Key.isUnder, Layout.indexKey, Layout.indexBase, Key.properlyExtends, KeyPart.same_refl,
    hsame]

/-- The strategy that is chosen for a query reads every document that the query accepts, if it is
stored with all its entries. -/
theorem covers_choose (hc : c.WellIndexed) {id : String} {s : Candidate}
    (hid : s.document.identity? = some (.string id))
    (hentries : ∀ e ∈ c.entriesOf id s, e ∈ t.entries) (haccepts : q.accepts s.document = true) :
    ∃ e ∈ (Strategy.choose q c.indexes).entries c t, Candidate.ofEntry e = .ok s := by
  have hs : c.stored? t id = some s :=
    stored?_eq_some_iff.2 (hentries _ (c.primary_mem_entriesOf id s))
  have hidentity : s.document.get? identityField = some (.string id) := hid
  unfold Strategy.choose
  split
  · rename_i strategy hstrategy
    obtain ⟨criterion, hcriterion, hdecides⟩ := Option.bind_eq_some_iff.1 hstrategy
    have hmeets := CompiledQuery.accepts_criterion haccepts hcriterion
    rw [Document.getPath?_of_undotted (show Path.isDotted identityField = false from rfl),
      hidentity] at hmeets
    -- only a string can be met by an identity, and it is the identity that is looked up
    unfold Strategy.ofIdentity? at hdecides
    split at hdecides
    · cases hdecides
      rename_i id'
      have heq : id' = id := by simpa [Criterion.accepts] using hmeets
      subst heq
      exact ⟨_, primary_mem_byId hs, rfl⟩
    · simp [Criterion.accepts] at hmeets
    · rename_i hnot _
      split at hdecides
      · rename_i hliteral
        exact absurd (Criterion.eq_string_of_accepts hliteral hmeets) (hnot id)
      · cases hdecides
  -- an index is scanned only for a literal, at the key part that its values have
  · unfold Strategy.ofIndexes
    cases hfound : c.indexes.fields.findSome? fun field =>
        ((q.criterion? field).bind Criterion.indexPart?).map (Strategy.byIndex field) with
    | none => exact ⟨_, primary_mem_everything hs, rfl⟩
    | some strategy =>
      obtain ⟨field, hfield, hstrategy⟩ := List.exists_of_findSome?_eq_some hfound
      obtain ⟨part, hpart, rfl⟩ := Option.map_eq_some_iff.1 hstrategy
      obtain ⟨criterion, hcriterion, hpart⟩ := Option.bind_eq_some_iff.1 hpart
      have hmeets := CompiledQuery.accepts_criterion haccepts hcriterion
      rw [Document.getPath?_of_undotted (hc.undotted field hfield)] at hmeets
      obtain ⟨value, hvalue, p, hp, hsame⟩ := Criterion.ofValue?_of_accepts hpart hmeets
      have hindex : indexPart? s.document field = some p :=
        Option.bind_eq_some_iff.2 ⟨value, hvalue, hp⟩
      exact ⟨_, index_mem_byIndex hentries hfield hindex hsame, rfl⟩

/-! ## The order of entries -/

theorem compare_primaryKey (c : Collection) (i j : String) :
    compare (c.primaryKey i) (c.primaryKey j) = compare i j := by
  simp [primaryKey, Layout.primaryKey, Key.compare_cons, KeyPart.compare_string]

theorem compare_indexKey {c : Collection} {field : String} {p p' : KeyPart}
    (h : p.same p' = true) (i j : String) :
    compare (Layout.indexKey c.name field p i) (Layout.indexKey c.name field p' j) =
      compare i j := by
  simp [Layout.indexKey, Key.compare_cons, KeyPart.compare_string, KeyPart.same_iff.1 h]

/-- The entries that a scan of the primary entries reads are primary entries. -/
theorem key_of_mem_everything (hc : c.WellIndexed) {id : String} {s : Candidate} {e : Entry}
    (he : e ∈ Strategy.everything.entries c t) (hes : e ∈ c.entriesOf id s) :
    e.key = c.primaryKey id := by
  rcases List.mem_cons.1 (mem_entriesOf.1 hes).1 with hkey | hkey
  · exact hkey
  · obtain ⟨field, hfield, part, _, hkey⟩ := mem_indexKeys.1 hkey
    have hunder := (Table.mem_under.1 he).2
    rw [hkey] at hunder
    simp [Key.isUnder, Layout.indexKey, Layout.primaryBase] at hunder
    exact absurd hunder.1.symm (hc.notIdentity field hfield)

/-- The entries that an index scan reads are index entries of its field at its value. -/
theorem key_of_mem_byIndex {id field : String} {part : KeyPart} {s : Candidate} {e : Entry}
    (he : e ∈ (Strategy.byIndex field part).entries c t) (hes : e ∈ c.entriesOf id s) :
    ∃ p, p.same part = true ∧ indexPart? s.document field = some p ∧
      e.key = Layout.indexKey c.name field p id := by
  have hunder := (Table.mem_under.1 he).2
  rcases List.mem_cons.1 (mem_entriesOf.1 hes).1 with hkey | hkey
  · rw [hkey] at hunder
    simp [Key.isUnder, primaryKey, Layout.primaryKey, Layout.indexBase] at hunder
    cases hunder.2.2
  · obtain ⟨field', _, p, hp, hkey⟩ := mem_indexKeys.1 hkey
    rw [hkey] at hunder
    simp [Key.isUnder, Layout.indexKey, Layout.indexBase] at hunder
    obtain ⟨rfl, hsame, _⟩ := hunder
    exact ⟨p, hsame, hp, hkey⟩

/-- The documents in the entries of a strategy are in ascending order of identities. -/
theorem entries_ascending (hc : c.WellIndexed) (h : c.Consistent t) (strategy : Strategy) :
    (strategy.entries c t).Pairwise fun e e' => ∀ s s', Candidate.ofEntry e = .ok s →
      Candidate.ofEntry e' = .ok s' → IdLess s.document s'.document := by
  -- entries hold one document each, so that the order of identities passes to documents
  have hless : ∀ {e e' : Entry} {id id' : String} {s s' : Candidate},
      c.stored? t id = some s → Candidate.ofEntry e = .ok s → c.stored? t id' = some s' →
      Candidate.ofEntry e' = .ok s' → compare id id' = .lt → ∀ a a', Candidate.ofEntry e = .ok a →
      Candidate.ofEntry e' = .ok a' → IdLess a.document a'.document := by
    intro e e' id id' s s' hs hes hs' hes' hlt a a' ha ha'
    cases hes.symm.trans ha
    cases hes'.symm.trans ha'
    exact ⟨id, id', h.identity hs, h.identity hs', compareOfLessAndEq_eq_lt.1 hlt⟩
  cases strategy with
  | nothing => exact .nil
  | byId id =>
    cases hfind : t.find? (c.primaryKey id) with
    | none => simp [Strategy.entries, hfind]
    | some e => simp [Strategy.entries, hfind]
  | byIndex field part =>
    refine (t.under_ordered _).imp_of_mem fun {e e'} he he' hlt => ?_
    obtain ⟨id, s, hs, hmem, hes⟩ := stored?_of_mem_entries h (.byIndex field part) he
    obtain ⟨id', s', hs', hmem', hes'⟩ :=
      stored?_of_mem_entries h (.byIndex field part) he'
    -- both entries have the key part that is scanned, and the identities decide
    obtain ⟨p, hp, _, hkey⟩ := key_of_mem_byIndex he hmem
    obtain ⟨p', hp', _, hkey'⟩ := key_of_mem_byIndex he' hmem'
    rw [KeyPart.same_comm] at hp'
    rw [hkey, hkey', compare_indexKey (KeyPart.same_trans hp hp')] at hlt
    exact hless hs hes hs' hes' hlt
  | everything =>
    refine (t.under_ordered _).imp_of_mem fun {e e'} he he' hlt => ?_
    obtain ⟨id, s, hs, hmem, hes⟩ := stored?_of_mem_entries h .everything he
    obtain ⟨id', s', hs', hmem', hes'⟩ := stored?_of_mem_entries h .everything he'
    rw [key_of_mem_everything hc he hmem, key_of_mem_everything hc he' hmem',
      compare_primaryKey] at hlt
    exact hless hs hes hs' hes' hlt

/-! ## What strategies find -/

/-- The candidates are all stored documents that the query accepts, each once, in ascending order of
identities. -/
structure Selects (c : Collection) (t : Table) (q : CompiledQuery) (found : List Candidate) :
    Prop where
  mem_iff : ∀ s, s ∈ found ↔ (∃ id, c.stored? t id = some s) ∧ q.accepts s.document = true
  ascending : found.Pairwise fun s s' => IdLess s.document s'.document

def selected (c : Collection) (t : Table) (q : CompiledQuery) : List Candidate :=
  q.candidates ((c.plan q).strategy.entries c t)

/-- What a query accepts of the entries of a strategy is what it accepts of the stored documents, if
the strategy reads an entry of each of those. -/
theorem selects_candidates (hc : c.WellIndexed) (h : c.Consistent t) {strategy : Strategy}
    (hcovers : ∀ id s, c.stored? t id = some s → q.accepts s.document = true →
      ∃ e ∈ strategy.entries c t, Candidate.ofEntry e = .ok s) :
    c.Selects t q (q.candidates (strategy.entries c t)) where
  mem_iff s := by
    rw [CompiledQuery.mem_candidates]
    constructor
    · rintro ⟨⟨e, he, hes⟩, haccepts⟩
      obtain ⟨id, s', hs', _, hes'⟩ := stored?_of_mem_entries h _ he
      cases hes.symm.trans hes'
      exact ⟨⟨id, hs'⟩, haccepts⟩
    · rintro ⟨⟨id, hs⟩, haccepts⟩
      exact ⟨hcovers id s hs haccepts, haccepts⟩
  ascending := by
    refine List.pairwise_filterMap.2 ((entries_ascending hc h _).imp fun hless s hs s' hs' => ?_)
    exact hless s s' (CompiledQuery.candidate_eq_some_iff.1 hs).1
      (CompiledQuery.candidate_eq_some_iff.1 hs').1

/-- The strategy that is chosen makes no difference to what is found. -/
theorem selects_selected (hc : c.WellIndexed) (h : c.Consistent t) (q : CompiledQuery) :
    c.Selects t q (c.selected t q) :=
  selects_candidates hc h fun _ _ hs haccepts =>
    covers_choose hc (h.identity hs) (h.entries_mem hs) haccepts

/-- The documents are all that are stored and that the query accepts, each once, in ascending order
of identities. -/
structure Lists (c : Collection) (t : Table) (q : CompiledQuery) (ds : List Document) : Prop where
  mem_iff : ∀ d, d ∈ ds ↔ (∃ id, c.contents t id = some d) ∧ q.accepts d = true
  ascending : ds.Pairwise IdLess

theorem Selects.lists {found : List Candidate} (h : c.Selects t q found) :
    c.Lists t q (found.map (·.document)) where
  mem_iff d := by
    rw [List.mem_map]
    constructor
    · rintro ⟨s, hs, rfl⟩
      obtain ⟨⟨id, hid⟩, haccepts⟩ := (h.mem_iff s).1 hs
      exact ⟨⟨id, contents_eq_some_iff.2 ⟨s.version, hid⟩⟩, haccepts⟩
    · rintro ⟨⟨id, hid⟩, haccepts⟩
      obtain ⟨v, hid⟩ := contents_eq_some_iff.1 hid
      exact ⟨⟨d, v⟩, (h.mem_iff _).2 ⟨⟨id, hid⟩, haccepts⟩, rfl⟩
  ascending := List.pairwise_map.2 h.ascending

/-- There is one list only, and it depends on the stored documents alone. -/
theorem Lists.unique {c' : Collection} {t' : Table} {ds ds' : List Document}
    (h : c.Lists t q ds) (h' : c'.Lists t' q ds') (hsame : c'.contents t' = c.contents t) :
    ds' = ds := by
  refine h'.ascending.eq_of_mem_iff h.ascending fun d => ?_
  rw [h.mem_iff, h'.mem_iff, hsame]

/-- The candidates of a plan stand before the entries that its strategy reads. -/
theorem ofPlan_finishes (h : c.Consistent db.memory.table) (hopen : db.memory.closed = false)
    (hbatch : 0 < c.defaults.scanBatch) (bound : Option Nat) :
    (Candidates.ofPlan c (c.plan q) bound).Finishes (fun candidates db' => db.Alike db' ∧
      candidates.Holds db' (fun i => db.memory.entriesRead +
          (c.plan q).strategy.fetched c db.memory.table bound i)
        q [] (Candidates.wanted c db.memory.table bound (c.plan q).strategy)) db :=
  Candidates.ofPlan_finishes hopen hbatch (h.readable _)

end Collection

end DocumentStore
