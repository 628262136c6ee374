import DocumentStore.Collection.Candidates
import DocumentStore.Proofs.Program.Checks
import DocumentStore.Proofs.Store.TableContents
import Mathlib.Logic.Function.Basic

/-!
# The entries of stored documents

A collection is seen through `stored?`, the map from identities to documents that its primary
entries make up.  `Consistent` says that the entries under the name of the collection are those of
the stored documents and no others.  Mutations that replace the entries of one document keep a table
consistent and update the map at one place (`Consistent.replace`).
-/

namespace DocumentStore

/-! ## Valid definitions -/

namespace IndexSet

theorem checkFields_cons {earlier : List String} {field : String} {rest : List String}
    (h : checkFields earlier (field :: rest) = .ok ()) :
    problem? earlier field = none ∧ checkFields (earlier ++ [field]) rest = .ok () := by
  rw [checkFields] at h
  split at h
  · cases h
  · rename_i hp
    exact ⟨hp, h⟩

theorem problem?_eq_none {earlier : List String} {field : String}
    (h : problem? earlier field = none) :
    field ≠ "" ∧ field ≠ identityField ∧ Path.isDotted field = false ∧ field ∉ earlier := by
  unfold problem? at h
  repeat' split at h
  all_goals simp_all

/-- Fields that pass the check are different from each other and from the earlier ones. -/
theorem nodup_of_checkFields {earlier fields : List String}
    (h : checkFields earlier fields = .ok ()) :
    fields.Nodup ∧ ∀ field ∈ fields, field ≠ "" ∧ field ≠ identityField ∧
      Path.isDotted field = false ∧ field ∉ earlier := by
  induction fields generalizing earlier with
  | nil => simp
  | cons field rest ih =>
    obtain ⟨hp, hrest⟩ := checkFields_cons h
    obtain ⟨hnodup, hall⟩ := ih hrest
    refine ⟨List.nodup_cons.2 ⟨fun hmem => ?_, hnodup⟩, ?_⟩
    · exact (hall field hmem).2.2.2 (by simp)
    · intro f hf
      rcases List.mem_cons.1 hf with rfl | hf
      · exact problem?_eq_none hp
      · obtain ⟨h1, h2, h3, h4⟩ := hall f hf
        exact ⟨h1, h2, h3, fun he => h4 (List.mem_append_left _ he)⟩

end IndexSet

namespace Collection

structure WellIndexed (c : Collection) : Prop where
  nodup : c.indexes.fields.Nodup
  nonempty : ∀ field ∈ c.indexes.fields, field ≠ ""
  notIdentity : ∀ field ∈ c.indexes.fields, field ≠ identityField
  undotted : ∀ field ∈ c.indexes.fields, Path.isDotted field = false

/-- What is checked when a collection is defined. -/
theorem define_eq_ok {name : String} {options : CollectionOptions} {defaults : CollectionDefaults}
    {c : Collection} (h : define name options defaults = .ok c) :
    IndexSet.checkFields [] options.indexFields = .ok () ∧
      RetryPolicy.checkOptional options.updateRetry = .ok () ∧
      RetryPolicy.checkOptional options.deleteRetry = .ok () ∧
      c = ⟨name, ⟨options.indexFields⟩, options, defaults⟩ := by
  obtain ⟨indexes, hindexes, h⟩ := Except.bind_eq_ok_iff.1 h
  obtain ⟨hupdate, h⟩ := Except.check_bind_eq_ok_iff.1 h
  obtain ⟨hdelete, h⟩ := Except.check_bind_eq_ok_iff.1 h
  unfold IndexSet.ofFields at hindexes
  by_cases hsize : IndexSet.maxSize < options.indexFields.length
  · rw [if_pos hsize] at hindexes
    cases hindexes
  · rw [if_neg hsize] at hindexes
    obtain ⟨hcheck, hindexes⟩ := Except.check_bind_eq_ok_iff.1 hindexes
    cases hindexes
    cases h
    exact ⟨hcheck, hupdate, hdelete, rfl⟩

theorem wellIndexed_of_define {name : String} {options : CollectionOptions}
    {defaults : CollectionDefaults} {c : Collection} (h : define name options defaults = .ok c) :
    c.WellIndexed := by
  obtain ⟨hcheck, _, _, rfl⟩ := define_eq_ok h
  obtain ⟨hnodup, hall⟩ := IndexSet.nodup_of_checkFields hcheck
  exact ⟨hnodup, fun f hf => (hall f hf).1, fun f hf => (hall f hf).2.1,
    fun f hf => (hall f hf).2.2.1⟩

/-! ## The map of stored documents -/

/-- The document stored under an identity, with the version of its primary entry. -/
def stored? (c : Collection) (t : Table) (id : String) : Option Candidate :=
  (t.find? (c.primaryKey id)).bind fun e => (Candidate.ofEntry e).toOption

theorem ofEntry_eq_ok_iff {e : Entry} {s : Candidate} :
    Candidate.ofEntry e = .ok s ↔ e.value = .map s.document ∧ e.version = s.version := by
  obtain ⟨document, version⟩ := s
  unfold Candidate.ofEntry
  split
  · rename_i d hd
    rw [hd]
    simp
  · rename_i hne
    simp only [reduceCtorEq, false_iff]
    rintro ⟨hv, -⟩
    exact hne _ hv

theorem same_primaryKey_iff {c : Collection} {key : Key} {id : String} :
    key.same (c.primaryKey id) = true ↔ key = c.primaryKey id := by
  constructor
  · intro h
    obtain ⟨parts⟩ := key
    rw [Key.same_comm] at h
    -- three string parts, and no other key is the same key
    rcases parts with _ | ⟨a, _ | ⟨b, _ | ⟨x, _ | ⟨y, rest⟩⟩⟩⟩ <;>
      simp [primaryKey, Layout.primaryKey] at h ⊢
    exact h
  · rintro rfl
    exact Key.same_refl _

/-- A document is stored exactly if its primary entry is in the table. -/
theorem stored?_eq_some_iff {c : Collection} {t : Table} {id : String} {s : Candidate} :
    c.stored? t id = some s ↔ ⟨c.primaryKey id, .map s.document, s.version⟩ ∈ t.entries := by
  unfold stored?
  rw [Option.bind_eq_some_iff]
  constructor
  · rintro ⟨e, he, hs⟩
    obtain ⟨hmem, hkey⟩ := Table.find?_eq_some_iff.1 he
    have hs : Candidate.ofEntry e = .ok s := by
      cases h : Candidate.ofEntry e with
      | error err => simp [h, Except.toOption] at hs
      | ok a => simpa [h, Except.toOption] using hs
    obtain ⟨hvalue, hversion⟩ := ofEntry_eq_ok_iff.1 hs
    rw [← same_primaryKey_iff.1 hkey, ← hvalue, ← hversion]
    exact hmem
  · intro hmem
    exact ⟨_, Table.find?_eq_some_iff.2 ⟨hmem, Key.same_refl _⟩, rfl⟩

def contents (c : Collection) (t : Table) (id : String) : Option Document :=
  (c.stored? t id).map (·.document)

theorem contents_eq_some_iff {c : Collection} {t : Table} {id : String} {d : Document} :
    c.contents t id = some d ↔ ∃ v, c.stored? t id = some ⟨d, v⟩ := by
  rw [contents, Option.map_eq_some_iff]
  constructor
  · rintro ⟨s, hs, rfl⟩
    exact ⟨s.version, hs⟩
  · rintro ⟨v, hs⟩
    exact ⟨⟨d, v⟩, hs, rfl⟩

/-- The keys of the entries of a document: its primary key, then its index keys. -/
def keysOf (c : Collection) (d : Document) (id : String) : List Key :=
  c.primaryKey id :: c.indexKeys d id

def entriesOf (c : Collection) (id : String) (s : Candidate) : List Entry :=
  (c.keysOf s.document id).map fun key => ⟨key, .map s.document, s.version⟩

theorem mem_entriesOf {c : Collection} {id : String} {s : Candidate} {e : Entry} :
    e ∈ c.entriesOf id s ↔
      e.key ∈ c.keysOf s.document id ∧ e.value = .map s.document ∧ e.version = s.version := by
  obtain ⟨key, value, version⟩ := e
  simp only [entriesOf, List.mem_map, Entry.mk.injEq]
  constructor
  · rintro ⟨k, hk, rfl, rfl, rfl⟩
    exact ⟨hk, rfl, rfl⟩
  · rintro ⟨hk, rfl, rfl⟩
    exact ⟨key, hk, rfl, rfl, rfl⟩

theorem mem_indexKeys {c : Collection} {d : Document} {id : String} {key : Key} :
    key ∈ c.indexKeys d id ↔ ∃ field ∈ c.indexes.fields, ∃ part,
      indexPart? d field = some part ∧ key = Layout.indexKey c.name field part id := by
  simp only [indexKeys, List.mem_filterMap, Option.map_eq_some_iff]
  constructor
  · rintro ⟨field, hf, part, hp, rfl⟩
    exact ⟨field, hf, part, hp, rfl⟩
  · rintro ⟨field, hf, part, hp, rfl⟩
    exact ⟨field, hf, part, hp, rfl⟩

theorem primaryKey_mem_keysOf (c : Collection) (d : Document) (id : String) :
    c.primaryKey id ∈ c.keysOf d id :=
  List.mem_cons_self

theorem primary_mem_entriesOf (c : Collection) (id : String) (s : Candidate) :
    ⟨c.primaryKey id, .map s.document, s.version⟩ ∈ c.entriesOf id s :=
  mem_entriesOf.2 ⟨c.primaryKey_mem_keysOf _ _, rfl, rfl⟩

/-! ## Keys of different documents -/

def Owns (c : Collection) (id : String) (key : Key) : Prop :=
  key = c.primaryKey id ∨ ∃ field part, key = Layout.indexKey c.name field part id

theorem owns_of_mem_keysOf {c : Collection} {d : Document} {id : String} {key : Key}
    (h : key ∈ c.keysOf d id) : c.Owns id key := by
  rcases List.mem_cons.1 h with rfl | h
  · exact .inl rfl
  · obtain ⟨field, _, part, _, rfl⟩ := mem_indexKeys.1 h
    exact .inr ⟨field, part, rfl⟩

/-- Different identities have no key in common. -/
theorem Owns.eq_of_same {c : Collection} {id id' : String} {key key' : Key} (h : c.Owns id key)
    (h' : c.Owns id' key') (hsame : key.same key' = true) : id = id' := by
  rcases h with rfl | ⟨field, part, rfl⟩ <;> rcases h' with rfl | ⟨field', part', rfl⟩ <;>
    simp [primaryKey, Layout.primaryKey, Layout.indexKey] at hsame
  · exact hsame.symm
  · exact hsame.2.2.symm

theorem Owns.head? {c : Collection} {id : String} {key : Key} (h : c.Owns id key) :
    key.parts.head? = some (.string c.name) := by
  rcases h with rfl | ⟨field, part, rfl⟩ <;> rfl

/-- An index field and a document with a value there decide the key. -/
theorem same_indexKey_iff {c : Collection} {field field' id : String} {p q : KeyPart} :
    (Layout.indexKey c.name field p id).same (Layout.indexKey c.name field' q id) = true ↔
      field' = field ∧ p.same q = true := by
  simp [Layout.indexKey]

theorem not_same_primaryKey_indexKey (c : Collection) (id id' field : String) (p : KeyPart) :
    ¬ (c.primaryKey id).same (Layout.indexKey c.name field p id') = true := by
  simp [primaryKey, Layout.primaryKey, Layout.indexKey]

/-- The keys of one document are all different. -/
theorem keysOf_distinct {c : Collection} (hc : c.WellIndexed) (d : Document) (id : String) :
    (c.keysOf d id).Pairwise fun a b => ¬ a.same b = true := by
  refine List.pairwise_cons.2 ⟨fun key hkey => ?_, ?_⟩
  · obtain ⟨field, _, part, _, rfl⟩ := mem_indexKeys.1 hkey
    exact not_same_primaryKey_indexKey _ _ _ _ _
  · refine List.pairwise_filterMap.2 (List.Pairwise.imp ?_ hc.nodup)
    intro field field' hne key hkey key' hkey' hsame
    obtain ⟨part, _, rfl⟩ := Option.map_eq_some_iff.1 hkey
    obtain ⟨part', _, rfl⟩ := Option.map_eq_some_iff.1 hkey'
    exact hne (same_indexKey_iff.1 hsame).1.symm

/-! ## Consistent tables -/

/-- The entries under the name of a collection are those of its stored documents, which have the
identities they are stored under and pass the checks of the collection. -/
structure Consistent (c : Collection) (t : Table) : Prop where
  mem_iff : ∀ e, e ∈ t.entries ∧ e.key.parts.head? = some (.string c.name) ↔
    ∃ id s, c.stored? t id = some s ∧ e ∈ c.entriesOf id s
  identity : ∀ {id s}, c.stored? t id = some s → s.document.identity? = some (.string id)
  checked : ∀ {id s}, c.stored? t id = some s → c.checkDocument s.document = .ok ()

/-- A table without entries of the collection stores none of its documents. -/
theorem stored?_of_unused {c : Collection} {t : Table}
    (h : ∀ e ∈ t.entries, e.key.parts.head? ≠ some (.string c.name)) (id : String) :
    c.stored? t id = none := by
  refine Option.eq_none_iff_forall_ne_some.2 fun s hs => ?_
  exact h _ (stored?_eq_some_iff.1 hs) rfl

theorem Consistent.of_unused {c : Collection} {t : Table}
    (h : ∀ e ∈ t.entries, e.key.parts.head? ≠ some (.string c.name)) : c.Consistent t where
  mem_iff e := by
    constructor
    · rintro ⟨he, hhead⟩
      exact absurd hhead (h e he)
    · rintro ⟨id, s, hs, _⟩
      rw [stored?_of_unused h] at hs
      cases hs
  identity hs := by
    rw [stored?_of_unused h] at hs
    cases hs
  checked hs := by
    rw [stored?_of_unused h] at hs
    cases hs

/-- Under the keys of an identity that is not stored there is no entry. -/
theorem Consistent.find?_eq_none {c : Collection} {t : Table} (h : c.Consistent t) {id : String}
    (hfree : c.stored? t id = none) {key : Key} (hkey : c.Owns id key) : t.find? key = none := by
  refine Option.eq_none_iff_forall_ne_some.2 fun e he => ?_
  obtain ⟨hmem, hsame⟩ := Table.find?_eq_some_iff.1 he
  have hhead : e.key.parts.head? = some (.string c.name) := Key.head?_of_same hsame hkey.head?
  obtain ⟨id', s, hs, hes⟩ := (h.mem_iff e).1 ⟨hmem, hhead⟩
  -- the entry belongs to a stored identity, and identities share no keys
  have hid : id' = id := (owns_of_mem_keysOf (mem_entriesOf.1 hes).1).eq_of_same hkey hsame
  rw [hid, hfree] at hs
  cases hs

/-- Mutations that put a document in the place of another one, where either may be missing: they
touch all entries of the old document, write all entries of the new one, and touch no key of another
identity. -/
structure Replaces (c : Collection) (id : String) (old new : Option Document)
    (ms : List Mutation) : Prop where
  distinct : ms.Pairwise fun m n => ¬ m.key.same n.key = true
  owned : ∀ m ∈ ms, c.Owns id m.key
  covers : ∀ d ∈ old, ∀ key ∈ c.keysOf d id, ∃ m ∈ ms, key.same m.key = true
  sets : ∀ key value, .set key value ∈ ms ↔ ∃ d ∈ new, value = .map d ∧ key ∈ c.keysOf d id

namespace Replaces

variable {c : Collection} {t : Table} {id : String} {new : Option Document} {ms : List Mutation}
  {v : Version}

theorem mem_applyAll {old : Option Document} (hr : c.Replaces id old new ms) {e : Entry} :
    e ∈ (t.applyAll v ms).entries ↔ (∃ d ∈ new, e ∈ c.entriesOf id ⟨d, v⟩) ∨
      e ∈ t.entries ∧ ∀ m ∈ ms, ¬ e.key.same m.key = true := by
  rw [Table.mem_applyAll hr.distinct]
  refine or_congr ⟨?_, ?_⟩ Iff.rfl
  · rintro ⟨key, value, hset, rfl⟩
    obtain ⟨d, hd, rfl, hkey⟩ := (hr.sets key value).1 hset
    exact ⟨d, hd, mem_entriesOf.2 ⟨hkey, rfl, rfl⟩⟩
  · rintro ⟨d, hd, he⟩
    obtain ⟨key, value, version⟩ := e
    obtain ⟨hkey, hvalue, hversion⟩ := mem_entriesOf.1 he
    refine ⟨key, value, (hr.sets key value).2 ⟨d, hd, hvalue, hkey⟩, ?_⟩
    rw [show version = v from hversion]

/-- An entry of another identity is not touched. -/
theorem untouched {old : Option Document} (hr : c.Replaces id old new ms) {id' : String}
    (hne : id' ≠ id) {key : Key} (hkey : c.Owns id' key) : ∀ m ∈ ms, ¬ key.same m.key = true :=
  fun m hm hsame => hne (hkey.eq_of_same (hr.owned m hm) hsame)

theorem stored?_applyAll (hr : c.Replaces id ((c.stored? t id).map (·.document)) new ms) :
    c.stored? (t.applyAll v ms) =
      Function.update (c.stored? t) id (new.map fun d => ⟨d, v⟩) := by
  funext id'
  apply Option.ext
  intro s
  rw [stored?_eq_some_iff, hr.mem_applyAll]
  by_cases hid : id' = id
  · subst hid
    rw [Function.update_self, Option.map_eq_some_iff]
    constructor
    · rintro (⟨d, hd, he⟩ | ⟨he, huntouched⟩)
      · obtain ⟨_, hvalue, hversion⟩ := mem_entriesOf.1 he
        obtain ⟨document, version⟩ := s
        cases hvalue
        exact ⟨d, hd, by rw [show version = v from hversion]⟩
      -- the old primary entry is one of those that the mutations touch
      · have hold : s.document ∈ (c.stored? t id').map (·.document) := by
          rw [stored?_eq_some_iff.2 he]
          rfl
        obtain ⟨m, hm, hsame⟩ := hr.covers _ hold _ (c.primaryKey_mem_keysOf _ _)
        exact absurd hsame (huntouched m hm)
    · rintro ⟨d, hd, rfl⟩
      exact .inl ⟨d, hd, c.primary_mem_entriesOf id' ⟨d, v⟩⟩
  · rw [Function.update_of_ne hid, stored?_eq_some_iff]
    constructor
    · rintro (⟨d, _, he⟩ | ⟨he, _⟩)
      · have howns := owns_of_mem_keysOf (mem_entriesOf.1 he).1
        exact absurd (Owns.eq_of_same (.inl rfl) howns (Key.same_refl _)) hid
      · exact he
    · intro he
      exact .inr ⟨he, hr.untouched hid (.inl rfl)⟩

end Replaces

/-- Replacing the entries of one document keeps a table consistent. -/
theorem Consistent.replace {c : Collection} {t : Table} (h : c.Consistent t) {id : String}
    {new : Option Document} {ms : List Mutation}
    (hr : c.Replaces id ((c.stored? t id).map (·.document)) new ms)
    (hnew : ∀ d ∈ new, d.identity? = some (.string id) ∧ c.checkDocument d = .ok ())
    (v : Version) : c.Consistent (t.applyAll v ms) := by
  have hstored := hr.stored?_applyAll (v := v)
  have hdocument : ∀ {id' s}, c.stored? (t.applyAll v ms) id' = some s →
      s.document.identity? = some (.string id') ∧ c.checkDocument s.document = .ok () := by
    intro id' s hs
    rw [hstored] at hs
    by_cases hid : id' = id
    · subst hid
      rw [Function.update_self] at hs
      obtain ⟨d, hd, rfl⟩ := Option.map_eq_some_iff.1 hs
      exact hnew d hd
    · rw [Function.update_of_ne hid] at hs
      exact ⟨h.identity hs, h.checked hs⟩
  refine ⟨fun e => ?_, fun hs => (hdocument hs).1, fun hs => (hdocument hs).2⟩
  rw [hr.mem_applyAll]
  constructor
  · rintro ⟨⟨d, hd, he⟩ | ⟨he, huntouched⟩, hhead⟩
    · refine ⟨id, ⟨d, v⟩, ?_, he⟩
      rw [hstored, Function.update_self]
      exact Option.map_eq_some_iff.2 ⟨d, hd, rfl⟩
    -- an entry of the old table that is still there belongs to another identity
    · obtain ⟨id', s, hs, hes⟩ := (h.mem_iff e).1 ⟨he, hhead⟩
      refine ⟨id', s, ?_, hes⟩
      rw [hstored, Function.update_of_ne, hs]
      rintro rfl
      have hold : s.document ∈ (c.stored? t id').map (·.document) := by
        rw [hs]
        rfl
      obtain ⟨m, hm, hsame⟩ := hr.covers _ hold _ (mem_entriesOf.1 hes).1
      exact huntouched m hm hsame
  · rintro ⟨id', s, hs, hes⟩
    have howns := owns_of_mem_keysOf (mem_entriesOf.1 hes).1
    refine ⟨?_, howns.head?⟩
    rw [hstored] at hs
    by_cases hid : id' = id
    · subst hid
      rw [Function.update_self] at hs
      obtain ⟨d, hd, rfl⟩ := Option.map_eq_some_iff.1 hs
      exact .inl ⟨d, hd, hes⟩
    · rw [Function.update_of_ne hid] at hs
      exact .inr ⟨((h.mem_iff e).2 ⟨id', s, hs, hes⟩).1, hr.untouched hid howns⟩

end Collection

end DocumentStore
