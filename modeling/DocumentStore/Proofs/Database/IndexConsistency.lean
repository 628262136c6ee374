import DocumentStore.Proofs.Database.Runs

/-!
# Index consistency

After every run the entries under the name of a collection are those of its stored documents: one
primary entry for each, one entry for each index field that it has, all with one value and one
version, and no others.
-/

namespace DocumentStore

namespace Collection

/-- A document that passes the checks has a key part for each index field that it has. -/
theorem ofValue?_of_checked {c : Collection} {d : Document} {field : String} {value : Value}
    (h : c.checkDocument d = .ok ()) (hfield : field ∈ c.indexes.fields)
    (hvalue : d.get? field = some value) : ∃ part, KeyPart.ofValue? value = some part := by
  obtain ⟨_, h⟩ := Except.check_bind_eq_ok_iff.1 h
  have hcheck := Except.forM_eq_ok_iff.1 (Except.check_bind_eq_ok_iff.1 h).1 field hfield
  unfold checkIndexField at hcheck
  rw [hvalue] at hcheck
  cases value <;> first | exact ⟨_, rfl⟩ | cases hcheck

end Collection

/-- The entries under the name of a collection are exactly those of its stored documents. -/
structure Collection.Indexed (c : Collection) (t : Table) : Prop where
  /-- A stored document has its primary entry, and an entry for each index field that it has. -/
  complete : ∀ id d v, c.stored? t id = some ⟨d, v⟩ →
    d.identity? = some (.string id) ∧
    ⟨Layout.primaryKey c.name id, .map d, v⟩ ∈ t.entries ∧
    ∀ field ∈ c.indexes.fields, ∀ value, d.get? field = some value →
      ∃ part, KeyPart.ofValue? value = some part ∧
        ⟨Layout.indexKey c.name field part id, .map d, v⟩ ∈ t.entries
  /-- Every entry is one of these. -/
  exact : ∀ e ∈ t.entries, e.key.parts.head? = some (.string c.name) →
    ∃ id d v, c.stored? t id = some ⟨d, v⟩ ∧ e.value = .map d ∧ e.version = v ∧
      (e.key = Layout.primaryKey c.name id ∨
        ∃ field ∈ c.indexes.fields, ∃ value part, d.get? field = some value ∧
          KeyPart.ofValue? value = some part ∧ e.key = Layout.indexKey c.name field part id)

theorem Collection.Consistent.indexed {c : Collection} {t : Table} (h : c.Consistent t) :
    c.Indexed t := by
  refine ⟨fun id d v hs => ?_, fun e he hhead => ?_⟩
  · have hmem : ∀ key ∈ c.keysOf d id, (⟨key, .map d, v⟩ : Entry) ∈ t.entries := fun key hkey =>
      ((h.mem_iff _).2 ⟨id, ⟨d, v⟩, hs, mem_entriesOf.2 ⟨hkey, rfl, rfl⟩⟩).1
    refine ⟨h.identity hs, hmem _ (c.primaryKey_mem_keysOf d id), ?_⟩
    intro field hfield value hvalue
    obtain ⟨part, hpart⟩ := ofValue?_of_checked (h.checked hs) hfield hvalue
    refine ⟨part, hpart, hmem _ (List.mem_cons_of_mem _ (mem_indexKeys.2 ?_))⟩
    exact ⟨field, hfield, part, Option.bind_eq_some_iff.2 ⟨value, hvalue, hpart⟩, rfl⟩
  · obtain ⟨id, s, hs, hes⟩ := (h.mem_iff e).1 ⟨he, hhead⟩
    obtain ⟨hkey, hvalue, hversion⟩ := mem_entriesOf.1 hes
    refine ⟨id, s.document, s.version, hs, hvalue, hversion, ?_⟩
    rcases List.mem_cons.1 hkey with hkey | hkey
    · exact .inl hkey
    · obtain ⟨field, hfield, part, hpart, hkey⟩ := mem_indexKeys.1 hkey
      obtain ⟨value, hvalue, hpart⟩ := Option.bind_eq_some_iff.1 hpart
      exact .inr ⟨field, hfield, value, part, hvalue, hpart, hkey⟩

namespace System

/-- Whatever clients do, the entries of a collection stay exactly those of its documents. -/
theorem index_consistency {name : String} {options : CollectionOptions}
    {defaults : CollectionDefaults} {c : Collection}
    (hdefine : Collection.define name options defaults = .ok c) {s₀ s : System} {log : Log}
    (h₀ : Initial c s₀) (h : Run c s₀ log s) : c.Indexed s.database.memory.table :=
  (h.invariant (Collection.wellIndexed_of_define hdefine) h₀).sound.consistent.indexed

open Sample in
/-- An update moves the index entries of two articles, after a first attempt that conflicts. -/
theorem index_consistency_of_move : ∃ log s, Run articles start log s ∧
    s.database.memory.table.entries.map (·.key) = [
      Layout.primaryKey "articles" "a", Layout.primaryKey "articles" "b",
      Layout.indexKey "articles" "stock" (.integer 3) "a",
      Layout.indexKey "articles" "stock" (.integer 3) "b"] ∧
    articles.Indexed s.database.memory.table := by
  let moves := stocking ++ [.contend 1, .start (.updateMany (inStock 7) (restock 3)) 9] ++
    List.replicate 8 (.request 1)
  exact ⟨_, _, ⟨moves, rfl⟩, by decide +kernel,
    index_consistency define_articles initial_start ⟨moves, rfl⟩⟩

end System

end DocumentStore
