import DocumentStore.Collection.Basic
import DocumentStore.Proofs.Document.Names

/-!
# Documents that a collection takes

The check of a document lets through exactly the documents with a string identity, with names that
paths can hold, with values that an index holds in all index fields, and with the consent of the
validator.
-/

namespace DocumentStore.Collection

variable {c : Collection} {d : Document}

structure Persistable (c : Collection) (d : Document) : Prop where
  identity : ∃ id, d.identity? = some (.string id)
  names : d.Addressable
  indexable : ∀ field ∈ c.indexes.fields, ∀ value, d.get? field = some value →
    value.isIndexable = true
  valid : c.options.validate d = .ok ()

theorem checkIndexField_eq_ok_iff {field : String} :
    checkIndexField d field = .ok () ↔
      ∀ value, d.get? field = some value → value.isIndexable = true := by
  unfold checkIndexField
  cases hvalue : d.get? field with
  | none => simp
  | some value =>
    cases hkind : value.isIndexable with
    | true => simp [hkind]
    | false => simp [hkind]

theorem checkDocument_eq_ok_iff : c.checkDocument d = .ok () ↔ c.Persistable d := by
  rw [checkDocument, Except.check_bind_eq_ok_iff, Except.check_bind_eq_ok_iff,
    Document.checkStorable_eq_ok_iff, Except.forM_eq_ok_iff]
  constructor
  · rintro ⟨⟨hidentity, hnames⟩, hindexes, hvalid⟩
    exact ⟨hidentity, hnames, fun f hf => checkIndexField_eq_ok_iff.1 (hindexes f hf), hvalid⟩
  · intro h
    exact ⟨⟨h.identity, h.names⟩, fun f hf => checkIndexField_eq_ok_iff.2 (h.indexable f hf),
      h.valid⟩

end DocumentStore.Collection
