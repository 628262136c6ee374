import DocumentStore.Collection.Change
import DocumentStore.Proofs.Collection.Persistence

/-!
# What documents are refused for

The checks of a document and the changes of its fields have complaints of their own.  Any other error
that a document is refused with is one of the caller's validator or update function.
-/

namespace DocumentStore

inductive Error.Complains : Error → Prop where
  | emptyKey : Complains .emptyKey
  | unaddressable (rest : String) (through : Kind) : Complains (.unaddressable rest through)
  | identityChanged : Complains .identityChanged
  | identityMissing : Complains .identityMissing
  | identityKind (found : Kind) : Complains (.identityKind found)
  | emptyFieldName (parent : String) : Complains (.emptyFieldName parent)
  | dottedFieldName (name : String) : Complains (.dottedFieldName name)
  | unindexable (field : String) (found : Kind) : Complains (.unindexable field found)

variable {e : Error}

/-! ## Checks -/

theorem complains_of_checkName {parent name : String} (h : checkName parent name = .error e) :
    e.Complains := by
  unfold checkName at h
  split at h
  · cases h
    exact .emptyFieldName parent
  · split at h
    · cases h
      exact .dottedFieldName name
    · cases h

mutual

theorem Value.complains_of_checkNames (path : String) :
    (v : Value) → v.checkNames path = .error e → e.Complains
  | .map d, h => Fields.complains_of_checkNames path d (by rwa [Value.checkNames] at h)
  | .list items, h => Value.complains_of_checkItemNames path items (by rwa [Value.checkNames] at h)
  | .null, h | .bool _, h | .integer _, h | .number _, h | .string _, h | .bytes _, h => by
    rw [Value.checkNames] at h
    cases h

theorem Value.complains_of_checkItemNames (path : String) :
    (items : List Value) → Value.checkItemNames path items = .error e → e.Complains
  | [], h => by
    rw [Value.checkItemNames] at h
    cases h
  | v :: rest, h => by
    rw [Value.checkItemNames] at h
    rcases Except.bind_eq_error_iff.1 h with h | ⟨_, _, h⟩
    · exact Value.complains_of_checkNames path v h
    · exact Value.complains_of_checkItemNames path rest h

theorem Fields.complains_of_checkNames {bound : Option String} (path : String) :
    (d : Fields bound) → d.checkNames path = .error e → e.Complains
  | .nil, h => by
    rw [Fields.checkNames] at h
    cases h
  | .cons name _ value rest, h => by
    rw [Fields.checkNames] at h
    rcases Except.bind_eq_error_iff.1 h with h | ⟨_, _, h⟩
    · exact complains_of_checkName h
    · rcases Except.bind_eq_error_iff.1 h with h | ⟨_, _, h⟩
      · exact Value.complains_of_checkNames _ value h
      · exact Fields.complains_of_checkNames path rest h

end

theorem Document.complains_of_checkStorable {d : Document} (h : d.checkStorable = .error e) :
    e.Complains := by
  rcases Except.bind_eq_error_iff.1 h with h | ⟨_, _, h⟩
  · unfold checkIdentity at h
    split at h
    · cases h
    · cases h
      exact .identityKind _
    · cases h
      exact .identityMissing
  · exact Fields.complains_of_checkNames "" d h

namespace Collection

theorem complains_of_checkIndexField {d : Document} {field : String}
    (h : checkIndexField d field = .error e) : e.Complains := by
  unfold checkIndexField at h
  split at h
  · cases h
  · split at h
    · cases h
    · cases h
      exact .unindexable field _

/-- Behind its own checks a collection asks the validator. -/
theorem complains_or_invalid {c : Collection} {d : Document} (h : c.checkDocument d = .error e) :
    e.Complains ∨ c.options.validate d = .error e := by
  rcases Except.bind_eq_error_iff.1 h with h | ⟨_, _, h⟩
  · exact .inl (Document.complains_of_checkStorable h)
  · rcases Except.bind_eq_error_iff.1 h with h | ⟨_, _, h⟩
    · obtain ⟨field, _, h⟩ := Except.exists_of_forM_eq_error h
      exact .inl (complains_of_checkIndexField h)
    · exact .inr h

end Collection

/-! ## Updates -/

namespace Document

theorem complains_of_put {d : Document} {name : String} {value : Value}
    (h : d.put name value = .error e) : e.Complains := by
  unfold put at h
  split at h
  · cases h
    exact .emptyKey
  · cases h

theorem complains_of_putIn {d : Document} {name : String} {value : Value} {rest : List String}
    (h : d.putIn name value rest = .error e) : e.Complains := by
  -- on the names that are left, each one leads into a document below
  induction rest generalizing d name with
  | nil => exact complains_of_put h
  | cons next rest ih =>
    unfold putIn at h
    split at h
    · cases h
      exact .emptyKey
    · split at h
      · rcases Except.bind_eq_error_iff.1 h with h | ⟨_, _, h⟩
        · exact ih h
        · cases h
      · rcases Except.bind_eq_error_iff.1 h with h | ⟨_, _, h⟩
        · exact ih h
        · cases h
      · rcases Except.bind_eq_error_iff.1 h with h | ⟨_, _, h⟩
        · exact ih h
        · cases h
      · cases h
        exact .unaddressable _ _

end Document

theorem FieldChange.complains_of_apply {path : String} {change : FieldChange} {d : Document}
    (h : change.apply path d = .error e) : e.Complains := by
  cases change with
  | set value => exact Document.complains_of_putIn h
  | unset => cases h
  | transform f =>
    unfold apply at h
    dsimp only at h
    split at h
    · exact Document.complains_of_putIn h
    · cases h

namespace Update

theorem complains_of_applyChanges {changes : List (String × FieldChange)} {d : Document}
    (h : applyChanges changes d = .error e) : e.Complains := by
  induction changes generalizing d with
  | nil => cases h
  | cons p rest ih =>
    rcases Except.bind_eq_error_iff.1 h with h | ⟨_, _, h⟩
    · exact FieldChange.complains_of_apply h
    · exact ih h

/-- Only an update function has errors of its own. -/
theorem complains_or_raised {u : Update} {d : Document} (h : u.apply d = .error e) :
    e.Complains ∨ ∃ f, u = .document f ∧ f d = .error e := by
  rcases Except.bind_eq_error_iff.1 h with h | ⟨changed, _, h⟩
  · cases u with
    | document f => exact .inr ⟨f, rfl, h⟩
    | fields changes => exact .inl (complains_of_applyChanges h)
  · split at h
    · cases h
    · cases h
      exact .inl .identityChanged

end Update

end DocumentStore
