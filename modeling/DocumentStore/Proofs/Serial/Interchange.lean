import DocumentStore.Proofs.Serial.Reading

/-!
# Values as text and back

A value is written as JSON with the names of the kinds, and read back as it was, from the tree and from
its text in any format that gives trees back.  If a number in it is not finite, nothing is read back.
-/

namespace DocumentStore

namespace Value

theorem ofJson?_toJson_eq_ite (v : Value) :
    ofJson? v.toJson = if ∀ x ∈ v.numbers, x.isFinite = true then some v else none := by
  by_cases hfinite : ∀ x ∈ v.numbers, x.isFinite = true
  · rw [if_pos hfinite, ofJson?_toJson v hfinite]
  · rw [if_neg hfinite, ofJson?_toJson_eq_none hfinite]

/-- The fields of a document are read back as the document, without a name of its kind. -/
theorem ofList_fieldsOfJson?_fieldsToJson (d : Document) :
    (fieldsOfJson? (fieldsToJson d)).map Document.ofList =
      if ∀ x ∈ fieldNumbers d, x.isFinite = true then some d else none := by
  by_cases hfinite : ∀ x ∈ fieldNumbers d, x.isFinite = true
  · rw [if_pos hfinite, fieldsOfJson?_fieldsToJson d hfinite, Option.map_some,
      Document.ofList_toList]
  · rw [if_neg hfinite]
    cases hread : fieldsOfJson? (fieldsToJson d) with
    | none => rfl
    | some fields => exact absurd (isFinite_of_fieldsOfJson?_fieldsToJson d
        (Option.isSome_of_eq_some hread)) hfinite

/-- The JSON of a value is read back as the value itself, with the same kinds at every place, if all
numbers in it are finite, and as no value otherwise; the fields of a document alone likewise.  The same
holds of the text in any format that gives JSON back, as far as it carries the finite numbers of the value
and goes as deep. -/
theorem interchange_lossless :
    (∀ v : Value, ofJson? v.toJson =
      if ∀ x ∈ v.numbers, x.isFinite = true then some v else none) ∧
    (∀ d : Document, (fieldsOfJson? (fieldsToJson d)).map Document.ofList =
      if ∀ x ∈ fieldNumbers d, x.isFinite = true then some d else none) ∧
    (∀ (f : JsonFormat) (exact : Double → Prop) (depth : Nat), f.Lossless exact depth →
      ∀ v : Value, (∀ x ∈ v.numbers, x.isFinite = true → exact x) → v.toJson.nesting ≤ depth →
        deserialize? f (v.serialize f) =
          if ∀ x ∈ v.numbers, x.isFinite = true then some v else none) :=
  ⟨ofJson?_toJson_eq_ite, ofList_fieldsOfJson?_fieldsToJson,
    fun _ _ _ hf v hexact hnesting =>
      (deserialize?_serialize hf hexact hnesting).trans (ofJson?_toJson_eq_ite v)⟩

/-- Bytes and a list of the same small integers, an integer and a number, a text with the name of null
and null, a document and a list with nothing in them. -/
def lookalikes : Value := .map (Document.ofList
  [("bytes", .bytes [1, 2]), ("items", .list [.integer 1, .integer 2]),
    ("ones", .list [.integer 1, .number ⟨0x3ff0000000000000⟩]),
    ("voids", .list [.string "Null", .null, .map .nil, .list [], .bytes []])])

set_option maxRecDepth 20000 in
/-- Without blanks, all the values that look alike come back as what they are. With a number that is not
finite beside them, nothing comes back. -/
theorem interchange_lossless_of_lookalikes :
    deserialize? .compact (lookalikes.serialize .compact) = some lookalikes ∧
      deserialize? .compact ((Value.list [lookalikes, .number .nan]).serialize .compact) = none := by
  have htext : (Json.double ⟨0x3ff0000000000000⟩).text = "1.0" := by decide +kernel
  have hone : ∀ x ∈ lookalikes.numbers, x.isFinite = true → Json.ReadsBack x := by
    intro x hx _
    obtain rfl : x = ⟨0x3ff0000000000000⟩ :=
      List.mem_singleton.1 (show x ∈ [⟨0x3ff0000000000000⟩] from hx)
    rw [Json.ReadsBack, htext]
    rfl
  have honeAndNan : ∀ x ∈ (Value.list [lookalikes, .number .nan]).numbers, x.isFinite = true →
      Json.ReadsBack x := by
    intro x hx hfinite
    rcases List.mem_append.1 hx with hx | hx
    · exact hone x hx hfinite
    · obtain rfl : x = .nan := List.mem_singleton.1 (show x ∈ [Double.nan] from hx)
      cases hfinite
  have htexts := interchange_lossless.2.2 .compact Json.ReadsBack 127 JsonFormat.compact_lossless
  exact ⟨(htexts lookalikes hone (by decide)).trans (if_pos (by decide)),
    (htexts _ honeAndNan (by decide)).trans (if_neg (by decide))⟩

end Value

end DocumentStore
