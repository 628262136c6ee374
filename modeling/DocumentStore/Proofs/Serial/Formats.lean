import DocumentStore.Proofs.Serial.Tagged

/-!
# Formats of JSON texts

What is asked of a format is `JsonFormat.Lossless`: a tree is read back from its text, if its integers have
64 bits, its doubles are among those that the format can carry, and it is not nested too deep.  Then the
text of a value says as much as its JSON does (`Value.deserialize?_serialize`).
-/

namespace DocumentStore

namespace Json

mutual

def nesting : Json → Nat
  | array items => itemNesting items + 1
  | object fields => fieldNesting fields + 1
  | null | bool _ | integer _ | double _ | string _ => 0

def itemNesting : List Json → Nat
  | [] => 0
  | j :: rest => max j.nesting (itemNesting rest)

def fieldNesting : List (String × Json) → Nat
  | [] => 0
  | (_, j) :: rest => max j.nesting (fieldNesting rest)

end

mutual

/-- The integers have 64 bits, and the doubles are exact. -/
def Portable (exact : Double → Prop) : Json → Prop
  | integer n => Int64.minValue.toInt ≤ n ∧ n < UInt64.size
  | double x => exact x
  | array items => PortableItems exact items
  | object fields => PortableFields exact fields
  | null | bool _ | string _ => True

def PortableItems (exact : Double → Prop) : List Json → Prop
  | [] => True
  | j :: rest => j.Portable exact ∧ PortableItems exact rest

def PortableFields (exact : Double → Prop) : List (String × Json) → Prop
  | [] => True
  | (_, j) :: rest => j.Portable exact ∧ PortableFields exact rest

end

end Json

/-- What is written is read back, as far as the doubles are exact and the nesting goes. -/
def JsonFormat.Lossless (f : JsonFormat) (exact : Double → Prop) (depth : Nat) : Prop :=
  ∀ j : Json, j.Portable exact → j.nesting ≤ depth → f.read? (f.write j) = some j

namespace Value

variable {exact : Double → Prop}

theorem portable_bytes (bs : List UInt8) :
    Json.PortableItems exact (bs.map fun b => .integer b.toNat) := by
  induction bs with
  | nil => trivial
  | cons b bs ih =>
    have hlt : b.toNat < 256 := b.toNat_lt
    refine ⟨?_, ih⟩
    rw [Json.Portable]
    exact ⟨Int.le_trans (by decide) (Int.natCast_nonneg _), by
      rw [UInt64.size]
      omega⟩

mutual

/-- Only the finite numbers of a value stand as doubles in its JSON. -/
theorem portable_toJson : (v : Value) →
    (∀ x ∈ v.numbers, x.isFinite = true → exact x) → v.toJson.Portable exact
  | null, _ => by rw [toJson, Json.Portable]; trivial
  | bool b, _ => by
    rw [toJson, Json.Portable, Json.PortableFields, Json.PortableFields, Json.Portable]
    trivial
  | integer n, _ => by
    rw [toJson, Json.Portable, Json.PortableFields, Json.PortableFields, Json.Portable]
    exact ⟨⟨n.minValue_le_toInt, Int.lt_of_le_of_lt n.toInt_le (by decide)⟩, trivial⟩
  | number x, h => by
    rw [toJson, Json.Portable, Json.PortableFields, Json.PortableFields]
    by_cases hx : x.isFinite = true
    · rw [if_pos hx, Json.Portable]
      exact ⟨h x (by simp [numbers]) hx, trivial⟩
    · rw [if_neg hx, Json.Portable]
      exact ⟨trivial, trivial⟩
  | string s, _ => by
    rw [toJson, Json.Portable, Json.PortableFields, Json.PortableFields, Json.Portable]
    trivial
  | bytes bs, _ => by
    rw [toJson, Json.Portable, Json.PortableFields, Json.PortableFields, Json.Portable]
    exact ⟨portable_bytes bs, trivial⟩
  | list items, h => by
    rw [toJson, Json.Portable, Json.PortableFields, Json.PortableFields, Json.Portable]
    exact ⟨portable_itemsToJson items (by simpa [numbers] using h), trivial⟩
  | map d, h => by
    rw [toJson, Json.Portable, Json.PortableFields, Json.PortableFields, Json.Portable]
    exact ⟨portable_fieldsToJson d (by simpa [numbers] using h), trivial⟩

theorem portable_itemsToJson : (items : List Value) →
    (∀ x ∈ itemNumbers items, x.isFinite = true → exact x) →
    Json.PortableItems exact (itemsToJson items)
  | [], _ => by rw [itemsToJson, Json.PortableItems]; trivial
  | v :: rest, h => by
    rw [itemNumbers, List.forall_mem_append] at h
    rw [itemsToJson, Json.PortableItems]
    exact ⟨portable_toJson v h.1, portable_itemsToJson rest h.2⟩

theorem portable_fieldsToJson {bound : Option String} : (d : Fields bound) →
    (∀ x ∈ fieldNumbers d, x.isFinite = true → exact x) →
    Json.PortableFields exact (fieldsToJson d)
  | .nil, _ => by rw [fieldsToJson, Json.PortableFields]; trivial
  | .cons name _ v rest, h => by
    rw [fieldNumbers, List.forall_mem_append] at h
    rw [fieldsToJson, Json.PortableFields]
    exact ⟨portable_toJson v h.1, portable_fieldsToJson rest h.2⟩

end

theorem deserialize?_serialize {f : JsonFormat} {depth : Nat} (hf : f.Lossless exact depth) {v : Value}
    (hexact : ∀ x ∈ v.numbers, x.isFinite = true → exact x) (hnesting : v.toJson.nesting ≤ depth) :
    deserialize? f (v.serialize f) = ofJson? v.toJson := by
  rw [deserialize?, serialize, hf v.toJson (portable_toJson v hexact) hnesting]
  rfl

end Value

end DocumentStore
