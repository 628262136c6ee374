import DocumentStore.Proofs.Value.Nesting
import DocumentStore.Serial.Tagged

/-!
# The tags of the interchange form

The name of its kind stands in front of every value, so what looks alike without names is told apart: a
list of small integers and bytes, an integer and a number without a fraction, a text and a document.  From
its JSON a value is read back as it was, unless a number in it is not finite.  JSON has nothing to write
for such a number, and what is written instead is no number.
-/

namespace DocumentStore

/-! ## Documents from their fields -/

theorem Fields.get?_foldl_insert {bound : Option String} (d : Fields bound) (e : Document)
    (name : String) :
    (d.toList.foldl (fun e field => e.insert field.1 field.2) e).get? name =
      (d.get? name).or (e.get? name) := by
  induction d using field_induction generalizing e with
  | nil => rfl
  | cons n above v rest ih =>
    rw [toList, List.foldl_cons, ih, Document.get?_insert, get?_cons]
    by_cases hname : name = n
    · subst hname
      rw [if_pos rfl, if_pos rfl, get?_eq_none_of_le (String.lt_irrefl name)]
      rfl
    · rw [if_neg hname, if_neg hname]

@[simp]
theorem Document.ofList_toList (d : Document) : Document.ofList d.toList = d := by
  apply Fields.ext
  intro name
  exact (Fields.get?_foldl_insert d .nil name).trans Option.or_none

/-! ## Integers and bytes -/

namespace Value

@[simp]
theorem integerOfJson?_toInt (n : Int64) : integerOfJson? (.integer n.toInt) = some n := by
  rw [integerOfJson?, if_pos ⟨n.minValue_le_toInt, n.toInt_le⟩, Int64.ofInt_toInt]

@[simp]
theorem byteOfJson?_toNat (b : UInt8) : byteOfJson? (.integer b.toNat) = some b := by
  have hlt : b.toNat < 256 := b.toNat_lt
  rw [byteOfJson?, if_pos (by omega), Int.toNat_natCast, UInt8.ofNat_toNat]

@[simp]
theorem bytesOfJson?_map (bs : List UInt8) :
    bytesOfJson? (.array (bs.map fun b => .integer b.toNat)) = some bs := by
  rw [bytesOfJson?]
  induction bs with
  | nil => rfl
  | cons b bs ih => rw [List.map_cons, List.mapM_cons, byteOfJson?_toNat, ih]; rfl

/-! ## Numbers in a value -/

mutual

def numbers : Value → List Double
  | number x => [x]
  | list items => itemNumbers items
  | map d => fieldNumbers d
  | null | bool _ | integer _ | string _ | bytes _ => []

def itemNumbers : List Value → List Double
  | [] => []
  | v :: rest => v.numbers ++ itemNumbers rest

def fieldNumbers {bound : Option String} : Fields bound → List Double
  | .nil => []
  | .cons _ _ v rest => v.numbers ++ fieldNumbers rest

end

/-! ## Reading back -/

mutual

theorem ofJson?_toJson : (v : Value) → (∀ x ∈ v.numbers, x.isFinite = true) →
    ofJson? v.toJson = some v
  | null, _ => by rw [toJson, ofJson?]
  | bool b, _ => by rw [toJson, ofJson?]
  | integer n, _ => by rw [toJson, ofJson?, integerOfJson?_toInt]; rfl
  | number x, h => by
    have hx : x.isFinite = true := h x (by simp [numbers])
    rw [toJson, if_pos hx, ofJson?]
    rfl
  | string s, _ => by rw [toJson, ofJson?]
  | bytes bs, _ => by rw [toJson, ofJson?, bytesOfJson?_map]; rfl
  | list items, h => by
    rw [toJson, ofJson?, itemsOfJson?_itemsToJson items (by simpa [numbers] using h)]
    rfl
  | map d, h => by
    rw [toJson, ofJson?, fieldsOfJson?_fieldsToJson d (by simpa [numbers] using h), Option.map_some,
      Document.ofList_toList]

theorem itemsOfJson?_itemsToJson : (items : List Value) →
    (∀ x ∈ itemNumbers items, x.isFinite = true) → itemsOfJson? (itemsToJson items) = some items
  | [], _ => by rw [itemsToJson, itemsOfJson?]
  | v :: rest, h => by
    rw [itemNumbers, List.forall_mem_append] at h
    rw [itemsToJson, itemsOfJson?, ofJson?_toJson v h.1, itemsOfJson?_itemsToJson rest h.2]
    rfl

theorem fieldsOfJson?_fieldsToJson {bound : Option String} : (d : Fields bound) →
    (∀ x ∈ fieldNumbers d, x.isFinite = true) → fieldsOfJson? (fieldsToJson d) = some d.toList
  | .nil, _ => by rw [fieldsToJson, fieldsOfJson?, Fields.toList]
  | .cons name _ v rest, h => by
    rw [fieldNumbers, List.forall_mem_append] at h
    rw [fieldsToJson, fieldsOfJson?, ofJson?_toJson v h.1, fieldsOfJson?_fieldsToJson rest h.2,
      Fields.toList]
    rfl

end

/-! ## Numbers that are not finite -/

mutual

/-- Only a value without numbers that are not finite is read back. -/
theorem isFinite_of_ofJson?_toJson : (v : Value) → (ofJson? v.toJson).isSome = true →
    ∀ x ∈ v.numbers, x.isFinite = true
  | null, _ | bool _, _ | integer _, _ | string _, _ | bytes _, _ => nofun
  | number x, h => by
    rw [numbers, List.forall_mem_singleton]
    by_cases hx : x.isFinite = true
    · exact hx
    · rw [toJson, if_neg hx, ofJson?] at h
      cases h
  | list items, h => by
    rw [toJson, ofJson?, Option.isSome_map] at h
    rw [numbers]
    exact isFinite_of_itemsOfJson?_itemsToJson items h
  | map d, h => by
    rw [toJson, ofJson?, Option.isSome_map] at h
    rw [numbers]
    exact isFinite_of_fieldsOfJson?_fieldsToJson d h

theorem isFinite_of_itemsOfJson?_itemsToJson : (items : List Value) →
    (itemsOfJson? (itemsToJson items)).isSome = true → ∀ x ∈ itemNumbers items, x.isFinite = true
  | [], _ => nofun
  | v :: rest, h => by
    rw [itemsToJson, itemsOfJson?] at h
    obtain ⟨read, hread⟩ := Option.isSome_iff_exists.1 h
    obtain ⟨w, hw, hread⟩ := Option.bind_eq_some_iff.1 hread
    obtain ⟨ws, hws, -⟩ := Option.bind_eq_some_iff.1 hread
    rw [itemNumbers, List.forall_mem_append]
    exact ⟨isFinite_of_ofJson?_toJson v (Option.isSome_of_eq_some hw),
      isFinite_of_itemsOfJson?_itemsToJson rest (Option.isSome_of_eq_some hws)⟩

theorem isFinite_of_fieldsOfJson?_fieldsToJson {bound : Option String} : (d : Fields bound) →
    (fieldsOfJson? (fieldsToJson d)).isSome = true → ∀ x ∈ fieldNumbers d, x.isFinite = true
  | .nil, _ => nofun
  | .cons name _ v rest, h => by
    rw [fieldsToJson, fieldsOfJson?] at h
    obtain ⟨read, hread⟩ := Option.isSome_iff_exists.1 h
    obtain ⟨w, hw, hread⟩ := Option.bind_eq_some_iff.1 hread
    obtain ⟨ws, hws, -⟩ := Option.bind_eq_some_iff.1 hread
    rw [fieldNumbers, List.forall_mem_append]
    exact ⟨isFinite_of_ofJson?_toJson v (Option.isSome_of_eq_some hw),
      isFinite_of_fieldsOfJson?_fieldsToJson rest (Option.isSome_of_eq_some hws)⟩

end

theorem ofJson?_toJson_eq_none {v : Value} (h : ¬ ∀ x ∈ v.numbers, x.isFinite = true) :
    ofJson? v.toJson = none := by
  cases hread : ofJson? v.toJson with
  | none => rfl
  | some w => exact absurd (isFinite_of_ofJson?_toJson v (Option.isSome_of_eq_some hread)) h

end Value

end DocumentStore
