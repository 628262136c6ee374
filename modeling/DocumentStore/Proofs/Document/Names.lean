import DocumentStore.Document.Names
import DocumentStore.Proofs.Program.Checks

/-!
# Names at every depth

The check of names lets a value through exactly if every name in it, at any depth and also within
lists, is one that a path can hold.
-/

namespace DocumentStore

def PlainName (name : String) : Prop := name ≠ "" ∧ '.' ∉ name.toList

theorem checkName_eq_ok_iff {parent name : String} :
    checkName parent name = .ok () ↔ PlainName name := by
  unfold checkName PlainName
  by_cases hempty : name = ""
  · rw [if_pos hempty]
    simp [hempty]
  · rw [if_neg hempty]
    by_cases hdot : Path.isDotted name = true
    · have hmem : '.' ∈ name.toList := by simpa [Path.isDotted] using hdot
      rw [if_pos hdot]
      simp [hmem]
    · have hmem : '.' ∉ name.toList := by simpa [Path.isDotted] using hdot
      rw [if_neg hdot]
      simp [hempty, hmem]

namespace Value

/-- The documents in a value: the value itself, and those in its items and fields. -/
inductive Contains : Value → Document → Prop where
  | self (d : Document) : Contains (.map d) d
  | item {items : List Value} {v : Value} {d : Document} (hv : v ∈ items) (h : Contains v d) :
    Contains (.list items) d
  | field {e d : Document} {name : String} {v : Value} (hv : (name, v) ∈ e.toList)
    (h : Contains v d) : Contains (.map e) d

/-- Every name in a value, at any depth and also within lists, is one that a path can hold. -/
def Addressable (v : Value) : Prop := ∀ d, v.Contains d → ∀ name ∈ d.names, PlainName name

theorem addressable_list_iff {items : List Value} :
    (Value.list items).Addressable ↔ ∀ v ∈ items, v.Addressable := by
  constructor
  · intro h v hv d hd
    exact h d (.item hv hd)
  · intro h d hd
    cases hd with
    | item hv hd => exact h _ hv d hd

theorem addressable_map_iff {d : Document} :
    (Value.map d).Addressable ↔ ∀ p ∈ d.toList, PlainName p.1 ∧ p.2.Addressable := by
  constructor
  · intro h p hp
    have hname : p.1 ∈ d.names := List.mem_map_of_mem hp
    exact ⟨h d (.self d) p.1 hname, fun e he => h e (.field hp he)⟩
  · intro h e he
    cases he with
    | self =>
      intro name hname
      obtain ⟨p, hp, rfl⟩ := List.mem_map.1 hname
      exact (h p hp).1
    | field hv he => exact (h _ hv).2 e he

theorem addressable_of_flat {v : Value} (hlist : ∀ items, v ≠ .list items)
    (hmap : ∀ d, v ≠ .map d) : v.Addressable := by
  intro d hd
  cases hd with
  | self => exact absurd rfl (hmap _)
  | item => exact absurd rfl (hlist _)
  | field => exact absurd rfl (hmap _)

end Value

/-! ## The check of names -/

mutual

theorem Value.checkNames_eq_ok_iff (path : String) :
    (v : Value) → (v.checkNames path = .ok () ↔ v.Addressable)
  | .map d => by
    rw [Value.checkNames, Value.addressable_map_iff]
    exact Fields.checkNames_eq_ok_iff path d
  | .list items => by
    rw [Value.checkNames, Value.addressable_list_iff]
    exact Value.checkItemNames_eq_ok_iff path items
  | .null | .bool _ | .integer _ | .number _ | .string _ | .bytes _ => by
    rw [Value.checkNames]
    exact iff_of_true rfl (Value.addressable_of_flat (by simp) (by simp))

theorem Value.checkItemNames_eq_ok_iff (path : String) :
    (items : List Value) → (Value.checkItemNames path items = .ok () ↔ ∀ v ∈ items, v.Addressable)
  | [] => by simp [Value.checkItemNames]
  | v :: rest => by
    rw [Value.checkItemNames, Except.check_bind_eq_ok_iff, List.forall_mem_cons,
      Value.checkNames_eq_ok_iff path v, Value.checkItemNames_eq_ok_iff path rest]

theorem Fields.checkNames_eq_ok_iff {bound : Option String} (path : String) :
    (d : Fields bound) →
      (d.checkNames path = .ok () ↔ ∀ p ∈ d.toList, PlainName p.1 ∧ p.2.Addressable)
  | .nil => by simp [Fields.checkNames, Fields.toList]
  | .cons name _ value rest => by
    rw [Fields.checkNames, Except.check_bind_eq_ok_iff, Except.check_bind_eq_ok_iff,
      Fields.toList, List.forall_mem_cons, checkName_eq_ok_iff, and_assoc,
      Value.checkNames_eq_ok_iff _ value, Fields.checkNames_eq_ok_iff path rest]

end

namespace Document

def Addressable (d : Document) : Prop := (Value.map d).Addressable

theorem checkIdentity_eq_ok_iff {d : Document} :
    d.checkIdentity = .ok () ↔ ∃ id, d.identity? = some (.string id) := by
  unfold checkIdentity
  split
  · rename_i id hid
    exact iff_of_true rfl ⟨id, hid⟩
  · rename_i v hne hv
    simp only [reduceCtorEq, false_iff]
    rintro ⟨id, hid⟩
    exact hne id (Option.some.inj (hv.symm.trans hid))
  · rename_i hnone
    simp [hnone]

/-- What the check of a document lets through. -/
theorem checkStorable_eq_ok_iff {d : Document} :
    d.checkStorable = .ok () ↔ (∃ id, d.identity? = some (.string id)) ∧ d.Addressable := by
  rw [checkStorable, Except.check_bind_eq_ok_iff, checkIdentity_eq_ok_iff, Addressable,
    Value.addressable_map_iff, Fields.checkNames_eq_ok_iff]

end Document

end DocumentStore
