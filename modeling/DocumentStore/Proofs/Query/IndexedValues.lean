import DocumentStore.Proofs.Double.Exact
import DocumentStore.Proofs.Query.Literals

/-!
# Equality of indexed values

A value that an index can hold is compared with others in three ways: as a value, by the key part that
it is indexed under, and by a criterion with a key part.  Only the parts of numbers are brought into one
form beforehand, and yet the three agree (`Value.equalities_agree`).  Numbers are equal if they are both
NaN or have one exact value, whatever their bits, and no value equals one of another kind.
-/

namespace DocumentStore

/-! ## Literals with a key part -/

/-- The criteria with a key part are those that ask for a value with this key part. -/
theorem Criterion.indexPart?_eq_some_iff {criterion : Criterion} {part : KeyPart} :
    criterion.indexPart? = some part ↔
      ∃ v, criterion = .ofValue v ∧ KeyPart.ofValue? v = some part := by
  constructor
  · intro h
    cases criterion with
    | string s => exact ⟨.string s, rfl, h⟩
    | integer n => exact ⟨.integer n, rfl, h⟩
    | number x => exact ⟨.number x, rfl, h⟩
    | bool b => exact ⟨.bool b, rfl, h⟩
    | bytes bs => exact ⟨.bytes bs, rfl, h⟩
    | _ => cases h
  · rintro ⟨v, rfl, hv⟩
    cases v with
    | null => cases hv
    | list items => cases hv
    | map d => cases hv
    | _ => exact hv

namespace KeyPart

theorem isSome_ofValue? (v : Value) : (ofValue? v).isSome = v.isIndexable := by
  cases v <;> rfl

theorem isLeaf_of_ofValue? {v : Value} {part : KeyPart} (h : ofValue? v = some part) : v.IsLeaf := by
  cases v with
  | list items => cases h
  | map d => cases h
  | _ => exact ⟨nofun, nofun⟩

theorem same_of_ofValue?_eq {v w : Value} {part : KeyPart} (hv : ofValue? v = some part)
    (hw : ofValue? w = some part) : v.same w = true := by
  -- values of different kinds have different parts
  cases v <;> simp only [ofValue?, ofDouble, Option.some.injEq, reduceCtorEq] at hv <;> subst hv <;>
    cases w <;> simp only [ofValue?, ofDouble, Option.some.injEq, reduceCtorEq] at hw
  case number.number x y =>
    rw [number.injEq, Double.canonical_eq_canonical_iff] at hw
    simpa [Value.same, Double.same] using hw.symm
  all_goals
    cases hw
    exact Value.same_refl _

/-- Values have the same key part exactly if they are equal. -/
theorem same_ofValue?_iff {v w : Value} {part : KeyPart} (hv : ofValue? v = some part) :
    (∃ p, ofValue? w = some p ∧ p.same part = true) ↔ (v == w) = true := by
  constructor
  · intro h
    obtain ⟨p, hw, hsame⟩ := h
    obtain rfl : p = part := eq_of_same hw hv hsame
    exact same_of_ofValue?_eq hv hw
  · intro h
    have hadmits : v.Admits w := (Value.admits_iff_of_isLeaf (isLeaf_of_ofValue? hv)).2 h
    have hpart : (Criterion.ofValue v).indexPart? = some part :=
      Criterion.indexPart?_eq_some_iff.2 ⟨v, rfl, hv⟩
    obtain ⟨w', hw', hp⟩ := Criterion.ofValue?_of_accepts hpart hadmits
    rw [Option.some.inj hw']
    exact hp

end KeyPart

/-! ## Parts of two values -/

namespace KeyPart

variable {v w : Value}

def SameOrNone : Option KeyPart → Option KeyPart → Prop :=
  Option.Rel fun p q => p.same q = true

theorem SameOrNone.symm {o o' : Option KeyPart} (h : SameOrNone o o') : SameOrNone o' o := by
  cases h with
  | none => exact .none
  | some hsame => exact .some (by rwa [same_comm])

theorem sameOrNone_some_iff {o : Option KeyPart} {part : KeyPart} :
    SameOrNone o (some part) ↔ ∃ p, o = some p ∧ p.same part = true := by
  constructor
  · rintro ⟨hsame⟩
    exact ⟨_, rfl, hsame⟩
  · rintro ⟨p, rfl, hsame⟩
    exact .some hsame

/-- A value that an index can hold shares its part with the values that it equals, and with no others. -/
theorem sameOrNone_ofValue?_iff (hv : v.isIndexable = true) :
    SameOrNone (ofValue? v) (ofValue? w) ↔ (v == w) = true := by
  rw [← isSome_ofValue?] at hv
  obtain ⟨part, hpart⟩ := Option.isSome_iff_exists.1 hv
  rw [hpart, ← same_ofValue?_iff hpart, ← sameOrNone_some_iff]
  exact ⟨.symm, .symm⟩

/-- Equal values are indexed under one part, the same in every bit, or not at all. -/
theorem ofValue?_eq_of_same (h : (v == w) = true) : ofValue? v = ofValue? w := by
  have hsome : (ofValue? w).isSome = (ofValue? v).isSome := by
    rw [isSome_ofValue?, isSome_ofValue?, Value.isIndexable, Value.isIndexable,
      Value.kind_eq_of_same h]
  cases hv : ofValue? v with
  | none =>
    rw [hv] at hsome
    exact (Option.isNone_iff_eq_none.1 (Option.isSome_eq_false_iff.1 hsome)).symm
  | some part =>
    obtain ⟨p, hp, hsame⟩ := (same_ofValue?_iff hv).2 h
    -- numbers are brought into one form for their parts, so the same part is an equal one
    rw [hp, eq_of_same hp hv hsame]

end KeyPart

/-- A criterion with a key part accepts the values with this part. -/
theorem Criterion.accepts_iff_sameOrNone {criterion : Criterion} {part : KeyPart} {v : Value}
    (h : criterion.indexPart? = some part) :
    criterion.accepts (some v) = true ↔ KeyPart.SameOrNone (KeyPart.ofValue? v) (some part) := by
  obtain ⟨asked, rfl, hasked⟩ := indexPart?_eq_some_iff.1 h
  -- what is asked for holds no other values, so that only an equal value is accepted
  have hadmits : (ofValue asked).accepts (some v) = true ↔ asked.same v = true :=
    Value.admits_iff_of_isLeaf (KeyPart.isLeaf_of_ofValue? hasked)
  rw [hadmits, KeyPart.sameOrNone_some_iff, KeyPart.same_ofValue?_iff hasked]
  rfl

/-! ## The equalities together -/

namespace Sample

def negativeZero : Double := ⟨0x8000000000000000⟩

def negativeNaN : Double := ⟨0xfff0000000000001⟩

end Sample

namespace Value

open KeyPart (ofValue? SameOrNone)

/-- The values that an index can hold are those with a key part.  They have the same part exactly if they
are equal, and equal values then have one part and are of one kind.  A criterion with a key part accepts
the values with this part and no others, of whatever kind.  Two numbers are equal exactly if both are
NaN, or neither is and their exact values are equal. -/
theorem equalities_agree :
    (∀ v : Value, (ofValue? v).isSome = true ↔ v.isIndexable = true) ∧
    (∀ v w : Value, v.isIndexable = true →
      (SameOrNone (ofValue? v) (ofValue? w) ↔ (v == w) = true)) ∧
    (∀ v w : Value, (v == w) = true → ofValue? v = ofValue? w ∧ v.kind = w.kind) ∧
    (∀ (criterion : Criterion) (part : KeyPart) (v : Value), criterion.indexPart? = some part →
      (criterion.accepts (some v) = true ↔ SameOrNone (ofValue? v) (some part))) ∧
    ∀ x y : Double, (number x == number y) = true ↔
      x.isNaN = true ∧ y.isNaN = true ∨
        ¬ x.isNaN = true ∧ ¬ y.isNaN = true ∧ x.exact = y.exact := by
  refine ⟨fun v => ?_, fun v w hv => KeyPart.sameOrNone_ofValue?_iff hv, fun v w h => ?_,
    fun criterion part v h => Criterion.accepts_iff_sameOrNone h, fun x y => Double.same_iff⟩
  · rw [KeyPart.isSome_ofValue?]
  · exact ⟨KeyPart.ofValue?_eq_of_same h, kind_eq_of_same h⟩

open Sample in
/-- The two zeros are one number and no integer, and a NaN is the same number as any other NaN. -/
theorem equalities_agree_of_zeros_and_nans :
    (number negativeZero).isIndexable = true ∧
    SameOrNone (ofValue? (number negativeZero)) (ofValue? (number .zero)) ∧
    ¬ SameOrNone (ofValue? (number negativeZero)) (ofValue? (integer 0)) ∧
    (number negativeNaN == number .nan) = true ∧
    ofValue? (number negativeNaN) = ofValue? (number .nan) ∧
    (Criterion.number negativeZero).indexPart? = some (.number .zero) ∧
    (Criterion.number negativeZero).accepts (some (number .zero)) = true ∧
    ¬ (Criterion.number negativeZero).accepts (some (integer 0)) = true := by
  obtain ⟨-, hparts, hequal, haccepts, hnumbers⟩ := equalities_agree
  have hzeros : (number negativeZero == number .zero) = true := by decide
  have hinteger : ¬ (number negativeZero == integer 0) = true := by decide
  have hnans : (number negativeNaN == number .nan) = true :=
    (hnumbers _ _).2 (.inl ⟨by decide, by decide⟩)
  have hpart : (Criterion.number negativeZero).indexPart? = some (.number .zero) := rfl
  refine ⟨rfl, (hparts _ _ rfl).2 hzeros, fun h => hinteger ((hparts _ _ rfl).1 h), hnans,
    (hequal _ _ hnans).1, hpart, (haccepts _ _ _ hpart).2 (.some (KeyPart.same_refl _)),
    fun h => ?_⟩
  -- an integer has a part of its own kind
  obtain ⟨p, hp, hsame⟩ := KeyPart.sameOrNone_some_iff.1 ((haccepts _ _ _ hpart).1 h)
  cases hp
  cases hsame

end Value

end DocumentStore
