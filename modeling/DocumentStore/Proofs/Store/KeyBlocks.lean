import DocumentStore.Proofs.Store.KeyOrder
import Mathlib.Data.List.Forall2

/-!
# Blocks of keys

The key order is total, whatever bits the numbers in a key have: a draw means that the keys have the same
parts.  The keys under a base are the base with more parts, or a key that is the same as the base with more
parts.  They follow the base in one block, and no other key stands in it.
-/

namespace DocumentStore

namespace Key

/-! ## Keys part by part -/

/-- Keys are the same when they have the same parts, one by one. -/
theorem same_iff_forall₂ {ps qs : List KeyPart} :
    same ⟨ps⟩ ⟨qs⟩ = true ↔ List.Forall₂ (fun p q => p.same q = true) ps qs := by
  induction ps generalizing qs with
  | nil => rw [same_nil_left, List.forall₂_nil_left_iff]
  | cons p ps ih => cases qs with
    | nil => simp
    | cons q qs => rw [same_cons, ih, List.forall₂_cons]

/-- The keys under a base begin with the parts of the base and go on. -/
theorem properlyExtends_iff {ps bs : List KeyPart} :
    properlyExtends ps bs = true ↔
      ∃ front back, ps = front ++ back ∧ back ≠ [] ∧ same ⟨front⟩ ⟨bs⟩ = true := by
  induction bs generalizing ps with
  | nil =>
    cases ps with
    | nil => simp [properlyExtends]
    | cons p ps => simp [properlyExtends]
  | cons b bs ih =>
    cases ps with
    | nil => simp [properlyExtends]
    | cons p ps =>
      rw [properlyExtends_cons, Bool.and_eq_true, ih]
      constructor
      · rintro ⟨hp, front, back, rfl, hback, hfront⟩
        exact ⟨p :: front, back, rfl, hback, same_cons.2 ⟨hp, hfront⟩⟩
      · rintro ⟨front, back, heq, hback, hfront⟩
        cases front with
        | nil => simp at hfront
        | cons q front =>
          obtain ⟨rfl, rfl⟩ := List.cons_eq_cons.1 heq
          obtain ⟨hp, hfront⟩ := same_cons.1 hfront
          exact ⟨hp, front, back, rfl, hback, hfront⟩

theorem isUnder_iff {key base : Key} :
    key.isUnder base = true ↔
      ∃ front back, key.parts = front ++ back ∧ back ≠ [] ∧ same ⟨front⟩ base = true :=
  properlyExtends_iff

/-! ## Bases of bases -/

/-- Whether a key lies under a base does not depend on which of the same keys it is, nor on the base. -/
theorem isUnder_congr {a a' b b' : Key} (ha : a.same a' = true) (hb : b.same b' = true) :
    a.isUnder b = a'.isUnder b' := by
  obtain ⟨as⟩ := a
  obtain ⟨as'⟩ := a'
  obtain ⟨bs⟩ := b
  obtain ⟨bs'⟩ := b'
  show properlyExtends as bs = properlyExtends as' bs'
  induction as generalizing as' bs bs' with
  | nil =>
    rw [same_nil_left] at ha
    subst ha
    rfl
  | cons p ps ih =>
    obtain _ | ⟨p', ps'⟩ := as'
    · simp at ha
    obtain ⟨hp, hps⟩ := same_cons.1 ha
    cases bs with
    | nil =>
      rw [same_nil_left] at hb
      subst hb
      rfl
    | cons q qs =>
      obtain _ | ⟨q', qs'⟩ := bs'
      · simp at hb
      obtain ⟨hq, hqs⟩ := same_cons.1 hb
      have hpq : p.same q = p'.same q' := by
        rw [KeyPart.same, KeyPart.same, Std.TransCmp.congr_left (KeyPart.same_iff.1 hp),
          Std.TransCmp.congr_right (KeyPart.same_iff.1 hq)]
      rw [properlyExtends_cons, properlyExtends_cons, hpq, ih ps' hps qs qs' hqs]

theorem isUnder_trans {a b c : Key} (hab : a.isUnder b = true) (hbc : b.isUnder c = true) :
    a.isUnder c = true := by
  obtain ⟨as⟩ := a
  obtain ⟨front, back, rfl, hback, hfront⟩ := isUnder_iff.1 hab
  -- under a key with the parts of `b`, which lies under the last base as `b` does
  rw [← isUnder_congr hfront (same_refl c)] at hbc
  obtain ⟨front', back', rfl, -, hfront'⟩ := isUnder_iff.1 hbc
  exact isUnder_iff.2 ⟨front', back' ++ back, List.append_assoc .., by simp [hback], hfront'⟩

/-! ## The block behind a base -/

theorem isUnder_of_same {a b base : Key} (h : a.same b = true) (hb : b.isUnder base = true) :
    a.isUnder base = true := by
  rwa [isUnder_congr h (same_refl base)]

/-- What lies behind a base, but not under it, lies behind everything under it. -/
theorem lt_of_not_isUnder {base key y : Key} (hy : compare base y = .lt)
    (hnot : ¬ y.isUnder base = true) (hkey : key.isUnder base = true) : compare key y = .lt := by
  cases hcmp : compare y key with
  | lt => exact absurd (isUnder_of_between hy (by rw [hcmp]; rfl) hkey) hnot
  | eq => exact absurd (isUnder_of_same (same_iff.2 hcmp) hkey) hnot
  | gt => exact Std.OrientedCmp.lt_of_gt hcmp

/-- The key order is total, a draw means the same parts, and the keys under a base stand in one block
behind it.  Numbers may have any bits. -/
theorem ordered_in_blocks :
    (∀ a b : Key, compare a b = .eq ↔ a.same b = true) ∧
    (∀ a b : Key, a.same b = true ↔ List.Forall₂ (fun p q => p.same q = true) a.parts b.parts) ∧
    (∀ a b : Key, compare b a = (compare a b).swap) ∧
    (∀ a b c : Key, compare a b ≠ .gt → compare b c ≠ .gt → compare a c ≠ .gt) ∧
    -- being under a base
    (∀ key base : Key, key.isUnder base = true ↔
      ∃ front back, key.parts = front ++ back ∧ back ≠ [] ∧ same ⟨front⟩ base = true) ∧
    (∀ key base : Key, key.isUnder base = true → compare base key = .lt) ∧
    (∀ a b c : Key, a.isUnder b = true → b.isUnder c = true → a.isUnder c = true) ∧
    (∀ a a' b b' : Key, a.same a' = true → b.same b' = true → a.isUnder b = a'.isUnder b') ∧
    -- the block behind a base
    (∀ base x key : Key, compare base x = .lt → compare x key ≠ .gt → key.isUnder base = true →
      x.isUnder base = true) ∧
    (∀ base y key : Key, compare base y = .lt → ¬ y.isUnder base = true → key.isUnder base = true →
      compare key y = .lt) := by
  refine ⟨fun _ _ => same_iff.symm, fun _ _ => same_iff_forall₂,
    fun _ _ => Std.OrientedCmp.eq_swap, fun a b c hab hbc => ?_, fun _ _ => isUnder_iff,
    fun _ _ => lt_of_isUnder, fun _ _ _ => isUnder_trans, fun _ _ _ _ => isUnder_congr,
    fun _ _ _ hx hle => isUnder_of_between hx (Ordering.isLE_iff_ne_gt.2 hle),
    fun _ _ _ => lt_of_not_isUnder⟩
  exact Ordering.isLE_iff_ne_gt.1 (Std.TransCmp.isLE_trans (Ordering.isLE_iff_ne_gt.2 hab)
    (Ordering.isLE_iff_ne_gt.2 hbc))

/-- A base that ends in a NaN, a key under the same base written with the bits of another NaN, and the
number behind it: negative zero is the same part as zero, and stands in front of every NaN. -/
theorem ordered_in_blocks_of_nans :
    let quiet : KeyPart := .number ⟨0x7ff8000000000000⟩
    let signaling : KeyPart := .number ⟨0xfff0000000000001⟩
    let zeros : Key × Key := (⟨[.number ⟨0⟩]⟩, ⟨[.number ⟨0x8000000000000000⟩]⟩)
    zeros.1.same zeros.2 = true ∧ isUnder ⟨[signaling, .integer 1]⟩ ⟨[quiet]⟩ = true ∧
      compare (⟨[signaling, .integer 1]⟩ : Key) ⟨[.bool false]⟩ = .lt :=
  ⟨(ordered_in_blocks.1 _ _).1 (by decide),
    (ordered_in_blocks.2.2.2.2.1 _ _).2 ⟨[_], [_], rfl, by decide, by decide⟩,
    ordered_in_blocks.2.2.2.2.2.2.2.2.2 ⟨[.number ⟨0x7ff8000000000000⟩]⟩ _ _ (by decide) (by decide)
      (by decide)⟩

end Key

end DocumentStore
