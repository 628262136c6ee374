import DocumentStore.Store.Layout

/-!
# The order of keys

Two parts that values are indexed under are the same part only if they are equal, although numbers
with unusual bits are compared by rank.  The keys under a base form one block of the key order,
right behind the base.
-/

namespace DocumentStore

deriving instance DecidableEq for KeyPart, Key

/-! ## Doubles of one rank -/

namespace Double

theorem magnitude_lt (x : Double) : x.magnitude < signBit :=
  Nat.mod_lt _ (by decide)

theorem rank_of_isNaN {x : Double} (h : x.isNaN = true) : x.rank = signBit := by
  rw [rank, if_pos h]

/-- Away from NaN the rank is the magnitude with the sign of the number. -/
theorem rank_of_not_isNaN {x : Double} (h : ¬ x.isNaN = true) :
    x.rank = if x.isNegative then -(x.magnitude : Int) else x.magnitude := by
  rw [rank, if_neg h]

theorem rank_lt_of_not_isNaN {x : Double} (h : ¬ x.isNaN = true) : x.rank < signBit := by
  have hlt := x.magnitude_lt
  rw [rank_of_not_isNaN h]
  split <;> omega

theorem rank_of_isZero {x : Double} (hn : ¬ x.isNaN = true) (h : x.isZero = true) :
    x.rank = 0 := by
  have hz : x.magnitude = 0 := by simpa [isZero] using h
  rw [rank_of_not_isNaN hn, hz]
  split <;> rfl

theorem rank_canonical (x : Double) : x.canonical.rank = x.rank := by
  unfold canonical
  split
  · rename_i h
    rw [rank_of_isNaN h]
    decide
  · rename_i h
    split
    · rename_i hz
      rw [rank_of_isZero h hz]
      decide
    · rfl

theorem toNat_bits (x : Double) :
    x.bits.toNat = x.magnitude + if x.isNegative then signBit else 0 := by
  -- the sign is the highest bit, and the magnitude is what the other bits say
  have hlt : x.bits.toNat < 2 * signBit := x.bits.toNat_lt
  unfold magnitude isNegative
  by_cases h : signBit ≤ x.bits.toNat
  · rw [if_pos (by simpa using h), Nat.mod_eq_sub_mod h, Nat.mod_eq_of_lt (by omega)]
    omega
  · rw [if_neg (by simpa using h), Nat.mod_eq_of_lt (by omega)]
    rfl

theorem eq_of_toNat_bits {x y : Double} (h : x.bits.toNat = y.bits.toNat) : x = y := by
  cases x; cases y
  exact congrArg mk (UInt64.toNat_inj.1 h)

/-- Numbers that are neither NaN nor zero are told apart by their ranks. -/
theorem eq_of_rank_eq {x y : Double} (hx : ¬ x.isNaN = true) (hy : ¬ y.isNaN = true)
    (hz : ¬ x.isZero = true) (h : x.rank = y.rank) : x = y := by
  have hz' : x.magnitude ≠ 0 := by simpa [isZero] using hz
  rw [rank_of_not_isNaN hx, rank_of_not_isNaN hy] at h
  -- the bits are put together from magnitude and sign
  apply eq_of_toNat_bits
  rw [toNat_bits x, toNat_bits y]
  cases hxn : x.isNegative <;> cases hyn : y.isNegative <;>
    simp only [hxn, hyn, Bool.false_eq_true, if_true, if_false] at h ⊢ <;> omega

/-- One rank, one canonical number. -/
theorem canonical_eq_canonical_iff {x y : Double} :
    x.canonical = y.canonical ↔ x.rank = y.rank := by
  constructor
  · intro h
    rw [← rank_canonical x, ← rank_canonical y, h]
  · intro h
    unfold canonical
    by_cases hx : x.isNaN = true
    · by_cases hy : y.isNaN = true
      · rw [if_pos hx, if_pos hy]
      · have hlt := rank_lt_of_not_isNaN hy
        rw [← h, rank_of_isNaN hx] at hlt
        omega
    -- NaN stands behind all other numbers
    · have hy : ¬ y.isNaN = true := by
        intro hy
        have hlt := rank_lt_of_not_isNaN hx
        rw [h, rank_of_isNaN hy] at hlt
        omega
      rw [if_neg hx, if_neg hy]
      by_cases hz : x.isZero = true
      · have hr := h
        rw [rank_of_isZero hx hz, rank_of_not_isNaN hy] at hr
        have hz' : y.isZero = true := by
          have : y.magnitude = 0 := by split at hr <;> omega
          simpa [isZero] using this
        rw [if_pos hz, if_pos hz']
      · have hxy := eq_of_rank_eq hx hy hz h
        rw [← hxy]

end Double

/-! ## Parts that are the same -/

namespace KeyPart

theorem same_iff {a b : KeyPart} : a.same b = true ↔ compare a b = .eq := by
  simp [same]

@[simp]
theorem same_refl (a : KeyPart) : a.same a = true := same_iff.2 Std.ReflOrd.compare_self

theorem same_comm (a b : KeyPart) : a.same b = b.same a := by
  rw [Bool.eq_iff_iff, same_iff, same_iff]
  exact Std.OrientedCmp.eq_comm

theorem same_trans {a b c : KeyPart} (hab : a.same b = true) (hbc : b.same c = true) :
    a.same c = true :=
  same_iff.2 (Std.TransCmp.eq_trans (same_iff.1 hab) (same_iff.1 hbc))

theorem eq_of_rank_of_same {a b : KeyPart} (h : a.same b = true) : a.rank = b.rank := by
  have hab : cmp a b = .eq := same_iff.1 h
  have hba : cmp b a = .eq := by
    rw [cmp_swap, hab]
    rfl
  exact Nat.le_antisymm (rank_le_of_cmp (by rw [hab]; rfl)) (rank_le_of_cmp (by rw [hba]; rfl))

theorem compare_string (s t : String) : compare (string s) (string t) = compare s t := rfl

@[simp]
theorem same_string_iff {s : String} {p : KeyPart} : (string s).same p = true ↔ p = string s := by
  constructor
  · intro h
    have hr := eq_of_rank_of_same h
    cases p <;> simp only [rank] at hr <;> try omega
    rename_i t
    have hst : compare s t = .eq := same_iff.1 h
    rw [Std.LawfulEqOrd.eq_of_compare hst]
  · rintro rfl
    exact same_refl _

/-- Parts of indexed values are the same part only if they are equal. -/
theorem eq_of_same {v w : Value} {p q : KeyPart} (hp : ofValue? v = some p)
    (hq : ofValue? w = some q) (h : p.same q = true) : p = q := by
  have hr := eq_of_rank_of_same h
  have hc : cmp p q = .eq := same_iff.1 h
  -- parts of different kinds are never the same part
  cases v <;> simp only [ofValue?, Option.some.injEq, reduceCtorEq] at hp <;> subst hp <;>
    cases w <;> simp only [ofValue?, Option.some.injEq, reduceCtorEq] at hq <;> subst hq <;>
    simp [rank, ofDouble] at hr
  case bool.bool a b =>
    rw [show a = b from Std.LawfulEqOrd.eq_of_compare hc]
  case integer.integer a b =>
    have hab : a.toInt = b.toInt := Std.LawfulEqOrd.eq_of_compare hc
    rw [Int64.toInt_inj.1 hab]
  case number.number x y =>
    have hxy : x.canonical.rank = y.canonical.rank := Std.LawfulEqOrd.eq_of_compare hc
    rw [Double.rank_canonical, Double.rank_canonical] at hxy
    rw [ofDouble, ofDouble, Double.canonical_eq_canonical_iff.2 hxy]
  case string.string s t =>
    rw [show s = t from Std.LawfulEqOrd.eq_of_compare hc]
  case bytes.bytes a b =>
    rw [show a = b from Std.LawfulEqOrd.eq_of_compare hc]

end KeyPart

/-! ## Keys that are the same, and keys under a base -/

namespace Key

theorem same_iff {a b : Key} : a.same b = true ↔ compare a b = .eq := by
  simp [same]

@[simp]
theorem same_refl (a : Key) : a.same a = true := same_iff.2 Std.ReflOrd.compare_self

theorem same_comm (a b : Key) : a.same b = b.same a := by
  rw [Bool.eq_iff_iff, same_iff, same_iff]
  exact Std.OrientedCmp.eq_comm

theorem same_trans {a b c : Key} (hab : a.same b = true) (hbc : b.same c = true) :
    a.same c = true :=
  same_iff.2 (Std.TransCmp.eq_trans (same_iff.1 hab) (same_iff.1 hbc))

@[simp]
theorem same_cons {p q : KeyPart} {ps qs : List KeyPart} :
    same ⟨p :: ps⟩ ⟨q :: qs⟩ = true ↔ p.same q = true ∧ same ⟨ps⟩ ⟨qs⟩ = true := by
  rw [same_iff, same_iff, KeyPart.same_iff]
  show compare (p :: ps) (q :: qs) = .eq ↔ _ ∧ compare ps qs = .eq
  rw [List.compare_cons_cons, Ordering.then_eq_eq]

@[simp]
theorem same_nil_left {ps : List KeyPart} : same ⟨[]⟩ ⟨ps⟩ = true ↔ ps = [] := by
  cases ps <;> simp [same_iff, compare, cmp, List.compareLex]

@[simp]
theorem same_nil_right {ps : List KeyPart} : same ⟨ps⟩ ⟨[]⟩ = true ↔ ps = [] := by
  rw [same_comm, same_nil_left]

theorem compare_cons (p q : KeyPart) (ps qs : List KeyPart) :
    compare (Key.mk (p :: ps)) ⟨q :: qs⟩ = (compare p q).then (compare (Key.mk ps) ⟨qs⟩) :=
  List.compare_cons_cons

@[simp]
theorem properlyExtends_cons (p q : KeyPart) (ps qs : List KeyPart) :
    properlyExtends (p :: ps) (q :: qs) = (p.same q && properlyExtends ps qs) := rfl

/-- A key lies behind every base that it is under. -/
theorem lt_of_isUnder {key base : Key} (h : key.isUnder base = true) :
    compare base key = .lt := by
  obtain ⟨ps⟩ := key
  obtain ⟨bs⟩ := base
  change properlyExtends ps bs = true at h
  show compare bs ps = .lt
  -- along the base, every part of which is also one of the key
  induction bs generalizing ps with
  | nil => cases ps with
    | nil => simp [properlyExtends] at h
    | cons p ps => rfl
  | cons b bs ih => cases ps with
    | nil => simp [properlyExtends] at h
    | cons p ps =>
      simp only [properlyExtends_cons, Bool.and_eq_true] at h
      have hbp : compare b p = .eq := by
        rw [← KeyPart.same_iff, KeyPart.same_comm]
        exact h.1
      rw [List.compare_cons_cons, hbp, Ordering.eq_then, ih ps h.2]

theorem not_isUnder_of_isLE {key base : Key} (h : (compare key base).isLE = true) :
    ¬ key.isUnder base = true := by
  intro hunder
  rw [Std.OrientedCmp.gt_of_lt (lt_of_isUnder hunder)] at h
  cases h

/-- Between a base and a key under it lie only keys under it. -/
theorem isUnder_of_between {base x key : Key} (hx : compare base x = .lt)
    (hle : (compare x key).isLE = true) (h : key.isUnder base = true) :
    x.isUnder base = true := by
  obtain ⟨bs⟩ := base
  obtain ⟨xs⟩ := x
  obtain ⟨ps⟩ := key
  change properlyExtends ps bs = true at h
  change compare bs xs = .lt at hx
  change (compare xs ps).isLE = true at hle
  show properlyExtends xs bs = true
  -- along the base again, now with two keys that may go on beyond it
  induction bs generalizing xs ps with
  | nil => cases xs with
    | nil => simp at hx
    | cons => rfl
  | cons b bs ih => cases xs with
    | nil => simp at hx
    | cons x xs => cases ps with
      | nil => simp at hle
      | cons p ps =>
        simp only [properlyExtends_cons, Bool.and_eq_true] at h ⊢
        rw [List.compare_cons_cons, Ordering.then_eq_lt] at hx
        rw [List.compare_cons_cons, Ordering.isLE_then_iff_and] at hle
        have hpb : compare p b = .eq := KeyPart.same_iff.1 h.1
        -- the first parts of base, key and what lies between are one part
        have hbx : (compare b x).isLE = true := by
          rcases hx with hlt | ⟨heq, _⟩
          · rw [hlt]; rfl
          · rw [heq]; rfl
        have hxb : (compare x b).isLE = true := by
          rw [← Std.TransCmp.congr_right hpb]
          exact hle.1
        have hsame : compare x b = .eq := Std.OrientedCmp.isLE_antisymm hxb hbx
        have hxp : compare x p = .eq :=
          Std.TransCmp.eq_trans hsame (Std.OrientedCmp.eq_symm hpb)
        refine ⟨KeyPart.same_iff.2 hsame, ih xs ps h.2 ?_ ?_⟩
        · rcases hx with hlt | ⟨_, hrest⟩
          · rw [Std.OrientedCmp.eq_symm hsame] at hlt
            cases hlt
          · exact hrest
        · rcases hle.2 with hlt | hrest
          · rw [hxp] at hlt
            cases hlt
          · exact hrest

theorem head?_of_same {key key' : Key} {name : String} (h : key.same key' = true)
    (hkey : key'.parts.head? = some (.string name)) : key.parts.head? = some (.string name) := by
  obtain ⟨ps⟩ := key
  obtain ⟨qs⟩ := key'
  rcases qs with _ | ⟨q, qs⟩
  · cases hkey
  · rcases ps with _ | ⟨p, ps⟩
    · simp at h
    · cases hkey
      have hsame : p.same (.string name) = true := (same_cons.1 h).1
      rw [KeyPart.same_comm] at hsame
      rw [KeyPart.same_string_iff.1 hsame]
      rfl

theorem head?_of_isUnder {key base : Key} {name : String} (h : key.isUnder base = true)
    (hbase : base.parts.head? = some (.string name)) : key.parts.head? = some (.string name) := by
  obtain ⟨ps⟩ := key
  obtain ⟨qs⟩ := base
  rcases qs with _ | ⟨q, qs⟩
  · cases hbase
  · rcases ps with _ | ⟨p, ps⟩
    · cases h
    · cases hbase
      obtain ⟨hsame, _⟩ := Bool.and_eq_true_iff.1 h
      rw [KeyPart.same_comm] at hsame
      rw [KeyPart.same_string_iff.1 hsame]
      rfl

end Key

end DocumentStore
