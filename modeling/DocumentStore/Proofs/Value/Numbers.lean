import DocumentStore.Proofs.Double.Nearest
import DocumentStore.Proofs.Value.Order

/-!
# Integers against numbers

An integer is rounded to a double before it is compared with a number.  The comparison is that of the
exact values, the integer first in a draw, with one exception: an integer that is rounded down comes
before the number that it is rounded to, although it is larger.
-/

namespace DocumentStore

namespace Value

theorem cmp_integer_number (n : Int64) (x : Double) :
    (integer n).cmp (number x) =
      if x.rank < (Double.ofInt n.toInt).rank then .gt else .lt := by
  show (compare (Double.ofInt n.toInt).rank x.rank).then .lt = _
  rcases Int.lt_trichotomy x.rank (Double.ofInt n.toInt).rank with hlt | heq | hgt
  · rw [if_pos hlt, compare_gt_iff_gt.2 hlt]
    rfl
  · rw [if_neg (by omega), compare_eq_iff_eq.2 heq.symm]
    rfl
  · rw [if_neg (by omega), compare_lt_iff_lt.2 hgt]
    rfl

theorem natAbs_toInt_lt (n : Int64) : n.toInt.natAbs < 2 ^ 64 := by
  have hlo := n.le_toInt
  have hhi := n.toInt_lt
  omega

/-- An integer is compared with a number by the double nearest to it, and comes first in a draw.  So it
comes first whenever it is not above the number, and behind the number whenever it is above it and is
not rounded to it.  Up to `2 ^ 53` integers are not rounded at all. -/
theorem integers_compare_rounded (n : Int64) (x : Double) (hx : ¬ x.isNaN = true) :
    Double.Nearest n.toInt (Double.ofInt n.toInt) ∧
    (integer n).cmp (number x) =
      (if x.exact < (Double.ofInt n.toInt).exact then .gt else .lt) ∧
    (number x).cmp (integer n) = ((integer n).cmp (number x)).swap ∧
    (Double.exactInt n.toInt ≤ x.exact → (integer n).cmp (number x) = .lt) ∧
    (x.exact < Double.exactInt n.toInt →
      ((integer n).cmp (number x) = .gt ↔ x.exact ≠ (Double.ofInt n.toInt).exact)) ∧
    (n.toInt.natAbs ≤ 2 ^ 53 → (Double.ofInt n.toInt).exact = Double.exactInt n.toInt) := by
  have hnearest : Double.Nearest n.toInt (Double.ofInt n.toInt) :=
    Double.nearest_ofInt (natAbs_toInt_lt n)
  have hfinite := Double.not_isNaN_of_isFinite hnearest.finite
  obtain ⟨habove, hbelow⟩ := Double.not_between_ofInt (natAbs_toInt_lt n) x
  have hcmp : (integer n).cmp (number x) =
      if x.exact < (Double.ofInt n.toInt).exact then .gt else .lt := by
    rw [cmp_integer_number]
    exact if_congr (Double.exact_lt_exact_iff hx hfinite).symm rfl rfl
  refine ⟨hnearest, hcmp, cmp_swap _ _, fun hle => ?_, fun hlt => ?_, fun hsmall => ?_⟩
  · rw [hcmp, if_neg (habove hle)]
  · rw [hcmp]
    constructor
    · intro h heq
      rw [if_neg (by rw [heq]; exact lt_irrefl _)] at h
      cases h
    · intro hne
      rw [if_pos (lt_of_le_of_ne (not_lt.1 (hbelow hlt.le)) hne)]
  · rw [Double.exact_of_isFinite hnearest.finite, Double.toRat_ofInt_of_le hsmall]
    rfl

def twoPow53 : Double := ⟨0x4340000000000000⟩

/-- The integer `2 ^ 53 + 1` comes before the number `2 ^ 53`. -/
theorem integers_compare_rounded_at_two_pow_53 :
    twoPow53.exact < Double.exactInt 9007199254740993 ∧
    (integer 9007199254740993).cmp (number twoPow53) = .lt ∧
    (number twoPow53).cmp (integer 9007199254740993) = .gt := by
  have hnumber : twoPow53 = Double.ofInt (9007199254740992 : Int64).toInt := by decide +kernel
  have hround : (Double.ofInt (9007199254740993 : Int64).toInt) = twoPow53 := by decide +kernel
  obtain ⟨-, hcmp, hswap, -⟩ := integers_compare_rounded 9007199254740993 twoPow53 (by decide)
  obtain ⟨-, -, -, -, -, hexact⟩ := integers_compare_rounded 9007199254740992 twoPow53 (by decide)
  rw [hround, if_neg (lt_irrefl _)] at hcmp
  rw [hcmp] at hswap
  refine ⟨?_, hcmp, hswap⟩
  rw [hnumber, hexact (by decide)]
  show Double.exactInt 9007199254740992 < _
  unfold Double.exactInt
  rw [WithBot.coe_lt_coe, WithTop.coe_lt_coe]
  norm_num

end Value

end DocumentStore
