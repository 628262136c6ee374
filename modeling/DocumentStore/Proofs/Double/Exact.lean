import DocumentStore.Proofs.Double.Rounding
import Mathlib.Algebra.Order.Field.Rat
import Mathlib.Algebra.Order.Ring.Abs
import Mathlib.Algebra.Order.Ring.Cast
import Mathlib.Data.Nat.Cast.Order.Ring
import Mathlib.Order.WithBot
import Mathlib.Order.Monotone.Basic
import Mathlib.Tactic.FieldSimp
import Mathlib.Tactic.Positivity

/-!
# The exact value of a double

Every finite double is a whole number of smallest steps, `2 ^ 1074` of which make up one.  The steps
increase with the magnitude, so the order of doubles is the order of their exact values
(`exact_lt_exact_iff`).
-/

namespace DocumentStore

namespace Double

/-! ## Steps -/

/-- The value of a magnitude, counted in smallest steps. -/
def steps (m : Nat) : Nat :=
  (m % hiddenBit + if m / hiddenBit = 0 then 0 else hiddenBit) * 2 ^ (max (m / hiddenBit) 1 - 1)

def stepsPerOne : Nat := 2 ^ 1074

theorem stepsPerOne_pos : 0 < stepsPerOne := by
  unfold stepsPerOne
  positivity

theorem steps_of_lt {m : Nat} (h : m < hiddenBit) : steps m = m := by
  unfold steps
  rw [Nat.div_eq_of_lt h, Nat.mod_eq_of_lt h, if_pos rfl]
  show (m + 0) * 2 ^ 0 = m
  omega

/-- The magnitude `e * hiddenBit + q` has the significand `q` and the exponent `e`.  A significand that
is twice the hidden bit is carried into the exponent and has the same value there. -/
theorem steps_of_significand (e : Nat) {q : Nat} (h : hiddenBit ≤ q) (h' : q ≤ 2 * hiddenBit) :
    steps (e * hiddenBit + q) = q * 2 ^ e := by
  have hpos : 0 < hiddenBit := by decide
  rcases Nat.lt_or_eq_of_le h' with hlt | rfl
  · obtain ⟨f, rfl⟩ := Nat.exists_eq_add_of_le h
    have hf : f < hiddenBit := by omega
    have hm : e * hiddenBit + (hiddenBit + f) = f + (e + 1) * hiddenBit := by ring
    unfold steps
    rw [hm, Nat.add_mul_div_right f (e + 1) hpos, Nat.add_mul_mod_self_right, Nat.div_eq_of_lt hf,
      Nat.mod_eq_of_lt hf, if_neg (by omega), show max (0 + (e + 1)) 1 - 1 = e by omega,
      Nat.add_comm f]
  · have hm : e * hiddenBit + 2 * hiddenBit = 0 + (e + 2) * hiddenBit := by ring
    unfold steps
    rw [hm, Nat.add_mul_div_right 0 (e + 2) hpos, Nat.add_mul_mod_self_right, Nat.zero_div,
      Nat.zero_mod, if_neg (by omega), show max (0 + (e + 2)) 1 - 1 = e + 1 by omega]
    ring

/-- Beyond the first exponent every magnitude is made up of an exponent and a significand. -/
theorem exists_significand {m : Nat} (h : hiddenBit ≤ m) :
    ∃ e q, m = e * hiddenBit + q ∧ hiddenBit ≤ q ∧ q < 2 * hiddenBit := by
  have hpos : 0 < hiddenBit := by decide
  have hdiv := Nat.div_add_mod m hiddenBit
  have hmod := Nat.mod_lt m hpos
  have hone : 1 ≤ m / hiddenBit := Nat.div_pos h hpos
  obtain ⟨e, he⟩ := Nat.exists_eq_add_of_le hone
  refine ⟨e, hiddenBit + m % hiddenBit, ?_, by omega, by omega⟩
  rw [he, Nat.mul_add] at hdiv
  rw [Nat.mul_comm e]
  omega

theorem steps_lt_succ (m : Nat) : steps m < steps (m + 1) := by
  rcases Nat.lt_or_ge m hiddenBit with hlt | hge
  · have hnext : steps (m + 1) = m + 1 := by
      rcases Nat.lt_or_eq_of_le (Nat.succ_le_of_lt hlt) with hlt' | heq
      · exact steps_of_lt hlt'
      · have h := steps_of_significand 0 (q := m + 1) (Nat.le_of_eq heq.symm) (by omega)
        rwa [Nat.zero_mul, Nat.zero_add, Nat.pow_zero, Nat.mul_one] at h
    rw [steps_of_lt hlt, hnext]
    omega
  · obtain ⟨e, q, rfl, hq, hq'⟩ := exists_significand hge
    rw [Nat.add_assoc, steps_of_significand e hq (Nat.le_of_lt hq'),
      steps_of_significand e (by omega) (by omega)]
    exact Nat.mul_lt_mul_of_pos_right (Nat.lt_succ_self q) (Nat.two_pow_pos e)

theorem steps_strictMono : StrictMono steps := strictMono_nat_of_lt_succ steps_lt_succ

/-- The value of a double that is not NaN, counted in smallest steps. -/
def signedSteps (x : Double) : Int :=
  if x.isNegative then -(steps x.magnitude : Int) else steps x.magnitude

theorem rank_lt_rank_iff {x y : Double} (hx : ¬ x.isNaN = true) (hy : ¬ y.isNaN = true) :
    x.rank < y.rank ↔ x.signedSteps < y.signedSteps := by
  have hzero : steps 0 = 0 := steps_of_lt (by decide)
  have hxy : steps x.magnitude < steps y.magnitude ↔ x.magnitude < y.magnitude :=
    steps_strictMono.lt_iff_lt
  have hyx : steps y.magnitude < steps x.magnitude ↔ y.magnitude < x.magnitude :=
    steps_strictMono.lt_iff_lt
  have hx0 : steps 0 < steps x.magnitude ↔ 0 < x.magnitude := steps_strictMono.lt_iff_lt
  have hy0 : steps 0 < steps y.magnitude ↔ 0 < y.magnitude := steps_strictMono.lt_iff_lt
  rw [rank_of_not_isNaN hx, rank_of_not_isNaN hy]
  unfold signedSteps
  cases x.isNegative <;> cases y.isNegative <;>
    simp only [Bool.false_eq_true, if_true, if_false] <;> omega

/-! ## Exact values -/

def toRat (x : Double) : ℚ := (if x.isNegative then -1 else 1) * ((x.ratio.1 : ℚ) / x.ratio.2)

/-- The exact value of a double that is not NaN: a rational, or an infinity beyond all of them. -/
def exact (x : Double) : WithBot (WithTop ℚ) :=
  if x.isFinite then ((x.toRat : WithTop ℚ) : WithBot (WithTop ℚ))
  else if x.isNegative then ⊥ else ((⊤ : WithTop ℚ) : WithBot (WithTop ℚ))

theorem ratio_steps (x : Double) : x.ratio.1 * stepsPerOne = steps x.magnitude * x.ratio.2 := by
  have hexponent : x.scale.toNat + 1074 = max x.exponentField 1 - 1 + (-x.scale).toNat := by
    unfold scale
    omega
  show x.significand * 2 ^ x.scale.toNat * 2 ^ 1074 =
    x.significand * 2 ^ (max x.exponentField 1 - 1) * 2 ^ (-x.scale).toNat
  rw [Nat.mul_assoc, ← Nat.pow_add, hexponent, Nat.pow_add, Nat.mul_assoc]

theorem toRat_eq (x : Double) : x.toRat = (x.signedSteps : ℚ) / stepsPerOne := by
  have hone : (stepsPerOne : ℚ) ≠ 0 := by exact_mod_cast stepsPerOne_pos.ne'
  have hden : (x.ratio.2 : ℚ) ≠ 0 := by
    have hpos : 0 < x.ratio.2 := Nat.two_pow_pos (-x.scale).toNat
    exact_mod_cast hpos.ne'
  have habs : (x.ratio.1 : ℚ) / x.ratio.2 = (steps x.magnitude : ℚ) / stepsPerOne := by
    rw [div_eq_div_iff hden hone]
    exact_mod_cast ratio_steps x
  unfold toRat signedSteps
  rw [habs]
  cases x.isNegative
  · simp only [Bool.false_eq_true, if_false, Int.cast_natCast, one_mul]
  · simp only [if_true, Int.cast_neg, Int.cast_natCast, neg_div, neg_one_mul]

theorem toRat_lt_toRat_iff {x y : Double} : x.toRat < y.toRat ↔ x.signedSteps < y.signedSteps := by
  have hpos : (0 : ℚ) < stepsPerOne := by exact_mod_cast stepsPerOne_pos
  rw [toRat_eq, toRat_eq, div_lt_div_iff_of_pos_right hpos, Int.cast_lt]

theorem not_isNaN_of_isFinite {x : Double} (h : x.isFinite = true) : ¬ x.isNaN = true := by
  have hlt : x.magnitude < infiniteMagnitude := by simpa [isFinite] using h
  simp only [isNaN, decide_eq_true_eq]
  omega

/-- Beyond all finite doubles lie the two infinities. -/
theorem rank_of_not_isFinite {x : Double} (hx : ¬ x.isNaN = true) (h : ¬ x.isFinite = true) :
    x.rank = if x.isNegative then -(infiniteMagnitude : Int) else infiniteMagnitude := by
  have hmagnitude : x.magnitude = infiniteMagnitude := by
    simp only [isNaN, isFinite, decide_eq_true_eq] at hx h
    omega
  rw [rank_of_not_isNaN hx, hmagnitude]

theorem rank_of_isFinite {x : Double} (h : x.isFinite = true) :
    -(infiniteMagnitude : Int) < x.rank ∧ x.rank < infiniteMagnitude := by
  have hlt : x.magnitude < infiniteMagnitude := by simpa [isFinite] using h
  rw [rank_of_not_isNaN (not_isNaN_of_isFinite h)]
  split <;> omega

/-- Doubles are ordered by their exact values. -/
theorem exact_lt_exact_iff {x y : Double} (hx : ¬ x.isNaN = true) (hy : ¬ y.isNaN = true) :
    x.exact < y.exact ↔ x.rank < y.rank := by
  have hinfinite : -(infiniteMagnitude : Int) < infiniteMagnitude := by decide
  unfold exact
  by_cases hfx : x.isFinite = true
  · obtain ⟨hlo, hhi⟩ := rank_of_isFinite hfx
    rw [if_pos hfx]
    by_cases hfy : y.isFinite = true
    · rw [if_pos hfy, WithBot.coe_lt_coe, WithTop.coe_lt_coe, toRat_lt_toRat_iff,
        rank_lt_rank_iff hx hy]
    · rw [if_neg hfy, rank_of_not_isFinite hy hfy]
      cases y.isNegative with
      | false => exact iff_of_true (WithBot.coe_lt_coe.2 (WithTop.coe_lt_top _)) hhi
      | true => exact iff_of_false not_lt_bot (Int.not_lt.2 (Int.le_of_lt hlo))
  · rw [if_neg hfx, rank_of_not_isFinite hx hfx]
    by_cases hfy : y.isFinite = true
    · obtain ⟨hlo, hhi⟩ := rank_of_isFinite hfy
      rw [if_pos hfy]
      cases x.isNegative with
      | false => exact iff_of_false (by simp) (Int.not_lt.2 (Int.le_of_lt hhi))
      | true => exact iff_of_true (WithBot.bot_lt_coe _) hlo
    · rw [if_neg hfy, rank_of_not_isFinite hy hfy]
      cases x.isNegative <;> cases y.isNegative
      case false.true => exact iff_of_false not_lt_bot (Int.not_lt.2 (Int.le_of_lt hinfinite))
      case true.false => exact iff_of_true (WithBot.bot_lt_coe _) hinfinite
      all_goals exact iff_of_false (lt_irrefl _) (lt_irrefl _)

theorem exact_eq_exact_iff {x y : Double} (hx : ¬ x.isNaN = true) (hy : ¬ y.isNaN = true) :
    x.exact = y.exact ↔ x.rank = y.rank := by
  have hlt := exact_lt_exact_iff hx hy
  have hgt := exact_lt_exact_iff hy hx
  rw [le_antisymm_iff, ← not_lt, ← not_lt, hlt, hgt]
  omega

/-- Two doubles are the same number if they are both NaN, or have one exact value. -/
theorem same_iff {x y : Double} : x.same y = true ↔
    x.isNaN = true ∧ y.isNaN = true ∨
      ¬ x.isNaN = true ∧ ¬ y.isNaN = true ∧ x.exact = y.exact := by
  rw [same, beq_iff_eq]
  by_cases hx : x.isNaN = true <;> by_cases hy : y.isNaN = true
  · simp [hx, hy, rank_of_isNaN]
  -- the rank of NaN is beyond that of every other number
  · have hlt := rank_lt_of_not_isNaN hy
    rw [← rank_of_isNaN hx] at hlt
    simp [hx, hy, hlt.ne']
  · have hlt := rank_lt_of_not_isNaN hx
    rw [← rank_of_isNaN hy] at hlt
    simp [hx, hy, hlt.ne]
  · simp [hx, hy, exact_eq_exact_iff hx hy]

end Double

end DocumentStore
