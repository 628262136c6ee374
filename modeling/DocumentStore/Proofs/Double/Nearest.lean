import DocumentStore.Proofs.Double.Exact
import Mathlib.Tactic.Linarith

/-!
# Rounding to the nearest

The double that an integer is rounded to is the nearest of all finite doubles, a tie going to the even
significand (`nearest_ofInt`): the significand is a quotient rounded to the nearest integer, and every
other double is a whole number of its units or smaller than all significands.
-/

namespace DocumentStore

/-! ## Quotients -/

/-- A quotient is rounded down if less than one half is left, up if more is left, and at one half to the
even neighbour. -/
theorem roundedQuotient_cases (num den : Nat) :
    (roundedQuotient num den = num / den ∧ 2 * (num % den) ≤ den ∧
      (2 * (num % den) = den → roundedQuotient num den % 2 = 0)) ∨
    (roundedQuotient num den = num / den + 1 ∧ den ≤ 2 * (num % den) ∧
      (2 * (num % den) = den → roundedQuotient num den % 2 = 0)) := by
  unfold roundedQuotient
  dsimp only
  by_cases hdown : (decide (2 * (num % den) < den) ||
      (2 * (num % den) == den && num / den % 2 == 0)) = true
  · rw [if_pos hdown]
    simp only [Bool.or_eq_true, Bool.and_eq_true, decide_eq_true_eq, beq_iff_eq] at hdown
    omega
  · rw [if_neg hdown]
    simp only [Bool.or_eq_true, Bool.and_eq_true, decide_eq_true_eq, beq_iff_eq] at hdown
    omega

/-- Rounding a quotient is off by at most one half, and at one half the result is even. -/
theorem roundedQuotient_off (num : Nat) {den : Nat} (h : 0 < den) :
    |(roundedQuotient num den : ℚ) - num / den| ≤ 1 / 2 ∧
      (|(roundedQuotient num den : ℚ) - num / den| = 1 / 2 → roundedQuotient num den % 2 = 0) := by
  have hden : (0 : ℚ) < den := by exact_mod_cast h
  have hquotient : (num : ℚ) / den = (num / den : Nat) + (num % den : Nat) / den := by
    have hdiv : ((num / den : Nat) : ℚ) * den + (num % den : Nat) = num := by
      exact_mod_cast Nat.div_add_mod' num den
    rw [div_eq_iff hden.ne', add_mul, div_mul_cancel₀ _ hden.ne', hdiv]
  have hrest : ((num % den : Nat) : ℚ) / den * 2 = ((2 * (num % den) : Nat) : ℚ) / den := by
    push_cast
    ring
  rcases roundedQuotient_cases num den with ⟨hdown, hle, htie⟩ | ⟨hup, hle, htie⟩
  · -- rounded down: off by the rest
    have hhalf : ((2 * (num % den) : Nat) : ℚ) / den ≤ 1 := by
      rw [div_le_one hden]
      exact_mod_cast hle
    have hpos : (0 : ℚ) ≤ (num % den : Nat) / den := by positivity
    have hoff : |(roundedQuotient num den : ℚ) - num / den| = (num % den : Nat) / den := by
      rw [hquotient, hdown, sub_add_cancel_left, abs_neg, abs_of_nonneg hpos]
    rw [hoff]
    refine ⟨by linarith, fun heq => htie ?_⟩
    have hone : ((2 * (num % den) : Nat) : ℚ) / den = 1 := by linarith
    rw [div_eq_one_iff_eq hden.ne'] at hone
    exact_mod_cast hone
  · -- rounded up: off by what the rest lacks of one
    have hhalf : 1 ≤ ((2 * (num % den) : Nat) : ℚ) / den := by
      rw [one_le_div hden]
      exact_mod_cast hle
    have hlt : ((num % den : Nat) : ℚ) / den < 1 := by
      rw [div_lt_one hden]
      exact_mod_cast Nat.mod_lt num h
    have hoff : |(roundedQuotient num den : ℚ) - num / den| = 1 - (num % den : Nat) / den := by
      rw [hquotient, hup, abs_of_nonneg (by push_cast; linarith)]
      push_cast
      ring
    rw [hoff]
    refine ⟨by linarith, fun heq => htie ?_⟩
    have hone : ((2 * (num % den) : Nat) : ℚ) / den = 1 := by linarith
    rw [div_eq_one_iff_eq hden.ne'] at hone
    exact_mod_cast hone

/-- An integer within one half of a rational is a nearest one, and alone in that unless it is exactly
one half away. -/
theorem near_of_half {q : ℤ} {t : ℚ} (h : |q - t| ≤ 1 / 2) (k : ℤ) :
    |q - t| ≤ |k - t| ∧ (k ≠ q → |k - t| = |q - t| → |q - t| = 1 / 2) := by
  by_cases hkq : k = q
  · subst hkq
    exact ⟨le_refl _, fun hne => absurd rfl hne⟩
  · have hone : (1 : ℚ) ≤ |(k : ℚ) - q| := by
      have hint : (1 : ℤ) ≤ |k - q| := Int.one_le_abs (sub_ne_zero.2 hkq)
      exact_mod_cast hint
    have htriangle : |(k : ℚ) - q| ≤ |k - t| + |q - t| := by
      rw [abs_sub_comm (q : ℚ) t]
      exact abs_sub_le _ _ _
    exact ⟨by linarith, fun _ heq => by linarith⟩

namespace Double

/-! ## Units -/

/-- The steps that make up one unit of the significand that a positive integer is rounded to. -/
def unit (n : Nat) : Nat := 2 ^ (n.log2 + 1022)

theorem unit_pos (n : Nat) : (0 : ℚ) < unit n := by
  unfold unit
  positivity

theorem two_pow_mul_two_pow {a b c d : Nat} (h : a + b = c + d) :
    2 ^ a * 2 ^ b = 2 ^ c * 2 ^ d := by
  rw [← pow_add, ← pow_add, h]

/-- The quotient that is rounded is the integer counted in units. -/
theorem quotient_eq (n : Nat) :
    ((n * 2 ^ (52 - n.log2) : Nat) : ℚ) / (2 ^ (n.log2 - 52) : Nat) =
      (n * stepsPerOne : Nat) / unit n := by
  have hden : ((2 ^ (n.log2 - 52) : Nat) : ℚ) ≠ 0 := by positivity
  rw [div_eq_div_iff hden (unit_pos n).ne']
  have hsteps : n * 2 ^ (52 - n.log2) * unit n = n * stepsPerOne * 2 ^ (n.log2 - 52) := by
    unfold unit stepsPerOne
    rw [Nat.mul_assoc, Nat.mul_assoc, two_pow_mul_two_pow]
    omega
  exact_mod_cast hsteps

theorem hiddenBit_le_quotient {n : Nat} (h : n ≠ 0) :
    (hiddenBit : ℚ) ≤ (n * stepsPerOne : Nat) / unit n := by
  rw [le_div_iff₀ (unit_pos n)]
  have hpow : hiddenBit * unit n = 2 ^ n.log2 * stepsPerOne := by
    have hhidden : hiddenBit = 2 ^ 52 := by decide
    unfold unit stepsPerOne
    rw [hhidden, two_pow_mul_two_pow]
    omega
  have hle : 2 ^ n.log2 * stepsPerOne ≤ n * stepsPerOne :=
    Nat.mul_le_mul_right _ (Nat.log2_self_le h)
  rw [← hpow] at hle
  exact_mod_cast hle

/-- A value is a whole number of units, or it is smaller than all significands. -/
theorem steps_grid (n m : Nat) :
    (∃ k : Nat, steps m = k * unit n) ∨ steps m < hiddenBit * unit n := by
  rcases Nat.lt_or_ge m hiddenBit with hlt | hge
  · right
    rw [steps_of_lt hlt]
    exact Nat.lt_of_lt_of_le hlt (Nat.le_mul_of_pos_right _ (Nat.two_pow_pos _))
  · obtain ⟨e, q, rfl, hq, hq'⟩ := exists_significand hge
    rw [steps_of_significand e hq (Nat.le_of_lt hq')]
    unfold unit
    rcases Nat.lt_or_ge e (n.log2 + 1022) with he | he
    · right
      calc q * 2 ^ e < 2 * hiddenBit * 2 ^ e := Nat.mul_lt_mul_of_pos_right hq' (Nat.two_pow_pos e)
        _ = hiddenBit * 2 ^ (e + 1) := by ring
        _ ≤ hiddenBit * 2 ^ (n.log2 + 1022) :=
          Nat.mul_le_mul_left _ (Nat.pow_le_pow_right (by decide) he)
    · left
      refine ⟨q * 2 ^ (e - (n.log2 + 1022)), ?_⟩
      rw [Nat.mul_assoc, ← pow_add, Nat.sub_add_cancel he]

/-- The rounded significand is nearest among whole numbers and among what lies below all
significands, and if another one is as near, it is even. -/
theorem leadingBits_near {n : Nat} (hn : n ≠ 0) {w : ℚ}
    (hw : (∃ k : ℤ, w = k) ∨ w < hiddenBit) :
    |(leadingBits n : ℚ) - (n * stepsPerOne : Nat) / unit n| ≤
        |w - (n * stepsPerOne : Nat) / unit n| ∧
      (w ≠ leadingBits n →
        |w - (n * stepsPerOne : Nat) / unit n| =
          |(leadingBits n : ℚ) - (n * stepsPerOne : Nat) / unit n| → leadingBits n % 2 = 0) := by
  obtain ⟨hhalf, heven⟩ := roundedQuotient_off (n * 2 ^ (52 - n.log2))
    (Nat.two_pow_pos (n.log2 - 52))
  have hlow := hiddenBit_le_quotient hn
  rw [quotient_eq] at hhalf heven
  generalize ((n * stepsPerOne : Nat) : ℚ) / unit n = t at *
  change |((leadingBits n : ℤ) : ℚ) - t| ≤ 1 / 2 at hhalf
  change |((leadingBits n : ℤ) : ℚ) - t| = 1 / 2 → leadingBits n % 2 = 0 at heven
  show |((leadingBits n : ℤ) : ℚ) - t| ≤ |w - t| ∧ (w ≠ ((leadingBits n : ℤ) : ℚ) →
    |w - t| = |((leadingBits n : ℤ) : ℚ) - t| → leadingBits n % 2 = 0)
  rcases hw with ⟨k, rfl⟩ | hlt
  · obtain ⟨hle, htie⟩ := near_of_half hhalf k
    exact ⟨hle, fun hne heq => heven (htie (fun h => hne (by rw [h])) heq)⟩
  -- what lies below is further off than the smallest significand
  · have hbelow : |w - t| = t - w := by
      rw [abs_sub_comm]
      exact abs_of_pos (by linarith)
    have hsmallest : |((hiddenBit : ℤ) : ℚ) - t| = t - hiddenBit := by
      rw [abs_sub_comm]
      exact abs_of_nonneg (by push_cast; linarith)
    have hle := (near_of_half hhalf (hiddenBit : ℤ)).1
    exact ⟨by linarith, fun _ heq => by linarith⟩

/-! ## The double that an integer is rounded to -/

theorem ofNatMagnitude_of_lt {n : Nat} (hn : n ≠ 0) (h : n < 2 ^ 64) :
    ofNatMagnitude n = (n.log2 + 1022) * hiddenBit + leadingBits n ∧
      ofNatMagnitude n < infiniteMagnitude := by
  have hlog : n.log2 < 64 := (Nat.log2_lt hn).2 h
  have hbits := leadingBits_le n
  have hinfinite : infiniteMagnitude = 2047 * hiddenBit := by decide
  have hhidden : 0 < hiddenBit := by decide
  have hexponent : (n.log2 + 1022) * hiddenBit ≤ 1085 * hiddenBit :=
    Nat.mul_le_mul_right _ (by omega)
  unfold ofNatMagnitude
  rw [if_neg hn]
  omega

theorem magnitude_ofInt (i : ℤ) : (ofInt i).magnitude = ofNatMagnitude i.natAbs := by
  rw [ofInt_eq, magnitude_ofMagnitude _ (ofNatMagnitude_le _)]

theorem isFinite_ofInt {i : ℤ} (h : i.natAbs < 2 ^ 64) : (ofInt i).isFinite = true := by
  unfold isFinite
  rw [magnitude_ofInt]
  by_cases hzero : i.natAbs = 0
  · rw [hzero]
    decide
  · exact decide_eq_true (ofNatMagnitude_of_lt hzero h).2

theorem signedSteps_ofInt (i : ℤ) :
    (ofInt i).signedSteps =
      if i < 0 then -(steps (ofNatMagnitude i.natAbs) : ℤ) else steps (ofNatMagnitude i.natAbs) := by
  unfold signedSteps
  rw [magnitude_ofInt, ofInt_eq, isNegative_ofMagnitude _ (ofNatMagnitude_le _)]
  simp

theorem even_significand_ofInt {i : ℤ} (hi : i ≠ 0) (h : i.natAbs < 2 ^ 64)
    (heven : leadingBits i.natAbs % 2 = 0) : (ofInt i).significand % 2 = 0 := by
  have hn : i.natAbs ≠ 0 := by omega
  have hlow := hiddenBit_le_leadingBits hn
  have hhigh := leadingBits_le i.natAbs
  unfold significand exponentField
  rw [magnitude_ofInt, (ofNatMagnitude_of_lt hn h).1]
  unfold hiddenBit at *
  split <;> omega

/-- A rational counted in units of the significand that an integer is rounded to, and in the direction
of the integer. -/
def inUnits (i : ℤ) (x : ℚ) : ℚ := i.sign * x * stepsPerOne / unit i.natAbs

section Units

variable {i : ℤ}

theorem inUnits_self : inUnits i i = (i.natAbs * stepsPerOne : Nat) / unit i.natAbs := by
  have hsign : (i.sign : ℚ) * i = i.natAbs := by
    rw [← Int.cast_mul, Int.sign_mul_self_eq_natAbs, Int.cast_natCast]
  unfold inUnits
  rw [hsign]
  push_cast
  rfl

theorem sign_mul_sign (hi : i ≠ 0) : (i.sign : ℚ) * i.sign = 1 := by
  have hsquare : i.sign * i.sign = 1 := by
    rw [← Int.natAbs_mul_self, Int.natAbs_sign_of_ne_zero hi]
    rfl
  exact_mod_cast hsquare

/-- Distances from the integer, counted in units. -/
theorem abs_sub_eq (hi : i ≠ 0) (x : ℚ) :
    |x - i| * (stepsPerOne / unit i.natAbs) = |inUnits i x - inUnits i i| := by
  have hunit := unit_pos i.natAbs
  have hone : (0 : ℚ) < stepsPerOne := by exact_mod_cast stepsPerOne_pos
  have hsign : |(i.sign : ℚ)| = 1 := by
    rw [← Int.cast_abs, Int.abs_eq_natAbs, Int.natAbs_sign_of_ne_zero hi]
    rfl
  have hdiff : inUnits i x - inUnits i i = i.sign * ((x - i) * (stepsPerOne / unit i.natAbs)) := by
    unfold inUnits
    ring
  rw [hdiff, abs_mul, hsign, one_mul, abs_mul, abs_of_pos (div_pos hone hunit)]

theorem eq_of_inUnits (hi : i ≠ 0) {x y : ℚ} (h : inUnits i x = inUnits i y) : x = y := by
  have hunit := unit_pos i.natAbs
  have hone : (0 : ℚ) < stepsPerOne := by exact_mod_cast stepsPerOne_pos
  have hsign := sign_mul_sign hi
  unfold inUnits at h
  rw [div_left_inj' hunit.ne', mul_left_inj' hone.ne'] at h
  calc x = i.sign * (i.sign * x) := by rw [← mul_assoc, hsign, one_mul]
    _ = i.sign * (i.sign * y) := by rw [h]
    _ = y := by rw [← mul_assoc, hsign, one_mul]

theorem inUnits_toRat (x : Double) :
    inUnits i x.toRat = ((i.sign * x.signedSteps : ℤ) : ℚ) / unit i.natAbs := by
  have hone : (stepsPerOne : ℚ) ≠ 0 := by exact_mod_cast stepsPerOne_pos.ne'
  unfold inUnits
  rw [toRat_eq, mul_assoc, div_mul_cancel₀ _ hone]
  push_cast
  rfl

/-- A double is a whole number of units, or it lies below all significands. -/
theorem inUnits_grid (i : ℤ) (x : Double) :
    (∃ k : ℤ, inUnits i x.toRat = k) ∨ inUnits i x.toRat < hiddenBit := by
  have hunit := unit_pos i.natAbs
  rw [inUnits_toRat]
  rcases steps_grid i.natAbs x.magnitude with ⟨k, hk⟩ | hlt
  · left
    refine ⟨i.sign * if x.isNegative then -(k : ℤ) else k, ?_⟩
    rw [div_eq_iff hunit.ne']
    unfold signedSteps
    rw [hk]
    cases x.isNegative
    · rw [if_neg Bool.false_ne_true, if_neg Bool.false_ne_true]
      push_cast
      ring
    · rw [if_pos rfl, if_pos rfl]
      push_cast
      ring
  · right
    rw [div_lt_iff₀ hunit]
    have hbound : i.sign * x.signedSteps ≤ steps x.magnitude := by
      unfold signedSteps
      rcases Int.sign_trichotomy i with h | h | h <;> rw [h] <;> split <;> omega
    have hlt' : i.sign * x.signedSteps < (hiddenBit * unit i.natAbs : Nat) := by omega
    exact_mod_cast hlt'

theorem inUnits_ofInt (hi : i ≠ 0) (h : i.natAbs < 2 ^ 64) :
    inUnits i (ofInt i).toRat = leadingBits i.natAbs := by
  have hn : i.natAbs ≠ 0 := by omega
  have hsteps : i.sign * (ofInt i).signedSteps = (leadingBits i.natAbs * unit i.natAbs : Nat) := by
    rw [signedSteps_ofInt, (ofNatMagnitude_of_lt hn h).1,
      steps_of_significand _ (hiddenBit_le_leadingBits hn) (leadingBits_le _)]
    rcases Int.lt_or_gt_of_ne hi with hneg | hpos
    · rw [Int.sign_eq_neg_one_of_neg hneg, if_pos hneg, Int.neg_mul_neg, Int.one_mul]
      rfl
    · rw [Int.sign_eq_one_of_pos hpos, if_neg (by omega), Int.one_mul]
      rfl
  rw [inUnits_toRat, hsteps, div_eq_iff (unit_pos _).ne']
  push_cast
  rfl

end Units

/-- The double nearest to an integer, of two equally near ones the one with the even significand. -/
structure Nearest (i : ℤ) (r : Double) : Prop where
  finite : r.isFinite = true
  near : ∀ y : Double, y.isFinite = true → |r.toRat - i| ≤ |y.toRat - i|
  even : ∀ y : Double, y.isFinite = true → y.toRat ≠ r.toRat → |y.toRat - i| = |r.toRat - i| →
    r.significand % 2 = 0

theorem toRat_ofInt_zero : (ofInt 0).toRat = 0 := by
  have hsteps : (ofInt 0).signedSteps = 0 := by decide
  rw [toRat_eq, hsteps, Int.cast_zero, zero_div]

/-- Rounding an integer gives the nearest double. -/
theorem nearest_ofInt {i : ℤ} (h : i.natAbs < 2 ^ 64) : Nearest i (ofInt i) := by
  by_cases hi : i = 0
  · subst hi
    have hself : |(ofInt 0).toRat - ((0 : ℤ) : ℚ)| = 0 := by
      rw [toRat_ofInt_zero, Int.cast_zero, sub_zero, abs_zero]
    refine ⟨isFinite_ofInt h, fun y _ => ?_, fun y _ hne heq => absurd ?_ hne⟩
    · rw [hself]
      exact abs_nonneg _
    · rw [hself, abs_eq_zero, Int.cast_zero, sub_zero] at heq
      rw [heq, toRat_ofInt_zero]
  · have hn : i.natAbs ≠ 0 := by omega
    have hone : (0 : ℚ) < stepsPerOne := by exact_mod_cast stepsPerOne_pos
    have hscale : (0 : ℚ) < stepsPerOne / unit i.natAbs := div_pos hone (unit_pos _)
    refine ⟨isFinite_ofInt h, fun y _ => ?_, fun y _ hne heq => ?_⟩
    · have hnear := (leadingBits_near hn (inUnits_grid i y)).1
      rw [← inUnits_self, ← inUnits_ofInt hi h, ← abs_sub_eq hi, ← abs_sub_eq hi] at hnear
      exact le_of_mul_le_mul_right hnear hscale
    · refine even_significand_ofInt hi h ((leadingBits_near hn (inUnits_grid i y)).2 ?_ ?_)
      · rw [← inUnits_ofInt hi h]
        exact fun hsame => hne (eq_of_inUnits hi hsame)
      · rw [← inUnits_self, ← inUnits_ofInt hi h, ← abs_sub_eq hi, ← abs_sub_eq hi, heq]

/-- An integer whose quotient leaves no rest is not rounded. -/
theorem toRat_ofInt_of_dvd {i : ℤ} (hi : i ≠ 0) (h : i.natAbs < 2 ^ 64)
    (hdvd : 2 ^ (i.natAbs.log2 - 52) ∣ i.natAbs * 2 ^ (52 - i.natAbs.log2)) :
    (ofInt i).toRat = i := by
  have hden : 0 < 2 ^ (i.natAbs.log2 - 52) := Nat.two_pow_pos _
  obtain ⟨k, hk⟩ := hdvd
  have hbits : leadingBits i.natAbs = k := by
    unfold leadingBits
    rw [hk, Nat.mul_comm, roundedQuotient_mul k hden]
  refine eq_of_inUnits hi ?_
  rw [inUnits_ofInt hi h, inUnits_self, ← quotient_eq, hbits, hk, Nat.cast_mul,
    mul_div_cancel_left₀]
  exact_mod_cast hden.ne'

/-- The integers up to `2 ^ 53` are doubles. -/
theorem toRat_ofInt_of_le {i : ℤ} (h : i.natAbs ≤ 2 ^ 53) : (ofInt i).toRat = i := by
  by_cases hi : i = 0
  · rw [hi, toRat_ofInt_zero, Int.cast_zero]
  · have hn : i.natAbs ≠ 0 := by omega
    refine toRat_ofInt_of_dvd hi (by omega) ?_
    rcases Nat.lt_or_eq_of_le h with hlt | heq
    · have hlog : i.natAbs.log2 < 53 := (Nat.log2_lt hn).2 hlt
      rw [show i.natAbs.log2 - 52 = 0 by omega]
      exact Nat.one_dvd _
    · rw [heq]
      decide

/-! ## Comparing an integer with a double -/

def exactInt (i : ℤ) : WithBot (WithTop ℚ) := (((i : ℚ) : WithTop ℚ) : WithBot (WithTop ℚ))

theorem exact_of_isFinite {x : Double} (h : x.isFinite = true) :
    x.exact = ((x.toRat : WithTop ℚ) : WithBot (WithTop ℚ)) := by
  rw [exact, if_pos h]

/-- No double lies strictly between an integer and the double it is rounded to. -/
theorem not_between_ofInt {i : ℤ} (h : i.natAbs < 2 ^ 64) (x : Double) :
    (exactInt i ≤ x.exact → ¬ x.exact < (ofInt i).exact) ∧
      (x.exact ≤ exactInt i → ¬ (ofInt i).exact < x.exact) := by
  have hnearest := nearest_ofInt h
  rw [exact_of_isFinite hnearest.finite]
  unfold exactInt
  by_cases hx : x.isFinite = true
  · have hnear := hnearest.near x hx
    rw [exact_of_isFinite hx]
    simp only [WithBot.coe_le_coe, WithBot.coe_lt_coe, WithTop.coe_le_coe, WithTop.coe_lt_coe]
    constructor
    · intro hle hlt
      rw [abs_of_nonneg (by linarith), abs_of_nonneg (by linarith)] at hnear
      linarith
    · intro hle hlt
      rw [abs_of_nonpos (by linarith), abs_of_nonpos (by linarith)] at hnear
      linarith
  · unfold exact
    rw [if_neg hx]
    cases x.isNegative with
    | false => exact ⟨fun _ => by simp, fun hle => absurd hle (by simp)⟩
    | true => exact ⟨fun hle => absurd hle (by simp), fun _ => by simp⟩

end Double

end DocumentStore
