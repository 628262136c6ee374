import DocumentStore.Double.Rounding
import DocumentStore.Proofs.Store.KeyOrder
import Mathlib.Tactic.Ring

/-!
# Rounding integers

Rounding an integer to a double keeps the order: the leading bits of the larger integer make up the
larger magnitude.
-/

namespace DocumentStore

/-! ## Quotients -/

theorem le_roundedQuotient (num den : Nat) : num / den ≤ roundedQuotient num den := by
  unfold roundedQuotient
  dsimp only
  split <;> omega

theorem roundedQuotient_le (num den : Nat) : roundedQuotient num den ≤ num / den + 1 := by
  unfold roundedQuotient
  dsimp only
  split <;> omega

theorem roundedQuotient_mono {a b : Nat} (den : Nat) (h : a ≤ b) :
    roundedQuotient a den ≤ roundedQuotient b den := by
  have hquotient : a / den ≤ b / den := Nat.div_le_div_right h
  rcases Nat.lt_or_eq_of_le hquotient with hlt | heq
  · have ha := roundedQuotient_le a den
    have hb := le_roundedQuotient b den
    omega
  · have hda := Nat.div_add_mod a den
    have hdb := Nat.div_add_mod b den
    rw [heq] at hda
    have hrest : a % den ≤ b % den := by omega
    unfold roundedQuotient
    rw [heq]
    -- what rounds the larger number down rounds the smaller one down
    by_cases hdown : (decide (2 * (b % den) < den) ||
        (2 * (b % den) == den && b / den % 2 == 0)) = true
    · have hdown' : (decide (2 * (a % den) < den) ||
          (2 * (a % den) == den && b / den % 2 == 0)) = true := by
        simp only [Bool.or_eq_true, Bool.and_eq_true, decide_eq_true_eq, beq_iff_eq] at hdown ⊢
        omega
      rw [if_pos hdown, if_pos hdown']
    · rw [if_neg hdown]
      dsimp only
      split <;> omega

theorem roundedQuotient_mul {den : Nat} (k : Nat) (h : 0 < den) :
    roundedQuotient (k * den) den = k := by
  unfold roundedQuotient
  rw [Nat.mul_div_cancel k h, Nat.mul_mod_left]
  rw [if_pos (by simp [h])]

namespace Double

/-! ## Magnitudes of integers -/

def leadingBits (n : Nat) : Nat :=
  roundedQuotient (n * 2 ^ (52 - n.log2)) (2 ^ (n.log2 - 52))

def ofNatMagnitude (n : Nat) : Nat :=
  if n = 0 then 0
  else min ((n.log2 + 1022) * hiddenBit + leadingBits n) infiniteMagnitude

theorem floorLog2Ratio_one {n : Nat} (h : n ≠ 0) : floorLog2Ratio n 1 = n.log2 := by
  have hle : 2 ^ n.log2 ≤ n := Nat.log2_self_le h
  have he : (n.log2 : Int) - (Nat.log2 1 : Int) = n.log2 := by
    rw [show Nat.log2 1 = 0 from rfl]
    simp
  unfold floorLog2Ratio
  dsimp only
  rw [he, Int.toNat_natCast, if_pos]
  rw [show (-(n.log2 : Int)).toNat = 0 by omega]
  show 1 * 2 ^ n.log2 ≤ n * 2 ^ 0
  omega

theorem ofInt_eq (i : Int) :
    ofInt i = ofMagnitude (decide (i < 0)) (ofNatMagnitude i.natAbs) := by
  unfold ofInt ofRatio ofNatMagnitude
  rw [if_neg (by decide)]
  by_cases hzero : i.natAbs = 0
  · rw [if_pos hzero, if_pos hzero]
  · rw [if_neg hzero, if_neg hzero]
    dsimp only
    rw [floorLog2Ratio_one hzero]
    have hscale : max ((i.natAbs.log2 : Int) - 52) (-1074) = (i.natAbs.log2 : Int) - 52 := by omega
    rw [hscale]
    have hexponent : ((i.natAbs.log2 : Int) - 52 + 1074).toNat = i.natAbs.log2 + 1022 := by omega
    have hup : (-((i.natAbs.log2 : Int) - 52)).toNat = 52 - i.natAbs.log2 := by omega
    have hdown : ((i.natAbs.log2 : Int) - 52).toNat = i.natAbs.log2 - 52 := by omega
    rw [hexponent, hup, hdown, Nat.one_mul]
    rfl

theorem hiddenBit_le_leadingBits {n : Nat} (h : n ≠ 0) : hiddenBit ≤ leadingBits n := by
  have hle : 2 ^ n.log2 ≤ n := Nat.log2_self_le h
  have hnum : hiddenBit * 2 ^ (n.log2 - 52) ≤ n * 2 ^ (52 - n.log2) := by
    show 2 ^ 52 * 2 ^ (n.log2 - 52) ≤ n * 2 ^ (52 - n.log2)
    rw [← Nat.pow_add]
    calc 2 ^ (52 + (n.log2 - 52)) = 2 ^ (n.log2 + (52 - n.log2)) := by congr 1; omega
      _ = 2 ^ n.log2 * 2 ^ (52 - n.log2) := Nat.pow_add ..
      _ ≤ n * 2 ^ (52 - n.log2) := Nat.mul_le_mul_right _ hle
  have hmono := roundedQuotient_mono (2 ^ (n.log2 - 52)) hnum
  rw [roundedQuotient_mul hiddenBit (Nat.two_pow_pos _)] at hmono
  exact hmono

theorem leadingBits_le (n : Nat) : leadingBits n ≤ 2 * hiddenBit := by
  have hlt : n < 2 ^ (n.log2 + 1) := Nat.lt_log2_self
  have hnum : n * 2 ^ (52 - n.log2) ≤ (2 * hiddenBit) * 2 ^ (n.log2 - 52) := by
    show n * 2 ^ (52 - n.log2) ≤ 2 ^ 53 * 2 ^ (n.log2 - 52)
    rw [← Nat.pow_add]
    calc n * 2 ^ (52 - n.log2) ≤ 2 ^ (n.log2 + 1) * 2 ^ (52 - n.log2) :=
          Nat.mul_le_mul_right _ (Nat.le_of_lt hlt)
      _ = 2 ^ (n.log2 + 1 + (52 - n.log2)) := (Nat.pow_add ..).symm
      _ = 2 ^ (53 + (n.log2 - 52)) := by congr 1; omega
  have hmono := roundedQuotient_mono (2 ^ (n.log2 - 52)) hnum
  rw [roundedQuotient_mul (2 * hiddenBit) (Nat.two_pow_pos _)] at hmono
  exact hmono

theorem ofNatMagnitude_mono {a b : Nat} (h : a ≤ b) : ofNatMagnitude a ≤ ofNatMagnitude b := by
  unfold ofNatMagnitude
  by_cases ha : a = 0
  · rw [if_pos ha]
    exact Nat.zero_le _
  · have hb : b ≠ 0 := by omega
    rw [if_neg ha, if_neg hb]
    have hlog : a.log2 ≤ b.log2 := by
      rw [Nat.le_log2 hb]
      exact Nat.le_trans (Nat.log2_self_le ha) h
    have hle : (a.log2 + 1022) * hiddenBit + leadingBits a ≤
        (b.log2 + 1022) * hiddenBit + leadingBits b := by
      rcases Nat.lt_or_eq_of_le hlog with hlt | heq
      -- an exponent more is worth more than all leading bits
      · have hbits := leadingBits_le a
        have hbits' := hiddenBit_le_leadingBits hb
        have hexponents := Nat.mul_le_mul_right hiddenBit (show a.log2 + 1 + 1022 ≤ b.log2 + 1022 by omega)
        rw [show (a.log2 + 1 + 1022) * hiddenBit = (a.log2 + 1022) * hiddenBit + hiddenBit by ring]
          at hexponents
        omega
      · have hbits : leadingBits a ≤ leadingBits b := by
          unfold leadingBits
          rw [heq]
          exact roundedQuotient_mono _ (Nat.mul_le_mul_right _ h)
        rw [heq]
        omega
    omega

/-! ## The order of integers as doubles -/

theorem ofNatMagnitude_le (n : Nat) : ofNatMagnitude n ≤ infiniteMagnitude := by
  unfold ofNatMagnitude
  split <;> omega

theorem toNat_bits_ofMagnitude {m : Nat} (negative : Bool) (h : m ≤ infiniteMagnitude) :
    (ofMagnitude negative m).bits.toNat = m + if negative then signBit else 0 := by
  have hsign : infiniteMagnitude < signBit := by decide
  have htwice : signBit + signBit = 2 ^ 64 := rfl
  unfold ofMagnitude
  rw [UInt64.toNat_ofNat']
  refine Nat.mod_eq_of_lt ?_
  split <;> omega

theorem magnitude_ofMagnitude {m : Nat} (negative : Bool) (h : m ≤ infiniteMagnitude) :
    (ofMagnitude negative m).magnitude = m := by
  have hsign : infiniteMagnitude < signBit := by decide
  unfold magnitude
  rw [toNat_bits_ofMagnitude negative h]
  cases negative
  · exact Nat.mod_eq_of_lt (by simpa using Nat.lt_of_le_of_lt h hsign)
  · rw [if_pos rfl, Nat.add_mod_right]
    exact Nat.mod_eq_of_lt (Nat.lt_of_le_of_lt h hsign)

theorem isNegative_ofMagnitude {m : Nat} (negative : Bool) (h : m ≤ infiniteMagnitude) :
    (ofMagnitude negative m).isNegative = negative := by
  have hsign : infiniteMagnitude < signBit := by decide
  unfold isNegative
  rw [toNat_bits_ofMagnitude negative h]
  cases negative
  · exact decide_eq_false (by simpa using Nat.lt_of_le_of_lt h hsign)
  · exact decide_eq_true (by simp)

theorem rank_ofMagnitude {m : Nat} (negative : Bool) (h : m ≤ infiniteMagnitude) :
    (ofMagnitude negative m).rank = if negative then -(m : Int) else m := by
  have hnan : ¬ (ofMagnitude negative m).isNaN = true := by
    unfold isNaN
    rw [magnitude_ofMagnitude negative h]
    simpa using h
  rw [rank_of_not_isNaN hnan, magnitude_ofMagnitude negative h, isNegative_ofMagnitude negative h]

theorem rank_ofInt (i : Int) :
    (ofInt i).rank = if i < 0 then -(ofNatMagnitude i.natAbs : Int) else ofNatMagnitude i.natAbs := by
  rw [ofInt_eq, rank_ofMagnitude _ (ofNatMagnitude_le _)]
  simp

/-- Rounding to a double keeps the order of integers. -/
theorem rank_ofInt_mono {i j : Int} (h : i ≤ j) : (ofInt i).rank ≤ (ofInt j).rank := by
  rw [rank_ofInt, rank_ofInt]
  by_cases hi : i < 0
  · by_cases hj : j < 0
    · have hmono := ofNatMagnitude_mono (show j.natAbs ≤ i.natAbs by omega)
      rw [if_pos hi, if_pos hj]
      omega
    · rw [if_pos hi, if_neg hj]
      omega
  · have hj : ¬ j < 0 := by omega
    have hmono := ofNatMagnitude_mono (show i.natAbs ≤ j.natAbs by omega)
    rw [if_neg hi, if_neg hj]
    omega

end Double

end DocumentStore
