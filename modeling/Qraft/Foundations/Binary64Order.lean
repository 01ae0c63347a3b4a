import Mathlib.Algebra.Order.Field.Power
import Mathlib.Tactic.Positivity
import Mathlib.Tactic.NormNum
import Mathlib.Tactic.Ring
import Qraft.Foundations.Binary64

/-! Rounding to doubles keeps the order of numbers. -/
namespace Decimal

/-- Half-even rounding of a quotient is monotone in the quotient. -/
theorem roundHalfEven_mono {n d n' d' : Nat} (hd : 0 < d) (hd' : 0 < d') (h : n * d' ≤ n' * d) :
    roundHalfEven n d ≤ roundHalfEven n' d' := by
  have hn := Nat.div_add_mod n d
  have hn' := Nat.div_add_mod n' d'
  have hr := Nat.mod_lt n hd
  have hr' := Nat.mod_lt n' hd'
  have hquot : n / d ≤ n' / d' := by
    rw [Nat.le_div_iff_mul_le hd']
    have hle : n / d * d ≤ n := Nat.div_mul_le_self n d
    apply Nat.le_of_mul_le_mul_right _ hd
    calc n / d * d' * d = n / d * d * d' := by ring
      _ ≤ n * d' := Nat.mul_le_mul_right _ hle
      _ ≤ n' * d := h
  rcases Nat.lt_or_eq_of_le hquot with hlt | heq
  · have hlow : n' / d' ≤ roundHalfEven n' d' := by
      unfold roundHalfEven
      split_ifs <;> omega
    have hhigh : roundHalfEven n d ≤ n / d + 1 := by
      unfold roundHalfEven
      split_ifs <;> omega
    omega
  · -- The quotients agree, so the remainders decide.
    have hrem : n % d * d' ≤ n' % d' * d := by
      have hleft : n * d' = d * (n / d) * d' + n % d * d' := by rw [← Nat.add_mul, hn]
      have hright : n' * d = d' * (n' / d') * d + n' % d' * d := by rw [← Nat.add_mul, hn']
      have hsame : d * (n / d) * d' = d' * (n' / d') * d := by rw [heq]; ring
      omega
    unfold roundHalfEven
    rw [heq]
    by_cases hlow : 2 * (n % d) < d
    · rw [if_pos hlow]
      split_ifs <;> omega
    rw [if_neg hlow]
    by_cases hhigh : d < 2 * (n % d)
    · have hhigh' : d' < 2 * (n' % d') := by nlinarith
      rw [if_pos hhigh, if_neg (by omega), if_pos hhigh']
    · have hhalf : d' ≤ 2 * (n' % d') := by nlinarith
      rw [if_neg hhigh, if_neg (by omega)]
      split_ifs <;> omega

theorem le_roundHalfEven {m n d : Nat} (hd : 0 < d) (h : m * d ≤ n) : m ≤ roundHalfEven n d := by
  have hmono := roundHalfEven_mono hd hd (Nat.mul_le_mul_right d h)
  rwa [roundHalfEven_mul m hd] at hmono

theorem roundHalfEven_le_of_le {m n d : Nat} (hd : 0 < d) (h : n ≤ m * d) : roundHalfEven n d ≤ m := by
  have hmono := roundHalfEven_mono hd hd (Nat.mul_le_mul_right d h)
  rwa [roundHalfEven_mul m hd] at hmono

end Decimal

namespace Binary64
open Decimal
variable {a b q x y : ℚ} {e : ℤ} {m : Nat}

theorem two_zpow_pos (e : ℤ) : (0 : ℚ) < 2 ^ e := zpow_pos (by norm_num) e

private theorem natAbs_cast {z : ℤ} (h : 0 ≤ z) : ((z.natAbs : ℕ) : ℚ) = z := by
  rw [← Int.cast_natCast, Int.natAbs_of_nonneg h]

/-- A positive number lies between two powers of two. -/
theorem binaryExponent_spec (ha : 0 < a) :
    (2 : ℚ) ^ binaryExponent a ≤ a ∧ a < 2 ^ (binaryExponent a + 1) := by
  have hnum : 0 < a.num := Rat.num_pos.mpr ha
  have hden : (0 : ℚ) < a.den := by exact_mod_cast a.den_pos
  have hvalue : a * a.den = a.num.natAbs := by rw [natAbs_cast hnum.le, Rat.mul_den_eq_num]
  have hn : (2 : ℚ) ^ (Nat.log2 a.num.natAbs : ℤ) ≤ a.num.natAbs := by
    exact_mod_cast Nat.log2_self_le (by omega)
  have hn' : (a.num.natAbs : ℚ) < 2 ^ ((Nat.log2 a.num.natAbs : ℤ) + 1) := by
    exact_mod_cast Nat.lt_log2_self
  have hd : (2 : ℚ) ^ (Nat.log2 a.den : ℤ) ≤ a.den := by exact_mod_cast Nat.log2_self_le a.den_pos.ne'
  have hd' : (a.den : ℚ) < 2 ^ ((Nat.log2 a.den : ℤ) + 1) := by exact_mod_cast Nat.lt_log2_self
  have hlow : (2 : ℚ) ^ ((Nat.log2 a.num.natAbs : ℤ) - Nat.log2 a.den - 1) ≤ a := by
    refine le_of_mul_le_mul_right ?_ hden
    calc (2 : ℚ) ^ ((Nat.log2 a.num.natAbs : ℤ) - Nat.log2 a.den - 1) * a.den
        ≤ 2 ^ ((Nat.log2 a.num.natAbs : ℤ) - Nat.log2 a.den - 1) * 2 ^ ((Nat.log2 a.den : ℤ) + 1) :=
          mul_le_mul_of_nonneg_left hd'.le (two_zpow_pos _).le
      _ = 2 ^ (Nat.log2 a.num.natAbs : ℤ) := by
          rw [← zpow_add₀ two_ne_zero]
          congr 1
          ring
      _ ≤ a * a.den := hvalue ▸ hn
  have hhigh : a < (2 : ℚ) ^ ((Nat.log2 a.num.natAbs : ℤ) - Nat.log2 a.den + 1) := by
    refine lt_of_mul_lt_mul_right ?_ hden.le
    calc a * a.den < 2 ^ ((Nat.log2 a.num.natAbs : ℤ) + 1) := hvalue ▸ hn'
      _ = 2 ^ ((Nat.log2 a.num.natAbs : ℤ) - Nat.log2 a.den + 1) * 2 ^ (Nat.log2 a.den : ℤ) := by
          rw [← zpow_add₀ two_ne_zero]
          congr 1
          ring
      _ ≤ 2 ^ ((Nat.log2 a.num.natAbs : ℤ) - Nat.log2 a.den + 1) * a.den :=
          mul_le_mul_of_nonneg_left hd (two_zpow_pos _).le
  unfold binaryExponent
  dsimp only
  split
  · rename_i hle
    exact ⟨hle, hhigh⟩
  · rename_i hlt
    refine ⟨hlow, ?_⟩
    rw [sub_add_cancel]
    exact not_le.mp hlt

theorem binaryExponent_mono (ha : 0 < a) (h : a ≤ b) : binaryExponent a ≤ binaryExponent b := by
  have hlt := (binaryExponent_spec ha).1.trans_lt (h.trans_lt (binaryExponent_spec (ha.trans_le h)).2)
  exact Int.lt_add_one_iff.mp ((zpow_lt_zpow_iff_right₀ (by norm_num)).mp hlt)

private theorem scale_pos (a : ℚ) (e : ℤ) : 0 < a.den * 2 ^ e.toNat :=
  Nat.mul_pos a.den_pos (Nat.pow_pos (by decide))

/-- The quotient that `units` rounds. -/
private theorem scale_eq (ha : 0 ≤ a) (e : ℤ) :
    ((a.num.natAbs * 2 ^ (-e).toNat : ℕ) : ℚ) = a / 2 ^ e * (a.den * 2 ^ e.toNat : ℕ) := by
  have hnum : (a.num : ℚ) = a * a.den := (Rat.mul_den_eq_num a).symm
  have hpow : (2 : ℚ) ^ e.toNat = 2 ^ (-e).toNat * 2 ^ e := by
    rw [← zpow_natCast, ← zpow_natCast, ← zpow_add₀ two_ne_zero]
    congr 1
    omega
  have hne := (two_zpow_pos e).ne'
  rw [Nat.cast_mul, Nat.cast_mul, Nat.cast_pow, Nat.cast_pow, Nat.cast_ofNat,
    natAbs_cast (Rat.num_nonneg.mpr ha), hnum, hpow]
  field_simp

theorem units_mono (ha : 0 ≤ a) (h : a ≤ b) (e : ℤ) : units a e ≤ units b e := by
  apply roundHalfEven_mono (scale_pos a e) (scale_pos b e)
  have hle : a / 2 ^ e ≤ b / 2 ^ e := div_le_div_of_nonneg_right h (two_zpow_pos e).le
  have hleft := scale_eq ha e
  have hright := scale_eq (ha.trans h) e
  generalize a.num.natAbs * 2 ^ (-e).toNat = n at hleft ⊢
  generalize b.num.natAbs * 2 ^ (-e).toNat = n' at hright ⊢
  generalize a.den * 2 ^ e.toNat = d at hleft ⊢
  generalize b.den * 2 ^ e.toNat = d' at hright ⊢
  have hmul : (0 : ℚ) ≤ (d : ℚ) * d' := by positivity
  have hcast : (n : ℚ) * d' ≤ n' * d := by
    calc (n : ℚ) * d' = a / 2 ^ e * (d * d') := by rw [hleft]; ring
      _ ≤ b / 2 ^ e * (d * d') := mul_le_mul_of_nonneg_right hle hmul
      _ = n' * d := by rw [hright]; ring
  exact_mod_cast hcast

theorem le_units (ha : 0 ≤ a) (h : m * 2 ^ e ≤ a) : m ≤ units a e := by
  apply le_roundHalfEven (scale_pos a e)
  have hle : (m : ℚ) ≤ a / 2 ^ e := (le_div_iff₀ (two_zpow_pos e)).mpr h
  have hscale := mul_le_mul_of_nonneg_right hle (Nat.cast_nonneg (a.den * 2 ^ e.toNat))
  rw [← scale_eq ha e] at hscale
  exact_mod_cast hscale

theorem units_le (ha : 0 ≤ a) (h : a ≤ m * 2 ^ e) : units a e ≤ m := by
  apply roundHalfEven_le_of_le (scale_pos a e)
  have hle : a / 2 ^ e ≤ (m : ℚ) := (div_le_iff₀ (two_zpow_pos e)).mpr h
  have hscale := mul_le_mul_of_nonneg_right hle (Nat.cast_nonneg (a.den * 2 ^ e.toNat))
  rw [← scale_eq ha e] at hscale
  exact_mod_cast hscale

theorem roundMagnitude_nonneg (a : ℚ) : 0 ≤ roundMagnitude a := by
  unfold roundMagnitude
  split
  · exact le_rfl
  · exact mul_nonneg (Nat.cast_nonneg _) (two_zpow_pos _).le

theorem roundMagnitude_mono (ha : 0 ≤ a) (h : a ≤ b) : roundMagnitude a ≤ roundMagnitude b := by
  rcases ha.eq_or_lt with rfl | hpos
  · exact (roundMagnitude_nonneg b).trans' (by rw [roundMagnitude, if_pos rfl])
  have hb : 0 < b := hpos.trans_le h
  have hexp := binaryExponent_mono hpos h
  rw [roundMagnitude, roundMagnitude, if_neg hpos.ne', if_neg hb.ne']
  dsimp only
  rcases (show max (binaryExponent a - 52) (-1074) ≤ max (binaryExponent b - 52) (-1074) by
    omega).eq_or_lt with he | hlt
  · rw [he]
    exact mul_le_mul_of_nonneg_right (by exact_mod_cast units_mono ha h _) (two_zpow_pos _).le
  · -- A power of two lies between the numbers, and between what they round to.
    have htop : max (binaryExponent b - 52) (-1074) = binaryExponent b - 52 := by omega
    rw [htop] at hlt ⊢
    generalize hea : max (binaryExponent a - 52) (-1074) = ea at hlt ⊢
    have hbelow : a ≤ 2 ^ binaryExponent b := by
      refine (binaryExponent_spec hpos).2.le.trans ?_
      exact zpow_le_zpow_right₀ (by norm_num) (by omega)
    have hleft : (units a ea : ℚ) * 2 ^ ea ≤ 2 ^ binaryExponent b := by
      have hsplit : (2 : ℚ) ^ binaryExponent b = ((2 ^ (binaryExponent b - ea).toNat : ℕ) : ℚ) * 2 ^ ea := by
        rw [Nat.cast_pow, Nat.cast_ofNat, ← zpow_natCast, ← zpow_add₀ two_ne_zero]
        congr 1
        omega
      rw [hsplit] at hbelow ⊢
      exact mul_le_mul_of_nonneg_right (by exact_mod_cast units_le ha hbelow) (two_zpow_pos _).le
    have hright : (2 : ℚ) ^ binaryExponent b ≤ units b (binaryExponent b - 52) * 2 ^ (binaryExponent b - 52) := by
      have hsplit : (2 : ℚ) ^ binaryExponent b = ((2 ^ 52 : ℕ) : ℚ) * 2 ^ (binaryExponent b - 52) := by
        rw [Nat.cast_pow, Nat.cast_ofNat, ← zpow_natCast, ← zpow_add₀ two_ne_zero]
        congr 1
        omega
      have hle := (binaryExponent_spec hb).1
      rw [hsplit] at hle
      calc (2 : ℚ) ^ binaryExponent b = ((2 ^ 52 : ℕ) : ℚ) * 2 ^ (binaryExponent b - 52) := hsplit
        _ ≤ _ := mul_le_mul_of_nonneg_right (by exact_mod_cast le_units hb.le hle) (two_zpow_pos _).le
    exact hleft.trans hright

theorem round_mono (h : x ≤ y) : round x ≤ round y := by
  unfold round
  split
  · rename_i hx
    split
    · rename_i hy
      refine neg_le_neg (roundMagnitude_mono (abs_nonneg y) ?_)
      rw [abs_of_neg hx, abs_of_neg hy]
      exact neg_le_neg h
    · exact (neg_nonpos.mpr (roundMagnitude_nonneg _)).trans (roundMagnitude_nonneg _)
  · rename_i hx
    rw [if_neg (not_lt.mpr ((not_lt.mp hx).trans h)), abs_of_nonneg (not_lt.mp hx),
      abs_of_nonneg ((not_lt.mp hx).trans h)]
    exact roundMagnitude_mono (not_lt.mp hx) h

/-- The rounded difference grows with what is subtracted from. -/
theorem minus_mono (h : x ≤ y) (q : ℚ) : minus x q ≤ minus y q :=
  round_mono (sub_le_sub_right (round_mono h) _)

end Binary64
