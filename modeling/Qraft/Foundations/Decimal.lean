import Mathlib.Algebra.Order.Field.Power
import Mathlib.Algebra.Order.Ring.Rat
import Mathlib.Tactic.FieldSimp
import Mathlib.Tactic.Linarith
import Mathlib.Tactic.Positivity
import Mathlib.Tactic.Ring

/-! Decimal floating point: 28 digits, ties to even, exponents up to 999999, and the traps of the
default context, so that an invalid operation, an overflow and a division by zero are `none`. -/

inductive Decimal where
  | finite (negative : Bool) (coefficient : Nat) (exponent : ℤ)
  | infinity (negative : Bool)
  | nan (negative signaling : Bool) (payload : Nat)
  deriving DecidableEq, Repr

namespace Decimal

def prec : Nat := 28
def eMax : ℤ := 999999
/-- The exponents that a rounded coefficient of 28 digits may have. -/
def eTiny : ℤ := -1000026
def eTop : ℤ := 999972

def signed (negative : Bool) (n : Nat) : ℤ := if negative then -n else n

theorem signed_natAbs_self (n : ℤ) : signed (decide (n < 0)) n.natAbs = n := by
  unfold signed
  split
  · rename_i hneg
    rw [decide_eq_true_eq] at hneg
    omega
  · rename_i hneg
    rw [decide_eq_true_eq] at hneg
    omega

def value : Decimal → Option ℚ
  | finite negative c e => some ((signed negative c : ℚ) * 10 ^ e)
  | _ => none

def ofInt (n : ℤ) : Decimal := finite (n < 0) n.natAbs 0

theorem value_ofInt (n : ℤ) : (ofInt n).value = some (n : ℚ) := by
  rw [ofInt, value, signed_natAbs_self, zpow_zero, mul_one]

def numDigits (n : Nat) : Nat := (Nat.toDigits 10 n).length

def roundHalfEven (n d : Nat) : Nat :=
  if 2 * (n % d) < d then n / d
  else if d < 2 * (n % d) then n / d + 1
  else n / d + n / d % 2

/-- The rounding of an exact result. -/
def fix (negative : Bool) (c : Nat) (e : ℤ) : Option Decimal :=
  if c = 0 then some (finite negative 0 (max eTiny (min e eMax)))
  else
    let expMin := max (numDigits c + e - prec) eTiny
    if eTop < numDigits c + e - prec then none
    else if e < expMin then
      let rounded := roundHalfEven c (10 ^ (expMin - e).toNat)
      if rounded = 10 ^ prec then
        if eTop < expMin + 1 then none else some (finite negative (10 ^ (prec - 1)) (expMin + 1))
      else some (finite negative rounded expMin)
    else some (finite negative c e)

def isNan : Decimal → Bool
  | nan .. => true
  | _ => false

/-- The operand that a not-a-number makes the result. -/
def nanOf : Decimal → Decimal → Option Decimal
  | nan _ true _, _ | _, nan _ true _ => none
  | nan n _ p, _ => some (nan n false p)
  | _, b => some b

def add (a b : Decimal) : Option Decimal :=
  match a, b with
  | nan .., _ | _, nan .. => nanOf a b
  | infinity m, infinity n => if m = n then some a else none
  | infinity _, _ => some a
  | _, infinity _ => some b
  | finite m c e, finite n d f =>
    let exponent := min e f
    let total := signed m c * 10 ^ (e - exponent).toNat + signed n d * 10 ^ (f - exponent).toNat
    fix (if total = 0 then m && n else total < 0) total.natAbs exponent

def copyNegate : Decimal → Decimal
  | finite n c e => finite (!n) c e
  | infinity n => infinity !n
  | nan n s p => nan (!n) s p

def sub (a b : Decimal) : Option Decimal := if a.isNan || b.isNan then nanOf a b else add a b.copyNegate

def mul (a b : Decimal) : Option Decimal :=
  match a, b with
  | nan .., _ | _, nan .. => nanOf a b
  | infinity m, infinity n => some (infinity (m != n))
  | infinity m, finite n c _ | finite n c _, infinity m => if c = 0 then none else some (infinity (m != n))
  | finite m c e, finite n d f => fix (m != n) (c * d) (e + f)

/-- At most so many trailing zeros off a coefficient, and how many there were. -/
def stripZeros : Nat → Nat → Nat × Nat
  | 0, c => (c, 0)
  | k + 1, c =>
    if c % 10 = 0 then
      let (c', zeros) := stripZeros k (c / 10)
      (c', zeros + 1)
    else (c, 0)

def div (a b : Decimal) : Option Decimal :=
  match a, b with
  | nan .., _ | _, nan .. => nanOf a b
  | infinity _, infinity _ => none
  | infinity m, finite n _ _ => some (infinity (m != n))
  | finite m _ _, infinity n => some (finite (m != n) 0 eTiny)
  | finite m c e, finite n d f =>
    if d = 0 then none
    else if c = 0 then fix (m != n) 0 (e - f)
    else
      let shift : ℤ := numDigits d - numDigits c + prec + 1
      let dividend := c * 10 ^ shift.toNat
      let divisor := d * 10 ^ (-shift).toNat
      let quotient := dividend / divisor
      let exponent := e - f - shift
      if dividend % divisor ≠ 0 then
        -- The last digit stands for all that follow it.
        fix (m != n) (if quotient % 5 = 0 then quotient + 1 else quotient) exponent
      else
        let (reduced, zeros) := stripZeros (e - f - exponent).toNat quotient
        fix (m != n) reduced (exponent + zeros)

/-- `max(d, Decimal(0))`; a not-a-number cannot be ordered. -/
def maxZero : Decimal → Option Decimal
  | nan .. => none
  | infinity negative => some (if negative then finite false 0 0 else infinity false)
  | finite negative c e => some (if negative && c ≠ 0 then finite false 0 0 else finite negative c e)

/-- A number of at most 28 digits, with an exponent in range. -/
def Fits (q : ℚ) : Prop := ∃ n e : ℤ, q = n * 10 ^ e ∧ |n| < 10 ^ prec ∧ eTiny ≤ e ∧ e ≤ eTop

theorem roundHalfEven_mul (k : Nat) {d : Nat} (hd : 0 < d) : roundHalfEven (k * d) d = k := by
  have hdvd : k * d / d = k := Nat.mul_div_cancel k hd
  rw [roundHalfEven, Nat.mul_mod_left, hdvd, if_pos (by omega)]

theorem lt_pow_numDigits (c : Nat) : c < 10 ^ numDigits c :=
  (Nat.length_toDigits_le_iff (by decide) Nat.length_toDigits_pos).mp le_rfl

theorem pow_numDigits_le {c : Nat} (hc : c ≠ 0) : 10 ^ (numDigits c - 1) ≤ c := by
  by_contra hlt
  rw [not_le] at hlt
  rcases Nat.eq_zero_or_pos (numDigits c - 1) with hzero | hpos
  · rw [hzero, pow_zero] at hlt
    omega
  · have hle : numDigits c ≤ numDigits c - 1 := (Nat.length_toDigits_le_iff (by decide) hpos).mpr hlt
    omega

private theorem ten_pos : (0 : ℚ) < 10 := by norm_num

private theorem one_lt_ten : (1 : ℚ) < 10 := by norm_num

/-- A number that fits, against its own coefficient. -/
private theorem exponent_bounds {c n : Nat} {e f : ℤ} (hc : c ≠ 0) (h : (c : ℚ) * 10 ^ e = n * 10 ^ f)
    (hn : n < 10 ^ prec) : numDigits c + e - prec ≤ f := by
  have hdigits : 1 ≤ numDigits c := Nat.length_toDigits_pos
  have hlow : (10 : ℚ) ^ ((numDigits c - 1 : Nat) : ℤ) ≤ c := by
    rw [zpow_natCast]
    exact_mod_cast pow_numDigits_le hc
  have hhigh : (n : ℚ) < 10 ^ ((prec : Nat) : ℤ) := by
    rw [zpow_natCast]
    exact_mod_cast hn
  have hlt : (10 : ℚ) ^ (((numDigits c - 1 : Nat) : ℤ) + e) < 10 ^ ((prec : ℤ) + f) := by
    calc (10 : ℚ) ^ (((numDigits c - 1 : Nat) : ℤ) + e)
        = 10 ^ ((numDigits c - 1 : Nat) : ℤ) * 10 ^ e := zpow_add₀ ten_pos.ne' _ _
      _ ≤ c * 10 ^ e := mul_le_mul_of_nonneg_right hlow (zpow_nonneg ten_pos.le e)
      _ = n * 10 ^ f := h
      _ < 10 ^ (prec : ℤ) * 10 ^ f := mul_lt_mul_of_pos_right hhigh (zpow_pos ten_pos f)
      _ = 10 ^ ((prec : ℤ) + f) := (zpow_add₀ ten_pos.ne' _ _).symm
  have hexp := (zpow_lt_zpow_iff_right₀ one_lt_ten).mp hlt
  omega

/-- The shift of a coefficient that has the zeros to give. -/
private theorem coefficient_eq {c n : Nat} {e f : ℤ} (h : (c : ℚ) * 10 ^ e = n * 10 ^ f) (hle : e ≤ f) :
    c = n * 10 ^ (f - e).toNat := by
  have hshift : (10 : ℚ) ^ f = 10 ^ ((f - e).toNat : ℤ) * 10 ^ e := by
    rw [← zpow_add₀ ten_pos.ne']
    congr 1
    omega
  rw [hshift, ← mul_assoc] at h
  have hcancel := mul_right_cancel₀ (zpow_ne_zero e ten_pos.ne') h
  rw [zpow_natCast] at hcancel
  exact_mod_cast hcancel

/-- A result that fits is not rounded. -/
theorem fix_exact {negative : Bool} {c : Nat} {e : ℤ} (h : Fits (c * 10 ^ e)) :
    ∃ d, fix negative c e = some d ∧ d.value = some ((signed negative c : ℚ) * 10 ^ e) := by
  by_cases hc : c = 0
  · subst hc
    refine ⟨finite negative 0 (max eTiny (min e eMax)), by simp [fix], ?_⟩
    simp [value, signed]
  · obtain ⟨n, f, hq, hn, htiny, htop⟩ := h
    have hnonneg : 0 ≤ n := by
      have hpos : (0 : ℚ) ≤ n * 10 ^ f := hq ▸ mul_nonneg (Nat.cast_nonneg c) (zpow_nonneg ten_pos.le e)
      exact_mod_cast nonneg_of_mul_nonneg_left hpos (zpow_pos ten_pos f)
    lift n to Nat using hnonneg
    rw [Nat.abs_cast] at hn
    have hn' : n < 10 ^ prec := by exact_mod_cast hn
    have hbound := exponent_bounds hc hq hn'
    have hnot : ¬ eTop < numDigits c + e - prec := by omega
    unfold fix
    rw [if_neg hc]
    dsimp only
    rw [if_neg hnot]
    split
    · rename_i hlt
      have hle : max (numDigits c + e - prec) eTiny ≤ f := max_le hbound htiny
      generalize hmin : max (numDigits c + e - prec) eTiny = expMin at hlt hle ⊢
      -- The digits to go are zeros.
      have hc' := coefficient_eq hq (hlt.le.trans hle)
      have hsplit : (f - e).toNat = (f - expMin).toNat + (expMin - e).toNat := by omega
      rw [hsplit, pow_add, ← mul_assoc] at hc'
      generalize hk : n * 10 ^ (f - expMin).toNat = k at hc'
      have hpow : 0 < 10 ^ (expMin - e).toNat := Nat.pow_pos (by decide)
      have hround : roundHalfEven c (10 ^ (expMin - e).toNat) = k := by
        rw [hc']
        exact roundHalfEven_mul k hpow
      have hsmall : k < 10 ^ prec := by
        have hlong : numDigits c ≤ prec + (expMin - e).toNat := by omega
        have hclt := (lt_pow_numDigits c).trans_le (Nat.pow_le_pow_right (by decide) hlong)
        rw [hc', pow_add] at hclt
        exact lt_of_mul_lt_mul_right hclt (Nat.zero_le _)
      rw [hround, if_neg hsmall.ne]
      refine ⟨_, rfl, ?_⟩
      have hshift : (10 : ℚ) ^ expMin = 10 ^ ((expMin - e).toNat : ℤ) * 10 ^ e := by
        rw [← zpow_add₀ ten_pos.ne']
        congr 1
        omega
      have hvalue : ((signed negative k : ℤ) : ℚ) * 10 ^ expMin = (signed negative c : ℤ) * 10 ^ e := by
        rw [hc', hshift, ← mul_assoc, zpow_natCast]
        cases negative <;> simp [signed]
      rw [value, hvalue]
    · exact ⟨_, rfl, rfl⟩

private theorem signed_natAbs (t : ℤ) {negative : Bool} (h : t ≠ 0 → (negative = true ↔ t < 0)) :
    signed negative t.natAbs = t := by
  unfold signed
  rcases lt_trichotomy t 0 with hlt | rfl | hgt
  · rw [if_pos ((h hlt.ne).mpr hlt)]
    omega
  · simp
  · rw [if_neg fun hneg => absurd ((h hgt.ne').mp hneg) hgt.le.not_gt]
    omega

/-- A sum that fits is exact. -/
theorem add_exact {a b : Decimal} {p q : ℚ} (ha : a.value = some p) (hb : b.value = some q)
    (h : Fits (p + q)) : ∃ d, add a b = some d ∧ d.value = some (p + q) := by
  cases a with
  | infinity m => cases ha
  | nan m t x => cases ha
  | finite m c e =>
    cases b with
    | infinity n => cases hb
    | nan n t x => cases hb
    | finite n d f =>
      cases ha
      cases hb
      simp only [add]
      generalize hexponent : min e f = x
      generalize htotal : signed m c * 10 ^ (e - x).toNat + signed n d * 10 ^ (f - x).toNat = t
      have hshift {y : ℤ} (hy : x ≤ y) : (10 : ℚ) ^ y = 10 ^ (y - x).toNat * 10 ^ x := by
        rw [← zpow_natCast, ← zpow_add₀ ten_pos.ne']
        congr 1
        omega
      have hsum : (signed m c : ℚ) * 10 ^ e + signed n d * 10 ^ f = t * 10 ^ x := by
        rw [hshift (by omega : x ≤ e), hshift (by omega : x ≤ f), ← htotal]
        push_cast
        ring
      have habs : (t.natAbs : ℚ) * 10 ^ x = |(t : ℚ) * 10 ^ x| := by
        rw [abs_mul, abs_of_pos (zpow_pos ten_pos x), Nat.cast_natAbs, Int.cast_abs]
      rw [hsum] at h ⊢
      have hfits : Fits (t.natAbs * 10 ^ x) := by
        obtain ⟨k, g, hk, hsmall, hlow, hhigh⟩ := h
        refine ⟨|k|, g, ?_, by rw [abs_abs]; exact hsmall, hlow, hhigh⟩
        rw [habs, hk, abs_mul, abs_of_pos (zpow_pos ten_pos g), Int.cast_abs]
      obtain ⟨r, hr, hvalue⟩ := fix_exact hfits
      refine ⟨r, hr, ?_⟩
      rw [hvalue, signed_natAbs t]
      intro hne
      rw [if_neg hne, decide_eq_true_eq]

/-- Numbers that are multiples of one unit, and together less than 28 digits of it. -/
def FitTogether (qs : List ℚ) : Prop :=
  ∃ e : ℤ, eTiny ≤ e ∧ e ≤ eTop ∧ (∀ q ∈ qs, ∃ n : ℤ, q = n * 10 ^ e) ∧
    (qs.map fun q => |q|).sum < 10 ^ prec * 10 ^ e

private theorem sum_abs_nonneg (qs : List ℚ) : 0 ≤ (qs.map fun q => |q|).sum := by
  apply List.sum_nonneg
  intro x hx
  obtain ⟨q, -, rfl⟩ := List.mem_map.mp hx
  exact abs_nonneg q

theorem abs_sum_le (qs : List ℚ) : |qs.sum| ≤ (qs.map fun q => |q|).sum := by
  induction qs with
  | nil => simp
  | cons q qs ih =>
    rw [List.sum_cons, List.map_cons, List.sum_cons]
    exact (abs_add_le q qs.sum).trans (by linarith)

private theorem fits_of_unit {e n : ℤ} (htiny : eTiny ≤ e) (htop : e ≤ eTop)
    (h : |(n : ℚ) * 10 ^ e| < 10 ^ prec * 10 ^ e) : Fits (n * 10 ^ e) := by
  refine ⟨n, e, rfl, ?_, htiny, htop⟩
  rw [abs_mul, abs_of_pos (zpow_pos ten_pos e)] at h
  have hn : |(n : ℚ)| < 10 ^ prec := lt_of_mul_lt_mul_right h (zpow_nonneg ten_pos.le e)
  exact_mod_cast hn

/-- Adding up numbers that fit together is exact, also where the total is written anew in between. -/
private theorem foldlM_add_units {f : Decimal → Decimal} (hf : ∀ d q, d.value = some q → (f d).value = some q)
    {e : ℤ} (htiny : eTiny ≤ e) (htop : e ≤ eTop) {ds : List Decimal} {qs : List ℚ}
    (hds : List.Forall₂ (fun d q => d.value = some q) ds qs) {start : Decimal} {m : ℤ}
    (hstart : start.value = some ((m : ℚ) * 10 ^ e)) (hunits : ∀ q ∈ qs, ∃ n : ℤ, q = n * 10 ^ e)
    (hsum : |(m : ℚ) * 10 ^ e| + (qs.map fun q => |q|).sum < 10 ^ prec * 10 ^ e) :
    ∃ d, ds.foldlM (fun total d => (f total).add d) start = some d ∧
      d.value = some ((m : ℚ) * 10 ^ e + qs.sum) := by
  induction hds generalizing start m with
  | nil => exact ⟨start, rfl, by rw [List.sum_nil, add_zero]; exact hstart⟩
  | @cons d q ds qs hd _ ih =>
    obtain ⟨n, hq⟩ := hunits q List.mem_cons_self
    rw [List.map_cons, List.sum_cons] at hsum
    have hnonneg := sum_abs_nonneg qs
    have hcast : (m : ℚ) * 10 ^ e + q = ((m + n : ℤ) : ℚ) * 10 ^ e := by
      rw [hq]
      push_cast
      ring
    have habs : |(m : ℚ) * 10 ^ e + q| ≤ |(m : ℚ) * 10 ^ e| + |q| := abs_add_le _ _
    have hfits : Fits ((m : ℚ) * 10 ^ e + q) := by
      rw [hcast]
      apply fits_of_unit htiny htop
      rw [← hcast]
      linarith
    obtain ⟨next, hadd, hnext⟩ := add_exact (hf _ _ hstart) hd hfits
    rw [hcast] at hnext
    have hbound : |((m + n : ℤ) : ℚ) * 10 ^ e| + (qs.map fun q => |q|).sum < 10 ^ prec * 10 ^ e := by
      rw [← hcast]
      linarith
    obtain ⟨r, hr, hvalue⟩ := ih hnext (fun q hin => hunits q (List.mem_cons_of_mem _ hin)) hbound
    refine ⟨r, ?_, ?_⟩
    · rw [List.foldlM_cons, hadd]
      exact hr
    · rw [hvalue, ← hcast, List.sum_cons, add_assoc]

theorem foldlM_rewritten_exact {f : Decimal → Decimal} (hf : ∀ d q, d.value = some q → (f d).value = some q)
    {ds : List Decimal} {qs : List ℚ} (hds : List.Forall₂ (fun d q => d.value = some q) ds qs)
    (h : FitTogether qs) :
    ∃ d, ds.foldlM (fun total d => (f total).add d) (ofInt 0) = some d ∧ d.value = some qs.sum := by
  obtain ⟨e, htiny, htop, hunits, hsum⟩ := h
  have hzero : (ofInt 0).value = some (((0 : ℤ) : ℚ) * 10 ^ e) := by simp [ofInt, value, signed]
  obtain ⟨d, hd, hvalue⟩ := foldlM_add_units hf htiny htop hds hzero hunits (by simpa using hsum)
  refine ⟨d, hd, ?_⟩
  rw [hvalue]
  simp

theorem foldlM_add_exact {ds : List Decimal} {qs : List ℚ}
    (hds : List.Forall₂ (fun d q => d.value = some q) ds qs) (h : FitTogether qs) :
    ∃ d, ds.foldlM add (ofInt 0) = some d ∧ d.value = some qs.sum :=
  foldlM_rewritten_exact (f := id) (fun _ _ hq => hq) hds h

theorem FitTogether.perm {ps qs : List ℚ} (h : FitTogether qs) (hp : ps.Perm qs) : FitTogether ps := by
  obtain ⟨e, htiny, htop, hunits, hsum⟩ := h
  refine ⟨e, htiny, htop, fun q hq => hunits q (hp.mem_iff.mp hq), ?_⟩
  rw [(hp.map fun q => |q|).sum_eq]
  exact hsum

theorem FitTogether.sublist {ps qs : List ℚ} (h : FitTogether qs) (hs : ps.Sublist qs) :
    FitTogether ps := by
  obtain ⟨e, htiny, htop, hunits, hsum⟩ := h
  refine ⟨e, htiny, htop, fun q hq => hunits q (hs.subset hq), lt_of_le_of_lt ?_ hsum⟩
  apply (hs.map fun q => |q|).sum_le_sum
  intro x hx
  obtain ⟨q, -, rfl⟩ := List.mem_map.mp hx
  exact abs_nonneg q

private theorem sum_units {e : ℤ} {qs : List ℚ} (h : ∀ q ∈ qs, ∃ n : ℤ, q = n * 10 ^ e) :
    ∃ n : ℤ, qs.sum = n * 10 ^ e := by
  induction qs with
  | nil => exact ⟨0, by simp⟩
  | cons q qs ih =>
    obtain ⟨n, hn⟩ := h q List.mem_cons_self
    obtain ⟨m, hm⟩ := ih fun q hq => h q (List.mem_cons_of_mem _ hq)
    refine ⟨n + m, ?_⟩
    rw [List.sum_cons, hn, hm]
    push_cast
    ring

/-- So do the sums of its parts. -/
theorem FitTogether.sums {qss : List (List ℚ)} (h : FitTogether qss.flatten) :
    FitTogether (qss.map List.sum) := by
  obtain ⟨e, htiny, htop, hunits, hsum⟩ := h
  refine ⟨e, htiny, htop, ?_, lt_of_le_of_lt ?_ hsum⟩
  · intro q hq
    obtain ⟨qs, hqs, rfl⟩ := List.mem_map.mp hq
    exact sum_units fun q hq => hunits q (List.mem_flatten.mpr ⟨qs, hqs, hq⟩)
  · clear hunits hsum
    induction qss with
    | nil => simp
    | cons qs qss ih =>
      rw [List.map_cons, List.map_cons, List.sum_cons, List.flatten_cons, List.map_append, List.sum_append]
      exact add_le_add (abs_sum_le qs) ih

/-- Two of them, one after the other. -/
theorem FitTogether.pair {p q : ℚ} (h : FitTogether [p, q]) : Fits (p + q) := by
  obtain ⟨e, htiny, htop, hunits, hsum⟩ := h
  obtain ⟨m, hm⟩ := hunits p (by simp)
  obtain ⟨n, hn⟩ := hunits q (by simp)
  have hcast : p + q = ((m + n : ℤ) : ℚ) * 10 ^ e := by
    rw [hm, hn]
    push_cast
    ring
  rw [hcast]
  apply fits_of_unit htiny htop
  rw [← hcast]
  have habs : |p + q| ≤ |p| + |q| := abs_add_le _ _
  simp at hsum
  linarith

end Decimal
