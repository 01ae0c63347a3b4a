import Qraft.Foundations.DecimalText

/-! The exact decimals of SQL's `numeric`: an integer and the number of its digits behind the point. -/

inductive Numeric where
  | finite (n : ℤ) (scale : Nat)
  | infinity (negative : Bool)
  | nan
  deriving DecidableEq, Repr

namespace Numeric
open Decimal

/-- The most digits before the point, and behind it. -/
def maxWhole : Nat := 131072
def maxScale : Nat := 16383

/-- `none`: the number overflows the format. -/
def limited (n : ℤ) (scale : Nat) : Option Numeric :=
  if numDigits n.natAbs ≤ maxWhole + scale ∧ scale ≤ maxScale then some (finite n scale) else none

def zero : Numeric := finite 0 0

def value : Numeric → Option ℚ
  | finite n scale => some (n * 10 ^ (-(scale : ℤ)))
  | _ => none

/-- The cast of a decimal's text. A not-a-number has no sign and no payload. -/
def ofDecimal : Decimal → Option Numeric
  | .finite negative c e =>
    if e ≤ 0 then limited (signed negative c) (-e).toNat
    else if e ≤ maxWhole then limited (signed negative c * 10 ^ e.toNat) 0
    else none
  | .infinity negative => some (infinity negative)
  | .nan false false 0 => some nan
  | .nan .. => none

def add : Numeric → Numeric → Option Numeric
  | nan, _ | _, nan => some nan
  | infinity m, infinity n => some (if m = n then infinity m else nan)
  | infinity m, _ | _, infinity m => some (infinity m)
  | finite n s, finite m t =>
    limited (n * 10 ^ (max s t - s) + m * 10 ^ (max s t - t)) (max s t)

def text : Numeric → List Char
  | finite n scale =>
    let digits := Nat.toDigits 10 n.natAbs
    let (whole, fraction) := placePoint digits (digits.length - scale)
    signText (n < 0) ++ (whole ++ point fraction)
  | infinity negative => signText negative ++ "Infinity".toList
  | nan => "NaN".toList

/-- The parts of `-?[0-9]+(\.[0-9]+)?`, the whole text. -/
def plainParts (cs : List Char) : Option (Bool × List Char × List Char) :=
  let (negative, body) : Bool × List Char :=
    match cs with
    | '-' :: rest => (true, rest)
    | rest => (false, rest)
  let whole := body.takeWhile Char.isDigit
  if whole = [] then none
  else
    match body.dropWhile Char.isDigit with
    | [] => some (negative, whole, [])
    | '.' :: fraction =>
      if fraction ≠ [] ∧ fraction.all Char.isDigit then some (negative, whole, fraction) else none
    | _ => none

def ofParts : Bool × List Char × List Char → Option Numeric
  | (negative, whole, fraction) =>
    limited (signed negative (Nat.ofDigitChars 10 (whole ++ fraction) 0)) fraction.length

theorem eq_of_limited {n : ℤ} {scale : Nat} {x : Numeric} (h : limited n scale = some x) :
    x = finite n scale ∧ numDigits n.natAbs ≤ maxWhole + scale ∧ scale ≤ maxScale := by
  unfold limited at h
  split at h
  · rename_i hle
    cases h
    exact ⟨rfl, hle⟩
  · cases h

/-- The cast keeps the number. -/
theorem value_ofDecimal {d : Decimal} {x : Numeric} (h : ofDecimal d = some x) : x.value = d.value := by
  cases d with
  | finite negative c e =>
    rw [ofDecimal] at h
    split at h
    · rename_i hle
      obtain ⟨rfl, -, -⟩ := eq_of_limited h
      have he : -(((-e).toNat : Nat) : ℤ) = e := by omega
      rw [value, he, Decimal.value]
    · rename_i hpos
      split at h
      · obtain ⟨rfl, -, -⟩ := eq_of_limited h
        have he : ((e.toNat : Nat) : ℤ) = e := by omega
        have hpow : (10 : ℚ) ^ e = 10 ^ e.toNat := by
          rw [← zpow_natCast, he]
        rw [value, Decimal.value, hpow]
        push_cast
        rw [mul_one]
      · cases h
  | infinity negative =>
    cases h
    rfl
  | nan negative signaling payload =>
    unfold ofDecimal at h
    split at h
    · rename_i heq
      cases heq
    · rename_i heq
      cases heq
    · cases h
      rfl
    · cases h

/-- The sum of two numbers is exact. -/
theorem value_add {x y z : Numeric} {p q : ℚ} (hx : x.value = some p) (hy : y.value = some q)
    (h : x.add y = some z) : z.value = some (p + q) := by
  cases x with
  | infinity m => cases hx
  | nan => cases hx
  | finite n s =>
    cases y with
    | infinity m => cases hy
    | nan => cases hy
    | finite m t =>
      cases hx
      cases hy
      obtain ⟨rfl, -, -⟩ := eq_of_limited h
      have hshift {r : Nat} (hr : r ≤ max s t) :
          (10 : ℚ) ^ (-(r : ℤ)) = 10 ^ (max s t - r) * 10 ^ (-((max s t : Nat) : ℤ)) := by
        rw [← zpow_natCast, ← zpow_add₀ (by norm_num)]
        congr 1
        omega
      rw [value, hshift (le_max_left s t), hshift (le_max_right s t)]
      push_cast
      congr 1
      ring

/-- What is no number stays what it is. -/
theorem add_special {x y : Numeric} {p : ℚ} (hx : x.value = some p) (hy : y.value = none) :
    x.add y = some y := by
  cases x with
  | infinity m => cases hx
  | nan => cases hx
  | finite n s =>
    cases y with
    | infinity m => rfl
    | nan => rfl
    | finite m t => cases hy

/-- What is no number is written as the decimal is. -/
theorem text_special {d : Decimal} {x : Numeric} (h : ofDecimal d = some x) (hd : d.value = none) :
    x.text = d.text := by
  cases d with
  | finite negative c e => cases hd
  | infinity negative =>
    cases h
    rfl
  | nan negative signaling payload =>
    unfold ofDecimal at h
    split at h
    · rename_i heq
      cases heq
    · rename_i heq
      cases heq
    · rename_i heq
      cases h
      cases heq
      rfl
    · cases h

def Within : Numeric → Prop
  | finite n scale => numDigits n.natAbs ≤ maxWhole + scale ∧ scale ≤ maxScale
  | _ => True

theorem within_add {x y z : Numeric} (h : x.add y = some z) : Within z := by
  cases x with
  | nan =>
    cases h
    trivial
  | infinity m =>
    cases y with
    | nan =>
      cases h
      trivial
    | infinity n =>
      cases h
      split
      · trivial
      · trivial
    | finite n s =>
      cases h
      trivial
  | finite n s =>
    cases y with
    | nan =>
      cases h
      trivial
    | infinity m =>
      cases h
      trivial
    | finite m t =>
      obtain ⟨rfl, hdigits, hscale⟩ := eq_of_limited h
      exact ⟨hdigits, hscale⟩

/-- The text of a number is read as the number. -/
theorem parse_text {x : Numeric} {q : ℚ} (hx : x.value = some q) (hw : Within x) :
    ∃ d, Decimal.parse x.text = some d ∧ d.value = some q := by
  cases x with
  | infinity m => cases hx
  | nan => cases hx
  | finite n s =>
    obtain ⟨hdigits, hscale⟩ := hw
    have hplace := placePoint_digits n.natAbs ((Nat.toDigits 10 n.natAbs).length - s)
    unfold text
    dsimp only
    generalize placePoint (Nat.toDigits 10 n.natAbs) ((Nat.toDigits 10 n.natAbs).length - s) = placed
      at hplace ⊢
    obtain ⟨whole, fraction⟩ := placed
    obtain ⟨hall, hne, hvalue, hlength⟩ := hplace
    have hfraction : (fraction.length : ℤ) = s := by
      have hle := hlength (by omega)
      omega
    dsimp only
    rw [parse_plain (n < 0) (fun c hc => hall c (List.mem_append_left _ hc)) hne
      (fun c hc => hall c (List.mem_append_right _ hc)), hvalue, hfraction]
    have hrange : InRange (.finite (n < 0) n.natAbs (-(s : ℤ))) := by
      rw [inRange_finite]
      unfold maxWhole at hdigits
      unfold maxScale at hscale
      constructor <;> omega
    refine ⟨_, by rw [Option.filter_some, if_pos (decide_eq_true hrange)], ?_⟩
    cases hx
    rw [Decimal.value, signed]
    congr 3
    split
    · rename_i hneg
      rw [decide_eq_true_eq] at hneg
      push_cast
      rw [abs_of_neg hneg, neg_neg]
    · rename_i hneg
      rw [decide_eq_true_eq, not_lt] at hneg
      push_cast
      rw [abs_of_nonneg hneg]

end Numeric
