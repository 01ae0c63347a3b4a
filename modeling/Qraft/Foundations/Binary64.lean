import Qraft.Foundations.Decimal

/-! Double-precision numbers, each given by the shortest digits that are read as it. -/
namespace Binary64
open Decimal

def binaryExponent (a : ℚ) : ℤ :=
  let k : ℤ := Nat.log2 a.num.natAbs - Nat.log2 a.den
  if (2 : ℚ) ^ k ≤ a then k else k - 1

/-- A positive number in units of `2 ^ e`, ties to even. -/
def units (a : ℚ) (e : ℤ) : Nat :=
  roundHalfEven (a.num.natAbs * 2 ^ (-e).toNat) (a.den * 2 ^ e.toNat)

/-- A number that is not negative, rounded as a double is, without an upper limit. -/
def roundMagnitude (a : ℚ) : ℚ :=
  if a = 0 then 0
  else
    let e := max (binaryExponent a - 52) (-1074)
    (units a e : ℚ) * 2 ^ e

/-- The double nearest to a number that is not negative. `none`: it is too large. -/
def nearestMagnitude (a : ℚ) : Option ℚ :=
  let x := roundMagnitude a
  if x < 2 ^ 1024 then some x else none

def nearest (q : ℚ) : Option ℚ :=
  (nearestMagnitude |q|).map fun x => if q < 0 then -x else x

/-- The double nearest to a number, had doubles no upper limit. -/
def round (q : ℚ) : ℚ := if q < 0 then -roundMagnitude |q| else roundMagnitude |q|

def plus (x y : ℚ) : ℚ := round (round x + round y)

def minus (x y : ℚ) : ℚ := round (round x - round y)

def decimalExponent (a : ℚ) : ℤ :=
  let k : ℤ := numDigits a.num.natAbs - numDigits a.den
  if (10 : ℚ) ^ k ≤ a then k else k - 1

/-- The nearest coefficient for an exponent that is read as the double, if one is. -/
def coefficient? (x : ℚ) (e : ℤ) : Option Nat :=
  let low := (x / 10 ^ e).floor.toNat
  let reads (c : Nat) : Bool := nearestMagnitude (c * 10 ^ e) = some x
  let below := x - low * 10 ^ e
  let above := (low + 1) * 10 ^ e - x
  if reads low && (!reads (low + 1) || below < above || (below = above && low % 2 = 0)) then some low
  else if reads (low + 1) then some (low + 1)
  else none

/-- The shortest digits of a positive double, with their exponent. -/
def shortest (x : ℚ) : Nat × ℤ :=
  let found := (List.range 17).findSome? fun (n : Nat) =>
    let e := decimalExponent x - n
    (coefficient? x e).map fun c =>
      let (digits, zeros) := stripZeros (numDigits c) c
      (digits, e + zeros)
  found.getD (0, 0)

/-- The digits as `repr` writes them: up to 16 places before the point, it writes one after it. -/
def literal (x : ℚ) : Nat × ℤ :=
  if x = 0 then (0, -1)
  else
    let (c, e) := shortest x
    if 0 ≤ e ∧ e + numDigits c ≤ 16 then (c * 10 ^ (e + 1).toNat, -1) else (c, e)

/-- The sum of the doubles nearest to two numbers, by its digits. `none`: there is no such double. -/
def add (p q : ℚ) : Option (Bool × Nat × ℤ) := do
  let x ← nearest p
  let y ← nearest q
  let sum ← nearest (x + y)
  return (sum < 0, literal |sum|)

/-- The sum is written as the sum of what is written. -/
def SumsTo (p q : ℚ) : Prop :=
  ∃ negative c e, add p q = some (negative, c, e) ∧ (finite negative c e).value = some (p + q)

end Binary64
