import Qraft.Foundations.Binary64
import Qraft.Foundations.DecimalText
import Qraft.Foundations.Dict

/-! What a usage field holds, and the Python arithmetic on it. -/
namespace Qraft

/-- A value of a usage field: as a caller gives it, or as the column holds it. -/
inductive UsageValue where
  | null
  | bool (b : Bool)
  | int (n : ℤ)
  /-- A number that is written with a point or an exponent. In Python it is the `float` with this
  `repr`. -/
  | num (negative : Bool) (c : Nat) (e : ℤ)
  /-- No column holds one. -/
  | decimal (d : Decimal)
  | str (s : String)
  | list (xs : List UsageValue)
  | dict (fields : List (String × UsageValue))

abbrev Usage := List (String × UsageValue)

namespace UsageValue

/-- Python's truth value. -/
def truthy : UsageValue → Bool
  | .null => false
  | .bool b => b
  | .int n => n ≠ 0
  | .num _ c _ => c ≠ 0
  | .decimal (.finite _ c _) => c ≠ 0
  | .decimal _ => true
  | .str s => s ≠ ""
  | .list xs => !xs.isEmpty
  | .dict fields => !fields.isEmpty

/-- `a or b`. -/
def or (a b : UsageValue) : UsageValue := if a.truthy then a else b

mutual

/-- The JSON of `DjangoJSONEncoder`. -/
def encode : UsageValue → UsageValue
  | .decimal d => .str (String.ofList d.text)
  | .list xs => .list (encodeList xs)
  | .dict fields => .dict (encodeFields fields)
  | .null => .null
  | .bool b => .bool b
  | .int n => .int n
  | .num negative c e => .num negative c e
  | .str s => .str s

def encodeList : List UsageValue → List UsageValue
  | [] => []
  | v :: vs => encode v :: encodeList vs

def encodeFields : Usage → Usage
  | [] => []
  | (key, v) :: rest => (key, encode v) :: encodeFields rest

end

def isNumeric : UsageValue → Bool
  | .int _ | .num .. | .decimal _ => true
  | _ => false

/-- The decimal that a value is written as. -/
def numeral : UsageValue → Option Decimal
  | .int n => some (Decimal.ofInt n)
  | .num negative c e => some (.finite negative c e)
  | .decimal d => some d
  | .str s => Decimal.parse s.toList
  | _ => none

/-- `_money` and `pricing._decimal`: `Decimal(str(value))`, if that is one. -/
def money (v : UsageValue) : Option Decimal := v.numeral.filter fun d => d.InRange

def number : UsageValue → Option ℚ
  | .int n => some n
  | .num negative c e => (Decimal.finite negative c e).value
  | .decimal d => d.value
  | _ => none

/-- A value as a number in Python's `+`, and whether it is an `int`. -/
def operand : UsageValue → Option (ℚ × Bool)
  | .bool b => some (if b then 1 else 0, true)
  | .int n => some (n, true)
  | .num negative c e => ((Decimal.finite negative c e).value).map fun q => (q, false)
  | _ => none

/-- `a + b` of numbers that are no `Decimal`. `none`: a `TypeError`, or no finite sum. -/
def plus (a b : UsageValue) : Option UsageValue :=
  match a.operand, b.operand with
  | some (p, true), some (q, true) => some (.int (p + q).num)
  | some (p, _), some (q, _) => (Binary64.add p q).map fun (negative, c, e) => .num negative c e
  | _, _ => none

def add (existing value : UsageValue) : Option UsageValue :=
  match existing, value with
  | .decimal _, _ | _, .decimal _ =>
    existing.money.bind fun a => value.money.bind fun b => (Decimal.add a b).map .decimal
  | _, _ => plus existing value

end UsageValue

def moneyKeys : List String := ["cost", "estimated_cost"]

def moneyText (d : Decimal) : UsageValue := .str (String.ofList d.text)

namespace UsageValue

theorem inRange_of_money {v : UsageValue} {d : Decimal} (h : v.money = some d) : d.InRange :=
  of_decide_eq_true (Option.filter_eq_some_iff.mp h).2

/-- A stored amount is read back as it was. -/
theorem money_moneyText {d : Decimal} (h : d.InRange) : (moneyText d).money = some d := by
  have hparse : (moneyText d).numeral = some d := by
    rw [moneyText, numeral, String.toList_ofList, Decimal.parse_text h]
  rw [money, hparse, Option.filter_some, if_pos (decide_eq_true h)]

theorem plus_int (m n : ℤ) : plus (.int m) (.int n) = some (.int (m + n)) := by
  have hnum : ((m : ℚ) + n).num = m + n := by
    rw [← Int.cast_add, Rat.num_intCast]
  rw [plus, operand, operand]
  dsimp only
  rw [hnum]

theorem truthy_moneyText (d : Decimal) : (moneyText d).truthy = true := by
  apply decide_eq_true
  intro hempty
  apply Decimal.text_ne_nil d
  rw [← String.toList_ofList (l := d.text), hempty]
  rfl

end UsageValue

end Qraft
