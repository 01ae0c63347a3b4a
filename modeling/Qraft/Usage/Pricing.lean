import Qraft.Usage.Values

/-! `qraft.pricing`: the entry of a `record_usage` call, and the cost of a usage object. A `none`
that is not a missing value is an exception. -/
namespace Qraft
open UsageValue

/-- `Price`: rates per million tokens. -/
structure Price where
  input : Decimal
  output : Decimal
  cachedInput : Option Decimal := none
  currency : String := "USD"
  revision : Option String := none
  cachedIsSubset : Bool := true

def million : Decimal := Decimal.ofInt 1000000

/-- `Decimal(f)` of a float: all the digits of the double. -/
def exactDecimal (negative : Bool) (x : ℚ) : Decimal :=
  let k := Nat.log2 x.den
  .finite negative (x.num.natAbs * 5 ^ k) (-k)

/-- `Decimal(xs)` of a list: a sign, the digits and an exponent. -/
def decimalOfList : List UsageValue → Option Decimal
  | [.int sign, .list digits, .int e] => do
    if sign ≠ 0 ∧ sign ≠ 1 then none
    let ds ← digits.mapM fun
      | .int d => if 0 ≤ d ∧ d < 10 then some d.toNat else none
      | _ => none
    return .finite (sign = 1) (ds.foldl (fun n d => 10 * n + d) 0) e
  | _ => none

/-- `Decimal(tokens or 0)`. -/
def tokenCount (tokens : UsageValue) : Option Decimal :=
  if !tokens.truthy then some (Decimal.ofInt 0)
  else
    match tokens with
    | .bool _ => some (Decimal.ofInt 1)
    | .int n => some (Decimal.ofInt n)
    | .num negative c e =>
      (Binary64.nearestMagnitude (c * 10 ^ e)).map fun x => exactDecimal negative x
    | .decimal d => some d
    | .str s => Decimal.parse s.toList
    | .list xs => decimalOfList xs
    | _ => none

namespace Price

def amount (p : Price) (inputTokens outputTokens cachedInputTokens : UsageValue) : Option Decimal := do
  let input ← tokenCount inputTokens
  let output ← tokenCount outputTokens
  let cached ← tokenCount cachedInputTokens
  let cachedRate := p.cachedInput.getD p.input
  let uncached ← if p.cachedIsSubset then input.sub cached else some input
  let billed ← uncached.maxZero
  let inputCost ← billed.mul p.input
  let cachedCost ← cached.mul cachedRate
  let outputCost ← output.mul p.output
  let prompt ← inputCost.add cachedCost
  let total ← prompt.add outputCost
  total.div million

end Price

/-- One model of the `models` table in `QRAFT_PRICING`. -/
structure ModelRates where
  input : Decimal
  output : Decimal
  cachedInput : Option Decimal := none
  currency : Option String := none
  revision : Option String := none
  cachedIsSubset : Bool := true

structure StaticTablePricing where
  currency : String := "USD"
  revision : Option String := none
  models : List (String × ModelRates)

namespace StaticTablePricing

/-- A list or a dictionary is no key of a table. -/
def price (t : StaticTablePricing) (model : UsageValue) : Option (Option Price) :=
  match model with
  | .list _ | .dict _ => none
  | .str name => some ((Dict.get? t.models name).map fun entry =>
      { input := entry.input
        output := entry.output
        cachedInput := entry.cachedInput
        currency := entry.currency.getD t.currency
        revision := entry.revision.or t.revision
        cachedIsSubset := entry.cachedIsSubset })
  | _ => some none

end StaticTablePricing

/-- `fields.get(key)`. -/
def field (fields : Usage) (key : String) : UsageValue := (Dict.get? fields key).getD .null

/-- `_lookup`; the resolver is configured or not. -/
def lookupPrice (resolver : Option StaticTablePricing) (model : UsageValue) : Option (Option Price) :=
  match resolver with
  | none => some none
  | some t => t.price model

def tokenFields : List String := ["input_tokens", "output_tokens", "cached_input_tokens"]

def Price.ofEntry (p : Price) (entry : Usage) : Option Decimal :=
  p.amount (field entry "input_tokens") (field entry "output_tokens") (field entry "cached_input_tokens")

def unpricedEntry (fields : Usage) : Usage :=
  [("model", field fields "model"), ("provider", field fields "provider")] ++
    tokenFields.map (fun name => (name, field fields name)) ++
    [("estimated_cost", .null), ("currency", .null), ("pricing_revision", .null),
      ("cost_source", .str "none")]

def usageEntry (resolver : Option StaticTablePricing) (fields : Usage) : Option (Option Usage) :=
  if !(field fields "model").truthy then some none
  else
    match (field fields "cost").money with
    | some callerCost => some (some (Dict.update (unpricedEntry fields)
        [("estimated_cost", moneyText callerCost), ("currency", field fields "currency"),
          ("cost_source", .str "caller")]))
    | none => do
      match ← lookupPrice resolver (field fields "model") with
      | none => return some (unpricedEntry fields)
      | some price =>
        let amount ← price.ofEntry (unpricedEntry fields)
        return some (Dict.update (unpricedEntry fields)
          [("estimated_cost", moneyText amount), ("currency", .str price.currency),
            ("pricing_revision", price.revision.elim .null .str), ("cost_source", .str "resolver")])

inductive Coverage where
  | complete
  | partialOnly
  | none
  deriving DecidableEq

structure CostSummary where
  amount : Decimal
  currency : UsageValue
  coverage : Coverage
  estimated : Bool

structure Charge where
  cost : Decimal
  /-- The currency of the price, for one that is priced when it is read. -/
  priceCurrency : UsageValue
  source : UsageValue

/-- An entry's recorded cost, or else the current table's. -/
def entryCharge (resolver : Option StaticTablePricing) (entry : Usage) : Option (Option Charge) :=
  match (field entry "estimated_cost").money with
  | some cost =>
    some (some ⟨cost, .null, (Dict.get? entry "cost_source").getD (.str "none")⟩)
  | none => do
    match ← lookupPrice resolver (field entry "model") with
    | none => return none
    | some price =>
      let cost ← price.ofEntry entry
      return some ⟨cost, .str price.currency, .str "resolver"⟩

def UsageValue.isText (v : UsageValue) (text : String) : Bool :=
  match v with
  | .str s => s = text
  | _ => false

/-- The loop variables of `cost`. -/
structure Costing where
  amount : Decimal := Decimal.ofInt 0
  currency : UsageValue := .null
  priced : Nat := 0
  unpriced : Nat := 0
  estimated : Bool := false

/-- One entry in the loop of `cost`. -/
def Costing.step (resolver : Option StaticTablePricing) (s : Costing) (entry : UsageValue) :
    Option Costing :=
  match entry with
  | .dict fields => do
    match ← entryCharge resolver fields with
    | none =>
      if tokenFields.any fun name => (field fields name).truthy then
        return { s with unpriced := s.unpriced + 1 }
      else return s
    | some charge =>
      let amount ← s.amount.add charge.cost
      return { s with
        amount
        currency := (s.currency.or charge.priceCurrency).or (field fields "currency")
        priced := s.priced + 1
        estimated := s.estimated || !charge.source.isText "caller" }
  | _ => none

/-- `value or []`, as what it is iterated over. -/
def iterate (value : UsageValue) : Option (List UsageValue) :=
  if !value.truthy then some []
  else
    match value with
    | .list xs => some xs
    | .dict fields => some (fields.map fun e => .str e.1)
    | .str s => some (s.toList.map fun c => .str (String.singleton c))
    | _ => none

def usageCost (resolver : Option StaticTablePricing) (usage : Usage) : Option CostSummary := do
  let entries ← iterate (field usage "entries")
  if entries.isEmpty then
    match (field usage "cost").money with
    | none => return ⟨Decimal.ofInt 0, .null, .none, true⟩
    | some legacy => return ⟨legacy, field usage "currency", .complete, false⟩
  else
    let s ← entries.foldlM (Costing.step resolver) {}
    return {
      amount := s.amount
      currency := s.currency
      coverage := if s.priced = 0 then .none else if s.unpriced = 0 then .complete else .partialOnly
      estimated := s.estimated || s.priced = 0 }

end Qraft
