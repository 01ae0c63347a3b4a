import Qraft.Usage.Postgres

/-! The row-lock merge and the SQL merge side by side, over runs of `record_usage` calls on one column. -/
namespace Qraft
open UsageValue

namespace UsageValue

/-- The number that a JSON number or a decimal string stands for. -/
def rational : UsageValue → Option ℚ
  | .str s => (Decimal.parse s.toList).bind Decimal.value
  | v => v.number

end UsageValue

def SameValue (v w : UsageValue) : Prop := v = w ∨ ∃ q, v.rational = some q ∧ w.rational = some q

/-- The same JSON, with numbers and decimal strings as exact rationals. -/
def SameJson (u w : Usage) : Prop := ∀ key, Option.Rel SameValue (Dict.get? u key) (Dict.get? w key)

structure Columns where
  locked : Usage
  pg : Usage

/-- A call that raises leaves the column as it was. -/
def Columns.record (resolver : Option StaticTablePricing) (s : Columns) (call : Usage) : Columns where
  locked := (recordUsage resolver s.locked call).getD s.locked
  pg := (recordUsagePg resolver s.pg call).getD s.pg

def Columns.run (resolver : Option StaticTablePricing) (s : Columns) (calls : List Usage) : Columns :=
  calls.foldl (Columns.record resolver) s

/-- The sum under a key since it last held a value that is no number. -/
def tallyField (total : Option ℚ) (v : UsageValue) : Option ℚ :=
  if v.isNumeric then v.number.map fun q => total.getD 0 + q else none

def tallyCall (resolver : Option StaticTablePricing) (totals : String → Option ℚ) (call : Usage) :
    String → Option ℚ := fun key =>
  match usageEntry resolver call with
  | none => totals key
  | some entry =>
    if key = "entries" ∧ entry.isSome then none
    else (Dict.get? call key).elim (totals key) (tallyField (totals key))

def tally (resolver : Option StaticTablePricing) (stored : Usage) (calls : List Usage) : String → Option ℚ :=
  calls.foldl (tallyCall resolver) fun key => (Dict.get? stored key).bind number

def HoldsNumber (u : Usage) (key : String) (q : ℚ) : Prop := (Dict.get? u key).bind rational = some q

/-- Both merges add the increment, if it is a number, to the same total, and both sums are exact. -/
def Adds (total : Option Decimal) (exact : ℚ → ℚ → Prop) (column : Option Numeric) (increment : Decimal) :
    Prop :=
  ∃ x y t, column = some x ∧ Numeric.ofDecimal increment = some y ∧ (x.add y).isSome = true ∧
    total.elim (some 0) Decimal.value = some t ∧
      ∀ q, increment.value = some q → x.value = some t ∧ (total.isSome = true → exact t q)

def ExactSum (a b : UsageValue) (p q : ℚ) : Prop :=
  match a, b with
  | .decimal _, _ | _, .decimal _ => Decimal.Fits (p + q)
  | .int _, .int _ => True
  | _, _ => Binary64.SumsTo p q

/-- What a field has to meet for the two merges to agree on it. -/
def FieldMeets (key : String) (locked pg : Option UsageValue) (v : UsageValue) : Prop :=
  textStorable key = true ∧
    match moneyOf key v with
    | some increment =>
      Adds (locked.getD .null).money (fun p q => Decimal.Fits (p + q)) (amountOf pg) increment
    | none =>
      if v.isNumeric then
        ∃ increment, v.money = some increment ∧
          ((locked.getD .null).isNumeric = true → (locked.getD .null).money ≠ none) ∧
            Adds (if (locked.getD .null).isNumeric then (locked.getD .null).money else none)
              (ExactSum (locked.getD .null) v) (countOf pg) increment
      else storable v.encode = true

/-- What a call has to meet, unless it raises before it writes. -/
def Meets (resolver : Option StaticTablePricing) (s : Columns) (call : Usage) : Prop :=
  ∀ entry, usageEntry resolver call = some entry →
    (∀ key v, Dict.get? call key = some v → FieldMeets key (Dict.get? s.locked key) (Dict.get? s.pg key) v) ∧
      ∀ e, entry = some e → storable (.dict (encodeFields e)) = true ∧
        ∃ xs, listedEntries s.locked call = some xs ∧ encodeList xs = pgEntries (Dict.get? s.pg "entries")

def AllMeet (resolver : Option StaticTablePricing) : Columns → List Usage → Prop
  | _, [] => True
  | s, call :: calls => Meets resolver s call ∧ AllMeet resolver (s.record resolver call) calls

section
variable {resolver : Option StaticTablePricing} {key : String} {v : UsageValue} {d : Decimal}

private theorem rational_moneyText {q : ℚ} (hrange : d.InRange) (hd : d.value = some q) :
    (moneyText d).rational = some q := by
  rw [moneyText, rational, String.toList_ofList, Decimal.parse_text hrange, Option.bind_some, hd]

private theorem rational_numericText {x : Numeric} {q : ℚ} (hx : x.value = some q) (hw : x.Within) :
    (UsageValue.str (String.ofList x.text)).rational = some q := by
  obtain ⟨d, hd, hvalue⟩ := Numeric.parse_text hx hw
  rw [rational, String.toList_ofList, hd, Option.bind_some, hvalue]

/-- A decimal that is no number, added to a number. -/
private theorem add_special {a : Decimal} {t : ℚ} (ha : a.value = some t) (hd : d.value = none) {y : Numeric}
    (hy : Numeric.ofDecimal d = some y) : a.add d = some d := by
  cases a with
  | infinity m => cases ha
  | nan m s x => cases ha
  | finite m c e =>
    cases d with
    | finite n c e => cases hd
    | infinity n => rfl
    | nan n signaling payload =>
      cases signaling with
      | false => rfl
      | true =>
        rw [Numeric.ofDecimal] at hy
        · cases hy
        · exact fun _ h => Bool.noConfusion h

private theorem value_ofParts {parts : Bool × List Char × List Char} {x : Numeric}
    (h : Numeric.ofParts parts = some x) : ∃ p, x.value = some p := by
  obtain ⟨rfl, -, -⟩ := Numeric.eq_of_limited h
  exact ⟨_, rfl⟩

private theorem value_zero_numeric : Numeric.zero.value = some 0 := by simp [Numeric.zero, Numeric.value]

/-- What the statement counts from: the number that is there, or zero. -/
private theorem value_countOf {column : Option UsageValue} {x : Numeric}
    (hstored : ∀ v, column = some v → v.encode = v) (h : countOf column = some x) :
    x.value = some ((column.bind number).getD 0) := by
  cases column with
  | none =>
    cases h
    exact value_zero_numeric
  | some v =>
    cases v with
    | int n =>
      have hcast : Numeric.ofDecimal (Decimal.ofInt n) = some x := h
      rw [Numeric.value_ofDecimal hcast, Decimal.value_ofInt]
      rfl
    | num negative c e =>
      have hcast : Numeric.ofDecimal (.finite negative c e) = some x := h
      rw [Numeric.value_ofDecimal hcast]
      rfl
    | decimal d => exact UsageValue.noConfusion (hstored _ rfl)
    | null =>
      cases h
      exact value_zero_numeric
    | bool b =>
      cases h
      exact value_zero_numeric
    | str s =>
      cases h
      exact value_zero_numeric
    | list xs =>
      cases h
      exact value_zero_numeric
    | dict fields =>
      cases h
      exact value_zero_numeric

private theorem value_amountOf {column : Option UsageValue} {x : Numeric}
    (hstored : ∀ v, column = some v → v.encode = v) (h : amountOf column = some x) :
    ∃ p, x.value = some p := by
  unfold amountOf at h
  split at h
  · rename_i s
    cases hparts : Numeric.plainParts s.toList with
    | none =>
      rw [hparts] at h
      cases h
      exact ⟨_, rfl⟩
    | some parts =>
      rw [hparts] at h
      exact value_ofParts h
  · exact ⟨_, value_countOf hstored h⟩

/-- The two sums of a money key. -/
private theorem money_adds {total : Option Decimal} {column : Option Numeric}
    (h : Adds total (fun p q => Decimal.Fits (p + q)) column d) (hrange : d.InRange)
    (hcolumn : ∀ x, column = some x → ∃ p, x.value = some p) :
    ∃ x y s z, column = some x ∧ Numeric.ofDecimal d = some y ∧ x.add y = some z ∧
      (total.elim (some d) fun a => a.add d) = some s ∧
        SameValue (moneyText s) (.str (String.ofList z.text)) := by
  obtain ⟨x, y, t, hx, hy, hsum, ht, hexact⟩ := h
  obtain ⟨z, hz⟩ := Option.isSome_iff_exists.mp hsum
  have hyValue := Numeric.value_ofDecimal hy
  cases hq : d.value with
  | none =>
    obtain ⟨p, hp⟩ := hcolumn x hx
    rw [hq] at hyValue
    rw [Numeric.add_special hp hyValue] at hz
    cases hz
    refine ⟨x, y, d, y, hx, hy, Numeric.add_special hp hyValue, ?_, .inl ?_⟩
    · cases total with
      | none => rfl
      | some a => exact add_special ht hq hy
    · rw [moneyText, Numeric.text_special hy hq]
  | some q =>
    obtain ⟨hxt, hfits⟩ := hexact q hq
    rw [hq] at hyValue
    have hzValue := Numeric.value_add hxt hyValue hz
    have hpg := rational_numericText hzValue (Numeric.within_add hz)
    cases total with
    | none =>
      have hzero : t = 0 := (Option.some.inj ht).symm
      rw [hzero, zero_add] at hpg
      exact ⟨x, y, d, z, hx, hy, hz, rfl, .inr ⟨q, rational_moneyText hrange hq, hpg⟩⟩
    | some a =>
      obtain ⟨s, hs, hsValue⟩ := Decimal.add_exact ht hq (hfits rfl)
      refine ⟨x, y, s, z, hx, hy, hz, hs, .inr ⟨t + q, ?_, hpg⟩⟩
      exact rational_moneyText (Decimal.inRange_of_add hs) hsValue

/-- A numeric value by its decimal. -/
private theorem number_of_money (hv : v.isNumeric = true) (h : v.money = some d) : v.number = d.value := by
  obtain ⟨hnumeral, -⟩ := Option.filter_eq_some_iff.mp h
  cases v with
  | int n =>
    cases hnumeral
    exact (Decimal.value_ofInt n).symm
  | num negative c e =>
    cases hnumeral
    rfl
  | decimal d' =>
    cases hnumeral
    rfl
  | null => cases hv
  | bool b => cases hv
  | str s => cases hv
  | list xs => cases hv
  | dict fields => cases hv

/-- A numeric value in the column stands for its number. -/
private theorem rational_encode (hv : v.isNumeric = true) (h : v.money = some d) {q : ℚ}
    (hd : d.value = some q) : v.encode.rational = some q := by
  have hnumber := number_of_money hv h
  rw [hd] at hnumber
  cases v with
  | int n => exact hnumber
  | num negative c e => exact hnumber
  | decimal d' =>
    obtain ⟨hnumeral, -⟩ := Option.filter_eq_some_iff.mp h
    cases hnumeral
    exact rational_moneyText (inRange_of_money h) hd
  | null => cases hv
  | bool b => cases hv
  | str s => cases hv
  | list xs => cases hv
  | dict fields => cases hv

/-- Python's sum of two floats, or of a float and an int, where it is exact. -/
private theorem plus_exact {cur : UsageValue} {p q : ℚ} {i j : Bool} (hcur : cur.operand = some (p, i))
    (hv : v.operand = some (q, j)) (hfloat : (i && j) = false) (h : Binary64.SumsTo p q) :
    ∃ w, plus cur v = some w ∧ w.encode.rational = some (p + q) := by
  obtain ⟨negative, c, e, hadd, hvalue⟩ := h
  refine ⟨.num negative c e, ?_, hvalue⟩
  unfold plus
  rw [hcur, hv]
  cases i with
  | false =>
    dsimp only
    rw [hadd]
    rfl
  | true =>
    cases j with
    | true => cases hfloat
    | false =>
      dsimp only
      rw [hadd]
      rfl

/-- Python's sum of two numeric values, where it is exact. -/
private theorem add_exact {cur : UsageValue} {a : Decimal} {p q : ℚ} (hcur : cur.isNumeric = true)
    (hv : v.isNumeric = true) (ha : cur.money = some a) (hd : v.money = some d) (hp : a.value = some p)
    (hq : d.value = some q) (h : ExactSum cur v p q) :
    ∃ w, UsageValue.add cur v = some w ∧ w.encode.rational = some (p + q) := by
  have hdecimal (hfits : Decimal.Fits (p + q)) : ∃ w, (cur.money.bind fun a => v.money.bind fun b =>
      (Decimal.add a b).map UsageValue.decimal) = some w ∧ w.encode.rational = some (p + q) := by
    obtain ⟨s, hs, hvalue⟩ := Decimal.add_exact hp hq hfits
    refine ⟨.decimal s, ?_, rational_moneyText (Decimal.inRange_of_add hs) hvalue⟩
    rw [ha, hd, Option.bind_some, Option.bind_some, hs]
    rfl
  have hpn : cur.number = some p := (number_of_money hcur ha).trans hp
  have hqn : v.number = some q := (number_of_money hv hd).trans hq
  have hint (n : ℤ) : (UsageValue.int n).operand = some ((n : ℚ), true) := rfl
  have hfloat (negative : Bool) (c : Nat) (e : ℤ) {r : ℚ} (hr : (UsageValue.num negative c e).number = some r) :
      (UsageValue.num negative c e).operand = some (r, false) := by
    rw [operand, ← number, hr]
    rfl
  cases cur with
  | decimal d' => exact hdecimal h
  | null => cases hcur
  | bool b => cases hcur
  | str s => cases hcur
  | list xs => cases hcur
  | dict fields => cases hcur
  | int m =>
    cases hpn
    cases v with
    | decimal d' => exact hdecimal h
    | int n =>
      cases hqn
      refine ⟨.int (m + n), ?_, ?_⟩
      · rw [UsageValue.add, plus_int]
        · simp
        · simp
      · rw [encode, rational, number, Int.cast_add]
        simp
    | num negative c e => exact plus_exact (hint m) (hfloat negative c e hqn) rfl h
    | null => cases hv
    | bool b => cases hv
    | str s => cases hv
    | list xs => cases hv
    | dict fields => cases hv
  | num sign k x =>
    cases v with
    | decimal d' => exact hdecimal h
    | int n =>
      cases hqn
      exact plus_exact (hfloat sign k x hpn) (hint n) rfl h
    | num negative c e => exact plus_exact (hfloat sign k x hpn) (hfloat negative c e hqn) rfl h
    | null => cases hv
    | bool b => cases hv
    | str s => cases hv
    | list xs => cases hv
    | dict fields => cases hv

/-- A number in the column. -/
private theorem ofNumeric_value {z : Numeric} {q : ℚ} (h : z.value = some q) :
    (ofNumeric z).number = some q ∧ (ofNumeric z).rational = some q ∧ (ofNumeric z).encode = ofNumeric z := by
  cases z with
  | infinity m => cases h
  | nan => cases h
  | finite n scale =>
    cases h
    cases scale with
    | zero => simp [ofNumeric, number, rational, encode]
    | succ scale =>
      have hnumber : (ofNumeric (.finite n (scale + 1))).number =
          some ((n : ℚ) * 10 ^ (-((scale + 1 : Nat) : ℤ))) := by
        rw [ofNumeric, number, Decimal.value, Decimal.signed_natAbs_self]
      exact ⟨hnumber, hnumber, rfl⟩

private theorem ofNumeric_special {z : Numeric} (h : z.value = none) :
    ofNumeric z = .str (String.ofList z.text) := by
  cases z with
  | infinity m => rfl
  | nan => rfl
  | finite n scale => cases h

private theorem eq_decimal (hv : v.isNumeric = true) (h : v.money = some d) (hd : d.value = none) :
    v = .decimal d := by
  obtain ⟨hnumeral, -⟩ := Option.filter_eq_some_iff.mp h
  cases v with
  | int n =>
    cases hnumeral
    cases hd
  | num negative c e =>
    cases hnumeral
    cases hd
  | decimal d' =>
    cases hnumeral
    rfl
  | null => cases hv
  | bool b => cases hv
  | str s => cases hv
  | list xs => cases hv
  | dict fields => cases hv

/-- A numeric field under a key that holds no money: its two new values. -/
private theorem count_adds {cur : UsageValue} {column : Option UsageValue} (hv : v.isNumeric = true)
    (hd : v.money = some d) (hmoney : cur.isNumeric = true → cur.money ≠ none)
    (hstored : ∀ w, column = some w → w.encode = w)
    (h : Adds (if cur.isNumeric then cur.money else none) (ExactSum cur v) (countOf column) d) :
    ∃ x y z w, countOf column = some x ∧ Numeric.ofDecimal d = some y ∧ x.add y = some z ∧
      (if v.isNumeric && cur.isNumeric then UsageValue.add cur v else some v) = some w ∧
        SameValue w.encode (ofNumeric z) ∧ (ofNumeric z).number = tallyField (column.bind number) v ∧
          (ofNumeric z).encode = ofNumeric z := by
  obtain ⟨x, y, t, hx, hy, hsum, ht, hexact⟩ := h
  obtain ⟨z, hz⟩ := Option.isSome_iff_exists.mp hsum
  have hyValue := Numeric.value_ofDecimal hy
  have hxValue := value_countOf hstored hx
  have htally : tallyField (column.bind number) v = d.value.map fun q => (column.bind number).getD 0 + q := by
    rw [tallyField, if_pos hv, number_of_money hv hd]
  rw [htally, hv, Bool.true_and]
  cases hq : d.value with
  | none =>
    have hdecimal := eq_decimal hv hd hq
    rw [hq] at hyValue
    have hsame := Numeric.add_special hxValue hyValue
    have htext : (UsageValue.decimal d).encode = ofNumeric y := by
      rw [ofNumeric_special hyValue, Numeric.text_special hy hq]
      rfl
    have hnumber : (ofNumeric y).number = none ∧ (ofNumeric y).encode = ofNumeric y := by
      rw [ofNumeric_special hyValue]
      exact ⟨rfl, rfl⟩
    refine ⟨x, y, y, v, hx, hy, hsame, ?_, .inl (hdecimal ▸ htext), hnumber⟩
    cases hcur : cur.isNumeric with
    | false => rfl
    | true =>
      obtain ⟨a, ha⟩ := Option.ne_none_iff_exists'.mp (hmoney hcur)
      rw [hcur, if_pos rfl, ha] at ht
      have hadd : UsageValue.add cur (.decimal d) =
          cur.money.bind fun a => (UsageValue.decimal d).money.bind fun b => (Decimal.add a b).map .decimal := by
        cases cur <;> rfl
      rw [hdecimal] at hd ⊢
      rw [if_pos rfl, hadd, ha, hd, Option.bind_some, Option.bind_some, add_special ht hq hy]
      rfl
  | some q =>
    obtain ⟨hxt, hsums⟩ := hexact q hq
    rw [hq] at hyValue
    rw [hxt] at hxValue
    obtain ⟨hnumber, hrational, hencode⟩ := ofNumeric_value (Numeric.value_add hxt hyValue hz)
    have htotal : (ofNumeric z).number = (some q).map fun q => (column.bind number).getD 0 + q := by
      rw [hnumber, Option.some.inj hxValue]
      rfl
    cases hcur : cur.isNumeric with
    | false =>
      rw [hcur, if_neg Bool.false_ne_true] at ht
      have hzero : t = 0 := (Option.some.inj ht).symm
      rw [hzero, zero_add] at hrational
      exact ⟨x, y, z, v, hx, hy, hz, rfl, .inr ⟨q, rational_encode hv hd hq, hrational⟩, htotal, hencode⟩
    | true =>
      obtain ⟨a, ha⟩ := Option.ne_none_iff_exists'.mp (hmoney hcur)
      rw [hcur, if_pos rfl, ha] at ht hsums
      obtain ⟨w, hw, hvalue⟩ := add_exact hcur hv ha hd ht hq (hsums rfl)
      exact ⟨x, y, z, w, hx, hy, hz, by rw [if_pos rfl, hw], .inr ⟨t + q, hvalue, hrational⟩, htotal, hencode⟩

private theorem of_moneyOf (h : moneyOf key v = some d) : key ∈ moneyKeys ∧ v.money = some d := by
  unfold moneyOf at h
  split at h
  · rename_i hin
    exact ⟨hin, h⟩
  · cases h

private theorem number_encode (hv : v.isNumeric = false) : v.encode.number = none := by
  cases v with
  | int n => cases hv
  | num negative c e => cases hv
  | decimal d => cases hv
  | null => rfl
  | bool b => rfl
  | str s => rfl
  | list xs => rfl
  | dict fields => rfl

/-- One field of a call on the two paths. -/
private theorem field_meets {locked column : Option UsageValue} {pg : Usage}
    (h : FieldMeets key locked column v) (hpg : Dict.get? pg key = column)
    (hstored : ∀ w, column = some w → w.encode = w) :
    ∃ w w', mergeField key locked v = some w ∧ pgField pg key v = some w' ∧ SameValue w.encode w' ∧
      w'.encode = w' ∧ (key ∉ moneyKeys → w'.number = tallyField (column.bind number) v) := by
  obtain ⟨htext, h⟩ := h
  unfold mergeField pgField pgSum isSummed
  rw [hpg, htext]
  cases hmoney : moneyOf key v with
  | some increment =>
    obtain ⟨hkey, hd⟩ := of_moneyOf hmoney
    rw [hmoney] at h
    obtain ⟨x, y, s, z, hx, hy, hz, hs, hsame⟩ :=
      money_adds h (inRange_of_money hd) fun x hx => value_amountOf hstored hx
    refine ⟨moneyText s, .str (String.ofList z.text), ?_, ?_, hsame, rfl, fun hno => absurd hkey hno⟩
    · dsimp only
      cases htotal : (locked.getD .null).money with
      | none =>
        rw [htotal] at hs
        cases hs
        rfl
      | some a =>
        rw [htotal] at hs
        dsimp only [Option.elim_some] at hs ⊢
        rw [hs]
        rfl
    · rw [Option.isSome_some, Bool.true_or, if_pos rfl, Bool.not_true, if_neg Bool.false_ne_true]
      dsimp only
      rw [hx, hy, Option.bind_eq_bind, Option.bind_some, Option.bind_some, hz]
      rfl
  | none =>
    rw [hmoney] at h
    dsimp only at h
    cases hv : v.isNumeric with
    | false =>
      exact ⟨v, v.encode, rfl, rfl, .inl rfl, encode_encode v, fun _ => by
        rw [tallyField, hv, number_encode hv]; rfl⟩
    | true =>
      rw [if_pos hv] at h
      obtain ⟨increment, hd, hread, hadds⟩ := h
      obtain ⟨x, y, z, w, hx, hy, hz, hw, hsame, hnumber, hencode⟩ := count_adds hv hd hread hstored hadds
      rw [hv] at hw
      refine ⟨w, ofNumeric z, hw, ?_, hsame, hencode, fun _ => hnumber⟩
      obtain ⟨hnumeral, -⟩ := Option.filter_eq_some_iff.mp hd
      rw [Option.isSome_none, Bool.false_or, if_pos rfl, Bool.not_true, if_neg Bool.false_ne_true]
      dsimp only
      rw [hx, hnumeral, Option.bind_eq_bind, Option.bind_some, Option.bind_some, hy, Option.bind_some, hz]
      rfl

/-- The two columns hold the same JSON, and the numbers in them are the sums. -/
structure Agreed (s : Columns) (totals : String → Option ℚ) : Prop where
  same : SameJson s.locked s.pg
  locked : encodeFields s.locked = s.locked
  pg : ∀ key v, Dict.get? s.pg key = some v → v.encode = v
  totals : ∀ key, key ∉ moneyKeys → totals key = (Dict.get? s.pg key).bind number

variable {s : Columns} {call : Usage} {totals : String → Option ℚ} {entry : Option Usage}

private theorem encodeFields_eq_map (fields : Usage) :
    encodeFields fields = fields.map fun item => (item.1, item.2.encode) := by
  induction fields with
  | nil => rfl
  | cons item rest ih =>
    obtain ⟨key, v⟩ := item
    rw [encodeFields, List.map_cons, ih]

private theorem storableFields_of_all {fields : Usage}
    (h : ∀ item ∈ fields, textStorable item.1 = true ∧ storable item.2 = true) :
    storableFields fields = true := by
  induction fields with
  | nil => rfl
  | cons item rest ih =>
    obtain ⟨key, v⟩ := item
    obtain ⟨hkey, hv⟩ := h (key, v) List.mem_cons_self
    rw [storableFields, hkey, hv, ih fun item hin => h item (List.mem_cons_of_mem _ hin)]
    rfl

/-- A call that meets the condition goes through on both paths, and adds the same entry. -/
private theorem exists_merged (hs : Agreed s totals) (hn : (call.map Prod.fst).Nodup)
    (hentry : usageEntry resolver call = some entry) (h : Meets resolver s call) :
    ∃ u w, lockedUsageUpdate s.locked call entry = some u ∧ pgUsageUpdate s.pg call entry = some w ∧
      (entry.isSome = true → ∃ xs, Dict.get? u "entries" = some (.list xs) ∧
        Dict.get? w "entries" = some (.list xs) ∧ encodeList xs = xs) := by
  obtain ⟨hfields, hlisted⟩ := h entry hentry
  have hpieces {key : String} {v : UsageValue} (hv : Dict.get? call key = some v) :=
    field_meets (hfields key v hv) rfl (hs.pg key)
  have hlocked : ∀ key v, Dict.get? call key = some v →
      (mergeField key (Dict.get? s.locked key) v).isSome = true := by
    intro key v hv
    obtain ⟨w, w', hw, -⟩ := hpieces hv
    rw [hw]
    rfl
  have hentries : entry.isSome = true → (listedEntries s.locked call).isSome = true := by
    intro hsome
    obtain ⟨e, he⟩ := Option.isSome_iff_exists.mp hsome
    obtain ⟨-, xs, hxs, -⟩ := hlisted e he
    rw [hxs]
    rfl
  have hsums : ∀ item ∈ call, isSummed item.1 item.2 = true → (pgSum s.pg item.1 item.2).isSome = true := by
    intro item hin hsummed
    obtain ⟨w, w', -, hw', -⟩ := hpieces (Dict.get?_of_mem hn hin)
    rw [pgField, if_pos hsummed] at hw'
    rw [hw']
    rfl
  have hplain : storableFields (encodeFields (call.filter fun item => !isSummed item.1 item.2)) = true := by
    apply storableFields_of_all
    rw [encodeFields_eq_map]
    intro item hin
    obtain ⟨given, hgiven, rfl⟩ := List.mem_map.mp hin
    obtain ⟨hin, hplain⟩ := List.mem_filter.mp hgiven
    obtain ⟨htext, hfield⟩ := hfields given.1 given.2 (Dict.get?_of_mem hn hin)
    rw [isSummed, Bool.not_eq_true', Bool.or_eq_false_iff] at hplain
    obtain ⟨hmoney, hnumeric⟩ := hplain
    rw [Option.isSome_eq_false_iff, Option.isNone_iff_eq_none] at hmoney
    rw [hmoney, hnumeric] at hfield
    exact ⟨htext, hfield⟩
  obtain ⟨u, hu, huEntries⟩ := exists_lockedUsageUpdate hn hlocked hentries
  obtain ⟨w, hw⟩ := exists_pgUsageUpdate hsums hplain fun e he => (hlisted e he).1
  refine ⟨u, w, hu, hw, fun hsome => ?_⟩
  obtain ⟨e, rfl⟩ := Option.isSome_iff_exists.mp hsome
  obtain ⟨-, xs, hxs, hsame⟩ := hlisted e rfl
  have hboth : encodeList (xs ++ [.dict e]) =
      pgEntries (Dict.get? s.pg "entries") ++ [.dict (encodeFields e)] := by
    rw [encodeList_append, hsame]
    rfl
  refine ⟨encodeList (xs ++ [.dict e]), huEntries e xs rfl hxs, ?_, encodeList_encodeList _⟩
  rw [get?_pgUsageUpdate_entries hn hw, hboth]

/-- One key after a call. -/
private theorem key_record {u w : Usage} (hs : Agreed s totals) (hn : (call.map Prod.fst).Nodup)
    (hentry : usageEntry resolver call = some entry) (h : Meets resolver s call)
    (hu : lockedUsageUpdate s.locked call entry = some u) (hw : pgUsageUpdate s.pg call entry = some w)
    (hentries : entry.isSome = true → ∃ xs, Dict.get? u "entries" = some (.list xs) ∧
      Dict.get? w "entries" = some (.list xs) ∧ encodeList xs = xs) (key : String) :
    Option.Rel SameValue (Dict.get? u key) (Dict.get? w key) ∧
      (∀ v, Dict.get? w key = some v → v.encode = v) ∧
        (key ∉ moneyKeys → tallyCall resolver totals call key = (Dict.get? w key).bind number) := by
  unfold tallyCall
  rw [hentry]
  dsimp only
  by_cases hkey : key = "entries" ∧ entry.isSome = true
  · obtain ⟨rfl, hsome⟩ := hkey
    obtain ⟨xs, hxs, hys, hencode⟩ := hentries hsome
    rw [hxs, hys, if_pos ⟨rfl, hsome⟩]
    refine ⟨.some (.inl rfl), fun v hv => ?_, fun _ => rfl⟩
    cases hv
    exact congrArg UsageValue.list hencode
  · have hother : entry.isSome = true → key ≠ "entries" := fun hsome he => hkey ⟨he, hsome⟩
    obtain ⟨hout, hin⟩ := get?_lockedUsageUpdate hn hu hother
    obtain ⟨hout', hin'⟩ := get?_pgUsageUpdate hn hw hother
    rw [if_neg hkey]
    cases hv : Dict.get? call key with
    | none =>
      have hlocked : (Dict.get? s.locked key).map encode = Dict.get? s.locked key := by
        rw [← get?_encodeFields, hs.locked]
      rw [hout hv, hout' hv, hlocked]
      exact ⟨hs.same key, hs.pg key, hs.totals key⟩
    | some v =>
      obtain ⟨x, hx, hxu⟩ := hin v hv
      obtain ⟨y, hy, hyw⟩ := hin' v hv
      obtain ⟨a, b, ha, hb, hsame, hencode, hnumber⟩ :=
        field_meets ((h entry hentry).1 key v hv) rfl (hs.pg key)
      rw [hx] at ha
      rw [hy] at hb
      cases ha
      cases hb
      rw [hxu, hyw]
      refine ⟨.some hsame, fun v hv => ?_, fun hno => ?_⟩
      · cases hv
        exact hencode
      · rw [Option.elim_some, Option.bind_some, hnumber hno, hs.totals key hno]

/-- One call. -/
theorem Agreed.record (hs : Agreed s totals) (hn : (call.map Prod.fst).Nodup) (h : Meets resolver s call) :
    Agreed (s.record resolver call) (tallyCall resolver totals call) := by
  cases hentry : usageEntry resolver call with
  | none =>
    have hsame : s.record resolver call = s := by
      rw [Columns.record, recordUsage, recordUsagePg, hentry]
      rfl
    have htotals : tallyCall resolver totals call = totals := by
      funext key
      rw [tallyCall, hentry]
    rw [hsame, htotals]
    exact hs
  | some entry =>
    obtain ⟨u, w, hu, hw, hentries⟩ := exists_merged hs hn hentry h
    have hnext : s.record resolver call = ⟨u, w⟩ := by
      rw [Columns.record, recordUsage, recordUsagePg, hentry, Option.bind_some, Option.bind_some, hu, hw]
      rfl
    have hkey := key_record hs hn hentry h hu hw hentries
    rw [hnext]
    refine ⟨fun key => (hkey key).1, ?_, fun key => (hkey key).2.1, fun key => (hkey key).2.2⟩
    obtain ⟨merged, -, rfl⟩ := Option.map_eq_some_iff.mp hu
    exact encodeFields_encodeFields merged

/-- A run of calls. -/
theorem Agreed.run {calls : List Usage} (hs : Agreed s totals)
    (hn : ∀ call ∈ calls, (call.map Prod.fst).Nodup) (h : AllMeet resolver s calls) :
    Agreed (s.run resolver calls) (calls.foldl (tallyCall resolver) totals) := by
  induction calls generalizing s totals with
  | nil => exact hs
  | cons call calls ih =>
    obtain ⟨hfirst, hrest⟩ := h
    have hnext := hs.record (hn call List.mem_cons_self) hfirst
    exact ih hnext (fun c hc => hn c (List.mem_cons_of_mem _ hc)) hrest

private theorem rational_of_number {q : ℚ} (h : v.number = some q) : v.rational = some q := by
  cases v with
  | str s => cases h
  | int n => exact h
  | num negative c e => exact h
  | decimal d => exact h
  | null => cases h
  | bool b => cases h
  | list xs => cases h
  | dict fields => cases h

/-- In a run whose calls meet the condition, the two paths store the same, and a field that holds no
money has the sum of the numbers recorded since it last held something else. -/
theorem paths_agree (resolver : Option StaticTablePricing) {stored : Usage} {calls : List Usage}
    (hstored : encodeFields stored = stored) (hn : ∀ call ∈ calls, (call.map Prod.fst).Nodup)
    (h : AllMeet resolver ⟨stored, stored⟩ calls) :
    let s := Columns.run resolver ⟨stored, stored⟩ calls
    SameJson s.locked s.pg ∧ ∀ key, key ∉ moneyKeys → ∀ q, tally resolver stored calls key = some q →
      HoldsNumber s.locked key q ∧ HoldsNumber s.pg key q := by
  have hfirst : Agreed ⟨stored, stored⟩ fun key => (Dict.get? stored key).bind number := by
    refine ⟨fun key => ?_, hstored, fun key v hv => ?_, fun key _ => rfl⟩
    · cases Dict.get? stored key with
      | none => exact .none
      | some v => exact .some (.inl rfl)
    · have hsame := get?_encodeFields stored key
      rw [hstored, hv] at hsame
      exact (Option.some.inj hsame).symm
  have hlast := hfirst.run hn h
  refine ⟨hlast.same, fun key hkey q hq => ?_⟩
  rw [tally, hlast.totals key hkey] at hq
  obtain ⟨w, hw, hnumber⟩ := Option.bind_eq_some_iff.mp hq
  have hpg : HoldsNumber (Columns.run resolver ⟨stored, stored⟩ calls).pg key q := by
    rw [HoldsNumber, hw]
    exact rational_of_number hnumber
  refine ⟨?_, hpg⟩
  have hsame := hlast.same key
  rw [hw] at hsame
  cases hv : Dict.get? (Columns.run resolver ⟨stored, stored⟩ calls).locked key with
  | none =>
    rw [hv] at hsame
    cases hsame
  | some v =>
    rw [hv] at hsame
    rw [HoldsNumber, hv, Option.bind_some]
    cases hsame with
    | some hsame =>
      rcases hsame with rfl | ⟨p, hp, hp'⟩
      · exact rational_of_number hnumber
      · rw [rational_of_number hnumber] at hp'
        cases hp'
        exact hp

end

/-- Two calls with a counter, a cost and a text. -/
private def counting : List Usage :=
  [[("tokens", .int 2), ("cost", .str "0.1")],
    [("tokens", .int 3), ("cost", .num false 2 (-1)), ("note", .str "x")]]

private theorem meets_of_items {s : Columns} {call : Usage} (hentry : usageEntry none call = some none)
    (h : ∀ item ∈ call, FieldMeets item.1 (Dict.get? s.locked item.1) (Dict.get? s.pg item.1) item.2) :
    Meets none s call := by
  intro entry he
  rw [hentry] at he
  cases he
  exact ⟨fun key v hv => h (key, v) (Dict.mem_of_get? hv), fun e he => (Option.some_ne_none e he.symm).elim⟩

private theorem adds_first {d : Decimal} {column : Option Numeric} {exact : ℚ → ℚ → Prop} {y : Numeric}
    (hcolumn : column = some Numeric.zero) (hd : Numeric.ofDecimal d = some y)
    (hsum : (Numeric.zero.add y).isSome = true) : Adds none exact column d := by
  refine ⟨Numeric.zero, y, 0, hcolumn, hd, hsum, rfl, fun _ _ => ⟨value_zero_numeric, ?_⟩⟩
  intro hsome
  cases hsome

private theorem meets_first : Meets none ⟨[], []⟩ [("tokens", .int 2), ("cost", .str "0.1")] := by
  apply meets_of_items rfl
  intro item hitem
  simp only [List.mem_cons, List.not_mem_nil, or_false] at hitem
  rcases hitem with rfl | rfl
  · have hcast : Numeric.ofDecimal (.finite false 2 0) = some (.finite 2 0) := rfl
    refine ⟨rfl, .finite false 2 0, rfl, ?_, adds_first rfl hcast rfl⟩
    intro hcur
    cases hcur
  · have hcast : Numeric.ofDecimal (.finite false 1 (-1)) = some (.finite 1 1) := rfl
    exact ⟨rfl, adds_first rfl hcast rfl⟩

private theorem meets_second {stored : Usage} (hs : stored = [("tokens", .int 2), ("cost", .str "0.1")]) :
    Meets none ⟨stored, stored⟩
      [("tokens", .int 3), ("cost", .num false 2 (-1)), ("note", .str "x")] := by
  have htwo : (Decimal.finite false 2 0).value = some 2 := by decide +kernel
  have htenth : (Decimal.finite false 1 (-1)).value = some (1 / 10) := by decide +kernel
  have hfifth : (Decimal.finite false 2 (-1)).value = some (2 / 10) := by decide +kernel
  have hfits : Decimal.Fits (1 / 10 + 2 / 10) :=
    ⟨3, -1, by norm_num, by norm_num [Decimal.prec], by decide, by decide⟩
  subst hs
  apply meets_of_items rfl
  intro item hitem
  simp only [List.mem_cons, List.not_mem_nil, or_false] at hitem
  rcases hitem with rfl | rfl | rfl
  · refine ⟨rfl, .finite false 3 0, rfl, ?_, ?_⟩
    · intro _ hnone
      cases hnone
    · refine ⟨.finite 2 0, .finite 3 0, 2, rfl, rfl, rfl, htwo, fun q _ => ⟨by decide +kernel, ?_⟩⟩
      exact fun _ => trivial
  · refine ⟨rfl, .finite 1 1, .finite 2 1, 1 / 10, rfl, rfl, rfl, htenth, fun q hq => ⟨by decide +kernel, ?_⟩⟩
    cases hfifth.symm.trans hq
    exact fun _ => hfits
  · exact ⟨rfl, rfl⟩

theorem paths_agree_counting : let s := Columns.run none ⟨[], []⟩ counting
    SameJson s.locked s.pg ∧ HoldsNumber s.locked "tokens" 5 ∧ HoldsNumber s.pg "tokens" 5 := by
  have hmeet : AllMeet none ⟨[], []⟩ counting := ⟨meets_first, meets_second rfl, trivial⟩
  obtain ⟨hsame, htotals⟩ := paths_agree none (by rfl) (by decide) hmeet
  exact ⟨hsame, htotals "tokens" (by decide) 5 (by decide +kernel)⟩

/-- A `Decimal` and then an `int` under one key. -/
private def decimalFirst : List Usage :=
  [[("seconds", .decimal (.finite false 15 (-1)))], [("seconds", .int 2)]]

/-- The row-lock path stores the `Decimal` as a string and forgets it at the next number. -/
theorem decimal_overwritten : let s := Columns.run none ⟨[], []⟩ decimalFirst
    s.locked = [("seconds", .int 2)] ∧ s.pg = [("seconds", .num false 35 (-1))] ∧ ¬ SameJson s.locked s.pg ∧
      tally none [] decimalFirst "seconds" = some (7 / 2) ∧ ¬ HoldsNumber s.locked "seconds" (7 / 2) := by
  have hlocked : (Columns.run none ⟨[], []⟩ decimalFirst).locked = [("seconds", .int 2)] := by rfl
  have hpg : (Columns.run none ⟨[], []⟩ decimalFirst).pg = [("seconds", .num false 35 (-1))] := by rfl
  have htwo : (UsageValue.int 2).rational = some 2 := by decide +kernel
  have hmore : (UsageValue.num false 35 (-1)).rational = some (7 / 2) := by decide +kernel
  refine ⟨hlocked, hpg, fun hsame => ?_, by decide +kernel, fun hholds => ?_⟩
  · have hseconds := hsame "seconds"
    rw [hlocked, hpg] at hseconds
    cases hseconds with
    | some hsame =>
      rcases hsame with hsame | ⟨q, hq, hq'⟩
      · cases hsame
      · rw [htwo] at hq
        rw [hmore] at hq'
        cases hq
        exact absurd (Option.some.inj hq') (by norm_num)
  · rw [HoldsNumber, hlocked] at hholds
    have hseconds : (UsageValue.int 2).rational = some (7 / 2) := hholds
    rw [htwo] at hseconds
    exact absurd (Option.some.inj hseconds) (by norm_num)

end Qraft
