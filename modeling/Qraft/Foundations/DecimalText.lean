import Qraft.Foundations.Decimal

/-! Decimals as text: how one is written and how a text is read, and that what was written is read
back as it was. -/
namespace Decimal

/-- `.` and the digits after it, if there are any. -/
def point (fraction : List Char) : List Char := if fraction = [] then [] else '.' :: fraction

/-- Digits with the decimal point after the first `left` of them, padded with zeros. -/
def placePoint (digits : List Char) (left : ℤ) : List Char × List Char :=
  if left ≤ 0 then (['0'], List.replicate (-left).toNat '0' ++ digits)
  else (digits.take left.toNat, digits.drop left.toNat)

def exponentText (x : ℤ) : List Char := 'E' :: (if x < 0 then '-' else '+') :: Nat.toDigits 10 x.natAbs

def signText (negative : Bool) : List Char := if negative then ['-'] else []

def bodyText (c : Nat) (e : ℤ) : List Char :=
  let digits := Nat.toDigits 10 c
  let left := e + digits.length
  if e ≤ 0 ∧ -6 < left then
    let (whole, fraction) := placePoint digits left
    whole ++ point fraction
  else digits.take 1 ++ point (digits.drop 1) ++ exponentText (left - 1)

/-- `str(d)`. -/
def text : Decimal → List Char
  | finite negative c e => signText negative ++ bodyText c e
  | infinity negative => signText negative ++ "Infinity".toList
  | nan negative signaling payload =>
    signText negative ++ (if signaling then "sNaN".toList else "NaN".toList) ++
      if payload = 0 then [] else Nat.toDigits 10 payload

/-- The zero of each run of decimal digits in Unicode. -/
def digitZeros : List Nat :=
  [0x30, 0x660, 0x6f0, 0x7c0, 0x966, 0x9e6, 0xa66, 0xae6, 0xb66, 0xbe6, 0xc66, 0xce6, 0xd66, 0xde6,
    0xe50, 0xed0, 0xf20, 0x1040, 0x1090, 0x17e0, 0x1810, 0x1946, 0x19d0, 0x1a80, 0x1a90, 0x1b50,
    0x1bb0, 0x1c40, 0x1c50, 0xa620, 0xa8d0, 0xa900, 0xa9d0, 0xa9f0, 0xaa50, 0xabf0, 0xff10, 0x104a0,
    0x10d30, 0x11066, 0x110f0, 0x11136, 0x111d0, 0x112f0, 0x11450, 0x114d0, 0x11650, 0x116c0, 0x11730,
    0x118e0, 0x11950, 0x11c50, 0x11d50, 0x11da0, 0x16a60, 0x16ac0, 0x16b50, 0x1d7ce, 0x1d7d8, 0x1d7e2,
    0x1d7ec, 0x1d7f6, 0x1e140, 0x1e2f0, 0x1e950, 0x1fbf0]

/-- A decimal digit of any script as one of `0` to `9`. -/
def asciiDigit (c : Char) : Char :=
  match digitZeros.find? fun start => start ≤ c.toNat ∧ c.toNat < start + 10 with
  | some start => (c.toNat - start).digitChar
  | none => c

def isSpace (c : Char) : Bool :=
  c.toNat ∈ [0x9, 0xa, 0xb, 0xc, 0xd, 0x1c, 0x1d, 0x1e, 0x1f, 0x20, 0x85, 0xa0, 0x1680, 0x2000, 0x2001,
    0x2002, 0x2003, 0x2004, 0x2005, 0x2006, 0x2007, 0x2008, 0x2009, 0x200a, 0x2028, 0x2029, 0x202f,
    0x205f, 0x3000]

/-- Outer white space and underscores do not count. -/
def clean (cs : List Char) : List Char :=
  let stripped := ((cs.dropWhile isSpace).reverse.dropWhile isSpace).reverse
  (stripped.filter (· ≠ '_')).map asciiDigit

def takeSign : List Char → Bool × List Char
  | '-' :: rest => (true, rest)
  | '+' :: rest => (false, rest)
  | rest => (false, rest)

def readDigits (cs : List Char) : Option Nat :=
  if cs ≠ [] ∧ cs.all Char.isDigit then some (Nat.ofDigitChars 10 cs 0) else none

def readExponent : List Char → Option ℤ
  | [] => some 0
  | c :: rest =>
    if c = 'e' ∨ c = 'E' then
      let (negative, digits) := takeSign rest
      (readDigits digits).map (signed negative)
    else none

/-- The digits after a point, and what follows. -/
def readFraction : List Char → List Char × List Char
  | '.' :: rest => (rest.takeWhile Char.isDigit, rest.dropWhile Char.isDigit)
  | rest => ([], rest)

def readNumber (negative : Bool) (cs : List Char) : Option Decimal :=
  let whole := cs.takeWhile Char.isDigit
  let (fraction, rest) := readFraction (cs.dropWhile Char.isDigit)
  if whole = [] ∧ fraction = [] then none
  else (readExponent rest).map fun x =>
    finite negative (Nat.ofDigitChars 10 (whole ++ fraction) 0) (x - fraction.length)

def readSpecial (negative : Bool) (cs : List Char) : Option Decimal :=
  let payload (digits : List Char) : Option Nat := if digits = [] then some 0 else readDigits digits
  match cs.map Char.toLower with
  | ['i', 'n', 'f'] | ['i', 'n', 'f', 'i', 'n', 'i', 't', 'y'] => some (infinity negative)
  | 'n' :: 'a' :: 'n' :: digits => (payload digits).map (nan negative false)
  | 's' :: 'n' :: 'a' :: 'n' :: digits => (payload digits).map (nan negative true)
  | _ => none

def InRange : Decimal → Prop
  | finite _ c e => -1999999999999999997 ≤ e ∧ e + numDigits c - 1 ≤ 999999999999999999
  | _ => True

instance : DecidablePred InRange
  | finite _ c e =>
    inferInstanceAs (Decidable (-1999999999999999997 ≤ e ∧ e + numDigits c - 1 ≤ 999999999999999999))
  | infinity _ => .isTrue trivial
  | nan .. => .isTrue trivial

/-- `Decimal(text)`; `none`: an `InvalidOperation`. -/
def parse (cs : List Char) : Option Decimal :=
  let (negative, body) := takeSign (clean cs)
  ((readNumber negative body).or (readSpecial negative body)).filter fun d => InRange d

/-- A character that reading leaves as it is. -/
def Plain (c : Char) : Prop := asciiDigit c = c ∧ c ≠ '_' ∧ isSpace c = false

instance : DecidablePred Plain := fun c =>
  inferInstanceAs (Decidable (asciiDigit c = c ∧ c ≠ '_' ∧ isSpace c = false))

private theorem exists_digitChar {c : Char} (h : c.isDigit = true) : ∃ n, n < 10 ∧ n.digitChar = c := by
  obtain ⟨hlow, hhigh⟩ : 48 ≤ c.toNat ∧ c.toNat ≤ 57 := Char.isDigit_iff_toNat.mp h
  have hsmall : c.toNat - 48 < 10 := by omega
  refine ⟨c.toNat - 48, hsmall, ?_⟩
  apply Char.toNat_inj.mp
  rw [Nat.toNat_digitChar_of_lt_ten hsmall]
  omega

theorem plain_of_isDigit {c : Char} (h : c.isDigit = true) : Plain c := by
  have hall : ∀ n, n < 10 → Plain n.digitChar := by decide
  obtain ⟨n, hn, rfl⟩ := exists_digitChar h
  exact hall n hn

private theorem dropWhile_of_plain {cs : List Char} (h : ∀ c ∈ cs, Plain c) : cs.dropWhile isSpace = cs := by
  cases cs with
  | nil => rfl
  | cons c rest =>
    rw [List.dropWhile_cons_of_neg]
    rw [(h c List.mem_cons_self).2.2]
    exact Bool.false_ne_true

theorem clean_of_plain {cs : List Char} (h : ∀ c ∈ cs, Plain c) : clean cs = cs := by
  have hreverse : ∀ c ∈ cs.reverse, Plain c := fun c hc => h c (List.mem_reverse.mp hc)
  have hkept : cs.filter (· ≠ '_') = cs := by
    rw [List.filter_eq_self]
    exact fun c hc => decide_eq_true (h c hc).2.1
  unfold clean
  rw [dropWhile_of_plain h, dropWhile_of_plain hreverse, List.reverse_reverse]
  dsimp only
  rw [hkept]
  calc cs.map asciiDigit = cs.map id := List.map_congr_left fun c hc => (h c hc).1
    _ = cs := List.map_id cs

private theorem isDigit_toDigits {n : Nat} : ∀ c ∈ Nat.toDigits 10 n, c.isDigit = true :=
  fun _ hc => Nat.isDigit_of_mem_toDigits (by decide) (by decide) hc

/-- Digits up to the first character that is none. -/
private theorem span_digits {ds rest : List Char} (hd : ∀ c ∈ ds, c.isDigit = true)
    (hrest : ∀ c ∈ rest.head?, c.isDigit = false) :
    (ds ++ rest).takeWhile Char.isDigit = ds ∧ (ds ++ rest).dropWhile Char.isDigit = rest := by
  induction ds with
  | nil =>
    cases rest with
    | nil => exact ⟨rfl, rfl⟩
    | cons c rest =>
      have hc := hrest c rfl
      constructor
      · rw [List.nil_append, List.takeWhile_cons_of_neg (by rw [hc]; exact Bool.false_ne_true)]
      · rw [List.nil_append, List.dropWhile_cons_of_neg (by rw [hc]; exact Bool.false_ne_true)]
  | cons c ds ih =>
    have hc := hd c List.mem_cons_self
    obtain ⟨htake, hdrop⟩ := ih fun c hin => hd c (List.mem_cons_of_mem _ hin)
    constructor
    · rw [List.cons_append, List.takeWhile_cons_of_pos hc, htake]
    · rw [List.cons_append, List.dropWhile_cons_of_pos hc, hdrop]

/-- What ends a number: nothing, or its exponent. -/
private def Tail (cs : List Char) : Prop := ∀ c ∈ cs.head?, c = 'E'

private theorem tail_not_digit {cs : List Char} (h : Tail cs) : ∀ c ∈ cs.head?, c.isDigit = false := by
  intro c hc
  rw [h c hc]
  rfl

private theorem readFraction_point {fraction tail : List Char} (hf : ∀ c ∈ fraction, c.isDigit = true)
    (ht : Tail tail) : readFraction (point fraction ++ tail) = (fraction, tail) := by
  unfold point
  split
  · rename_i hnil
    rw [hnil, List.nil_append]
    cases tail with
    | nil => rfl
    | cons c rest =>
      rw [ht c rfl]
      rfl
  · obtain ⟨htake, hdrop⟩ := span_digits hf (tail_not_digit ht)
    rw [List.cons_append, readFraction, htake, hdrop]

private theorem point_not_digit {fraction tail : List Char} (ht : Tail tail) :
    ∀ c ∈ (point fraction ++ tail).head?, c.isDigit = false := by
  unfold point
  split
  · exact tail_not_digit ht
  · intro c hc
    cases hc
    rfl

/-- A number is read by its parts. -/
theorem readNumber_parts (negative : Bool) {whole fraction tail : List Char}
    (hw : ∀ c ∈ whole, c.isDigit = true) (hne : whole ≠ []) (hf : ∀ c ∈ fraction, c.isDigit = true)
    (ht : Tail tail) : readNumber negative (whole ++ (point fraction ++ tail)) =
      (readExponent tail).map fun x =>
        finite negative (Nat.ofDigitChars 10 (whole ++ fraction) 0) (x - fraction.length) := by
  obtain ⟨htake, hdrop⟩ := span_digits hw (point_not_digit ht)
  unfold readNumber
  rw [htake, hdrop, readFraction_point hf ht]
  dsimp only
  rw [if_neg fun h => hne h.1]

theorem readExponent_exponentText (x : ℤ) : readExponent (exponentText x) = some x := by
  have hall : (Nat.toDigits 10 x.natAbs).all Char.isDigit = true :=
    List.all_eq_true.mpr fun c hc => isDigit_toDigits c hc
  have hdigits : readDigits (Nat.toDigits 10 x.natAbs) = some x.natAbs := by
    rw [readDigits, if_pos ⟨Nat.toDigits_ne_nil, hall⟩, Nat.ofDigitChars_ten_toDigits]
  have hsign : takeSign ((if x < 0 then '-' else '+') :: Nat.toDigits 10 x.natAbs) =
      (decide (x < 0), Nat.toDigits 10 x.natAbs) := by
    by_cases hneg : x < 0
    · simp [hneg, takeSign]
    · simp [hneg, takeSign]
  rw [exponentText, readExponent, if_pos (Or.inr rfl), hsign]
  dsimp only
  rw [hdigits, Option.map_some, signed_natAbs_self]

/-- The digits of a number with its point, wherever it stands. -/
theorem placePoint_digits (c : Nat) (left : ℤ) :
    let (whole, fraction) := placePoint (Nat.toDigits 10 c) left
    (∀ d ∈ whole ++ fraction, d.isDigit = true) ∧ whole ≠ [] ∧
      Nat.ofDigitChars 10 (whole ++ fraction) 0 = c ∧
        (left ≤ (Nat.toDigits 10 c).length → (fraction.length : ℤ) = (Nat.toDigits 10 c).length - left) := by
  unfold placePoint
  split
  · rename_i heq
    split at heq
    · rename_i hleft
      cases heq
      refine ⟨?_, List.cons_ne_nil _ _, ?_, fun _ => ?_⟩
      · intro d hd
        rw [List.cons_append, List.nil_append, List.mem_cons, List.mem_append] at hd
        rcases hd with rfl | hd | hd
        · rfl
        · rw [List.eq_of_mem_replicate hd]
          rfl
        · exact isDigit_toDigits d hd
      · rw [List.cons_append, List.nil_append, ← List.cons_append, ← List.replicate_succ,
          Nat.ofDigitChars_append, Nat.ofDigitChars_replicate_zero, mul_zero,
          Nat.ofDigitChars_ten_toDigits]
      · rw [List.length_append, List.length_replicate]
        push_cast
        omega
    · rename_i hleft
      cases heq
      refine ⟨?_, ?_, ?_, fun hle => ?_⟩
      · rw [List.take_append_drop]
        exact isDigit_toDigits
      · intro hnil
        rcases List.take_eq_nil_iff.mp hnil with h | h
        · omega
        · exact Nat.toDigits_ne_nil h
      · rw [List.take_append_drop, Nat.ofDigitChars_ten_toDigits]
      · rw [List.length_drop]
        omega

private theorem tail_nil : Tail [] := by
  intro c hc
  cases hc

private theorem tail_exponentText (x : ℤ) : Tail (exponentText x) := by
  intro c hc
  cases hc
  rfl

/-- The text of a number without its sign is read back. -/
theorem readNumber_bodyText (negative : Bool) (c : Nat) (e : ℤ) :
    readNumber negative (bodyText c e) = some (finite negative c e) := by
  unfold bodyText
  dsimp only
  split
  · rename_i hplain
    have hplace := placePoint_digits c (e + (Nat.toDigits 10 c).length)
    generalize placePoint (Nat.toDigits 10 c) (e + (Nat.toDigits 10 c).length) = placed at hplace ⊢
    obtain ⟨whole, fraction⟩ := placed
    obtain ⟨hdigits, hne, hvalue, hlength⟩ := hplace
    have hparts := readNumber_parts negative (fun d hd => hdigits d (List.mem_append_left _ hd)) hne
      (fun d hd => hdigits d (List.mem_append_right _ hd)) tail_nil
    rw [List.append_nil, hvalue, hlength (by omega)] at hparts
    dsimp only
    rw [hparts, readExponent, Option.map_some]
    congr 2
    omega
  · have hpos : 0 < (Nat.toDigits 10 c).length := Nat.length_toDigits_pos
    have hsplit : (Nat.toDigits 10 c).take 1 ++ (Nat.toDigits 10 c).drop 1 = Nat.toDigits 10 c :=
      List.take_append_drop 1 _
    have hne : (Nat.toDigits 10 c).take 1 ≠ [] := by
      intro hnil
      have hlength := congrArg List.length hnil
      rw [List.length_take, List.length_nil] at hlength
      omega
    have hfirst : ∀ d ∈ (Nat.toDigits 10 c).take 1, d.isDigit = true :=
      fun d hd => isDigit_toDigits d (List.mem_of_mem_take hd)
    have hrest : ∀ d ∈ (Nat.toDigits 10 c).drop 1, d.isDigit = true :=
      fun d hd => isDigit_toDigits d (List.mem_of_mem_drop hd)
    have hparts := readNumber_parts negative hfirst hne hrest
      (tail_exponentText (e + (Nat.toDigits 10 c).length - 1))
    rw [List.append_assoc, hparts, readExponent_exponentText, Option.map_some, hsplit,
      Nat.ofDigitChars_ten_toDigits, List.length_drop]
    congr 2
    omega

private theorem plain_digits {ds : List Char} (h : ∀ c ∈ ds, c.isDigit = true) : ∀ c ∈ ds, Plain c :=
  fun c hc => plain_of_isDigit (h c hc)

private theorem point_plain {fraction : List Char} (h : ∀ c ∈ fraction, c.isDigit = true) :
    ∀ c ∈ point fraction, Plain c := by
  intro c hc
  unfold point at hc
  split at hc
  · cases hc
  · rcases List.mem_cons.mp hc with rfl | hc
    · decide
    · exact plain_digits h c hc

private theorem exponentText_plain (x : ℤ) : ∀ c ∈ exponentText x, Plain c := by
  intro c hc
  unfold exponentText at hc
  rcases List.mem_cons.mp hc with rfl | hc
  · decide
  · rcases List.mem_cons.mp hc with rfl | hc
    · split
      · decide
      · decide
    · exact plain_digits isDigit_toDigits c hc

/-- A number's text starts with a digit, and has nothing that reading drops. -/
private theorem bodyText_shape (c : Nat) (e : ℤ) :
    (∀ d ∈ bodyText c e, Plain d) ∧ ∃ d rest, bodyText c e = d :: rest ∧ d.isDigit = true := by
  unfold bodyText
  dsimp only
  split
  · have hplace := placePoint_digits c (e + (Nat.toDigits 10 c).length)
    generalize placePoint (Nat.toDigits 10 c) (e + (Nat.toDigits 10 c).length) = placed at hplace ⊢
    obtain ⟨whole, fraction⟩ := placed
    obtain ⟨hdigits, hne, -, -⟩ := hplace
    have hwhole : ∀ d ∈ whole, d.isDigit = true := fun d hd => hdigits d (List.mem_append_left _ hd)
    constructor
    · intro d hd
      rcases List.mem_append.mp hd with hd | hd
      · exact plain_digits hwhole d hd
      · exact point_plain (fun d hd => hdigits d (List.mem_append_right _ hd)) d hd
    · cases whole with
      | nil => exact absurd rfl hne
      | cons d whole => exact ⟨d, whole ++ point fraction, rfl, hwhole d List.mem_cons_self⟩
  · constructor
    · intro d hd
      rw [List.append_assoc, List.mem_append, List.mem_append] at hd
      rcases hd with hd | hd | hd
      · exact plain_digits isDigit_toDigits d (List.mem_of_mem_take hd)
      · exact point_plain (fun d hd => isDigit_toDigits d (List.mem_of_mem_drop hd)) d hd
      · exact exponentText_plain _ d hd
    · cases hdigits : Nat.toDigits 10 c with
      | nil => exact absurd hdigits Nat.toDigits_ne_nil
      | cons d ds =>
        have hd : d ∈ Nat.toDigits 10 c := hdigits ▸ List.mem_cons_self
        exact ⟨d, _, rfl, isDigit_toDigits d hd⟩

private theorem takeSign_signText (negative : Bool) {d : Char} {rest : List Char} (hminus : d ≠ '-')
    (hplus : d ≠ '+') : takeSign (signText negative ++ d :: rest) = (negative, d :: rest) := by
  cases negative with
  | true => rfl
  | false =>
    unfold signText
    rw [if_neg Bool.false_ne_true, List.nil_append, takeSign]
    · exact fun _ h => hminus (List.cons.inj h).1
    · exact fun _ h => hplus (List.cons.inj h).1

private theorem signText_plain (negative : Bool) : ∀ c ∈ signText negative, Plain c := by
  cases negative with
  | true =>
    intro c hc
    rw [List.mem_singleton.mp hc]
    decide
  | false => exact fun c hc => absurd hc List.not_mem_nil

private theorem digit_not_sign {d : Char} (h : d.isDigit = true) : d ≠ '-' ∧ d ≠ '+' := by
  constructor
  · rintro rfl
    exact Bool.noConfusion h
  · rintro rfl
    exact Bool.noConfusion h

/-- A text without an exponent is read by its digits. -/
theorem parse_plain (negative : Bool) {whole fraction : List Char}
    (hw : ∀ c ∈ whole, c.isDigit = true) (hne : whole ≠ []) (hf : ∀ c ∈ fraction, c.isDigit = true) :
    parse (signText negative ++ (whole ++ point fraction)) =
      (some (finite negative (Nat.ofDigitChars 10 (whole ++ fraction) 0) (-fraction.length))).filter
        fun d => InRange d := by
  have hclean : clean (signText negative ++ (whole ++ point fraction)) =
      signText negative ++ (whole ++ point fraction) := by
    apply clean_of_plain
    intro c hc
    rcases List.mem_append.mp hc with hc | hc
    · exact signText_plain negative c hc
    · rcases List.mem_append.mp hc with hc | hc
      · exact plain_digits hw c hc
      · exact point_plain hf c hc
  have hsign : takeSign (signText negative ++ (whole ++ point fraction)) =
      (negative, whole ++ point fraction) := by
    cases whole with
    | nil => exact absurd rfl hne
    | cons d whole =>
      obtain ⟨hminus, hplus⟩ := digit_not_sign (hw d List.mem_cons_self)
      exact takeSign_signText negative hminus hplus
  have hnumber := readNumber_parts negative hw hne hf tail_nil
  rw [List.append_nil, readExponent, Option.map_some, zero_sub] at hnumber
  rw [parse, hclean, hsign]
  dsimp only
  rw [hnumber, Option.some_or]

private theorem toLower_digit {c : Char} (h : c.isDigit = true) : c.toLower = c := by
  have hall : ∀ n, n < 10 → n.digitChar.toLower = n.digitChar := by decide
  obtain ⟨n, hn, rfl⟩ := exists_digitChar h
  exact hall n hn

private theorem toLower_digits {ds : List Char} (h : ∀ c ∈ ds, c.isDigit = true) :
    ds.map Char.toLower = ds := by
  calc ds.map Char.toLower = ds.map id := List.map_congr_left fun c hc => toLower_digit (h c hc)
    _ = ds := List.map_id ds

private def payloadText (payload : Nat) : List Char := if payload = 0 then [] else Nat.toDigits 10 payload

private theorem payloadText_digits (payload : Nat) : ∀ c ∈ payloadText payload, c.isDigit = true := by
  unfold payloadText
  split
  · exact fun c hc => absurd hc List.not_mem_nil
  · exact isDigit_toDigits

private theorem readPayload (payload : Nat) :
    (if payloadText payload = [] then some 0 else readDigits (payloadText payload)) = some payload := by
  unfold payloadText
  by_cases hzero : payload = 0
  · rw [if_pos hzero, if_pos rfl, hzero]
  · have hall : (Nat.toDigits 10 payload).all Char.isDigit = true :=
      List.all_eq_true.mpr fun c hc => isDigit_toDigits c hc
    rw [if_neg hzero, if_neg Nat.toDigits_ne_nil, readDigits, if_pos ⟨Nat.toDigits_ne_nil, hall⟩,
      Nat.ofDigitChars_ten_toDigits]

private theorem parse_text_filter (d : Decimal) : parse d.text = (some d).filter fun d => InRange d := by
  cases d with
  | finite negative c e =>
    obtain ⟨hplain, d, rest, hbody, hdigit⟩ := bodyText_shape c e
    obtain ⟨hminus, hplus⟩ := digit_not_sign hdigit
    have hclean : clean (text (finite negative c e)) = text (finite negative c e) := by
      apply clean_of_plain
      intro x hx
      rcases List.mem_append.mp hx with hx | hx
      · exact signText_plain negative x hx
      · exact hplain x hx
    have hsign : takeSign (text (finite negative c e)) = (negative, bodyText c e) := by
      rw [text, hbody, takeSign_signText negative hminus hplus]
    rw [parse, hclean, hsign]
    dsimp only
    rw [readNumber_bodyText, Option.some_or]
  | infinity negative => cases negative <;> decide
  | nan negative signaling payload =>
    have hdigits := payloadText_digits payload
    have hall : ((if signaling then "sNaN".toList else "NaN".toList).all fun c => Plain c) = true := by
      cases signaling <;> decide
    have hname : ∀ c ∈ (if signaling then "sNaN".toList else "NaN".toList), Plain c :=
      fun c hc => of_decide_eq_true (List.all_eq_true.mp hall c hc)
    have hclean : clean (text (nan negative signaling payload)) = text (nan negative signaling payload) := by
      apply clean_of_plain
      intro x hx
      rcases List.mem_append.mp hx with hx | hx
      · rcases List.mem_append.mp hx with hx | hx
        · exact signText_plain negative x hx
        · exact hname x hx
      · exact plain_digits hdigits x hx
    have hread : takeSign (text (nan negative signaling payload)) =
        (negative, (if signaling then "sNaN".toList else "NaN".toList) ++ payloadText payload) := by
      cases negative <;> cases signaling <;> rfl
    have hnumber : readNumber negative
        ((if signaling then "sNaN".toList else "NaN".toList) ++ payloadText payload) = none := by
      cases signaling <;> rfl
    have hspecial : readSpecial negative
        ((if signaling then "sNaN".toList else "NaN".toList) ++ payloadText payload) =
          some (nan negative signaling payload) := by
      have hlower := toLower_digits hdigits
      have hpayload := readPayload payload
      cases signaling with
      | true =>
        change (if (payloadText payload).map Char.toLower = [] then some 0
          else readDigits ((payloadText payload).map Char.toLower)).map (nan negative true) = _
        rw [hlower, hpayload]
        rfl
      | false =>
        change (if (payloadText payload).map Char.toLower = [] then some 0
          else readDigits ((payloadText payload).map Char.toLower)).map (nan negative false) = _
        rw [hlower, hpayload]
        rfl
    rw [parse, hclean, hread]
    dsimp only
    rw [hnumber, hspecial, Option.none_or]

/-- What was written is read back, sign, digits and exponent alike. -/
theorem parse_text {d : Decimal} (h : InRange d) : parse d.text = some d := by
  rw [parse_text_filter, Option.filter_some, if_pos (decide_eq_true h)]

theorem text_ne_nil (d : Decimal) : d.text ≠ [] := by
  cases d with
  | finite negative c e =>
    obtain ⟨-, d, rest, hbody, -⟩ := bodyText_shape c e
    rw [text, hbody]
    exact List.append_ne_nil_of_right_ne_nil _ (List.cons_ne_nil d rest)
  | infinity negative => exact List.append_ne_nil_of_right_ne_nil _ (List.cons_ne_nil _ _)
  | nan negative signaling payload =>
    apply List.append_ne_nil_of_left_ne_nil
    apply List.append_ne_nil_of_right_ne_nil
    cases signaling with
    | true => exact List.cons_ne_nil _ _
    | false => exact List.cons_ne_nil _ _

theorem inRange_finite {negative : Bool} {c : Nat} {e : ℤ} : InRange (finite negative c e) ↔
    -1999999999999999997 ≤ e ∧ e + numDigits c - 1 ≤ 999999999999999999 := Iff.rfl

private theorem roundHalfEven_le (n d : Nat) : roundHalfEven n d ≤ n / d + 1 := by
  unfold roundHalfEven
  split
  · exact Nat.le_succ _
  · split
    · exact le_rfl
    · omega

/-- A rounded coefficient has 29 digits at most. -/
private theorem rounded_digits {c : Nat} {e expMin : ℤ} (hlt : e < expMin)
    (hmin : numDigits c + e - prec ≤ expMin) :
    numDigits (roundHalfEven c (10 ^ (expMin - e).toNat)) ≤ 29 := by
  have hlong : numDigits c ≤ prec + (expMin - e).toNat := by omega
  have hclt := (lt_pow_numDigits c).trans_le (Nat.pow_le_pow_right (by decide) hlong)
  rw [pow_add] at hclt
  have hquotient : c / 10 ^ (expMin - e).toNat < 10 ^ prec :=
    (Nat.div_lt_iff_lt_mul (Nat.pow_pos (by decide))).mpr hclt
  have hrounded := roundHalfEven_le c (10 ^ (expMin - e).toNat)
  have hpow : 10 ^ prec < 10 ^ 29 := by decide
  exact (Nat.length_toDigits_le_iff (by decide) (by decide)).mpr (by omega)

/-- The default context's exponents are far inside what a decimal can have. -/
theorem inRange_of_fix {negative : Bool} {c : Nat} {e : ℤ} {d : Decimal} (h : fix negative c e = some d) :
    InRange d := by
  unfold fix at h
  split at h
  · cases h
    have hdigits : numDigits 0 = 1 := by decide
    rw [inRange_finite, hdigits]
    simp only [eTiny, eMax]
    omega
  · dsimp only at h
    split at h
    · cases h
    · rename_i hnot
      have hmin : numDigits c + e - prec ≤ max (numDigits c + e - prec) eTiny := le_max_left _ _
      have htop : max (numDigits c + e - prec) eTiny ≤ eTop := max_le (not_lt.mp hnot) (by decide)
      have htiny : eTiny ≤ max (numDigits c + e - prec) eTiny := le_max_right _ _
      generalize max (numDigits c + e - prec) eTiny = expMin at h hmin htop htiny
      simp only [eTiny, eTop] at htop htiny hnot
      split at h
      · rename_i hlt
        have hdigits := rounded_digits hlt hmin
        split at h
        · split at h
          · cases h
          · rename_i hfit
            cases h
            have hpow : numDigits (10 ^ (prec - 1)) = 28 := by decide
            rw [inRange_finite, hpow]
            simp only [eTop] at hfit
            omega
        · cases h
          rw [inRange_finite]
          omega
      · rename_i hge
        cases h
        rw [inRange_finite]
        simp only [prec] at hnot
        omega

private theorem inRange_of_nanOf {a b d : Decimal} (h : nanOf a b = some d)
    (hnan : a.isNan = true ∨ b.isNan = true) : InRange d := by
  unfold nanOf at h
  split at h
  · cases h
  · cases h
  · cases h
    trivial
  · rename_i hsignal hquiet hother
    have hleft : ¬ a.isNan = true := by
      intro ha
      cases a with
      | finite negative c e => cases ha
      | infinity n => cases ha
      | nan n s p => exact hquiet n s p rfl
    have hright := hnan.resolve_left hleft
    cases h
    cases b with
    | finite negative c e => cases hright
    | infinity n => trivial
    | nan n s p => trivial

theorem inRange_of_add {a b d : Decimal} (h : add a b = some d) : InRange d := by
  unfold add at h
  split at h
  · exact inRange_of_nanOf h (.inl rfl)
  · exact inRange_of_nanOf h (.inr rfl)
  · split at h
    · cases h
      trivial
    · cases h
  · cases h
    trivial
  · cases h
    trivial
  · exact inRange_of_fix h

end Decimal
