import Qraft.Retry

/-! The delay before a retry, against the hint, the cap and the jitter it is made of. -/
namespace Qraft
namespace RetryPolicy

/-- The delay of the strategy alone, capped after a rate limit. -/
def strategyDelay (p : RetryPolicy) (attemptNumber : Nat) (isRateLimit : Bool) : ℚ :=
  if isRateLimit then min (p.baseDelay * 2 ^ (attemptNumber - 1)) p.rateLimitMaxDelay
  else
    match p.backoffStrategy with
    | .linear => p.baseDelay * attemptNumber
    | .exponential => p.baseDelay * 2 ^ (attemptNumber - 1)
    | .fixed => p.baseDelay

structure DelayLaw (p : RetryPolicy) (attemptNumber : Nat) (retryAfter : Option ℚ) (isRateLimit : Bool)
    (delay : ℤ) : Prop where
  /-- A hint is a floor, and then the cap applies. -/
  hint : ∀ r, retryAfter = some r →
    min r p.rateLimitMaxDelay ≤ delay ∧ (delay : ℚ) ≤ p.rateLimitMaxDelay
  capped : isRateLimit = true → (delay : ℚ) ≤ p.rateLimitMaxDelay
  exact : retryAfter = none → p.jitter = false → (delay : ℚ) = p.strategyDelay attemptNumber isRateLimit
  positive : retryAfter = none → p.jitter = false → 0 < p.baseDelay → 0 < delay
  jittered : retryAfter = none → p.jitter = true → 0 < p.strategyDelay attemptNumber isRateLimit →
    (if isRateLimit then min 1 p.rateLimitMaxDelay else 1) ≤ (delay : ℚ) ∧
      p.strategyDelay attemptNumber isRateLimit * (1 - p.jitterMax) ≤ delay ∧
        delay ≤ max 1 (p.strategyDelay attemptNumber isRateLimit * (1 + p.jitterMax))

/-- The delay before `int()`. -/
def exactDelay (p : RetryPolicy) (draw : ℚ) (attemptNumber : Nat) (retryAfter : Option ℚ)
    (isRateLimit : Bool) : ℚ :=
  match retryAfter with
  | some hint => min (hint + uniform draw 0 (hint / 10)) p.rateLimitMaxDelay
  | none =>
    let delay := p.strategyDelay attemptNumber isRateLimit
    let delay :=
      if p.jitter && decide (0 < delay) then
        max 1 (delay + uniform draw (-(delay * p.jitterMax)) (delay * p.jitterMax))
      else delay
    if isRateLimit then min delay p.rateLimitMaxDelay else delay

/-- The least that the draws leave of it. -/
def leastDelay (p : RetryPolicy) (attemptNumber : Nat) (retryAfter : Option ℚ) (isRateLimit : Bool) : ℚ :=
  match retryAfter with
  | some hint => min hint p.rateLimitMaxDelay
  | none =>
    let delay := p.strategyDelay attemptNumber isRateLimit
    if p.jitter && decide (0 < delay) then
      if isRateLimit then min (max 1 (delay * (1 - p.jitterMax))) p.rateLimitMaxDelay
      else max 1 (delay * (1 - p.jitterMax))
    else delay

section
variable {p : RetryPolicy} {draw : ℚ} {n : Nat} {hint : Option ℚ} {limited : Bool}

theorem calculateDelay_eq (p : RetryPolicy) (draw : ℚ) (n : Nat) (hint : Option ℚ) (limited : Bool) :
    p.calculateDelay draw n hint limited = truncate (p.exactDelay draw n hint limited) := by
  cases hint with
  | some r => rfl
  | none => rfl

theorem strategyDelay_nonneg (p : RetryPolicy) (n : Nat) (limited : Bool) :
    0 ≤ p.strategyDelay n limited := by
  have hbase := p.baseDelay_nonneg
  have hpow : 0 ≤ p.baseDelay * 2 ^ (n - 1) := mul_nonneg hbase (by positivity)
  unfold strategyDelay
  split
  · exact le_min hpow p.rateLimitMaxDelay_pos.le
  · split
    · exact mul_nonneg hbase (Nat.cast_nonneg n)
    · exact hpow
    · exact hbase

theorem strategyDelay_pos (hn : 1 ≤ n) (hbase : 0 < p.baseDelay) : 0 < p.strategyDelay n limited := by
  have hpow : 0 < p.baseDelay * 2 ^ (n - 1) := mul_pos hbase (by positivity)
  unfold strategyDelay
  split
  · exact lt_min hpow p.rateLimitMaxDelay_pos
  · split
    · exact mul_pos hbase (by exact_mod_cast hn)
    · exact hpow
    · exact hbase

theorem strategyDelay_le (p : RetryPolicy) (n : Nat) : p.strategyDelay n true ≤ p.rateLimitMaxDelay :=
  min_le_right _ _

private theorem jitter_bounds {d m : ℚ} (hd : 0 ≤ d) (hm : 0 ≤ m) (hlow : 0 ≤ draw) (hhigh : draw ≤ 1) :
    d * (1 - m) ≤ d + uniform draw (-(d * m)) (d * m) ∧
      d + uniform draw (-(d * m)) (d * m) ≤ d * (1 + m) := by
  have hdm : 0 ≤ d * m := mul_nonneg hd hm
  have hdraw : 0 ≤ d * m * draw := mul_nonneg hdm hlow
  have hdraw' : d * m * draw ≤ d * m := mul_le_of_le_one_right hdm hhigh
  have heq : d + uniform draw (-(d * m)) (d * m) = d * (1 - m) + 2 * (d * m * draw) := by
    rw [uniform]
    ring
  rw [heq]
  constructor
  · linarith
  · linarith

/-- The least is what a draw of nothing leaves. -/
theorem exactDelay_zero (p : RetryPolicy) (n : Nat) (hint : Option ℚ) (limited : Bool) :
    p.exactDelay 0 n hint limited = p.leastDelay n hint limited := by
  have hdraw (a b : ℚ) : uniform 0 a b = a := by rw [uniform, mul_zero, add_zero]
  cases hint with
  | some r => rw [exactDelay, hdraw, add_zero, leastDelay]
  | none =>
    have hlow : p.strategyDelay n limited + -(p.strategyDelay n limited * p.jitterMax) =
        p.strategyDelay n limited * (1 - p.jitterMax) := by ring
    unfold exactDelay leastDelay
    dsimp only
    rw [hdraw, hlow]
    cases p.jitter && decide (0 < p.strategyDelay n limited) with
    | true => rfl
    | false =>
      cases limited with
      | true => exact min_eq_left (p.strategyDelay_le n)
      | false => rfl

theorem leastDelay_le (hlow : 0 ≤ draw) (hhigh : draw ≤ 1) (hpos : ∀ r, hint = some r → 0 < r) :
    p.leastDelay n hint limited ≤ p.exactDelay draw n hint limited := by
  cases hint with
  | some r =>
    have hr := hpos r rfl
    have hdraw : 0 ≤ uniform draw 0 (r / 10) := by
      rw [uniform]
      have hprod : 0 ≤ r / 10 * draw := mul_nonneg (by positivity) hlow
      linarith
    exact min_le_min_right _ (by linarith)
  | none =>
    obtain ⟨hleast, -⟩ := jitter_bounds (p.strategyDelay_nonneg n limited) p.jitterMax_range.1 hlow hhigh
    unfold exactDelay leastDelay
    dsimp only
    cases p.jitter && decide (0 < p.strategyDelay n limited) with
    | true =>
      cases limited with
      | true => exact min_le_min_right _ (max_le_max_left 1 hleast)
      | false => exact max_le_max_left 1 hleast
    | false =>
      cases limited with
      | true => exact (min_eq_left (p.strategyDelay_le n)).ge
      | false => exact le_rfl

theorem leastDelay_nonneg (hpos : ∀ r, hint = some r → 0 < r) : 0 ≤ p.leastDelay n hint limited := by
  have hcap := p.rateLimitMaxDelay_pos.le
  cases hint with
  | some r => exact le_min (hpos r rfl).le hcap
  | none =>
    have hone (x : ℚ) : (0 : ℚ) ≤ max 1 x := zero_le_one.trans (le_max_left 1 x)
    unfold leastDelay
    dsimp only
    split
    · split
      · exact le_min (hone _) hcap
      · exact hone _
    · exact p.strategyDelay_nonneg n limited

/-- `int()` of a delay rounds it down. -/
private theorem truncate_exactDelay (hlow : 0 ≤ draw) (hhigh : draw ≤ 1)
    (hpos : ∀ r, hint = some r → 0 < r) :
    p.calculateDelay draw n hint limited = ⌊p.exactDelay draw n hint limited⌋ := by
  have hnonneg : 0 ≤ p.exactDelay draw n hint limited :=
    (leastDelay_nonneg hpos).trans (leastDelay_le hlow hhigh hpos)
  rw [calculateDelay_eq, truncate, if_pos hnonneg]

/-- What the law asks for at the least is the least delay. -/
private theorem leastDelay_le_of_law {delay : ℤ} (h : p.DelayLaw n hint limited delay) :
    p.leastDelay n hint limited ≤ delay ∨ p.leastDelay n hint limited = 0 := by
  cases hint with
  | some r => exact .inl (h.hint r rfl).1
  | none =>
    unfold leastDelay
    dsimp only
    cases hj : p.jitter with
    | false => exact .inl (h.exact rfl hj).ge
    | true =>
      rw [Bool.true_and]
      by_cases hd : 0 < p.strategyDelay n limited
      · rw [if_pos (decide_eq_true hd)]
        left
        obtain ⟨hone, hlow, -⟩ := h.jittered rfl hj hd
        cases limited with
        | true =>
          rw [if_pos rfl] at hone ⊢
          rcases le_total 1 p.rateLimitMaxDelay with hcap | hcap
          · rw [min_eq_left hcap] at hone
            exact (min_le_left _ _).trans (max_le hone hlow)
          · rw [min_eq_right hcap] at hone
            exact (min_le_right _ _).trans hone
        | false => exact max_le hone hlow
      · rw [if_neg (by rw [decide_eq_true_eq]; exact hd)]
        exact .inr (le_antisymm (not_lt.mp hd) (p.strategyDelay_nonneg n limited))

theorem exactDelay_le_cap (p : RetryPolicy) (draw : ℚ) (n : Nat) (h : hint ≠ none ∨ limited = true) :
    p.exactDelay draw n hint limited ≤ p.rateLimitMaxDelay := by
  cases hint with
  | some r => exact min_le_right _ _
  | none =>
    rcases h with hne | rfl
    · exact absurd rfl hne
    · exact min_le_right _ _

/-- Without jitter and hint there is nothing but the strategy. -/
theorem exactDelay_plain (draw : ℚ) (n : Nat) (limited : Bool) (hj : p.jitter = false) :
    p.exactDelay draw n none limited = p.strategyDelay n limited := by
  unfold exactDelay
  dsimp only
  rw [hj, Bool.false_and, if_neg Bool.false_ne_true]
  cases limited with
  | true => exact min_eq_left (p.strategyDelay_le n)
  | false => rfl

theorem leastDelay_plain (n : Nat) (limited : Bool) (hj : p.jitter = false) :
    p.leastDelay n none limited = p.strategyDelay n limited := by
  unfold leastDelay
  dsimp only
  rw [hj, Bool.false_and, if_neg Bool.false_ne_true]

/-- The bounds of the jitter around a positive delay. -/
private theorem jittered_bounds (hlow : 0 ≤ draw) (hhigh : draw ≤ 1) (hj : p.jitter = true)
    (hd : 0 < p.strategyDelay n limited) :
    (if limited then min 1 p.rateLimitMaxDelay else 1) ≤ p.leastDelay n none limited ∧
      p.strategyDelay n limited * (1 - p.jitterMax) ≤ p.leastDelay n none limited ∧
        p.exactDelay draw n none limited ≤ max 1 (p.strategyDelay n limited * (1 + p.jitterMax)) := by
  obtain ⟨-, hmost⟩ := jitter_bounds hd.le p.jitterMax_range.1 hlow hhigh
  have hboth : (p.jitter && decide (0 < p.strategyDelay n limited)) = true := by
    rw [hj, Bool.true_and]
    exact decide_eq_true hd
  have hfraction : p.strategyDelay n limited * (1 - p.jitterMax) ≤ p.strategyDelay n limited := by
    have hm := p.jitterMax_range.1
    exact mul_le_of_le_one_right hd.le (by linarith)
  unfold leastDelay exactDelay
  dsimp only
  rw [hboth, if_pos rfl, if_pos rfl]
  cases limited with
  | true =>
    refine ⟨min_le_min_right _ (le_max_left _ _), ?_, ?_⟩
    · exact le_min (le_max_right _ _) (hfraction.trans (p.strategyDelay_le n))
    · exact (min_le_left _ _).trans (max_le_max_left 1 hmost)
  | false => exact ⟨le_max_left _ _, le_max_right _ _, max_le_max_left 1 hmost⟩

/-- Where the least delay is a whole number, rounding down stays above it. -/
private theorem law_of_whole (hn : 1 ≤ n) (hpos : ∀ r, hint = some r → 0 < r) (hlow : 0 ≤ draw)
    (hhigh : draw ≤ 1) {k : ℤ} (hk : p.leastDelay n hint limited = k) :
    p.DelayLaw n hint limited ⌊p.exactDelay draw n hint limited⌋ := by
  have hfloor : p.leastDelay n hint limited ≤ (⌊p.exactDelay draw n hint limited⌋ : ℚ) := by
    have hleast : p.leastDelay n hint limited ≤ p.exactDelay draw n hint limited :=
      leastDelay_le hlow hhigh hpos
    rw [hk] at hleast ⊢
    exact_mod_cast Int.le_floor.mpr hleast
  have hround : (⌊p.exactDelay draw n hint limited⌋ : ℚ) ≤ p.exactDelay draw n hint limited :=
    Int.floor_le _
  have hexact : hint = none → p.jitter = false →
      (⌊p.exactDelay draw n hint limited⌋ : ℚ) = p.strategyDelay n limited := by
    rintro rfl hj
    rw [leastDelay_plain n limited hj] at hfloor
    rw [exactDelay_plain draw n limited hj] at hfloor hround ⊢
    exact le_antisymm hround hfloor
  refine ⟨?_, ?_, hexact, ?_, ?_⟩
  · rintro r rfl
    exact ⟨hfloor, hround.trans (p.exactDelay_le_cap draw n (.inl (Option.some_ne_none r)))⟩
  · exact fun hlimited => hround.trans (p.exactDelay_le_cap draw n (.inr hlimited))
  · intro hnone hj hbase
    have hstrategy : 0 < p.strategyDelay n limited := strategyDelay_pos hn hbase
    rw [← hexact hnone hj] at hstrategy
    exact_mod_cast hstrategy
  · rintro rfl hj hd
    obtain ⟨hone, hfraction, hmost⟩ := jittered_bounds hlow hhigh hj hd
    exact ⟨hone.trans hfloor, hfraction.trans hfloor, hround.trans hmost⟩

/-- Exactly when the law holds for every draw: when nothing is lost where the delay is least. -/
theorem delay_law_iff (p : RetryPolicy) {n : Nat} {hint : Option ℚ} {limited : Bool} (hn : 1 ≤ n)
    (hpos : ∀ r, hint = some r → 0 < r) :
    (∀ draw : ℚ, 0 ≤ draw → draw < 1 →
      p.DelayLaw n hint limited (p.calculateDelay draw n hint limited)) ↔
        ∃ k : ℤ, p.leastDelay n hint limited = k := by
  constructor
  · intro h
    have hlaw := h 0 le_rfl zero_lt_one
    have hdelay : p.calculateDelay 0 n hint limited = ⌊p.leastDelay n hint limited⌋ := by
      rw [truncate_exactDelay le_rfl zero_le_one hpos, exactDelay_zero]
    rw [hdelay] at hlaw
    rcases leastDelay_le_of_law hlaw with hle | hzero
    · exact ⟨⌊p.leastDelay n hint limited⌋, le_antisymm hle (Int.floor_le _)⟩
    · exact ⟨0, by rw [hzero, Int.cast_zero]⟩
  · rintro ⟨k, hk⟩ draw hlow hhigh
    rw [truncate_exactDelay hlow hhigh.le hpos]
    exact law_of_whole hn hpos hlow hhigh.le hk

end

private def halfSecond : RetryPolicy where
  maxAttempts := 3
  baseDelay := 1 / 2
  backoffStrategy := .fixed
  jitter := false
  jitterMax := 1 / 5
  retryExceptions := []
  skipExceptions := []
  rateLimitExceptions := Qraft.rateLimitExceptions
  rateLimitMaxDelay := 300
  maxAttempts_range := by decide
  jitterMax_range := by norm_num
  baseDelay_nonneg := by norm_num
  rateLimitMaxDelay_pos := by norm_num

theorem delay_law_whole_hint : halfSecond.leastDelay 2 (some 12) true = 12 ∧
    ∀ draw : ℚ, 0 ≤ draw → draw < 1 →
      halfSecond.DelayLaw 2 (some 12) true (halfSecond.calculateDelay draw 2 (some 12) true) := by
  have hleast : halfSecond.leastDelay 2 (some 12) true = 12 := by norm_num [leastDelay, halfSecond]
  have hpos : ∀ r : ℚ, some 12 = some r → 0 < r := by
    rintro r ⟨⟩
    norm_num
  refine ⟨hleast, (delay_law_iff halfSecond (by decide) hpos).mpr ⟨12, ?_⟩⟩
  rw [hleast]
  norm_num

/-- A hint of a second and a half becomes one second, and the half second none. -/
theorem delay_rounded_down :
    ¬ halfSecond.DelayLaw 1 (some (3 / 2)) true (halfSecond.calculateDelay 0 1 (some (3 / 2)) true) ∧
      halfSecond.calculateDelay 0 1 (some (3 / 2)) true = 1 ∧
      ¬ halfSecond.DelayLaw 1 none false (halfSecond.calculateDelay 0 1 none false) ∧
      halfSecond.calculateDelay 0 1 none false = 0 := by
  have hhint : halfSecond.calculateDelay 0 1 (some (3 / 2)) true = 1 := by decide +kernel
  have hnone : halfSecond.calculateDelay 0 1 none false = 0 := by decide +kernel
  rw [hhint, hnone]
  refine ⟨fun h => ?_, rfl, fun h => ?_, rfl⟩
  · obtain ⟨hfloor, -⟩ := h.hint (3 / 2) rfl
    norm_num [halfSecond] at hfloor
  · have hpositive := h.positive rfl rfl (by norm_num [halfSecond])
    exact absurd hpositive (lt_irrefl 0)

end RetryPolicy
end Qraft
