import Mathlib.Data.Rat.Floor
import Qraft.Models.Values

/-! Retry policies: validation, the retry decision and the delay. -/
namespace Qraft

inductive RetryBackoff where
  | exponential
  | linear
  | fixed
  deriving DecidableEq, Repr

def RetryBackoff.value : RetryBackoff → String
  | .exponential => "exponential"
  | .linear => "linear"
  | .fixed => "fixed"

def RetryBackoff.ofValue (s : String) : Option RetryBackoff :=
  [RetryBackoff.exponential, .linear, .fixed].find? fun b => b.value = s

structure RetryDefaults where
  maxAttempts : Int := 3
  delay : ℚ := 30
  backoff : RetryBackoff := .exponential
  jitter : Bool := true
  jitterMax : ℚ := 1 / 5

/-- The retry keys of a `qraft_options` dictionary that names at least one. -/
structure RetryOptions where
  maxAttempts : Option Int := none
  baseDelay : Option ℚ := none
  backoffStrategy : Option String := none
  jitter : Option Bool := none
  jitterMax : Option ℚ := none
  retryExceptions : Option (List String) := none
  skipExceptions : Option (List String) := none
  rateLimitExceptions : Option (List String) := none
  rateLimitMaxDelay : ℚ := 300

def rateLimitExceptions : List String :=
  ["RateLimited", "RateLimitError", "TooManyRequests", "TooManyRequestsError",
    "ThrottlingException", "ResourceExhausted", "ServiceUnavailableError", "OverloadedError",
    "APIStatusError429"]

/-- A policy the constructor accepted. -/
structure RetryPolicy where
  maxAttempts : Int
  baseDelay : ℚ
  backoffStrategy : RetryBackoff
  jitter : Bool
  jitterMax : ℚ
  retryExceptions : List String
  skipExceptions : List String
  rateLimitExceptions : List String
  rateLimitMaxDelay : ℚ
  maxAttempts_range : 1 ≤ maxAttempts ∧ maxAttempts ≤ 10
  jitterMax_range : 0 ≤ jitterMax ∧ jitterMax ≤ 1
  baseDelay_nonneg : 0 ≤ baseDelay
  rateLimitMaxDelay_pos : 0 < rateLimitMaxDelay

namespace RetryPolicy

/-- `RetryPolicy.__init__`: defaults filled in, then the checks in source order. -/
def init (defaults : RetryDefaults) (o : RetryOptions) : Except QraftError RetryPolicy :=
  let maxAttempts := o.maxAttempts.getD defaults.maxAttempts
  let baseDelay := o.baseDelay.getD defaults.delay
  let strategy := o.backoffStrategy.getD defaults.backoff.value
  let jitterMax := o.jitterMax.getD defaults.jitterMax
  if h₁ : 1 ≤ maxAttempts ∧ maxAttempts ≤ 10 then
    if h₂ : 0 ≤ jitterMax ∧ jitterMax ≤ 1 then
      match RetryBackoff.ofValue strategy with
      | none => .error (.valueError s!"Invalid backoff strategy: {strategy}")
      | some backoff =>
        if h₃ : 0 ≤ baseDelay then
          if h₄ : 0 < o.rateLimitMaxDelay then
            .ok {
              maxAttempts, baseDelay, jitterMax
              backoffStrategy := backoff
              jitter := o.jitter.getD defaults.jitter
              retryExceptions := o.retryExceptions.getD []
              skipExceptions := o.skipExceptions.getD []
              rateLimitExceptions := o.rateLimitExceptions.getD Qraft.rateLimitExceptions
              rateLimitMaxDelay := o.rateLimitMaxDelay
              maxAttempts_range := h₁
              jitterMax_range := h₂
              baseDelay_nonneg := h₃
              rateLimitMaxDelay_pos := h₄ }
          else .error (.valueError "rate_limit_max_delay must be > 0")
        else .error (.valueError "base_delay must be >= 0")
    else .error (.valueError "jitter_max must be between 0.0 and 1.0")
  else .error (.valueError "max_attempts must be between 1 and 10")

/-- `RetryPolicy.from_options`: no policy when no retry key is named. -/
def fromOptions (defaults : RetryDefaults) :
    Option RetryOptions → Except QraftError (Option RetryPolicy)
  | none => .ok none
  | some o => (init defaults o).map some

/-- Whether a task may run again after attempt `currentAttempt` raised `exception`. -/
def shouldRetry (p : RetryPolicy) (currentAttempt : Nat) (exception : Option String) : Bool :=
  if p.maxAttempts ≤ currentAttempt then false
  else
    match exception with
    | none => true
    | some name =>
      if name ∈ p.skipExceptions then false
      -- A rate limit is retryable even under a restrictive allowlist.
      else if name ∈ p.rateLimitExceptions then true
      else if p.retryExceptions ≠ [] then name ∈ p.retryExceptions
      else true

def isRateLimit (p : RetryPolicy) : Option String → Bool
  | none => false
  | some name => name ∈ p.rateLimitExceptions

/-- `random.uniform(a, b)` for a draw of `random.random()`. -/
def uniform (draw a b : ℚ) : ℚ := a + (b - a) * draw

/-- Python's `int()` of a number: truncation toward zero. -/
def truncate (q : ℚ) : Int := if 0 ≤ q then ⌊q⌋ else -⌊-q⌋

/-- Seconds until the next attempt; `attemptNumber` is the one that just failed. -/
def calculateDelay (p : RetryPolicy) (draw : ℚ) (attemptNumber : Nat) (retryAfter : Option ℚ)
    (isRateLimit : Bool) : Int :=
  match retryAfter with
  | some hint =>
    -- The hint is a floor; the cap is applied after the jitter.
    truncate (min (hint + uniform draw 0 (hint / 10)) p.rateLimitMaxDelay)
  | none =>
    let delay :=
      if isRateLimit then min (p.baseDelay * 2 ^ (attemptNumber - 1)) p.rateLimitMaxDelay
      else
        match p.backoffStrategy with
        | .linear => p.baseDelay * attemptNumber
        | .exponential => p.baseDelay * 2 ^ (attemptNumber - 1)
        | .fixed => p.baseDelay
    let delay :=
      if p.jitter && decide (0 < delay) then
        max 1 (delay + uniform draw (-(delay * p.jitterMax)) (delay * p.jitterMax))
      else delay
    truncate (if isRateLimit then min delay p.rateLimitMaxDelay else delay)

theorem shouldRetry_lt {p : RetryPolicy} {n : Nat} {e : Option String}
    (h : p.shouldRetry n e = true) : (n : Int) < p.maxAttempts := by
  unfold shouldRetry at h
  split at h
  · cases h
  · omega

end RetryPolicy
end Qraft
