import Qraft.Foundations.Dict
import Qraft.Retry

/-! `RetryPolicy.to_dict` and `from_dict`: a policy in the column of its task, and what a process makes of
it that may run under other defaults. -/
namespace Qraft
namespace RetryPolicy

def retryKeys : List String :=
  ["max_attempts", "base_delay", "backoff_strategy", "jitter", "jitter_max", "retry_exceptions",
    "skip_exceptions", "rate_limit_exceptions", "rate_limit_max_delay"]

def readInt : Json → Option Int
  | .num q => if q.den = 1 then some q.num else none
  | _ => none

def readNum : Json → Option ℚ
  | .num q => some q
  | _ => none

def readBool : Json → Option Bool
  | .bool b => some b
  | _ => none

def readStr : Json → Option String
  | .str s => some s
  | _ => none

def readStrings : Json → Option (List String)
  | .arr xs => xs.mapM readStr
  | _ => none

/-- An argument that may be `None`; `none` when its value is of another type. -/
def readArg {α : Type} (data : JsonDict) (key : String) (read : Json → Option α) : Option (Option α) :=
  match Dict.get? data key with
  | none | some .null => some none
  | some value => (read value).map some

/-- `cls(**data)`, up to the arguments: an argument that the constructor does not have is refused. -/
def readOptions (data : JsonDict) : Option RetryOptions :=
  if data.all fun item => item.1 ∈ retryKeys then do
    let maxAttempts ← readArg data "max_attempts" readInt
    let baseDelay ← readArg data "base_delay" readNum
    let backoffStrategy ← readArg data "backoff_strategy" readStr
    let jitter ← readArg data "jitter" readBool
    let jitterMax ← readArg data "jitter_max" readNum
    let retryExceptions ← readArg data "retry_exceptions" readStrings
    let skipExceptions ← readArg data "skip_exceptions" readStrings
    let rateLimitExceptions ← readArg data "rate_limit_exceptions" readStrings
    let rateLimitMaxDelay ← ((Dict.get? data "rate_limit_max_delay").map readNum).getD (some 300)
    return { maxAttempts, baseDelay, backoffStrategy, jitter, jitterMax, retryExceptions, skipExceptions
             rateLimitExceptions, rateLimitMaxDelay }
  else none

/-- `from_dict`; `none` when the constructor raises. -/
def fromDict (defaults : RetryDefaults) (data : JsonDict) : Option RetryPolicy :=
  (readOptions data).bind fun o => (init defaults o).toOption

/-- `to_dict`. `order` is the order in which a set of names is listed. -/
def toDict (order : List String → List String) (p : RetryPolicy) : JsonDict :=
  [("max_attempts", .num p.maxAttempts), ("base_delay", .num p.baseDelay),
    ("backoff_strategy", .str p.backoffStrategy.value), ("jitter", .bool p.jitter),
    ("jitter_max", .num p.jitterMax), ("retry_exceptions", .arr ((order p.retryExceptions).map .str)),
    ("skip_exceptions", .arr ((order p.skipExceptions).map .str)),
    ("rate_limit_exceptions", .arr ((order p.rateLimitExceptions).map .str)),
    ("rate_limit_max_delay", .num p.rateLimitMaxDelay)]

section
variable {order : List String → List String} {p q : RetryPolicy} {data : JsonDict}

theorem keys_toDict (order : List String → List String) (p : RetryPolicy) :
    (p.toDict order).map Prod.fst = retryKeys := rfl

/-- Whatever order the column gives the entries in, each is read under its key. -/
theorem get?_stored (h : data.Perm (p.toDict order)) {key : String} {value : Json}
    (hv : (key, value) ∈ p.toDict order) : Dict.get? data key = some value := by
  have hkeys : (data.map Prod.fst).Nodup := by
    rw [(h.map Prod.fst).nodup_iff, keys_toDict]
    decide
  exact Dict.get?_of_mem hkeys (h.mem_iff.mpr hv)

theorem readArg_stored {α : Type} {read : Json → Option α} {key : String} {value : Json} {a : α}
    (hget : Dict.get? data key = some value) (hnull : value ≠ .null) (hread : read value = some a) :
    readArg data key read = some (some a) := by
  unfold readArg
  rw [hget]
  cases value with
  | null => exact absurd rfl hnull
  | bool | num | str | arr | obj =>
    dsimp only
    rw [hread]
    rfl

theorem readStrings_names (names : List String) : readStrings (.arr (names.map .str)) = some names := by
  change (names.map Json.str).mapM readStr = some names
  induction names with
  | nil => rfl
  | cons name names ih =>
    rw [List.map_cons, List.mapM_cons, ih]
    rfl

theorem readInt_stored (n : Int) : readInt (.num n) = some n := by
  rw [readInt, if_pos (Rat.den_intCast n), Rat.num_intCast]

/-- Every argument is stored, so that no default is asked for. -/
theorem readOptions_stored (h : data.Perm (p.toDict order)) : readOptions data = some
    { maxAttempts := some p.maxAttempts, baseDelay := some p.baseDelay
      backoffStrategy := some p.backoffStrategy.value, jitter := some p.jitter, jitterMax := some p.jitterMax
      retryExceptions := some (order p.retryExceptions), skipExceptions := some (order p.skipExceptions)
      rateLimitExceptions := some (order p.rateLimitExceptions), rateLimitMaxDelay := p.rateLimitMaxDelay } := by
  have hall : (data.all fun item => item.1 ∈ retryKeys) = true := by
    apply List.all_eq_true.mpr
    intro item hitem
    rw [← keys_toDict order p]
    exact decide_eq_true (List.mem_map_of_mem (h.mem_iff.mp hitem))
  have stored {α : Type} {key : String} {read : Json → Option α} {a : α} (value : Json)
      (hv : (key, value) ∈ p.toDict order) (hnull : value ≠ .null) (hread : read value = some a) :
      readArg data key read = some (some a) := readArg_stored (get?_stored h hv) hnull hread
  have hattempts : readArg data "max_attempts" readInt = some (some p.maxAttempts) :=
    stored (.num p.maxAttempts) (by simp [toDict]) (fun h => by cases h) (readInt_stored _)
  have hbase : readArg data "base_delay" readNum = some (some p.baseDelay) :=
    stored (.num p.baseDelay) (by simp [toDict]) (fun h => by cases h) rfl
  have hstrategy : readArg data "backoff_strategy" readStr = some (some p.backoffStrategy.value) :=
    stored (.str p.backoffStrategy.value) (by simp [toDict]) (fun h => by cases h) rfl
  have hjitter : readArg data "jitter" readBool = some (some p.jitter) :=
    stored (.bool p.jitter) (by simp [toDict]) (fun h => by cases h) rfl
  have hjitterMax : readArg data "jitter_max" readNum = some (some p.jitterMax) :=
    stored (.num p.jitterMax) (by simp [toDict]) (fun h => by cases h) rfl
  have hretry : readArg data "retry_exceptions" readStrings = some (some (order p.retryExceptions)) :=
    stored (.arr ((order p.retryExceptions).map .str)) (by simp [toDict]) (fun h => by cases h) (readStrings_names _)
  have hskip : readArg data "skip_exceptions" readStrings = some (some (order p.skipExceptions)) :=
    stored (.arr ((order p.skipExceptions).map .str)) (by simp [toDict]) (fun h => by cases h) (readStrings_names _)
  have hlimit : readArg data "rate_limit_exceptions" readStrings = some (some (order p.rateLimitExceptions)) :=
    stored (.arr ((order p.rateLimitExceptions).map .str)) (by simp [toDict]) (fun h => by cases h) (readStrings_names _)
  have hmax : Dict.get? data "rate_limit_max_delay" = some (.num p.rateLimitMaxDelay) :=
    get?_stored h (by simp [toDict])
  rw [readOptions, if_pos hall, hattempts, hbase, hstrategy, hjitter, hjitterMax, hretry, hskip, hlimit, hmax]
  rfl

theorem ofValue_value (backoff : RetryBackoff) : RetryBackoff.ofValue backoff.value = some backoff := by
  cases backoff <;> decide

/-- A policy that was stored on its task is read back as one that decides the same: every attempt is
retried, or not, and delayed as the policy says that the call was made with, whatever the defaults of
the process that decides, and however the column orders the entries and the names. -/
theorem policy_stored (defaults : RetryDefaults) (p : RetryPolicy)
    (horder : ∀ names name, name ∈ order names ↔ name ∈ names) (h : data.Perm (p.toDict order)) :
    ∃ q, fromDict defaults data = some q ∧ (∀ n exception, q.shouldRetry n exception = p.shouldRetry n exception) ∧
    (∀ exception, q.isRateLimit exception = p.isRateLimit exception) ∧
    ∀ draw n hint isRateLimit, q.calculateDelay draw n hint isRateLimit = p.calculateDelay draw n hint isRateLimit := by
  have hempty (names : List String) : order names = [] ↔ names = [] := by
    simp only [List.eq_nil_iff_forall_not_mem, horder]
  refine ⟨{ p with
    retryExceptions := order p.retryExceptions
    skipExceptions := order p.skipExceptions
    rateLimitExceptions := order p.rateLimitExceptions }, ?_, ?_, ?_, fun draw n hint isRateLimit => rfl⟩
  · rw [fromDict, readOptions_stored h]
    dsimp only [Option.bind_some, init, Option.getD_some]
    rw [dif_pos p.maxAttempts_range, dif_pos p.jitterMax_range, ofValue_value]
    dsimp only
    rw [dif_pos p.baseDelay_nonneg, dif_pos p.rateLimitMaxDelay_pos]
    rfl
  · intro n exception
    cases exception with
    | none => rfl
    | some name =>
      have hretry : (order p.retryExceptions ≠ []) ↔ p.retryExceptions ≠ [] := not_congr (hempty _)
      simp only [shouldRetry, horder, hretry]
  · intro exception
    cases exception with
    | none => rfl
    | some name => simp only [isRateLimit, horder]

end

/-- A call under the defaults, read by a process that has others and that lists the names of a set in
reverse. -/
theorem policy_stored_reversed : ∃ p q, (init {} {}).toOption = some p ∧
    fromDict { maxAttempts := 9, backoff := .fixed } (p.toDict List.reverse).reverse = some q ∧
    q.shouldRetry 2 (some "RateLimited") = p.shouldRetry 2 (some "RateLimited") := by
  have hinit : ((init {} {}).toOption).isSome = true := by decide +kernel
  obtain ⟨p, hp⟩ := Option.isSome_iff_exists.mp hinit
  obtain ⟨q, hq, hretry, -⟩ := policy_stored { maxAttempts := 9, backoff := .fixed } p
    (fun names name => List.mem_reverse) (List.reverse_perm _)
  exact ⟨p, q, hp, hq, hretry 2 (some "RateLimited")⟩

end RetryPolicy
end Qraft
