import Mathlib.Algebra.Order.Ring.Rat
import Mathlib.Tactic.Linarith
import Mathlib.Tactic.NormNum
import Mathlib.Tactic.Ring

/-! The token bucket of `qraft.throttle`. The calls of a run stand in the order in which they take
the row lock; their clock readings may stand in any order. -/
namespace Qraft

/-- `RateBucket`, over exact numbers. -/
structure RateBucket where
  tokens : ℚ
  updatedAt : ℚ

/-- The two clock readings of a call: `timezone.now()`, and the one `auto_now` makes on `save`. -/
structure ClockReadings where
  now : ℚ
  saved : ℚ

structure Acquisition where
  clock : ClockReadings
  cost : ℚ

namespace RateBucket

/-- The row `get_or_create` inserts. -/
def created (capacity now : ℚ) : RateBucket := ⟨capacity, now⟩

def refill (rate capacity : ℚ) (b : RateBucket) (now : ℚ) : ℚ :=
  min capacity (b.tokens + max 0 (now - b.updatedAt) * rate)

/-- `acquire`, under the row lock. -/
def acquire (rate capacity : ℚ) (b : RateBucket) (call : Acquisition) : RateBucket × Bool :=
  let tokens := b.refill rate capacity call.clock.now
  if call.cost ≤ tokens then (⟨tokens - call.cost, call.clock.saved⟩, true)
  else (⟨tokens, call.clock.saved⟩, false)

/-- The row after a run, and the cost granted in it. -/
def run (rate capacity : ℚ) (b : RateBucket) : List Acquisition → RateBucket × ℚ
  | [] => (b, 0)
  | call :: calls =>
    let (next, granted) := b.acquire rate capacity call
    let (last, total) := next.run rate capacity calls
    (last, (if granted then call.cost else 0) + total)

/-- The refills of a run, each as far as it goes from an empty bucket. -/
def refills (rate capacity : ℚ) (updatedAt : ℚ) : List ClockReadings → ℚ
  | [] => 0
  | clock :: rest =>
    min capacity (max 0 (clock.now - updatedAt) * rate) + refills rate capacity clock.saved rest

/-- What a full bucket can be refilled with: the first call finds nothing to fill. -/
def earned (rate capacity : ℚ) : List ClockReadings → ℚ
  | [] => 0
  | clock :: rest => refills rate capacity clock.saved rest

section
variable {rate capacity : ℚ} {b : RateBucket}

/-- Tokens stay between nothing and the capacity. -/
def Within (capacity : ℚ) (b : RateBucket) : Prop := 0 ≤ b.tokens ∧ b.tokens ≤ capacity

private theorem refill_within (hr : 0 < rate) (hb : b.Within capacity) (now : ℚ) :
    0 ≤ b.refill rate capacity now ∧ b.refill rate capacity now ≤ capacity := by
  have hcapacity : 0 ≤ capacity := hb.1.trans hb.2
  have hgain : 0 ≤ max 0 (now - b.updatedAt) * rate := mul_nonneg (le_max_left _ _) hr.le
  refine ⟨le_min hcapacity ?_, min_le_left _ _⟩
  linarith [hb.1]

private theorem refill_le (rate : ℚ) (hb : b.Within capacity) (now : ℚ) :
    b.refill rate capacity now ≤ b.tokens + min capacity (max 0 (now - b.updatedAt) * rate) := by
  rcases le_total capacity (max 0 (now - b.updatedAt) * rate) with h | h
  · rw [min_eq_left h]
    exact (min_le_left _ _).trans (by linarith [hb.1])
  · rw [min_eq_right h]
    exact min_le_right _ _

/-- A call takes what it is granted from the refilled bucket. -/
private theorem acquire_tokens (rate capacity : ℚ) (b : RateBucket) (call : Acquisition) :
    (b.acquire rate capacity call).1.tokens +
        (if (b.acquire rate capacity call).2 then call.cost else 0) =
      b.refill rate capacity call.clock.now := by
  unfold acquire
  dsimp only
  split
  · simp
  · simp

private theorem acquire_updatedAt (call : Acquisition) :
    (b.acquire rate capacity call).1.updatedAt = call.clock.saved := by
  unfold acquire
  dsimp only
  split
  · rfl
  · rfl

theorem acquire_within (hr : 0 < rate) (hb : b.Within capacity) {call : Acquisition}
    (hc : 0 < call.cost) : (b.acquire rate capacity call).1.Within capacity := by
  obtain ⟨hlow, hhigh⟩ := refill_within hr hb call.clock.now
  unfold acquire
  dsimp only
  split
  · rename_i hle
    exact ⟨sub_nonneg.mpr hle, by dsimp only; linarith⟩
  · exact ⟨hlow, hhigh⟩

theorem run_within (hr : 0 < rate) (hb : b.Within capacity) {calls : List Acquisition}
    (hc : ∀ call ∈ calls, 0 < call.cost) : (b.run rate capacity calls).1.Within capacity := by
  induction calls generalizing b with
  | nil => exact hb
  | cons call calls ih =>
    have hnext := acquire_within hr hb (hc call List.mem_cons_self)
    exact ih hnext fun c hcm => hc c (List.mem_cons_of_mem _ hcm)

/-- The amortised bound: what is left and what was granted come from what was there and the refills. -/
theorem run_granted_le (hr : 0 < rate) (hb : b.Within capacity) {calls : List Acquisition}
    (hc : ∀ call ∈ calls, 0 < call.cost) :
    (b.run rate capacity calls).1.tokens + (b.run rate capacity calls).2 ≤
      b.tokens + refills rate capacity b.updatedAt (calls.map fun c => c.clock) := by
  induction calls generalizing b with
  | nil => simp [run, refills]
  | cons call calls ih =>
    have hnext := acquire_within hr hb (hc call List.mem_cons_self)
    have hrest := ih hnext fun c hcm => hc c (List.mem_cons_of_mem _ hcm)
    have htaken := acquire_tokens rate capacity b call
    have hrefill := refill_le rate hb call.clock.now
    rw [acquire_updatedAt] at hrest
    simp only [run, List.map_cons, refills]
    linarith

/-- Every clock reading of a run, that of the row's creation included. -/
def readings (seed : ℚ) (clocks : List ClockReadings) : List ℚ :=
  seed :: clocks.flatMap fun c => [c.now, c.saved]

/-- The largest reading less the smallest. -/
def spread (seed : ℚ) (clocks : List ClockReadings) : ℚ :=
  (readings seed clocks).foldr max seed - (readings seed clocks).foldr min seed

/-- A run within the limit: tokens within the capacity after every call, and no more granted than
a full bucket and the rate over the time the clocks cover. -/
structure Honours (rate capacity seed : ℚ) (calls : List Acquisition) : Prop where
  within : ∀ n, ((created capacity seed).run rate capacity (calls.take n)).1.Within capacity
  granted : ((created capacity seed).run rate capacity calls).2 ≤
    capacity + rate * spread seed (calls.map fun c => c.clock)

theorem created_within (hc : 0 < capacity) (seed : ℚ) : (created capacity seed).Within capacity :=
  ⟨hc.le, le_rfl⟩

private theorem refill_created (hr : 0 < rate) (seed now : ℚ) :
    (created capacity seed).refill rate capacity now = capacity := by
  have hgain : 0 ≤ max 0 (now - seed) * rate := mul_nonneg (le_max_left _ _) hr.le
  apply min_eq_left
  change capacity ≤ capacity + max 0 (now - seed) * rate
  linarith

/-- From a full bucket on, no more is granted than its capacity and what it earns. -/
theorem granted_le_earned (hr : 0 < rate) (hc : 0 < capacity) (seed : ℚ) {calls : List Acquisition}
    (hcost : ∀ call ∈ calls, 0 < call.cost) :
    ((created capacity seed).run rate capacity calls).2 ≤
      capacity + earned rate capacity (calls.map fun c => c.clock) := by
  cases calls with
  | nil =>
    simp only [run, List.map_nil, earned]
    linarith
  | cons call calls =>
    have hnext := acquire_within hr (created_within hc seed) (hcost call List.mem_cons_self)
    have hcalls : ∀ c ∈ calls, 0 < c.cost := fun c hcm => hcost c (List.mem_cons_of_mem _ hcm)
    have hrest := run_granted_le hr hnext hcalls
    have htaken := acquire_tokens rate capacity (created capacity seed) call
    have hlast := (run_within hr hnext hcalls).1
    rw [refill_created hr] at htaken
    rw [acquire_updatedAt] at hrest
    simp only [run, List.map_cons, earned]
    linarith

/-- Calls that each take all there is, or ask in vain. -/
def drain (rate capacity : ℚ) (b : RateBucket) : List ClockReadings → List Acquisition
  | [] => []
  | clock :: rest =>
    let level := b.refill rate capacity clock.now
    let call := ⟨clock, if 0 < level then level else capacity⟩
    call :: drain rate capacity ⟨0, clock.saved⟩ rest

private theorem drain_clocks (b : RateBucket) (clocks : List ClockReadings) :
    (drain rate capacity b clocks).map (fun c => c.clock) = clocks := by
  induction clocks generalizing b with
  | nil => rfl
  | cons clock rest ih => rw [drain, List.map_cons, ih]

private theorem drain_positive (hc : 0 < capacity) (b : RateBucket) (clocks : List ClockReadings) :
    ∀ call ∈ drain rate capacity b clocks, 0 < call.cost := by
  induction clocks generalizing b with
  | nil => exact fun _ h => absurd h List.not_mem_nil
  | cons clock rest ih =>
    intro call hcall
    rcases List.mem_cons.mp hcall with rfl | hcall
    · dsimp only
      split
      · assumption
      · exact hc
    · exact ih _ call hcall

/-- A drained bucket is empty, and has granted what was in it. -/
private theorem acquire_drain (hr : 0 < rate) (hc : 0 < capacity) (hb : b.Within capacity)
    (clock : ClockReadings) :
    let level := b.refill rate capacity clock.now
    let call : Acquisition := ⟨clock, if 0 < level then level else capacity⟩
    (b.acquire rate capacity call).1 = ⟨0, clock.saved⟩ ∧
      (if (b.acquire rate capacity call).2 then call.cost else 0) = level := by
  have hlevel := (refill_within hr hb clock.now).1
  dsimp only
  rcases hlevel.eq_or_lt with h | h
  · have hnot : ¬ capacity ≤ 0 := not_le.mpr hc
    simp [acquire, ← h, hnot]
  · simp [acquire, h]

private theorem run_drain (hr : 0 < rate) (hc : 0 < capacity) (hb : b.Within capacity)
    (clocks : List ClockReadings) (he : b.tokens = 0) :
    (b.run rate capacity (drain rate capacity b clocks)).2 =
      refills rate capacity b.updatedAt clocks := by
  induction clocks generalizing b with
  | nil => rfl
  | cons clock rest ih =>
    obtain ⟨hnext, hgrant⟩ := acquire_drain hr hc hb clock
    have hempty : (RateBucket.mk 0 clock.saved).Within capacity := ⟨le_rfl, hc.le⟩
    have hrest := ih hempty rfl
    have hlevel : b.refill rate capacity clock.now =
        min capacity (max 0 (clock.now - b.updatedAt) * rate) := by
      rw [refill, he, zero_add]
    simp only [drain, run, refills]
    rw [hnext, hgrant, hrest, hlevel]

/-- Draining a full bucket is granted its capacity and all it earns. -/
theorem granted_drain (hr : 0 < rate) (hc : 0 < capacity) (seed : ℚ) {clocks : List ClockReadings}
    (hne : clocks ≠ []) :
    ((created capacity seed).run rate capacity (drain rate capacity (created capacity seed) clocks)).2 =
      capacity + earned rate capacity clocks := by
  cases clocks with
  | nil => exact absurd rfl hne
  | cons clock rest =>
    obtain ⟨hnext, hgrant⟩ := acquire_drain hr hc (created_within hc seed) clock
    have hempty : (RateBucket.mk 0 clock.saved).Within capacity := ⟨le_rfl, hc.le⟩
    have hrest := run_drain hr hc hempty rest rfl
    simp only [drain, run, earned]
    rw [hnext, hgrant, hrest, refill_created hr]

private theorem le_largest {seed : ℚ} {xs : List ℚ} {x : ℚ} (hx : x ∈ xs) : x ≤ xs.foldr max seed := by
  induction xs with
  | nil => exact absurd hx List.not_mem_nil
  | cons y ys ih =>
    rcases List.mem_cons.mp hx with rfl | hx
    · exact le_max_left _ _
    · exact (ih hx).trans (le_max_right _ _)

private theorem smallest_le {seed : ℚ} {xs : List ℚ} {x : ℚ} (hx : x ∈ xs) : xs.foldr min seed ≤ x := by
  induction xs with
  | nil => exact absurd hx List.not_mem_nil
  | cons y ys ih =>
    rcases List.mem_cons.mp hx with rfl | hx
    · exact min_le_left _ _
    · exact (min_le_right _ _).trans (ih hx)

/-- Refills between readings that only go forward add up to the time between the ends. -/
private theorem refills_le_of_forward (hr : 0 < rate) {updatedAt top : ℚ} {clocks : List ClockReadings}
    (hforward : (readings updatedAt clocks).Pairwise (· ≤ ·))
    (htop : ∀ x ∈ readings updatedAt clocks, x ≤ top) :
    refills rate capacity updatedAt clocks ≤ rate * (top - updatedAt) := by
  induction clocks generalizing updatedAt with
  | nil =>
    have h := htop updatedAt List.mem_cons_self
    exact mul_nonneg hr.le (by linarith)
  | cons clock rest ih =>
    have hshape : readings updatedAt (clock :: rest) =
        updatedAt :: clock.now :: readings clock.saved rest := rfl
    rw [hshape, List.pairwise_cons, List.pairwise_cons] at hforward
    rw [hshape] at htop
    obtain ⟨hfirst, hsecond, hrest⟩ := hforward
    have hnow : updatedAt ≤ clock.now := hfirst _ List.mem_cons_self
    have hsaved : clock.now ≤ clock.saved := hsecond _ List.mem_cons_self
    have htail := ih hrest fun x hx => htop x (List.mem_cons_of_mem _ (List.mem_cons_of_mem _ hx))
    have hgain : min capacity (max 0 (clock.now - updatedAt) * rate) ≤ rate * (clock.now - updatedAt) := by
      rw [max_eq_right (by linarith), mul_comm rate]
      exact min_le_right _ _
    have hlate : rate * (top - clock.saved) ≤ rate * (top - clock.now) :=
      mul_le_mul_of_nonneg_left (by linarith) hr.le
    rw [refills]
    calc min capacity (max 0 (clock.now - updatedAt) * rate) + refills rate capacity clock.saved rest
        ≤ rate * (clock.now - updatedAt) + rate * (top - clock.now) := by linarith
      _ = rate * (top - updatedAt) := by ring

/-- Clocks that never go back in lock order are among those. -/
theorem earned_le_of_forward (hr : 0 < rate) {seed : ℚ} {clocks : List ClockReadings}
    (hforward : (readings seed clocks).Pairwise (· ≤ ·)) :
    earned rate capacity clocks ≤ rate * spread seed clocks := by
  have hbounds : ∀ x ∈ readings seed clocks, x ≤ (readings seed clocks).foldr max seed :=
    fun x hx => le_largest hx
  have hlow : (readings seed clocks).foldr min seed ≤ seed := smallest_le List.mem_cons_self
  cases clocks with
  | nil => simp [earned, spread, readings]
  | cons clock rest =>
    have hshape : readings seed (clock :: rest) = seed :: clock.now :: readings clock.saved rest := rfl
    rw [hshape, List.pairwise_cons, List.pairwise_cons] at hforward
    rw [hshape] at hbounds
    obtain ⟨hfirst, -, hrest⟩ := hforward
    have hsaved : seed ≤ clock.saved := hfirst _ (List.mem_cons_of_mem _ List.mem_cons_self)
    have htail : refills rate capacity clock.saved rest ≤ _ := refills_le_of_forward hr hrest
      fun x hx => hbounds x (List.mem_cons_of_mem _ (List.mem_cons_of_mem _ hx))
    apply htail.trans
    apply mul_le_mul_of_nonneg_left _ hr.le
    unfold spread
    rw [hshape] at hlow ⊢
    linarith

private theorem spread_nil (seed : ℚ) : spread seed [] = 0 := by simp [spread, readings]

/-- Exactly for which clock readings the limit holds, whatever the costs. -/
theorem grants_bounded_iff (hr : 0 < rate) (hc : 0 < capacity) (seed : ℚ)
    (clocks : List ClockReadings) :
    (∀ calls : List Acquisition, (calls.map fun c => c.clock) = clocks →
      (∀ call ∈ calls, 0 < call.cost) → Honours rate capacity seed calls) ↔
      earned rate capacity clocks ≤ rate * spread seed clocks := by
  constructor
  · intro h
    by_cases hne : clocks = []
    · rw [hne, spread_nil]
      simp [earned]
    · have hhonours := h (drain rate capacity (created capacity seed) clocks)
        (drain_clocks _ _) (drain_positive hc _ _)
      have hgranted := hhonours.granted
      rw [granted_drain hr hc seed hne, drain_clocks] at hgranted
      linarith
  · rintro h calls rfl hcost
    refine ⟨?_, ?_⟩
    · intro n
      apply run_within hr (created_within hc seed)
      exact fun call hcall => hcost call (List.mem_of_mem_take hcall)
    · have hle := granted_le_earned hr hc seed hcost
      linarith

end

/-- Two workers whose clocks agree: what the bucket holds, and five seconds later what came since. -/
theorem grants_bounded_forward : Honours 1 10 0 [⟨⟨0, 0⟩, 10⟩, ⟨⟨5, 6⟩, 5⟩] := by
  have hbounded := (grants_bounded_iff one_pos (by norm_num : (0 : ℚ) < 10) 0 [⟨0, 0⟩, ⟨5, 6⟩]).mpr
    (earned_le_of_forward one_pos (by norm_num [readings]))
  apply hbounded _ rfl
  norm_num

/-- Two workers in turn, the clock of one ten seconds behind. -/
def skewed : List Acquisition :=
  [⟨⟨10, 10⟩, 10⟩, ⟨⟨0, 0⟩, 10⟩, ⟨⟨10, 10⟩, 10⟩, ⟨⟨0, 0⟩, 10⟩, ⟨⟨10, 10⟩, 10⟩]

/-- Thirty tokens in ten seconds, from a bucket of ten that gets one a second. -/
theorem skewed_clocks_overspend : ¬ Honours 1 10 10 skewed := by
  intro h
  have hgranted := h.granted
  norm_num [skewed, run, acquire, refill, created, spread, readings] at hgranted

end RateBucket
end Qraft
