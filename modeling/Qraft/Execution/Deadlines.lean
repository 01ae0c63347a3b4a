import Mathlib.Algebra.Order.Floor.Ring
import Mathlib.Data.NNRat.Defs
import Mathlib.Data.Rat.Floor
import Qraft.Foundations.Binary64Order
import Qraft.Foundations.Dict

/-! `_DeadlineRegistry`: the deadlines of a threaded worker's tasks behind the one timer the guard
reads. A call holds the timer's lock when it publishes, so calls take effect one after another. Clock
readings and deadlines are doubles, and sums and differences of them are rounded. -/
namespace Qraft

def timerIdle : ℤ := -1

def timerRecycle : ℤ := -2

def timerBuffer : ℚ := 3

/-- What a C `float` keeps of a whole number: 24 bits, ties to even. -/
def single (n : ℤ) : ℤ :=
  let unit := 2 ^ (Nat.log2 n.natAbs - 23)
  n.sign * (Decimal.roundHalfEven n.natAbs unit * unit : Nat)

/-- `time.monotonic() + timeout_seconds + TIMER_BUFFER`. -/
def deadlineAt (called timeout : ℚ) : ℚ := Binary64.plus (Binary64.plus called timeout) timerBuffer

structure DeadlineRegistry (κ : Type*) where
  deadlines : List (κ × ℚ) := []
  /-- `timer.value`, a C `float` that the guard counts down. -/
  timer : ℚ := timerIdle
  /-- What the worker last assigned to it; read by no function. -/
  published : ℤ := timerIdle

/-- What happens to a worker's timer. The clock's readings come with the calls. -/
inductive DeadlineEvent (κ : Type*) where
  /-- `add`: the clock is read for the deadline and, later, by `_publish`. -/
  | add (key : κ) (timeout called now : ℚ)
  | remove (key : κ) (now : ℚ)
  /-- The recycle limit is reached. -/
  | recycle
  /-- The guard counted a positive value down. -/
  | countdown (left : ℚ≥0)

namespace DeadlineRegistry
variable {κ : Type*}

/-- `self._timer.value = value`. -/
def put (r : DeadlineRegistry κ) (value : ℤ) : DeadlineRegistry κ :=
  { r with timer := single value, published := value }

def publish (r : DeadlineRegistry κ) (now : ℚ) : DeadlineRegistry κ :=
  if r.timer = timerRecycle then r
  else
    match (r.deadlines.map Prod.snd).min? with
    | none => r.put timerIdle
    | some first => r.put (max ⌈Binary64.minus first now⌉ 0)

variable [DecidableEq κ]

def add (r : DeadlineRegistry κ) (key : κ) (timeout called now : ℚ) : DeadlineRegistry κ :=
  publish { r with deadlines := Dict.set r.deadlines key (deadlineAt called timeout) } now

def remove (r : DeadlineRegistry κ) (key : κ) (now : ℚ) : DeadlineRegistry κ :=
  publish { r with deadlines := r.deadlines.filter fun entry => entry.1 ≠ key } now

def step (r : DeadlineRegistry κ) : DeadlineEvent κ → DeadlineRegistry κ
  | .add key timeout called now => r.add key timeout called now
  | .remove key now => r.remove key now
  | .recycle => r.put timerRecycle
  | .countdown left => if 0 < r.timer then { r with timer := (left : ℚ) } else r

def run (events : List (DeadlineEvent κ)) : DeadlineRegistry κ := events.foldl step {}

end DeadlineRegistry

namespace DeadlineEvent
variable {κ : Type*}

def Concerns (key : κ) : DeadlineEvent κ → Prop
  | .add k .. => k = key
  | .remove k _ => k = key
  | .recycle => False
  | .countdown _ => False

def reading : DeadlineEvent κ → Option ℚ
  | .add _ _ _ now => some now
  | .remove _ now => some now
  | .recycle => none
  | .countdown _ => none

/-- The task was added, with this deadline, and has not been removed since. -/
def InFlight (events : List (DeadlineEvent κ)) (key : κ) (deadline : ℚ) : Prop :=
  ∃ before timeout called now after, events = before ++ .add key timeout called now :: after ∧
    deadline = deadlineAt called timeout ∧ ∀ e ∈ after, ¬ e.Concerns key

def lastReading (events : List (DeadlineEvent κ)) : Option ℚ := events.reverse.findSome? reading

section
variable {events : List (DeadlineEvent κ)} {e : DeadlineEvent κ} {key : κ} {deadline : ℚ}

/-- An earlier event of a list with one more at its end is the last one or comes before it. -/
private theorem last_or_before {α : Type*} {l before after : List α} {a e : α}
    (h : l ++ [e] = before ++ a :: after) :
    (after = [] ∧ e = a) ∨ ∃ rest, after = rest ++ [e] ∧ l = before ++ a :: rest := by
  rcases List.eq_nil_or_concat after with hnil | ⟨rest, last, hconcat⟩
  · rw [hnil] at h
    obtain ⟨-, he⟩ := List.append_inj' h rfl
    exact .inl ⟨hnil, (List.cons.inj he).1⟩
  · rw [List.concat_eq_append] at hconcat
    rw [hconcat, ← List.cons_append, ← List.append_assoc] at h
    obtain ⟨hl, he⟩ := List.append_inj' h rfl
    exact .inr ⟨rest, by rw [hconcat, (List.cons.inj he).1], hl⟩

theorem not_concerns_add {other : κ} {timeout called now : ℚ} (h : key ≠ other) :
    ¬ Concerns key (.add other timeout called now) := fun he => h (Eq.symm he)

theorem not_concerns_remove {other : κ} {now : ℚ} (h : key ≠ other) :
    ¬ Concerns key (.remove other now) := fun he => h (Eq.symm he)

/-- Events about other keys, or about none, leave a task as it was. -/
theorem inFlight_append (h : ¬ e.Concerns key) :
    InFlight (events ++ [e]) key deadline ↔ InFlight events key deadline := by
  constructor
  · rintro ⟨before, timeout, called, now, after, heq, hd, hafter⟩
    rcases last_or_before heq with ⟨-, he⟩ | ⟨rest, hrest, hevents⟩
    · rw [he] at h
      exact absurd rfl h
    · refine ⟨before, timeout, called, now, rest, hevents, hd, ?_⟩
      intro x hx
      apply hafter
      rw [hrest]
      exact List.mem_append_left _ hx
  · rintro ⟨before, timeout, called, now, after, rfl, hd, hafter⟩
    refine ⟨before, timeout, called, now, after ++ [e], by simp, hd, ?_⟩
    intro x hx
    rcases List.mem_append.mp hx with hx | hx
    · exact hafter x hx
    · rw [List.mem_singleton.mp hx]
      exact h

theorem inFlight_add {timeout called now : ℚ} :
    InFlight (events ++ [.add key timeout called now]) key deadline ↔
      deadline = deadlineAt called timeout := by
  constructor
  · rintro ⟨before, t, c, n, after, heq, hd, hafter⟩
    rcases last_or_before heq with ⟨-, he⟩ | ⟨rest, hrest, -⟩
    · cases he
      exact hd
    · refine absurd rfl (hafter (.add key timeout called now) ?_)
      rw [hrest]
      exact List.mem_append_right _ List.mem_cons_self
  · intro hd
    exact ⟨events, timeout, called, now, [], rfl, hd, by simp⟩

theorem not_inFlight_remove {now : ℚ} : ¬ InFlight (events ++ [.remove key now]) key deadline := by
  rintro ⟨before, t, c, n, after, heq, -, hafter⟩
  rcases last_or_before heq with ⟨-, he⟩ | ⟨rest, hrest, -⟩
  · cases he
  · refine hafter (.remove key now) ?_ rfl
    rw [hrest]
    exact List.mem_append_right _ List.mem_cons_self

theorem recycle_mem_append (he : e ≠ .recycle) :
    .recycle ∈ events ++ [e] ↔ .recycle ∈ events := by
  rw [List.mem_append, List.mem_singleton]
  constructor
  · rintro (h | h)
    · exact h
    · exact absurd h.symm he
  · exact .inl

theorem lastReading_append : lastReading (events ++ [e]) = e.reading.or (lastReading events) := by
  rw [lastReading, List.reverse_append, List.reverse_singleton, List.singleton_append,
    List.findSome?_cons]
  cases e.reading with
  | none => rfl
  | some now => rfl

end
end DeadlineEvent

namespace DeadlineRegistry
open DeadlineEvent

theorem single_idle : single timerIdle = timerIdle := by decide

theorem single_recycle : single timerRecycle = timerRecycle := by decide

theorem single_nonneg {n : ℤ} (h : 0 ≤ n) : 0 ≤ single n := by
  have hsign : 0 ≤ n.sign := Int.sign_nonneg_iff.mpr h
  exact mul_nonneg hsign (Int.natCast_nonneg _)

/-- Countdowns of half a year are kept exactly. -/
theorem single_of_lt {n : ℤ} (h : n.natAbs < 2 ^ 24) : single n = n := by
  have hlog : Nat.log2 n.natAbs - 23 = 0 := by
    rcases Nat.eq_zero_or_pos n.natAbs with hzero | hpos
    · rw [hzero]
      rfl
    · have hlt : Nat.log2 n.natAbs < 24 := (Nat.log2_lt hpos.ne').mpr h
      omega
  have hround : Decimal.roundHalfEven n.natAbs 1 = n.natAbs := by
    have hmul := Decimal.roundHalfEven_mul n.natAbs Nat.one_pos
    rwa [Nat.mul_one] at hmul
  rw [single, hlog, pow_zero, hround, Nat.mul_one]
  exact Int.sign_mul_natAbs n

section
variable {κ : Type*} [DecidableEq κ] {events : List (DeadlineEvent κ)}

structure Law (events : List (DeadlineEvent κ)) (r : DeadlineRegistry κ) : Prop where
  /-- Once recycling was set, nothing else is published. -/
  recycling : .recycle ∈ events → r.published = timerRecycle
  idle : .recycle ∉ events → (r.published = timerIdle ↔ ∀ key deadline, ¬ InFlight events key deadline)
  earliest : .recycle ∉ events → ∀ key deadline, InFlight events key deadline →
    ∃ now first, lastReading events = some now ∧
      IsLeast {d | ∃ k, InFlight events k d} first ∧ r.published = max ⌈Binary64.minus first now⌉ 0

/-- The dictionary holds the tasks in flight and the timer remembers a recycle. -/
private structure Tracks (events : List (DeadlineEvent κ)) (r : DeadlineRegistry κ) : Prop where
  nodup : (r.deadlines.map Prod.fst).Nodup
  deadlines : ∀ key deadline, Dict.get? r.deadlines key = some deadline ↔ InFlight events key deadline
  timer : r.timer = timerRecycle ↔ .recycle ∈ events
  recycling : .recycle ∈ events → r.published = timerRecycle

private theorem mem_deadlines {r : DeadlineRegistry κ} (h : Tracks events r) {d : ℚ} :
    d ∈ r.deadlines.map Prod.snd ↔ ∃ key, InFlight events key d := by
  constructor
  · intro hd
    obtain ⟨entry, hmem, rfl⟩ := List.mem_map.mp hd
    exact ⟨entry.1, (h.deadlines _ _).mp (Dict.get?_of_mem h.nodup hmem)⟩
  · rintro ⟨key, hflight⟩
    exact List.mem_map_of_mem (Dict.mem_of_get? ((h.deadlines key d).mpr hflight))

private theorem not_recycle_of_nonneg {q : ℚ} (h : 0 ≤ q) : q ≠ timerRecycle := by
  intro he
  rw [he, timerRecycle] at h
  norm_num at h

/-- What a call publishes fits the tasks in flight, and keeps what the registry tracks. -/
private theorem publish_law {r : DeadlineRegistry κ} {now : ℚ} (h : Tracks events r)
    (hnow : lastReading events = some now) :
    Tracks events (r.publish now) ∧ Law events (r.publish now) := by
  rw [publish]
  split
  · rename_i htimer
    have hset := h.timer.mp htimer
    exact ⟨h, h.recycling, fun hno => absurd hset hno, fun hno => absurd hset hno⟩
  · rename_i htimer
    have hno : .recycle ∉ events := fun hset => htimer (h.timer.mpr hset)
    split
    · rename_i hmin
      have hnone : ∀ key d, ¬ InFlight events key d := by
        intro key d hflight
        have hmem := (mem_deadlines h).mpr ⟨key, hflight⟩
        rw [List.min?_eq_none_iff.mp hmin] at hmem
        cases hmem
      refine ⟨⟨h.nodup, h.deadlines, ?_, fun hset => absurd hset hno⟩, fun hset => absurd hset hno, ?_, ?_⟩
      · refine iff_of_false ?_ hno
        change ((single timerIdle : ℤ) : ℚ) ≠ timerRecycle
        rw [single_idle]
        decide +kernel
      · exact fun _ => iff_of_true rfl hnone
      · exact fun _ key d hflight => absurd hflight (hnone key d)
    · rename_i first hmin
      obtain ⟨hmem, hleast⟩ := List.min?_eq_some_iff.mp hmin
      have hfirst : IsLeast {d | ∃ k, InFlight events k d} first :=
        ⟨(mem_deadlines h).mp hmem, fun d hd => hleast d ((mem_deadlines h).mpr hd)⟩
      have hcount : 0 ≤ max ⌈Binary64.minus first now⌉ 0 := le_max_right _ _
      refine ⟨⟨h.nodup, h.deadlines, ?_, fun hset => absurd hset hno⟩, fun hset => absurd hset hno, ?_, ?_⟩
      · refine iff_of_false (not_recycle_of_nonneg ?_) hno
        change (0 : ℚ) ≤ ((single (max ⌈Binary64.minus first now⌉ 0) : ℤ) : ℚ)
        exact_mod_cast single_nonneg hcount
      · intro _
        refine iff_of_false ?_ ?_
        · intro hidle
          have hidle : max ⌈Binary64.minus first now⌉ 0 = timerIdle := hidle
          rw [hidle] at hcount
          exact absurd hcount (by decide)
        · obtain ⟨key, hflight⟩ := hfirst.1
          exact fun hnone => hnone key first hflight
      · exact fun _ _ _ _ => ⟨now, first, hnow, hfirst, rfl⟩

/-- One event, at the end of those before. -/
private theorem step_law {r : DeadlineRegistry κ} (h : Tracks events r) (hlaw : Law events r)
    (e : DeadlineEvent κ) : Tracks (events ++ [e]) (r.step e) ∧ Law (events ++ [e]) (r.step e) := by
  cases e with
  | add key timeout called now =>
    have hmem := @recycle_mem_append _ events (.add key timeout called now) fun h => by cases h
    apply publish_law
    · refine ⟨Dict.nodup_set h.nodup _ _, ?_, h.timer.trans hmem.symm, fun hset => h.recycling (hmem.mp hset)⟩
      intro k d
      rw [Dict.get?_set]
      split
      · rename_i hk
        rw [hk, inFlight_add, Option.some.injEq]
        exact eq_comm
      · rename_i hk
        rw [inFlight_append (not_concerns_add hk)]
        exact h.deadlines k d
    · rw [lastReading_append]
      rfl
  | remove key now =>
    have hmem := @recycle_mem_append _ events (.remove key now) fun h => by cases h
    apply publish_law
    · refine ⟨Dict.nodup_filter h.nodup _, ?_, h.timer.trans hmem.symm, fun hset => h.recycling (hmem.mp hset)⟩
      intro k d
      rw [Dict.get?_filter h.nodup]
      by_cases hk : k = key
      · rw [hk]
        refine iff_of_false ?_ not_inFlight_remove
        simp
      · rw [inFlight_append (not_concerns_remove hk), ← h.deadlines k d]
        simp [hk]
    · rw [lastReading_append]
      rfl
  | recycle =>
    have hset : .recycle ∈ events ++ [.recycle] := List.mem_append_right _ List.mem_cons_self
    refine ⟨⟨h.nodup, ?_, iff_of_true ?_ hset, fun _ => rfl⟩, fun _ => rfl, fun hno => absurd hset hno,
      fun hno => absurd hset hno⟩
    · intro k d
      rw [inFlight_append (by exact fun he => he)]
      exact h.deadlines k d
    · change ((single timerRecycle : ℤ) : ℚ) = timerRecycle
      rw [single_recycle]
  | countdown left =>
    have hmem := @recycle_mem_append _ events (.countdown left) fun h => by cases h
    have hflight (k : κ) (d : ℚ) : InFlight (events ++ [.countdown left]) k d ↔ InFlight events k d :=
      inFlight_append (by exact fun he => he)
    have hlaw' : Law (events ++ [.countdown left]) r := by
      refine ⟨fun hset => hlaw.recycling (hmem.mp hset), ?_, ?_⟩
      · intro hno
        simp only [hflight]
        exact hlaw.idle fun hset => hno (hmem.mpr hset)
      · intro hno
        simp only [hflight, lastReading_append]
        exact hlaw.earliest fun hset => hno (hmem.mpr hset)
    have htracks : Tracks (events ++ [.countdown left]) r :=
      ⟨h.nodup, fun k d => (h.deadlines k d).trans (hflight k d).symm, h.timer.trans hmem.symm,
        fun hset => h.recycling (hmem.mp hset)⟩
    rw [step]
    split
    · rename_i hpos
      refine ⟨⟨htracks.nodup, htracks.deadlines, ?_, htracks.recycling⟩, hlaw'.recycling, hlaw'.idle,
        hlaw'.earliest⟩
      -- A countdown was running and stays one, so no recycle was set.
      have hold : r.timer ≠ timerRecycle := not_recycle_of_nonneg hpos.le
      have hnew : ((left : ℚ≥0) : ℚ) ≠ timerRecycle := not_recycle_of_nonneg left.2
      exact iff_of_false hnew fun hset => hold (htracks.timer.mpr hset)
    · exact ⟨htracks, hlaw'⟩

theorem run_append (events : List (DeadlineEvent κ)) (e : DeadlineEvent κ) :
    run (events ++ [e]) = (run events).step e := by
  rw [run, List.foldl_append, List.foldl_cons, List.foldl_nil, run]

private theorem run_law (events : List (DeadlineEvent κ)) : Tracks events (run events) ∧ Law events (run events) := by
  induction events using List.reverseRecOn with
  | nil =>
    have hnone : ∀ key d, ¬ InFlight ([] : List (DeadlineEvent κ)) key d := by
      rintro key d ⟨before, _, _, _, _, heq, -⟩
      simp at heq
    refine ⟨⟨List.nodup_nil, ?_, ?_, by simp⟩, by simp, ?_, ?_⟩
    · exact fun key d => iff_of_false (by simp [run, Dict.get?]) (hnone key d)
    · exact iff_of_false (show ((timerIdle : ℤ) : ℚ) ≠ timerRecycle by decide +kernel) (by simp)
    · exact fun _ => iff_of_true rfl hnone
    · exact fun _ key d hflight => absurd hflight (hnone key d)
  | append_singleton events e ih =>
    rw [run_append]
    exact step_law ih.1 ih.2 e

omit [DecidableEq κ] in
/-- Right after a call the timer reads what was published last. -/
private theorem publish_timer {r : DeadlineRegistry κ} {now : ℚ}
    (hset : r.timer = timerRecycle → r.published = timerRecycle) (hlt : (r.publish now).published < 2 ^ 24) :
    (r.publish now).timer = (r.publish now).published := by
  rw [publish] at hlt ⊢
  split
  · rename_i htimer
    rw [hset htimer, htimer]
  · rename_i htimer
    rw [if_neg htimer] at hlt
    split
    · change ((single timerIdle : ℤ) : ℚ) = timerIdle
      rw [single_idle]
    · rename_i first hmin
      rw [hmin] at hlt
      have hcount : 0 ≤ max ⌈Binary64.minus first now⌉ 0 := le_max_right _ _
      have hlt : max ⌈Binary64.minus first now⌉ 0 < 2 ^ 24 := hlt
      change ((single (max ⌈Binary64.minus first now⌉ 0) : ℤ) : ℚ) = ((max ⌈Binary64.minus first now⌉ 0 : ℤ) : ℚ)
      rw [single_of_lt (by omega)]

/-- After any calls, any guard passes and a recycle at any point, the value published last is the
countdown to the earliest deadline in flight, as doubles are added and subtracted, unless nothing is in
flight or recycling was set; the timer was left at that value; and a finished task leaves its siblings'
deadlines where they were. -/
theorem published_countdown (events : List (DeadlineEvent κ)) :
    Law events (run events) ∧
    (∀ e : DeadlineEvent κ, (∀ left, e ≠ .countdown left) →
      (run (events ++ [e])).published < 2 ^ 24 →
        (run (events ++ [e])).timer = (run (events ++ [e])).published) ∧
    ∀ key now sibling deadline, sibling ≠ key → InFlight events sibling deadline →
      InFlight (events ++ [.remove key now]) sibling deadline ∧
        (.recycle ∉ events → 0 ≤ (run (events ++ [.remove key now])).published ∧
          (run (events ++ [.remove key now])).published ≤ max ⌈Binary64.minus deadline now⌉ 0) := by
  refine ⟨(run_law events).2, ?_, ?_⟩
  · intro e hcall hlt
    have htracks := (run_law events).1
    have hset : (run events).timer = timerRecycle → (run events).published = timerRecycle :=
      fun htimer => htracks.recycling (htracks.timer.mp htimer)
    rw [run_append] at hlt ⊢
    cases e with
    | add key timeout called now => exact publish_timer hset hlt
    | remove key now => exact publish_timer hset hlt
    | recycle =>
      change ((single timerRecycle : ℤ) : ℚ) = timerRecycle
      rw [single_recycle]
    | countdown left => exact absurd rfl (hcall left)
  · intro key now sibling deadline hne hflight
    have hstays : InFlight (events ++ [.remove key now]) sibling deadline :=
      (inFlight_append (not_concerns_remove hne)).mpr hflight
    refine ⟨hstays, ?_⟩
    intro hno
    have hno' : .recycle ∉ events ++ [.remove key now] := fun hset => hno ((recycle_mem_append (by simp)).mp hset)
    obtain ⟨now', first, hnow, hfirst, heq⟩ :=
      (run_law (events ++ [.remove key now])).2.earliest hno' sibling deadline hstays
    rw [lastReading_append] at hnow
    cases hnow
    have hle : first ≤ deadline := hfirst.2 ⟨sibling, hstays⟩
    rw [heq]
    exact ⟨le_max_right _ _, max_le_max_right 0 (Int.ceil_mono (Binary64.minus_mono hle now))⟩

end

/-- Exactly added, the deadline of this task would be 63 seconds away. -/
example : ((run [.add 1 60 (7 / 5) (7 / 5)] : DeadlineRegistry ℕ)).published = 64 := by decide +kernel

/-- The earlier of two deadlines is finished, and the timer goes to the other. -/
example : ((run [.add 1 10 0 0, .add 2 60 1 1, .countdown 12, .remove 1 5] : DeadlineRegistry ℕ)).published = 59 := by
  decide +kernel

end DeadlineRegistry
end Qraft
