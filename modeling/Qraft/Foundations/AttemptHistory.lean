import Mathlib.Data.List.Infix

/-! A job run as a series of attempts: the outcomes decided so far, in order, and
whether one more attempt waits or runs. Outcomes are only ever added at the end. -/
namespace AttemptHistory
variable {ω : Type*}

inductive Stage where
  | waiting
  | running
  | settled
  deriving DecidableEq

structure History (ω : Type*) where
  past : List ω
  stage : Stage

/-- Attempts made or under way. -/
def History.count (h : History ω) : Nat :=
  h.past.length + if h.stage = .settled then 0 else 1

/-- What an attempt can do: start, end the job, or end with another attempt to follow,
which only a failure below the limit has. -/
inductive Step (failed : ω → Prop) (limit : Nat) : History ω → History ω → Prop where
  | stay (h : History ω) : Step failed limit h h
  | start (past : List ω) : Step failed limit ⟨past, .waiting⟩ ⟨past, .running⟩
  | settle (past : List ω) (o : ω) : Step failed limit ⟨past, .running⟩ ⟨past ++ [o], .settled⟩
  | retry (past : List ω) (o : ω) (hf : failed o) (hl : past.length + 1 < limit) :
      Step failed limit ⟨past, .running⟩ ⟨past ++ [o], .waiting⟩

variable {failed : ω → Prop} {limit : Nat} {h h' : History ω}

/-- Decided outcomes stay as they are, in place. -/
theorem Step.past_prefix (hs : Step failed limit h h') : h.past <+: h'.past := by
  cases hs with
  | stay h => exact List.prefix_rfl
  | start past => exact List.prefix_rfl
  | settle past o => exact List.prefix_append past [o]
  | retry past o hf hl => exact List.prefix_append past [o]

theorem Step.past_getElem? (hs : Step failed limit h h') {i : Nat} {o : ω}
    (ho : h.past[i]? = some o) : h'.past[i]? = some o := by
  obtain ⟨hi, rfl⟩ := List.getElem?_eq_some_iff.mp ho
  exact List.prefix_iff_getElem?.mp hs.past_prefix i hi

theorem Step.count_le (hs : Step failed limit h h') (hc : h.count ≤ limit) : h'.count ≤ limit := by
  cases hs with
  | stay h => exact hc
  | start past => simpa [History.count] using hc
  | settle past o => simpa [History.count] using hc
  | retry past o hf hl =>
    simp only [History.count, List.length_append, List.length_singleton, reduceCtorEq, if_false]
    omega

/-- A further attempt appears only as the running one is decided a failure. -/
theorem Step.grows (hs : Step failed limit h h') (hc : h.count < h'.count) :
    ∃ o, failed o ∧ h.stage = .running ∧ h'.stage = .waiting ∧ h'.past = h.past ++ [o] := by
  cases hs with
  | stay h => exact absurd hc (Nat.lt_irrefl _)
  | start past => simp [History.count] at hc
  | settle past o => simp [History.count] at hc
  | retry past o hf hl => exact ⟨o, hf, rfl, rfl, rfl⟩

end AttemptHistory
