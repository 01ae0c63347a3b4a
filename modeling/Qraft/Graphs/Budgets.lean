import Mathlib.Algebra.Order.Ring.Rat
import Mathlib.Algebra.BigOperators.Group.List.Basic
import Mathlib.Tactic.Linarith
import Mathlib.Tactic.Ring
import Qraft.Foundations.InFlight
import Qraft.Graphs.System

/-! The budgets of a graph: `consume_budget` by any number of callers, between the other
transactions of the graph. -/
namespace Qraft
open GraphState

/-- `(budgets or {}).get(key)`, when that is a number. -/
def balanceOf (budgets : Option JsonDict) (key : String) : Option ℚ :=
  match Dict.get? (budgets.getD []) key with
  | some (.num q) => some q
  | _ => none

namespace QraftGraph

def balance (g : QraftGraph) (key : String) : Option ℚ := balanceOf g.budgets key

/-- `int(x)`. -/
def toInt (q : ℚ) : ℤ := Int.tdiv q.num q.den

/-- `_locked_consume_budget`, under the row lock. -/
def lockedConsumeBudget (g : QraftGraph) (key : String) (n : ℕ) : QraftGraph × Option ℤ :=
  let budgets := g.budgets.getD []
  match Dict.get? budgets key with
  | some (.num remaining) =>
    if remaining < n then (g, none)
    else ({ g with budgets := some (Dict.set budgets key (.num (remaining - n))) },
      some (toInt (remaining - n)))
  | _ => (g, none)

/-- The `WHERE` clause of `_pg_consume_budget`; a null column meets no comparison. -/
def pgGuard (g : QraftGraph) (key : String) (n : ℕ) : Bool :=
  match g.budgets.bind fun budgets => Dict.get? budgets key with
  | some (.num q) => (n : ℚ) ≤ q
  | _ => false

/-- `(budgets->>key)::numeric`, of a row the clause selects. -/
def pgNumeric (g : QraftGraph) (key : String) : ℚ :=
  match g.budgets.bind fun budgets => Dict.get? budgets key with
  | some (.num q) => q
  | _ => 0

/-- The statement of `_pg_consume_budget`, with what `RETURNING` gives of a row it wrote. -/
def pgConsumeBudget (g : QraftGraph) (key : String) (n : ℕ) : QraftGraph × Option ℤ :=
  if g.pgGuard key n then
    let written := { g with
      budgets := g.budgets.map fun budgets => Dict.set budgets key (.num (g.pgNumeric key - n)) }
    (written, some (toInt (written.pgNumeric key)))
  else (g, none)

def budgetDeclares (g : QraftGraph) (key : String) : Bool :=
  g.budgets.any fun budgets => budgets ≠ [] && (Dict.get? budgets key).isSome

/-- Both paths, in terms of the balance. -/
theorem lockedConsumeBudget_cases (g : QraftGraph) (key : String) (n : ℕ) :
    ((∀ b, g.balance key = some b → b < n) ∧ g.lockedConsumeBudget key n = (g, none)) ∨
    ∃ b budgets, g.balance key = some b ∧ (n : ℚ) ≤ b ∧ g.budgets = some budgets ∧
      g.lockedConsumeBudget key n =
        ({ g with budgets := some (Dict.set budgets key (.num (b - n))) }, some (toInt (b - n))) := by
  unfold lockedConsumeBudget balance balanceOf
  dsimp only
  split
  · rename_i remaining hget
    split
    · rename_i hlt
      refine .inl ⟨?_, rfl⟩
      intro b hb
      cases hb
      exact hlt
    · rename_i hle
      cases hb : g.budgets with
      | none =>
        rw [hb] at hget
        cases hget
      | some budgets =>
        exact .inr ⟨remaining, budgets, rfl, not_lt.mp hle, rfl, rfl⟩
  · exact .inl ⟨(fun b hb => by cases hb), rfl⟩

/-- The statement and the locked read-modify-write do the same. -/
theorem pgConsumeBudget_eq (g : QraftGraph) (key : String) (n : ℕ) :
    g.pgConsumeBudget key n = g.lockedConsumeBudget key n := by
  cases hb : g.budgets with
  | none => simp [pgConsumeBudget, pgGuard, lockedConsumeBudget, hb, Dict.get?]
  | some budgets =>
    cases hget : Dict.get? budgets key with
    | none => simp [pgConsumeBudget, pgGuard, lockedConsumeBudget, hb, hget]
    | some j =>
      cases j with
      | num q =>
        by_cases hle : (n : ℚ) ≤ q
        · simp [pgConsumeBudget, pgGuard, pgNumeric, lockedConsumeBudget, hb, hget, hle,
            not_lt.mpr hle, Dict.get?_set_self]
        · simp [pgConsumeBudget, pgGuard, lockedConsumeBudget, hb, hget, hle, not_le.mp hle]
      | null | bool b | str s | arr xs | obj fields =>
        simp [pgConsumeBudget, pgGuard, lockedConsumeBudget, hb, hget]

/-- A decrement keeps the other balances. -/
theorem balance_spent {g : QraftGraph} {budgets : JsonDict} {key : String} {b : ℚ}
    (hg : g.budgets = some budgets) (k : String) :
    balance { g with budgets := some (Dict.set budgets key (.num b)) } k =
      if k = key then some b else g.balance k := by
  unfold balance balanceOf
  simp only [Option.getD_some, Dict.get?_set, hg]
  by_cases hk : k = key
  · rw [if_pos hk, if_pos hk]
  · rw [if_neg hk, if_neg hk]

end QraftGraph

inductive BudgetPath where
  | postgres
  | rowLock

inductive SpendPhase where
  /-- The graph declares its key. -/
  | declared
  | returned (remaining : Option ℤ)
  /-- `BudgetExhausted`. -/
  | exhausted
  /-- `ValueError`: the amount is not positive. -/
  | refused
  deriving DecidableEq

def SpendPhase.hasReturned : SpendPhase → Bool
  | .returned _ => true
  | _ => false

structure SpendCall where
  key : String
  n : ℕ
  phase : SpendPhase

/-- A graph, and every call that was made on its budgets. -/
structure Spending where
  rows : GraphState
  calls : List SpendCall := []
  /-- The column as `start` wrote it; no function reads it. -/
  allowance : Option JsonDict

inductive SpendEvent where
  /-- A transaction of the graph. -/
  | graph (e : GraphEvent)
  /-- A call begins: its checks, and the read of `_budget_declares`. -/
  | consume (key : String) (n : ℕ)
  /-- Its decrement. -/
  | decrement (i : Nat) (path : BudgetPath)

namespace Spending

def decrement (path : BudgetPath) (g : QraftGraph) (key : String) (n : ℕ) : QraftGraph × Option ℤ :=
  match path with
  | .postgres => g.pgConsumeBudget key n
  | .rowLock => g.lockedConsumeBudget key n

/-- `consume_budget` up to its decrement. -/
def enter (g : QraftGraph) (key : String) (n : ℕ) : SpendPhase :=
  if n = 0 then .refused
  else if g.budgetDeclares key then .declared
  else .returned none

def outcome : Option ℤ → SpendPhase
  | some remaining => .returned (some remaining)
  | none => .exhausted

def step (conf : RetryDefaults) (s : Spending) (now : Time) : SpendEvent → Option Spending
  | .graph e => ((graphSystem conf).step s.rows (e, now)).map fun rows => { s with rows }
  | .consume key n =>
    some { s with calls := s.calls ++ [⟨key, n, enter s.rows.graph key n⟩] }
  | .decrement i path =>
    s.calls[i]?.bind fun c =>
      if c.phase = .declared then
        let r := decrement path s.rows.graph c.key c.n
        some { s with
          rows := { s.rows with graph := r.1 }
          calls := s.calls.set i { c with phase := outcome r.2 } }
      else none

end Spending

/-- A graph from its start on, with everyone who spends from it. -/
def spendingSystem (conf : RetryDefaults) : StepSystem Spending (SpendEvent × Time) where
  init s := ∃ plan id now rows, start conf plan id now = .ok rows ∧
    s = { rows, allowance := rows.graph.budgets }
  step s e := s.step conf e.2 e.1

namespace GraphState

@[simp] theorem settle_budgets (s : GraphState) (status : GraphStatus) (now : Time) :
    (s.settle status now).1.graph.budgets = s.graph.budgets := by
  rcases settle_cases s status now with ⟨-, h⟩ | ⟨g, -, rfl, h⟩
  · rw [h]
  · rw [h]
    simp

@[simp] theorem maybeSettle_budgets (s : GraphState) (now : Time) :
    (s.maybeSettle now).1.graph.budgets = s.graph.budgets := by
  rcases maybeSettle_cases s now with ⟨-, h⟩ | ⟨status, -, h⟩ | ⟨-, -, h⟩ | ⟨-, -, h⟩ | ⟨-, h⟩
  · rw [h]
  · rw [h, settle_budgets]
  · rw [h]
    rfl
  · rw [h]
  · rw [h]

theorem dispatchFrontier_graph {conf : RetryDefaults} {now : Time} {s t : GraphState}
    (h : dispatchFrontier conf now s = .ok t) : t.graph = s.graph := by
  unfold dispatchFrontier at h
  split at h
  · cases h
    rfl
  · refine Transaction.foldlM_invariant (fun _ t => t.graph = s.graph) ?_ rfl h
    intro node nodes t u ht hturn
    exact (dispatchOrPark_ok hturn).1.trans ht

/-- The frontier and the settling after it leave the budgets alone. -/
private theorem advance_budgets {conf : RetryDefaults} {now : Time} {s t : GraphState}
    (h : dispatchFrontier conf now s = .ok t) :
    (t.maybeSettle now).1.graph.budgets = s.graph.budgets := by
  rw [maybeSettle_budgets, dispatchFrontier_graph h]

theorem resume_budgets {conf : RetryDefaults} {s : GraphState} {nodes : Option (List String)}
    {now : Time} {r : GraphState × Nat} (h : s.resume conf nodes now = .ok r) :
    r.1.graph.budgets = s.graph.budgets := by
  obtain ⟨rerun, t, -, -, -, ht, rfl⟩ := resume_ok h
  rw [advance_budgets ht]
  simp [rewind]

/-- No transaction of a graph touches its budgets; a resume does not refill them. -/
theorem call_budgets {conf : RetryDefaults} {now : Time} {s : GraphState} {e : GraphEvent}
    {r : GraphState × Option QraftGraph} (h : s.call conf now e = .ok r) :
    r.1.graph.budgets = s.graph.budgets := by
  rcases call_cases h with ⟨task, -, h⟩ | ⟨key, reason, -, h⟩ | ⟨-, h⟩ | ⟨key, -, -, h⟩ |
    ⟨key, reason, -, h⟩ | ⟨nodes, n, -, -, h⟩
  · rcases handleNodeCompletion_cases h with rfl | ⟨node, outcome, recorded, -, -, -, -, -, rfl, hrest⟩
    · rfl
    · rcases hrest with ⟨-, t, ht, rfl⟩ | ⟨-, rfl⟩
      · rw [advance_budgets ht]
        rfl
      · rfl
  · obtain ⟨t, -, ht, rfl⟩ := skip_ok h
    rw [advance_budgets ht]
    rfl
  · obtain ⟨-, rfl⟩ := cancel_ok h
    exact settle_budgets s _ now
  · obtain ⟨node, task, -, -, -, -, -, date, he⟩ := approve_ok h
    rw [he]
    rfl
  · obtain ⟨node, -, -, -, -, rfl⟩ := reject_ok h
    rw [maybeSettle_budgets]
    rfl
  · exact resume_budgets h

end GraphState

namespace Spending
variable {conf : RetryDefaults} {s s' : Spending} {e : SpendEvent × Time}

/-- The sum of the amounts of the calls on a key that returned. -/
def paid (calls : List SpendCall) (key : String) : ℚ :=
  ((calls.filter fun c => c.key = key && c.phase.hasReturned).map fun c => (c.n : ℚ)).sum

/-- What `start` allowed under a key. -/
def allowed (s : Spending) (key : String) : Option ℚ := balanceOf s.allowance key

/-- What is left under every declared key is what was allowed, less what was paid for. -/
structure Balanced (s : Spending) : Prop where
  balance : ∀ key b, s.allowed key = some b → s.rows.graph.balance key = some (b - paid s.calls key)
  solvent : ∀ key b, s.allowed key = some b → 0 ≤ b - paid s.calls key

private theorem paid_append (calls : List SpendCall) (c : SpendCall) (key : String) :
    paid (calls ++ [c]) key =
      paid calls key + if c.key = key ∧ c.phase.hasReturned then (c.n : ℚ) else 0 := by
  unfold paid
  rw [List.filter_append, List.map_append, List.sum_append]
  by_cases h : c.key = key ∧ c.phase.hasReturned
  · simp [h]
  · simp [h]

/-- A call that had not returned comes to its end. -/
private theorem paid_set {calls : List SpendCall} {i : Nat} {c : SpendCall} (hc : calls[i]? = some c)
    (hphase : c.phase.hasReturned = false) (phase : SpendPhase) (key : String) :
    paid (calls.set i { c with phase }) key =
      paid calls key + if c.key = key ∧ phase.hasReturned then (c.n : ℚ) else 0 := by
  obtain ⟨l₁, l₂, hl, hset, -⟩ := InFlight.exists_split hc
  rw [hset, hl]
  unfold paid
  simp only [List.filter_append, List.filter_cons, hphase, Bool.and_false, List.map_append,
    List.sum_append]
  by_cases h : c.key = key ∧ phase.hasReturned
  · obtain ⟨hk, hp⟩ := h
    simp only [hk, hp, decide_true, Bool.and_self, if_true, and_self, List.map_cons, List.sum_cons]
    simp only [Bool.false_eq_true, if_false]
    ring
  · have hno : (decide (c.key = key) && phase.hasReturned) = false := by
      simpa using h
    simp [h, hno]

private theorem declares_of_balance {g : QraftGraph} {key : String} {b : ℚ} (h : g.balance key = some b) :
    g.budgetDeclares key = true := by
  unfold QraftGraph.balance balanceOf at h
  split at h
  · rename_i q hget
    cases hb : g.budgets with
    | none =>
      rw [hb] at hget
      cases hget
    | some budgets =>
      rw [hb, Option.getD_some] at hget
      have hne : budgets ≠ [] := by
        rintro rfl
        cases hget
      simp [QraftGraph.budgetDeclares, hb, hget, hne]
  · cases h

theorem decrement_eq (path : BudgetPath) (g : QraftGraph) (key : String) (n : ℕ) :
    decrement path g key n = g.lockedConsumeBudget key n := by
  cases path with
  | postgres => exact QraftGraph.pgConsumeBudget_eq g key n
  | rowLock => rfl

theorem Balanced.step (hs : s.Balanced) (h : (spendingSystem conf).step s e = some s') : s'.Balanced := by
  obtain ⟨e, now⟩ := e
  cases e with
  | graph e =>
    obtain ⟨rows, hrows, rfl⟩ := Option.map_eq_some_iff.mp h
    obtain ⟨g, hcall⟩ := graphSystem_step hrows
    refine ⟨?_, hs.solvent⟩
    intro key b hb
    rw [← hs.balance key b hb]
    have hbudgets : rows.graph.budgets = s.rows.graph.budgets := call_budgets hcall
    unfold QraftGraph.balance
    rw [hbudgets]
  | consume key n =>
    cases h
    have hnone : ∀ k b, s.allowed k = some b →
        ¬ (key = k ∧ (enter s.rows.graph key n).hasReturned = true) := by
      rintro k b hb ⟨rfl, hret⟩
      unfold enter at hret
      split at hret
      · cases hret
      · rw [if_pos (declares_of_balance (hs.balance key b hb))] at hret
        cases hret
    refine ⟨?_, ?_⟩
    · intro k b hb
      rw [paid_append, if_neg (hnone k b hb), add_zero]
      exact hs.balance k b hb
    · intro k b hb
      rw [paid_append, if_neg (hnone k b hb), add_zero]
      exact hs.solvent k b hb
  | decrement i path =>
    obtain ⟨c, hc, h⟩ := Option.bind_eq_some_iff.mp h
    split at h
    · rename_i hphase
      cases h
      have hopen : c.phase.hasReturned = false := by rw [hphase]; rfl
      have hpath := decrement_eq path s.rows.graph c.key c.n
      rcases QraftGraph.lockedConsumeBudget_cases s.rows.graph c.key c.n with
        ⟨-, hr⟩ | ⟨b, budgets, hb, hle, hbudgets, hr⟩
      · refine ⟨?_, ?_⟩
        · intro k b hb
          rw [hpath, hr, paid_set hc hopen, if_neg (by rintro ⟨-, hf⟩; cases hf), add_zero]
          exact hs.balance k b hb
        · intro k b hb
          rw [hpath, hr, paid_set hc hopen, if_neg (by rintro ⟨-, hf⟩; cases hf), add_zero]
          exact hs.solvent k b hb
      · refine ⟨?_, ?_⟩
        · intro k a ha
          rw [hpath, hr, paid_set hc hopen, QraftGraph.balance_spent hbudgets]
          by_cases hk : k = c.key
          · subst hk
            have hold := (hs.balance _ a ha).symm.trans hb
            rw [if_pos rfl, if_pos ⟨rfl, rfl⟩, ← Option.some.inj hold, sub_sub]
          · rw [if_neg hk, if_neg fun h => hk h.1.symm, add_zero]
            exact hs.balance k a ha
        · intro k a ha
          rw [hpath, hr, paid_set hc hopen]
          by_cases hk : k = c.key
          · subst hk
            have hold := Option.some.inj ((hs.balance _ a ha).symm.trans hb)
            rw [if_pos ⟨rfl, rfl⟩, ← sub_sub, hold]
            exact sub_nonneg.mpr hle
          · rw [if_neg fun h => hk h.1.symm, add_zero]
            exact hs.solvent k a ha
    · cases h

/-- A checked budget is a whole number that is not negative. -/
theorem validatedBudgets_whole {budgets : List (String × BudgetValue)} {d : JsonDict}
    (h : GraphPlan.validatedBudgets budgets = .ok (some d)) {key : String} {j : Json}
    (hj : Dict.get? d key = some j) : ∃ n : ℕ, j = .num n := by
  unfold GraphPlan.validatedBudgets at h
  split at h
  · cases h
  · obtain ⟨d', hfold, he⟩ := Transaction.map_eq_ok.mp h
    cases he
    refine Transaction.foldlM_invariant
      (fun _ d => ∀ key j, Dict.get? d key = some j → ∃ n : ℕ, j = .num n) ?_ ?_ hfold key j hj
    · intro entry rest d d' hd hcheck k j hk
      unfold GraphPlan.checkBudget at hcheck
      split at hcheck
      · split at hcheck
        · cases hcheck
        · rename_i n _ hn
          cases hcheck
          rw [Dict.get?_set] at hk
          split at hk
          · cases hk
            refine ⟨n.toNat, ?_⟩
            rw [← Int.cast_natCast, Int.toNat_of_nonneg (not_lt.mp hn)]
          · exact hd k j hk
      · cases hcheck
    · intro k j hk
      cases hk

theorem start_budgets {plan : GraphPlan} {id : GraphId} {now : Time} {rows : GraphState}
    (h : start conf plan id now = .ok rows) :
    GraphPlan.validatedBudgets plan.budgets = .ok rows.graph.budgets := by
  obtain ⟨s₀, t, -, hins, ht, rfl⟩ := start_ok h
  rw [hins.budgets, advance_budgets ht]

private theorem whole_of_start {plan : GraphPlan} {id : GraphId} {now : Time} {rows : GraphState}
    (h : start conf plan id now = .ok rows) {key : String} {b : ℚ}
    (hb : balanceOf rows.graph.budgets key = some b) : ∃ n : ℕ, b = n := by
  have hchecked := start_budgets h
  cases hbudgets : rows.graph.budgets with
  | none =>
    rw [hbudgets] at hb
    cases hb
  | some budgets =>
    rw [hbudgets] at hb hchecked
    unfold balanceOf at hb
    split at hb
    · rename_i q hget
      cases hb
      obtain ⟨n, hn⟩ := validatedBudgets_whole hchecked hget
      exact ⟨n, Json.num.inj hn⟩
    · cases hb

theorem reach_balanced (h : (spendingSystem conf).Reach s) : s.Balanced := by
  apply h.invariant Balanced
  · rintro s ⟨plan, id, now, rows, hstart, rfl⟩
    refine ⟨?_, ?_⟩
    · intro key b hb
      rw [show paid [] key = 0 from rfl, sub_zero]
      exact hb
    · intro key b hb
      obtain ⟨n, hn⟩ := whole_of_start hstart hb
      rw [show paid [] key = 0 from rfl, sub_zero, hn]
      exact n.cast_nonneg
  · intro s e s' hs _ hstep
    exact hs.step hstep

theorem step_allowance (h : (spendingSystem conf).step s e = some s') : s'.allowance = s.allowance := by
  obtain ⟨e, now⟩ := e
  cases e with
  | graph e =>
    obtain ⟨rows, -, rfl⟩ := Option.map_eq_some_iff.mp h
    rfl
  | consume key n =>
    cases h
    rfl
  | decrement i path =>
    obtain ⟨c, -, h⟩ := Option.bind_eq_some_iff.mp h
    split at h
    · cases h
      rfl
    · cases h

/-- A decrement that ends in `BudgetExhausted` wrote nothing. -/
theorem step_exhausted {i : Nat} {path : BudgetPath} {now : Time} {c : SpendCall}
    (h : (spendingSystem conf).step s (.decrement i path, now) = some s') (hc : s'.calls[i]? = some c)
    (hphase : c.phase = .exhausted) : s'.rows = s.rows := by
  obtain ⟨c₀, hc₀, h⟩ := Option.bind_eq_some_iff.mp h
  split at h
  · cases h
    obtain ⟨hi, -⟩ := List.getElem?_eq_some_iff.mp hc₀
    rw [List.getElem?_set_self hi] at hc
    cases hc
    have hpath : decrement path s.rows.graph c₀.key c₀.n =
        s.rows.graph.lockedConsumeBudget c₀.key c₀.n := decrement_eq path _ _ _
    rcases QraftGraph.lockedConsumeBudget_cases s.rows.graph c₀.key c₀.n with
      ⟨-, hr⟩ | ⟨b, budgets, -, -, -, hr⟩
    · rw [hpath, hr]
    · rw [hpath, hr] at hphase
      cases hphase
  · cases h

/-- Every key that `start` was given is metered. -/
theorem reach_allowed (h : (spendingSystem conf).Reach s) {key : String} {j : Json}
    (hj : Dict.get? (s.allowance.getD []) key = some j) : ∃ n : ℕ, s.allowed key = some (n : ℚ) := by
  have hwhole : ∀ key j, Dict.get? (s.allowance.getD []) key = some j → ∃ n : ℕ, j = .num n := by
    apply h.invariant fun s => ∀ key j, Dict.get? (s.allowance.getD []) key = some j → ∃ n : ℕ, j = .num n
    · rintro s ⟨plan, id, now, rows, hstart, rfl⟩ key j hj
      have hchecked := start_budgets hstart
      cases hbudgets : rows.graph.budgets with
      | none =>
        rw [hbudgets] at hj
        cases hj
      | some budgets =>
        rw [hbudgets] at hj hchecked
        exact validatedBudgets_whole hchecked hj
    · intro s e s' hs _ hstep
      have hallowance : s'.allowance = s.allowance := step_allowance hstep
      rw [hallowance]
      exact hs
  obtain ⟨n, rfl⟩ := hwhole key j hj
  refine ⟨n, ?_⟩
  unfold allowed balanceOf
  rw [hj]

/-- What was allowed and is gone was paid for by calls that returned, in any interleaving; a refused
call changes nothing, a resume refills nothing, and both databases agree. -/
theorem budget_conserved (h : (spendingSystem conf).Reach s) :
    (∀ key, (Dict.get? (s.allowance.getD []) key).isSome → ∃ b left, s.allowed key = some b ∧
      s.rows.graph.balance key = some left ∧ 0 ≤ left ∧ b - left = paid s.calls key) ∧
    (∀ i path now s' c, (spendingSystem conf).step s (.decrement i path, now) = some s' →
      s'.calls[i]? = some c → c.phase = .exhausted → s'.rows = s.rows) ∧
    (∀ nodes now r, s.rows.resume conf nodes now = .ok r →
      r.1.graph.budgets = s.rows.graph.budgets) ∧
    ∀ key n, s.rows.graph.pgConsumeBudget key n = s.rows.graph.lockedConsumeBudget key n := by
  have hs := reach_balanced h
  refine ⟨?_, ?_, ?_, ?_⟩
  · intro key hkey
    obtain ⟨j, hj⟩ := Option.isSome_iff_exists.mp hkey
    obtain ⟨n, hn⟩ := reach_allowed h hj
    exact ⟨n, n - paid s.calls key, hn, hs.balance key n hn, hs.solvent key n hn, sub_sub_cancel _ _⟩
  · intro i path now s' c hstep hc hphase
    exact step_exhausted hstep hc hphase
  · exact fun nodes now r hr => resume_budgets hr
  · exact fun key n => QraftGraph.pgConsumeBudget_eq _ key n

/-- Two requests allowed; one is paid for, and then two more are asked for. -/
def meteredPlan : GraphPlan := { diamond with budgets := [("requests", .count 2)] }

def spendThree : List (SpendEvent × Time) := [
  (.consume "requests" 1, 1),
  (.decrement 0 .postgres, 1),
  (.graph (report 0 "root" .succeeded), 2),
  (.consume "requests" 2, 3),
  (.decrement 1 .rowLock, 3)]

/-- A key of the plan is declared, and a call on it was refused. -/
def overspends (s : Spending) : Bool :=
  (Dict.get? (s.allowance.getD []) "requests").isSome && s.calls.any fun c => c.phase = .exhausted

theorem budget_conserved_diamond : ∃ s, (spendingSystem {}).Reach s ∧
    (∃ c ∈ s.calls, c.phase = .exhausted) ∧
    ∃ b left, s.allowed "requests" = some b ∧ s.rows.graph.balance "requests" = some left ∧
      0 ≤ left ∧ b - left = paid s.calls "requests" := by
  have hrun : ((start {} meteredPlan 0 0).toOption.bind fun rows =>
      ((spendingSystem {}).run { rows, allowance := rows.graph.budgets } spendThree).map overspends) =
        some true := by decide +kernel
  obtain ⟨rows, hrows, hrun⟩ := Option.bind_eq_some_iff.mp hrun
  obtain ⟨s, hr, hp⟩ := StepSystem.exists_reach_of_run (spendingSystem {}) spendThree
    (.init ⟨meteredPlan, 0, 0, rows, Transaction.toOption_eq_some.mp hrows, rfl⟩) overspends hrun
  obtain ⟨hkey, hrefused⟩ := Bool.and_eq_true_iff.mp hp
  obtain ⟨c, hc, hphase⟩ := List.any_eq_true.mp hrefused
  exact ⟨s, hr, ⟨c, hc, of_decide_eq_true hphase⟩, (budget_conserved hr).1 "requests" hkey⟩

end Spending
end Qraft
