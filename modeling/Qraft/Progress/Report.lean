import Mathlib.Algebra.Order.Ring.Rat
import Qraft.Foundations.Dict
import Qraft.Models.Values

/-! One progress report: its payload, and the two ways to merge it into the attempt's row. -/
namespace Qraft

structure ProgressRow where
  id : AttemptId
  attemptNumber : Nat
  progress : Option JsonDict := none
  reportedAt : Option Time := none
  advancedAt : Option Time := none

/-- The names `report_progress` binds itself. -/
def reportNames : List String := ["current", "total", "message", "force"]

/-- The arguments of `report_progress`; the keywords it does not name are each given once. -/
structure ProgressReport where
  current : Option ℤ := none
  total : Option ℤ := none
  message : Option String := none
  force : Bool := false
  extra : JsonDict := []
  extra_nodup : (extra.map Prod.fst).Nodup
  extra_named : ∀ key ∈ extra.map Prod.fst, key ∉ reportNames

def Json.isNull : Json → Bool
  | .null => true
  | _ => false

/-- A count as JSON, or `null`. -/
def countJson (count : Option ℤ) : Json := count.elim .null fun n => .num n

namespace ProgressReport

/-- `_progress_payload`. -/
def payload (r : ProgressReport) : JsonDict :=
  (Dict.update [("current", countJson r.current), ("total", countJson r.total),
    ("message", r.message.elim .null .str)] r.extra).filter fun e => !e.2.isNull

/-- When a report inside the interval is skipped: `now - interval`, if there is one. -/
def cutoff (now : Time) (interval : Nat) : Option ℤ := if interval = 0 then none else some (now - interval)

end ProgressReport

/-- Python's `stored != n`. -/
def pyDiffers (stored : Option Json) (n : ℤ) : Bool :=
  match stored with
  | some (.num q) => q ≠ n
  | some (.bool b) => (if b then 1 else 0) ≠ n
  | _ => true

/-- `stored IS DISTINCT FROM n`, of `jsonb` values. -/
def jsonbDistinct (stored : Option Json) (n : ℤ) : Bool :=
  match stored with
  | some (.num q) => q ≠ n
  | _ => true

namespace ProgressReport

/-- The payload has each key once. -/
theorem payload_nodup (r : ProgressReport) : (r.payload.map Prod.fst).Nodup := by
  apply Dict.nodup_filter
  apply Dict.nodup_update
  simp

/-- The keywords a report names itself are read as it was given them. -/
theorem get?_payload_named (r : ProgressReport) {key : String} (hkey : key ∈ reportNames) :
    Dict.get? r.payload key = (Dict.get? [("current", countJson r.current), ("total", countJson r.total),
      ("message", r.message.elim .null .str)] key).filter fun j => !j.isNull := by
  have hnone : Dict.get? r.extra key = none :=
    Dict.get?_eq_none.mpr fun hin => r.extra_named key hin hkey
  unfold payload
  rw [Dict.get?_filter (Dict.nodup_update (by simp) _), Dict.get?_update r.extra_nodup, hnone,
    Option.none_or]

theorem payload_count (r : ProgressReport) {key : String} (hkey : key ∈ ["current", "total"]) {j : Json}
    (hj : Dict.get? r.payload key = some j) : ∃ n : ℤ, j = .num n := by
  have hcount : ∀ count : Option ℤ, (some (countJson count)).filter (fun j => !j.isNull) = some j →
      ∃ n : ℤ, j = .num n := by
    intro count h
    cases count with
    | none => cases h
    | some n =>
      cases h
      exact ⟨n, rfl⟩
  rcases List.mem_cons.mp hkey with rfl | hkey
  · rw [get?_payload_named r (by decide)] at hj
    exact hcount r.current hj
  · rw [List.mem_singleton.mp hkey, get?_payload_named r (by decide)] at hj
    exact hcount r.total hj

end ProgressReport

namespace ProgressRow

/-- `_locked_progress_update`, under the row lock. `none`: the write is coalesced away. -/
def lockedProgressUpdate (row : ProgressRow) (r : ProgressReport) (now : Time) (cutoff : Option ℤ) :
    Option ProgressRow :=
  let stored := row.progress.getD []
  let advanced := (r.current.any fun n => pyDiffers (Dict.get? stored "current") n) ||
    r.total.any fun n => pyDiffers (Dict.get? stored "total") n
  if !r.force && cutoff.any (fun c => row.reportedAt.any fun moment => c < (moment : ℤ)) && !advanced then none
  else some { row with
    progress := some (Dict.update stored r.payload)
    reportedAt := some now
    advancedAt := if advanced then some now else row.advancedAt }

/-- `_pg_progress_update`, in one statement. -/
def pgProgressUpdate (row : ProgressRow) (r : ProgressReport) (now : Time) (cutoff : Option ℤ) :
    Option ProgressRow :=
  let held (key : String) := row.progress.bind fun p => Dict.get? p key
  let advanced := (r.current.any fun n => jsonbDistinct (held "current") n) ||
    r.total.any fun n => jsonbDistinct (held "total") n
  let throttle := r.force || cutoff.all fun c =>
    row.reportedAt.isNone || row.reportedAt.any (fun moment => (moment : ℤ) ≤ c) || advanced
  if throttle then
    some { row with
      progress := some (Dict.update (row.progress.getD []) r.payload)
      reportedAt := some now
      advancedAt := if advanced then some now else row.advancedAt }
  else none

def held (row : ProgressRow) (key : String) : Option Json := Dict.get? (row.progress.getD []) key

/-- A report gives `current` or `total` a value that is not stored. -/
def Advances (row : ProgressRow) (r : ProgressReport) : Prop :=
  (∃ n, r.current = some n ∧ row.held "current" ≠ some (.num n)) ∨
    ∃ n, r.total = some n ∧ row.held "total" ≠ some (.num n)

/-- Where a count is stored, it is a whole number. -/
def Counted (row : ProgressRow) : Prop :=
  ∀ key ∈ ["current", "total"], ∀ j, row.held key = some j → ∃ n : ℤ, j = .num n

/-- What a report does to the row, on either database. -/
inductive Merged (row : ProgressRow) (r : ProgressReport) (now : Time) : Option ProgressRow → Prop where
  | coalesced (h : ¬ row.Advances r) : Merged row r now none
  | written {row' : ProgressRow} (hid : row'.id = row.id) (hnumber : row'.attemptNumber = row.attemptNumber)
      (hprogress : row'.progress = some (Dict.update (row.progress.getD []) r.payload))
      (hmoved : row.Advances r → row'.advancedAt = some now)
      (hstayed : ¬ row.Advances r → row'.advancedAt = row.advancedAt) : Merged row r now (some row')

section
variable {row : ProgressRow} {r : ProgressReport} {now : Time} {cutoff : Option ℤ}

private theorem bind_get? (row : ProgressRow) (key : String) :
    (row.progress.bind fun p => Dict.get? p key) = row.held key := by
  unfold held
  cases row.progress with
  | none => rfl
  | some p => rfl

private theorem differs_iff {key : String} {n : ℤ} :
    jsonbDistinct (row.held key) n = true ↔ row.held key ≠ some (.num n) := by
  unfold jsonbDistinct
  split
  · rename_i q hq
    rw [hq]
    simp
  · rename_i hq
    exact iff_of_true rfl (hq n)

private theorem pyDiffers_eq (hc : row.Counted) {key : String} (hkey : key ∈ ["current", "total"])
    (n : ℤ) : pyDiffers (row.held key) n = jsonbDistinct (row.held key) n := by
  cases h : row.held key with
  | none => rfl
  | some j =>
    obtain ⟨m, rfl⟩ := hc key hkey j h
    rfl

/-- Whether a row advances, as both databases compute it. -/
private theorem advances_iff : ((r.current.any fun n => jsonbDistinct (row.held "current") n) ||
    r.total.any fun n => jsonbDistinct (row.held "total") n) = true ↔ row.Advances r := by
  rw [Bool.or_eq_true, Option.any_eq_true, Option.any_eq_true]
  simp only [differs_iff]
  rfl

theorem pgProgressUpdate_merged : Merged row r now (row.pgProgressUpdate r now cutoff) := by
  have hheld (key : String) : (row.progress.bind fun p => Dict.get? p key) = row.held key := bind_get? row key
  unfold pgProgressUpdate
  dsimp only
  simp only [hheld]
  split
  · refine .written rfl rfl rfl ?_ ?_
    · intro hadv
      rw [if_pos (advances_iff.mpr hadv)]
    · intro hadv
      rw [if_neg fun h => hadv (advances_iff.mp h)]
  · rename_i hskip
    refine .coalesced fun hadv => hskip ?_
    rw [advances_iff.mpr hadv]
    simp

/-- On rows that reports wrote, the two databases do the same. -/
theorem lockedProgressUpdate_eq (hc : row.Counted) :
    row.lockedProgressUpdate r now cutoff = row.pgProgressUpdate r now cutoff := by
  unfold lockedProgressUpdate pgProgressUpdate
  have hlocked (key : String) : Dict.get? (row.progress.getD []) key = row.held key := rfl
  have hpg (key : String) : (row.progress.bind fun p => Dict.get? p key) = row.held key := bind_get? row key
  dsimp only
  simp only [hlocked, hpg, pyDiffers_eq hc List.mem_cons_self,
    pyDiffers_eq hc (List.mem_cons_of_mem _ List.mem_cons_self)]
  -- The one asks when to skip, the other when to write.
  generalize ((r.current.any fun n => jsonbDistinct (row.held "current") n) ||
    r.total.any fun n => jsonbDistinct (row.held "total") n) = advanced
  cases r.force with
  | true => simp
  | false =>
    cases cutoff with
    | none => simp
    | some c =>
      cases row.reportedAt with
      | none => simp
      | some moment =>
        cases advanced with
        | true => simp
        | false =>
          by_cases h : c < (moment : ℤ)
          · simp [h, not_le.mpr h]
          · simp [h, not_lt.mp h]

theorem Merged.counted {row' : ProgressRow} (h : Merged row r now (some row')) (hc : row.Counted) :
    row'.Counted := by
  intro key hkey j hj
  cases h with
  | written hid hnumber hprogress hmoved hstayed =>
    rw [held, hprogress, Option.getD_some, Dict.get?_update r.payload_nodup] at hj
    rcases Option.or_eq_some_iff.mp hj with hnew | ⟨-, hold⟩
    · exact r.payload_count hkey hnew
    · exact hc key hkey j hold

end
end ProgressRow
end Qraft
