import Qraft.Progress.Effects

/-! Progress under row locks: no report undoes another, and only the latest attempt writes the
task's snapshot. -/
namespace Qraft
open ProgressRow

namespace Progressing
variable {s s' : Progressing} {e : ProgressEvent}

/-- A report has merged into its attempt's row, and the row is still the one it merged into. -/
structure Holding (s : Progressing) (i : Nat) (p : Reporting) (row' : ProgressRow) : Prop where
  lock : s.attemptLock p.attempt = some i
  merged : ∃ row, s.attempt? p.attempt = some row ∧ Merged row p.report p.now (some row')

/-- What the state owes a process. -/
inductive Sound (s : Progressing) (i : Nat) : ProgressProcess → Prop where
  | waiting {p : Reporting} (hidle : p.phase = .called ∨ p.phase = .failed ∨ ∃ b, p.phase = .returned b)
      (hrow : ∃ row, s.attempt? p.attempt = some row ∧ row.attemptNumber = p.attemptNumber) :
      Sound s i (.report p)
  | merged {p : Reporting} {row' : ProgressRow} (hphase : p.phase = .merged row')
      (hnumber : row'.attemptNumber = p.attemptNumber) (hold : s.Holding i p row') : Sound s i (.report p)
  | locked {p : Reporting} {row' : ProgressRow} (hphase : p.phase = .locked row')
      (hnumber : row'.attemptNumber = p.attemptNumber) (hold : s.Holding i p row')
      (htask : s.taskLock = some i) : Sound s i (.report p)
  | snapshotted {p : Reporting} {row' : ProgressRow} {snapshot : Option JsonDict}
      (hphase : p.phase = .snapshotted row' snapshot) (hnumber : row'.attemptNumber = p.attemptNumber)
      (hold : s.Holding i p row') (htask : s.taskLock = some i)
      (hlatest : ∀ d, snapshot = some d → d = snapshotOf p row' ∧
        ∀ a ∈ s.attempts, a.attemptNumber ≤ p.attemptNumber) : Sound s i (.report p)
  | scheduling {number : Nat} {phase : SchedulePhase}
      (hidle : phase = .called ∨ phase = .returned ∨ phase = .failed) : Sound s i (.schedule number phase)
  | scheduleLocked {number : Nat} (htask : s.taskLock = some i) : Sound s i (.schedule number .locked)
  | inserted {number : Nat} {row : ProgressRow} (htask : s.taskLock = some i) (hnext : row.id < s.nextId)
      (hfresh : ∀ a ∈ s.attempts, a.id ≠ row.id) (hempty : row.progress = none) :
      Sound s i (.schedule number (.inserted row))

/-- What a step leaves to a process that is not its own. -/
structure Kept (s s' : Progressing) (j : Nat) : Prop where
  attemptLock : ∀ id, s.attemptLock id = some j → s'.attemptLock id = some j
  taskLock : s.taskLock = some j → s'.taskLock = some j
  attempts : ∀ id row, s.attempt? id = some row → ∃ row', s'.attempt? id = some row' ∧
    row'.attemptNumber = row.attemptNumber ∧ (s.attemptLock id = some j → row' = row)
  old : s.taskLock = some j → ∀ a ∈ s'.attempts, ∃ b ∈ s.attempts, b.id = a.id ∧
    b.attemptNumber = a.attemptNumber
  nextId : s.nextId ≤ s'.nextId

theorem Holding.kept {j : Nat} {p : Reporting} {row' : ProgressRow} (h : s.Holding j p row')
    (hk : Kept s s' j) : s'.Holding j p row' := by
  obtain ⟨row, hrow, hm⟩ := h.merged
  obtain ⟨row₁, hrow₁, -, hsame⟩ := hk.attempts _ _ hrow
  rw [hsame h.lock] at hrow₁
  exact ⟨hk.attemptLock _ h.lock, row, hrow₁, hm⟩

theorem Sound.kept {j : Nat} {proc : ProgressProcess} (h : s.Sound j proc) (hk : Kept s s' j) :
    s'.Sound j proc := by
  cases h with
  | waiting hidle hrow =>
    obtain ⟨row, hrow, hnumber⟩ := hrow
    obtain ⟨row', hrow', hsame, -⟩ := hk.attempts _ _ hrow
    exact .waiting hidle ⟨row', hrow', hsame.trans hnumber⟩
  | merged hphase hnumber hold => exact .merged hphase hnumber (hold.kept hk)
  | locked hphase hnumber hold htask => exact .locked hphase hnumber (hold.kept hk) (hk.taskLock htask)
  | snapshotted hphase hnumber hold htask hlatest =>
    refine .snapshotted hphase hnumber (hold.kept hk) (hk.taskLock htask) ?_
    intro d hd
    refine ⟨(hlatest d hd).1, fun a ha => ?_⟩
    obtain ⟨b, hb, -, hnum⟩ := hk.old htask a ha
    rw [← hnum]
    exact (hlatest d hd).2 b hb
  | scheduling hidle => exact .scheduling hidle
  | scheduleLocked htask => exact .scheduleLocked (hk.taskLock htask)
  | inserted htask hnext hfresh hempty =>
    refine .inserted (hk.taskLock htask) (lt_of_lt_of_le hnext hk.nextId) ?_ hempty
    intro a ha
    obtain ⟨b, hb, hid, -⟩ := hk.old htask a ha
    rw [← hid]
    exact hfresh b hb

def payloads (s : Progressing) (id : AttemptId) : List JsonDict :=
  (s.commits.filter fun c => c.attempt = id).map fun c => c.report.payload

/-- The rows: each attempt's progress is what the reports committed for it add up to. -/
structure Stored (s : Progressing) : Prop where
  ids : (s.attempts.map fun a => a.id).Nodup
  below : ∀ a ∈ s.attempts, a.id < s.nextId
  counted : ∀ a ∈ s.attempts, a.Counted
  logged : ∀ a ∈ s.attempts, a.progress.getD [] = (s.payloads a.id).foldl Dict.update []
  known : ∀ c ∈ s.commits, ∃ a ∈ s.attempts, a.id = c.attempt

structure Fenced (s : Progressing) : Prop where
  stored : s.Stored
  sound : ∀ j proc, s.processes[j]? = some proc → s.Sound j proc

section Steps
variable {i j : Nat} {p : Reporting}

theorem Sound.holding (h : s.Sound i (.report p)) {row : ProgressRow} (hin : InTransaction p row) :
    s.Holding i p row ∧ row.attemptNumber = p.attemptNumber := by
  cases h with
  | waiting hidle hrow =>
    rcases hin with hin | hin | ⟨_, hin⟩ <;> rcases hidle with hidle | hidle | ⟨_, hidle⟩ <;>
      rw [hin] at hidle <;> cases hidle
  | merged hphase hnumber hold =>
    rcases hin with hin | hin | ⟨_, hin⟩ <;> rw [hin] at hphase <;> cases hphase
    exact ⟨hold, hnumber⟩
  | locked hphase hnumber hold htask =>
    rcases hin with hin | hin | ⟨_, hin⟩ <;> rw [hin] at hphase <;> cases hphase
    exact ⟨hold, hnumber⟩
  | snapshotted hphase hnumber hold htask hlatest =>
    rcases hin with hin | hin | ⟨_, hin⟩ <;> rw [hin] at hphase <;> cases hphase
    exact ⟨hold, hnumber⟩

theorem Sound.schedule_taskLock {number : Nat} {phase : SchedulePhase}
    (h : s.Sound i (.schedule number phase)) (hin : phase = .locked ∨ ∃ row, phase = .inserted row) :
    s.taskLock = some i := by
  cases h with
  | scheduling hidle =>
    rcases hin with rfl | ⟨_, rfl⟩ <;> rcases hidle with h | h | h <;> cases h
  | scheduleLocked htask => exact htask
  | inserted htask hnext hfresh hempty => exact htask

private theorem kept_of_same (ha : s'.attempts = s.attempts)
    (hl : ∀ id, s.attemptLock id = some j → s'.attemptLock id = some j)
    (ht : s.taskLock = some j → s'.taskLock = some j) (hn : s.nextId ≤ s'.nextId) : Kept s s' j := by
  refine ⟨hl, ht, ?_, ?_, hn⟩
  · intro id row hrow
    refine ⟨row, ?_, rfl, fun _ => rfl⟩
    rw [attempt?, ha]
    exact hrow
  · intro _ a hin
    rw [ha] at hin
    exact ⟨a, hin, rfl, rfl⟩

private theorem attemptLock_kept {id id' : AttemptId} (h : s.attemptLock id = some j)
    (hne : s.attemptLock id' ≠ some j) (v : Option Nat) :
    Function.update s.attemptLock id' v id = some j := by
  rw [Function.update_of_ne, h]
  rintro rfl
  exact hne h

/-- A transaction that ends lets go of its own locks only. -/
private theorem release_kept (hlock : s.attemptLock p.attempt = some i) (hj : j ≠ i) :
    Kept s (s.release i p) j := by
  refine kept_of_same rfl ?_ ?_ le_rfl
  · intro id h
    refine attemptLock_kept h ?_ none
    rw [hlock]
    exact fun he => hj (Option.some.inj he).symm
  · intro h
    have hne : s.taskLock ≠ some i := by
      rw [h]
      exact fun he => hj (Option.some.inj he)
    change (if s.taskLock = some i then none else s.taskLock) = some j
    rw [if_neg hne, h]

/-- The attempts after a report is committed. -/
private theorem attempt?_replaced (rows : List ProgressRow) (row' : ProgressRow) (id : AttemptId) :
    Rows.get? (fun row : ProgressRow => row.id)
        (Rows.updateWhere (fun a => a.id = row'.id) (fun _ => row') rows) id =
      (Rows.get? (fun row : ProgressRow => row.id) rows id).map
        fun a => if a.id = row'.id then row' else a := by
  have hkey : ∀ r : ProgressRow, (if r.id = row'.id then row' else r).id = r.id := by
    intro r
    split
    · rename_i h
      exact h.symm
    · rfl
  have hmap := Rows.get?_map hkey rows id
  rw [← hmap]
  simp only [Rows.updateWhere, decide_eq_true_eq]

private theorem attempt?_id {id : AttemptId} {row : ProgressRow} (h : s.attempt? id = some row) :
    row ∈ s.attempts ∧ row.id = id := Rows.get?_eq_some h

theorem Moved.kept (hm : Moved s e s') (hf : Fenced s) (hj : actor e ≠ some j) : Kept s s' j := by
  cases hm with
  | called hrow => exact kept_of_same rfl (fun _ h => h) (fun h => h) le_rfl
  | skipped hp hrow hno => exact kept_of_same rfl (fun _ h => h) (fun h => h) le_rfl
  | merged hp hlock hrow hmerge =>
    refine kept_of_same rfl (fun id h => attemptLock_kept h ?_ _) (fun h => h) le_rfl
    rw [hlock]
    exact (Option.some_ne_none j).symm
  | lockedTask hp hphase hlock =>
    refine kept_of_same rfl (fun _ h => h) (fun h => ?_) le_rfl
    rw [hlock] at h
    cases h
  | snapshotted hp hphase => exact kept_of_same rfl (fun _ h => h) (fun h => h) le_rfl
  | @committed i p row' snapshot hp hphase =>
    have hji : j ≠ i := fun h => hj (congrArg some h.symm)
    obtain ⟨hold, hnumber⟩ := (hf.sound i _ hp).holding (.inr (.inr ⟨_, hphase⟩))
    obtain ⟨row, hrow, hmerged⟩ := hold.merged
    have hrel := release_kept hold.lock hji
    cases hmerged with
    | written hid hnum hprogress hmoved hstayed =>
      have hid' : row'.id = p.attempt := hid.trans (attempt?_id hrow).2
      refine ⟨hrel.attemptLock, hrel.taskLock, ?_, ?_, le_rfl⟩
      · intro id a ha
        have hafter := attempt?_replaced s.attempts row' id
        rw [hid'] at hafter
        refine ⟨_, hafter.trans (congrArg _ ha), ?_, ?_⟩
        · dsimp only
          split
          · rename_i h
            have heq : s.attempt? p.attempt = some a := by
              rw [← h, (attempt?_id ha).2]
              exact ha
            rw [hrow] at heq
            cases heq
            exact hnum
          · rfl
        · intro hlock
          have hne : a.id ≠ p.attempt := by
            intro h
            rw [← (attempt?_id ha).2, h, hold.lock] at hlock
            exact hji (Option.some.inj hlock).symm
          exact if_neg hne
      · intro _ a ha
        obtain ⟨b, hb, rfl⟩ := Rows.mem_updateWhere.mp ha
        split
        · exact ⟨row, (attempt?_id hrow).1, hid.symm, hnum.symm⟩
        · exact ⟨b, hb, rfl, rfl⟩
  | @rolledBack i p hp hphase =>
    obtain ⟨row, hin⟩ := hphase
    obtain ⟨hold, -⟩ := (hf.sound i _ hp).holding hin
    have hrel := release_kept hold.lock fun h : j = i => hj (congrArg some h.symm)
    exact kept_of_same rfl hrel.attemptLock hrel.taskLock le_rfl
  | scheduled => exact kept_of_same rfl (fun _ h => h) (fun h => h) le_rfl
  | scheduleLocked hp hlock =>
    refine kept_of_same rfl (fun _ h => h) (fun h => ?_) le_rfl
    rw [hlock] at h
    cases h
  | scheduleInserted hp => exact kept_of_same rfl (fun _ h => h) (fun h => h) (Nat.le_succ _)
  | @scheduleCommitted i number row hp =>
    have htask := (hf.sound i _ hp).schedule_taskLock (.inr ⟨_, rfl⟩)
    have hno : s.taskLock ≠ some j := by
      rw [htask]
      exact hj
    refine ⟨fun _ h => h, fun h => absurd h hno, ?_, fun h => absurd h hno, le_rfl⟩
    intro id a ha
    exact ⟨a, Rows.get?_append ha _, rfl, fun _ => rfl⟩
  | @scheduleRolledBack i number phase hp hphase =>
    have htask := (hf.sound i _ hp).schedule_taskLock hphase
    refine kept_of_same rfl (fun _ h => h) (fun h => absurd h ?_) le_rfl
    rw [htask]
    exact hj

private theorem getElem?_set_cases {α : Type*} {l : List α} {a b : α} (h : (l.set i a)[j]? = some b) :
    (j = i ∧ b = a) ∨ (j ≠ i ∧ l[j]? = some b) := by
  by_cases hj : j = i
  · subst hj
    rw [List.getElem?_set_self'] at h
    obtain ⟨_, _, rfl⟩ := Option.map_eq_some_iff.mp h
    exact .inl ⟨rfl, rfl⟩
  · rw [List.getElem?_set_ne (Ne.symm hj)] at h
    exact .inr ⟨hj, h⟩

/-- The processes after one of them moved. -/
private theorem sound_set {proc : ProgressProcess} (hf : Fenced s)
    (hprocs : s'.processes = s.processes.set i proc) (hown : s'.Sound i proc)
    (hkept : ∀ j, j ≠ i → Kept s s' j) : ∀ j proc, s'.processes[j]? = some proc → s'.Sound j proc := by
  intro j proc' h
  rw [hprocs] at h
  rcases getElem?_set_cases h with ⟨rfl, rfl⟩ | ⟨hj, h⟩
  · exact hown
  · exact (hf.sound j _ h).kept (hkept j hj)

/-- The processes after a call came in. -/
private theorem sound_append {proc : ProgressProcess} (hf : Fenced s)
    (hprocs : s'.processes = s.processes ++ [proc]) (hown : ∀ j, s'.Sound j proc)
    (hkept : ∀ j, Kept s s' j) : ∀ j proc, s'.processes[j]? = some proc → s'.Sound j proc := by
  intro j proc' h
  rw [hprocs, List.getElem?_append] at h
  split at h
  · exact (hf.sound j _ h).kept (hkept j)
  · obtain ⟨_, he⟩ := List.getElem?_eq_some_iff.mp h
    rw [List.getElem_singleton] at he
    rw [← he]
    exact hown j

private theorem Stored.of_same (h : s.Stored) (ha : s'.attempts = s.attempts)
    (hc : s'.commits = s.commits) (hn : s.nextId ≤ s'.nextId) : s'.Stored := by
  have hpay (id : AttemptId) : s'.payloads id = s.payloads id := by rw [payloads, hc, payloads]
  constructor
  · rw [ha]
    exact h.ids
  · rw [ha]
    exact fun a hin => lt_of_lt_of_le (h.below a hin) hn
  · rw [ha]
    exact h.counted
  · rw [ha]
    intro a hin
    rw [hpay]
    exact h.logged a hin
  · rw [ha, hc]
    exact h.known

/-- One more report is committed for an attempt. -/
private theorem Stored.commit (h : s.Stored) {row row' : ProgressRow} (hrow : row ∈ s.attempts)
    {r : ProgressReport} {now : Time} (hm : Merged row r now (some row'))
    (ha : s'.attempts = Rows.updateWhere (fun a => a.id = row.id) (fun _ => row') s.attempts)
    (hc : s'.commits = s.commits ++ [⟨row.id, r⟩]) (hn : s'.nextId = s.nextId) : s'.Stored := by
  have hcounted := hm.counted (h.counted row hrow)
  cases hm with
  | written hid hnumber hprogress hmoved hstayed =>
    have hkeys : (s'.attempts.map fun a => a.id) = s.attempts.map fun a => a.id := by
      rw [ha]
      apply Rows.map_updateWhere
      intro a _ hsel
      rw [decide_eq_true_eq] at hsel
      rw [hid, hsel]
    have hpay (id : AttemptId) :
        s'.payloads id = if row.id = id then s.payloads id ++ [r.payload] else s.payloads id := by
      rw [payloads, hc, List.filter_append, List.map_append, ← payloads]
      split
      · rename_i he
        simp [he]
      · rename_i he
        simp [he]
    constructor
    · rw [hkeys]
      exact h.ids
    · intro a hin
      have hmem : a.id ∈ s.attempts.map fun a => a.id := hkeys ▸ List.mem_map.mpr ⟨a, hin, rfl⟩
      obtain ⟨b, hb, he⟩ := List.mem_map.mp hmem
      rw [hn, ← he]
      exact h.below b hb
    · intro a hin
      rw [ha] at hin
      obtain ⟨b, hb, rfl⟩ := Rows.mem_updateWhere.mp hin
      split
      · exact hcounted
      · exact h.counted b hb
    · intro a hin
      rw [ha] at hin
      obtain ⟨b, hb, rfl⟩ := Rows.mem_updateWhere.mp hin
      split
      · rw [hpay, if_pos hid.symm, List.foldl_append, hid, ← h.logged row hrow, hprogress]
        rfl
      · rename_i hne
        rw [decide_eq_true_eq] at hne
        rw [hpay, if_neg (Ne.symm hne)]
        exact h.logged b hb
    · intro c hin
      have hold : ∃ a ∈ s.attempts, a.id = c.attempt := by
        rw [hc] at hin
        rcases List.mem_append.mp hin with hin | hin
        · exact h.known c hin
        · exact ⟨row, hrow, by rw [List.mem_singleton.mp hin]⟩
      obtain ⟨a, hin, he⟩ := hold
      have hmem : a.id ∈ s'.attempts.map fun a => a.id := hkeys ▸ List.mem_map.mpr ⟨a, hin, rfl⟩
      obtain ⟨b, hb, hbe⟩ := List.mem_map.mp hmem
      exact ⟨b, hb, hbe.trans he⟩

/-- One more attempt is there, with nothing reported. -/
private theorem Stored.insert (h : s.Stored) {row : ProgressRow} (hfresh : ∀ a ∈ s.attempts, a.id ≠ row.id)
    (hempty : row.progress = none) (hnext : row.id < s.nextId) (ha : s'.attempts = s.attempts ++ [row])
    (hc : s'.commits = s.commits) (hn : s'.nextId = s.nextId) : s'.Stored := by
  have hpay (id : AttemptId) : s'.payloads id = s.payloads id := by rw [payloads, hc, payloads]
  have hcase : ∀ a ∈ s'.attempts, a ∈ s.attempts ∨ a = row := by
    intro a hin
    rw [ha] at hin
    rcases List.mem_append.mp hin with hin | hin
    · exact .inl hin
    · exact .inr (List.mem_singleton.mp hin)
  constructor
  · rw [ha, List.map_append, List.nodup_append]
    refine ⟨h.ids, List.nodup_singleton _, ?_⟩
    intro id hid id' hid' he
    obtain ⟨a, hin, rfl⟩ := List.mem_map.mp hid
    rw [List.map_singleton, List.mem_singleton] at hid'
    exact hfresh a hin (he.trans hid')
  · intro a hin
    rw [hn]
    rcases hcase a hin with hin | rfl
    · exact h.below a hin
    · exact hnext
  · intro a hin
    rcases hcase a hin with hin | rfl
    · exact h.counted a hin
    · intro key _ j hj
      rw [held, hempty] at hj
      cases hj
  · intro a hin
    rw [hpay]
    rcases hcase a hin with hin | rfl
    · exact h.logged a hin
    · have hnone : s.payloads a.id = [] := by
        rw [payloads, List.map_eq_nil_iff, List.filter_eq_nil_iff]
        intro c hcin he
        obtain ⟨b, hb, hbe⟩ := h.known c hcin
        rw [decide_eq_true_eq] at he
        exact hfresh b hb (hbe.trans he)
      rw [hempty, hnone]
      rfl
  · intro c hin
    rw [hc] at hin
    obtain ⟨a, hin, he⟩ := h.known c hin
    exact ⟨a, ha ▸ List.mem_append_left _ hin, he⟩

private theorem progressUpdate_merged {postgres : Bool} {row : ProgressRow} (hc : row.Counted) :
    Merged row p.report p.now (progressUpdate postgres row p) := by
  unfold progressUpdate
  split
  · exact pgProgressUpdate_merged
  · rw [lockedProgressUpdate_eq hc]
    exact pgProgressUpdate_merged

private theorem merged_row {row row' : ProgressRow} {r : ProgressReport} {now : Time}
    (h : Merged row r now (some row')) : row'.id = row.id ∧ row'.attemptNumber = row.attemptNumber := by
  cases h with
  | written hid hnumber hprogress hmoved hstayed => exact ⟨hid, hnumber⟩

/-- A report's attempt is in the table at every phase. -/
private theorem Sound.attempt (h : s.Sound i (.report p)) :
    ∃ row, s.attempt? p.attempt = some row ∧ row.attemptNumber = p.attemptNumber := by
  have hin : ∀ {row'}, row'.attemptNumber = p.attemptNumber → s.Holding i p row' →
      ∃ row, s.attempt? p.attempt = some row ∧ row.attemptNumber = p.attemptNumber := by
    intro row' hnumber hold
    obtain ⟨row, hrow, hm⟩ := hold.merged
    exact ⟨row, hrow, (merged_row hm).2.symm.trans hnumber⟩
  cases h with
  | waiting hidle hrow => exact hrow
  | merged hphase hnumber hold => exact hin hnumber hold
  | locked hphase hnumber hold htask => exact hin hnumber hold
  | snapshotted hphase hnumber hold htask hlatest => exact hin hnumber hold

theorem Fenced.step (hf : Fenced s) (hm : Moved s e s') : Fenced s' := by
  have hkept {j : Nat} (hj : actor e ≠ some j) : Kept s s' j := hm.kept hf hj
  have hother {i j : Nat} (hi : actor e = some i) (hj : j ≠ i) : Kept s s' j := by
    apply hkept
    rw [hi]
    exact fun he => hj (Option.some.inj he).symm
  cases hm with
  | called hrow =>
    refine ⟨hf.stored.of_same rfl rfl le_rfl, sound_append hf rfl ?_ fun j => hkept (Option.some_ne_none j).symm⟩
    exact fun j => .waiting (.inl rfl) ⟨_, hrow, rfl⟩
  | @skipped i postgres p row hp hrow hno =>
    refine ⟨hf.stored.of_same rfl rfl le_rfl, sound_set hf rfl ?_ fun j hj => hother rfl hj⟩
    obtain ⟨row, hrow, hnumber⟩ := (hf.sound i _ hp).attempt
    exact .waiting (.inr (.inr ⟨_, rfl⟩)) ⟨row, hrow, hnumber⟩
  | @merged i postgres p row row' hp hlock hrow hmerge =>
    refine ⟨hf.stored.of_same rfl rfl le_rfl, sound_set hf rfl ?_ fun j hj => hother rfl hj⟩
    have hmerged : Merged row p.report p.now (some row') := by
      rw [← hmerge]
      exact progressUpdate_merged (hf.stored.counted row (attempt?_id hrow).1)
    obtain ⟨row₁, hrow₁, hnumber⟩ := (hf.sound i _ hp).attempt
    rw [hrow] at hrow₁
    cases hrow₁
    refine .merged rfl ((merged_row hmerged).2.trans hnumber) ⟨?_, row, hrow, hmerged⟩
    exact Function.update_self ..
  | @lockedTask i p row' hp hphase hlock =>
    refine ⟨hf.stored.of_same rfl rfl le_rfl, sound_set hf rfl ?_ fun j hj => hother rfl hj⟩
    obtain ⟨hold, hnumber⟩ := (hf.sound i _ hp).holding (.inl hphase)
    exact .locked rfl hnumber ⟨hold.lock, hold.merged⟩ rfl
  | @snapshotted i p row' hp hphase =>
    refine ⟨hf.stored.of_same rfl rfl le_rfl, sound_set hf rfl ?_ fun j hj => hother rfl hj⟩
    obtain ⟨hold, hnumber⟩ := (hf.sound i _ hp).holding (.inr (.inl hphase))
    have htask : s.taskLock = some i := by
      cases hf.sound i _ hp with
      | locked hphase' hnumber hold htask => exact htask
      | waiting hidle hrow =>
        rcases hidle with hidle | hidle | ⟨_, hidle⟩ <;> rw [hphase] at hidle <;> cases hidle
      | merged hphase' hnumber hold =>
        rw [hphase] at hphase'
        cases hphase'
      | snapshotted hphase' hnumber hold htask hlatest => exact htask
    refine .snapshotted rfl hnumber ⟨hold.lock, hold.merged⟩ htask ?_
    intro d hd
    split at hd
    · cases hd
    · rename_i hnewer
      cases hd
      refine ⟨rfl, fun a ha => le_of_not_gt fun hlt => hnewer ?_⟩
      exact List.any_eq_true.mpr ⟨a, ha, decide_eq_true hlt⟩
  | @committed i p row' snapshot hp hphase =>
    obtain ⟨hold, hnumber⟩ := (hf.sound i _ hp).holding (.inr (.inr ⟨_, hphase⟩))
    obtain ⟨row, hrow, hmerged⟩ := hold.merged
    obtain ⟨hin, hid⟩ := attempt?_id hrow
    refine ⟨hf.stored.commit hin hmerged ?_ ?_ rfl, sound_set hf rfl ?_ fun j hj => hother rfl hj⟩
    · rw [hid]
      rfl
    · rw [hid]
      rfl
    · have hafter := attempt?_replaced s.attempts row' p.attempt
      rw [(merged_row hmerged).1, hid] at hafter
      exact .waiting (.inr (.inr ⟨_, rfl⟩)) ⟨_, hafter.trans (congrArg _ hrow), by
        dsimp only
        rw [if_pos hid, hnumber]⟩
  | @rolledBack i p hp hphase =>
    refine ⟨hf.stored.of_same rfl rfl le_rfl, sound_set hf rfl ?_ fun j hj => hother rfl hj⟩
    exact .waiting (.inr (.inl rfl)) (hf.sound i _ hp).attempt
  | scheduled =>
    refine ⟨hf.stored.of_same rfl rfl le_rfl, sound_append hf rfl ?_ fun j => hkept (Option.some_ne_none j).symm⟩
    exact fun j => .scheduling (.inl rfl)
  | scheduleLocked hp hlock =>
    refine ⟨hf.stored.of_same rfl rfl le_rfl, sound_set hf rfl ?_ fun j hj => hother rfl hj⟩
    exact .scheduleLocked rfl
  | @scheduleInserted i number hp =>
    refine ⟨hf.stored.of_same rfl rfl (Nat.le_succ _), sound_set hf rfl ?_ fun j hj => hother rfl hj⟩
    have htask := (hf.sound i _ hp).schedule_taskLock (.inl rfl)
    exact .inserted htask (Nat.lt_succ_self _) (fun a ha => (hf.stored.below a ha).ne) rfl
  | @scheduleCommitted i number row hp =>
    cases hf.sound i _ hp with
    | scheduling hidle => rcases hidle with h | h | h <;> cases h
    | inserted htask hnext hfresh hempty =>
      refine ⟨hf.stored.insert hfresh hempty hnext rfl rfl rfl, sound_set hf rfl ?_ fun j hj => hother rfl hj⟩
      exact .scheduling (.inr (.inl rfl))
  | scheduleRolledBack hp hphase =>
    refine ⟨hf.stored.of_same rfl rfl le_rfl, sound_set hf rfl ?_ fun j hj => hother rfl hj⟩
    exact .scheduling (.inr (.inr rfl))

theorem fenced_of_reach (h : progressSystem.Reach s) : Fenced s := by
  refine StepSystem.ReachWhen.invariant Fenced ?_ ?_ h
  · rintro s rfl
    refine ⟨⟨by simp, ?_, ?_, ?_, ?_⟩, ?_⟩
    · intro a ha
      rw [List.mem_singleton.mp ha]
      exact Nat.zero_lt_one
    · intro a ha key _ j hj
      rw [List.mem_singleton.mp ha] at hj
      cases hj
    · intro a ha
      rw [List.mem_singleton.mp ha]
      rfl
    · intro c hc
      cases hc
    · intro j proc hp
      cases hp
  · intro s e s' hf _ hs
    exact hf.step (step_moved hs)

end Steps

def Commits (s : Progressing) (e : ProgressEvent) (p : Reporting) : Prop :=
  ∃ i, e = .commit i ∧ s.processes[i]? = some (.report p)

/-- What the last report of a key says of it is what the row holds. -/
private theorem Stored.held (hs : s.Stored) {row : ProgressRow} (hrow : row ∈ s.attempts)
    {l₁ l₂ : List CommittedReport} {c : CommittedReport} (hc : s.commits = l₁ ++ c :: l₂)
    (hattempt : c.attempt = row.id) {key : String} {v : Json}
    (hkey : Dict.get? c.report.payload key = some v)
    (hlast : ∀ c' ∈ l₂, c'.attempt = row.id → Dict.get? c'.report.payload key = none) :
    row.held key = some v := by
  let earlier := (l₁.filter fun c => c.attempt = row.id).map fun c => c.report.payload
  let later := (l₂.filter fun c => c.attempt = row.id).map fun c => c.report.payload
  have hpay : s.payloads row.id = earlier ++ c.report.payload :: later := by
    rw [payloads, hc, List.filter_append, List.filter_cons_of_pos (by simp [hattempt]), List.map_append,
      List.map_cons]
  have hlater : ∀ e ∈ later, (e.map Prod.fst).Nodup ∧ Dict.get? e key = none := by
    intro e he
    obtain ⟨c', hin, rfl⟩ := List.mem_map.mp he
    obtain ⟨hin, hsame⟩ := List.mem_filter.mp hin
    exact ⟨c'.report.payload_nodup, hlast c' hin (by simpa using hsame)⟩
  calc row.held key = Dict.get? ((s.payloads row.id).foldl Dict.update []) key := by
        rw [ProgressRow.held, hs.logged row hrow]
    _ = Dict.get? (Dict.update (earlier.foldl Dict.update []) c.report.payload) key := by
        rw [hpay, List.foldl_append, List.foldl_cons, Dict.get?_foldl_update fun e he => (hlater e he).1]
        exact fun e he => (hlater e he).2
    _ = some v := by
        rw [Dict.get?_update c.report.payload_nodup, hkey, Option.some_or]

/-- A row changes when a report of its attempt commits, and is then the row it merged into. -/
private theorem Fenced.row_step (hf : Fenced s) (hm : Moved s e s') {row : ProgressRow}
    (hrow : row ∈ s.attempts) : ∃ row' ∈ s'.attempts, row'.id = row.id ∧
      ((∀ p, s.Commits e p → p.attempt ≠ row.id) → row' = row) ∧
      ∀ p, s.Commits e p → p.attempt = row.id → Merged row p.report p.now (some row') := by
  have hsame (hin : row ∈ s'.attempts) (hno : ∀ i, e ≠ .commit i) : ∃ row' ∈ s'.attempts,
      row'.id = row.id ∧ ((∀ p, s.Commits e p → p.attempt ≠ row.id) → row' = row) ∧
      ∀ p, s.Commits e p → p.attempt = row.id → Merged row p.report p.now (some row') :=
    ⟨row, hin, rfl, fun _ => rfl, fun _ ⟨i, he, _⟩ => absurd he (hno i)⟩
  cases hm with
  | called hrow' => exact hsame hrow fun _ => ProgressEvent.noConfusion
  | skipped hp hrow' hno => exact hsame hrow fun _ => ProgressEvent.noConfusion
  | merged hp hlock hrow' hmerge => exact hsame hrow fun _ => ProgressEvent.noConfusion
  | lockedTask hp hphase hlock => exact hsame hrow fun _ => ProgressEvent.noConfusion
  | snapshotted hp hphase => exact hsame hrow fun _ => ProgressEvent.noConfusion
  | @committed i p row' snapshot hp hphase =>
    obtain ⟨hold, -⟩ := (hf.sound i _ hp).holding (.inr (.inr ⟨_, hphase⟩))
    obtain ⟨row₀, hrow₀, hmerged⟩ := hold.merged
    obtain ⟨hin₀, hid₀⟩ := attempt?_id hrow₀
    have hproc : ∀ q, s.Commits (.commit i) q → q = p := by
      rintro q ⟨k, he, hq⟩
      cases he
      rw [hp] at hq
      cases hq
      rfl
    have hmem := Rows.mem_updateWhere_of_mem (p := fun a : ProgressRow => a.id = p.attempt)
      (f := fun _ => row') hrow
    refine ⟨_, hmem, ?_, ?_, ?_⟩
    · split
      · rename_i he
        rw [decide_eq_true_eq] at he
        rw [(merged_row hmerged).1, hid₀, he]
      · rfl
    · intro hno
      have hne := hno p ⟨i, rfl, hp⟩
      rw [if_neg]
      rw [decide_eq_true_eq]
      exact fun he => hne he.symm
    · intro q hq he
      rw [hproc q hq] at he ⊢
      have hrows : row₀ = row := Rows.eq_of_key_eq hf.stored.ids hin₀ hrow (hid₀.trans he)
      rw [if_pos (decide_eq_true he.symm), ← hrows]
      exact hmerged
  | rolledBack hp hphase => exact hsame hrow fun _ => ProgressEvent.noConfusion
  | scheduled => exact hsame hrow fun _ => ProgressEvent.noConfusion
  | scheduleLocked hp hlock => exact hsame hrow fun _ => ProgressEvent.noConfusion
  | scheduleInserted hp => exact hsame hrow fun _ => ProgressEvent.noConfusion
  | scheduleCommitted hp => exact hsame (List.mem_append_left _ hrow) fun _ => ProgressEvent.noConfusion
  | scheduleRolledBack hp hphase => exact hsame hrow fun _ => ProgressEvent.noConfusion

/-- The task's snapshot is written by a commit of the latest attempt, and holds what its row does. -/
private theorem Fenced.snapshot_step (hf : Fenced s) (hm : Moved s e s') :
    s'.snapshot = s.snapshot ∨ ∃ p row', s.Commits e p ∧ s'.attempt? p.attempt = some row' ∧
      s'.snapshot = some (snapshotOf p row') ∧ ∀ a ∈ s'.attempts, a.attemptNumber ≤ row'.attemptNumber := by
  cases hm with
  | called hrow => exact .inl rfl
  | skipped hp hrow hno => exact .inl rfl
  | merged hp hlock hrow hmerge => exact .inl rfl
  | lockedTask hp hphase hlock => exact .inl rfl
  | snapshotted hp hphase => exact .inl rfl
  | @committed i p row' snapshot hp hphase =>
    have hsound := hf.sound i _ hp
    obtain ⟨hold, hnumber⟩ := hsound.holding (.inr (.inr ⟨_, hphase⟩))
    obtain ⟨row, hrow, hmerged⟩ := hold.merged
    obtain ⟨hin, hid⟩ := attempt?_id hrow
    cases snapshot with
    | none => exact .inl rfl
    | some d =>
      have hlatest : d = snapshotOf p row' ∧ ∀ a ∈ s.attempts, a.attemptNumber ≤ p.attemptNumber := by
        cases hsound with
        | snapshotted hphase' hnumber' hold' htask hlatest =>
          rw [hphase] at hphase'
          cases hphase'
          exact hlatest d rfl
        | waiting hidle hrow =>
          rcases hidle with hidle | hidle | ⟨_, hidle⟩ <;> rw [hphase] at hidle <;> cases hidle
        | merged hphase' hnumber' hold' =>
          rw [hphase] at hphase'
          cases hphase'
        | locked hphase' hnumber' hold' htask =>
          rw [hphase] at hphase'
          cases hphase'
      refine .inr ⟨p, row', ⟨i, rfl, hp⟩, ?_, ?_, ?_⟩
      · have hafter := attempt?_replaced s.attempts row' p.attempt
        rw [(merged_row hmerged).1, hid] at hafter
        refine (hafter.trans (congrArg _ hrow)).trans ?_
        rw [Option.map_some, if_pos hid]
      · rw [hlatest.1]
        rfl
      · intro a ha
        obtain ⟨b, hb, rfl⟩ := Rows.mem_updateWhere.mp ha
        rw [hnumber]
        split
        · exact hnumber.le
        · exact hlatest.2 b hb
  | rolledBack hp hphase => exact .inl rfl
  | scheduled => exact .inl rfl
  | scheduleLocked hp hlock => exact .inl rfl
  | scheduleInserted hp => exact .inl rfl
  | scheduleCommitted hp => exact .inl rfl
  | scheduleRolledBack hp hphase => exact .inl rfl

/-- A merge that returns `False` left out nothing that advances. -/
private theorem Fenced.coalesced (hf : Fenced s) {i : Nat} {postgres : Bool} {p : Reporting}
    {row : ProgressRow} (hp : s.processes[i]? = some (.report p)) (hrow : s.attempt? p.attempt = some row)
    (hm : Moved s (.merge i postgres) s')
    (hreturned : s'.processes[i]? = some (.report { p with phase := .returned false })) :
    ¬ row.Advances p.report := by
  cases hm with
  | skipped hp' hrow' hno =>
    rw [hp] at hp'
    cases hp'
    rw [hrow] at hrow'
    cases hrow'
    have hmerged : Merged row p.report p.now none := by
      rw [← hno]
      exact progressUpdate_merged (hf.stored.counted row (attempt?_id hrow).1)
    cases hmerged with
    | coalesced h => exact h
  | merged hp' hlock hrow' hmerge =>
    obtain ⟨hi, -⟩ := List.getElem?_eq_some_iff.mp hp
    rw [setReport, setProcess, List.getElem?_set_self hi] at hreturned
    rw [hp] at hp'
    cases hp'
    cases hreturned

/-- What a report wrote under a key stays until a later report of the attempt writes that key; an
attempt's row changes by the commits of its own reports, each exactly as merged into what the row holds
then, with `progress_advanced_at` moved if and only if a count differs; a report that is skipped has none
that differs; and the task's snapshot changes only in a commit of the attempt with the highest number. -/
theorem progress_kept (h : progressSystem.Reach s) :
    (∀ row ∈ s.attempts, ∀ l₁ c l₂, s.commits = l₁ ++ c :: l₂ → c.attempt = row.id →
      ∀ key v, Dict.get? c.report.payload key = some v →
        (∀ c' ∈ l₂, c'.attempt = row.id → Dict.get? c'.report.payload key = none) →
          row.held key = some v) ∧
    ∀ e s', progressSystem.step s e = some s' →
      (∀ row ∈ s.attempts, ∃ row' ∈ s'.attempts, row'.id = row.id ∧
        ((∀ p, s.Commits e p → p.attempt ≠ row.id) → row' = row) ∧
        ∀ p, s.Commits e p → p.attempt = row.id → Merged row p.report p.now (some row')) ∧
      (∀ p, s.Commits e p → s'.commits = s.commits ++ [⟨p.attempt, p.report⟩]) ∧
      (∀ i postgres p row, e = .merge i postgres → s.processes[i]? = some (.report p) →
        s.attempt? p.attempt = some row →
          s'.processes[i]? = some (.report { p with phase := .returned false }) →
            ¬ row.Advances p.report) ∧
      (s'.snapshot = s.snapshot ∨ ∃ p row', s.Commits e p ∧ s'.attempt? p.attempt = some row' ∧
        s'.snapshot = some (snapshotOf p row') ∧
        ∀ a ∈ s'.attempts, a.attemptNumber ≤ row'.attemptNumber) := by
  have hf := fenced_of_reach h
  refine ⟨fun row hrow l₁ c l₂ hc ha key v hkey hlast => hf.stored.held hrow hc ha hkey hlast, ?_⟩
  intro e s' hs
  have hm := step_moved hs
  refine ⟨fun row hrow => hf.row_step hm hrow, ?_, ?_, hf.snapshot_step hm⟩
  · rintro p ⟨i, rfl, hp⟩
    cases hm with
    | committed hp' hphase =>
      rw [hp] at hp'
      cases hp'
      rfl
  · rintro i postgres p row rfl hp hrow hreturned
    exact hf.coalesced hp hrow hm hreturned

/-- Two reports of the first attempt with different keys, and one of the second beside a late one of the
first. -/
private def twoAttempts : List ProgressEvent :=
  let counted : ProgressReport := { current := some 1, extra_nodup := by simp, extra_named := by simp }
  let said : ProgressReport := { message := some "half", extra_nodup := by simp, extra_named := by simp }
  [.report 0 counted 5 0, .report 0 said 6 0, .merge 0 false, .lockTask 0, .snapshot 0, .commit 0,
    .merge 1 true, .schedule 2, .scheduleLock 2, .scheduleInsert 2, .scheduleCommit 2, .lockTask 1,
    .snapshot 1, .commit 1, .report 1 said 7 0, .merge 3 true, .lockTask 3, .snapshot 3]

theorem progress_kept_twoAttempts : ∃ s, progressSystem.Reach s ∧ s.attempts.length = 2 ∧
    s.commits.length = 2 ∧ (progressSystem.step s (.commit 3)).isSome = true ∧
    ∀ e s', progressSystem.step s e = some s' → s'.snapshot = s.snapshot ∨ ∃ p row', s.Commits e p ∧
      s'.attempt? p.attempt = some row' ∧ s'.snapshot = some (snapshotOf p row') ∧
      ∀ a ∈ s'.attempts, a.attemptNumber ≤ row'.attemptNumber := by
  obtain ⟨s, hs, htest⟩ := StepSystem.exists_reach_of_run progressSystem twoAttempts (.init rfl)
    (fun s => decide (s.attempts.length = 2 ∧ s.commits.length = 2 ∧
      (progressSystem.step s (.commit 3)).isSome = true)) (by decide)
  obtain ⟨hattempts, hcommits, hcommit⟩ := of_decide_eq_true htest
  exact ⟨s, hs, hattempts, hcommits, hcommit, fun e s' he => ((progress_kept hs).2 e s' he).2.2.2⟩

end Progressing
end Qraft
