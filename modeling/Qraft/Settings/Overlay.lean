import Qraft.Foundations.Rekeyed
import Qraft.Models.Values

/-! `_merge_alt_cluster` and `DjangoSettingsSource`: the settings a cluster runs under, out of the base
entries of `QRAFT_CLUSTER` and `Q_CLUSTER` and its own entry of `ALT_CLUSTERS`. -/
namespace Qraft

inductive Setting where
  | none
  | bool (b : Bool)
  | int (n : ℤ)
  | float (q : ℚ)
  | str (s : String)
  | list (xs : List Setting)
  | dict (entries : List (String × Setting))

abbrev SettingsDict := List (String × Setting)

namespace Setting

def truthy : Setting → Bool
  | .none => false
  | .bool b => b
  | .int n => n ≠ 0
  | .float q => q ≠ 0
  | .str s => s ≠ ""
  | .list xs => !xs.isEmpty
  | .dict entries => !entries.isEmpty

/-- `value if isinstance(value, dict) else {}`. -/
def asDict : Setting → SettingsDict
  | .dict entries => entries
  | _ => []

end Setting

def notInheritedByAltClusters : SettingsDict := [("metrics_gauges", .bool false)]

/-- The `ALT_CLUSTERS` entry of a cluster, when it is a dictionary. -/
def altConf? (config : SettingsDict) (clusterName : Option String) : Option SettingsDict :=
  match clusterName, Dict.get? config "ALT_CLUSTERS" with
  | some name, some (.dict altClusters) =>
    if name = "" then none
    else
      match Dict.get? altClusters name with
      | some (.dict altConf) => some altConf
      | _ => none
  | _, _ => none

section
variable (lower : String → String)

/-- A key that the entry does not declare, in whatever case, falls back to its stated default. -/
def dropInherited (altConf merged : SettingsDict) (item : String × Setting) : SettingsDict :=
  let declared := altConf.map fun entry => lower entry.1
  if item.1 ∈ declared then merged
  else Dict.set (merged.filter fun entry => lower entry.1 ≠ item.1) item.1 item.2

def mergeAltCluster (config : SettingsDict) (clusterName : Option String) : SettingsDict :=
  let merged := config.filter fun entry => entry.1 ≠ "ALT_CLUSTERS"
  match altConf? config clusterName with
  | some altConf => Dict.update (notInheritedByAltClusters.foldl (dropInherited lower altConf) merged) altConf
  | none => merged

def inheritedSaveLimit (qCluster : Setting) (clusterName : Option String) : Option ℤ :=
  match Dict.get? (mergeAltCluster lower qCluster.asDict clusterName) "save_limit" with
  | some (.int saveLimit) => if 0 < saveLimit then some saveLimit else none
  | _ => none

/-- `DjangoSettingsSource.__call__`. -/
def djangoSettings (qraftCluster qCluster : Setting) (clusterName : Option String) : SettingsDict :=
  let data := Dict.rekey lower (mergeAltCluster lower qraftCluster.asDict clusterName)
  if (Dict.get? data "retention_days").isNone && (Dict.get? data "retention_max_tasks").isNone then
    match inheritedSaveLimit lower qCluster clusterName with
    | some inherited =>
      Dict.set (Dict.set data "retention_max_tasks" (.int inherited)) "retention_inherited_from_save_limit"
        (.bool true)
    | none => data
  else data

/-- What the settings say of a key for a cluster: its own entry first, then the default of what is not
inherited, then the base entry. -/
def stated (config : SettingsDict) (clusterName : Option String) (key : String) : Option Setting :=
  let base := config.filter fun entry => entry.1 ≠ "ALT_CLUSTERS"
  match altConf? config clusterName with
  | some altConf =>
    ((Dict.get? (Dict.rekey lower altConf) key).or (Dict.get? notInheritedByAltClusters key)).or
      (Dict.get? (Dict.rekey lower base) key)
  | none => Dict.get? (Dict.rekey lower base) key

variable {lower} {config : SettingsDict} {clusterName : Option String}

theorem unambiguous_filter {p : String × Setting → Bool} (h : Dict.Unambiguous lower config) :
    Dict.Unambiguous lower (config.filter p) :=
  h.sublist (List.filter_sublist.map _)

theorem spelled_dropInherited {altConf merged : SettingsDict} {item : String × Setting}
    (hm : ∀ m, (Dict.spelled lower m merged).length ≤ 1) (hl : lower item.1 = item.1) (m : String) :
    (Dict.spelled lower m (dropInherited lower altConf merged item)).length ≤ 1 ∧
    Dict.get? (Dict.rekey lower (dropInherited lower altConf merged item)) m =
      if m = item.1 ∧ item.1 ∉ altConf.map (fun entry => lower entry.1) then some item.2
      else Dict.get? (Dict.rekey lower merged) m := by
  unfold dropInherited
  dsimp only
  split
  · rename_i hin
    rw [if_neg fun h => h.2 hin]
    exact ⟨hm m, rfl⟩
  · rename_i hnot
    have hkept (m : String) : Dict.spelled lower m (merged.filter fun entry => lower entry.1 ≠ item.1) =
        if m = item.1 then [] else Dict.spelled lower m merged := by
      rw [Dict.spelled, List.filter_filter]
      split
      · rename_i hmi
        apply List.filter_eq_nil_iff.mpr
        intro entry _
        simp [hmi]
      · rename_i hmi
        apply List.filter_congr
        intro entry _
        by_cases he : lower entry.1 = m
        · simp [he, hmi]
        · simp [he]
    have hone : (Dict.spelled lower (lower item.1) (merged.filter fun entry => lower entry.1 ≠ item.1)).length ≤ 1 := by
      rw [hkept, if_pos hl]
      exact Nat.zero_le 1
    constructor
    · by_cases hmi : lower item.1 = m
      · rw [Dict.spelled_set_self lower hmi, hkept, if_pos (hmi ▸ hl)]
        exact Nat.le_refl 1
      · rw [Dict.spelled_set_ne lower hmi, hkept, if_neg fun h => hmi (hl.trans h.symm)]
        exact hm m
    · rw [Dict.get?_rekey_set lower hone]
      by_cases hmi : m = item.1
      · rw [if_pos (hl.trans hmi.symm), if_pos ⟨hmi, hnot⟩]
      · rw [if_neg fun h => hmi (h.symm.trans hl), if_neg fun h => hmi h.1, Dict.get?_rekey, hkept, if_neg hmi,
          ← Dict.get?_rekey]

/-- The merged settings read as stated, whatever the case of the keys. -/
theorem get?_rekey_merge (hl : lower "metrics_gauges" = "metrics_gauges") (hb : Dict.Unambiguous lower config)
    (ha : ∀ altConf, altConf? config clusterName = some altConf → Dict.Unambiguous lower altConf) (key : String) :
    Dict.get? (Dict.rekey lower (mergeAltCluster lower config clusterName)) key = stated lower config clusterName key := by
  unfold mergeAltCluster stated
  cases halt : altConf? config clusterName with
  | none => rfl
  | some altConf =>
    have hbase := Dict.spelled_length lower
      (unambiguous_filter (p := fun entry => entry.1 ≠ "ALT_CLUSTERS") hb)
    have hdrop := @spelled_dropInherited lower altConf _ ("metrics_gauges", .bool false) hbase hl
    dsimp only
    rw [notInheritedByAltClusters, List.foldl_cons, List.foldl_nil,
      Dict.get?_rekey_update lower (fun m => (hdrop m).1) (ha altConf halt), (hdrop key).2]
    by_cases hkey : key = "metrics_gauges"
    · subst hkey
      by_cases hdecl : "metrics_gauges" ∈ altConf.map fun entry => lower entry.1
      · have hsome : Dict.get? (Dict.rekey lower altConf) "metrics_gauges" ≠ none := by
          rw [Dict.get?_rekey]
          intro hnone
          have hnil := List.getLast?_eq_none_iff.mp (Option.map_eq_none_iff.mp hnone)
          exact (Dict.spelled_eq_nil lower).mp hnil hdecl
        obtain ⟨own, hown⟩ := Option.ne_none_iff_exists'.mp hsome
        rw [hown]
        rfl
      · rw [if_pos ⟨rfl, hdecl⟩]
        cases Dict.get? (Dict.rekey lower altConf) "metrics_gauges" with
        | none => rfl
        | some own => rfl
    · have hno : Dict.get? [("metrics_gauges", Setting.bool false)] key = none := by
        rw [Dict.get?, if_neg (Ne.symm hkey)]
        rfl
      rw [if_neg fun h => hkey h.1, hno, Option.or_none]

/-- A key that is inherited is read from the entry of the cluster, or else from the base. -/
theorem get?_merge {key : String} (hl : lower key ≠ "metrics_gauges") (hkey : key ≠ "ALT_CLUSTERS")
    (hb : (config.map Prod.fst).Nodup)
    (ha : ∀ altConf, altConf? config clusterName = some altConf → (altConf.map Prod.fst).Nodup)
    (hm : lower "metrics_gauges" = "metrics_gauges") :
    Dict.get? (mergeAltCluster lower config clusterName) key =
      ((altConf? config clusterName).bind fun altConf => Dict.get? altConf key).or (Dict.get? config key) := by
  have hne : "metrics_gauges" ≠ key := fun he => hl (he ▸ hm)
  have hbase : Dict.get? (config.filter fun entry => entry.1 ≠ "ALT_CLUSTERS") key = Dict.get? config key := by
    rw [Dict.get?_filter hb]
    cases Dict.get? config key with
    | none => rfl
    | some v => simp [Option.filter, hkey]
  unfold mergeAltCluster
  cases halt : altConf? config clusterName with
  | none => exact hbase
  | some altConf =>
    dsimp only [Option.bind_some]
    rw [Dict.get?_update (ha altConf halt), notInheritedByAltClusters, List.foldl_cons, List.foldl_nil, dropInherited]
    congr 1
    dsimp only
    split
    · exact hbase
    · rw [Dict.get?_set_ne _ _ hne.symm, Dict.get?_filter (Dict.nodup_filter hb _), hbase]
      cases Dict.get? config key with
      | none => rfl
      | some v => simp [Option.filter, hl]

/-- A cluster runs under what its own entry states, in whatever case, else under the default of a setting
that is not inherited, else under the base entry; a bound on history that is stated nowhere is taken
from the `save_limit` that the cluster runs under, and marked so. -/
theorem effective_settings {qraftCluster qCluster : Setting} (hm : lower "metrics_gauges" = "metrics_gauges")
    (hs : lower "save_limit" = "save_limit") (hb : Dict.Unambiguous lower qraftCluster.asDict)
    (ha : ∀ altConf, altConf? qraftCluster.asDict clusterName = some altConf → Dict.Unambiguous lower altConf)
    (hqb : (qCluster.asDict.map Prod.fst).Nodup)
    (hqa : ∀ altConf, altConf? qCluster.asDict clusterName = some altConf → (altConf.map Prod.fst).Nodup) :
    let reads := stated lower qraftCluster.asDict clusterName
    let limit := ((altConf? qCluster.asDict clusterName).bind fun altConf => Dict.get? altConf "save_limit").or
      (Dict.get? qCluster.asDict "save_limit")
    let unbounded := reads "retention_days" = none ∧ reads "retention_max_tasks" = none
    let data := djangoSettings lower qraftCluster qCluster clusterName
    (∀ key, key ≠ "retention_max_tasks" → key ≠ "retention_inherited_from_save_limit" →
      Dict.get? data key = reads key) ∧
    (∀ n : ℤ, unbounded → limit = some (.int n) → 0 < n →
      Dict.get? data "retention_max_tasks" = some (.int n) ∧
      Dict.get? data "retention_inherited_from_save_limit" = some (.bool true)) ∧
    ((unbounded → ∀ n : ℤ, limit = some (.int n) → n ≤ 0) → ∀ key, Dict.get? data key = reads key) := by
  intro reads limit unbounded data
  have hreads (key : String) :
      Dict.get? (Dict.rekey lower (mergeAltCluster lower qraftCluster.asDict clusterName)) key = reads key :=
    get?_rekey_merge hm hb ha key
  have hlimit : Dict.get? (mergeAltCluster lower qCluster.asDict clusterName) "save_limit" = limit :=
    get?_merge (by rw [hs]; decide) (by decide) hqb hqa hm
  have hdata : data = if unbounded then
      match inheritedSaveLimit lower qCluster clusterName with
      | some inherited =>
        Dict.set (Dict.set (Dict.rekey lower (mergeAltCluster lower qraftCluster.asDict clusterName))
          "retention_max_tasks" (.int inherited)) "retention_inherited_from_save_limit" (.bool true)
      | none => Dict.rekey lower (mergeAltCluster lower qraftCluster.asDict clusterName)
      else Dict.rekey lower (mergeAltCluster lower qraftCluster.asDict clusterName) := by
    simp only [data, djangoSettings, hreads, Bool.and_eq_true, Option.isNone_iff_eq_none, unbounded]
  refine ⟨fun key hmax hflag => ?_, fun n hun hn hpos => ?_, fun hno key => ?_⟩
  · rw [hdata]
    split
    · split
      · rw [Dict.get?_set_ne _ _ hflag, Dict.get?_set_ne _ _ hmax]
        exact hreads key
      · exact hreads key
    · exact hreads key
  · have hinherit : inheritedSaveLimit lower qCluster clusterName = some n := by
      rw [inheritedSaveLimit, hlimit, hn]
      exact if_pos hpos
    rw [hdata, if_pos hun, hinherit]
    dsimp only
    rw [Dict.get?_set_ne _ _ (by decide), Dict.get?_set_self, Dict.get?_set_self]
    exact ⟨rfl, rfl⟩
  · rw [hdata]
    split
    · rename_i hun
      split
      · rename_i inherited hinherit
        obtain ⟨found, hfound⟩ : ∃ found, found = limit := ⟨_, rfl⟩
        rw [inheritedSaveLimit, hlimit, ← hfound] at hinherit
        split at hinherit
        · rename_i n
          rw [if_neg (Int.not_lt.mpr (hno hun n hfound.symm))] at hinherit
          cases hinherit
        · cases hinherit
      · exact hreads key
    · exact hreads key

end

/-- A project whose default cluster reports the gauges, and a cluster with one thread beside it. -/
def mixedCluster : Setting := .dict [("METRICS_GAUGES", .bool true), ("threads", .int 4),
  ("ALT_CLUSTERS", .dict [("slow", .dict [("Threads", .int 1)])])]

def limitedCluster : Setting := .dict [("save_limit", .int 250), ("ALT_CLUSTERS", .dict [("slow", .dict [])])]

theorem effective_settings_slow :
    let data := djangoSettings String.toLower mixedCluster limitedCluster (some "slow")
    Dict.get? data "metrics_gauges" = some (.bool false) ∧ Dict.get? data "threads" = some (.int 1) ∧
    Dict.get? data "retention_max_tasks" = some (.int 250) := by
  intro data
  have hthreads : "Threads".toLower = "threads" := by decide +kernel
  have hplain : "threads".toLower = "threads" := by decide +kernel
  have hgauges : "METRICS_GAUGES".toLower = "metrics_gauges" := by decide +kernel
  have halt {altConf : SettingsDict} (h : altConf? mixedCluster.asDict (some "slow") = some altConf) :
      altConf = [("Threads", .int 1)] := (Option.some.inj h).symm
  have hnone {altConf : SettingsDict} (h : altConf? limitedCluster.asDict (some "slow") = some altConf) :
      altConf = [] := (Option.some.inj h).symm
  obtain ⟨hread, hinherit, -⟩ := @effective_settings String.toLower (some "slow") mixedCluster
    limitedCluster (by decide +kernel) (by decide +kernel) (by unfold Dict.Unambiguous; decide +kernel)
    (fun altConf h => by rw [halt h]; exact List.nodup_singleton _)
    (by decide) (fun altConf h => by rw [hnone h]; exact List.nodup_nil)
  refine ⟨(hread _ (by decide) (by decide)).trans ?_, (hread _ (by decide) (by decide)).trans ?_,
    (hinherit 250 ⟨?_, ?_⟩ rfl (by decide)).1⟩
  all_goals
    simp [stated, altConf?, mixedCluster, Setting.asDict, Dict.get?, Dict.rekey, Dict.set,
      notInheritedByAltClusters, hthreads, hplain, hgauges]

end Qraft
