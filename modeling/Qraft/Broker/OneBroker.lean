import Mathlib.Data.List.Nodup
import Qraft.Broker.BuildLock

/-! What holds of the brokers that the processes resolve, however their threads interleave: `Conf` is
put back, a broker is the one of its cluster, and there is one for each queue. -/
namespace Qraft

namespace BrokerProcess
variable {κ : Type} [DecidableEq κ] {lib : BrokerLibrary κ} {p p' : BrokerProcess κ} {i j : Nat}
  {call other : BrokerCall κ} {phase : CallPhase κ}

/-- A class is the one that the settings of a cluster name, as they were at some time, and an ORM class
is pinned to the database alias they name. -/
structure Named (lib : BrokerLibrary κ) (history : List Setting) (entries : List (PinnedClass κ)) (cluster : String)
    (config : SettingsDict) (version : Nat) (base : κ) (pinned : Option (PinnedClass κ)) : Prop where
  merged : ∃ qCluster, history[version]? = some qCluster ∧
    config = mergeAltCluster lib.lower qCluster.asDict (some cluster)
  resolved : lib.brokerClassForConfig config = some base
  orm : pinned.isSome = lib.isOrm base
  pins : ∀ c, pinned = some c → c ∈ entries ∧ c.base = base ∧
    readAlias (SettingsDict.read config "orm") = some c.dbAlias

theorem findJob_spec {pins : PinnedClasses κ} {job : BuildJob κ} (hj : p.findJob lib call = some (pins, job))
    (hcurrent : p.history[p.history.length - 1]? = some p.qCluster) :
    job.version = p.history.length - 1 ∧ p.pins.entries ⊆ pins.entries ∧
    Named lib p.history pins.entries (p.target call.cluster) job.config job.version job.base job.pinned := by
  obtain ⟨⟨pins', base, pinned⟩, hout, he⟩ := Option.map_eq_some_iff.mp hj
  cases he
  obtain ⟨base, hbase, hout⟩ := Option.bind_eq_some_iff.mp hout
  split at hout
  · rename_i horm
    obtain ⟨dbAlias, halias, he⟩ := Option.map_eq_some_iff.mp hout
    cases he
    obtain ⟨hmem, hb, ha, hsub⟩ := p.pins.pinTo_spec lib base dbAlias
    refine ⟨rfl, hsub, ⟨_, hcurrent, rfl⟩, hbase, horm.symm, ?_⟩
    intro c hc
    cases hc
    rw [ha]
    exact ⟨hmem, hb, halias⟩
  · rename_i hno
    cases hout
    exact ⟨rfl, List.Subset.refl _, ⟨_, hcurrent, rfl⟩, hbase, (Bool.eq_false_iff.mpr hno).symm,
      (fun c hc => by cases hc)⟩

/-- The list key of a call is its cluster, or a lane of it that the cluster drains. -/
def Lane (lib : BrokerLibrary κ) (p : BrokerProcess κ) (call : BrokerCall κ) (listKey : String) : Prop :=
  listKey = p.target call.cluster ∨ ∃ priority, call.priority = some priority ∧
    (priority = "high" ∨ priority = "low") ∧ listKey = p.target call.cluster ++ "--" ++ priority ∧
    ∀ cluster, call.cluster = some cluster → ∃ (n : Nat) (qCluster : Setting),
      p.history[n]? = some qCluster ∧ lib.lanesDrainedBy (SettingsDict.read (mergeAltCluster lib.lower qCluster.asDict (some cluster)) "broker_class") = some true

/-- A broker is the one of its key. -/
structure Keyed (lib : BrokerLibrary κ) (history : List Setting) (entries : List (PinnedClass κ)) (key : CacheKey)
    (broker : BrokerInstance κ) : Prop where
  pid : broker.pid = key.pid
  listKey : broker.listKey = key.listKey
  conf : broker.conf = BrokerConf.ofConfig broker.config
  named : Named lib history entries key.cluster broker.config broker.version broker.base broker.pinned

def Sound (lib : BrokerLibrary κ) (p : BrokerProcess κ) (call : BrokerCall κ) : CallPhase κ → Prop
  | .called | .raised => True
  | .looking listKey | .waiting listKey | .holding listKey | .restoring listKey _ none | .leaving listKey none =>
    p.Lane lib call listKey
  | .patching listKey job _ | .constructing listKey job =>
    p.Lane lib call listKey ∧ Dict.get? p.cache (p.cacheKey call listKey) = none ∧ p.since ≤ job.version ∧
    Named lib p.history p.pins.entries (p.target call.cluster) job.config job.version job.base job.pinned
  | .restoring listKey _ (some broker) =>
    p.Lane lib call listKey ∧ Dict.get? p.cache (p.cacheKey call listKey) = none ∧
    broker.generation = p.generation ∧ p.since ≤ broker.version ∧
    Keyed lib p.history p.pins.entries (p.cacheKey call listKey) broker
  | .leaving listKey (some broker) | .returned listKey broker =>
    p.Lane lib call listKey ∧ (p.cacheKey call listKey, broker) ∈ p.built ∧
    call.generation ≤ broker.generation ∧ call.since ≤ broker.version

/-- A process has gone on, and forgotten no record. -/
structure Extends (p p' : BrokerProcess κ) : Prop where
  pid : p'.pid = p.pid
  clusterName : p'.clusterName = p.clusterName
  history : ∀ (n : Nat) (qCluster : Setting), p.history[n]? = some qCluster → p'.history[n]? = some qCluster
  entries : p.pins.entries ⊆ p'.pins.entries
  generation : p.generation ≤ p'.generation
  since : p.since ≤ p'.since
  built : p.built ⊆ p'.built

omit [DecidableEq κ] in
theorem Named.mono (hx : p.Extends p') {cluster : String} {config : SettingsDict} {version : Nat} {base : κ}
    {pinned : Option (PinnedClass κ)} (h : Named lib p.history p.pins.entries cluster config version base pinned) :
    Named lib p'.history p'.pins.entries cluster config version base pinned := by
  obtain ⟨qCluster, hq, hconfig⟩ := h.merged
  refine ⟨⟨qCluster, hx.history _ _ hq, hconfig⟩, h.resolved, h.orm, ?_⟩
  intro c hc
  obtain ⟨hmem, hrest⟩ := h.pins c hc
  exact ⟨hx.entries hmem, hrest⟩

omit [DecidableEq κ] in
theorem Keyed.mono (hx : p.Extends p') {key : CacheKey} {broker : BrokerInstance κ}
    (h : Keyed lib p.history p.pins.entries key broker) : Keyed lib p'.history p'.pins.entries key broker :=
  ⟨h.pid, h.listKey, h.conf, h.named.mono hx⟩

omit [DecidableEq κ] in
/-- What a call has found stays, as long as nobody touches the cache while it is in the block. -/
theorem Sound.mono (hx : p.Extends p') (hsame : phase.inside = true →
    p'.cache = p.cache ∧ p'.generation = p.generation ∧ p'.since = p.since)
    (h : p.Sound lib call phase) : p'.Sound lib call phase := by
  have htarget : p'.target call.cluster = p.target call.cluster := by rw [target, target, hx.clusterName]
  have hkey (listKey : String) : p'.cacheKey call listKey = p.cacheKey call listKey := by
    rw [cacheKey, cacheKey, hx.pid, htarget]
  have hlane {listKey : String} (hl : p.Lane lib call listKey) : p'.Lane lib call listKey := by
    rw [Lane, htarget]
    rcases hl with hl | ⟨priority, hp, hpr, hl, hdrained⟩
    · exact .inl hl
    · refine .inr ⟨priority, hp, hpr, hl, fun cluster hcluster => ?_⟩
      obtain ⟨n, qCluster, hq, hd⟩ := hdrained cluster hcluster
      exact ⟨n, qCluster, hx.history _ _ hq, hd⟩
  cases phase with
  | called | raised => trivial
  | looking | waiting | holding => exact hlane h
  | patching listKey job todo =>
    obtain ⟨hl, hnone, hsince, hnamed⟩ := h
    obtain ⟨hcache, -, hs⟩ := hsame rfl
    refine ⟨hlane hl, ?_, ?_, ?_⟩
    · rw [hkey, hcache]
      exact hnone
    · rw [hs]
      exact hsince
    · rw [htarget]
      exact hnamed.mono hx
  | constructing listKey job =>
    obtain ⟨hl, hnone, hsince, hnamed⟩ := h
    obtain ⟨hcache, -, hs⟩ := hsame rfl
    refine ⟨hlane hl, ?_, ?_, ?_⟩
    · rw [hkey, hcache]
      exact hnone
    · rw [hs]
      exact hsince
    · rw [htarget]
      exact hnamed.mono hx
  | restoring listKey todo built =>
    cases built with
    | none => exact hlane h
    | some broker =>
      obtain ⟨hl, hnone, hgen, hsince, hkeyed⟩ := h
      obtain ⟨hcache, hg, hs⟩ := hsame rfl
      refine ⟨hlane hl, ?_, hgen.trans hg.symm, ?_, ?_⟩
      · rw [hkey, hcache]
        exact hnone
      · rw [hs]
        exact hsince
      · rw [hkey]
        exact hkeyed.mono hx
  | leaving listKey out =>
    cases out with
    | none => exact hlane h
    | some broker =>
      obtain ⟨hl, hmem, hrest⟩ := h
      refine ⟨hlane hl, ?_, hrest⟩
      rw [hkey]
      exact hx.built hmem
  | returned listKey broker =>
    obtain ⟨hl, hmem, hrest⟩ := h
    refine ⟨hlane hl, ?_, hrest⟩
    rw [hkey]
    exact hx.built hmem

/-- The cache has what was stored since the last reset, under keys of the process, and no key was
stored twice in between. -/
structure Recorded (lib : BrokerLibrary κ) (p : BrokerProcess κ) : Prop where
  current : p.history[p.history.length - 1]? = some p.qCluster
  since : p.since ≤ p.history.length - 1
  cached : ∀ key broker, Dict.get? p.cache key = some broker → key.pid = p.pid →
    (key, broker) ∈ p.built ∧ broker.generation = p.generation
  built : ∀ key broker, (key, broker) ∈ p.built → Keyed lib p.history p.pins.entries key broker ∧
    broker.generation ≤ p.generation ∧
    (broker.generation = p.generation → Dict.get? p.cache key = some broker ∧ p.since ≤ broker.version)
  distinct : (p.built.map fun entry => (entry.1, entry.2.generation)).Nodup
  calls : ∀ (i : Nat) (call : BrokerCall κ), p.calls[i]? = some call →
    call.generation ≤ p.generation ∧ call.since ≤ p.since ∧ p.Sound lib call call.phase

/-- A step changes none of the records, and of the pinned classes only that there may be more. -/
structure Keeps (p p' : BrokerProcess κ) : Prop where
  pid : p'.pid = p.pid
  clusterName : p'.clusterName = p.clusterName
  qCluster : p'.qCluster = p.qCluster
  history : p'.history = p.history
  entries : p.pins.entries ⊆ p'.pins.entries
  cache : p'.cache = p.cache
  built : p'.built = p.built
  generation : p'.generation = p.generation
  since : p'.since = p.since

omit [DecidableEq κ] in
theorem Keeps.extends (h : p.Keeps p') : p.Extends p' where
  pid := h.pid
  clusterName := h.clusterName
  history n qCluster hq := by
    rw [h.history]
    exact hq
  entries := h.entries
  generation := h.generation.ge
  since := h.since.ge
  built := h.built ▸ List.Subset.refl _

omit [DecidableEq κ] in
/-- A call moves, and no record changes. -/
theorem Recorded.move (hr : p.Recorded lib) (hc : p.calls[i]? = some call)
    (hcalls : p'.calls = p.calls.set i { call with phase }) (hk : p.Keeps p')
    (hphase : p'.Sound lib call phase) : p'.Recorded lib := by
  have hx := hk.extends
  refine ⟨?_, ?_, ?_, ?_, ?_, ?_⟩
  · rw [hk.history, hk.qCluster]
    exact hr.current
  · rw [hk.history, hk.since]
    exact hr.since
  · rw [hk.cache, hk.pid, hk.built, hk.generation]
    exact hr.cached
  · rw [hk.built, hk.cache, hk.generation, hk.since]
    intro key broker hmem
    obtain ⟨hkeyed, hrest⟩ := hr.built key broker hmem
    exact ⟨hkeyed.mono hx, hrest⟩
  · rw [hk.built]
    exact hr.distinct
  · rw [hk.generation, hk.since]
    intro j other hj
    rcases calls_set hc hcalls hj with ⟨rfl, rfl⟩ | ⟨-, hj⟩
    · obtain ⟨hgen, hsince, -⟩ := hr.calls _ _ hc
      exact ⟨hgen, hsince, hphase⟩
    · obtain ⟨hgen, hsince, hsound⟩ := hr.calls _ _ hj
      exact ⟨hgen, hsince, hsound.mono hx fun _ => ⟨hk.cache, hk.generation, hk.since⟩⟩

omit [DecidableEq κ] in
/-- What `priority_list_key` answers. -/
theorem lane_of_listKey {listKey : String} (hr : p.Recorded lib) (hk : p.listKey? lib call = some listKey) :
    p.Lane lib call listKey := by
  unfold listKey? at hk
  dsimp only at hk
  split at hk
  · rename_i priority hp
    split at hk
    · rename_i hpr
      obtain ⟨drained, hd, he⟩ := Option.map_eq_some_iff.mp hk
      cases drained with
      | false =>
        cases he
        exact .inl rfl
      | true =>
        cases he
        refine .inr ⟨priority, hp, hpr, rfl, fun cluster hcluster => ?_⟩
        rw [hcluster] at hd
        exact ⟨_, _, hr.current, hd⟩
    · cases hk
      exact .inl rfl
  · cases hk
    exact .inl rfl

omit [DecidableEq κ] in
private theorem Recorded.called (hr : p.Recorded lib) (cluster priority : Option String) :
    ({ p with calls := p.calls ++ [{ cluster, priority, generation := p.generation, since := p.since }] } :
      BrokerProcess κ).Recorded lib := by
  refine ⟨hr.current, hr.since, hr.cached, hr.built, hr.distinct, ?_⟩
  intro j other hj
  rcases calls_append hj with hj | rfl
  · exact hr.calls j other hj
  · exact ⟨Nat.le_refl _, Nat.le_refl _, trivial⟩

omit [DecidableEq κ] in
/-- A reset finds no call in the block of the lock. -/
private theorem Recorded.reset (hg : p.Guarded) (hr : p.Recorded lib) (hl : p.lock = .free) :
    ({ p with cache := [], generation := p.generation + 1, since := p.history.length - 1 } :
      BrokerProcess κ).Recorded lib := by
  have hx : p.Extends { p with cache := [], generation := p.generation + 1, since := p.history.length - 1 } :=
    ⟨rfl, rfl, fun _ _ hq => hq, List.Subset.refl _, Nat.le_succ _, hr.since, List.Subset.refl _⟩
  refine ⟨hr.current, Nat.le_refl _, (fun key broker hb => by cases hb), ?_, hr.distinct, ?_⟩
  · intro key broker hmem
    obtain ⟨hkeyed, hgen, -⟩ := hr.built key broker hmem
    exact ⟨hkeyed, Nat.le_succ_of_le hgen, fun he => absurd (he ▸ hgen) (Nat.not_succ_le_self _)⟩
  · intro j other hj
    obtain ⟨hgen, hsince, hsound⟩ := hr.calls j other hj
    refine ⟨Nat.le_succ_of_le hgen, hsince.trans hr.since, hsound.mono hx fun hins => ?_⟩
    have hlock := hg.inside j other hj hins
    rw [hl] at hlock
    cases hlock

omit [DecidableEq κ] in
private theorem Recorded.changed (hr : p.Recorded lib) (qCluster : Setting) :
    ({ p with qCluster, history := p.history ++ [qCluster] } : BrokerProcess κ).Recorded lib := by
  have hx : p.Extends { p with qCluster, history := p.history ++ [qCluster] } := by
    refine ⟨rfl, rfl, ?_, List.Subset.refl _, Nat.le_refl _, Nat.le_refl _, List.Subset.refl _⟩
    intro n old hq
    obtain ⟨hlt, -⟩ := List.getElem?_eq_some_iff.mp hq
    exact (List.getElem?_append_left hlt).trans hq
  refine ⟨?_, ?_, hr.cached, ?_, hr.distinct, ?_⟩
  · rw [List.length_append, List.length_singleton, Nat.add_sub_cancel]
    exact List.getElem?_concat_length
  · have hsince := hr.since
    rw [List.length_append, List.length_singleton, Nat.add_sub_cancel]
    exact hsince.trans (Nat.sub_le _ _)
  · intro key broker hmem
    obtain ⟨hkeyed, hrest⟩ := hr.built key broker hmem
    exact ⟨hkeyed.mono hx, hrest⟩
  · intro j other hj
    obtain ⟨hgen, hsince, hsound⟩ := hr.calls j other hj
    exact ⟨hgen, hsince, hsound.mono hx fun _ => ⟨rfl, rfl, rfl⟩⟩

omit [DecidableEq κ] in
/-- A broker goes into the cache under a key that had none, as long as its call has the lock. -/
private theorem Recorded.stored (hg : p.Guarded) (hr : p.Recorded lib) {i : Nat} {call : BrokerCall κ}
    {listKey : String} {broker : BrokerInstance κ} (hc : p.calls[i]? = some call)
    (hp : call.phase = .restoring listKey [] (some broker)) :
    ({ p.setPhase i call (.leaving listKey (some broker)) with
      cache := Dict.set p.cache (p.cacheKey call listKey) broker
      built := p.built ++ [(p.cacheKey call listKey, broker)] }).Recorded lib := by
  obtain ⟨hlane, hnone, hgen, hsince, hkeyed⟩ : p.Sound lib call (.restoring listKey [] (some broker)) :=
    hp ▸ (hr.calls i call hc).2.2
  have hmine := hg.inside i call hc (by rw [hp]; rfl)
  have hx : p.Extends { p.setPhase i call (.leaving listKey (some broker)) with
      cache := Dict.set p.cache (p.cacheKey call listKey) broker
      built := p.built ++ [(p.cacheKey call listKey, broker)] } :=
    ⟨rfl, rfl, fun _ _ hq => hq, List.Subset.refl _, Nat.le_refl _, Nat.le_refl _, List.subset_append_left _ _⟩
  have hfresh {key : CacheKey} {old : BrokerInstance κ} (hmem : (key, old) ∈ p.built)
      (hnow : old.generation = p.generation) : key ≠ p.cacheKey call listKey := by
    rintro rfl
    rw [((hr.built _ _ hmem).2.2 hnow).1] at hnone
    cases hnone
  refine ⟨hr.current, hr.since, ?_, ?_, ?_, ?_⟩
  · intro key other ho hpid
    have ho : Dict.get? (Dict.set p.cache (p.cacheKey call listKey) broker) key = some other := ho
    rw [Dict.get?_set] at ho
    split at ho
    · rename_i hkey
      cases ho
      exact ⟨List.mem_append_right _ (List.mem_singleton.mpr (by rw [hkey])), hgen⟩
    · obtain ⟨hmem, hnow⟩ := hr.cached key other ho hpid
      exact ⟨List.mem_append_left _ hmem, hnow⟩
  · intro key other hmem
    rcases List.mem_append.mp hmem with hmem | hmem
    · obtain ⟨hk, hle, hnow⟩ := hr.built key other hmem
      refine ⟨hk.mono hx, hle, fun he => ?_⟩
      obtain ⟨hget, hv⟩ := hnow he
      exact ⟨(Dict.get?_set_ne _ _ (hfresh hmem he)).trans hget, hv⟩
    · cases List.mem_singleton.mp hmem
      exact ⟨hkeyed.mono hx, hgen.le, fun _ => ⟨Dict.get?_set_self _ _ _, hsince⟩⟩
  · change ((p.built ++ [(p.cacheKey call listKey, broker)]).map fun entry => (entry.1, entry.2.generation)).Nodup
    rw [List.map_append, List.nodup_append]
    refine ⟨hr.distinct, List.nodup_singleton _, ?_⟩
    rintro x hx _ hy rfl
    obtain ⟨⟨key, old⟩, hmem, hxe⟩ := List.mem_map.mp hx
    rw [← hxe] at hy
    obtain ⟨hkey, hold⟩ := Prod.mk.inj (List.mem_singleton.mp hy)
    exact hfresh hmem (hold.trans hgen) hkey
  · intro j other hj
    rcases calls_set hc rfl hj with ⟨rfl, rfl⟩ | ⟨hij, hj⟩
    · obtain ⟨hcg, hcs, -⟩ := hr.calls _ _ hc
      exact ⟨hcg, hcs, hlane, List.mem_append_right _ List.mem_cons_self, hgen ▸ hcg, hcs.trans hsince⟩
    · obtain ⟨hcg, hcs, hsound⟩ := hr.calls j other hj
      refine ⟨hcg, hcs, hsound.mono hx fun hins => ?_⟩
      have hother := hg.inside j other hj hins
      rw [hmine] at hother
      exact absurd (BuildLock.held.inj hother).symm hij

private theorem step_recorded {e : BrokerEvent} (hg : p.Guarded) (hr : p.Recorded lib)
    (h : p.step lib e = some p') : p'.Recorded lib := by
  have sound {i : Nat} {call : BrokerCall κ} {phase : CallPhase κ} (hc : p.calls[i]? = some call)
      (hp : call.phase = phase) : p.Sound lib call phase := hp ▸ (hr.calls i call hc).2.2
  have held {i : Nat} {call : BrokerCall κ} {listKey : String} {broker : BrokerInstance κ}
      (hc : p.calls[i]? = some call) (hb : Dict.get? p.cache (p.cacheKey call listKey) = some broker) :
      (p.cacheKey call listKey, broker) ∈ p.built ∧ call.generation ≤ broker.generation ∧
        call.since ≤ broker.version := by
    obtain ⟨hmem, hgen⟩ := hr.cached _ _ hb rfl
    obtain ⟨-, -, hnow⟩ := hr.built _ _ hmem
    obtain ⟨hcg, hcs, -⟩ := hr.calls i call hc
    exact ⟨hmem, hgen ▸ hcg, hcs.trans (hnow hgen).2⟩
  cases step_broker h with
  | called cluster priority => exact hr.called cluster priority
  | reset hl => exact hr.reset hg hl
  | changed qCluster => exact hr.changed qCluster
  | resolved hc hp hk =>
    have hlane := lane_of_listKey hr hk
    exact hr.move hc rfl ⟨rfl, rfl, rfl, rfl, List.Subset.refl _, rfl, rfl, rfl, rfl⟩ hlane
  | unresolved hc hp => exact hr.move hc rfl ⟨rfl, rfl, rfl, rfl, List.Subset.refl _, rfl, rfl, rfl, rfl⟩ trivial
  | hit hc hp hb | waited hc hp hb =>
    exact hr.move hc rfl ⟨rfl, rfl, rfl, rfl, List.Subset.refl _, rfl, rfl, rfl, rfl⟩ ⟨sound hc hp, held hc hb⟩
  | missed hc hp | acquired hc hp | unfound hc hp | ready hc hp | unstored hc hp =>
    exact hr.move hc rfl ⟨rfl, rfl, rfl, rfl, List.Subset.refl _, rfl, rfl, rfl, rfl⟩ (sound hc hp)
  | found hc hp hb hj =>
    obtain ⟨hversion, hsub, hnamed⟩ := findJob_spec hj hr.current
    refine hr.move hc rfl ⟨rfl, rfl, rfl, rfl, hsub, rfl, rfl, rfl, rfl⟩ ⟨sound hc hp, hb, ?_, hnamed⟩
    rw [hversion]
    exact hr.since
  | patched hc hp =>
    exact hr.move hc rfl ⟨rfl, rfl, rfl, rfl, List.Subset.refl _, rfl, rfl, rfl, rfl⟩ (sound hc hp)
  | constructed returns conf hc hp =>
    obtain ⟨hlane, hnone, hsince, hnamed⟩ := sound hc hp
    have hpatched := hg.patched hc (by rw [hp]; rfl)
    rw [hp] at hpatched
    refine hr.move hc rfl ⟨rfl, rfl, rfl, rfl, List.Subset.refl _, rfl, rfl, rfl, rfl⟩ ?_
    cases returns with
    | false => exact hlane
    | true => exact ⟨hlane, hnone, rfl, hsince, rfl, rfl, hpatched.2, hnamed⟩
  | restored hc hp =>
    rename_i built
    refine hr.move hc rfl ⟨rfl, rfl, rfl, rfl, List.Subset.refl _, rfl, rfl, rfl, rfl⟩ ?_
    cases built with
    | none => exact sound hc hp
    | some broker => exact sound hc hp
  | stored hc hp => exact hr.stored hg hc hp
  | released hc hp hphase =>
    rename_i out phase
    refine hr.move hc rfl ⟨rfl, rfl, rfl, rfl, List.Subset.refl _, rfl, rfl, rfl, rfl⟩ ?_
    cases out with
    | none =>
      rw [hphase]
      trivial
    | some broker =>
      rw [hphase]
      exact sound hc hp

private theorem step_pid {e : BrokerEvent} (h : p.step lib e = some p') : p'.pid = p.pid := by
  cases step_broker h <;> rfl

/-- Only the process itself writes keys of its own pid. -/
private theorem step_keys {e : BrokerEvent} (h : p.step lib e = some p') {key : CacheKey}
    {broker : BrokerInstance κ} (hb : Dict.get? p'.cache key = some broker) :
    Dict.get? p.cache key = some broker ∨ key.pid = p.pid := by
  cases step_broker h with
  | reset => cases hb
  | stored hc hp =>
    rename_i i call listKey stored
    have hb : Dict.get? (Dict.set p.cache (p.cacheKey call listKey) stored) key = some broker := hb
    rw [Dict.get?_set] at hb
    split at hb
    · rename_i hkey
      rw [hkey]
      exact .inr rfl
    · exact .inl hb
  | called | changed | resolved | unresolved | hit | missed | acquired | waited | found | unfound | patched | ready
  | constructed | restored | unstored | released => exact .inl hb

structure FleetOk (lib : BrokerLibrary κ) (procs : List (BrokerProcess κ)) : Prop where
  pids : (procs.map BrokerProcess.pid).Nodup
  guarded : ∀ p ∈ procs, p.Guarded
  recorded : ∀ p ∈ procs, p.Recorded lib
  keys : ∀ p ∈ procs, ∀ key broker, Dict.get? p.cache key = some broker → key.pid ∈ procs.map BrokerProcess.pid

private theorem fresh_fleet {procs : List (BrokerProcess κ)} (h : (brokerSystem lib).init procs) :
    FleetOk lib procs := by
  refine ⟨h.1, ?_, ?_, ?_⟩
  · intro p hp
    have hf := h.2 p hp
    refine ⟨?_, ?_, fun _ => hf.original⟩
    · intro i call hc
      rw [hf.calls] at hc
      cases hc
    · intro i hl
      rw [hf.lock] at hl
      cases hl
  · intro p hp
    have hf := h.2 p hp
    refine ⟨?_, ?_, ?_, ?_, ?_, ?_⟩
    · rw [hf.history]
      rfl
    · rw [hf.since]
      exact Nat.zero_le _
    · intro key broker hb
      rw [hf.cache] at hb
      cases hb
    · intro key broker hmem
      rw [hf.built] at hmem
      cases hmem
    · rw [hf.built]
      exact List.nodup_nil
    · intro i call hc
      rw [hf.calls] at hc
      cases hc
  · intro p hp key broker hb
    rw [(h.2 p hp).cache] at hb
    cases hb

private theorem step_fleet {procs procs' : List (BrokerProcess κ)} {e : FleetEvent} (hf : FleetOk lib procs)
    (h : (brokerSystem lib).step procs e = some procs') : FleetOk lib procs' := by
  cases e with
  | act k e =>
    obtain ⟨p, hp, h⟩ := Option.bind_eq_some_iff.mp h
    obtain ⟨p', hstep, rfl⟩ := Option.map_eq_some_iff.mp h
    have hin := List.mem_of_getElem? hp
    have hpids : (procs.set k p').map BrokerProcess.pid = procs.map BrokerProcess.pid := by
      obtain ⟨hk, hpk⟩ := List.getElem?_eq_some_iff.mp hp
      have hk' : k < (procs.map BrokerProcess.pid).length := by
        rw [List.length_map]
        exact hk
      have hget : (procs.map BrokerProcess.pid)[k] = p.pid := by rw [List.getElem_map, hpk]
      rw [List.map_set, step_pid hstep, ← hget]
      exact List.set_getElem_self hk'
    refine ⟨?_, ?_, ?_, ?_⟩
    · rw [hpids]
      exact hf.pids
    · intro q hq
      rcases List.mem_or_eq_of_mem_set hq with hq | rfl
      · exact hf.guarded q hq
      · exact broker_guarded (hf.guarded p hin) hstep
    · intro q hq
      rcases List.mem_or_eq_of_mem_set hq with hq | rfl
      · exact hf.recorded q hq
      · exact step_recorded (hf.guarded p hin) (hf.recorded p hin) hstep
    · intro q hq key broker hb
      rw [hpids]
      rcases List.mem_or_eq_of_mem_set hq with hq | rfl
      · exact hf.keys q hq key broker hb
      · rcases step_keys hstep hb with hb | hkey
        · exact hf.keys p hin key broker hb
        · rw [hkey]
          exact List.mem_map_of_mem hin
  | fork k pid =>
    obtain ⟨p, hp, h⟩ := Option.bind_eq_some_iff.mp h
    split at h
    · cases h
    · rename_i hfresh
      cases h
      have hin := List.mem_of_getElem? hp
      have hpids : (procs ++ [p.fork pid]).map BrokerProcess.pid = procs.map BrokerProcess.pid ++ [pid] := by
        rw [List.map_append]
        rfl
      have hchild : (p.fork pid).lock ≠ .free → (p.fork pid).lock = .orphaned := by
        unfold fork
        dsimp only
        split
        · exact fun h => absurd rfl h
        · exact fun _ => rfl
      have hparent : (p.fork pid).lock = .free → p.lock = .free := by
        unfold fork
        dsimp only
        split
        · rename_i hl
          exact fun _ => hl
        · exact fun h => by cases h
      refine ⟨?_, ?_, ?_, ?_⟩
      · rw [hpids, List.nodup_append]
        refine ⟨hf.pids, List.nodup_singleton _, ?_⟩
        rintro x hx _ hy rfl
        rw [List.mem_singleton.mp hy] at hx
        exact hfresh hx
      · intro q hq
        rcases List.mem_append.mp hq with hq | hq
        · exact hf.guarded q hq
        · rw [List.mem_singleton.mp hq]
          refine ⟨(fun i call hc => by cases hc), ?_, fun hl => (hf.guarded p hin).free (hparent hl)⟩
          intro i hl
          have horphan := hchild (by rw [hl]; exact fun h => by cases h)
          rw [hl] at horphan
          cases horphan
      · intro q hq
        rcases List.mem_append.mp hq with hq | hq
        · exact hf.recorded q hq
        · rw [List.mem_singleton.mp hq]
          have hr := hf.recorded p hin
          refine ⟨hr.current, hr.since, ?_, (fun key broker hmem => by cases hmem), List.nodup_nil,
            (fun i call hc => by cases hc)⟩
          intro key broker hb hpid
          have hold := hf.keys p hin key broker hb
          have hpid : key.pid = pid := hpid
          rw [hpid] at hold
          exact absurd hold hfresh
      · intro q hq key broker hb
        rw [hpids]
        rcases List.mem_append.mp hq with hq | hq
        · exact List.mem_append_left _ (hf.keys q hq key broker hb)
        · rw [List.mem_singleton.mp hq] at hb
          exact List.mem_append_left _ (hf.keys p hin key broker hb)

theorem reach_fleet {procs : List (BrokerProcess κ)} (h : (brokerSystem lib).Reach procs) : FleetOk lib procs := by
  apply StepSystem.ReachWhen.invariant (FleetOk lib) _ _ h
  · exact fun procs => fresh_fleet
  · exact fun procs e procs' hf _ hstep => step_fleet hf hstep

/-- Whatever the threads do, one call at a time is in the block of the lock, a broker is constructed
under the values of its own cluster, and while nobody has the lock, `Conf` is as it was: also after a
constructor has raised, and in the child of a fork. -/
theorem conf_restored {procs : List (BrokerProcess κ)} (h : (brokerSystem lib).Reach procs) (hp : p ∈ procs) :
    (p.lock = .free → p.conf = p.original) ∧
    (∀ (i j : Nat) (call other : BrokerCall κ), p.calls[i]? = some call → p.calls[j]? = some other → call.phase.inside = true →
      other.phase.inside = true → i = j) ∧
    ∀ (i : Nat) (call : BrokerCall κ) listKey job, p.calls[i]? = some call →
      call.phase = .constructing listKey job →
      p.conf = BrokerConf.ofConfig job.config := by
  have hg := (reach_fleet h).guarded p hp
  refine ⟨hg.free, ?_, ?_⟩
  · intro i j call other hc ho hins hother
    have hl := hg.inside i call hc hins
    rw [hg.inside j other ho hother] at hl
    exact (BuildLock.held.inj hl).symm
  · intro i call listKey job hc hphase
    have hpatched := hg.patched hc (by rw [hphase]; rfl)
    rw [hphase] at hpatched
    exact hpatched.2

/-- A call returns a broker that its own process built for its cluster and lane, never a router: of the
class that the settings of the cluster name, under its values, pinned to its database alias when it is
an ORM broker, and out of settings no older than the last reset before the call. -/
theorem broker_of_cluster {procs : List (BrokerProcess κ)} (h : (brokerSystem lib).Reach procs) (hp : p ∈ procs)
    {listKey : String} {broker : BrokerInstance κ} (hc : p.calls[i]? = some call)
    (hret : call.phase = .returned listKey broker) :
    p.Lane lib call listKey ∧ Keyed lib p.history p.pins.entries (p.cacheKey call listKey) broker ∧
    lib.isRouting broker.base = false ∧ call.since ≤ broker.version := by
  have hr := (reach_fleet h).recorded p hp
  obtain ⟨-, -, hsound⟩ := hr.calls i call hc
  rw [hret] at hsound
  obtain ⟨hlane, hmem, -, hsince⟩ := hsound
  obtain ⟨hkeyed, -⟩ := hr.built _ _ hmem
  exact ⟨hlane, hkeyed, lib.isRouting_of_brokerClass hkeyed.named.resolved, hsince⟩

/-- There is one broker for each cluster and lane of a process between two resets: calls that return one
for the same cluster and lane, of the same generation, return the same, and a call never returns one of
a generation before it. -/
theorem one_broker {procs : List (BrokerProcess κ)} (h : (brokerSystem lib).Reach procs) (hp : p ∈ procs) :
    (∀ (i : Nat) (call : BrokerCall κ) listKey broker, p.calls[i]? = some call →
      call.phase = .returned listKey broker →
      call.generation ≤ broker.generation ∧ broker.generation ≤ p.generation) ∧
    ∀ (i j : Nat) (call other : BrokerCall κ) listKey broker broker', p.calls[i]? = some call →
      p.calls[j]? = some other →
      call.phase = .returned listKey broker → other.phase = .returned listKey broker' →
      p.target call.cluster = p.target other.cluster → broker.generation = broker'.generation →
      broker = broker' := by
  have hr := (reach_fleet h).recorded p hp
  have stored {i : Nat} {call : BrokerCall κ} {listKey : String} {broker : BrokerInstance κ}
      (hc : p.calls[i]? = some call) (hret : call.phase = .returned listKey broker) :
      (p.cacheKey call listKey, broker) ∈ p.built ∧ call.generation ≤ broker.generation := by
    obtain ⟨-, -, hsound⟩ := hr.calls i call hc
    rw [hret] at hsound
    exact ⟨hsound.2.1, hsound.2.2.1⟩
  constructor
  · intro i call listKey broker hc hret
    obtain ⟨hmem, hgen⟩ := stored hc hret
    exact ⟨hgen, (hr.built _ _ hmem).2.1⟩
  · intro i j call other listKey broker broker' hc ho hret hret' htarget hgen
    obtain ⟨hmem, -⟩ := stored hc hret
    obtain ⟨hmem', -⟩ := stored ho hret'
    rw [cacheKey, ← htarget] at hmem'
    have heq := List.inj_on_of_nodup_map hr.distinct hmem hmem' (by rw [hgen]; rfl)
    exact (Prod.mk.inj heq).2

end BrokerProcess

def twoDrivers : BrokerLibrary Bool where
  lower s := s
  title s := if s = "default" then "Default" else s
  importString _ := .importError
  driver
    | .orm => some true
    | .redis => some false
    | .ironMQ | .sqs | .mongo => none
  name isOrm := if isOrm then "ORM" else "Redis"
  isOrm c := c
  isQraftOrm _ := false
  isRouting _ := false
  driver_concrete _ _ _ := rfl

/-- A web process on Redis, beside a cluster on the ORM broker. -/
def webProcess : BrokerProcess Bool :=
  let qCluster : Setting := .dict [("ALT_CLUSTERS", .dict [("revenue", .dict [("orm", .str "default")])])]
  { pid := 1, clusterName := "default", conf := ConfAttribute.default, qCluster, pins := { names := ["ORM"] }
    original := ConfAttribute.default, history := [qCluster] }

/-- Two calls for the same cluster, both past the cache before either has the lock. -/
def twoCalls : List FleetEvent :=
  [.call (some "revenue") none, .call (some "revenue") (some "high"), .lane 0, .lane 1, .look 0, .look 1,
    .acquire 0, .recheck 0].map (.act 0)

def wholeBuild : List FleetEvent :=
  twoCalls ++ (List.replicate 9 (.act 0 (.patch 0)) ++ [.act 0 (.construct 0 true fun _ => .none)] ++
    List.replicate 9 (.act 0 (.restore 0)) ++
    [.release 0, .acquire 1, .recheck 1, .release 1].map (.act 0) ++ [.fork 0 2])

theorem webProcess_init : (brokerSystem twoDrivers).init [webProcess] :=
  ⟨List.nodup_singleton _, fun p hp => by
    rw [List.mem_singleton.mp hp]
    exact ⟨rfl, rfl, rfl, rfl, rfl, rfl, rfl⟩⟩

namespace CallPhase
variable {κ : Type}

def result? : CallPhase κ → Option (String × BrokerInstance κ)
  | .returned listKey broker => some (listKey, broker)
  | _ => none

theorem eq_of_result {phase : CallPhase κ} {listKey : String} {broker : BrokerInstance κ}
    (h : phase.result? = some (listKey, broker)) : phase = .returned listKey broker := by
  cases phase <;> cases h
  rfl

end CallPhase

namespace BrokerProcess

theorem conf_restored_runs : ∃ procs p, (brokerSystem twoDrivers).Reach procs ∧ p ∈ procs ∧ p.nextId = 1 ∧
    p.lock = .free ∧ p.conf = p.original := by
  obtain ⟨procs, hr, hp⟩ := StepSystem.exists_reach_of_run (brokerSystem twoDrivers) wholeBuild
    (.init webProcess_init) (fun procs => procs.any fun p => p.nextId = 1 ∧ p.lock = .free) (by decide +kernel)
  obtain ⟨p, hin, hp⟩ := List.any_eq_true.mp hp
  obtain ⟨hid, hl⟩ := of_decide_eq_true hp
  exact ⟨procs, p, hr, hin, hid, hl, (conf_restored hr hin).1 hl⟩

theorem exists_both : ∃ procs p call other broker broker', (brokerSystem twoDrivers).Reach procs ∧ p ∈ procs ∧
    p.calls[0]? = some call ∧ p.calls[1]? = some other ∧ call.phase = .returned "revenue" broker ∧
    other.phase = .returned "revenue" broker' ∧ p.target call.cluster = p.target other.cluster ∧
    broker.generation = broker'.generation ∧ broker.base = true := by
  obtain ⟨procs, hr, hp⟩ := StepSystem.exists_reach_of_run (brokerSystem twoDrivers) wholeBuild
    (.init webProcess_init) (fun procs => procs.any fun p => p.calls[0]?.any fun call => p.calls[1]?.any fun other =>
      call.phase.result?.any fun out => other.phase.result?.any fun out' =>
        (out.1 = "revenue" ∧ out'.1 = "revenue" ∧ p.target call.cluster = p.target other.cluster ∧
          out.2.generation = out'.2.generation) ∧ out.2.base = true) (by decide +kernel)
  obtain ⟨p, hin, hp⟩ := List.any_eq_true.mp hp
  obtain ⟨call, hc, hp⟩ := (Option.any_eq_true _ _).mp hp
  obtain ⟨other, ho, hp⟩ := (Option.any_eq_true _ _).mp hp
  obtain ⟨⟨listKey, broker⟩, hb, hp⟩ := (Option.any_eq_true _ _).mp hp
  obtain ⟨⟨listKey', broker'⟩, hb', hp⟩ := (Option.any_eq_true _ _).mp hp
  obtain ⟨⟨rfl, rfl, htarget, hgen⟩, hbase⟩ := of_decide_eq_true hp
  exact ⟨procs, p, call, other, broker, broker', hr, hin, hc, ho, CallPhase.eq_of_result hb,
    CallPhase.eq_of_result hb', htarget, hgen, hbase⟩

theorem broker_of_cluster_runs : ∃ (p : BrokerProcess Bool) (call : BrokerCall Bool) (broker : BrokerInstance Bool),
    call.phase = .returned "revenue" broker ∧ broker.base = true ∧
    Keyed twoDrivers p.history p.pins.entries (p.cacheKey call "revenue") broker ∧
    twoDrivers.isRouting broker.base = false ∧ call.since ≤ broker.version := by
  obtain ⟨procs, p, call, other, broker, broker', hr, hin, hc, -, hret, -, -, -, hbase⟩ := exists_both
  obtain ⟨-, hkeyed, hroute, hsince⟩ := broker_of_cluster hr hin hc hret
  exact ⟨p, call, broker, hret, hbase, hkeyed, hroute, hsince⟩

theorem one_broker_runs : ∃ (call other : BrokerCall Bool) (broker broker' : BrokerInstance Bool),
    call.phase = .returned "revenue" broker ∧ other.phase = .returned "revenue" broker' ∧ broker = broker' := by
  obtain ⟨procs, p, call, other, broker, broker', hr, hin, hc, ho, hret, hret', htarget, hgen, -⟩ := exists_both
  exact ⟨call, other, broker, broker', hret, hret',
    (one_broker hr hin).2 0 1 call other "revenue" broker broker' hc ho hret hret' htarget hgen⟩

end BrokerProcess
end Qraft
