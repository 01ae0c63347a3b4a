import Qraft.Broker.Resolution
import Qraft.Foundations.StepSystem

/-! `broker_for_cluster`: the threads of a process look for a broker in the cache of the process, and
build it under a lock while `Conf` has the values of another cluster; processes fork. -/
namespace Qraft

structure CacheKey where
  pid : Nat
  cluster : String
  listKey : String
  deriving DecidableEq

structure BrokerInstance (κ : Type) where
  /-- Of the objects its process made, this one. -/
  id : Nat
  base : κ
  pinned : Option (PinnedClass κ)
  listKey : String
  /-- From here on, how it was built: in which process, for which configuration, out of which settings,
  under which `Conf`, and after how many resets. -/
  pid : Nat
  config : SettingsDict
  version : Nat
  conf : BrokerConf
  generation : Nat

/-- What a call that builds has found, and what it saved of `Conf`. -/
structure BuildJob (κ : Type) where
  config : SettingsDict
  version : Nat
  base : κ
  pinned : Option (PinnedClass κ)
  saved : List (ConfAttribute × Setting) := []

/-- Where a call of `broker_for_cluster` stands. -/
inductive CallPhase (κ : Type) where
  /-- The lane is resolved next. -/
  | called
  /-- The cache is read next, without the lock. -/
  | looking (listKey : String)
  /-- At the lock. -/
  | waiting (listKey : String)
  /-- With the lock, before the cache is read again. -/
  | holding (listKey : String)
  /-- The values of the cluster are put into `Conf`, one after another. -/
  | patching (listKey : String) (job : BuildJob κ) (todo : List ConfAttribute)
  | constructing (listKey : String) (job : BuildJob κ)
  /-- The saved values are put back, after an instance was built or the constructor raised. -/
  | restoring (listKey : String) (todo : List (ConfAttribute × Setting)) (built : Option (BrokerInstance κ))
  /-- The lock is released next. -/
  | leaving (listKey : String) (out : Option (BrokerInstance κ))
  | returned (listKey : String) (broker : BrokerInstance κ)
  | raised

structure BrokerCall (κ : Type) where
  cluster : Option String
  priority : Option String
  phase : CallPhase κ := .called
  /-- Recorded at the call: the resets so far, and the settings of the last. -/
  generation : Nat
  since : Nat

inductive BuildLock where
  | free
  | held (i : Nat)
  /-- It was held when the process was forked, by a thread that the fork does not have. -/
  | orphaned
  deriving DecidableEq

structure BrokerProcess (κ : Type) where
  pid : Nat
  /-- `Conf.CLUSTER_NAME`. -/
  clusterName : String
  conf : BrokerConf
  /-- `settings.Q_CLUSTER`. -/
  qCluster : Setting
  lock : BuildLock := .free
  cache : List (CacheKey × BrokerInstance κ) := []
  pins : PinnedClasses κ
  calls : List (BrokerCall κ) := []
  nextId : Nat := 0
  /-- From here on, records of the run that nothing reads: the values of `Conf` at the start, the
  settings there have been, the resets, and what was stored. -/
  original : BrokerConf
  history : List Setting
  generation : Nat := 0
  since : Nat := 0
  built : List (CacheKey × BrokerInstance κ) := []

inductive BrokerEvent where
  | call (cluster priority : Option String)
  /-- `priority_list_key`. -/
  | lane (i : Nat)
  | look (i : Nat)
  | acquire (i : Nat)
  /-- The cache is read again, and what is to be built is found. -/
  | recheck (i : Nat)
  | patch (i : Nat)
  /-- The constructor returns or raises, and leaves these values in `Conf`. -/
  | construct (i : Nat) (returns : Bool) (conf : BrokerConf)
  | restore (i : Nat)
  | release (i : Nat)
  /-- `reset_broker_cache`. -/
  | reset
  | settings (qCluster : Setting)

namespace BrokerProcess
variable {κ : Type} [DecidableEq κ] (lib : BrokerLibrary κ)

/-- `cluster or Conf.CLUSTER_NAME`. -/
def target (p : BrokerProcess κ) (cluster : Option String) : String := (orElse cluster (some p.clusterName)).getD ""

def cacheKey (p : BrokerProcess κ) (call : BrokerCall κ) (listKey : String) : CacheKey :=
  ⟨p.pid, p.target call.cluster, listKey⟩

def brokerClassForCluster (p : BrokerProcess κ) : Option String → Setting
  | none => p.conf .brokerClass
  | some cluster => SettingsDict.read (mergeAltCluster lib.lower p.qCluster.asDict (some cluster)) "broker_class"

/-- The list key of a call, with the lane it asks for; `none` when the import raises. -/
def listKey? (p : BrokerProcess κ) (call : BrokerCall κ) : Option String :=
  let cluster := p.target call.cluster
  match call.priority with
  | some priority =>
    if priority = "high" ∨ priority = "low" then
      (lib.lanesDrainedBy (p.brokerClassForCluster lib call.cluster)).map fun drained =>
        if drained then cluster ++ "--" ++ priority else cluster
    else some cluster
  | none => some cluster

def setPhase (p : BrokerProcess κ) (i : Nat) (call : BrokerCall κ) (phase : CallPhase κ) : BrokerProcess κ :=
  { p with calls := p.calls.set i { call with phase } }

def findJob (p : BrokerProcess κ) (call : BrokerCall κ) : Option (PinnedClasses κ × BuildJob κ) :=
  let config := mergeAltCluster lib.lower p.qCluster.asDict (some (p.target call.cluster))
  (lib.brokerType p.pins config).map fun out =>
    (out.1, { config, version := p.history.length - 1, base := out.2.1, pinned := out.2.2 })

def act (p : BrokerProcess κ) (i : Nat) (call : BrokerCall κ) : BrokerEvent → Option (BrokerProcess κ)
  | .lane _ =>
    match call.phase with
    | .called =>
      match p.listKey? lib call with
      | some listKey => some (p.setPhase i call (.looking listKey))
      | none => some (p.setPhase i call .raised)
    | _ => none
  | .look _ =>
    match call.phase with
    | .looking listKey =>
      match Dict.get? p.cache (p.cacheKey call listKey) with
      | some broker => some (p.setPhase i call (.returned listKey broker))
      | none => some (p.setPhase i call (.waiting listKey))
    | _ => none
  | .acquire _ =>
    match call.phase with
    | .waiting listKey =>
      if p.lock = .free then some { p.setPhase i call (.holding listKey) with lock := .held i } else none
    | _ => none
  | .recheck _ =>
    match call.phase with
    | .holding listKey =>
      match Dict.get? p.cache (p.cacheKey call listKey) with
      | some broker => some (p.setPhase i call (.leaving listKey (some broker)))
      | none =>
        match p.findJob lib call with
        | some (pins, job) => some { p.setPhase i call (.patching listKey job ConfAttribute.all) with pins }
        | none => some (p.setPhase i call (.leaving listKey none))
    | _ => none
  | .patch _ =>
    match call.phase with
    | .patching listKey job (a :: todo) =>
      let job := { job with saved := job.saved ++ [(a, p.conf a)] }
      some { p.setPhase i call (.patching listKey job todo) with
        conf := p.conf.assign a (BrokerConf.ofConfig job.config a) }
    | .patching listKey job [] => some (p.setPhase i call (.constructing listKey job))
    | _ => none
  | .construct _ returns conf =>
    match call.phase with
    | .constructing listKey job =>
      let broker : BrokerInstance κ :=
        { id := p.nextId, base := job.base, pinned := job.pinned, listKey, pid := p.pid, config := job.config
          version := job.version, conf := p.conf, generation := p.generation }
      some { p.setPhase i call (.restoring listKey job.saved (if returns then some broker else none)) with
        conf, nextId := p.nextId + 1 }
    | _ => none
  | .restore _ =>
    match call.phase with
    | .restoring listKey ((a, value) :: todo) built =>
      some { p.setPhase i call (.restoring listKey todo built) with conf := p.conf.assign a value }
    | .restoring listKey [] (some broker) =>
      let key := p.cacheKey call listKey
      some { p.setPhase i call (.leaving listKey (some broker)) with
        cache := Dict.set p.cache key broker, built := p.built ++ [(key, broker)] }
    | .restoring listKey [] none => some (p.setPhase i call (.leaving listKey none))
    | _ => none
  | .release _ =>
    match call.phase with
    | .leaving listKey (some broker) => some { p.setPhase i call (.returned listKey broker) with lock := .free }
    | .leaving _ none => some { p.setPhase i call .raised with lock := .free }
    | _ => none
  | .call _ _ | .reset | .settings _ => none

end BrokerProcess

def BrokerEvent.call? : BrokerEvent → Option Nat
  | .lane i | .look i | .acquire i | .recheck i | .patch i | .construct i _ _ | .restore i | .release i => some i
  | .call _ _ | .reset | .settings _ => none

namespace BrokerProcess
variable {κ : Type} [DecidableEq κ] (lib : BrokerLibrary κ)

def step (p : BrokerProcess κ) (e : BrokerEvent) : Option (BrokerProcess κ) :=
  match e with
  | .call cluster priority =>
    some { p with calls := p.calls ++ [{ cluster, priority, generation := p.generation, since := p.since }] }
  | .reset =>
    if p.lock = .free then
      some { p with cache := [], generation := p.generation + 1, since := p.history.length - 1 }
    else none
  | .settings qCluster => some { p with qCluster, history := p.history ++ [qCluster] }
  | e => e.call?.bind fun i => p.calls[i]?.bind fun call => p.act lib i call e

/-- The child of a fork has the memory of its parent, but not its threads. -/
def fork (p : BrokerProcess κ) (pid : Nat) : BrokerProcess κ :=
  { p with pid, calls := [], built := [], lock := if p.lock = .free then .free else .orphaned }

/-- A process that has not resolved a broker yet. -/
structure Fresh (p : BrokerProcess κ) : Prop where
  lock : p.lock = .free
  cache : p.cache = []
  calls : p.calls = []
  built : p.built = []
  original : p.conf = p.original
  history : p.history = [p.qCluster]
  since : p.since = 0

end BrokerProcess

namespace BrokerProcess
variable {κ : Type} [DecidableEq κ] (lib : BrokerLibrary κ)

inductive BrokerEffect (p : BrokerProcess κ) : BrokerProcess κ → Prop where
  | called (cluster priority : Option String) : BrokerEffect p
      { p with calls := p.calls ++ [{ cluster, priority, generation := p.generation, since := p.since }] }
  | reset (hl : p.lock = .free) : BrokerEffect p
      { p with cache := [], generation := p.generation + 1, since := p.history.length - 1 }
  | changed (qCluster : Setting) : BrokerEffect p { p with qCluster, history := p.history ++ [qCluster] }
  | resolved {i : Nat} {call : BrokerCall κ} {listKey : String} (hc : p.calls[i]? = some call)
      (hp : call.phase = .called) (hk : p.listKey? lib call = some listKey) :
      BrokerEffect p (p.setPhase i call (.looking listKey))
  | unresolved {i : Nat} {call : BrokerCall κ} (hc : p.calls[i]? = some call) (hp : call.phase = .called) :
      BrokerEffect p (p.setPhase i call .raised)
  | hit {i : Nat} {call : BrokerCall κ} {listKey : String} {broker : BrokerInstance κ}
      (hc : p.calls[i]? = some call) (hp : call.phase = .looking listKey)
      (hb : Dict.get? p.cache (p.cacheKey call listKey) = some broker) :
      BrokerEffect p (p.setPhase i call (.returned listKey broker))
  | missed {i : Nat} {call : BrokerCall κ} {listKey : String} (hc : p.calls[i]? = some call)
      (hp : call.phase = .looking listKey) : BrokerEffect p (p.setPhase i call (.waiting listKey))
  | acquired {i : Nat} {call : BrokerCall κ} {listKey : String} (hc : p.calls[i]? = some call)
      (hp : call.phase = .waiting listKey) (hl : p.lock = .free) :
      BrokerEffect p { p.setPhase i call (.holding listKey) with lock := .held i }
  | waited {i : Nat} {call : BrokerCall κ} {listKey : String} {broker : BrokerInstance κ}
      (hc : p.calls[i]? = some call) (hp : call.phase = .holding listKey)
      (hb : Dict.get? p.cache (p.cacheKey call listKey) = some broker) :
      BrokerEffect p (p.setPhase i call (.leaving listKey (some broker)))
  | found {i : Nat} {call : BrokerCall κ} {listKey : String} {pins : PinnedClasses κ} {job : BuildJob κ}
      (hc : p.calls[i]? = some call) (hp : call.phase = .holding listKey)
      (hb : Dict.get? p.cache (p.cacheKey call listKey) = none) (hj : p.findJob lib call = some (pins, job)) :
      BrokerEffect p { p.setPhase i call (.patching listKey job ConfAttribute.all) with pins }
  | unfound {i : Nat} {call : BrokerCall κ} {listKey : String} (hc : p.calls[i]? = some call)
      (hp : call.phase = .holding listKey) : BrokerEffect p (p.setPhase i call (.leaving listKey none))
  | patched {i : Nat} {call : BrokerCall κ} {listKey : String} {job : BuildJob κ} {a : ConfAttribute}
      {todo : List ConfAttribute} (hc : p.calls[i]? = some call)
      (hp : call.phase = .patching listKey job (a :: todo)) : BrokerEffect p
      { p.setPhase i call (.patching listKey { job with saved := job.saved ++ [(a, p.conf a)] } todo) with
        conf := p.conf.assign a (BrokerConf.ofConfig job.config a) }
  | ready {i : Nat} {call : BrokerCall κ} {listKey : String} {job : BuildJob κ} (hc : p.calls[i]? = some call)
      (hp : call.phase = .patching listKey job []) : BrokerEffect p (p.setPhase i call (.constructing listKey job))
  | constructed {i : Nat} {call : BrokerCall κ} {listKey : String} {job : BuildJob κ} (returns : Bool)
      (conf : BrokerConf) (hc : p.calls[i]? = some call) (hp : call.phase = .constructing listKey job) :
      BrokerEffect p
        { p.setPhase i call (.restoring listKey job.saved (if returns then some
            { id := p.nextId, base := job.base, pinned := job.pinned, listKey, pid := p.pid, config := job.config
              version := job.version, conf := p.conf, generation := p.generation } else none)) with
          conf, nextId := p.nextId + 1 }
  | restored {i : Nat} {call : BrokerCall κ} {listKey : String} {a : ConfAttribute} {value : Setting}
      {todo : List (ConfAttribute × Setting)} {built : Option (BrokerInstance κ)} (hc : p.calls[i]? = some call)
      (hp : call.phase = .restoring listKey ((a, value) :: todo) built) : BrokerEffect p
      { p.setPhase i call (.restoring listKey todo built) with conf := p.conf.assign a value }
  | stored {i : Nat} {call : BrokerCall κ} {listKey : String} {broker : BrokerInstance κ}
      (hc : p.calls[i]? = some call) (hp : call.phase = .restoring listKey [] (some broker)) : BrokerEffect p
      { p.setPhase i call (.leaving listKey (some broker)) with
        cache := Dict.set p.cache (p.cacheKey call listKey) broker
        built := p.built ++ [(p.cacheKey call listKey, broker)] }
  | unstored {i : Nat} {call : BrokerCall κ} {listKey : String} (hc : p.calls[i]? = some call)
      (hp : call.phase = .restoring listKey [] none) :
      BrokerEffect p (p.setPhase i call (.leaving listKey none))
  | released {i : Nat} {call : BrokerCall κ} {listKey : String} {out : Option (BrokerInstance κ)}
      {phase : CallPhase κ} (hc : p.calls[i]? = some call) (hp : call.phase = .leaving listKey out)
      (hphase : phase = match out with
        | some broker => .returned listKey broker
        | none => .raised) : BrokerEffect p { p.setPhase i call phase with lock := .free }

variable {lib} {p p' : BrokerProcess κ}

private theorem act_effect {i : Nat} {call : BrokerCall κ} {e : BrokerEvent} (hc : p.calls[i]? = some call)
    (h : p.act lib i call e = some p') : p.BrokerEffect lib p' := by
  cases e with
  | call | reset | settings => cases h
  | lane =>
    simp only [act] at h
    split at h
    · rename_i hp
      split at h
      · rename_i listKey hk
        cases h
        exact .resolved hc hp hk
      · cases h
        exact .unresolved hc hp
    · cases h
  | look =>
    simp only [act] at h
    split at h
    · rename_i hp
      split at h
      · rename_i broker hb
        cases h
        exact .hit hc hp hb
      · cases h
        exact .missed hc hp
    · cases h
  | acquire =>
    simp only [act] at h
    split at h
    · rename_i hp
      split at h
      · rename_i hl
        cases h
        exact .acquired hc hp hl
      · cases h
    · cases h
  | recheck =>
    simp only [act] at h
    split at h
    · rename_i hp
      split at h
      · rename_i broker hb
        cases h
        exact .waited hc hp hb
      · rename_i hb
        split at h
        · rename_i hj
          cases h
          exact .found hc hp hb hj
        · cases h
          exact .unfound hc hp
    · cases h
  | patch =>
    simp only [act] at h
    split at h
    · rename_i hp
      cases h
      exact .patched hc hp
    · rename_i hp
      cases h
      exact .ready hc hp
    · cases h
  | construct _ returns conf =>
    simp only [act] at h
    split at h
    · rename_i hp
      cases h
      exact .constructed returns conf hc hp
    · cases h
  | restore =>
    simp only [act] at h
    split at h
    · rename_i hp
      cases h
      exact .restored hc hp
    · rename_i hp
      cases h
      exact .stored hc hp
    · rename_i hp
      cases h
      exact .unstored hc hp
    · cases h
  | release =>
    simp only [act] at h
    split at h
    · rename_i hp
      cases h
      exact .released hc hp rfl
    · rename_i hp
      cases h
      exact .released hc hp rfl
    · cases h

theorem step_broker {e : BrokerEvent} (h : p.step lib e = some p') : p.BrokerEffect lib p' := by
  cases e with
  | call cluster priority =>
    cases h
    exact .called cluster priority
  | reset =>
    simp only [step] at h
    split at h
    · rename_i hl
      cases h
      exact .reset hl
    · cases h
  | settings qCluster =>
    cases h
    exact .changed qCluster
  | lane | look | acquire | recheck | patch | construct | restore | release =>
    simp only [step] at h
    obtain ⟨i, -, h⟩ := Option.bind_eq_some_iff.mp h
    obtain ⟨call, hc, h⟩ := Option.bind_eq_some_iff.mp h
    exact act_effect hc h

end BrokerProcess

inductive FleetEvent where
  | act (k : Nat) (e : BrokerEvent)
  /-- A process forks, and its child gets a pid that no process of the fleet has had. -/
  | fork (k pid : Nat)

/-- Processes, each from a start of its own or forked by another. -/
def brokerSystem {κ : Type} [DecidableEq κ] (lib : BrokerLibrary κ) :
    StepSystem (List (BrokerProcess κ)) FleetEvent where
  init procs := (procs.map BrokerProcess.pid).Nodup ∧ ∀ p ∈ procs, p.Fresh
  step procs
    | .act k e => procs[k]?.bind fun p => (p.step lib e).map fun p' => procs.set k p'
    | .fork k pid =>
      procs[k]?.bind fun p => if pid ∈ procs.map BrokerProcess.pid then none else some (procs ++ [p.fork pid])

end Qraft
