import Mathlib.Data.List.Nodup
import Qraft.Settings.Overlay

/-! What the settings of a cluster say of its broker: the class that is built, the `Conf` values it is
built under, and the class that pins an ORM broker to its database alias. -/
namespace Qraft

/-- The attributes of `_CONF_BROKER_KEYS`. -/
inductive ConfAttribute where
  | brokerClass
  | orm
  | redis
  | djangoRedis
  | sqs
  | mongo
  | mongoDb
  | ironMq
  deriving DecidableEq

namespace ConfAttribute

/-- In the order of `_CONF_BROKER_KEYS`. -/
def all : List ConfAttribute := [brokerClass, orm, redis, djangoRedis, sqs, mongo, mongoDb, ironMq]

theorem mem_all (a : ConfAttribute) : a ∈ all := by cases a <;> decide

theorem nodup_all : all.Nodup := by decide

def key : ConfAttribute → String
  | brokerClass => "broker_class"
  | orm => "orm"
  | redis => "redis"
  | djangoRedis => "django_redis"
  | sqs => "sqs"
  | mongo => "mongo"
  | mongoDb => "mongo_db"
  | ironMq => "iron_mq"

def default : ConfAttribute → Setting
  | redis => .dict []
  | _ => .none

end ConfAttribute

/-- The attributes of `django_q.conf.Conf` that a broker reads. -/
abbrev BrokerConf := ConfAttribute → Setting

namespace BrokerConf

/-- `setattr(Conf, attribute, value)`. -/
def assign (conf : BrokerConf) (a : ConfAttribute) (value : Setting) : BrokerConf :=
  fun b => if b = a then value else conf b

def ofConfig (config : SettingsDict) : BrokerConf := fun a => (Dict.get? config a.key).getD a.default

end BrokerConf

/-- What `import_string` makes of a value. -/
inductive ImportResult (κ : Type) where
  | found (c : κ)
  | importError
  /-- The module raises, or the value names no class. -/
  | raises

/-- The broker classes of Django-Q2, as `get_broker` falls back to them. -/
inductive Driver where
  | ironMQ
  | sqs
  | orm
  | mongo
  | redis

/-- What the package imports: the classes, what `issubclass` answers of them, and the methods of
strings. A driver that is not installed cannot be imported. -/
structure BrokerLibrary (κ : Type) where
  lower : String → String
  title : String → String
  importString : Setting → ImportResult κ
  driver : Driver → Option κ
  name : κ → String
  isOrm : κ → Bool
  isQraftOrm : κ → Bool
  isRouting : κ → Bool
  driver_concrete : ∀ d c, driver d = some c → isRouting c = false

/-- `config.get(key)`. -/
def SettingsDict.read (config : SettingsDict) (key : String) : Setting := (Dict.get? config key).getD .none

namespace BrokerLibrary
variable {κ : Type} (lib : BrokerLibrary κ)

def driverFor (config : SettingsDict) : Driver :=
  if (SettingsDict.read config "iron_mq").truthy then .ironMQ
  else
    match SettingsDict.read config "sqs" with
    | .dict _ => .sqs
    | _ =>
      if (SettingsDict.read config "orm").truthy then .orm
      else if (SettingsDict.read config "mongo").truthy then .mongo
      else .redis

/-- `_broker_class_for_config`; `none` when it raises. -/
def brokerClassForConfig (config : SettingsDict) : Option κ :=
  let path := SettingsDict.read config "broker_class"
  if path.truthy then
    match lib.importString path with
    | .found c => if lib.isRouting c then lib.driver (driverFor config) else some c
    | .importError => lib.driver (driverFor config)
    | .raises => none
  else lib.driver (driverFor config)

/-- A router is never what a cluster's broker resolves to. -/
theorem isRouting_of_brokerClass {config : SettingsDict} {c : κ} (h : lib.brokerClassForConfig config = some c) :
    lib.isRouting c = false := by
  unfold brokerClassForConfig at h
  dsimp only at h
  split at h
  · split at h
    · split at h
      · exact lib.driver_concrete _ _ h
      · rename_i hroute
        cases h
        exact Bool.eq_false_iff.mpr hroute
    · exact lib.driver_concrete _ _ h
    · cases h
  · exact lib.driver_concrete _ _ h

/-- `_lanes_drained_by`; `none` when the import raises. -/
def lanesDrainedBy (brokerClass : Setting) : Option Bool :=
  if brokerClass.truthy then
    match lib.importString brokerClass with
    | .found c => some (lib.isQraftOrm c)
    | .importError => some false
    | .raises => none
  else some false

end BrokerLibrary

/-- What an ORM class is pinned to, as far as keys of a dictionary differ. -/
inductive OrmAlias where
  | none
  /-- `False` or a zero. -/
  | zero
  | named (dbAlias : String)
  deriving DecidableEq, Repr

/-- `alias or "default"`. -/
def OrmAlias.text : OrmAlias → String
  | .none | .zero => "default"
  | .named dbAlias => if dbAlias = "" then "default" else dbAlias

/-- The alias that `orm` gives. Other truthy values have no `replace`, lists and dictionaries no hash. -/
def readAlias : Setting → Option OrmAlias
  | .none => some .none
  | .str dbAlias => some (.named dbAlias)
  | .bool b => if b then none else some .zero
  | .int n => if n = 0 then some .zero else none
  | .float q => if q = 0 then some .zero else none
  | .list _ | .dict _ => none

structure PinnedClass (κ : Type) where
  base : κ
  dbAlias : OrmAlias
  /-- Its name in the module, by which it pickles. -/
  name : String

def candidateName (stem : String) : Nat → String
  | 0 => stem
  | n + 1 => stem ++ String.ofList (Nat.toDigits 10 (n + 2))

theorem candidateName_injective (stem : String) : Function.Injective (candidateName stem) := by
  have hdigits {m n : Nat} (h : Nat.toDigits 10 m = Nat.toDigits 10 n) : m = n := by
    have hm := Nat.ofDigitChars_ten_toDigits (n := m)
    rw [h, Nat.ofDigitChars_ten_toDigits] at hm
    exact hm.symm
  have hlong (n : Nat) : candidateName stem (n + 1) ≠ stem := by
    intro h
    have hlist := congrArg String.toList h
    rw [candidateName, String.toList_append, String.toList_ofList] at hlist
    exact Nat.toDigits_ne_nil (List.append_right_eq_self.mp hlist)
  intro m n h
  cases m with
  | zero =>
    cases n with
    | zero => rfl
    | succ n => exact absurd h.symm (hlong n)
  | succ m =>
    cases n with
    | zero => exact absurd h (hlong m)
    | succ n =>
      have hlist := congrArg String.toList h
      rw [candidateName, candidateName, String.toList_append, String.toList_append, String.toList_ofList,
        String.toList_ofList] at hlist
      have hmn := hdigits (List.append_cancel_left hlist)
      omega

/-- `while name in globals()`. -/
def freshName (taken : List String) (stem : String) : Nat → Nat → Option String
  | 0, _ => none
  | fuel + 1, n =>
    if candidateName stem n ∈ taken then freshName taken stem fuel (n + 1) else some (candidateName stem n)

theorem not_mem_of_freshName {taken : List String} {stem name : String} {fuel n : Nat}
    (h : freshName taken stem fuel n = some name) : name ∉ taken := by
  induction fuel generalizing n with
  | zero => cases h
  | succ fuel ih =>
    rw [freshName] at h
    split at h
    · exact ih h
    · rename_i hfree
      cases h
      exact hfree

/-- The loop ends: there are only so many names to run into. -/
theorem freshName_isSome (taken : List String) (stem : String) :
    (freshName taken stem (taken.length + 1) 0).isSome = true := by
  have hloop (fuel n : Nat) (h : freshName taken stem fuel n = none) :
      ((List.range' n fuel).map (candidateName stem)) ⊆ taken := by
    induction fuel generalizing n with
    | zero => exact List.nil_subset _
    | succ fuel ih =>
      rw [freshName] at h
      split at h
      · rename_i hin
        rw [List.range'_succ, List.map_cons]
        exact List.cons_subset.mpr ⟨hin, ih (n + 1) h⟩
      · cases h
  by_contra hnone
  have hsub := hloop (taken.length + 1) 0 (Option.not_isSome_iff_eq_none.mp hnone)
  have hnodup : ((List.range' 0 (taken.length + 1)).map (candidateName stem)).Nodup :=
    List.Nodup.map (candidateName_injective stem) List.nodup_range'
  have hle := hnodup.length_le_of_subset hsub
  rw [List.length_map, List.length_range'] at hle
  omega

/-- `_pinned_orm_classes`, and the names of the module that they are kept under: one class for each
base and alias, each under a name of its own. -/
structure PinnedClasses (κ : Type) where
  names : List String
  entries : List (PinnedClass κ) := []
  named : ∀ c ∈ entries, c.name ∈ names := by simp
  distinct : (entries.map PinnedClass.name).Nodup := by simp
  keyed : (entries.map fun c => (c.base, c.dbAlias)).Nodup := by simp

namespace PinnedClasses
variable {κ : Type} [DecidableEq κ] (lib : BrokerLibrary κ)

/-- The name a pinned class would have by itself. -/
def stem (base : κ) (dbAlias : OrmAlias) : String :=
  lib.name base ++ "On" ++ lib.title (dbAlias.text.replace "-" "_")

def find? (pins : PinnedClasses κ) (base : κ) (dbAlias : OrmAlias) : Option (PinnedClass κ) :=
  pins.entries.find? fun c => c.base = base ∧ c.dbAlias = dbAlias

omit [DecidableEq κ] in
private theorem mem_concat {α : Type} {l : List α} {a b : α} (h : a ∈ l ++ [b]) : a ∈ l ∨ a = b :=
  (List.mem_append.mp h).imp_right List.mem_singleton.mp

/-- `_orm_class_pinned_to`. -/
def pinTo (pins : PinnedClasses κ) (base : κ) (dbAlias : OrmAlias) : PinnedClasses κ × PinnedClass κ :=
  match hfind : pins.find? base dbAlias with
  | some pinned => (pins, pinned)
  | none =>
    let name := (freshName pins.names (stem lib base dbAlias) (pins.names.length + 1) 0).get
      (freshName_isSome pins.names (stem lib base dbAlias))
    have hfresh : name ∉ pins.names := not_mem_of_freshName (Option.some_get _).symm
    let pinned : PinnedClass κ := ⟨base, dbAlias, name⟩
    ({ names := pins.names ++ [name]
       entries := pins.entries ++ [pinned]
       named := by
         intro c hc
         rcases mem_concat hc with hc | rfl
         · exact List.mem_append_left _ (pins.named c hc)
         · exact List.mem_append_right _ List.mem_cons_self
       distinct := by
         rw [List.map_append, List.map_singleton, ← List.concat_eq_append]
         refine List.Nodup.concat (fun hin => ?_) pins.distinct
         obtain ⟨c, hc, hname⟩ := List.mem_map.mp hin
         have hname : c.name = name := hname
         exact hfresh (hname ▸ pins.named c hc)
       keyed := by
         rw [List.map_append, List.map_singleton, ← List.concat_eq_append]
         refine List.Nodup.concat (fun hin => ?_) pins.keyed
         obtain ⟨c, hc, hkey⟩ := List.mem_map.mp hin
         have hno := List.find?_eq_none.mp hfind c hc
         exact hno (decide_eq_true (Prod.mk.inj hkey)) }, pinned)

/-- The class is registered, and pins its base to its alias. -/
theorem pinTo_spec (pins : PinnedClasses κ) (base : κ) (dbAlias : OrmAlias) :
    (pins.pinTo lib base dbAlias).2 ∈ (pins.pinTo lib base dbAlias).1.entries ∧
    (pins.pinTo lib base dbAlias).2.base = base ∧ (pins.pinTo lib base dbAlias).2.dbAlias = dbAlias ∧
    pins.entries ⊆ (pins.pinTo lib base dbAlias).1.entries := by
  unfold pinTo
  split
  · rename_i pinned hfind
    unfold find? at hfind
    have hsome := List.find?_some hfind
    have hkey : pinned.base = base ∧ pinned.dbAlias = dbAlias := of_decide_eq_true hsome
    exact ⟨List.mem_of_find?_eq_some hfind, hkey.1, hkey.2, List.Subset.refl _⟩
  · exact ⟨List.mem_append_right _ List.mem_cons_self, rfl, rfl, List.subset_append_left _ _⟩

end PinnedClasses

/-- What `_build_broker` builds an instance of: the class, and the one that pins it when it is an ORM
broker. `none` when finding it raises. -/
def BrokerLibrary.brokerType {κ : Type} [DecidableEq κ] (lib : BrokerLibrary κ) (pins : PinnedClasses κ)
    (config : SettingsDict) : Option (PinnedClasses κ × κ × Option (PinnedClass κ)) :=
  (lib.brokerClassForConfig config).bind fun base =>
    if lib.isOrm base then
      (readAlias (SettingsDict.read config "orm")).map fun dbAlias =>
        let out := pins.pinTo lib base dbAlias
        (out.1, base, some out.2)
    else some (pins, base, none)

end Qraft
