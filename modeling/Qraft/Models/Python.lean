import Qraft.Foundations.Rows
import Qraft.Models.Values

/-! Python values as arguments of a call, and what is left of one that went through a `JSONField`
with `DjangoJSONEncoder`. -/
namespace Qraft

inductive PyKey where
  | none
  | bool (b : Bool)
  | num (q : ℚ)
  | str (s : String)
  /-- An object of any other kind; `json` refuses it as a key. -/
  | other
  deriving DecidableEq

namespace PyKey

def number : PyKey → Option ℚ
  | .bool b => some (if b then 1 else 0)
  | .num q => some q
  | _ => Option.none

/-- Python's `==` of keys. -/
def beq (k k' : PyKey) : Bool :=
  match k.number, k'.number with
  | some p, some q => p = q
  | Option.none, Option.none => k = k' && k ≠ .other
  | _, _ => false

def isStr : PyKey → Bool
  | .str _ => true
  | _ => false

theorem isStr_iff {k : PyKey} : k.isStr = true ↔ ∃ s, k = .str s := by
  cases k <;> simp [isStr]

theorem beq_str {k : PyKey} {s : String} : k.beq (.str s) = true ↔ k = .str s := by
  cases k <;> simp [beq, number]

end PyKey

/-- A Python value. `Obj` has the objects that are of no other kind here. -/
inductive PyValue (Obj : Type) where
  | none
  | bool (b : Bool)
  /-- An `int`, or a `float` that the column gives back as it is. -/
  | num (q : ℚ)
  | str (s : String)
  | list (xs : List (PyValue Obj))
  | tuple (xs : List (PyValue Obj))
  | dict (fields : List (PyKey × PyValue Obj))
  /-- A `Decimal`, a date, a `UUID` or any other object. -/
  | obj (o : Obj)

/-- What is not under the control of the package: the encoder, and the objects' own comparison. -/
structure PyObjects (Obj : Type) where
  /-- The JSON that `DjangoJSONEncoder` makes of an object, when it raises no `TypeError`. -/
  default : Obj → Option Json
  /-- `repr` of a number. -/
  numText : ℚ → String
  /-- Python's `==` of an object and a value. -/
  eq : Obj → PyValue Obj → Bool

def PyObjects.keyText {Obj : Type} (py : PyObjects Obj) : PyKey → Option String
  | .none => some "null"
  | .bool b => some (if b then "true" else "false")
  | .num q => some (py.numText q)
  | .str s => some s
  | .other => none

namespace PyValue
variable {Obj : Type} (py : PyObjects Obj)

/-- `d[key] = value`. -/
def setItem (key : String) (value : PyValue Obj) :
    List (PyKey × PyValue Obj) → List (PyKey × PyValue Obj)
  | [] => [(.str key, value)]
  | entry :: rest =>
    if entry.1 = .str key then (entry.1, value) :: rest else entry :: setItem key value rest

/-- `dict(pairs)`. -/
def ofPairs (pairs : List (String × PyValue Obj)) : List (PyKey × PyValue Obj) :=
  pairs.foldl (fun d kv => setItem kv.1 kv.2 d) []

mutual

/-- What the column stores of a value, when the encoder raises nothing. -/
def dump : PyValue Obj → Option Json
  | .none => some .null
  | .bool b => some (.bool b)
  | .num q => some (.num q)
  | .str s => some (.str s)
  | .list xs => (dumpList xs).map .arr
  | .tuple xs => (dumpList xs).map .arr
  | .dict fields => (dumpFields fields).map .obj
  | .obj o => py.default o

def dumpList : List (PyValue Obj) → Option (List Json)
  | [] => some []
  | v :: vs => (dump v).bind fun j => (dumpList vs).map (j :: ·)

def dumpFields : List (PyKey × PyValue Obj) → Option JsonDict
  | [] => some []
  | (k, v) :: rest =>
    (py.keyText k).bind fun key => (dump v).bind fun j => (dumpFields rest).map ((key, j) :: ·)

end

mutual

/-- What the column gives back. -/
def load : Json → PyValue Obj
  | .null => .none
  | .bool b => .bool b
  | .num q => .num q
  | .str s => .str s
  | .arr xs => .list (loadList xs)
  | .obj fields => .dict (ofPairs (loadFields fields))

def loadList : List Json → List (PyValue Obj)
  | [] => []
  | j :: js => load j :: loadList js

def loadFields : JsonDict → List (String × PyValue Obj)
  | [] => []
  | (key, j) :: rest => (key, load j) :: loadFields rest

end

def number : PyValue Obj → Option ℚ
  | .bool b => some (if b then 1 else 0)
  | .num q => some q
  | _ => Option.none

/-- The comparison left to an object on the right. -/
def reflected (v : PyValue Obj) : PyValue Obj → Bool
  | .obj o => py.eq o v
  | _ => false

mutual

/-- Python's `==`. -/
def beq : PyValue Obj → PyValue Obj → Bool
  | .none, w =>
    match w with
    | .none => true
    | w => reflected py .none w
  | .bool b, w =>
    match w.number with
    | some q => (if b then 1 else 0) = q
    | Option.none => reflected py (.bool b) w
  | .num p, w =>
    match w.number with
    | some q => p = q
    | Option.none => reflected py (.num p) w
  | .str s, w =>
    match w with
    | .str t => s = t
    | w => reflected py (.str s) w
  | .list xs, w =>
    match w with
    | .list ys => beqList xs ys
    | w => reflected py (.list xs) w
  | .tuple xs, w =>
    match w with
    | .tuple ys => beqList xs ys
    | w => reflected py (.tuple xs) w
  | .dict fields, w =>
    match w with
    | .dict fields' => fields.length = fields'.length && beqFields fields fields'
    | w => reflected py (.dict fields) w
  | .obj o, w => py.eq o w

def beqList : List (PyValue Obj) → List (PyValue Obj) → Bool
  | [], ys => ys.isEmpty
  | v :: vs, ys =>
    match ys with
    | [] => false
    | w :: ws => beq v w && beqList vs ws

/-- Every key is in the other dictionary, with an equal value. -/
def beqFields : List (PyKey × PyValue Obj) → List (PyKey × PyValue Obj) → Bool
  | [], _ => true
  | (k, v) :: rest, fields => fields.any (fun e => k.beq e.1 && beq v e.2) && beqFields rest fields

end

mutual

/-- Whether the column gives a value back equal. -/
def plain : PyValue Obj → Bool
  | .none | .bool _ | .num _ | .str _ => true
  | .list xs => plainList xs
  | .tuple _ => false
  | .dict fields => plainFields fields
  | .obj o => (py.default o).any fun j => py.eq o (load j)

def plainList : List (PyValue Obj) → Bool
  | [] => true
  | v :: vs => plain v && plainList vs

def plainFields : List (PyKey × PyValue Obj) → Bool
  | [] => true
  | (k, v) :: rest => k.isStr && plain v && plainFields rest

end

mutual

/-- Every dictionary in the value has each of its keys once. -/
def WellKeyed : PyValue Obj → Prop
  | .list xs => WellKeyedList xs
  | .tuple xs => WellKeyedList xs
  | .dict fields =>
    (fields.map fun e => e.1).Pairwise (fun k k' => k.beq k' = false) ∧ WellKeyedFields fields
  | _ => True

def WellKeyedList : List (PyValue Obj) → Prop
  | [] => True
  | v :: vs => WellKeyed v ∧ WellKeyedList vs

def WellKeyedFields : List (PyKey × PyValue Obj) → Prop
  | [] => True
  | (_, v) :: rest => WellKeyed v ∧ WellKeyedFields rest

end

section
variable {key : String} {value : PyValue Obj} {d : List (PyKey × PyValue Obj)}

theorem mem_setItem {e : PyKey × PyValue Obj} (he : e ∈ setItem key value d) :
    e ∈ d ∨ e = (.str key, value) := by
  induction d with
  | nil => exact .inr (List.mem_singleton.mp he)
  | cons entry rest ih =>
    unfold setItem at he
    split at he
    · rename_i h
      rcases List.mem_cons.mp he with he | he
      · exact .inr (by rw [he, h])
      · exact .inl (List.mem_cons_of_mem _ he)
    · rcases List.mem_cons.mp he with he | he
      · exact .inl (he ▸ List.mem_cons_self)
      · exact (ih he).imp_left (List.mem_cons_of_mem _)

theorem keys_setItem : (setItem key value d).map (fun e => e.1) =
    if PyKey.str key ∈ d.map (fun e => e.1) then d.map fun e => e.1
    else d.map (fun e => e.1) ++ [.str key] := by
  induction d with
  | nil => rfl
  | cons entry rest ih =>
    unfold setItem
    by_cases h : entry.1 = .str key
    · simp [h]
    · have hne : PyKey.str key ≠ entry.1 := fun he => h he.symm
      simp only [h, if_false, List.map_cons, ih, List.mem_cons, hne, false_or]
      split
      · rfl
      · rfl

theorem setItem_new (h : PyKey.str key ∉ d.map fun e => e.1) :
    setItem key value d = d ++ [(.str key, value)] := by
  induction d with
  | nil => rfl
  | cons entry rest ih =>
    rw [List.map_cons, List.mem_cons, not_or] at h
    unfold setItem
    rw [if_neg fun he => h.1 he.symm, ih h.2]
    rfl

end

section
variable {pairs : List (String × PyValue Obj)}

private theorem mem_foldl_setItem {d : List (PyKey × PyValue Obj)} {e : PyKey × PyValue Obj}
    (he : e ∈ pairs.foldl (fun d kv => setItem kv.1 kv.2 d) d) :
    e ∈ d ∨ ∃ p ∈ pairs, e = (.str p.1, p.2) := by
  induction pairs generalizing d with
  | nil => exact .inl he
  | cons p pairs ih =>
    rcases ih he with he | ⟨q, hq, rfl⟩
    · rcases mem_setItem he with he | rfl
      · exact .inl he
      · exact .inr ⟨p, List.mem_cons_self, rfl⟩
    · exact .inr ⟨q, List.mem_cons_of_mem _ hq, rfl⟩

theorem mem_ofPairs {e : PyKey × PyValue Obj} (he : e ∈ ofPairs pairs) :
    ∃ p ∈ pairs, e = (.str p.1, p.2) := by
  rcases mem_foldl_setItem he with he | he
  · exact absurd he List.not_mem_nil
  · exact he

private theorem foldl_setItem_nodup {d : List (PyKey × PyValue Obj)}
    (h : (d.map fun e => e.1).Nodup) :
    ((pairs.foldl (fun d kv => setItem kv.1 kv.2 d) d).map fun e => e.1).Nodup := by
  induction pairs generalizing d with
  | nil => exact h
  | cons p pairs ih =>
    apply ih
    rw [keys_setItem]
    split
    · exact h
    · rename_i hnew
      rw [List.nodup_append]
      refine ⟨h, List.nodup_singleton _, ?_⟩
      intro k hk k' hk' he
      rw [List.mem_singleton.mp hk'] at he
      exact hnew (he ▸ hk)

theorem ofPairs_nodup : ((ofPairs pairs).map fun e => e.1).Nodup := foldl_setItem_nodup List.nodup_nil

private theorem foldl_setItem_fresh {d : List (PyKey × PyValue Obj)}
    (hn : (pairs.map fun p => p.1).Nodup) (hd : ∀ p ∈ pairs, PyKey.str p.1 ∉ d.map fun e => e.1) :
    pairs.foldl (fun d kv => setItem kv.1 kv.2 d) d = d ++ pairs.map fun p => (.str p.1, p.2) := by
  induction pairs generalizing d with
  | nil => simp
  | cons p pairs ih =>
    rw [List.map_cons, List.nodup_cons] at hn
    rw [List.foldl_cons, setItem_new (hd p List.mem_cons_self), ih hn.2]
    · simp
    · intro q hq hmem
      rw [List.map_append, List.mem_append] at hmem
      rcases hmem with hmem | hmem
      · exact hd q (List.mem_cons_of_mem _ hq) hmem
      · have hkey : q.1 = p.1 := by simpa using hmem
        exact hn.1 (hkey ▸ List.mem_map.mpr ⟨q, hq, rfl⟩)

/-- Pairs with keys of their own are the entries of their dictionary. -/
theorem ofPairs_of_nodup (h : (pairs.map fun p => p.1).Nodup) :
    ofPairs pairs = pairs.map fun p => (.str p.1, p.2) :=
  foldl_setItem_fresh h fun _ _ => List.not_mem_nil

end

theorem loadFields_eq_map (fields : JsonDict) :
    (loadFields fields : List (String × PyValue Obj)) = fields.map fun f => (f.1, load f.2) := by
  induction fields with
  | nil => rfl
  | cons f rest ih => rw [loadFields, ih, List.map_cons]

theorem plainFields_iff {fields : List (PyKey × PyValue Obj)} : plainFields py fields = true ↔
    ∀ e ∈ fields, (∃ s, e.1 = .str s) ∧ plain py e.2 = true := by
  induction fields with
  | nil => simp [plainFields]
  | cons e rest ih =>
    obtain ⟨k, v⟩ := e
    rw [plainFields, Bool.and_eq_true, Bool.and_eq_true, ih, List.forall_mem_cons, PyKey.isStr_iff]

theorem beqFields_iff {fields fields' : List (PyKey × PyValue Obj)} :
    beqFields py fields fields' = true ↔
      ∀ e ∈ fields, ∃ e' ∈ fields', e.1.beq e'.1 = true ∧ beq py e.2 e'.2 = true := by
  induction fields with
  | nil => simp [beqFields]
  | cons e rest ih =>
    obtain ⟨k, v⟩ := e
    rw [beqFields, Bool.and_eq_true, ih, List.forall_mem_cons, List.any_eq_true]
    simp only [Bool.and_eq_true]

/-- An entry, and the field of the JSON object it became. -/
def Stored (e : PyKey × PyValue Obj) (f : String × Json) : Prop :=
  py.keyText e.1 = some f.1 ∧ beq py e.2 (load f.2) = plain py e.2

section
variable {py} {fields : List (PyKey × PyValue Obj)} {stored : JsonDict}

private theorem keys_stored (h : List.Forall₂ (Stored py) fields stored)
    (hs : ∀ e ∈ fields, ∃ s, e.1 = .str s) :
    (fields.map fun e => e.1) = stored.map fun f => .str f.1 := by
  induction h with
  | nil => rfl
  | @cons e f rest rest' hef hrest ih =>
    obtain ⟨s, hk⟩ := hs e List.mem_cons_self
    have hkey := hef.1
    rw [hk] at hkey
    rw [List.map_cons, List.map_cons, ih fun e he => hs e (List.mem_cons_of_mem _ he), hk,
      Option.some.inj hkey]

private theorem keys_stored_nodup (h : List.Forall₂ (Stored py) fields stored)
    (hs : ∀ e ∈ fields, ∃ s, e.1 = .str s)
    (hw : (fields.map fun e => e.1).Pairwise fun k k' => k.beq k' = false) :
    (stored.map fun f => f.1).Nodup := by
  rw [keys_stored h hs, List.pairwise_map] at hw
  apply List.pairwise_map.mpr
  apply hw.imp
  intro f f' hne he
  have hself : (PyKey.str f.1).beq (.str f'.1) = true := PyKey.beq_str.mpr (by rw [he])
  rw [hself] at hne
  cases hne

/-- A dictionary comes back equal if its keys are strings and its values come back equal. -/
private theorem beq_dict (h : List.Forall₂ (Stored py) fields stored)
    (hw : (fields.map fun e => e.1).Pairwise fun k k' => k.beq k' = false) :
    beq py (.dict fields) (load (.obj stored)) = plainFields py fields := by
  rw [Bool.eq_iff_iff, load, beq, Bool.and_eq_true, decide_eq_true_eq, plainFields_iff, beqFields_iff]
  have entries (hs : ∀ e ∈ fields, ∃ s, e.1 = .str s) :
      (ofPairs (loadFields stored) : List (PyKey × PyValue Obj)) =
        stored.map fun f => (.str f.1, load f.2) := by
    rw [loadFields_eq_map, ofPairs_of_nodup, List.map_map]
    · rfl
    · rw [List.map_map]
      exact keys_stored_nodup h hs hw
  constructor
  · rintro ⟨-, heq⟩
    have hs : ∀ e ∈ fields, ∃ s, e.1 = .str s := by
      intro e he
      obtain ⟨e', he', hkey, -⟩ := heq e he
      obtain ⟨p, -, rfl⟩ := mem_ofPairs he'
      exact ⟨p.1, PyKey.beq_str.mp hkey⟩
    intro e he
    refine ⟨hs e he, ?_⟩
    obtain ⟨e', he', hkey, hval⟩ := heq e he
    rw [entries hs] at he'
    obtain ⟨f', hf', rfl⟩ := List.mem_map.mp he'
    obtain ⟨i, hi, rfl⟩ := List.mem_iff_getElem.mp he
    have hi' : i < stored.length := h.length_eq ▸ hi
    have hown := h.get hi hi'
    have hk : fields[i].1 = .str f'.1 := PyKey.beq_str.mp hkey
    have hkey' : some f'.1 = some stored[i].1 := by
      have htext := hown.1
      rwa [List.get_eq_getElem, List.get_eq_getElem, hk] at htext
    have hsame : f' = stored[i] := by
      apply Rows.eq_of_key_eq (keys_stored_nodup h hs hw) hf' (List.getElem_mem hi')
      exact Option.some.inj hkey'
    have hplain := hown.2
    rw [List.get_eq_getElem, List.get_eq_getElem, ← hsame] at hplain
    rw [← hplain]
    exact hval
  · intro hp
    have hs : ∀ e ∈ fields, ∃ s, e.1 = .str s := fun e he => (hp e he).1
    rw [entries hs, List.length_map]
    refine ⟨h.length_eq, ?_⟩
    intro e he
    obtain ⟨i, hi, rfl⟩ := List.mem_iff_getElem.mp he
    have hi' : i < stored.length := h.length_eq ▸ hi
    obtain ⟨htext, hval⟩ := h.get hi hi'
    rw [List.get_eq_getElem, List.get_eq_getElem] at htext hval
    obtain ⟨s, hk⟩ := hs _ he
    rw [hk] at htext
    refine ⟨_, List.mem_map.mpr ⟨stored[i], List.getElem_mem hi', rfl⟩, ?_, ?_⟩
    · exact PyKey.beq_str.mpr (by rw [hk, Option.some.inj htext])
    · exact hval.trans (hp _ he).2

end

mutual

/-- Whether a value comes back equal can be read off the value. -/
theorem beq_load : ∀ {v : PyValue Obj} {j : Json}, v.WellKeyed → dump py v = some j →
    beq py v (load j) = plain py v
  | .none, j, _, h => by
    cases h
    rfl
  | .bool b, j, _, h => by
    cases h
    simp [load, beq, number, plain]
  | .num q, j, _, h => by
    cases h
    simp [load, beq, number, plain]
  | .str s, j, _, h => by
    cases h
    simp [load, beq, plain]
  | .list xs, j, hw, h => by
    obtain ⟨js, hjs, rfl⟩ := Option.map_eq_some_iff.mp h
    exact beqList_load hw hjs
  | .tuple xs, j, _, h => by
    obtain ⟨js, hjs, rfl⟩ := Option.map_eq_some_iff.mp h
    rfl
  | .dict fields, j, hw, h => by
    obtain ⟨stored, hst, rfl⟩ := Option.map_eq_some_iff.mp h
    exact beq_dict (fields_stored hw.2 hst) hw.1
  | .obj o, j, _, h => by
    have hdump : py.default o = some j := h
    simp [beq, plain, hdump]

theorem beqList_load : ∀ {vs : List (PyValue Obj)} {js : List Json}, WellKeyedList vs →
    dumpList py vs = some js → beqList py vs (loadList js) = plainList py vs
  | [], js, _, h => by
    cases h
    rfl
  | v :: vs, js, hw, h => by
    obtain ⟨j, hj, h⟩ := Option.bind_eq_some_iff.mp h
    obtain ⟨js', hjs, rfl⟩ := Option.map_eq_some_iff.mp h
    rw [loadList, beqList, plainList, beq_load hw.1 hj, beqList_load hw.2 hjs]

theorem fields_stored : ∀ {fields : List (PyKey × PyValue Obj)} {stored : JsonDict},
    WellKeyedFields fields → dumpFields py fields = some stored →
    List.Forall₂ (Stored py) fields stored
  | [], stored, _, h => by
    cases h
    exact .nil
  | (k, v) :: rest, stored, hw, h => by
    obtain ⟨key, hkey, h⟩ := Option.bind_eq_some_iff.mp h
    obtain ⟨j, hj, h⟩ := Option.bind_eq_some_iff.mp h
    obtain ⟨stored', hst, rfl⟩ := Option.map_eq_some_iff.mp h
    exact .cons ⟨hkey, beq_load hw.1 hj⟩ (fields_stored hw.2 hst)

end

theorem wellKeyedFields_iff {fields : List (PyKey × PyValue Obj)} :
    WellKeyedFields fields ↔ ∀ e ∈ fields, WellKeyed e.2 := by
  induction fields with
  | nil => simp [WellKeyedFields]
  | cons e rest ih =>
    obtain ⟨k, v⟩ := e
    rw [WellKeyedFields, ih, List.forall_mem_cons]

theorem ofPairs_named (pairs : List (String × PyValue Obj)) : ∀ e ∈ ofPairs pairs, e.1.isStr = true := by
  intro e he
  obtain ⟨p, -, rfl⟩ := mem_ofPairs he
  rfl

private theorem ofPairs_wellKeyed {pairs : List (String × PyValue Obj)}
    (h : ∀ p ∈ pairs, WellKeyed p.2) : WellKeyed (.dict (ofPairs pairs)) := by
  refine ⟨?_, wellKeyedFields_iff.mpr ?_⟩
  · have hnodup : ((ofPairs pairs).map fun e => e.1).Nodup := ofPairs_nodup
    apply hnodup.imp_of_mem
    intro k k' hk hk' hne
    obtain ⟨e', he', rfl⟩ := List.mem_map.mp hk'
    obtain ⟨s, hs⟩ := PyKey.isStr_iff.mp (ofPairs_named pairs e' he')
    rw [hs] at hne ⊢
    exact Bool.eq_false_iff.mpr fun hb => hne (PyKey.beq_str.mp hb)
  · intro e he
    obtain ⟨p, hp, rfl⟩ := mem_ofPairs he
    exact h p hp

mutual

/-- What comes out of the column has each key once. -/
theorem load_wellKeyed : ∀ j : Json, WellKeyed (load j : PyValue Obj)
  | .null => trivial
  | .bool _ => trivial
  | .num _ => trivial
  | .str _ => trivial
  | .arr xs => loadList_wellKeyed xs
  | .obj fields => ofPairs_wellKeyed (loadFields_wellKeyed fields)

theorem loadList_wellKeyed : ∀ js : List Json, WellKeyedList (loadList js : List (PyValue Obj))
  | [] => trivial
  | j :: js => ⟨load_wellKeyed j, loadList_wellKeyed js⟩

theorem loadFields_wellKeyed : ∀ fields : JsonDict,
    ∀ p ∈ (loadFields fields : List (String × PyValue Obj)), WellKeyed p.2
  | [] => fun _ hp => absurd hp List.not_mem_nil
  | (_, j) :: rest => List.forall_mem_cons.mpr ⟨load_wellKeyed j, loadFields_wellKeyed rest⟩

end

private theorem ofPairs_plain {pairs : List (String × PyValue Obj)}
    (h : ∀ p ∈ pairs, plain py p.2 = true) : plainFields py (ofPairs pairs) = true := by
  apply (plainFields_iff py).mpr
  intro e he
  obtain ⟨p, hp, rfl⟩ := mem_ofPairs he
  exact ⟨⟨p.1, rfl⟩, h p hp⟩

mutual

/-- What came out of the column once comes out equal. -/
theorem load_plain : ∀ j : Json, plain py (load j) = true
  | .null => rfl
  | .bool _ => rfl
  | .num _ => rfl
  | .str _ => rfl
  | .arr xs => loadList_plain xs
  | .obj fields => ofPairs_plain py (loadFields_plain fields)

theorem loadList_plain : ∀ js : List Json, plainList py (loadList js) = true
  | [] => rfl
  | j :: js => Bool.and_eq_true_iff.mpr ⟨load_plain j, loadList_plain js⟩

theorem loadFields_plain : ∀ fields : JsonDict, ∀ p ∈ loadFields fields, plain py p.2 = true
  | [] => fun _ hp => absurd hp List.not_mem_nil
  | (_, j) :: rest => List.forall_mem_cons.mpr ⟨load_plain j, loadFields_plain rest⟩

end

end PyValue

structure PyCall (Obj : Type) where
  func : String
  args : List (PyValue Obj)
  kwargs : List (PyKey × PyValue Obj)
  args_keyed : PyValue.WellKeyedList args
  kwargs_keyed : PyValue.WellKeyed (.dict kwargs)
  kwargs_named : ∀ e ∈ kwargs, e.1.isStr = true

namespace PyCall
variable {Obj : Type} (py : PyObjects Obj)

def positional (func : String) (args : List (PyValue Obj)) (h : PyValue.WellKeyedList args) : PyCall Obj where
  func := func
  args := args
  kwargs := []
  args_keyed := h
  kwargs_keyed := ⟨.nil, trivial⟩
  kwargs_named := fun _ he => absurd he List.not_mem_nil

/-- The columns `task_args` and `task_kwargs`, when the encoder raises nothing. -/
def dump (c : PyCall Obj) : Option (List Json × JsonDict) :=
  (PyValue.dumpList py c.args).bind fun args => (PyValue.dumpFields py c.kwargs).map (args, ·)

/-- The call the columns give back. -/
def ofColumns (func : String) (args : List Json) (kwargs : JsonDict) : PyCall Obj where
  func := func
  args := PyValue.loadList args
  kwargs := PyValue.ofPairs (PyValue.loadFields kwargs)
  args_keyed := PyValue.loadList_wellKeyed args
  kwargs_keyed := PyValue.load_wellKeyed (.obj kwargs)
  kwargs_named := PyValue.ofPairs_named _

/-- One function, called with equal arguments. -/
def Same (c c' : PyCall Obj) : Prop :=
  c = c' ∨ c.func = c'.func ∧ (PyValue.list c.args).beq py (.list c'.args) = true ∧
    (PyValue.dict c.kwargs).beq py (.dict c'.kwargs) = true

/-- Whether the columns give the arguments back equal. -/
def plain (c : PyCall Obj) : Bool := PyValue.plainList py c.args && PyValue.plainFields py c.kwargs

theorem plain_ofColumns (func : String) (args : List Json) (kwargs : JsonDict) :
    (ofColumns func args kwargs).plain py = true :=
  Bool.and_eq_true_iff.mpr ⟨PyValue.loadList_plain py args, PyValue.load_plain py (.obj kwargs)⟩

theorem same_ofColumns {c : PyCall Obj} {args : List Json} {kwargs : JsonDict}
    (h : c.dump py = some (args, kwargs)) : c.Same py (ofColumns c.func args kwargs) ↔ c.plain py = true := by
  obtain ⟨args', hargs, h⟩ := Option.bind_eq_some_iff.mp h
  obtain ⟨kwargs', hkwargs, he⟩ := Option.map_eq_some_iff.mp h
  cases he
  have hlist : PyValue.dump py (.list c.args) = some (.arr args) := by
    rw [PyValue.dump, hargs, Option.map_some]
  have hdict : PyValue.dump py (.dict c.kwargs) = some (.obj kwargs) := by
    rw [PyValue.dump, hkwargs, Option.map_some]
  have hargs' := PyValue.beq_load py (v := .list c.args) c.args_keyed hlist
  have hkwargs' := PyValue.beq_load py c.kwargs_keyed hdict
  rw [plain, Bool.and_eq_true]
  constructor
  · rintro (he | ⟨-, hl, hd⟩)
    · have hp := plain_ofColumns py c.func args kwargs
      rw [← he] at hp
      exact Bool.and_eq_true_iff.mp hp
    · exact ⟨hargs'.symm.trans hl, hkwargs'.symm.trans hd⟩
  · rintro ⟨hl, hd⟩
    exact .inr ⟨rfl, hargs'.trans hl, hkwargs'.trans hd⟩

end PyCall
end Qraft
