import Qraft.Foundations.Depths
import Qraft.Graphs.Plan

/-! What `_validate_topology` accepts, and the depths `_compute_depths` gives what it accepted. -/
namespace Qraft
namespace GraphPlan

/-- The dictionary `by_key` of `_compute_depths`, for keys declared once. -/
def byKey (nodes : List NodeSpec) (key : String) : Option (List String) :=
  (nodes.find? fun n => n.key = key).map fun n => n.after

/-- `_compute_depths`. `none` would be a `KeyError`, or a recursion that outgrows the node list. -/
def computeDepths (nodes : List NodeSpec) : Option (List (String × Nat)) :=
  Digraph.depths (byKey nodes) (nodes.length + 1) (keys nodes)

def DependsOn (nodes : List NodeSpec) (a b : String) : Prop := ∃ n ∈ nodes, n.key = a ∧ b ∈ n.after

/-- The length of the longest dependency path from a root of the plan to a node. -/
def LongestFromRoot (nodes : List NodeSpec) (key : String) (d : Nat) : Prop :=
  IsGreatest {m | ∃ r ∈ nodes, r.after = [] ∧ Digraph.Path (DependsOn nodes) r.key m key} d

section
variable {nodes : List NodeSpec}

private theorem find?_of_mem (hn : (keys nodes).Nodup) {n : NodeSpec} (h : n ∈ nodes) :
    nodes.find? (fun m => m.key = n.key) = some n := by
  have hg := @Rows.get?_of_mem _ _ _ (fun n : NodeSpec => n.key) _ hn _ h
  rw [Rows.get?] at hg
  exact hg

private theorem byKey_of_mem (hn : (keys nodes).Nodup) {n : NodeSpec} (h : n ∈ nodes) :
    byKey nodes n.key = some n.after := by
  rw [byKey, find?_of_mem hn h]
  rfl

private theorem edges_eq (nodes : List NodeSpec) (key : String) :
    edges nodes key = (byKey nodes key).getD [] := by
  rw [edges, byKey]
  cases nodes.find? fun n => n.key = key with
  | none => rfl
  | some n => rfl

/-- Both dictionaries hold the plan's dependencies. -/
private theorem entry_eq (hn : (keys nodes).Nodup) : Digraph.Entry (byKey nodes) = DependsOn nodes := by
  funext a b
  apply propext
  constructor
  · rintro ⟨after, hafter, hb⟩
    obtain ⟨n, hfind, rfl⟩ := Option.map_eq_some_iff.mp hafter
    have hkey := List.find?_some hfind
    exact ⟨n, List.mem_of_find?_eq_some hfind, of_decide_eq_true hkey, hb⟩
  · rintro ⟨n, hmem, rfl, hb⟩
    exact ⟨n.after, byKey_of_mem hn hmem, hb⟩

private theorem below_eq (hn : (keys nodes).Nodup) : Digraph.Below (edges nodes) = DependsOn nodes := by
  rw [← entry_eq hn]
  funext a b
  apply propext
  rw [Digraph.Below, edges_eq, Digraph.Entry]
  cases byKey nodes a with
  | none => simp
  | some after => simp

theorem checkDependencies_eq_ok_iff {n : NodeSpec} : checkDependencies nodes n = .ok () ↔
    n.key ∉ n.after ∧ ∀ d ∈ n.after, d ∈ keys nodes := by
  constructor
  · exact checkDependencies_eq_ok
  · rintro ⟨hself, hknown⟩
    have hunknown : (n.after.filter fun d => d ∉ keys nodes) = [] := by
      rw [List.filter_eq_nil_iff]
      intro d hd
      simpa using hknown d hd
    rw [checkDependencies, if_neg hself, hunknown]
    rfl

private theorem keys_of_dependsOn {a b : String} (h : DependsOn nodes a b) : a ∈ keys nodes := by
  obtain ⟨n, hn, rfl, -⟩ := h
  exact List.mem_map_of_mem hn

private theorem closed_of_known (h : ∀ n ∈ nodes, ∀ d ∈ n.after, d ∈ keys nodes) :
    ∀ a ∈ keys nodes, ∀ b, DependsOn nodes a b → b ∈ keys nodes := by
  rintro a - b ⟨n, hn, -, hb⟩
  exact h n hn b hb

private theorem length_keys (nodes : List NodeSpec) : (keys nodes).length = nodes.length :=
  List.length_map ..

private theorem hasCycle_eq_false_iff (hn : (keys nodes).Nodup)
    (hknown : ∀ n ∈ nodes, ∀ d ∈ n.after, d ∈ keys nodes) :
    hasCycle nodes = false ↔ Digraph.Acyclic (DependsOn nodes) := by
  rw [hasCycle, ← below_eq hn]
  constructor
  · intro h
    apply Digraph.acyclic_of_not_hasCycle _ h
    intro a b hab
    rw [below_eq hn] at hab
    exact keys_of_dependsOn hab
  · intro hac
    rw [← length_keys]
    apply Digraph.hasCycle_eq_false hac
    rw [below_eq hn]
    exact closed_of_known hknown

/-- The checks accept the plans whose dependencies are known, never the node itself, and acyclic. -/
theorem validateTopology_eq_ok (hn : (keys nodes).Nodup) : validateTopology nodes = .ok () ↔
    (∀ n ∈ nodes, ∀ d ∈ n.after, d ∈ keys nodes) ∧ (∀ n ∈ nodes, n.key ∉ n.after) ∧
      Digraph.Acyclic (DependsOn nodes) := by
  rw [validateTopology, Transaction.bind_eq_ok]
  constructor
  · rintro ⟨_, hdeps, hcycle⟩
    have hnode (n : NodeSpec) (h : n ∈ nodes) := checkDependencies_eq_ok (Transaction.forM_eq_ok.mp hdeps n h)
    have hknown : ∀ n ∈ nodes, ∀ d ∈ n.after, d ∈ keys nodes := fun n h => (hnode n h).2
    split at hcycle
    · cases hcycle
    · rename_i hno
      exact ⟨hknown, fun n h => (hnode n h).1, (hasCycle_eq_false_iff hn hknown).mp (by simpa using hno)⟩
  · rintro ⟨hknown, hself, hac⟩
    refine ⟨(), Transaction.forM_eq_ok.mpr ?_, ?_⟩
    · intro n h
      exact checkDependencies_eq_ok_iff.mpr ⟨hself n h, hknown n h⟩
    · rw [(hasCycle_eq_false_iff hn hknown).mpr hac]
      rfl

/-- A path below a node of the plan starts at a node of the plan. -/
private theorem start_mem (hknown : ∀ n ∈ nodes, ∀ d ∈ n.after, d ∈ keys nodes) {r key : String} {m : Nat}
    (hkey : key ∈ keys nodes) (h : Digraph.Path (DependsOn nodes) r m key) : r ∈ keys nodes := by
  induction h with
  | nil => exact hkey
  | snoc _ hc ih => exact ih (closed_of_known hknown _ hkey _ hc)

private theorem height_iff (hn : (keys nodes).Nodup)
    (hknown : ∀ n ∈ nodes, ∀ d ∈ n.after, d ∈ keys nodes) {key : String} (hkey : key ∈ keys nodes) {d : Nat} :
    Digraph.Height (DependsOn nodes) key d ↔ LongestFromRoot nodes key d := by
  have hset : {m | ∃ r, (∀ b, ¬ DependsOn nodes r b) ∧ Digraph.Path (DependsOn nodes) r m key} =
      {m | ∃ r ∈ nodes, r.after = [] ∧ Digraph.Path (DependsOn nodes) r.key m key} := by
    ext m
    constructor
    · rintro ⟨r, hroot, hpath⟩
      obtain ⟨n, hmem, rfl⟩ := List.mem_map.mp (start_mem hknown hkey hpath)
      refine ⟨n, hmem, ?_, hpath⟩
      apply List.eq_nil_iff_forall_not_mem.mpr
      exact fun b hb => hroot b ⟨n, hmem, rfl, hb⟩
    · rintro ⟨n, hmem, hnil, hpath⟩
      refine ⟨n.key, ?_, hpath⟩
      rintro b ⟨n', hmem', hkey', hb⟩
      have hsame : n' = n := Rows.eq_of_key_eq hn hmem' hmem hkey'
      rw [hsame, hnil] at hb
      cases hb
  rw [Digraph.Height, LongestFromRoot, hset]

private theorem foldl_max (l : List Nat) (a : Nat) :
    a ≤ l.foldl max a ∧ (∀ x ∈ l, x ≤ l.foldl max a) ∧ (l.foldl max a = a ∨ l.foldl max a ∈ l) := by
  induction l generalizing a with
  | nil => exact ⟨le_rfl, by simp, .inl rfl⟩
  | cons b l ih =>
    obtain ⟨hle, hall, hmem⟩ := ih (max a b)
    rw [List.foldl_cons]
    refine ⟨by omega, ?_, ?_⟩
    · intro x hx
      rcases List.mem_cons.mp hx with hx | hx
      · omega
      · exact hall x hx
    · rcases hmem with he | hmem
      · rcases max_choice a b with hc | hc
        · exact .inl (he.trans hc)
        · exact .inr (List.mem_cons.mpr (.inl (he.trans hc)))
      · exact .inr (List.mem_cons_of_mem b hmem)

/-- The plain recursion that fills the rows finds the height too. -/
private theorem height_depthOf (hn : (keys nodes).Nodup) {fuel : Nat} {key : String}
    (hfuel : ∀ r m, Digraph.Path (DependsOn nodes) r m key → m < fuel) :
    Digraph.Height (DependsOn nodes) key (depthOf nodes fuel key) := by
  induction fuel generalizing key with
  | zero => exact absurd (hfuel key 0 .nil) (Nat.lt_irrefl 0)
  | succ fuel ih =>
    have hedge (b : String) : DependsOn nodes key b ↔ b ∈ edges nodes key := by
      rw [← below_eq hn, Digraph.Below]
    have hbelow : ∀ b ∈ edges nodes key, Digraph.Height (DependsOn nodes) b (depthOf nodes fuel b) := by
      intro b hb
      apply ih
      intro r m hpath
      have hlonger := hfuel r (m + 1) (hpath.snoc ((hedge b).mpr hb))
      omega
    rw [depthOf]
    split
    · rename_i hnil
      apply Digraph.height_zero
      intro b hb
      rw [hedge, hnil] at hb
      cases hb
    · rename_i hne
      obtain ⟨-, hall, hmem⟩ := foldl_max ((edges nodes key).map (depthOf nodes fuel)) 0
      have hdeep : ∃ b ∈ edges nodes key,
          depthOf nodes fuel b = ((edges nodes key).map (depthOf nodes fuel)).foldl max 0 := by
        rcases hmem with hzero | hmem
        · obtain ⟨b, hb⟩ := List.exists_mem_of_ne_nil _ hne
          have hle := hall _ (List.mem_map_of_mem hb)
          exact ⟨b, hb, by omega⟩
        · exact List.mem_map.mp hmem
      obtain ⟨b, hb, he⟩ := hdeep
      rw [Nat.add_comm, ← he]
      apply Digraph.height_succ ((hedge b).mpr hb) (hbelow b hb)
      intro c hc
      have hc := (hedge c).mp hc
      refine ⟨_, hbelow c hc, ?_⟩
      rw [he]
      exact hall _ (List.mem_map_of_mem hc)

/-- Of an accepted plan every dependency path is shorter than the list of nodes. -/
private theorem path_lt (hac : Digraph.Acyclic (DependsOn nodes))
    (hknown : ∀ n ∈ nodes, ∀ d ∈ n.after, d ∈ keys nodes) {key : String} (hkey : key ∈ keys nodes) (r : String)
    (m : Nat) (h : Digraph.Path (DependsOn nodes) r m key) : m < nodes.length := by
  rw [← length_keys]
  exact h.length_lt hac (closed_of_known hknown) hkey

/-- A plan is accepted exactly when its dependencies are known, never the node itself, and acyclic;
and then the depths are found, are those of the rows, and are the longest paths from a root. -/
theorem topology_validated (nodes : List NodeSpec) (hn : (keys nodes).Nodup) :
    (validateTopology nodes = .ok () ↔
      (∀ n ∈ nodes, ∀ d ∈ n.after, d ∈ keys nodes) ∧ (∀ n ∈ nodes, n.key ∉ n.after) ∧
        Digraph.Acyclic (DependsOn nodes)) ∧
    (validateTopology nodes = .ok () → ∃ depths, computeDepths nodes = some depths ∧
      (∀ n ∈ nodes, ∃ d, Dict.get? depths n.key = some d ∧ LongestFromRoot nodes n.key d ∧
        ∀ position, (nodeRow nodes position n).depth = d) ∧
      ∀ n ∈ nodes, ∀ dep ∈ n.after, ∃ d e, Dict.get? depths n.key = some d ∧
        Dict.get? depths dep = some e ∧ e < d) := by
  refine ⟨validateTopology_eq_ok hn, ?_⟩
  intro haccepted
  obtain ⟨hknown, -, hac⟩ := (validateTopology_eq_ok hn).mp haccepted
  have hentry : ∀ key ∈ keys nodes, (byKey nodes key).isSome := by
    intro key hkey
    obtain ⟨n, hmem, rfl⟩ := List.mem_map.mp hkey
    rw [byKey_of_mem hn hmem]
    rfl
  have hclosed := closed_of_known hknown
  have hpaths := fun key hkey => @path_lt _ hac hknown key hkey
  rw [← entry_eq hn] at hac hclosed hpaths
  obtain ⟨depths, hdepths, hheight⟩ := @Digraph.depths_spec _ _ _ (nodes.length + 1) (keys nodes)
    (fun key hkey r m hpath => by
      have hlt := hpaths key hkey r m hpath
      omega) hclosed hentry
  rw [entry_eq hn] at hheight hpaths
  have hfound : ∀ key ∈ keys nodes, ∃ d, Dict.get? depths key = some d ∧
      Digraph.Height (DependsOn nodes) key d := hheight
  refine ⟨depths, hdepths, ?_, ?_⟩
  · intro n hmem
    have hkey : n.key ∈ keys nodes := List.mem_map_of_mem hmem
    obtain ⟨d, hget, hd⟩ := hfound n.key hkey
    refine ⟨d, hget, (height_iff hn hknown hkey).mp hd, ?_⟩
    intro position
    exact (height_depthOf hn (hpaths n.key hkey)).unique hd
  · intro n hmem dep hdep
    obtain ⟨d, hget, hd⟩ := hfound n.key (List.mem_map_of_mem hmem)
    obtain ⟨e, hget', he⟩ := hfound dep (hknown n hmem dep hdep)
    exact ⟨d, e, hget, hget', hd.lt ⟨n, hmem, rfl, hdep⟩ he⟩

end

/-- Two ways down from the last node to the first, the longer by a middle one; declared last first. -/
private def diamond : List NodeSpec :=
  [{ key := "publish", func := "f", after := ["fetch", "merge", "fetch"], recovery := .idempotent },
    { key := "merge", func := "f", after := ["fetch"], recovery := .idempotent },
    { key := "fetch", func := "f", recovery := .idempotent }]

theorem diamond_depth : LongestFromRoot diamond "publish" 2 := by
  have hn : (keys diamond).Nodup := by decide
  obtain ⟨depths, hdepths, hlongest, -⟩ := (topology_validated diamond hn).2 rfl
  obtain ⟨d, hget, hd, -⟩ := hlongest _ List.mem_cons_self
  have hfound : computeDepths diamond = some [("fetch", 0), ("merge", 1), ("publish", 2)] := by decide
  rw [hfound] at hdepths
  cases hdepths
  cases hget
  exact hd

end GraphPlan
end Qraft
