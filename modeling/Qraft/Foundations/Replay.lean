import Qraft.Foundations.StepSystem

/-! A procedure of several transactions that is run again and again beside a system: once one run
of it has come to its end, the later ones leave the runs of the system as they are. -/

/-- What a process begins with, and what its next transaction does: `none` where it dies of an
exception and the transaction rolls back. `ι` is what the transaction gets from outside. -/
structure Procedure (σ ρ ι : Type*) where
  enter : σ → ρ
  halted : ρ → Bool
  next : ι → σ → ρ → Option (σ × ρ)

namespace Procedure
variable {σ ε ρ ι : Type*} {p : Procedure σ ρ ι} {sys : StepSystem σ ε} {P : ε → Prop}
  {F : σ → ρ → Prop}

/-- A process comes to its end. It takes its transactions in states that meet `F`, and steps of the
system that meet `P` happen in between. -/
inductive Ends (p : Procedure σ ρ ι) (sys : StepSystem σ ε) (P : ε → Prop) (F : σ → ρ → Prop) :
    σ → ρ → σ → Prop where
  | halted {s : σ} {r : ρ} (ho : p.halted r = true) : Ends p sys P F s r s
  | other {s t u : σ} {r : ρ} {e : ε} (hp : P e) (hs : sys.step s e = some t)
      (h : Ends p sys P F t r u) : Ends p sys P F s r u
  | next {s t u : σ} {r r' : ρ} {i : ι} (ho : p.halted r = false) (hf : F s r)
      (hn : p.next i s r = some (t, r')) (h : Ends p sys P F t r' u) : Ends p sys P F s r u

inductive Beside (ε ι : Type*) where
  /-- A step of the system. -/
  | own (e : ε)
  | enter
  | next (k : Nat) (i : ι)
  | crash (k : Nat)

def Beside.own? : Beside ε ι → Option ε
  | .own e => some e
  | _ => none

def own (es : List (Beside ε ι)) : List ε := es.filterMap Beside.own?

def advance (p : Procedure σ ρ ι) (i : ι) (x : σ × List ρ) (k : Nat) (r : ρ) : σ × List ρ :=
  match p.next i x.1 r with
  | some (t, r') => (t, x.2.set k r')
  | none => (x.1, x.2.eraseIdx k)

def beside (p : Procedure σ ρ ι) (sys : StepSystem σ ε) : StepSystem (σ × List ρ) (Beside ε ι) where
  init x := sys.init x.1 ∧ x.2 = []
  step x
    | .own e => (sys.step x.1 e).map fun t => (t, x.2)
    | .enter => some (x.1, x.2 ++ [p.enter x.1])
    | .next k i => x.2[k]?.bind fun r => if p.halted r then none else some (p.advance i x k r)
    | .crash k => some (x.1, x.2.eraseIdx k)

/-- Once the procedure has run to its end, running it any number of further times beside the system
leads where the system comes to on its own. -/
def ReplaySafe (p : Procedure σ ρ ι) (sys : StepSystem σ ε) (P : ε → Prop) (F : σ → ρ → Prop)
    (s : σ) : Prop :=
  ∀ t, p.Ends sys P F s (p.enter s) t → ∀ es, (∀ e ∈ own es, P e) →
    ∀ t' rs, (p.beside sys).run (t, []) es = some (t', rs) → sys.run t (own es) = some t'

/-- Why running a procedure again changes nothing: `Spent` is left by no step, and a process that
begins in it is `Idle` and stays so. -/
structure Absorbs (p : Procedure σ ρ ι) (sys : StepSystem σ ε) (P : ε → Prop) (Spent : σ → Prop)
    (Idle : σ → ρ → Prop) : Prop where
  spent : ∀ s e t, Spent s → P e → sys.step s e = some t → Spent t
  enter : ∀ s, Spent s → Idle s (p.enter s)
  idle : ∀ s e t r, Spent s → Idle s r → P e → sys.step s e = some t → Idle t r
  next : ∀ s i r t r', Spent s → Idle s r → p.halted r = false → p.next i s r = some (t, r') →
    t = s ∧ Idle s r'

namespace Absorbs
variable {Spent : σ → Prop} {Idle : σ → ρ → Prop}

/-- One step beside the system is the system's own, or leaves its state alone. -/
private theorem step (h : p.Absorbs sys P Spent Idle) {s t : σ} {rs rs' : List ρ} {e : Beside ε ι}
    (hs : Spent s) (hr : ∀ r ∈ rs, Idle s r) (hp : ∀ e' ∈ e.own?, P e')
    (hstep : (p.beside sys).step (s, rs) e = some (t, rs')) :
    Spent t ∧ (∀ r ∈ rs', Idle t r) ∧
      ((∃ e', e = .own e' ∧ sys.step s e' = some t) ∨ (e.own? = none ∧ t = s)) := by
  cases e with
  | own e =>
    obtain ⟨u, hu, he⟩ := Option.map_eq_some_iff.mp hstep
    cases he
    have hpe : P e := hp e rfl
    exact ⟨h.spent s e t hs hpe hu, fun r hm => h.idle s e t r hs (hr r hm) hpe hu, .inl ⟨e, rfl, hu⟩⟩
  | enter =>
    cases hstep
    refine ⟨hs, ?_, .inr ⟨rfl, rfl⟩⟩
    intro r hm
    rcases List.mem_append.mp hm with hm | hm
    · exact hr r hm
    · rw [List.mem_singleton.mp hm]
      exact h.enter _ hs
  | next k i =>
    obtain ⟨r, hk, he⟩ := Option.bind_eq_some_iff.mp hstep
    have hidle := hr r (List.mem_of_getElem? hk)
    split at he
    · cases he
    · rename_i ho
      have he := Option.some.inj he
      rw [advance] at he
      cases hn : p.next i s r with
      | none =>
        simp only [hn] at he
        cases he
        exact ⟨hs, fun x hx => hr x (List.mem_of_mem_eraseIdx hx), .inr ⟨rfl, rfl⟩⟩
      | some y =>
        obtain ⟨rfl, hidle'⟩ := h.next s i r y.1 y.2 hs hidle (Bool.not_eq_true _ ▸ ho) hn
        simp only [hn] at he
        cases he
        refine ⟨hs, ?_, .inr ⟨rfl, rfl⟩⟩
        intro x hx
        rcases List.mem_or_eq_of_mem_set hx with hx | rfl
        · exact hr x hx
        · exact hidle'
  | crash k =>
    cases hstep
    exact ⟨hs, fun x hx => hr x (List.mem_of_mem_eraseIdx hx), .inr ⟨rfl, rfl⟩⟩

/-- Where nothing is left to do, a run with replays is a run without them. -/
theorem run (h : p.Absorbs sys P Spent Idle) {es : List (Beside ε ι)} {s t : σ} {rs rs' : List ρ}
    (hs : Spent s) (hr : ∀ r ∈ rs, Idle s r) (hp : ∀ e ∈ own es, P e)
    (hrun : (p.beside sys).run (s, rs) es = some (t, rs')) : sys.run s (own es) = some t := by
  induction es generalizing s rs with
  | nil =>
    cases hrun
    rfl
  | cons e es ih =>
    obtain ⟨⟨u, us⟩, hu, hrest⟩ := Option.bind_eq_some_iff.mp hrun
    have hpe : ∀ e' ∈ e.own?, P e' := by
      intro e' he'
      exact hp e' (List.mem_filterMap.mpr ⟨e, List.mem_cons_self, he'⟩)
    have hps : ∀ e' ∈ own es, P e' := by
      intro e' he'
      obtain ⟨x, hx, hxe⟩ := List.mem_filterMap.mp he'
      exact hp e' (List.mem_filterMap.mpr ⟨x, List.mem_cons_of_mem e hx, hxe⟩)
    obtain ⟨hsu, hru, ⟨e', rfl, hstep⟩ | ⟨hnone, rfl⟩⟩ := h.step hs hr hpe hu
    · have hown : own (.own e' :: es : List (Beside ε ι)) = e' :: own es := List.filterMap_cons_some rfl
      rw [hown, StepSystem.run, hstep, Option.bind_some]
      exact ih hsu hru hps hrest
    · rw [own, List.filterMap_cons_none hnone]
      exact ih hsu hru hps hrest

end Absorbs

/-- What a process keeps up along its first run holds at its end. -/
theorem Ends.invariant (Going : σ → ρ → Prop)
    (hother : ∀ s e t r, Going s r → P e → sys.step s e = some t → Going t r)
    (hnext : ∀ s i r t r', Going s r → F s r → p.next i s r = some (t, r') → Going t r')
    {s t : σ} {r : ρ} (h : p.Ends sys P F s r t) (hg : Going s r) : ∃ r', p.halted r' = true ∧ Going t r' := by
  induction h with
  | halted ho => exact ⟨_, ho, hg⟩
  | other hp hs _ ih => exact ih (hother _ _ _ _ hg hp hs)
  | next _ hf hn _ ih => exact ih (hnext _ _ _ _ _ hg hf hn)

/-- A first run that leaves nothing to do makes every later one idle. -/
theorem Absorbs.replaySafe {Spent : σ → Prop} {Idle : σ → ρ → Prop} (h : p.Absorbs sys P Spent Idle)
    (Going : σ → ρ → Prop)
    (hother : ∀ s e t r, Going s r → P e → sys.step s e = some t → Going t r)
    (hnext : ∀ s i r t r', Going s r → F s r → p.next i s r = some (t, r') → Going t r')
    (hhalt : ∀ s r, Going s r → p.halted r = true → Spent s) {s : σ} (hg : Going s (p.enter s)) :
    p.ReplaySafe sys P F s := by
  intro t hends es hp t' rs hrun
  obtain ⟨r, ho, hgt⟩ := hends.invariant Going hother hnext hg
  exact h.run (hhalt t r hgt ho) (fun r hr => absurd hr List.not_mem_nil) hp hrun

end Procedure
