import Mathlib.Data.List.Basic
import Mathlib.Logic.Function.Basic

/-!
# Machines driven by events

A machine reacts to events, one at a time; an event that is not possible in a state has no
successor there. A run is a list of events, all of them possible in turn.

* `run_induction` is the invariant rule. Its guard `G` is a condition on the state before a step
  and the event, for invariants that only some runs keep.
* `Abstraction M N` maps states to the states of a smaller machine, and events to its events or
  to none. The abstract run takes the visible events of the concrete one (`Abstraction.run_abs`).
* Two runs with the same visible events therefore cannot be told apart in `N`
  (`Abstraction.abs_eq_of_visible_eq`), which is how noninterference is proved.
-/

structure Machine (σ ε : Type) where
  step : σ → ε → Option σ

namespace Machine

variable {σ τ ε δ : Type} (M : Machine σ ε)

/-- The state after a list of events, if they are possible one after the other. -/
def run : σ → List ε → Option σ
  | s, [] => some s
  | s, e :: es => (M.step s e).bind fun s' => run s' es

/-- Every event of a run meets `G` in the state in which it happens. -/
def Always (G : σ → ε → Prop) : σ → List ε → Prop
  | _, [] => True
  | s, e :: es => G s e ∧ ∀ s', M.step s e = some s' → Always G s' es

variable {M}

@[simp] theorem run_nil (s : σ) : M.run s [] = some s := rfl

theorem run_cons_eq_some_iff {s s'' : σ} {e : ε} {es : List ε} :
    M.run s (e :: es) = some s'' ↔ ∃ s', M.step s e = some s' ∧ M.run s' es = some s'' :=
  Option.bind_eq_some_iff

@[simp] theorem run_singleton (s : σ) (e : ε) : M.run s [e] = M.step s e := by
  simp [run]

theorem run_append_eq_some_iff {s s'' : σ} {es fs : List ε} :
    M.run s (es ++ fs) = some s'' ↔ ∃ s', M.run s es = some s' ∧ M.run s' fs = some s'' := by
  induction es generalizing s with
  | nil => simp
  | cons e es ih =>
    rw [List.cons_append, run_cons_eq_some_iff]
    constructor
    · rintro ⟨s₁, hstep, hrun⟩
      obtain ⟨s', hrun₁, hrun₂⟩ := ih.mp hrun
      exact ⟨s', run_cons_eq_some_iff.mpr ⟨s₁, hstep, hrun₁⟩, hrun₂⟩
    · rintro ⟨s', hrun₁, hrun₂⟩
      obtain ⟨s₁, hstep, hrun₁⟩ := run_cons_eq_some_iff.mp hrun₁
      exact ⟨s₁, hstep, ih.mpr ⟨s', hrun₁, hrun₂⟩⟩

/-! ### Guarded runs -/

variable {G : σ → ε → Prop}

/-- A guard that the events meet by themselves. -/
theorem always_of_forall_mem {es : List ε} (h : ∀ e ∈ es, ∀ s, G s e) (s : σ) :
    M.Always G s es := by
  induction es generalizing s with
  | nil => trivial
  | cons e es ih =>
    rw [List.forall_mem_cons] at h
    exact ⟨h.1 s, fun s' _ => ih h.2 s'⟩

theorem always_append_iff {s : σ} {es fs : List ε} :
    M.Always G s (es ++ fs) ↔ M.Always G s es ∧ ∀ s', M.run s es = some s' → M.Always G s' fs := by
  induction es generalizing s with
  | nil => simp [Always]
  | cons e es ih =>
    simp only [List.cons_append, Always, ih, run_cons_eq_some_iff]
    constructor
    · rintro ⟨hG, h⟩
      refine ⟨⟨hG, fun s' hs' => (h s' hs').1⟩, ?_⟩
      rintro s'' ⟨s', hs', hrun⟩
      exact (h s' hs').2 s'' hrun
    · rintro ⟨⟨hG, h⟩, hrest⟩
      exact ⟨hG, fun s' hs' => ⟨h s' hs', fun s'' hrun => hrest s'' ⟨s', hs', hrun⟩⟩⟩

/-- **Invariant rule.** What every step that meets its guard preserves holds after the run. -/
theorem run_induction {Inv : σ → Prop}
    (hstep : ∀ s e s', Inv s → G s e → M.step s e = some s' → Inv s') {s s' : σ} {es : List ε}
    (hG : M.Always G s es) (hrun : M.run s es = some s') (h : Inv s) : Inv s' := by
  induction es generalizing s with
  | nil =>
    obtain rfl := Option.some.inj hrun
    exact h
  | cons e es ih =>
    obtain ⟨s₁, hs₁, hrun⟩ := run_cons_eq_some_iff.mp hrun
    exact ih (hG.2 s₁ hs₁) hrun (hstep s e s₁ h hG.1 hs₁)

/-- The invariant rule without a guard. -/
theorem run_invariant {Inv : σ → Prop} (hstep : ∀ s e s', Inv s → M.step s e = some s' → Inv s')
    {s s' : σ} {es : List ε} (hrun : M.run s es = some s') (h : Inv s) : Inv s' :=
  run_induction (fun s e s' hs _ => hstep s e s' hs)
    (always_of_forall_mem (fun _ _ _ => trivial) s) hrun h

/-! ### Abstraction -/

/-- A smaller machine that follows every step of `M`: a visible event is an event of `N`, any
other leaves the abstract state as it is. `Inv` is what the states of the runs in question
keep. -/
structure Abstraction (M : Machine σ ε) (N : Machine τ δ) (G : σ → ε → Prop) where
  abs : σ → τ
  visible : ε → Option δ
  Inv : σ → Prop
  preserves : ∀ s e s', Inv s → G s e → M.step s e = some s' → Inv s'
  follows : ∀ s e s', Inv s → G s e → M.step s e = some s' →
    N.run (abs s) (visible e).toList = some (abs s')

namespace Abstraction

variable {N : Machine τ δ} (A : Abstraction M N G)

/-- **Simulation.** The abstract run takes the visible events. -/
theorem run_abs {s s' : σ} {es : List ε} (h : A.Inv s) (hG : M.Always G s es)
    (hrun : M.run s es = some s') : N.run (A.abs s) (es.filterMap A.visible) = some (A.abs s') := by
  induction es generalizing s with
  | nil =>
    obtain rfl := Option.some.inj hrun
    rfl
  | cons e es ih =>
    obtain ⟨s₁, hs₁, hrun⟩ := run_cons_eq_some_iff.mp hrun
    have hvisible : (e :: es).filterMap A.visible =
        (A.visible e).toList ++ es.filterMap A.visible := by
      rw [List.filterMap_cons]
      rcases A.visible e with _ | d <;> rfl
    rw [hvisible, run_append_eq_some_iff]
    exact ⟨A.abs s₁, A.follows s e s₁ h hG.1 hs₁,
      ih (A.preserves s e s₁ h hG.1 hs₁) (hG.2 s₁ hs₁) hrun⟩

/-- **Noninterference.** Runs with the same visible events, from states that look the same, end
in states that look the same, whatever their other events are. -/
theorem abs_eq_of_visible_eq {s t s' t' : σ} {es fs : List ε} (habs : A.abs s = A.abs t)
    (hs : A.Inv s) (ht : A.Inv t) (hGs : M.Always G s es) (hGt : M.Always G t fs)
    (hes : M.run s es = some s') (hfs : M.run t fs = some t')
    (hvisible : es.filterMap A.visible = fs.filterMap A.visible) : A.abs s' = A.abs t' := by
  have hrun := A.run_abs hs hGs hes
  rw [habs, hvisible, A.run_abs ht hGt hfs] at hrun
  exact (Option.some.inj hrun).symm

end Abstraction

end Machine
