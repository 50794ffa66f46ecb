import KeyBank.Foundation.Interleaving
import Mathlib.Data.List.Basic

/-!
# Critical sections

Commands that are programs themselves, over an object behind a lock. A body may do what does not
touch the state (read the clock, draw a number) at any time; between `lock` and `unlock`, with which
it ends, it may do anything (`Guarded`).

* `lockObject O`: the object `O` with a lock, whose commands several threads interleave. `Admitted`:
  a call of `lock` returns only while nobody holds it.
* `atomicObject O body`: the object whose commands are the bodies, each in one step.
* `Runs.linearize`: **the lock makes the bodies atomic.** For every run of programs whose commands
  are expanded into their bodies there is a run of the programs themselves over the atomic object
  with the same results, in which each command meets the environments of its own steps. The order
  of the commands is compatible with every moment of the run (`Stands` at every prefix).

The simulation behind it keeps the atomic state where the lock was taken (`Sim.held`) until the
holder lets go; whoever is outside of the lock has not touched the state (`Outside`).
-/

namespace Interleaving

variable {I J : Interface} {ε σ α β : Type}

/-! ### An object behind a lock -/

/-- The commands of an object, and those of its lock. -/
inductive LockCmd (C : Type) where
  | lock
  | unlock
  | op (c : C)

/-- What they reply. -/
@[reducible] def LockCmd.Reply (I : Interface) : LockCmd I.Cmd → Type
  | .lock => Unit
  | .unlock => Unit
  | .op c => I.Reply c

abbrev Locked (I : Interface) : Interface := ⟨LockCmd I.Cmd, LockCmd.Reply I⟩

/-- The object with its lock, which is held or not. -/
def lockObject (O : Object I ε σ) : Object (Locked I) ε (σ × Bool) where
  exec e
    | .lock, s => ((), (s.1, true))
    | .unlock, s => ((), (s.1, false))
    | .op c, s => ((O.exec e c s.1).1, ((O.exec e c s.1).2, s.2))

/-- A call of `lock` returns only while nobody holds the lock. -/
def Admitted (s : σ × Bool) (ev : Event (Locked I) ε) : Prop := ev.cmd = .lock → s.2 = false

/-- The bodies: outside of the lock they do what is `isLocal`, and with `unlock` they end. -/
def Guarded (isLocal : I.Cmd → Prop) : Bool → Prog (Locked I) α → Prop
  | held, .done _ => held = false
  | held, .call .lock next => held = false ∧ Guarded isLocal true (next ())
  | held, .call .unlock next => held = true ∧ ∃ a, next () = .done a
  | held, .call (.op c) next => (held = true ∨ isLocal c) ∧ ∀ r, Guarded isLocal held (next r)

/-! ### In one step -/

/-- A program runs to its end, and its calls meet these environments in order. -/
def Prog.eval [Inhabited ε] (O : Object I ε σ) : List ε → Prog I α → σ → α × σ
  | _, .done a, s => (a, s)
  | es, .call c next, s =>
    (next (O.exec es.headI c s).1).eval O es.tail (O.exec es.headI c s).2

/-- The commands of `J`, each with its body. -/
abbrev Bodies (I J : Interface) : Type := (c : J.Cmd) → Prog (Locked I) (J.Reply c)

/-- The bodies are commands. -/
def atomicObject [Inhabited ε] (O : Object I ε σ) (body : Bodies I J) : Object J (List ε) σ where
  exec es c s :=
    let out := (body c).eval (lockObject O) es (s, false)
    (out.1, out.2.1)

/-- The commands of a program are expanded into their bodies. -/
def Prog.expand (body : Bodies I J) : Prog J α → Prog (Locked I) α
  | .done a => .done a
  | .call c next => body c >>= fun r => (next r).expand body

/-- The environments of the steps of one thread, in order. -/
def envsOf (i : ℕ) (t : List (Event I ε)) : List ε :=
  (t.filter fun ev => ev.thread = i).map Event.env

@[simp] theorem envsOf_nil (i : ℕ) : envsOf i ([] : List (Event I ε)) = [] := rfl

theorem envsOf_cons_eq {i : ℕ} {ev : Event I ε} (h : ev.thread = i) (t : List (Event I ε)) :
    envsOf i (ev :: t) = ev.env :: envsOf i t := by
  simp [envsOf, h]

theorem envsOf_cons_ne {i : ℕ} {ev : Event I ε} (h : ev.thread ≠ i) (t : List (Event I ε)) :
    envsOf i (ev :: t) = envsOf i t := by
  simp [envsOf, h]

/-! ### The simulation -/

section Simulation

variable [Inhabited ε] (O : Object I ε σ) (body : Bodies I J) (isLocal : I.Cmd → Prop)

/-- `Partly c es rem s₀ s`: the body of `c` has met the environments `es` and come from `s₀` to
`s`, and `rem` is what is left of it. -/
def Partly (c : J.Cmd) (es : List ε) (rem : Prog (Locked I) (J.Reply c)) (s₀ : σ) (s : σ × Bool) :
    Prop :=
  ∀ fs : List ε, (body c).eval (lockObject O) (es ++ fs) (s₀, false) =
    rem.eval (lockObject O) fs s

/-- A thread outside of the lock: finished, or in a command whose body has not touched the state. -/
inductive Outside : List ε → Prog (Locked I) α → Prog J α → Prop where
  | done (a : α) : Outside [] (.done a) (.done a)
  | busy {c : J.Cmd} {next : J.Reply c → Prog J α} {es : List ε} {lc : LockCmd I.Cmd}
      {rest : LockCmd.Reply I lc → Prog (Locked I) (J.Reply c)}
      (hguarded : Guarded isLocal false (.call lc rest : Prog (Locked I) (J.Reply c)))
      (heval : ∀ s, Partly O body c es (.call lc rest) s (s, false)) :
      Outside es (.call lc fun r => rest r >>= fun r => (next r).expand body) (.call c next)

/-- The run over the locked object, and the atomic one that stands for it. While the lock is held
the atomic state is the one in which the holder took it. `pend i` are the environments thread `i`
has met in the command it is in. -/
inductive Sim : Option ℕ → (ℕ → List ε) → Pool (Locked I) (σ × Bool) α → Pool J σ α → Prop where
  | free {pend : ℕ → List ε} {s : σ} {ps : ℕ → Prog (Locked I) α} {ps' : ℕ → Prog J α}
      (hout : ∀ i, Outside O body isLocal (pend i) (ps i) (ps' i)) :
      Sim none pend ⟨(s, false), ps⟩ ⟨s, ps'⟩
  | held {pend : ℕ → List ε} {s₀ s : σ} {ps : ℕ → Prog (Locked I) α} {ps' : ℕ → Prog J α} {h : ℕ}
      {c : J.Cmd} {next : J.Reply c → Prog J α} {lc : LockCmd I.Cmd}
      {rest : LockCmd.Reply I lc → Prog (Locked I) (J.Reply c)}
      (hout : ∀ i, i ≠ h → Outside O body isLocal (pend i) (ps i) (ps' i))
      (hguarded : Guarded isLocal true (.call lc rest : Prog (Locked I) (J.Reply c)))
      (heval : Partly O body c (pend h) (.call lc rest) s₀ (s, true))
      (hholder : ps h = .call lc fun r => rest r >>= fun r => (next r).expand body)
      (hatomic : ps' h = .call c next) : Sim (some h) pend ⟨(s, true), ps⟩ ⟨s₀, ps'⟩

variable {O body isLocal}

/-- One more step of a body. -/
theorem Partly.step {c : J.Cmd} {es : List ε} {lc : LockCmd I.Cmd}
    {rest : LockCmd.Reply I lc → Prog (Locked I) (J.Reply c)} {s₀ : σ} {s : σ × Bool}
    (h : Partly O body c es (.call lc rest) s₀ s) (e : ε) :
    Partly O body c (es ++ [e]) (rest ((lockObject O).exec e lc s).1) s₀
      ((lockObject O).exec e lc s).2 := by
  intro fs
  rw [List.append_assoc, List.singleton_append, h (e :: fs)]
  rfl

/-- With nothing left of the body, the atomic command has this result. -/
theorem Partly.exec_eq {c : J.Cmd} {es : List ε} {a : J.Reply c} {s₀ : σ} {s : σ × Bool}
    (h : Partly O body c es (.done a) s₀ s) :
    (atomicObject O body).exec es c s₀ = (a, s.1) := by
  have heval : (body c).eval (lockObject O) es (s₀, false) = (a, s) := by
    simpa only [List.append_nil, Prog.eval] using h []
  show (((body c).eval (lockObject O) es (s₀, false)).1, _) = _
  rw [heval]

theorem Outside.done_iff {es : List ε} {p : Prog (Locked I) α} {p' : Prog J α}
    (h : Outside O body isLocal es p p') (a : α) : p = .done a ↔ p' = .done a := by
  cases h with
  | done b =>
    constructor
    · rintro ⟨⟩
      rfl
    · rintro ⟨⟩
      rfl
  | busy _ _ =>
    constructor
    · intro hdone
      cases hdone
    · intro hdone
      cases hdone

/-- A thread outside of the lock that makes a call is in a command. -/
theorem Outside.exists_rest {es : List ε} {lc : LockCmd I.Cmd}
    {k : LockCmd.Reply I lc → Prog (Locked I) α} {p' : Prog J α}
    (h : Outside O body isLocal es (.call lc k) p') :
    ∃ (c : J.Cmd) (next : J.Reply c → Prog J α)
      (rest : LockCmd.Reply I lc → Prog (Locked I) (J.Reply c)),
      p' = .call c next ∧ (k = fun r => rest r >>= fun r => (next r).expand body) ∧
      Guarded isLocal false (.call lc rest : Prog (Locked I) (J.Reply c)) ∧
      ∀ s, Partly O body c es (.call lc rest) s (s, false) := by
  cases h with
  | @busy c next _ _ rest hguarded heval => exact ⟨c, next, rest, rfl, rfl, hguarded, heval⟩

theorem Outside.pend_eq_nil {es : List ε} {a : α} {p' : Prog J α}
    (h : Outside O body isLocal es (.done a) p') : es = [] := by
  cases h
  rfl

/-- Before its first call a thread is outside of the lock. -/
theorem outside_expand (hbody : ∀ c, Guarded isLocal false (body c))
    (hstart : ∀ c a, body c ≠ .done a) (p : Prog J α) :
    Outside O body isLocal [] (p.expand body) p := by
  cases p with
  | done a => exact .done a
  | call c next =>
    rw [Prog.expand]
    cases hc : body c with
    | done a => exact absurd hc (hstart c a)
    | call lc rest =>
      refine .busy (by simpa only [hc] using hbody c) fun s fs => ?_
      rw [List.nil_append, hc]

/-! ### One step -/

/-- A thread outside of the lock does something local: its command goes on, or comes to its end
with a result that does not depend on the state. -/
theorem Outside.local_step
    (hlocal : ∀ c, isLocal c → ∀ e, ∃ r, ∀ s, O.exec e c s = (r, s))
    (hbody : ∀ c, Guarded isLocal false (body c)) (hstart : ∀ c a, body c ≠ .done a)
    {es : List ε} {c₀ : I.Cmd} {k : I.Reply c₀ → Prog (Locked I) α} {p' : Prog J α}
    (h : Outside O body isLocal es (.call (.op c₀) k) p') (e : ε) :
    ∃ r, (∀ s, O.exec e c₀ s = (r, s)) ∧
      (Outside O body isLocal (es ++ [e]) (k r) p' ∨
        ∃ c next a, p' = .call c next ∧ Outside O body isLocal [] (k r) (next a) ∧
          ∀ s, (atomicObject O body).exec (es ++ [e]) c s = (a, s)) := by
  obtain ⟨c, next, rest, rfl, rfl, ⟨hc₀ | hc₀, hrest⟩, heval⟩ := h.exists_rest
  · cases hc₀
  obtain ⟨r, hr⟩ := hlocal c₀ hc₀ e
  have hstep : ∀ s, Partly O body c (es ++ [e]) (rest r) s (s, false) := by
    intro s
    have hs := (heval s).step e
    simp only [lockObject] at hs
    rwa [hr s] at hs
  refine ⟨r, hr, ?_⟩
  have hguarded := hrest r
  cases hrem : rest r with
  | done a =>
    right
    refine ⟨c, next, a, rfl, ?_, fun s => ?_⟩
    · beta_reduce
      rw [hrem, Prog.done_bind]
      exact outside_expand hbody hstart (next a)
    · have hs := hstep s
      rw [hrem] at hs
      exact hs.exec_eq
  | call lc rest' =>
    left
    beta_reduce
    rw [hrem] at hguarded ⊢
    refine .busy hguarded fun s => ?_
    have hs := hstep s
    rwa [hrem] at hs

/-- Who does not hold the lock is outside of it. -/
theorem Sim.outside {holder : Option ℕ} {pend : ℕ → List ε} {p : Pool (Locked I) (σ × Bool) α}
    {p' : Pool J σ α} (h : Sim O body isLocal holder pend p p') {i : ℕ} (hi : holder ≠ some i) :
    Outside O body isLocal (pend i) (p.threads i) (p'.threads i) := by
  cases h with
  | free hout => exact hout i
  | held hout _ _ _ _ => exact hout i fun hih => hi (hih ▸ rfl)

/-- Who holds the lock has not come to an end. -/
theorem Sim.holder_busy {i : ℕ} {pend : ℕ → List ε} {p : Pool (Locked I) (σ × Bool) α}
    {p' : Pool J σ α} (h : Sim O body isLocal (some i) pend p p') (a : α) :
    p.threads i ≠ .done a ∧ p'.threads i ≠ .done a := by
  cases h with
  | held _ _ _ hholder hatomic =>
    constructor
    · intro hdone
      cases hholder.symm.trans hdone
    · intro hdone
      cases hatomic.symm.trans hdone

/-- Outside of the lock a thread may change, as long as it stays there. -/
theorem Sim.update_outside {holder : Option ℕ} {pend : ℕ → List ε}
    {p : Pool (Locked I) (σ × Bool) α} {p' : Pool J σ α}
    (h : Sim O body isLocal holder pend p p') {i : ℕ} (hi : holder ≠ some i) {es : List ε}
    {q : Prog (Locked I) α} {q' : Prog J α} (hq : Outside O body isLocal es q q') :
    Sim O body isLocal holder (Function.update pend i es) ⟨p.shared, Function.update p.threads i q⟩
      ⟨p'.shared, Function.update p'.threads i q'⟩ := by
  have hupdate : ∀ j, (j ≠ i → Outside O body isLocal (pend j) (p.threads j) (p'.threads j)) →
      Outside O body isLocal (Function.update pend i es j) (Function.update p.threads i q j)
        (Function.update p'.threads i q' j) := by
    intro j hj
    by_cases hji : j = i
    · subst hji
      rwa [Function.update_self, Function.update_self, Function.update_self]
    · rw [Function.update_of_ne hji, Function.update_of_ne hji, Function.update_of_ne hji]
      exact hj hji
  cases h with
  | free hout => exact .free fun j => hupdate j fun _ => hout j
  | @held _ s₀ s ps ps' h c next lc rest hout hguarded heval hholder hatomic =>
    have hne : h ≠ i := fun hhi => hi (hhi ▸ rfl)
    refine .held (fun j hj => hupdate j fun _ => hout j hj) hguarded ?_
      ((Function.update_of_ne hne ..).trans hholder) ((Function.update_of_ne hne ..).trans hatomic)
    rwa [Function.update_of_ne hne]

variable (O body isLocal)

/-- What a step of thread `i` in the environment `e`, to the pool `q`, means for the atomic run: it
is one inside of a command, which the atomic run does not see, or the last one of a command, which
it makes then, with the environments of all its steps. -/
def Matched (pend : ℕ → List ε) (i : ℕ) (e : ε) (q : Pool (Locked I) (σ × Bool) α)
    (p' : Pool J σ α) : Prop :=
  ∃ holder, Sim O body isLocal holder (Function.update pend i (pend i ++ [e])) q p' ∨
    ∃ c next, p'.threads i = .call c next ∧
      Sim O body isLocal holder (Function.update pend i []) q
        ⟨((atomicObject O body).exec (pend i ++ [e]) c p'.shared).2, Function.update p'.threads i
          (next ((atomicObject O body).exec (pend i ++ [e]) c p'.shared).1)⟩

variable {O body isLocal}

/-- A thread outside of the lock does something local, whether or not somebody holds the lock. -/
theorem Sim.matched_local
    (hlocal : ∀ c, isLocal c → ∀ e, ∃ r, ∀ s, O.exec e c s = (r, s))
    (hbody : ∀ c, Guarded isLocal false (body c)) (hstart : ∀ c a, body c ≠ .done a)
    {holder : Option ℕ} {pend : ℕ → List ε} {p : Pool (Locked I) (σ × Bool) α} {p' : Pool J σ α}
    (h : Sim O body isLocal holder pend p p') {i : ℕ} (hi : holder ≠ some i) {c₀ : I.Cmd}
    {k : I.Reply c₀ → Prog (Locked I) α} (hthread : p.threads i = .call (.op c₀) k) (e : ε) :
    Matched O body isLocal pend i e ⟨((O.exec e c₀ p.shared.1).2, p.shared.2),
      Function.update p.threads i (k (O.exec e c₀ p.shared.1).1)⟩ p' := by
  have hout := h.outside hi
  rw [hthread] at hout
  obtain ⟨r, hr, hnext | ⟨c, next, a, hp', hnext, hexec⟩⟩ :=
    hout.local_step hlocal hbody hstart e
  · refine ⟨holder, .inl ?_⟩
    have hsim := h.update_outside hi hnext
    rw [Function.update_eq_self] at hsim
    rw [hr]
    exact hsim
  · refine ⟨holder, .inr ⟨c, next, hp', ?_⟩⟩
    rw [hr, hexec]
    exact h.update_outside hi hnext

/-- A thread takes the lock, in the state the atomic run is in. -/
theorem Sim.matched_lock {pend : ℕ → List ε} {p : Pool (Locked I) (σ × Bool) α} {p' : Pool J σ α}
    (h : Sim O body isLocal none pend p p') {i : ℕ} {k : Unit → Prog (Locked I) α}
    (hthread : p.threads i = .call .lock k) (e : ε) :
    Matched O body isLocal pend i e
      ⟨(p.shared.1, true), Function.update p.threads i (k ())⟩ p' := by
  cases h with
  | @free _ s ps ps' hout =>
    have hbusy := hout i
    rw [show ps i = .call .lock k from hthread] at hbusy
    obtain ⟨c, next, rest, hp', rfl, ⟨-, hguarded⟩, heval⟩ := hbusy.exists_rest
    have hstep := (heval s).step e
    cases hrem : rest () with
    | done a =>
      rw [hrem] at hguarded
      cases hguarded
    | call lc rest' =>
      simp only [lockObject, hrem] at hguarded hstep ⊢
      refine ⟨some i, .inl (.held (fun j hj => ?_) hguarded ?_ ?_ hp')⟩
      · rw [Function.update_of_ne hj, Function.update_of_ne hj]
        exact hout j
      · rwa [Function.update_self]
      · rw [Function.update_self]
        rfl

/-- The holder of the lock goes on, or lets go of it. -/
theorem Sim.matched_holder (hbody : ∀ c, Guarded isLocal false (body c))
    (hstart : ∀ c a, body c ≠ .done a) {pend : ℕ → List ε} {p : Pool (Locked I) (σ × Bool) α}
    {p' : Pool J σ α} {i : ℕ} (h : Sim O body isLocal (some i) pend p p') {lc : LockCmd I.Cmd}
    {k : LockCmd.Reply I lc → Prog (Locked I) α} (hthread : p.threads i = .call lc k) (e : ε) :
    Matched O body isLocal pend i e ⟨((lockObject O).exec e lc p.shared).2,
      Function.update p.threads i (k ((lockObject O).exec e lc p.shared).1)⟩ p' := by
  cases h with
  | @held _ s₀ s ps ps' _ c next _ rest hout hguarded heval hholder hatomic =>
    cases hholder.symm.trans hthread
    have hstep := heval.step e
    cases lc with
    | lock => cases hguarded.1
    | unlock =>
      obtain ⟨-, a, ha⟩ := hguarded
      have hexec : (atomicObject O body).exec (pend i ++ [e]) c s₀ = (a, s) := by
        simp only [lockObject, ha] at hstep
        exact hstep.exec_eq
      refine ⟨none, .inr ⟨c, next, hatomic, ?_⟩⟩
      simp only [lockObject, hexec, ha]
      refine .free fun j => ?_
      by_cases hj : j = i
      · subst hj
        rw [Function.update_self, Function.update_self, Function.update_self]
        exact outside_expand hbody hstart (next a)
      · rw [Function.update_of_ne hj, Function.update_of_ne hj, Function.update_of_ne hj]
        exact hout j hj
    | op c₀ =>
      have hguarded' := hguarded.2 (O.exec e c₀ s).1
      cases hrem : rest (O.exec e c₀ s).1 with
      | done a =>
        rw [hrem] at hguarded'
        cases hguarded'
      | call lc' rest' =>
        rw [hrem] at hguarded'
        simp only [lockObject, hrem] at hstep ⊢
        refine ⟨some i, .inl (.held (fun j hj => ?_) hguarded' ?_ ?_ hatomic)⟩
        · rw [Function.update_of_ne hj, Function.update_of_ne hj]
          exact hout j hj
        · rwa [Function.update_self]
        · rw [Function.update_self]
          rfl

/-- **Step lemma.** Every admitted step is matched. -/
theorem Sim.matched (hlocal : ∀ c, isLocal c → ∀ e, ∃ r, ∀ s, O.exec e c s = (r, s))
    (hbody : ∀ c, Guarded isLocal false (body c)) (hstart : ∀ c a, body c ≠ .done a)
    {holder : Option ℕ} {pend : ℕ → List ε} {p : Pool (Locked I) (σ × Bool) α} {p' : Pool J σ α}
    (h : Sim O body isLocal holder pend p p') {i : ℕ} {lc : LockCmd I.Cmd}
    {k : LockCmd.Reply I lc → Prog (Locked I) α} (hthread : p.threads i = .call lc k)
    (hadm : lc = .lock → p.shared.2 = false) (e : ε) :
    Matched O body isLocal pend i e ⟨((lockObject O).exec e lc p.shared).2,
      Function.update p.threads i (k ((lockObject O).exec e lc p.shared).1)⟩ p' := by
  by_cases hi : holder = some i
  · subst hi
    exact h.matched_holder hbody hstart hthread e
  · cases lc with
    | op c₀ => exact h.matched_local hlocal hbody hstart hi hthread e
    | lock =>
      cases h with
      | free hout => exact (Sim.free hout).matched_lock hthread e
      | held _ _ _ _ _ => cases hadm rfl
    | unlock =>
      have hout := h.outside hi
      rw [hthread] at hout
      obtain ⟨_, _, _, -, -, hguarded, -⟩ := hout.exists_rest
      cases hguarded.1

/-! ### A run -/

variable (O body isLocal)

/-- The simulation holds at the end of both traces, and the environments the threads have met (from
`pend` on) are those of the atomic commands, each once and in order, and those still pending. -/
def Follows (pend : ℕ → List ε) (t : List (Event (Locked I) ε))
    (q : Pool (Locked I) (σ × Bool) α) (t' : List (Event J (List ε))) (q' : Pool J σ α) : Prop :=
  ∃ holder pend', Sim O body isLocal holder pend' q q' ∧ (∀ ev ∈ t', ev.env ≠ []) ∧
    ∀ i, (envsOf i t').flatten ++ pend' i = pend i ++ envsOf i t

variable {O body isLocal}

theorem Follows.cons_inside {pend : ℕ → List ε} {ev : Event (Locked I) ε}
    {t : List (Event (Locked I) ε)} {q : Pool (Locked I) (σ × Bool) α}
    {t' : List (Event J (List ε))} {q' : Pool J σ α}
    (h : Follows O body isLocal
      (Function.update pend ev.thread (pend ev.thread ++ [ev.env])) t q t' q') :
    Follows O body isLocal pend (ev :: t) q t' q' := by
  obtain ⟨holder, pend', hsim, hne, henvs⟩ := h
  refine ⟨holder, pend', hsim, hne, fun i => (henvs i).trans ?_⟩
  by_cases hi : ev.thread = i
  · subst hi
    rw [Function.update_self, envsOf_cons_eq rfl, List.append_assoc, List.singleton_append]
  · rw [Function.update_of_ne (Ne.symm hi), envsOf_cons_ne hi]

theorem Follows.cons_last {pend : ℕ → List ε} {ev : Event (Locked I) ε}
    {t : List (Event (Locked I) ε)} {q : Pool (Locked I) (σ × Bool) α}
    {t' : List (Event J (List ε))} {q' : Pool J σ α}
    (h : Follows O body isLocal (Function.update pend ev.thread []) t q t' q')
    {ev' : Event J (List ε)} (hthread : ev'.thread = ev.thread)
    (henv : ev'.env = pend ev.thread ++ [ev.env]) :
    Follows O body isLocal pend (ev :: t) q (ev' :: t') q' := by
  obtain ⟨holder, pend', hsim, hne, henvs⟩ := h
  have hev' : ev'.env ≠ [] := by simp [henv]
  refine ⟨holder, pend', hsim, List.forall_mem_cons.mpr ⟨hev', hne⟩, fun i => ?_⟩
  have hrest := henvs i
  by_cases hi : ev.thread = i
  · subst hi
    rw [Function.update_self, List.nil_append] at hrest
    rw [envsOf_cons_eq hthread, envsOf_cons_eq rfl, List.flatten_cons, List.append_assoc, hrest,
      henv, List.append_assoc, List.singleton_append]
  · rw [Function.update_of_ne (Ne.symm hi)] at hrest
    rw [envsOf_cons_ne (hthread.trans_ne hi), envsOf_cons_ne hi, hrest]

/-- **Run lemma.** One atomic run follows a run over the locked object, prefix by prefix. -/
theorem Sim.exists_follows (hlocal : ∀ c, isLocal c → ∀ e, ∃ r, ∀ s, O.exec e c s = (r, s))
    (hbody : ∀ c, Guarded isLocal false (body c)) (hstart : ∀ c a, body c ≠ .done a)
    {p q : Pool (Locked I) (σ × Bool) α} {t : List (Event (Locked I) ε)}
    (hrun : Runs (lockObject O) p t q) (hadm : (lockObject O).Always Admitted p.shared t)
    {holder : Option ℕ} {pend : ℕ → List ε} {p' : Pool J σ α}
    (h : Sim O body isLocal holder pend p p') :
    ∃ t', ∀ t₁ t₂ m, t = t₁ ++ t₂ → Runs (lockObject O) p t₁ m →
      ∃ t₁' t₂' m', t' = t₁' ++ t₂' ∧ (t₂ = [] → t₂' = []) ∧
        Runs (atomicObject O body) p' t₁' m' ∧ Follows O body isLocal pend t₁ m t₁' m' := by
  induction hrun generalizing holder pend p' with
  | nil p =>
    refine ⟨[], fun t₁ t₂ m ht hm => ⟨[], [], p', rfl, fun _ => rfl, .nil p', ?_⟩⟩
    obtain ⟨rfl, -⟩ := List.append_eq_nil_iff.mp ht.symm
    cases hm
    exact ⟨holder, pend, h, List.forall_mem_nil _, fun i => by simp⟩
  | @cons p q i e lc k t hthread hrest ih =>
    have hinit : Follows O body isLocal pend [] p [] p' :=
      ⟨holder, pend, h, List.forall_mem_nil _, fun i => by simp⟩
    obtain ⟨hfirst, hadm⟩ := hadm
    obtain ⟨holder', hinside | ⟨c, next, hc, hlast⟩⟩ :=
      h.matched hlocal hbody hstart hthread hfirst e
    · obtain ⟨t', ht'⟩ := ih hadm hinside
      refine ⟨t', fun t₁ t₂ m ht hm => ?_⟩
      cases hm with
      | nil => exact ⟨[], t', p', rfl, fun h₂ => by simp [h₂] at ht, .nil p', hinit⟩
      | cons hthread' hm =>
        obtain ⟨hev, htail⟩ := List.cons.inj ht
        cases hev
        cases hthread.symm.trans hthread'
        obtain ⟨t₁', t₂', m', rfl, hwhole, hrun', hfollows⟩ := ht' _ t₂ m htail hm
        exact ⟨t₁', t₂', m', rfl, hwhole, hrun', hfollows.cons_inside⟩
    · obtain ⟨t', ht'⟩ := ih hadm hlast
      refine ⟨⟨i, pend i ++ [e], c,
          ((atomicObject O body).exec (pend i ++ [e]) c p'.shared).1⟩ :: t',
        fun t₁ t₂ m ht hm => ?_⟩
      cases hm with
      | nil => exact ⟨[], _, p', rfl, fun h₂ => by simp [h₂] at ht, .nil p', hinit⟩
      | cons hthread' hm =>
        obtain ⟨hev, htail⟩ := List.cons.inj ht
        cases hev
        cases hthread.symm.trans hthread'
        obtain ⟨t₁', t₂', m', rfl, hwhole, hrun', hfollows⟩ := ht' _ t₂ m htail hm
        exact ⟨_ :: t₁', t₂', m', rfl, hwhole, .cons hc hrun', hfollows.cons_last rfl rfl⟩

end Simulation

/-! ### The lock makes the bodies atomic -/

/-- `t'` and `q'` stand for `t` and `q`: the same threads have come to an end, with the same
results; while the lock is free the states are the same; and the environments of a thread's commands
are those of its steps, each once and in order, but for the command it is in. -/
structure Stands (t : List (Event (Locked I) ε)) (q : Pool (Locked I) (σ × Bool) α)
    (t' : List (Event J (List ε))) (q' : Pool J σ α) : Prop where
  results : ∀ i a, q.threads i = .done a ↔ q'.threads i = .done a
  shared : q.shared.2 = false → q.shared.1 = q'.shared
  nonempty : ∀ ev ∈ t', ev.env ≠ []
  begun : ∀ i, (envsOf i t').flatten <+: envsOf i t
  ended : ∀ i a, q.threads i = .done a → (envsOf i t').flatten = envsOf i t

theorem Follows.stands [Inhabited ε] {O : Object I ε σ} {body : Bodies I J}
    {isLocal : I.Cmd → Prop} {t : List (Event (Locked I) ε)}
    {q : Pool (Locked I) (σ × Bool) α} {t' : List (Event J (List ε))} {q' : Pool J σ α}
    (h : Follows O body isLocal (fun _ => []) t q t' q') : Stands t q t' q' := by
  obtain ⟨holder, pend, hsim, hne, henvs⟩ := h
  refine ⟨fun i a => ?_, fun hfree => ?_, hne, fun i => ⟨pend i, henvs i⟩, fun i a hi => ?_⟩
  · by_cases hi : holder = some i
    · subst hi
      exact iff_of_false (hsim.holder_busy a).1 (hsim.holder_busy a).2
    · exact (hsim.outside hi).done_iff a
  · cases hsim with
    | free _ => rfl
    | held _ _ _ _ _ => cases hfree
  · have hholder : holder ≠ some i := by
      rintro rfl
      exact (hsim.holder_busy a).1 hi
    have hout := hsim.outside hholder
    rw [hi] at hout
    have hpend := henvs i
    rwa [hout.pend_eq_nil, List.append_nil] at hpend

/-- **The lock makes the bodies atomic.** Every admitted run of the expanded programs has an atomic
run that stands for it, at its end and at every moment before. -/
theorem Runs.linearize [Inhabited ε] {O : Object I ε σ} {body : Bodies I J}
    {isLocal : I.Cmd → Prop} (hlocal : ∀ c, isLocal c → ∀ e, ∃ r, ∀ s, O.exec e c s = (r, s))
    (hbody : ∀ c, Guarded isLocal false (body c)) (hstart : ∀ c a, body c ≠ .done a)
    {p : Pool J σ α} {q : Pool (Locked I) (σ × Bool) α} {t : List (Event (Locked I) ε)}
    (hrun : Runs (lockObject O) ⟨(p.shared, false), fun i => (p.threads i).expand body⟩ t q)
    (hadm : (lockObject O).Always Admitted (p.shared, false) t) :
    ∃ t' q', Runs (atomicObject O body) p t' q' ∧ Stands t q t' q' ∧
      ∀ t₁ m, t₁ <+: t →
        Runs (lockObject O) ⟨(p.shared, false), fun i => (p.threads i).expand body⟩ t₁ m →
        ∃ t₁' m', t₁' <+: t' ∧ Runs (atomicObject O body) p t₁' m' ∧ Stands t₁ m t₁' m' := by
  have hsim : Sim O body isLocal none (fun _ => [])
      ⟨(p.shared, false), fun i => (p.threads i).expand body⟩ p :=
    .free fun i => outside_expand hbody hstart (p.threads i)
  obtain ⟨t', ht'⟩ := hsim.exists_follows hlocal hbody hstart hrun hadm
  obtain ⟨t₁', t₂', q', rfl, hwhole, hrun', hfollows⟩ := ht' t [] q (List.append_nil t).symm hrun
  obtain rfl := hwhole rfl
  rw [List.append_nil] at ht'
  refine ⟨t₁', q', hrun', hfollows.stands, fun s₁ m hs₁ hm => ?_⟩
  obtain ⟨s₂, rfl⟩ := hs₁
  obtain ⟨u₁, u₂, m', rfl, -, hm', hfollows'⟩ := ht' s₁ s₂ m rfl hm
  exact ⟨u₁, m', List.prefix_append u₁ u₂, hm', hfollows'.stands⟩

/-! ### Nobody keeps the lock -/

/-- A holder that is left to run comes to its `unlock`. -/
theorem Guarded.exists_release {O : Object I ε σ} {isLocal : I.Cmd → Prop}
    {rem : Prog (Locked I) β} (h : Guarded isLocal true rem) {f : β → Prog (Locked I) α} (e : ε)
    {s : σ} {ps : ℕ → Prog (Locked I) α} {i : ℕ} (hi : ps i = rem >>= f) :
    ∃ u r, Runs (lockObject O) ⟨(s, true), ps⟩ u r ∧
      (lockObject O).Always Admitted (s, true) u ∧ (∀ ev ∈ u, ev.thread = i) ∧
      r.shared.2 = false := by
  induction rem generalizing s ps with
  | done a => cases h
  | call lc next ih =>
    cases lc with
    | lock => cases h.1
    | unlock =>
      refine ⟨_, _, .cons (e := e) hi (.nil _), ⟨?_, trivial⟩, ?_, rfl⟩
      · exact nofun
      · exact List.forall_mem_singleton.mpr rfl
    | op c =>
      obtain ⟨u, r, hrun, hadm, hown, hfree⟩ := ih (O.exec e c s).1 (h.2 _)
        (s := (O.exec e c s).2)
        (Function.update_self ..)
      refine ⟨_, r, .cons (e := e) hi hrun, ⟨?_, hadm⟩, List.forall_mem_cons.mpr ⟨rfl, hown⟩, hfree⟩
      exact nofun

/-- **No deadlock.** At every moment of a run the lock is free, or its holder alone can go on until
it is. -/
theorem Runs.exists_release [Inhabited ε] {O : Object I ε σ} {body : Bodies I J}
    {isLocal : I.Cmd → Prop} (hlocal : ∀ c, isLocal c → ∀ e, ∃ r, ∀ s, O.exec e c s = (r, s))
    (hbody : ∀ c, Guarded isLocal false (body c)) (hstart : ∀ c a, body c ≠ .done a)
    {p : Pool J σ α} {q : Pool (Locked I) (σ × Bool) α} {t : List (Event (Locked I) ε)}
    (hrun : Runs (lockObject O) ⟨(p.shared, false), fun i => (p.threads i).expand body⟩ t q)
    (hadm : (lockObject O).Always Admitted (p.shared, false) t) :
    ∃ i u r, Runs (lockObject O) q u r ∧ (lockObject O).Always Admitted q.shared u ∧
      (∀ ev ∈ u, ev.thread = i) ∧ r.shared.2 = false := by
  have hsim : Sim O body isLocal none (fun _ => [])
      ⟨(p.shared, false), fun i => (p.threads i).expand body⟩ p :=
    .free fun i => outside_expand hbody hstart (p.threads i)
  obtain ⟨t', ht'⟩ := hsim.exists_follows hlocal hbody hstart hrun hadm
  obtain ⟨t₁', t₂', q', -, -, -, hfollows⟩ := ht' t [] q (List.append_nil t).symm hrun
  obtain ⟨holder, pend, hend, -, -⟩ := hfollows
  cases hend with
  | free _ => exact ⟨0, [], _, .nil _, trivial, List.forall_mem_nil _, rfl⟩
  | @held _ s₀ s ps ps' h c next lc rest _ hguarded _ hholder _ =>
    exact ⟨h, hguarded.exists_release default hholder⟩

end Interleaving
