import Mathlib.Data.Nat.Notation
import Mathlib.Logic.Function.Basic

/-!
# Interleaved programs over a shared object

A concurrent system in which every thread runs a sequential program and the threads meet only
in one shared object, whose commands are atomic. Nothing here knows what the commands are.

* `Prog I α` is a sequential program: it either is `done`, or calls one command of the
  interface `I` and goes on with the reply.
* `Object I ε σ` gives the commands their meaning on a state of type `σ`. What a command takes
  from outside (the clock, a random draw, a fault) is the environment `ε` of that one step.
* `Runs O p t q`: the pool `p` of threads reaches `q` by some interleaving, and `t` is the trace
  of the commands in the order in which they took effect.

A trace is read in two independent ways. Seen from the object it is one sequential execution
(`Object.Legal`, `Object.replay`), so facts about the object are proved on lists of events with
no thread in sight. Seen from one thread it is a path through that thread's program
(`Prog.Path`), so facts about what a program may do are proved with no object in sight.
-/

namespace Interleaving

/-- The atomic commands of a shared object, each with its type of replies. -/
structure Interface where
  Cmd : Type
  Reply : Cmd → Type

/-- A sequential program over the commands of `I`. -/
inductive Prog (I : Interface) (α : Type) where
  | done (a : α)
  | call (c : I.Cmd) (next : I.Reply c → Prog I α)

/-- The meaning of the commands: the reply and the next state. -/
structure Object (I : Interface) (ε σ : Type) where
  exec : ε → (c : I.Cmd) → σ → I.Reply c × σ

/-- One command that took effect. -/
structure Event (I : Interface) (ε : Type) where
  thread : ℕ
  env : ε
  cmd : I.Cmd
  reply : I.Reply cmd

/-- The shared state and what is left of every thread's program. -/
structure Pool (I : Interface) (σ α : Type) where
  shared : σ
  threads : ℕ → Prog I α

variable {I : Interface} {ε σ α β : Type}

/-! ### Programs -/

namespace Prog

/-- Run `p`, then `f` on its result. -/
def bind : Prog I α → (α → Prog I β) → Prog I β
  | done a, f => f a
  | call c next, f => call c fun r => (next r).bind f

instance : Monad (Prog I) where
  pure := done
  bind := bind

@[simp] theorem done_bind (a : α) (f : α → Prog I β) : (done a >>= f : Prog I β) = f a := rfl

@[simp] theorem call_bind (c : I.Cmd) (next : I.Reply c → Prog I α) (f : α → Prog I β) :
    (call c next >>= f : Prog I β) = call c fun r => next r >>= f := rfl

/-- `Path p l q`: after the calls `l`, with these replies, `q` is what is left of `p`. -/
inductive Path : Prog I α → List (Σ c : I.Cmd, I.Reply c) → Prog I α → Prop where
  | nil (p : Prog I α) : Path p [] p
  | cons {c : I.Cmd} {next : I.Reply c → Prog I α} {r : I.Reply c}
      {l : List (Σ c : I.Cmd, I.Reply c)} {q : Prog I α} :
      Path (next r) l q → Path (call c next) (⟨c, r⟩ :: l) q

/-- A finished program makes no call. -/
theorem path_done_iff {a : α} {l : List (Σ c : I.Cmd, I.Reply c)} {q : Prog I α} :
    Path (done a) l q ↔ l = [] ∧ q = done a := by
  constructor
  · intro h
    cases h
    exact ⟨rfl, rfl⟩
  · rintro ⟨rfl, rfl⟩
    exact .nil _

/-- A program that starts with a call has either not started or made that call first. -/
theorem path_call_iff {c : I.Cmd} {next : I.Reply c → Prog I α}
    {l : List (Σ c : I.Cmd, I.Reply c)} {q : Prog I α} :
    Path (call c next) l q ↔
      (l = [] ∧ q = call c next) ∨ ∃ r l', l = ⟨c, r⟩ :: l' ∧ Path (next r) l' q := by
  constructor
  · intro h
    cases h with
    | nil => exact .inl ⟨rfl, rfl⟩
    | cons h => exact .inr ⟨_, _, rfl, h⟩
  · rintro (⟨rfl, rfl⟩ | ⟨r, l', rfl, h⟩)
    · exact .nil _
    · exact .cons h

theorem Path.append {p q r : Prog I α} {l l' : List (Σ c : I.Cmd, I.Reply c)}
    (h : Path p l q) (h' : Path q l' r) : Path p (l ++ l') r := by
  induction h with
  | nil => exact h'
  | cons _ ih => exact .cons (ih h')

/-- `p.All P`: whatever is replied to its calls, `p` ends with a result in `P`. -/
def All (P : α → Prop) : Prog I α → Prop
  | done a => P a
  | call _ next => ∀ r, (next r).All P

theorem All.bind {P : α → Prop} {Q : β → Prop} {p : Prog I α} {f : α → Prog I β} (h : p.All P)
    (hf : ∀ a, P a → (f a).All Q) : (p >>= f).All Q := by
  induction p with
  | done a => exact hf a h
  | call c next ih => exact fun r => ih r (h r)

theorem All.of_path {P : α → Prop} {p : Prog I α} {a : α} {l : List (Σ c : I.Cmd, I.Reply c)}
    (h : p.All P) (hpath : Path p l (done a)) : P a := by
  generalize hq : done a = q at hpath
  induction hpath with
  | nil =>
    subst hq
    exact h
  | cons _ ih => exact ih (h _) hq

/-- `p.Makes P`: whatever is replied to them, the calls of `p` are all in `P`. -/
def Makes (P : I.Cmd → Prop) : Prog I α → Prop
  | done _ => True
  | call c next => P c ∧ ∀ r, (next r).Makes P

theorem Makes.bind {P : I.Cmd → Prop} {p : Prog I α} {f : α → Prog I β} (h : p.Makes P)
    (hf : ∀ a, (f a).Makes P) : (p >>= f).Makes P := by
  induction p with
  | done a => exact hf a
  | call c next ih => exact ⟨h.1, fun r => ih r (h.2 r)⟩

theorem Makes.of_path {P : I.Cmd → Prop} {p q : Prog I α} {l : List (Σ c : I.Cmd, I.Reply c)}
    (h : p.Makes P) (hpath : Path p l q) : (∀ c ∈ l, P c.1) ∧ q.Makes P := by
  induction hpath with
  | nil => exact ⟨List.forall_mem_nil _, h⟩
  | cons _ ih =>
    obtain ⟨hrest, hq⟩ := ih (h.2 _)
    exact ⟨List.forall_mem_cons.mpr ⟨h.1, hrest⟩, hq⟩

/-- With replies to every command, a program can be run to its end. -/
theorem exists_path [∀ c, Nonempty (I.Reply c)] (p : Prog I α) : ∃ l a, Path p l (done a) := by
  induction p with
  | done a => exact ⟨[], a, .nil _⟩
  | call c next ih =>
    obtain ⟨r⟩ := (inferInstance : Nonempty (I.Reply c))
    obtain ⟨l, a, h⟩ := ih r
    exact ⟨_, a, .cons h⟩

end Prog

/-! ### The object's view of a trace -/

namespace Object

variable (O : Object I ε σ)

/-- The state after the commands of a trace. -/
def replay : σ → List (Event I ε) → σ
  | s, [] => s
  | s, ev :: t => replay (O.exec ev.env ev.cmd s).2 t

/-- Every reply in the trace is the one the object gives in the state reached so far. -/
def Legal : σ → List (Event I ε) → Prop
  | _, [] => True
  | s, ev :: t => ev.reply = (O.exec ev.env ev.cmd s).1 ∧ Legal (O.exec ev.env ev.cmd s).2 t

/-- Every step of the trace meets `G`, a condition on the state before the step and the step. -/
def Always (G : σ → Event I ε → Prop) : σ → List (Event I ε) → Prop
  | _, [] => True
  | s, ev :: t => G s ev ∧ Always G (O.exec ev.env ev.cmd s).2 t

@[simp] theorem replay_nil (s : σ) : O.replay s [] = s := rfl

@[simp] theorem replay_cons (s : σ) (ev : Event I ε) (t : List (Event I ε)) :
    O.replay s (ev :: t) = O.replay (O.exec ev.env ev.cmd s).2 t := rfl

theorem replay_append (s : σ) (t u : List (Event I ε)) :
    O.replay s (t ++ u) = O.replay (O.replay s t) u := by
  induction t generalizing s with
  | nil => rfl
  | cons ev t ih => exact ih _

theorem legal_append {s : σ} {t u : List (Event I ε)} :
    O.Legal s (t ++ u) ↔ O.Legal s t ∧ O.Legal (O.replay s t) u := by
  induction t generalizing s with
  | nil => simp [Legal]
  | cons ev t ih => simp [Legal, ih, and_assoc]

theorem always_append {G : σ → Event I ε → Prop} {s : σ} {t u : List (Event I ε)} :
    O.Always G s (t ++ u) ↔ O.Always G s t ∧ O.Always G (O.replay s t) u := by
  induction t generalizing s with
  | nil => simp [Always]
  | cons ev t ih => simp [Always, ih, and_assoc]

/-- Two conditions that agree on every step of a trace. -/
theorem always_congr {G G' : σ → Event I ε → Prop} {s : σ} {t : List (Event I ε)}
    (h : ∀ ev ∈ t, ∀ s, G s ev ↔ G' s ev) : O.Always G s t ↔ O.Always G' s t := by
  induction t generalizing s with
  | nil => exact Iff.rfl
  | cons ev t ih =>
    rw [List.forall_mem_cons] at h
    exact and_congr (h.1 s) (ih h.2)

/-! ### Two objects with the same commands -/

/-- The replies to a sequence of commands. -/
def answers : σ → List (ε × I.Cmd) → List (Σ c : I.Cmd, I.Reply c)
  | _, [] => []
  | s, (e, c) :: l => ⟨c, (O.exec e c s).1⟩ :: answers (O.exec e c s).2 l

/-- **Simulation rule.** If a relation between the states of two objects is preserved by every
command, and related states give equal replies, the objects answer alike. The relation may speak
about the commands to come. -/
theorem answers_eq_of_simulation {σ' : Type} {O : Object I ε σ} {O' : Object I ε σ'}
    {R : σ → σ' → List (ε × I.Cmd) → Prop}
    (hstep : ∀ s s' e c l, R s s' ((e, c) :: l) →
      (O.exec e c s).1 = (O'.exec e c s').1 ∧ R (O.exec e c s).2 (O'.exec e c s').2 l)
    {s : σ} {s' : σ'} {l : List (ε × I.Cmd)} (h : R s s' l) : O.answers s l = O'.answers s' l := by
  induction l generalizing s s' with
  | nil => rfl
  | cons ec l ih =>
    obtain ⟨e, c⟩ := ec
    obtain ⟨hreply, hnext⟩ := hstep s s' e c l h
    rw [answers, answers, hreply, ih hnext]

end Object

/-! ### Runs of a pool -/

/-- The calls of one thread, in order. -/
def callsOf (i : ℕ) (t : List (Event I ε)) : List (Σ c : I.Cmd, I.Reply c) :=
  (t.filter fun ev => ev.thread = i).map fun ev => ⟨ev.cmd, ev.reply⟩

theorem callsOf_cons_eq {i : ℕ} {ev : Event I ε} (h : ev.thread = i) (t : List (Event I ε)) :
    callsOf i (ev :: t) = ⟨ev.cmd, ev.reply⟩ :: callsOf i t := by
  simp [callsOf, h]

theorem callsOf_cons_ne {i : ℕ} {ev : Event I ε} (h : ev.thread ≠ i) (t : List (Event I ε)) :
    callsOf i (ev :: t) = callsOf i t := by
  simp [callsOf, h]

theorem mem_callsOf {ev : Event I ε} {t : List (Event I ε)} (h : ev ∈ t) :
    ⟨ev.cmd, ev.reply⟩ ∈ callsOf ev.thread t :=
  List.mem_map.mpr ⟨ev, List.mem_filter.mpr ⟨h, decide_eq_true rfl⟩, rfl⟩

theorem mem_of_mem_callsOf {i : ℕ} {t : List (Event I ε)} {c : Σ c : I.Cmd, I.Reply c}
    (h : c ∈ callsOf i t) : ∃ e, (⟨i, e, c.1, c.2⟩ : Event I ε) ∈ t := by
  obtain ⟨ev, hev, rfl⟩ := List.mem_map.mp h
  obtain ⟨hmem, hi⟩ := List.mem_filter.mp hev
  obtain rfl := of_decide_eq_true hi
  exact ⟨ev.env, hmem⟩

/-- A call of a thread stands in the trace between the events of its calls before and after. -/
theorem exists_split_of_callsOf {i : ℕ} {t : List (Event I ε)} {c : Σ c : I.Cmd, I.Reply c}
    {l₁ l₂ : List (Σ c : I.Cmd, I.Reply c)} (h : callsOf i t = l₁ ++ c :: l₂) :
    ∃ pre e post, t = pre ++ ⟨i, e, c.1, c.2⟩ :: post ∧ callsOf i pre = l₁ ∧
      callsOf i post = l₂ := by
  induction t generalizing l₁ with
  | nil => exact absurd h (by simp [callsOf])
  | cons ev t ih =>
    by_cases hi : ev.thread = i
    · rw [callsOf_cons_eq hi] at h
      cases l₁ with
      | nil =>
        obtain ⟨rfl, hrest⟩ := List.cons.inj h
        subst hi
        exact ⟨[], ev.env, t, rfl, rfl, hrest⟩
      | cons c' l₁ =>
        obtain ⟨rfl, hrest⟩ := List.cons.inj h
        obtain ⟨pre, e, post, rfl, hpre, hpost⟩ := ih hrest
        refine ⟨ev :: pre, e, post, rfl, ?_, hpost⟩
        rw [callsOf_cons_eq hi, hpre]
    · rw [callsOf_cons_ne hi] at h
      obtain ⟨pre, e, post, rfl, hpre, hpost⟩ := ih h
      refine ⟨ev :: pre, e, post, rfl, ?_, hpost⟩
      rw [callsOf_cons_ne hi, hpre]

/-- `Runs O p t q`: some interleaving takes the pool `p` to `q` with trace `t`. -/
inductive Runs (O : Object I ε σ) : Pool I σ α → List (Event I ε) → Pool I σ α → Prop where
  | nil (p : Pool I σ α) : Runs O p [] p
  | cons {p q : Pool I σ α} {i : ℕ} {e : ε} {c : I.Cmd} {next : I.Reply c → Prog I α}
      {t : List (Event I ε)} (hthread : p.threads i = .call c next)
      (hrest : Runs O ⟨(O.exec e c p.shared).2,
        Function.update p.threads i (next (O.exec e c p.shared).1)⟩ t q) :
      Runs O p (⟨i, e, c, (O.exec e c p.shared).1⟩ :: t) q

/-- The run a schedule gives: at each entry the named thread makes its next call. An entry for
a finished thread has no effect. -/
def Pool.run (O : Object I ε σ) : Pool I σ α → List (ℕ × ε) → List (Event I ε) × Pool I σ α
  | p, [] => ([], p)
  | p, (i, e) :: l =>
    match p.threads i with
    | .done _ => p.run O l
    | .call c next =>
      let out := O.exec e c p.shared
      let rest := Pool.run O ⟨out.2, Function.update p.threads i (next out.1)⟩ l
      (⟨i, e, c, out.1⟩ :: rest.1, rest.2)

/-- What a schedule computes is a run. -/
theorem Pool.runs_run (O : Object I ε σ) (p : Pool I σ α) (l : List (ℕ × ε)) :
    Runs O p (p.run O l).1 (p.run O l).2 := by
  induction l generalizing p with
  | nil => exact .nil p
  | cons x l ih =>
    obtain ⟨i, e⟩ := x
    cases hp : p.threads i with
    | done a => simpa only [Pool.run, hp] using ih p
    | call c next =>
      simp only [Pool.run, hp]
      exact .cons hp (ih _)

namespace Runs

variable {O : Object I ε σ} {p q r : Pool I σ α} {t u : List (Event I ε)}

/-- The object's view: a run is one sequential execution of its trace. -/
theorem legal (h : Runs O p t q) : O.Legal p.shared t := by
  induction h with
  | nil => trivial
  | cons _ _ ih => exact ⟨rfl, ih⟩

/-- It ends where that execution ends. -/
theorem replay_eq (h : Runs O p t q) : O.replay p.shared t = q.shared := by
  induction h with
  | nil => rfl
  | cons _ _ ih => exact ih

/-- A thread's view: a run takes every thread along a path of its own program. -/
theorem path (h : Runs O p t q) (i : ℕ) :
    Prog.Path (p.threads i) (callsOf i t) (q.threads i) := by
  induction h with
  | nil => exact .nil _
  | @cons p q j e c next t hthread _ ih =>
    by_cases hij : j = i
    · subst hij
      have hcalls : callsOf j (⟨j, e, c, (O.exec e c p.shared).1⟩ :: t) =
          ⟨c, (O.exec e c p.shared).1⟩ :: callsOf j t := callsOf_cons_eq rfl t
      rw [hcalls, hthread]
      exact .cons (by simpa using ih)
    · rw [callsOf_cons_ne hij]
      simpa [Function.update_of_ne (Ne.symm hij)] using ih

theorem append (h : Runs O p t q) (h' : Runs O q u r) : Runs O p (t ++ u) r := by
  induction h with
  | nil => exact h'
  | cons hthread _ ih => exact .cons hthread (ih h')

/-- A run can be cut after any of its events. -/
theorem split (h : Runs O p (t ++ u) r) : ∃ q, Runs O p t q ∧ Runs O q u r := by
  induction t generalizing p with
  | nil => exact ⟨p, .nil p, h⟩
  | cons ev t ih =>
    cases h with
    | cons hthread hrest =>
      obtain ⟨q, hq, hqr⟩ := ih hrest
      exact ⟨q, .cons hthread hq, hqr⟩

/-- The calls of a run are among those the threads' programs make. -/
theorem makes {P : ℕ → I.Cmd → Prop} (h : Runs O p t q) (hp : ∀ i, (p.threads i).Makes (P i))
    {ev : Event I ε} (hev : ev ∈ t) : P ev.thread ev.cmd :=
  ((hp ev.thread).of_path (h.path ev.thread)).1 _ (mem_callsOf hev)

/-- The program of a thread that makes no call in a run may as well be another one. -/
theorem update_idle (h : Runs O p t q) {i : ℕ} (hidle : callsOf i t = []) (prog : Prog I α) :
    Runs O ⟨p.shared, Function.update p.threads i prog⟩ t
      ⟨q.shared, Function.update q.threads i prog⟩ := by
  induction h with
  | nil => exact .nil _
  | @cons p q j e c next t hthread _ ih =>
    have hij : j ≠ i := by
      rintro rfl
      have hcalls : callsOf j (⟨j, e, c, (O.exec e c p.shared).1⟩ :: t) =
          ⟨c, (O.exec e c p.shared).1⟩ :: callsOf j t := callsOf_cons_eq rfl t
      rw [hcalls] at hidle
      exact absurd hidle (List.cons_ne_nil _ _)
    rw [callsOf_cons_ne hij] at hidle
    have hother : Function.update p.threads i prog j = .call c next := by
      rwa [Function.update_of_ne hij]
    refine .cons hother ?_
    show Runs O ⟨_, Function.update (Function.update p.threads i prog) j _⟩ t _
    rw [Function.update_comm (Ne.symm hij)]
    exact ih hidle

/-- One more call at the end of a run. -/
theorem concat (h : Runs O p t q) {i : ℕ} {c : I.Cmd} {next : I.Reply c → Prog I α}
    (hthread : q.threads i = .call c next) (e : ε) :
    Runs O p (t ++ [⟨i, e, c, (O.exec e c q.shared).1⟩])
      ⟨(O.exec e c q.shared).2,
        Function.update q.threads i (next (O.exec e c q.shared).1)⟩ :=
  h.append (.cons hthread (.nil _))

/-- Around one event of a run: the thread was about to make that call, and goes on with the
reply the object gave. -/
theorem around {ev : Event I ε} (h : Runs O p (t ++ ev :: u) r) :
    ∃ q next, Runs O p t q ∧ q.threads ev.thread = .call ev.cmd next ∧
      ev.reply = (O.exec ev.env ev.cmd q.shared).1 ∧
      Runs O ⟨(O.exec ev.env ev.cmd q.shared).2,
        Function.update q.threads ev.thread (next ev.reply)⟩ u r := by
  obtain ⟨q, hq, hqr⟩ := h.split
  cases hqr with
  | cons hthread hrest => exact ⟨q, _, hq, hthread, rfl, hrest⟩

/-- **Simulation rule for runs.** If related states give equal replies to the commands in `P` and
stay related, a run of such commands over one object is a run over the other, with the same
trace. -/
theorem simulate {σ' : Type} {O' : Object I ε σ'} {R : σ → σ' → Prop} {P : ε → I.Cmd → Prop}
    (hstep : ∀ s s' e c, R s s' → P e c →
      (O.exec e c s).1 = (O'.exec e c s').1 ∧ R (O.exec e c s).2 (O'.exec e c s').2)
    (h : Runs O p t q) (ht : ∀ ev ∈ t, P ev.env ev.cmd) {s' : σ'} (hs' : R p.shared s') :
    ∃ r', Runs O' ⟨s', p.threads⟩ t ⟨r', q.threads⟩ ∧ R q.shared r' := by
  induction h generalizing s' with
  | nil p => exact ⟨s', .nil _, hs'⟩
  | @cons p q i e c next t hthread hrest ih =>
    rw [List.forall_mem_cons] at ht
    obtain ⟨hreply, hnext⟩ := hstep p.shared s' e c hs' ht.1
    obtain ⟨r', hrun, hr'⟩ := ih ht.2 hnext
    rw [hreply] at hrun ⊢
    exact ⟨r', .cons hthread hrun, hr'⟩

end Runs

/-! ### Threads that come one after the other -/

/-- `OpenRuns O start s t s' ps`: a system without threads, in which a thread with the program
`start r` is added for every request `r` that comes in, goes from `s` to `s'` with trace `t`; `ps`
are the requests so far and what is left of their programs. -/
inductive OpenRuns {ρ : Type} (O : Object I ε σ) (start : ρ → Prog I α) (s : σ) :
    List (Event I ε) → σ → List (ρ × Prog I α) → Prop where
  | init : OpenRuns O start s [] s []
  | arrive {t : List (Event I ε)} {s' : σ} {ps : List (ρ × Prog I α)}
      (h : OpenRuns O start s t s' ps) (r : ρ) : OpenRuns O start s t s' (ps ++ [(r, start r)])
  | call {t : List (Event I ε)} {s' : σ} {ps : List (ρ × Prog I α)} {i : ℕ} {r : ρ} {c : I.Cmd}
      {next : I.Reply c → Prog I α} (h : OpenRuns O start s t s' ps)
      (hi : ps[i]? = some (r, .call c next)) (e : ε) :
      OpenRuns O start s (t ++ [⟨i, e, c, (O.exec e c s').1⟩]) (O.exec e c s').2
        (ps.set i (r, next (O.exec e c s').1))

/-- The threads of an open run might all have been there from the start: a thread makes no call
before it comes in. -/
theorem OpenRuns.closed {ρ : Type} [Inhabited ρ] {O : Object I ε σ} {start : ρ → Prog I α}
    {s s' : σ} {t : List (Event I ε)} {ps : List (ρ × Prog I α)}
    (h : OpenRuns O start s t s' ps) :
    ∃ (requests : ℕ → ρ) (q : Pool I σ α), Runs O ⟨s, fun i => start (requests i)⟩ t q ∧
      q.shared = s' ∧ (∀ i r p, ps[i]? = some (r, p) → requests i = r ∧ q.threads i = p) ∧
      ∀ i, ps.length ≤ i → callsOf i t = [] := by
  induction h with
  | init => exact ⟨fun _ => default, _, .nil _, rfl, fun _ _ _ hi => by simp at hi, fun _ _ => rfl⟩
  | @arrive t s' ps h r ih =>
    obtain ⟨requests, q, hrun, rfl, hps, hidle⟩ := ih
    have hstart : Function.update (fun i => start (requests i)) ps.length (start r) =
        fun i => start (Function.update requests ps.length r i) := by
      funext i
      by_cases hi : i = ps.length
      · rw [hi, Function.update_self, Function.update_self]
      · rw [Function.update_of_ne hi, Function.update_of_ne hi]
    have hrun' := hrun.update_idle (hidle _ (Nat.le_refl _)) (start r)
    rw [hstart] at hrun'
    refine ⟨_, _, hrun', rfl, fun i r' p hi => ?_, fun i hi => hidle i ?_⟩
    · by_cases hlt : i < ps.length
      · rw [List.getElem?_append_left hlt] at hi
        obtain ⟨hrequest, hprog⟩ := hps i r' p hi
        exact ⟨(Function.update_of_ne (Nat.ne_of_lt hlt) ..).trans hrequest,
          (Function.update_of_ne (Nat.ne_of_lt hlt) ..).trans hprog⟩
      · obtain rfl : i = ps.length := by
          have hlength := (List.getElem?_eq_some_iff.mp hi).1
          rw [List.length_append, List.length_singleton] at hlength
          omega
        rw [List.getElem?_concat_length] at hi
        cases hi
        exact ⟨Function.update_self .., Function.update_self ..⟩
    · rw [List.length_append, List.length_singleton] at hi
      omega
  | @call t s' ps i r c next h hi e ih =>
    obtain ⟨requests, q, hrun, rfl, hps, hidle⟩ := ih
    obtain ⟨hr, hthread⟩ := hps i r _ hi
    refine ⟨requests, _, hrun.concat hthread e, rfl, fun j r' p hj => ?_, fun j hj => ?_⟩
    · by_cases hij : i = j
      · subst hij
        have hlt := (List.getElem?_eq_some_iff.mp hi).1
        rw [List.getElem?_set_self hlt] at hj
        cases hj
        exact ⟨hr, Function.update_self ..⟩
      · rw [List.getElem?_set_ne hij] at hj
        obtain ⟨hrequest, hprog⟩ := hps j r' p hj
        exact ⟨hrequest, (Function.update_of_ne (Ne.symm hij) ..).trans hprog⟩
    · rw [List.length_set] at hj
      have hne : i ≠ j := by
        rintro rfl
        rw [List.getElem?_eq_none hj] at hi
        cases hi
      rw [callsOf, List.filter_append, List.map_append, ← callsOf, ← callsOf, hidle j hj,
        callsOf_cons_ne hne]
      rfl

end Interleaving
