import KeyBank.Foundation.Mutex
import KeyBank.Server.Refinement
import Mathlib.Logic.Function.Iterate

/-!
# The mutex of the in-memory store

Everywhere else `memKeyStore.Save` and `memKeyStore.Load` are single steps. Here they are what
`store.go` has: sequences of steps on the map (`memSteps`), with the calls of `m.mu` between them
(`memBody`), which the goroutines of the server interleave as they like. `memKeyStore_atomic`
concludes that this makes no difference.
-/

namespace KeyBank

open Interleaving

/-! ### The methods, step by step -/

/-- The steps of `Save` and `Load` apart from those of the mutex. -/
inductive MapStep where
  /-- `rand.Read(b)` -/
  | rand
  /-- `time.Now()` -/
  | now
  /-- `entry, ok := m.data[id]` -/
  | lookup (id : GoString)
  /-- `m.data[id] = entry` -/
  | insert (id : GoString) (entry : MemEntry)
  /-- `delete(m.data, id)` -/
  | delete (id : GoString)

/-- What each step yields. -/
@[reducible] def MapStep.Reply : MapStep → Type
  | .rand => Option (Vector UInt8 16)
  | .now => ℤ
  | .lookup _ => Option MemEntry
  | .insert _ _ => Unit
  | .delete _ => Unit

abbrev MapApi : Interface := ⟨MapStep, MapStep.Reply⟩

/-- The steps on the map `m.data`. -/
def memSteps : Object MapApi Env MemData where
  exec env
    | .rand, data => (env.draw, data)
    | .now, data => (env.now, data)
    | .lookup id, data => (data id, data)
    | .insert id entry, data => ((), Function.update data id (some entry))
    | .delete id, data => ((), Function.update data id none)

/-- `memKeyStore.Save`: the id is drawn before the mutex is taken. -/
def memSave (rec : Record) (ttl : Duration) : Prog (Locked MapApi) (Except StoreError GoString) :=
  .call (.op .rand) fun draw =>
    match randomID draw with
    | none => .done (.error .random)
    | some id =>
      .call .lock fun _ =>
        .call (.op .now) fun now =>
          .call (.op (.insert id ⟨rec, timeAdd now ttl⟩)) fun _ =>
            .call .unlock fun _ => .done (.ok id)

/-- `memKeyStore.Load`: the deferred `Unlock` comes last on every path. -/
def memLoad (id : GoString) : Prog (Locked MapApi) (Except StoreError (Option Record)) :=
  .call .lock fun _ =>
    .call (.op (.lookup id)) fun entry =>
      match entry with
      | none => .call .unlock fun _ => .done (.ok none)
      | some entry =>
        .call (.op (.delete id)) fun _ =>
          .call (.op .now) fun now =>
            .call .unlock fun _ =>
              .done (if entry.expiry < now then .ok none else .ok (some entry.record))

/-- The methods of `memKeyStore`. -/
def memBody : Bodies MapApi StoreApi
  | .save rec ttl => memSave rec ttl
  | .load id => memLoad id

/-! ### The methods in one step -/

instance : Inhabited Env := ⟨⟨0, none, true⟩⟩

/-- What the steps of a method take from outside, as the environment of one step: `Save` draws in
its first step and reads the clock in its third, `Load` reads the clock in its fourth. -/
def momentOf : StoreCall → List Env → Moment
  | .save _ _, es => ⟨⟨(es[2]?.getD default).now, es.headI.draw, true⟩, fun _ => false⟩
  | .load _, es => ⟨⟨(es[3]?.getD default).now, none, true⟩, fun _ => false⟩

/-- `memKeyStore` as an object whose environments are those of the steps. -/
def memAtomic : Object StoreApi (List Env) MemData where
  exec es c data := memObject.exec (momentOf c es) c data

/-- The environment a program meets in its `n`-th call. -/
theorem headI_tail_iterate {ε : Type} [Inhabited ε] (es : List ε) (n : ℕ) :
    (List.tail^[n] es).headI = es[n]?.getD default := by
  induction n generalizing es with
  | zero => cases es <;> rfl
  | succ n ih =>
    rw [Function.iterate_succ_apply, ih]
    cases es <;> rfl

theorem memSave_eval (es : List Env) (rec : Record) (ttl : Duration) (data : MemData) :
    let out := (memSave rec ttl).eval (lockObject memSteps) es (data, false)
    (out.1, out.2.1) = memKeyStore.save (momentOf (.save rec ttl) es).toEnv rec ttl data := by
  have hnow : es.tail.tail.headI = es[2]?.getD default := headI_tail_iterate es 2
  cases hid : randomID es.headI.draw with
  | none => simp [memSave, Prog.eval, lockObject, memSteps, momentOf, memKeyStore, hid]
  | some id => simp [memSave, Prog.eval, lockObject, memSteps, momentOf, memKeyStore, hid, hnow]

theorem memLoad_eval (es : List Env) (id : GoString) (data : MemData) :
    let out := (memLoad id).eval (lockObject memSteps) es (data, false)
    (out.1, out.2.1) = memKeyStore.load (momentOf (.load id) es).toEnv id data := by
  have hnow : es.tail.tail.tail.headI = es[3]?.getD default := headI_tail_iterate es 3
  cases hdata : data id with
  | none => simp [memLoad, Prog.eval, lockObject, memSteps, memKeyStore, hdata]
  | some entry =>
    by_cases hexp : entry.expiry < (es[3]?.getD default).now
    · simp [memLoad, Prog.eval, lockObject, memSteps, momentOf, memKeyStore, hdata, hnow, hexp]
    · simp [memLoad, Prog.eval, lockObject, memSteps, momentOf, memKeyStore, hdata, hnow, hexp]

/-- Run alone, the steps of a method come to what the method is in `memKeyStore`. -/
theorem atomicObject_memSteps : atomicObject memSteps memBody = memAtomic := by
  have hexec : (atomicObject memSteps memBody).exec = memAtomic.exec := by
    funext es c data
    cases c with
    | save rec ttl => exact memSave_eval es rec ttl data
    | load id => exact memLoad_eval es id data
  exact congrArg Object.mk hexec

/-! ### Any interleaving of the steps -/

/-- Outside of the mutex the methods only draw an id. -/
def IsDraw (c : MapStep) : Prop := c = .rand

theorem isDraw_local (c : MapStep) (hc : IsDraw c) (env : Env) :
    ∃ r, ∀ data, memSteps.exec env c data = (r, data) := by
  cases hc
  exact ⟨env.draw, fun _ => rfl⟩

theorem memBody_guarded (c : StoreCall) : Guarded IsDraw false (memBody c) := by
  cases c with
  | save rec ttl =>
    refine ⟨.inr rfl, fun draw => ?_⟩
    dsimp only
    cases randomID draw with
    | none => rfl
    | some id => exact ⟨rfl, ⟨.inl rfl, fun _ => ⟨.inl rfl, fun _ => ⟨rfl, _, rfl⟩⟩⟩⟩
  | load id =>
    refine ⟨rfl, .inl rfl, fun entry => ?_⟩
    cases entry with
    | none => exact ⟨rfl, _, rfl⟩
    | some entry => exact ⟨.inl rfl, fun _ => ⟨.inl rfl, fun _ => ⟨rfl, _, rfl⟩⟩⟩

theorem memBody_ne_done (c : StoreCall) (r : StoreCall.Reply c) : memBody c ≠ .done r := by
  cases c with
  | save rec ttl => exact nofun
  | load id => exact nofun

variable {α : Type} {data : MemData} {goroutines : ℕ → Prog StoreApi α}
  {t : List (Event (Locked MapApi) Env)} {q : Pool (Locked MapApi) (MemData × Bool) α}

/-- **The mutex makes the methods atomic.** However the steps of `Save` and `Load` are interleaved,
there is an order of the calls in which `memKeyStore` answers them the same, one step a call, and
which agrees with the run at every moment: who has finished, with what, and with what clock and
what draws. -/
theorem memKeyStore_atomic
    (hrun : Runs (lockObject memSteps)
      ⟨(data, false), fun i => (goroutines i).expand memBody⟩ t q)
    (hadm : (lockObject memSteps).Always Admitted (data, false) t) :
    ∃ t' q', Runs memAtomic ⟨data, goroutines⟩ t' q' ∧ Stands t q t' q' ∧
      ∀ t₁ m, t₁ <+: t →
        Runs (lockObject memSteps)
          ⟨(data, false), fun i => (goroutines i).expand memBody⟩ t₁ m →
        ∃ t₁' m', t₁' <+: t' ∧ Runs memAtomic ⟨data, goroutines⟩ t₁' m' ∧
          Stands t₁ m t₁' m' := by
  have hlin := Runs.linearize (p := ⟨data, goroutines⟩) isDraw_local memBody_guarded
    memBody_ne_done hrun hadm
  rwa [atomicObject_memSteps] at hlin

/-- A goroutine saves a record and another one loads it; a third one draws its id in between. -/
def sampleGoroutines : ℕ → Prog StoreApi (Option Record)
  | 0 => .call (.save ⟨[75], 0⟩ 60) fun _ => .done none
  | 1 => .call (.load (hexEncodeToString (List.replicate 16 0))) fun r => .done (r.toOption.join)
  | 2 => .call (.save ⟨[76], 0⟩ 60) fun _ => .done none
  | _ => .done none

/-- The order of their steps: the third one draws while the first one holds the mutex. -/
def sampleSteps : List (ℕ × Env) :=
  [0, 0, 2, 0, 0, 0, 1, 1, 1, 1, 1].map fun i =>
    (i, ⟨0, some (Vector.replicate 16 (if i = 2 then 1 else 0)), true⟩)

theorem memKeyStore_atomic_sampleSteps :
    ∃ t' q', Runs memAtomic ⟨newMemKeyStore, sampleGoroutines⟩ t' q' ∧
      q'.threads 1 = .done (some ⟨[75], 0⟩) := by
  let p : Pool (Locked MapApi) (MemData × Bool) (Option Record) :=
    ⟨(newMemKeyStore, false), fun i => (sampleGoroutines i).expand memBody⟩
  have hadm : (lockObject memSteps).Always Admitted p.shared
      (p.run (lockObject memSteps) sampleSteps).1 :=
    ⟨nofun, fun _ => rfl, nofun, nofun, nofun, nofun, fun _ => rfl, nofun, nofun, nofun, nofun,
      trivial⟩
  obtain ⟨t', q', hrun, hstands, -⟩ := memKeyStore_atomic (p.runs_run _ sampleSteps) hadm
  exact ⟨t', q', hrun, (hstands.results 1 _).mp rfl⟩

/-- **No method keeps the mutex.** At every moment of a run it is free, or the goroutine that holds
it can go on by itself until it is. -/
theorem memKeyStore_releases
    (hrun : Runs (lockObject memSteps)
      ⟨(data, false), fun i => (goroutines i).expand memBody⟩ t q)
    (hadm : (lockObject memSteps).Always Admitted (data, false) t) :
    ∃ i u r, Runs (lockObject memSteps) q u r ∧
      (lockObject memSteps).Always Admitted q.shared u ∧ (∀ ev ∈ u, ev.thread = i) ∧
      r.shared.2 = false :=
  Runs.exists_release (p := ⟨data, goroutines⟩) isDraw_local memBody_guarded memBody_ne_done hrun
    hadm

theorem memKeyStore_releases_sampleSteps :
    ∃ i u r, Runs (lockObject memSteps)
      (Pool.run (lockObject memSteps)
        ⟨(newMemKeyStore, false), fun i => (sampleGoroutines i).expand memBody⟩
        (sampleSteps.take 3)).2 u r ∧ (∀ ev ∈ u, ev.thread = i) ∧ r.shared.2 = false := by
  let p : Pool (Locked MapApi) (MemData × Bool) (Option Record) :=
    ⟨(newMemKeyStore, false), fun i => (sampleGoroutines i).expand memBody⟩
  have hadm : (lockObject memSteps).Always Admitted p.shared
      (p.run (lockObject memSteps) (sampleSteps.take 3)).1 :=
    ⟨nofun, fun _ => rfl, nofun, trivial⟩
  obtain ⟨i, u, r, hrun, -, hown, hfree⟩ :=
    memKeyStore_releases (p.runs_run _ (sampleSteps.take 3)) hadm
  exact ⟨i, u, r, hrun, hown, hfree⟩

end KeyBank
